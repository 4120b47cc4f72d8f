import FuzzUSB.GadgetCalls

/-!
# The existence checks of the gadget calls

Eight calls ask `stat` whether a gadget directory exists and look at `st_mode` without
looking at the result of `stat`. When there is nothing of that name, `st_mode` is what the
stack held before.
-/

namespace FuzzUSB.Gadget
open Program

/-- The calls that make an existence check. -/
inductive GuardedCall
  | configfsHid (attrs : ConfigfsAttr)
  | configfsHid2 (attrs : ConfigfsAttr)
  | trans0_1 (gname : String) (attrs : ConfigfsAttr)
  | trans5_4 (gName : String)
  | trans4_3 (gName : String)
  | trans3_2 (gName : String)
  | trans2_1 (gName : String)
  | trans1_0 (gName : String)

namespace GuardedCall

/-- The call with what its `struct stat` holds before. A `void` function returns `none`. -/
def prog : GuardedCall → ℕ → Exec (Option ℤ)
  | configfsHid attrs, stMode => do
    syzUsbConfigfsHid attrs stMode
    return none
  | configfsHid2 attrs, stMode => do
    syzUsbConfigfsHid2 attrs stMode
    return none
  | trans0_1 gname attrs, stMode => do
    let ret ← syzUsbTrans0_1 gname attrs stMode
    return some ret
  | trans5_4 gName, stMode => do
    syzUsbTrans5_4 gName stMode
    return none
  | trans4_3 gName, stMode => do
    syzUsbTrans4_3 gName stMode
    return none
  | trans3_2 gName, stMode => do
    syzUsbTrans3_2 gName stMode
    return none
  | trans2_1 gName, stMode => do
    syzUsbTrans2_1 gName stMode
    return none
  | trans1_0 gName, stMode => do
    syzUsbTrans1_0 gName stMode
    return none

/-- The gadget that the call asks for. -/
def gadget : GuardedCall → String
  | configfsHid _ => "hid"
  | configfsHid2 _ => "hid2"
  | trans0_1 g _ | trans5_4 g | trans4_3 g | trans3_2 g | trans2_1 g | trans1_0 g => g

/-- The call works on a gadget that is there, and does not create one. -/
def teardown : GuardedCall → Bool
  | configfsHid _ | configfsHid2 _ | trans0_1 _ _ => false
  | _ => true

/-- The call returns at once when it cannot enter `usb_gadget/`. -/
def ChecksChdir : GuardedCall → Prop
  | trans0_1 _ _ | trans1_0 _ => True
  | _ => False

instance (c : GuardedCall) : Decidable c.ChecksChdir := by
  unfold ChecksChdir
  split <;> infer_instance

/-- What the call does next when it proceeds. -/
def proceedsWith : GuardedCall → Sys
  | configfsHid _ => .mkdir (.name "hid")
  | configfsHid2 _ => .mkdir (.name "hid2")
  | trans0_1 g _ => .mkdir (.name g)
  | trans1_0 g => .rmdir (.name g)
  | trans5_4 g | trans4_3 g | trans3_2 g | trans2_1 g => .chdir (.name g)

theorem ite_bind {α β : Type} (b : Prop) [Decidable b] (p q : Exec α) (f : α → Exec β) :
    (if b then p else q) >>= f = if b then p >>= f else q >>= f := by
  split <;> rfl

theorem ite_bool {α : Type} (b : Bool) (p q : α) :
    (if b = true then p else q) = if b = false then q else p := by
  cases b <;> rfl

/-- The form that the eight calls share. -/
theorem prog_eq (c : GuardedCall) :
    ∃ (early : ℤ → Option ℤ) (r : Option ℤ) (next : c.proceedsWith.Result → Exec (Option ℤ)),
      ∀ stMode, c.prog stMode = call (.chdir .usbGadget) fun ret =>
        if ret < 0 ∧ c.ChecksChdir then .ret (early ret)
        else call (.stat (.name c.gadget)) fun mode =>
          if sIsDir (mode.getD stMode) = c.teardown then call c.proceedsWith next else .ret r := by
  cases c with
  | configfsHid | configfsHid2 =>
    simp only [prog, syzUsbConfigfsHid, syzUsbConfigfsHid2, Gadget.configfsHid, statMode,
      pure_eq_ret, ret_bind, ite_bind, perform_bind, call_bind, gadget, teardown, ChecksChdir,
      proceedsWith, and_false, if_false, ite_bool]
    exact ⟨fun _ => none, none, _, fun _ => rfl⟩
  | trans0_1 =>
    simp only [prog, syzUsbTrans0_1, statMode, pure_eq_ret, ret_bind, ite_bind, perform_bind,
      call_bind, gadget, teardown, ChecksChdir, proceedsWith, and_true, ite_bool]
    exact ⟨some, some (-1), _, fun _ => rfl⟩
  | trans5_4 | trans4_3 | trans3_2 | trans2_1 =>
    simp only [prog, syzUsbTrans5_4, syzUsbTrans4_3, syzUsbTrans3_2, syzUsbTrans2_1, inGadget,
      statMode, pure_eq_ret, ret_bind, ite_bind, perform_bind, call_bind, gadget, teardown,
      ChecksChdir, proceedsWith, and_false, if_false]
    exact ⟨fun _ => none, none, _, fun _ => rfl⟩
  | trans1_0 =>
    simp only [prog, syzUsbTrans1_0, statMode, pure_eq_ret, ret_bind, ite_bind, perform_bind,
      call_bind, gadget, teardown, ChecksChdir, proceedsWith, and_true]
    exact ⟨fun _ => none, none, _, fun _ => rfl⟩

end GuardedCall

/-! ## Two runs on one file system -/

/-- A file system, as far as the calls can see it. -/
structure FileSystem where
  /-- The answer to a call after earlier ones. -/
  answer : List Sys → (c : Sys) → c.Result
  /-- `st_mode` of `usb_gadget/<g>`, if there is such an entry. -/
  gadgetMode : String → Option ℕ
  entered : 0 ≤ answer [] (.chdir .usbGadget) →
    ∀ g, answer [.chdir .usbGadget] (.stat (.name g)) = gadgetMode g

namespace FileSystem

variable (fs : FileSystem) (c : GuardedCall)

def HasGadget (g : String) : Prop := ∃ mode, fs.gadgetMode g = some mode ∧ sIsDir mode = true

/-- What the call returns and the system calls it makes. -/
def seen (stMode : ℕ) : Option ℤ × List Sys := observe fs.answer (c.prog stMode)

/-- The file system alone decides what the call does: the old contents of its `struct stat`
have no part in it, and where it asks for the gadget, it creates one exactly if there is
none and works on one exactly if there is one. -/
structure Decided : Prop where
  same : ∀ stMode₁ stMode₂, fs.seen c stMode₁ = fs.seen c stMode₂
  check : ∀ stMode, .stat (.name c.gadget) ∈ (fs.seen c stMode).2 →
    (c.proceedsWith ∈ (fs.seen c stMode).2 ↔ (c.teardown = true ↔ fs.HasGadget c.gadget))

/-- The call returns before its check. -/
def GivesUp : Prop := fs.answer [] (.chdir .usbGadget) < 0 ∧ c.ChecksChdir

/-- What `stat` answers to the call. -/
def statAnswer : Option ℕ := fs.answer [.chdir .usbGadget] (.stat (.name c.gadget))

variable {fs c}

theorem seen_of_givesUp (h : fs.GivesUp c) :
    ∃ r, ∀ stMode, fs.seen c stMode = (r, [.chdir .usbGadget]) := by
  obtain ⟨early, r, next, hprog⟩ := c.prog_eq
  refine ⟨early (fs.answer [] (.chdir .usbGadget)), fun stMode => ?_⟩
  have h' : fs.answer [] (.chdir .usbGadget) < 0 ∧ c.ChecksChdir := h
  simp [seen, observe, hprog, h']

/-- A call that makes its check goes on or returns, as `st_mode` says. -/
theorem seen_of_not_givesUp (h : ¬fs.GivesUp c) :
    ∃ r go, [.chdir .usbGadget, .stat (.name c.gadget), c.proceedsWith] <+: go.2 ∧
      ∀ stMode, fs.seen c stMode =
        if sIsDir ((fs.statAnswer c).getD stMode) = c.teardown then go
        else (r, [.chdir .usbGadget, .stat (.name c.gadget)]) := by
  obtain ⟨early, r, next, hprog⟩ := c.prog_eq
  let before : List Sys := [.chdir .usbGadget, .stat (.name c.gadget)]
  refine ⟨r, _, prefix_run fs.answer (next (fs.answer before c.proceedsWith)) _, fun stMode => ?_⟩
  have h' : ¬(fs.answer [] (.chdir .usbGadget) < 0 ∧ c.ChecksChdir) := h
  simp only [seen, observe, hprog, run_call, h', if_false, List.nil_append, List.singleton_append]
  split
  · next hdir =>
    exact (if_pos hdir).symm
  · next hdir =>
    exact (if_neg hdir).symm

/-- The check is the second call, so that no call with a failing `chdir` need make it. -/
theorem stat_mem_seen (h : ¬fs.GivesUp c) (stMode : ℕ) :
    .stat (.name c.gadget) ∈ (fs.seen c stMode).2 := by
  obtain ⟨r, go, hgo, hseen⟩ := seen_of_not_givesUp h
  rw [hseen]
  split
  · exact hgo.subset (by simp)
  · simp

theorem proceedsWith_not_before (c : GuardedCall) :
    c.proceedsWith ∉ [Sys.chdir .usbGadget, .stat (.name c.gadget)] := by
  cases c <;> simp [GuardedCall.proceedsWith]

/-- The call proceeds as `st_mode` says. -/
theorem proceeds_iff (h : ¬fs.GivesUp c) (stMode : ℕ) :
    c.proceedsWith ∈ (fs.seen c stMode).2 ↔
      (c.teardown = true ↔ sIsDir ((fs.statAnswer c).getD stMode) = true) := by
  obtain ⟨r, go, hgo, hseen⟩ := seen_of_not_givesUp h
  have hmem : c.proceedsWith ∈ go.2 := hgo.subset (by simp)
  rw [hseen, Bool.coe_iff_coe]
  split
  · next hdir => exact iff_of_true hmem hdir.symm
  · next hdir => exact iff_of_false (proceedsWith_not_before c) (Ne.symm hdir)

/-- The file system decides exactly when `stat` finds something of that name, which is a
directory just if the gadget exists, or when the call does not get as far. -/
theorem decided_iff (fs : FileSystem) (c : GuardedCall) :
    fs.Decided c ↔ fs.GivesUp c ∨
      ∃ mode, fs.statAnswer c = some mode ∧ (sIsDir mode = true ↔ fs.HasGadget c.gadget) := by
  by_cases hup : fs.GivesUp c
  · obtain ⟨r, hseen⟩ := seen_of_givesUp hup
    apply iff_of_true _ (.inl hup)
    constructor
    · intro m₁ m₂
      rw [hseen, hseen]
    · intro m hstat
      rw [hseen] at hstat
      simp at hstat
  · simp only [hup, false_or]
    constructor
    · intro hd
      cases hstat : fs.statAnswer c with
      | none =>
        -- With a mode of a directory on the stack, and with none, the call goes two ways.
        have hdir := proceeds_iff hup dirMode
        have hzero := proceeds_iff hup 0
        rw [hd.same dirMode 0, hzero, hstat] at hdir
        simp [sIsDir, dirMode] at hdir
      | some mode =>
        have hcheck := hd.check 0 (stat_mem_seen hup 0)
        rw [proceeds_iff hup, hstat, Option.getD_some] at hcheck
        exact ⟨mode, rfl, by tauto⟩
    · rintro ⟨mode, hstat, hdir⟩
      constructor
      · intro m₁ m₂
        obtain ⟨r, go, -, hseen⟩ := seen_of_not_givesUp hup
        rw [hseen, hseen, hstat, Option.getD_some, Option.getD_some]
      · intro m _
        rw [proceeds_iff hup, hstat, Option.getD_some, hdir]

/-- In `usb_gadget/` itself: the gadget has to be there. -/
theorem decided_iff_of_entered (h : 0 ≤ fs.answer [] (.chdir .usbGadget)) :
    fs.Decided c ↔ (fs.gadgetMode c.gadget).isSome := by
  have hstat : fs.statAnswer c = fs.gadgetMode c.gadget := fs.entered h c.gadget
  have hup : ¬fs.GivesUp c := fun hup => absurd hup.1 (not_lt.mpr h)
  rw [decided_iff, or_iff_right hup, hstat, Option.isSome_iff_exists]
  apply exists_congr
  intro mode
  rw [and_iff_left_iff_imp]
  intro hmode
  simp [HasGadget, hmode]

end FileSystem

/-! ## A process in configfs -/

/-- What a process sees of its tree. -/
def Proc.fileSystem (k : Kernel) (s : Proc) : FileSystem where
  answer := replay (Proc.handle k) s
  gadgetMode g := (s.tree g).map fun _ => dirMode
  entered := by
    intro _ g
    cases hg : s.tree g <;>
      simp [replay, Proc.chdir, Proc.stat, resolve, Tree.isDir, Tree.isFile, hg]

/-- A run of the call returns what is seen, and leaves what the calls seen leave. -/
theorem run_eq_seen (k : Kernel) (s : Proc) (c : GuardedCall) (stMode : ℕ) :
    (c.prog stMode).run (Proc.handle k) s =
      (((s.fileSystem k).seen c stMode).1,
        ((s.fileSystem k).seen c stMode).2.foldl (fun s c => (Proc.handle k c s).2) s) :=
  run_eq_observe (Proc.handle k) _ s

/-- For a gadget that is not there, the stack decides. -/
theorem decided_proc_iff (k : Kernel) (s : Proc) (c : GuardedCall) :
    (s.fileSystem k).Decided c ↔ (s.tree c.gadget).isSome := by
  rw [FileSystem.decided_iff_of_entered]
  · simp [Proc.fileSystem]
  · simp [Proc.fileSystem, replay, Proc.chdir, resolve]

/-- `syz_usb_trans5_4("hid")` on the empty tree. -/
theorem trans5_4_follows_stack :
    ¬(Proc.start.fileSystem ⟨fun _ => true, fun _ _ => 0⟩).Decided (.trans5_4 "hid") := by
  intro h
  have hlen := congrArg (fun seen => seen.2.length) (h.same 0 dirMode)
  exact absurd hlen (by decide)

end FuzzUSB.Gadget
