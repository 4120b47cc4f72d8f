import FuzzUSB.GadgetCalls

/-!
# Building a gadget and taking it apart

The teardown calls remove one link, one function and the configuration `c.1`, with names
from tables of their own. They take a gadget away exactly when nothing else was built in it.
-/

namespace FuzzUSB.Gadget
open Program

/-! ## What the teardown calls do below one gadget -/

namespace GadgetDir

/-- What `syz_usb_trans4_3` leaves. -/
def clearLink (link : Option (String × String)) (d : GadgetDir) : GadgetDir :=
  match link with
  | some (c, n) => (d.unlink c n).getD d
  | none => d

/-- What `syz_usb_trans3_2` leaves. -/
def clearFunction (func : Option String) (d : GadgetDir) : GadgetDir :=
  match func with
  | some f => (d.rmFunction f).getD d
  | none => d

/-- What `syz_usb_trans2_1` leaves. -/
def clearConfig (d : GadgetDir) : GadgetDir := (d.rmConfig "c.1").getD d

variable (d : GadgetDir)

theorem clearLink_spec (link : Option (String × String)) :
    (d.clearLink link).configs = d.configs ∧ (d.clearLink link).functions = d.functions ∧
      ∀ l, l ∈ (d.clearLink link).links ↔ l ∈ d.links ∧ link ≠ some (l.config, l.name) := by
  cases link with
  | none => simp [clearLink]
  | some cn =>
    obtain ⟨c, n⟩ := cn
    simp only [clearLink, unlink]
    split
    · refine ⟨rfl, rfl, fun l => ?_⟩
      simp only [Option.getD_some, List.mem_filter, decide_eq_true_eq]
      refine and_congr_right fun _ => not_congr ⟨fun ⟨hc, hn⟩ => by rw [hc, hn], ?_⟩
      rintro ⟨⟩
      exact ⟨rfl, rfl⟩
    · next hno =>
      push Not at hno
      refine ⟨rfl, rfl, fun l => ⟨fun hl => ⟨hl, ?_⟩, And.left⟩⟩
      rintro ⟨⟩
      exact hno l hl rfl rfl

theorem clearFunction_spec (func : Option String) :
    (d.clearFunction func).configs = d.configs ∧ (d.clearFunction func).links = d.links ∧
      ∀ f, f ∈ (d.clearFunction func).functions ↔
        f ∈ d.functions ∧ ¬(func = some f ∧ ∀ l ∈ d.links, l.target ≠ f) := by
  cases func with
  | none => simp [clearFunction]
  | some f' =>
    simp only [clearFunction, rmFunction]
    split
    · next hrm =>
      refine ⟨rfl, rfl, fun f => ?_⟩
      simp only [Option.getD_some, List.mem_filter, Option.some.injEq, decide_eq_true_eq]
      refine and_congr_right fun _ => ⟨fun hne h => hne h.1.symm, fun h hne => h ⟨hne.symm, ?_⟩⟩
      exact hne ▸ hrm.2
    · next hno =>
      refine ⟨rfl, rfl, fun f => ⟨fun hf => ⟨hf, ?_⟩, And.left⟩⟩
      rintro ⟨hff, hfree⟩
      obtain rfl := Option.some.inj hff
      exact hno ⟨hf, hfree⟩

theorem clearConfig_spec :
    d.clearConfig.functions = d.functions ∧ d.clearConfig.links = d.links ∧
      ∀ c, c ∈ d.clearConfig.configs ↔
        c ∈ d.configs ∧ ¬(c = "c.1" ∧ ∀ l ∈ d.links, l.config ≠ c) := by
  simp only [clearConfig, rmConfig]
  split
  · next hrm =>
    refine ⟨rfl, rfl, fun c => ?_⟩
    simp only [Option.getD_some, List.mem_filter, decide_eq_true_eq]
    refine and_congr_right fun _ => ⟨fun hne h => hne h.1, fun h hne => h ⟨hne, ?_⟩⟩
    exact hne ▸ hrm.2
  · next hno =>
    refine ⟨rfl, rfl, fun c => ⟨fun hc => ⟨hc, ?_⟩, And.left⟩⟩
    rintro ⟨rfl, hfree⟩
    exact hno ⟨hc, hfree⟩

/-- A gadget is bare after the three calls exactly when they know everything in it. Links
left over would hold their configuration, so none is left over. -/
theorem bare_clear_iff (link : Option (String × String)) (func : Option String) :
    ((d.clearLink link).clearFunction func).clearConfig.Bare ↔
      (∀ c ∈ d.configs, c = "c.1") ∧ (∀ f ∈ d.functions, func = some f) ∧
        ∀ l ∈ d.links, link = some (l.config, l.name) := by
  obtain ⟨hc₁, hf₁, hl₁⟩ := d.clearLink_spec link
  obtain ⟨hc₂, hl₂, hf₂⟩ := (d.clearLink link).clearFunction_spec func
  obtain ⟨hf₃, hl₃, hc₃⟩ := ((d.clearLink link).clearFunction func).clearConfig_spec
  rw [hl₂, hc₂, hc₁] at hc₃
  rw [hf₁] at hf₂
  rw [hl₂] at hl₃
  simp only [Bare, List.eq_nil_iff_forall_not_mem, hf₃, hc₃, hf₂]
  constructor
  · rintro ⟨hconf, hfunc⟩
    have hconf : ∀ c ∈ d.configs, c = "c.1" ∧ ∀ l ∈ (d.clearLink link).links, l.config ≠ c :=
      fun c hc => by_contra fun hne => hconf c ⟨hc, hne⟩
    -- A link that is left would have kept its configuration.
    have hlinks : ∀ l, l ∉ (d.clearLink link).links := by
      intro l hl
      have hmem := (d.clearLink link).link_config l hl
      exact (hconf l.config (hc₁ ▸ hmem)).2 l hl rfl
    refine ⟨fun c hc => (hconf c hc).1, fun f hf => ?_, fun l hl => ?_⟩
    · exact (by_contra fun hne => hfunc f ⟨hf, hne⟩ : func = some f ∧ _).1
    · by_contra hne
      exact hlinks l ((hl₁ l).mpr ⟨hl, hne⟩)
  · rintro ⟨hconf, hfunc, hlink⟩
    have hlinks : ∀ l, l ∉ (d.clearLink link).links := fun l hl =>
      ((hl₁ l).mp hl).2 (hlink l ((hl₁ l).mp hl).1)
    exact ⟨fun c ⟨hc, hkept⟩ => hkept ⟨hconf c hc, fun l hl => absurd hl (hlinks l)⟩,
      fun f ⟨hf, hkept⟩ => hkept ⟨hfunc f hf, fun l hl => absurd hl (hlinks l)⟩⟩

end GadgetDir

/-! ## One teardown call -/

section

variable (k : Kernel) (s : Proc) (g : String) (stMode : ℕ)

theorem writeFile_tree (p : Path) (data : Data) : (exec k (writeFile p data) s).tree = s.tree := by
  simp [exec, writeFile]

/-- The body runs below the gadget, or where there is none. -/
theorem inGadget_tree (body : Exec Unit) (f : GadgetDir → GadgetDir)
    (h : ∀ s : Proc, s.cwd = .gadget g ∨ s.cwd = .base ∧ s.tree g = none →
      (exec k body s).tree g = (s.tree g).map f) :
    (exec k (inGadget g stMode body) s).tree g = (s.tree g).map f := by
  cases hg : s.tree g with
  | none =>
    -- `st` may show a directory although there is none; the body then runs in `usb_gadget/`.
    have hbase := h { s with cwd := .base } (.inr ⟨rfl, hg⟩)
    by_cases hm : sIsDir stMode
    · simpa [exec, inGadget, statMode, Proc.chdir, Proc.stat, resolve, Tree.isDir,
        Tree.isFile, hg, hm] using hbase
    · simp [exec, inGadget, statMode, Proc.chdir, Proc.stat, resolve, Tree.isDir,
        Tree.isFile, hg, hm]
  | some d =>
    have hbody := h { s with cwd := .gadget g } (.inl rfl)
    simpa [exec, inGadget, statMode, Proc.chdir, Proc.stat, resolve, Tree.isDir,
      hg, sIsDir, dirMode] using hbody

theorem syzUsbTrans4_3_tree : (exec k (syzUsbTrans4_3 g stMode) s).tree g =
    (s.tree g).map (·.clearLink (linkTable.lookup g)) := by
  apply inGadget_tree k s g stMode
  intro s hs
  cases linkTable.lookup g with
  | none => simp [exec, GadgetDir.clearLink]
  | some cn =>
    rcases hs with hcwd | ⟨hcwd, hg⟩
    · simp [exec, resolve, Tree.remove, hcwd, GadgetDir.clearLink]
    · simp [exec, resolve, hcwd, hg]

theorem syzUsbTrans3_2_tree : (exec k (syzUsbTrans3_2 g stMode) s).tree g =
    (s.tree g).map (·.clearFunction (functionTable.lookup g)) := by
  apply inGadget_tree k s g stMode
  intro s hs
  cases functionTable.lookup g with
  | none => simp [exec, GadgetDir.clearFunction]
  | some f =>
    rcases hs with hcwd | ⟨hcwd, hg⟩
    · simp [exec, resolve, Tree.rmdir, hcwd, GadgetDir.clearFunction]
    · simp [exec, resolve, hcwd, hg]

theorem syzUsbTrans2_1_tree : (exec k (syzUsbTrans2_1 g stMode) s).tree g =
    (s.tree g).map GadgetDir.clearConfig := by
  apply inGadget_tree k s g stMode
  intro s hs
  rcases hs with hcwd | ⟨hcwd, hg⟩
  · simp [exec, resolve, Tree.rmdir, hcwd]
    rfl
  · simp [exec, resolve, hcwd, hg]

theorem syzUsbTrans5_4_tree : (exec k (syzUsbTrans5_4 g stMode) s).tree g = s.tree g := by
  refine (inGadget_tree k s g stMode _ id fun s _ => ?_).trans (by simp)
  simp [writeFile_tree]

theorem syzUsbTrans1_0_tree : (exec k (syzUsbTrans1_0 g stMode) s).tree g =
    (s.tree g).bind fun d => if d.Bare then none else some d := by
  cases hg : s.tree g with
  | none =>
    by_cases hm : sIsDir stMode <;>
      simp [exec, syzUsbTrans1_0, statMode, Proc.chdir, Proc.stat, resolve,
        Tree.isDir, Tree.isFile, Tree.rmdir, hg, hm]
  | some d =>
    by_cases hd : d.Bare <;>
      simp [exec, syzUsbTrans1_0, statMode, Proc.chdir, Proc.stat, resolve,
        Tree.isDir, Tree.rmdir, hg, hd, sIsDir, dirMode]

/-- What `struct stat` holds before `stat`, in each call. -/
structure StModes where
  trans5_4 : ℕ
  trans4_3 : ℕ
  trans3_2 : ℕ
  trans2_1 : ℕ
  trans1_0 : ℕ
  trans0_1 : ℕ

def teardown (m : StModes) : Exec Unit := do
  syzUsbTrans5_4 g m.trans5_4
  syzUsbTrans4_3 g m.trans4_3
  syzUsbTrans3_2 g m.trans3_2
  syzUsbTrans2_1 g m.trans2_1
  syzUsbTrans1_0 g m.trans1_0

theorem teardown_tree (m : StModes) : (exec k (teardown g m) s).tree g =
    (s.tree g).bind fun d =>
      let d := (d.clearLink (linkTable.lookup g)).clearFunction (functionTable.lookup g)
      if d.clearConfig.Bare then none else some d.clearConfig := by
  have hrun : exec k (teardown g m) s =
      exec k (syzUsbTrans1_0 g m.trans1_0) (exec k (syzUsbTrans2_1 g m.trans2_1)
        (exec k (syzUsbTrans3_2 g m.trans3_2) (exec k (syzUsbTrans4_3 g m.trans4_3)
          (exec k (syzUsbTrans5_4 g m.trans5_4) s)))) := by
    simp [exec, teardown]
  rw [hrun, syzUsbTrans1_0_tree, syzUsbTrans2_1_tree, syzUsbTrans3_2_tree, syzUsbTrans4_3_tree,
    syzUsbTrans5_4_tree]
  cases s.tree g <;> rfl

/-- The teardown calls for `g` have a name for everything in a gadget. -/
def GadgetDir.Known (g : String) (d : GadgetDir) : Prop :=
  (∀ c ∈ d.configs, c = "c.1") ∧ (∀ f ∈ d.functions, functionTable.lookup g = some f) ∧
    ∀ l ∈ d.links, linkTable.lookup g = some (l.config, l.name)

def Removable (t : Tree) (g : String) : Prop := ∀ d, t g = some d → d.Known g

theorem teardown_removes_iff (m : StModes) :
    (exec k (teardown g m) s).tree g = none ↔ Removable s.tree g := by
  rw [teardown_tree]
  cases hg : s.tree g with
  | none => simp [Removable, hg]
  | some d => simp [Removable, GadgetDir.Known, hg, ← GadgetDir.bare_clear_iff]

/-- `syz_usb_trans0_1` returns 0 exactly when `st` does not show a directory. -/
theorem syzUsbTrans0_1_eq_zero_iff (attrs : ConfigfsAttr) :
    ((syzUsbTrans0_1 g attrs stMode).run (Proc.handle k) s).1 = 0 ↔
      s.tree g = none ∧ ¬sIsDir stMode := by
  cases hg : s.tree g with
  | none =>
    by_cases hm : sIsDir stMode <;>
      simp [syzUsbTrans0_1, statMode, Proc.chdir, Proc.stat, resolve, Tree.isDir, Tree.isFile,
        Tree.mkdir, Proc.attempt, hg, hm]
  | some d =>
    simp [syzUsbTrans0_1, statMode, Proc.chdir, Proc.stat, resolve, Tree.isDir, hg, sIsDir,
      dirMode]

end

/-! ## Runs that teardown can undo -/

namespace GadgetDir.Known

variable {g : String} {d d' : GadgetDir} (h : d.Known g)
include h

theorem mkConfig (hd : d.mkConfig "c.1" = some d') : d'.Known g := by
  obtain ⟨hc, hf, hl⟩ := h
  unfold GadgetDir.mkConfig at hd
  split at hd <;> cases hd
  exact ⟨by simpa using hc, hf, hl⟩

theorem mkFunction {f : String} (hfit : functionTable.lookup g = some f)
    (hd : d.mkFunction f = some d') : d'.Known g := by
  obtain ⟨hc, hf, hl⟩ := h
  unfold GadgetDir.mkFunction at hd
  split at hd <;> cases hd
  exact ⟨hc, by simpa [hfit] using hf, hl⟩

theorem addLink {l : Link} (hfit : linkTable.lookup g = some (l.config, l.name))
    (hd : d.addLink l = some d') : d'.Known g := by
  obtain ⟨hc, hf, hl⟩ := h
  unfold GadgetDir.addLink at hd
  split at hd <;> cases hd
  exact ⟨hc, hf, List.forall_mem_cons.mpr ⟨hfit, hl⟩⟩

theorem rmConfig {c : String} (hd : d.rmConfig c = some d') : d'.Known g := by
  obtain ⟨hc, hf, hl⟩ := h
  unfold GadgetDir.rmConfig at hd
  split at hd <;> cases hd
  exact ⟨fun c hmem => hc c (List.mem_filter.mp hmem).1, hf, hl⟩

theorem rmFunction {f : String} (hd : d.rmFunction f = some d') : d'.Known g := by
  obtain ⟨hc, hf, hl⟩ := h
  unfold GadgetDir.rmFunction at hd
  split at hd <;> cases hd
  exact ⟨hc, fun f hmem => hf f (List.mem_filter.mp hmem).1, hl⟩

theorem unlink {c n : String} (hd : d.unlink c n = some d') : d'.Known g := by
  obtain ⟨hc, hf, hl⟩ := h
  unfold GadgetDir.unlink at hd
  split at hd <;> cases hd
  exact ⟨hc, hf, fun l hmem => hl l (List.mem_filter.mp hmem).1⟩

end GadgetDir.Known

namespace Tree

variable {t t' : Tree} (ht : ∀ g, Removable t g)
include ht

theorem update_removable (g : String) (d : Option GadgetDir) (hd : ∀ d', d = some d' → d'.Known g) :
    ∀ g', Removable (Function.update t g d) g' := by
  intro g'
  by_cases hg : g' = g
  · subst hg
    simpa [Removable] using hd
  · simpa [Removable, hg] using ht g'

theorem change_removable {g : String} {f : GadgetDir → Option GadgetDir}
    (hf : ∀ d d', d.Known g → f d = some d' → d'.Known g) (h : t.change g f = some t') :
    ∀ g', Removable t' g' := by
  obtain ⟨d', hd', rfl⟩ := Option.map_eq_some_iff.mp h
  obtain ⟨d, hd, hfd⟩ := Option.bind_eq_some_iff.mp hd'
  apply update_removable ht g
  intro d'' hd''
  obtain rfl := Option.some.inj hd''
  exact hf d _ (ht g d hd) hfd

theorem mkdir_removable (k : Kernel) {p : Place}
    (hc : ∀ g c, p = .config g c → c = "c.1")
    (hf : ∀ g f, p = .function g f → functionTable.lookup g = some f)
    (h : t.mkdir k p = some t') : ∀ g, Removable t' g := by
  cases p with
  | gadget g =>
    simp only [mkdir] at h
    split at h <;> cases h
    apply update_removable ht g
    intro d hd
    obtain rfl := Option.some.inj hd
    simp [GadgetDir.Known, GadgetDir.empty]
  | config g c =>
    obtain rfl := hc g c rfl
    exact change_removable ht (fun d d' => GadgetDir.Known.mkConfig) h
  | function g f =>
    simp only [mkdir] at h
    split at h
    · exact change_removable ht (fun d d' hd => hd.mkFunction (hf g f rfl)) h
    · cases h
  | base | file | link | functionFile => cases h

theorem rmdir_removable {p : Place} (h : t.rmdir p = some t') : ∀ g, Removable t' g := by
  cases p with
  | gadget g =>
    obtain ⟨d, hd, hbare⟩ := Option.bind_eq_some_iff.mp h
    split at hbare <;> cases hbare
    exact update_removable ht g none nofun
  | config g c => exact change_removable ht (fun d d' hd => hd.rmConfig) h
  | function g f => exact change_removable ht (fun d d' hd => hd.rmFunction) h
  | base | file | link | functionFile => cases h

theorem remove_removable {p : Place} (h : t.remove p = some t') : ∀ g, Removable t' g := by
  unfold remove at h
  split at h
  · exact change_removable ht (fun d d' hd => hd.unlink) h
  · exact rmdir_removable ht h

theorem symlink_removable {target new : Place}
    (hl : ∀ g f c n, target = .function g f → new = .link g c n →
      linkTable.lookup g = some (c, n))
    (h : t.symlink target new = some t') : ∀ g, Removable t' g := by
  unfold symlink at h
  split at h
  · split at h
    · next hg =>
      exact change_removable ht (fun d d' hd => hd.addLink (hl _ _ _ _ (by rw [hg]) rfl)) h
    · cases h
  · cases h

end Tree

/-- The system call, made below `g` or in `usb_gadget/`, creates nothing there that teardown
of `g` has no name for. -/
def Sys.Fits (g : String) : Sys → Prop
  | .chdir p => p = .usbGadget ∨ p = .name g
  | .mkdir (.config c) => c = "c.1"
  | .mkdir (.function f) => functionTable.lookup g = some f
  | .symlinkat _ _ (.link c n) => linkTable.lookup g = some (c, n)
  | _ => True

/-- Every gadget is removable, and the process is at work on `g`. -/
structure Proc.Tidy (g : String) (s : Proc) : Prop where
  removable : ∀ g, Removable s.tree g
  cwd : s.cwd = .base ∨ s.cwd = .gadget g

namespace Proc.Tidy

variable {k : Kernel} {g : String} {s : Proc} (hs : s.Tidy g)
include hs

theorem attempt {t : Option Tree} (h : ∀ t', t = some t' → ∀ g, Removable t' g) :
    (s.attempt t).2.Tidy g := by
  cases t with
  | none => exact hs
  | some t' => exact ⟨h t' rfl, hs.cwd⟩

theorem openPlace (p : Option Place) : (s.openPlace p).2.Tidy g :=
  ⟨by simpa using hs.removable, by simpa using hs.cwd⟩

theorem gadget_eq {g' : String} (h : s.cwd = .gadget g') : g' = g := by
  rcases hs.cwd with hb | hg
  · cases h.symm.trans hb
  · exact Cwd.gadget.inj (h.symm.trans hg)

theorem chdir {p : Path} (h : p = .usbGadget ∨ p = .name g) : (s.chdir p).2.Tidy g := by
  obtain rfl | rfl := h
  · exact ⟨hs.removable, .inl rfl⟩
  · rcases hs.cwd with hcwd | hcwd
    · by_cases hd : (s.tree g).isSome
      · simpa [Proc.chdir, resolve, hcwd, hd] using ⟨hs.removable, .inr rfl⟩
      · simpa [Proc.chdir, resolve, hcwd, hd] using hs
    · simpa [Proc.chdir, resolve, hcwd] using hs

theorem mkdir {p : Path} (h : (Sys.mkdir p).Fits g) :
    (Proc.handle k (.mkdir p) s).2.Tidy g := by
  apply hs.attempt
  intro t' ht'
  obtain ⟨pl, hpl, hmk⟩ := Option.bind_eq_some_iff.mp ht'
  refine Tree.mkdir_removable hs.removable k ?_ ?_ hmk
  · rintro g' c rfl
    obtain ⟨hcwd, rfl⟩ := resolve_config hpl
    exact h
  · rintro g' f rfl
    obtain ⟨hcwd, rfl⟩ := resolve_function hpl
    obtain rfl := hs.gadget_eq hcwd
    exact h

theorem symlinkat {target linkpath : Path} {dirfd : ℤ}
    (h : (Sys.symlinkat target dirfd linkpath).Fits g) :
    (Proc.handle k (.symlinkat target dirfd linkpath) s).2.Tidy g := by
  apply hs.attempt
  intro t' ht'
  obtain ⟨tgt, htgt, ht'⟩ := Option.bind_eq_some_iff.mp ht'
  obtain ⟨new, hnew, hsym⟩ := Option.bind_eq_some_iff.mp ht'
  refine Tree.symlink_removable hs.removable ?_ hsym
  rintro g' f c n rfl rfl
  obtain ⟨hcwd, rfl⟩ := resolve_function htgt
  obtain rfl := hs.gadget_eq hcwd
  obtain ⟨_, hnew⟩ := s.resolveAt_eq_some hnew
  obtain ⟨-, rfl⟩ := resolve_link hnew
  exact h

theorem handle {c : Sys} (h : c.Fits g) : (Proc.handle k c s).2.Tidy g := by
  cases c with
  | chdir p => exact hs.chdir h
  | stat p => exact hs
  | mkdir p => exact hs.mkdir h
  | rmdir p =>
    apply hs.attempt
    intro t' ht'
    obtain ⟨_, _, hrm⟩ := Option.bind_eq_some_iff.mp ht'
    exact Tree.rmdir_removable hs.removable hrm
  | remove p =>
    apply hs.attempt
    intro t' ht'
    obtain ⟨_, _, hrm⟩ := Option.bind_eq_some_iff.mp ht'
    exact Tree.remove_removable hs.removable hrm
  | openFile p => exact hs.openPlace _
  | openDot => exact hs.openPlace _
  | symlinkat target dirfd linkpath => exact hs.symlinkat h
  | write fd data => simpa using hs
  | close fd => exact ⟨by simpa using hs.removable, by simpa using hs.cwd⟩

theorem exec {α : Type} {p : Exec α} (hp : p.AllCalls (Sys.Fits g)) : (exec k p s).Tidy g :=
  p.run_invariant _ (fun c _ hc hs => hs.handle (hp c hc)) hs

end Proc.Tidy

/-! ### The calls -/

section

variable {g : String}

theorem writeFile_fits (p : Path) (data : Data) : (writeFile p data).AllCalls (Sys.Fits g) := by
  simp [writeFile, Sys.Fits]

theorem writeFiles_fits (ws : List (Path × Data)) : (writeFiles ws).AllCalls (Sys.Fits g) := by
  induction ws with
  | nil => exact allCalls_ret _
  | cons w ws ih => exact (writeFile_fits _ _).bind fun _ => ih

theorem syzUsbTrans0_1_fits (attrs : ConfigfsAttr) (stMode : ℕ) :
    (syzUsbTrans0_1 g attrs stMode).AllCalls (Sys.Fits g) := by
  have hset : (configfsSetDescs attrs >>= fun _ => ret (0 : ℤ)).AllCalls (Sys.Fits g) :=
    (writeFiles_fits _).bind fun _ => allCalls_ret _
  simp [syzUsbTrans0_1, statMode, Sys.Fits, hset]

theorem inGadget_fits {body : Exec Unit} (hbody : body.AllCalls (Sys.Fits g)) (stMode : ℕ) :
    (inGadget g stMode body).AllCalls (Sys.Fits g) := by
  simp [inGadget, statMode, Sys.Fits, hbody]

theorem configfsHid_fits (dummy : String) (attrs : ConfigfsAttr) (stMode : ℕ) {func : String}
    (hf : functionTable.lookup g = some func) (hl : linkTable.lookup g = some ("c.1", func)) :
    (configfsHid g "c.1" func dummy attrs stMode).AllCalls (Sys.Fits g) := by
  simp only [configfsHid, statMode, perform_bind, call_bind, pure_eq_ret, ret_bind, allCalls_call,
    allCalls_ite, allCalls_ret]
  refine ⟨.inl rfl, fun _ => ⟨trivial, fun mode => ?_⟩⟩
  split
  · trivial
  refine ⟨trivial, fun _ => ⟨.inr rfl, fun _ => (writeFiles_fits _).bind fun _ => ?_⟩⟩
  simp only [allCalls_call]
  refine ⟨rfl, fun _ => ⟨hf, fun _ => (writeFiles_fits _).bind fun _ => ?_⟩⟩
  simp only [allCalls_call]
  exact ⟨trivial, fun _ => ⟨hl, fun _ => ⟨trivial, fun _ => writeFile_fits _ _⟩⟩⟩

variable (k : Kernel) {s : Proc} (hs : ∀ g, Removable s.tree g)
include hs

/-- A program that starts in `usb_gadget/`. -/
theorem removable_of_base {α : Type} {next : Sys.Result (.chdir .usbGadget) → Exec α}
    (hp : (perform (Sys.chdir .usbGadget) >>= next).AllCalls (Sys.Fits g)) :
    ∀ g', Removable (exec k (perform (Sys.chdir .usbGadget) >>= next) s).tree g' := by
  have hbase : Proc.Tidy g { s with cwd := .base } := ⟨hs, .inl rfl⟩
  have hnext : (next (0 : ℤ)).AllCalls (Sys.Fits g) := ((allCalls_call _ _).mp hp).2 (0 : ℤ)
  exact (hbase.exec hnext).removable

/-- A program that starts in the gadget and returns early when there is none. -/
theorem removable_of_enter {p : Exec ℤ} (hp : p.AllCalls (Sys.Fits g)) :
    ∀ g', Removable (exec k (perform (Sys.chdir (.inUsbGadget g)) >>= fun ret : ℤ =>
      if ret < 0 then return ret else p) s).tree g' := by
  by_cases hg : (s.tree g).isSome
  · have hin : Proc.Tidy g { s with cwd := .gadget g } := ⟨hs, .inr rfl⟩
    simpa [exec, Proc.chdir, resolve, hg] using (hin.exec (k := k) hp).removable
  -- Without the gadget the program returns before it changes anything.
  · simpa [exec, Proc.chdir, resolve, hg] using hs

end

/-- The call builds nothing that teardown has no name for. -/
def Call.Fits : Call → Prop
  | .configfsHid2 _ _ => False
  | .trans2_3 g func => functionTable.lookup g.1 = some func.1
  | .trans3_4 g _ config => linkTable.lookup g.1 = some ("c.1", config.1)
  | _ => True

theorem Call.exec_removable (k : Kernel) {c : Call} (hc : c.Fits) {s : Proc}
    (hs : ∀ g, Removable s.tree g) : ∀ g, Removable (c.exec k s).tree g := by
  cases c with
  | configfsHid attrs stMode =>
    exact removable_of_base k hs (configfsHid_fits _ attrs stMode (by decide) (by decide))
  | configfsHid2 attrs stMode => exact hc.elim
  | trans0_1 g attrs stMode => exact removable_of_base k hs (syzUsbTrans0_1_fits attrs stMode)
  | trans1_2 g => exact removable_of_enter k hs (g := g.1) (by simp [Sys.Fits])
  | trans2_3 g func =>
    have hfit : functionTable.lookup g.1 = some func.1 := hc
    exact removable_of_enter k hs (g := g.1) (by simp [Sys.Fits, hfit])
  | trans3_4 g func config =>
    have hfit : linkTable.lookup g.1 = some ("c.1", config.1) := hc
    exact removable_of_enter k hs (g := g.1) (by simp [Sys.Fits, hfit])
  | trans4_5 g dummy => exact removable_of_enter k hs (g := g.1) (by simp [Sys.Fits])
  | trans5_4 g stMode => exact removable_of_base k hs (inGadget_fits (writeFile_fits _ _) stMode)
  | trans4_3 g stMode =>
    refine removable_of_base k hs (inGadget_fits ?_ stMode)
    split <;> simp [Sys.Fits]
  | trans3_2 g stMode =>
    refine removable_of_base k hs (inGadget_fits ?_ stMode)
    split <;> simp [Sys.Fits]
  | trans2_1 g stMode => exact removable_of_base k hs (inGadget_fits (by simp [Sys.Fits]) stMode)
  | trans1_0 g stMode =>
    exact removable_of_base k hs (g := g.1) (by simp [Sys.Fits, statMode])

/-- After calls that fit, every gadget can be taken away. -/
theorem removable_afterCalls (k : Kernel) (calls : List Call) (hcalls : ∀ c ∈ calls, c.Fits) :
    ∀ g, Removable (afterCalls k calls).tree g := by
  have hstart : ∀ g, Removable Proc.start.tree g := fun g d hd => nomatch hd
  exact List.foldlRecOn (motive := fun s : Proc => ∀ g, Removable s.tree g) calls _ hstart
    fun s hs c hc => Call.exec_removable k (hcalls c hc) hs

/-- A name that both `syz_usb_trans4_3` and `syz_usb_trans3_2` know. -/
abbrev KnownName :=
  { g : String // g ∈ linkTable.map Prod.fst ∧ g ∈ functionTable.map Prod.fst }

/-- Teardown of `g` leaves no directory, and `syz_usb_trans0_1` then makes it anew. -/
def Undone (k : Kernel) (s : Proc) (g : String) (m : StModes) (attrs : ConfigfsAttr) : Prop :=
  let s' := exec k (teardown g m) s
  s'.tree g = none ∧ ((syzUsbTrans0_1 g attrs m.trans0_1).run (Proc.handle k) s').1 = 0

/-- After any calls, teardown is complete exactly when it has a name for everything in `g` and
the `struct stat` in `syz_usb_trans0_1` does not start out as a directory. The first holds of
every gadget after calls that fit. -/
theorem undone_iff (k : Kernel) (calls : List Call) (g : KnownName) (m : StModes)
    (attrs : ConfigfsAttr) :
    (Undone k (afterCalls k calls) g m attrs ↔
      Removable (afterCalls k calls).tree g ∧ ¬sIsDir m.trans0_1) ∧
      ((∀ c ∈ calls, c.Fits) → Removable (afterCalls k calls).tree g) := by
  refine ⟨?_, fun hcalls => removable_afterCalls k calls hcalls g⟩
  simp only [Undone, syzUsbTrans0_1_eq_zero_iff, teardown_removes_iff]
  tauto

/-- `syz_usb_configfs_hid2` builds `configs/c.2`, which no teardown call removes. -/
theorem hid2_stays :
    ¬Undone ⟨fun _ => true, fun _ _ => 0⟩
      (afterCalls ⟨fun _ => true, fun _ _ => 0⟩ [.configfsHid2 ⟨0x200, 0, 0x1d6b, 0x104, 0x100⟩ 0])
      "hid2" ⟨0, 0, 0, 0, 0, 0⟩ ⟨0x200, 0, 0x1d6b, 0x104, 0x100⟩ := by
  rintro ⟨hgone, -⟩
  revert hgone
  decide +kernel

end FuzzUSB.Gadget
