import FuzzUSB.Transition
import FuzzUSB.GadgetGuards
import Mathlib.Data.Finset.Card

/-!
# Descriptors of the gadget calls

Any system call of a gadget call may fail. Two calls return from a failure with a
descriptor open, and no others.
-/

namespace FuzzUSB.Gadget
open Program Transition

/-- The calls of a gadget, with any names. -/
inductive PseudoCall
  | guarded (c : GuardedCall) (stMode : ℕ)
  | trans1_2 (gname config : String)
  | trans2_3 (gname func : String)
  | trans3_4 (gname func config linkName : String)
  | trans4_5 (gname dummy : String)

def PseudoCall.prog : PseudoCall → Exec (Option ℤ)
  | guarded c stMode => c.prog stMode
  | trans1_2 gname config => do
    let ret ← syzUsbTrans1_2 gname config
    return some ret
  | trans2_3 gname func => do
    let ret ← syzUsbTrans2_3 gname func
    return some ret
  | trans3_4 gname func config linkName => do
    let ret ← syzUsbTrans3_4 gname func config linkName
    return some ret
  | trans4_5 gname dummy => do
    let ret ← syzUsbTrans4_5 gname dummy
    return some ret

/-! ## A kernel that may fail any call -/

/-- How the kernel answers the system calls of one gadget call, by their position. -/
structure Answers where
  succeeds : ℕ → Bool
  /-- What a successful `stat` finds. -/
  mode : ℕ → ℕ

/-- The descriptors that are open, and how many system calls were made. -/
structure Fds where
  asked : ℕ
  fds : Finset ℕ

/-- The descriptor that an `open` returns. -/
def lowestFree (fds : Finset ℕ) : ℕ :=
  ((List.range (fds.card + 1)).find? (· ∉ fds)).getD 0

theorem lowestFree_notMem (fds : Finset ℕ) : lowestFree fds ∉ fds := by
  have hfree : ∃ n ∈ Finset.range (fds.card + 1), n ∉ fds :=
    Finset.exists_mem_notMem_of_card_lt_card (by simp)
  unfold lowestFree
  cases h : (List.range (fds.card + 1)).find? (· ∉ fds) with
  | some n => simpa using List.find?_some h
  | none =>
    obtain ⟨n, hn, hfree⟩ := hfree
    have := List.find?_eq_none.mp h n (by simpa using hn)
    exact absurd hfree (by simpa using this)

namespace Fds

def asking (s : Fds) : Fds := { s with asked := s.asked + 1 }

/-- A call that leaves the descriptors alone. -/
def plain (ok : Bool) (s : Fds) : ℤ × Fds := (if ok then 0 else -1, s.asking)

def openFd (ok : Bool) (s : Fds) : ℤ × Fds :=
  if ok then (lowestFree s.fds, { s.asking with fds := insert (lowestFree s.fds) s.fds })
  else (-1, s.asking)

def closeFd (fd : ℤ) (s : Fds) : ℤ × Fds :=
  (if ∃ n ∈ s.fds, (n : ℤ) = fd then 0 else -1,
    { s.asking with fds := s.fds.filter fun n => (n : ℤ) ≠ fd })

def handle (a : Answers) : (c : Sys) → Fds → c.Result × Fds
  | .stat _, s => (if a.succeeds s.asked then some (a.mode s.asked) else none, s.asking)
  | .openFile _, s | .openDot, s => s.openFd (a.succeeds s.asked)
  | .close fd, s => s.closeFd fd
  | .chdir _, s | .mkdir _, s | .rmdir _, s | .remove _, s | .symlinkat _ _ _, s | .write _ _, s =>
    s.plain (a.succeeds s.asked)

@[simp] theorem asking_fds (s : Fds) : s.asking.fds = s.fds := rfl

@[simp] theorem asking_asked (s : Fds) : s.asking.asked = s.asked + 1 := rfl

end Fds

/-- The descriptors that are open after a call. -/
def PseudoCall.after (call : PseudoCall) (a : Answers) (fds : Finset ℕ) : Finset ℕ :=
  (call.prog.run (Fds.handle a) ⟨0, fds⟩).2.fds

/-! ## Balanced programs -/

/-- The program closes what it opens. -/
def Balanced {α : Type} (p : Exec α) : Prop :=
  ∀ a s, (p.run (Fds.handle a) s).2.fds = s.fds

/-- The program closes `fd` and what it opens. -/
def Closes {α : Type} (fd : ℕ) (p : Exec α) : Prop :=
  ∀ a s, fd ∈ s.fds → (p.run (Fds.handle a) s).2.fds = s.fds.erase fd

/-- Neither an `open` nor a `close`. -/
def Sys.Plain : Sys → Prop
  | .openFile _ | .openDot | .close _ => False
  | _ => True

theorem Sys.Plain.handle_fds {c : Sys} (h : c.Plain) (a : Answers) (s : Fds) :
    (Fds.handle a c s).2.fds = s.fds := by
  cases c with
  | openFile | openDot | close => exact h.elim
  | _ => rfl

section

variable {α β : Type}

theorem balanced_ret (x : α) : Balanced (.ret x) := fun _ _ => rfl

theorem Balanced.bind {p : Exec α} {f : α → Exec β} (hp : Balanced p) (hf : ∀ x, Balanced (f x)) :
    Balanced (p >>= f) := by
  intro a s
  rw [run_bind, hf, hp]

theorem Balanced.ite {b : Prop} [Decidable b] {p q : Exec α} (hp : Balanced p) (hq : Balanced q) :
    Balanced (if b then p else q) := by
  split
  · exact hp
  · exact hq

theorem Balanced.call {c : Sys} {next : c.Result → Exec α} (hc : c.Plain)
    (h : ∀ r, Balanced (next r)) : Balanced (call c next) := by
  intro a s
  rw [run_call, h, hc.handle_fds]

theorem balanced_close_failed {next : ℤ → Exec α} (h : ∀ r, Balanced (next r)) :
    Balanced (call (.close (-1)) next) := by
  intro a s
  rw [run_call, h]
  change s.fds.filter (fun n : ℕ => (n : ℤ) ≠ -1) = s.fds
  exact Finset.filter_true_of_mem fun n _ => by omega

theorem closes_close {fd : ℕ} {next : ℤ → Exec α} (h : ∀ r, Balanced (next r)) :
    Closes fd (call (.close fd) next) := by
  intro a s _
  rw [run_call, h]
  change s.fds.filter (fun n : ℕ => (n : ℤ) ≠ fd) = s.fds.erase fd
  ext n
  simp [and_comm]

theorem Closes.call {fd : ℕ} {c : Sys} {next : c.Result → Exec α} (hc : c.Plain)
    (h : ∀ r, Closes fd (next r)) : Closes fd (call c next) := by
  intro a s hfd
  have hfds := hc.handle_fds a s
  rw [run_call, h _ a _ (hfds ▸ hfd), hfds]

/-- An `open` is balanced if its descriptor is closed when it has one. -/
theorem balanced_open {c : Sys} {next : c.Result → Exec α}
    (hopen : ∀ a s, (∃ r, Fds.handle a c s = (r, s.asking) ∧ Balanced (next r)) ∨
      ∃ r, Fds.handle a c s = (r, { s.asking with fds := insert (lowestFree s.fds) s.fds }) ∧
        Closes (lowestFree s.fds) (next r)) : Balanced (call c next) := by
  intro a s
  rw [run_call]
  rcases hopen a s with ⟨r, hr, h⟩ | ⟨r, hr, h⟩
  · rw [hr, h]
    rfl
  · rw [hr, h a _ (Finset.mem_insert_self _ _)]
    exact Finset.erase_insert (lowestFree_notMem s.fds)

theorem balanced_openFile {p : Path} {next : ℤ → Exec α} (hfail : Balanced (next (-1)))
    (h : ∀ fd : ℕ, Closes fd (next fd)) : Balanced (call (.openFile p) next) := by
  apply balanced_open
  intro a s
  cases hok : a.succeeds s.asked with
  | false => exact .inl ⟨-1, by simp [Fds.handle, Fds.openFd, hok], hfail⟩
  | true => exact .inr ⟨lowestFree s.fds, by simp [Fds.handle, Fds.openFd, hok], h _⟩

theorem balanced_openDot {next : ℤ → Exec α} (hfail : Balanced (next (-1)))
    (h : ∀ fd : ℕ, Closes fd (next fd)) : Balanced (call .openDot next) :=
  fun a s => balanced_openFile (p := .usbGadget) hfail h a s

end

/-! ## The parts of the calls -/

theorem balanced_writeFile (p : Path) (data : Data) : Balanced (writeFile p data) := by
  have hclose (r : ℤ) : Balanced (.ret () : Exec Unit) := balanced_ret ()
  apply balanced_openFile
  · exact .call trivial fun _ => balanced_close_failed hclose
  · intro fd
    exact .call trivial fun _ => closes_close hclose

theorem balanced_writeFiles (writes : List (Path × Data)) : Balanced (writeFiles writes) := by
  induction writes with
  | nil => exact balanced_ret ()
  | cons w writes ih => exact (balanced_writeFile w.1 w.2).bind fun _ => ih

theorem balanced_statMode (stMode : ℕ) (p : Path) : Balanced (statMode stMode p) := by
  exact .call trivial fun _ => balanced_ret _

theorem balanced_inGadget (gName : String) (stMode : ℕ) {body : Exec Unit} (h : Balanced body) :
    Balanced (inGadget gName stMode body) := by
  refine .call trivial fun _ => ?_
  apply (balanced_statMode _ _).bind
  intro mode
  apply Balanced.ite
  · exact .call trivial fun _ => h
  · exact balanced_ret ()

theorem balanced_mkdirIn (gname : String) (p : Path) : Balanced (mkdirIn gname p) := by
  refine .call trivial fun ret => ?_
  apply Balanced.ite (balanced_ret _)
  refine .call trivial fun ret => ?_
  exact .ite (balanced_ret _) (balanced_ret _)

theorem balanced_configfsHid (gname config func dummy : String) (attrs : ConfigfsAttr)
    (stMode : ℕ) : Balanced (configfsHid gname config func dummy attrs stMode) := by
  refine .call trivial fun _ => ?_
  apply (balanced_statMode _ _).bind
  intro mode
  apply Balanced.ite (balanced_ret ())
  refine .call trivial fun _ => ?_
  refine .call trivial fun _ => ?_
  apply (balanced_writeFiles _).bind
  intro _
  refine .call trivial fun _ => ?_
  refine .call trivial fun _ => ?_
  apply (balanced_writeFiles _).bind
  intro _
  -- The directory is closed whether or not the link could be made.
  have hbind (r : ℤ) := balanced_writeFile (.name "UDC") (.text dummy.toList)
  apply balanced_openDot
  · exact .call trivial fun _ => balanced_close_failed hbind
  · intro fd
    exact .call trivial fun _ => closes_close hbind

theorem balanced_guarded (c : GuardedCall) (stMode : ℕ) : Balanced (c.prog stMode) := by
  cases c with
  | configfsHid | configfsHid2 =>
    exact (balanced_configfsHid _ _ _ _ _ stMode).bind fun _ => balanced_ret _
  | trans0_1 =>
    refine .bind ?_ fun _ => balanced_ret _
    refine .call trivial fun ret => ?_
    apply Balanced.ite (balanced_ret _)
    apply (balanced_statMode _ _).bind
    intro mode
    apply Balanced.ite (balanced_ret _)
    refine .call trivial fun ret => ?_
    apply Balanced.ite (balanced_ret _)
    refine .call trivial fun ret => ?_
    apply Balanced.ite (balanced_ret _)
    exact (balanced_writeFiles _).bind fun _ => balanced_ret _
  | trans5_4 =>
    refine .bind ?_ fun _ => balanced_ret _
    exact balanced_inGadget _ _ (balanced_writeFile _ _)
  | trans4_3 | trans3_2 =>
    refine .bind ?_ fun _ => balanced_ret _
    apply balanced_inGadget
    split
    · exact .call trivial fun _ => balanced_ret _
    · exact balanced_ret ()
  | trans2_1 =>
    refine .bind ?_ fun _ => balanced_ret _
    apply balanced_inGadget
    exact .call trivial fun _ => balanced_ret _
  | trans1_0 =>
    refine .bind ?_ fun _ => balanced_ret _
    refine .call trivial fun ret => ?_
    apply Balanced.ite (balanced_ret _)
    apply (balanced_statMode _ _).bind
    intro mode
    refine .ite ?_ (balanced_ret _)
    exact .call trivial fun _ => balanced_ret _

/-! ## The two leaks -/

/-- The descriptor is returned from with the call that uses it failed: the link of
`syz_usb_trans3_4`, or the write of `syz_usb_trans4_5`. -/
def PseudoCall.Leaks (a : Answers) : PseudoCall → Prop
  | trans3_4 .. | trans4_5 .. => a.succeeds 0 ∧ a.succeeds 1 ∧ ¬a.succeeds 2
  | _ => False

instance (a : Answers) (call : PseudoCall) : Decidable (call.Leaks a) := by
  unfold PseudoCall.Leaks
  split <;> infer_instance

/-- What every call leaves open. -/
theorem PseudoCall.after_eq (call : PseudoCall) (a : Answers) (fds : Finset ℕ) :
    call.after a fds = if call.Leaks a then insert (lowestFree fds) fds else fds := by
  have hbalanced {p : Exec (Option ℤ)} (h : Balanced p) : (p.run (Fds.handle a) ⟨0, fds⟩).2.fds =
      if False then insert (lowestFree fds) fds else fds := by
    rw [if_neg id]
    exact h a _
  cases call with
  | guarded c stMode => exact hbalanced (balanced_guarded c stMode)
  | trans1_2 | trans2_3 => exact hbalanced ((balanced_mkdirIn _ _).bind fun _ => balanced_ret _)
  | trans3_4 | trans4_5 =>
    have hfd : ¬(lowestFree fds : ℤ) < 0 := by omega
    have hclosed : {n ∈ insert (lowestFree fds) fds | ¬n = lowestFree fds} = fds := by
      rw [Finset.filter_ne', Finset.erase_insert (lowestFree_notMem fds)]
    cases h0 : a.succeeds 0 <;> cases h1 : a.succeeds 1 <;> cases h2 : a.succeeds 2 <;>
      simp [after, prog, syzUsbTrans3_4, syzUsbTrans4_5, Leaks, Fds.handle, Fds.plain,
        Fds.openFd, Fds.closeFd, Fds.asking, h0, h1, h2, hfd, hclosed]

/-! ## Sequences of calls -/

/-- The descriptors of the executor, call after call. -/
def callStep (fds : Finset ℕ) (e : PseudoCall × Answers) : Option (Finset ℕ) :=
  some (e.1.after e.2 fds)

/-- Every call leaves open what was open before it. -/
def KeepsDescriptors : Finset ℕ → List (PseudoCall × Answers) → Prop :=
  AlwaysStep callStep fun fds e => e.1.after e.2 fds = fds

theorem after_eq_self_iff (call : PseudoCall) (a : Answers) (fds : Finset ℕ) :
    call.after a fds = fds ↔ ¬call.Leaks a := by
  rw [call.after_eq]
  split
  · next h =>
    have hne : insert (lowestFree fds) fds ≠ fds := by simpa using lowestFree_notMem fds
    exact iff_of_false hne (not_not.mpr h)
  · next h => exact iff_of_true rfl h

theorem keepsDescriptors_iff (fds : Finset ℕ) (es : List (PseudoCall × Answers)) :
    KeepsDescriptors fds es ↔ ∀ e ∈ es, ¬e.1.Leaks e.2 := by
  induction es generalizing fds with
  | nil => simp [KeepsDescriptors, AlwaysStep]
  | cons e es ih =>
    rw [List.forall_mem_cons, ← ih (e.1.after e.2 fds), ← after_eq_self_iff e.1 e.2 fds]
    simp [KeepsDescriptors, AlwaysStep, callStep]

/-- A link that exists already: `symlinkat` fails, and descriptor 3 stays open. -/
theorem trans3_4_leaks :
    ¬KeepsDescriptors {0, 1, 2}
      [(.trans3_4 "hid" "hid.0" "c.1" "hid.0", ⟨fun n => n ≠ 2, fun _ => 0⟩)] := by
  intro h
  have hkept := (h _ rfl).1
  exact absurd hkept (by decide)

end FuzzUSB.Gadget
