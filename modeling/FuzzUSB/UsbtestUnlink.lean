import FuzzUSB.Transition
import FuzzUSB.UsbtestTypes
import Mathlib.Algebra.BigOperators.Group.List.Basic
import Mathlib.Algebra.Ring.Nat

/-!
# Unlinking from a queue in the usbtest driver

`unlink_queued` submits `num` bulk URBs, unlinks two of them, or all of them if a submission
fails, and waits for the last one. No lock is held: `pending` counts the URBs that are not done
and one more for the test itself, and whoever brings it to zero calls `complete`. A step is one
access to the shared context, so callbacks run between each other's accesses and the test's own.
-/

namespace FuzzUSB.Usbtest.UnlinkQueued
open Transition

def ECONNRESET : ℤ := 104

/-- Where a call of `unlink_queued_callback` is: about to read `ctx->status`, to write it, to
decrement `pending`, or to call `complete`. -/
inductive Stage
  | start
  | write
  | drop
  | complete
  deriving DecidableEq

/-- A call of `unlink_queued_callback`, for a URB and its status. -/
structure Callback where
  urb : ℕ
  status : ℤ
  stage : Stage
  deriving DecidableEq

/-- Where `unlink_queued` is. `undo` and `fail` come behind a submission that failed. -/
inductive Phase
  | inc (i : ℕ)
  | submit (i : ℕ)
  | undo (i : ℕ) (rc : ℤ)
  | fail (i : ℕ) (rc : ℤ)
  | unlink (ks : List ℕ)
  | complete
  | wait
  | returned (retval : ℤ)
  deriving DecidableEq

/-- `struct queued_ctx` with the calls of `complete` counted, the URBs that the host controller
has, the callbacks that run, and the test. -/
structure State where
  pending : ℕ
  status : ℤ
  completed : ℕ
  inFlight : List ℕ
  callbacks : List Callback
  phase : Phase

/-- `submit` and `giveBack` carry what the host controller says. -/
inductive Event
  | test
  | submit (rc : ℤ)
  | giveBack (k : ℕ) (status : ℤ)
  | callback (c : Callback)
  deriving DecidableEq

section

variable (num : U32)

/-- The two URBs that are unlinked. -/
def Unlinked (k : ℕ) : Prop := k = (num - 4).toNat ∨ k = (num - 2).toNat

instance (k : ℕ) : Decidable (Unlinked num k) := inferInstanceAs (Decidable (_ ∨ _))

/-- What the callback does once it has read `ctx->status`. -/
def Callback.read (status : ℤ) (c : Callback) : Stage :=
  if status ≠ 0 then .drop
  else if Unlinked num c.urb ∧ c.status = -ECONNRESET then .drop
  else if c.status ≠ 0 then .write
  else .drop

/-- The head of the submission loop. -/
def next (i : ℕ) : Phase :=
  if i < num.toNat then .inc i else .unlink [(num - 4).toNat, (num - 2).toNat]

/-- The state when everything is allocated. -/
def start : State where
  pending := 1
  status := 0
  completed := 0
  inFlight := []
  callbacks := []
  phase := next num 0

/-- `unlink_queued`, where `urbs` says whether every URB was allocated. -/
def unlinkQueued (buf kcalloc urbs : Bool) : ℤ ⊕ State :=
  if !buf then .inl (-ENOMEM)
  else if !kcalloc then .inl (-ENOMEM)
  else if !urbs then .inl (-ENOMEM)
  else .inr (start num)

def test (s : State) : Option State :=
  match s.phase with
  | .inc i => some { s with pending := s.pending + 1, phase := .submit i }
  | .undo i rc => some { s with pending := s.pending - 1, phase := .fail i rc }
  | .fail i rc => some { s with status := rc, phase := .unlink (List.range i).reverse }
  -- `usb_unlink_urb` only asks; the URB is given back later.
  | .unlink (_ :: ks) => some { s with phase := .unlink ks }
  | .unlink [] =>
    some { s with
      pending := s.pending - 1, phase := if s.pending = 1 then .complete else .wait }
  | .complete => some { s with completed := s.completed + 1, phase := .wait }
  | .wait => if 0 < s.completed then some { s with phase := .returned s.status } else none
  | .submit _ => none
  | .returned _ => none

def submit (rc : ℤ) (s : State) : Option State :=
  match s.phase with
  | .submit i =>
    if rc ≠ 0 then some { s with phase := .undo i rc }
    else some { s with inFlight := i :: s.inFlight, phase := next num (i + 1) }
  | _ => none

def callback (c : Callback) (s : State) : State :=
  let rest := s.callbacks.erase c
  match c.stage with
  | .start => { s with callbacks := { c with stage := c.read num s.status } :: rest }
  | .write => { s with status := c.status, callbacks := { c with stage := .drop } :: rest }
  | .drop =>
    { s with
      pending := s.pending - 1
      callbacks := if s.pending = 1 then { c with stage := .complete } :: rest else rest }
  | .complete => { s with completed := s.completed + 1, callbacks := rest }

def step (s : State) : Event → Option State
  | .test => test s
  | .submit rc => submit num rc s
  | .giveBack k status =>
    if k ∈ s.inFlight then
      some { s with
        inFlight := s.inFlight.erase k, callbacks := ⟨k, status, .start⟩ :: s.callbacks }
    else none
  | .callback c => if c ∈ s.callbacks then some (callback num c s) else none

end

/-- Two of four URBs fail, and both callbacks read `status` before either writes it. -/
def race : List Event :=
  [.test, .submit 0, .test, .submit 0, .test, .submit 0, .test, .submit 0,
    .giveBack 1 (-32), .giveBack 3 (-71), .callback ⟨1, -32, .start⟩, .callback ⟨3, -71, .start⟩,
    .callback ⟨1, -32, .write⟩, .test, .callback ⟨3, -71, .write⟩, .callback ⟨1, -32, .drop⟩,
    .giveBack 0 (-104), .test, .callback ⟨3, -71, .drop⟩, .callback ⟨0, -104, .start⟩, .test,
    .giveBack 2 (-104), .callback ⟨0, -104, .drop⟩, .callback ⟨2, -104, .start⟩,
    .callback ⟨2, -104, .drop⟩, .callback ⟨2, -104, .complete⟩, .test]

theorem race_returns :
    ∃ t, runs (step 4) (start 4) race = some t ∧ t.phase = .returned (-71) :=
  ⟨_, rfl, rfl⟩

variable {num : U32}

/-! ## What a step does -/

inductive StepTo (num : U32) (s : State) : Event → State → Prop
  | inc {i : ℕ} (hphase : s.phase = .inc i) :
      StepTo num s .test { s with pending := s.pending + 1, phase := .submit i }
  | undo {i : ℕ} {rc : ℤ} (hphase : s.phase = .undo i rc) :
      StepTo num s .test { s with pending := s.pending - 1, phase := .fail i rc }
  | fail {i : ℕ} {rc : ℤ} (hphase : s.phase = .fail i rc) :
      StepTo num s .test { s with status := rc, phase := .unlink (List.range i).reverse }
  | unlink {k : ℕ} {ks : List ℕ} (hphase : s.phase = .unlink (k :: ks)) :
      StepTo num s .test { s with phase := .unlink ks }
  | dec (hphase : s.phase = .unlink []) :
      StepTo num s .test
        { s with pending := s.pending - 1, phase := if s.pending = 1 then .complete else .wait }
  | complete (hphase : s.phase = .complete) :
      StepTo num s .test { s with completed := s.completed + 1, phase := .wait }
  | wake (hphase : s.phase = .wait) (hdone : 0 < s.completed) :
      StepTo num s .test { s with phase := .returned s.status }
  | refused {i : ℕ} {rc : ℤ} (hphase : s.phase = .submit i) (hrc : rc ≠ 0) :
      StepTo num s (.submit rc) { s with phase := .undo i rc }
  | submitted {i : ℕ} (hphase : s.phase = .submit i) :
      StepTo num s (.submit 0) { s with inFlight := i :: s.inFlight, phase := next num (i + 1) }
  | giveBack {k : ℕ} {status : ℤ} (hk : k ∈ s.inFlight) :
      StepTo num s (.giveBack k status)
        { s with
          inFlight := s.inFlight.erase k, callbacks := ⟨k, status, .start⟩ :: s.callbacks }
  | read {c : Callback} (hc : c ∈ s.callbacks) (hstage : c.stage = .start) :
      StepTo num s (.callback c)
        { s with callbacks := { c with stage := c.read num s.status } :: s.callbacks.erase c }
  | write {c : Callback} (hc : c ∈ s.callbacks) (hstage : c.stage = .write) :
      StepTo num s (.callback c)
        { s with
          status := c.status, callbacks := { c with stage := .drop } :: s.callbacks.erase c }
  | drop {c : Callback} (hc : c ∈ s.callbacks) (hstage : c.stage = .drop)
      (hmore : s.pending ≠ 1) :
      StepTo num s (.callback c)
        { s with pending := s.pending - 1, callbacks := s.callbacks.erase c }
  | last {c : Callback} (hc : c ∈ s.callbacks) (hstage : c.stage = .drop)
      (hone : s.pending = 1) :
      StepTo num s (.callback c)
        { s with
          pending := s.pending - 1
          callbacks := { c with stage := .complete } :: s.callbacks.erase c }
  | signal {c : Callback} (hc : c ∈ s.callbacks) (hstage : c.stage = .complete) :
      StepTo num s (.callback c)
        { s with completed := s.completed + 1, callbacks := s.callbacks.erase c }

theorem step_cases {s t : State} {e : Event} (h : step num s e = some t) : StepTo num s e t := by
  cases e with
  | test =>
    simp only [step, test] at h
    split at h
    case h_1 hphase => exact Option.some.inj h ▸ .inc hphase
    case h_2 hphase => exact Option.some.inj h ▸ .undo hphase
    case h_3 hphase => exact Option.some.inj h ▸ .fail hphase
    case h_4 hphase => exact Option.some.inj h ▸ .unlink hphase
    case h_5 hphase => exact Option.some.inj h ▸ .dec hphase
    case h_6 hphase => exact Option.some.inj h ▸ .complete hphase
    case h_7 hphase =>
      obtain ⟨hdone, h⟩ := Option.ite_none_right_eq_some.mp h
      exact Option.some.inj h ▸ .wake hphase hdone
    all_goals cases h
  | submit rc =>
    simp only [step, submit] at h
    split at h
    · next hphase =>
      by_cases hrc : rc ≠ 0
      · rw [if_pos hrc] at h
        exact Option.some.inj h ▸ .refused hphase hrc
      · rw [if_neg hrc] at h
        obtain rfl := not_not.mp hrc
        exact Option.some.inj h ▸ .submitted hphase
    · cases h
  | giveBack k status =>
    obtain ⟨hk, h⟩ := Option.ite_none_right_eq_some.mp h
    exact Option.some.inj h ▸ .giveBack hk
  | callback c =>
    obtain ⟨hc, h⟩ := Option.ite_none_right_eq_some.mp h
    rw [Option.some.injEq] at h
    simp only [callback] at h
    cases hstage : c.stage with
    | start =>
      simp only [hstage] at h
      exact h ▸ .read hc hstage
    | write =>
      simp only [hstage] at h
      exact h ▸ .write hc hstage
    | drop =>
      simp only [hstage] at h
      by_cases hone : s.pending = 1
      · rw [if_pos hone] at h
        exact h ▸ .last hc hstage hone
      · rw [if_neg hone] at h
        exact h ▸ .drop hc hstage hone
    | complete =>
      simp only [hstage] at h
      exact h ▸ .signal hc hstage

/-! ## The counter -/

/-- A sum over the callbacks that run, by where they are. -/
def sumOf (f : Stage → ℕ) (cs : List Callback) : ℕ := (cs.map fun c => f c.stage).sum

@[simp] theorem sumOf_nil (f : Stage → ℕ) : sumOf f [] = 0 := rfl

@[simp] theorem sumOf_cons (f : Stage → ℕ) (c : Callback) (cs : List Callback) :
    sumOf f (c :: cs) = f c.stage + sumOf f cs := by
  simp [sumOf]

theorem sumOf_erase (f : Stage → ℕ) {c : Callback} {cs : List Callback} (hc : c ∈ cs) :
    f c.stage + sumOf f (cs.erase c) = sumOf f cs :=
  List.sum_map_erase (fun c : Callback => f c.stage) hc

/-- A callback goes on to another stage. -/
theorem sumOf_advance (f : Stage → ℕ) {c : Callback} {cs : List Callback} (hc : c ∈ cs)
    (st : Stage) :
    f c.stage + sumOf f ({ c with stage := st } :: cs.erase c) = f st + sumOf f cs := by
  rw [sumOf_cons, ← sumOf_erase f hc]
  exact Nat.add_left_comm _ _ _

/-- A callback is counted until it has decremented. -/
def Stage.holds : Stage → ℕ
  | complete => 0
  | _ => 1

def Stage.completes : Stage → ℕ
  | complete => 1
  | _ => 0

/-- What the test has added to `pending` for itself and for the URB that it submits. -/
def Phase.holds : Phase → ℕ
  | inc _ | fail _ _ | unlink _ => 1
  | submit _ | undo _ _ => 2
  | complete | wait | returned _ => 0

def Phase.completes : Phase → ℕ
  | complete => 1
  | _ => 0

/-- The index of the loop is that of a URB. -/
def Phase.Within (n : ℕ) : Phase → Prop
  | inc i | submit i | undo i _ => i < n
  | _ => True

/-- `pending` counts the URBs in flight, the callbacks and the test, and one `complete` is made
or on its way as soon as it is zero. -/
structure Counted (num : U32) (s : State) : Prop where
  pending : s.pending = s.inFlight.length + sumOf Stage.holds s.callbacks + s.phase.holds
  completed : s.completed + sumOf Stage.completes s.callbacks + s.phase.completes =
    if s.pending = 0 then 1 else 0
  within : s.phase.Within num.toNat
  returned : ∀ r, s.phase = .returned r → s.completed = 1 ∧ r = s.status

theorem next_holds (num : U32) (i : ℕ) : (next num i).holds = 1 := by
  unfold next; split <;> rfl

theorem next_completes (num : U32) (i : ℕ) : (next num i).completes = 0 := by
  unfold next; split <;> rfl

theorem next_within (num : U32) (i : ℕ) : (next num i).Within num.toNat := by
  unfold next
  split
  · assumption
  · trivial

theorem next_ne_returned (num : U32) (i : ℕ) (r : ℤ) : next num i ≠ .returned r := by
  unfold next; split <;> simp

theorem read_holds (num : U32) (status : ℤ) (c : Callback) :
    (c.read num status).holds = 1 := by
  unfold Callback.read; split_ifs <;> rfl

theorem read_completes (num : U32) (status : ℤ) (c : Callback) :
    (c.read num status).completes = 0 := by
  unfold Callback.read; split_ifs <;> rfl

theorem counted_start (num : U32) : Counted num (start num) where
  pending := by simp [start, next_holds]
  completed := by simp [start, next_completes]
  within := next_within num 0
  returned r h := absurd h (next_ne_returned num 0 r)

theorem Counted.step {s t : State} {e : Event} (hs : Counted num s)
    (h : step num s e = some t) : Counted num t := by
  obtain ⟨hpending, hcompleted, hwithin, hreturned⟩ := hs
  cases step_cases h with
  | @inc i hphase =>
    rw [hphase] at hpending hcompleted hwithin
    refine ⟨?_, ?_, hwithin, fun r hr => by cases hr⟩
    · simp only [Phase.holds] at hpending ⊢
      omega
    · simp only [Phase.holds, Phase.completes] at hpending hcompleted ⊢
      rw [if_neg (by omega)] at hcompleted
      rwa [if_neg (by omega)]
  | @undo i rc hphase =>
    rw [hphase] at hpending hcompleted
    refine ⟨?_, ?_, trivial, fun r hr => by cases hr⟩
    · simp only [Phase.holds] at hpending ⊢
      omega
    · simp only [Phase.holds, Phase.completes] at hpending hcompleted ⊢
      rw [if_neg (by omega)] at hcompleted
      rwa [if_neg (by omega)]
  | @fail i rc hphase =>
    rw [hphase] at hpending hcompleted
    exact ⟨hpending, hcompleted, trivial, fun r hr => by cases hr⟩
  | @unlink k ks hphase =>
    rw [hphase] at hpending hcompleted
    exact ⟨hpending, hcompleted, trivial, fun r hr => by cases hr⟩
  | dec hphase =>
    rw [hphase] at hpending hcompleted
    simp only [Phase.holds, Phase.completes] at hpending hcompleted
    rw [if_neg (by omega)] at hcompleted
    by_cases hone : s.pending = 1
    · rw [if_pos hone]
      refine ⟨?_, ?_, trivial, fun r hr => by cases hr⟩
      · simp only [Phase.holds]
        omega
      · simp only [Phase.completes]
        rw [if_pos (by omega)]
        omega
    · rw [if_neg hone]
      refine ⟨?_, ?_, trivial, fun r hr => by cases hr⟩
      · simp only [Phase.holds]
        omega
      · simp only [Phase.completes]
        rw [if_neg (by omega)]
        omega
  | complete hphase =>
    rw [hphase] at hpending hcompleted
    refine ⟨hpending, ?_, trivial, fun r hr => by cases hr⟩
    simp only [Phase.completes] at hcompleted ⊢
    omega
  | wake hphase hdone =>
    rw [hphase] at hpending hcompleted
    refine ⟨hpending, hcompleted, trivial, fun r hr => ⟨?_, ?_⟩⟩
    · simp only at hcompleted ⊢
      split_ifs at hcompleted <;> omega
    · exact (Phase.returned.inj hr).symm
  | @refused i rc hphase hrc =>
    rw [hphase] at hpending hcompleted hwithin
    exact ⟨hpending, hcompleted, hwithin, fun r hr => by cases hr⟩
  | @submitted i hphase =>
    rw [hphase] at hpending hcompleted
    refine ⟨?_, ?_, next_within num _, fun r hr => absurd hr (next_ne_returned num _ r)⟩
    · show s.pending = (i :: s.inFlight).length + sumOf _ s.callbacks + (next num (i + 1)).holds
      simp only [Phase.holds] at hpending
      rw [next_holds, List.length_cons]
      omega
    · show s.completed + _ + (next num (i + 1)).completes = _
      rw [next_completes]
      exact hcompleted
  | @giveBack k status hk =>
    have hlen := List.length_erase_of_mem hk
    have hpos := List.length_pos_of_mem hk
    refine ⟨?_, ?_, hwithin, hreturned⟩
    · simp only [sumOf_cons, Stage.holds]
      omega
    · simpa only [sumOf_cons, Stage.completes, zero_add] using hcompleted
  | @read c hc hstage =>
    have hholds := sumOf_advance Stage.holds hc (c.read num s.status)
    have hcompletes := sumOf_advance Stage.completes hc (c.read num s.status)
    rw [hstage, read_holds] at hholds
    rw [hstage, read_completes] at hcompletes
    have hheld := Nat.add_left_cancel hholds
    have hmade := Nat.add_left_cancel hcompletes
    refine ⟨?_, ?_, hwithin, hreturned⟩
    · show s.pending = s.inFlight.length + sumOf _ (_ :: s.callbacks.erase c) + s.phase.holds
      rwa [hheld]
    · show s.completed + sumOf _ (_ :: s.callbacks.erase c) + s.phase.completes = _
      rwa [hmade]
  | @write c hc hstage =>
    have hholds := sumOf_advance Stage.holds hc .drop
    have hcompletes := sumOf_advance Stage.completes hc .drop
    have herase := sumOf_erase Stage.holds hc
    simp only [hstage, Stage.holds, Stage.completes] at hholds hcompletes herase
    have hheld := Nat.add_left_cancel hholds
    have hmade := Nat.add_left_cancel hcompletes
    refine ⟨by dsimp only; rwa [hheld], by dsimp only; rwa [hmade], hwithin, fun r hr => ?_⟩
    -- A callback that still holds a count keeps the test from returning.
    have hdone := (hreturned r hr).1
    rw [if_neg (by omega)] at hcompleted
    omega
  | @drop c hc hstage hmore =>
    have hholds := sumOf_erase Stage.holds hc
    have hcompletes := sumOf_erase Stage.completes hc
    simp only [hstage, Stage.holds, Stage.completes] at hholds hcompletes
    rw [if_neg (by omega)] at hcompleted
    refine ⟨?_, ?_, hwithin, hreturned⟩
    · dsimp only
      omega
    · dsimp only
      rw [if_neg (by omega)]
      omega
  | @last c hc hstage hone =>
    have hholds := sumOf_advance Stage.holds hc .complete
    have hcompletes := sumOf_advance Stage.completes hc .complete
    simp only [hstage, Stage.holds, Stage.completes] at hholds hcompletes
    rw [if_neg (by omega)] at hcompleted
    refine ⟨?_, ?_, hwithin, hreturned⟩
    · dsimp only
      omega
    · dsimp only
      rw [if_pos (by omega)]
      omega
  | @signal c hc hstage =>
    have hholds := sumOf_erase Stage.holds hc
    have hcompletes := sumOf_erase Stage.completes hc
    simp only [hstage, Stage.holds, Stage.completes] at hholds hcompletes
    refine ⟨by dsimp only; omega, by dsimp only; omega, hwithin, fun r hr => ?_⟩
    have hdone := (hreturned r hr).1
    split_ifs at hcompleted <;> omega

theorem holds_add_completes (st : Stage) : st.holds + st.completes = 1 := by
  cases st <;> rfl

theorem sumOf_holds_add_completes (cs : List Callback) :
    sumOf Stage.holds cs + sumOf Stage.completes cs = cs.length := by
  induction cs with
  | nil => rfl
  | cons c cs ih =>
    have hc := holds_add_completes c.stage
    rw [sumOf_cons, sumOf_cons, List.length_cons]
    omega

theorem Counted.quiet {s : State} (hs : Counted num s) (h : s.pending = 0) :
    s.inFlight = [] ∧ s.callbacks.length + s.completed + s.phase.completes = 1 := by
  have hpending := hs.pending
  have hcompleted := hs.completed
  have hlen := sumOf_holds_add_completes s.callbacks
  rw [if_pos h] at hcompleted
  exact ⟨List.eq_nil_of_length_eq_zero (by omega), by omega⟩

theorem Counted.pending_eq_zero {s : State} (hs : Counted num s)
    (h : 0 < s.completed + sumOf Stage.completes s.callbacks + s.phase.completes) :
    s.pending = 0 := by
  have hcompleted := hs.completed
  by_contra hne
  rw [if_neg hne] at hcompleted
  omega

/-- Nothing that belongs to the context is left. -/
def Quiet (s : State) : Prop := s.inFlight = [] ∧ s.callbacks = []

/-- `complete` is called once at most. Whoever calls it is alone with the test, and when it has
been called, and so before `unlink_queued` returns and frees the URBs, nothing is left. -/
theorem unlinkQueued_alone (num : U32) (es : List Event) :
    Always (step num) (fun s =>
      s.completed ≤ 1 ∧ (s.completed = 1 → Quiet s) ∧ (s.phase = .complete → Quiet s) ∧
      (∀ c ∈ s.callbacks, c.stage = .complete → s.inFlight = [] ∧ s.callbacks = [c]) ∧
      ∀ r, s.phase = .returned r → s.completed = 1) (start num) es := by
  rw [always_iff]
  intro pre s hpre hrun
  have hs := runs_invariant (fun _ _ _ hs => hs.step) (counted_start num) hrun
  refine ⟨?_, fun hone => ?_, fun hphase => ?_, fun c hc hstage => ?_, fun r hr =>
    (hs.returned r hr).1⟩
  · have hcompleted := hs.completed
    split_ifs at hcompleted <;> omega
  · obtain ⟨hflight, hlen⟩ := hs.quiet (hs.pending_eq_zero (by omega))
    exact ⟨hflight, List.eq_nil_of_length_eq_zero (by omega)⟩
  · have hmain : s.phase.completes = 1 := by rw [hphase]; rfl
    obtain ⟨hflight, hlen⟩ := hs.quiet (hs.pending_eq_zero (by omega))
    exact ⟨hflight, List.eq_nil_of_length_eq_zero (by omega)⟩
  · have hsum := sumOf_erase Stage.completes hc
    have hmakes : c.stage.completes = 1 := by rw [hstage]; rfl
    obtain ⟨hflight, hlen⟩ := hs.quiet (hs.pending_eq_zero (by omega))
    have hpos := List.length_pos_of_mem hc
    obtain ⟨c', hc'⟩ := List.length_eq_one_iff.mp (by omega : s.callbacks.length = 1)
    rw [hc', List.mem_singleton] at hc
    exact ⟨hflight, hc ▸ hc'⟩

/-! ## The end -/

def Stage.weight : Stage → ℕ
  | start => 4
  | write => 3
  | drop => 2
  | complete => 1

/-- The steps that the test has left, with those of the URBs it has yet to submit. -/
def Phase.weight (n : ℕ) : Phase → ℕ
  | inc i => 7 * (n - i) + n + 5
  | submit i => 7 * (n - i) + n + 4
  | undo i _ => i + 5
  | fail i _ => i + 4
  | unlink ks => ks.length + 3
  | complete => 2
  | wait => 1
  | returned _ => 0

def measure (num : U32) (s : State) : ℕ :=
  5 * s.inFlight.length + sumOf Stage.weight s.callbacks + s.phase.weight num.toNat

theorem next_weight {n : U32} {i : ℕ} (hi : i < n.toNat) :
    (next n (i + 1)).weight n.toNat + 5 < 7 * (n.toNat - i) + n.toNat + 4 := by
  unfold next
  split_ifs
  · simp only [Phase.weight]
    omega
  · simp only [Phase.weight, List.length_cons, List.length_nil]
    omega

theorem weight_pos (st : Stage) : 0 < st.weight := by
  cases st <;> decide

theorem weight_read (num : U32) (status : ℤ) (c : Callback) :
    (c.read num status).weight < Stage.start.weight := by
  unfold Callback.read; split_ifs <;> decide

theorem measure_lt {s t : State} {e : Event} (hs : Counted num s) (h : step num s e = some t) :
    measure num t < measure num s := by
  have hwithin := hs.within
  unfold measure
  cases step_cases h with
  | @inc i hphase =>
    rw [hphase]
    simp only [Phase.weight]
    omega
  | @undo i rc hphase =>
    rw [hphase]
    simp only [Phase.weight]
    omega
  | @fail i rc hphase =>
    rw [hphase]
    simp only [Phase.weight, List.length_reverse, List.length_range]
    omega
  | @unlink k ks hphase =>
    rw [hphase]
    simp only [Phase.weight, List.length_cons]
    omega
  | dec hphase =>
    rw [hphase]
    split_ifs <;> simp only [Phase.weight, List.length_nil] <;> omega
  | complete hphase =>
    rw [hphase]
    simp only [Phase.weight]
    omega
  | wake hphase hdone =>
    rw [hphase]
    simp only [Phase.weight]
    omega
  | @refused i rc hphase hrc =>
    rw [hphase] at hwithin ⊢
    simp only [Phase.weight, Phase.Within] at hwithin ⊢
    omega
  | @submitted i hphase =>
    rw [hphase] at hwithin ⊢
    have hnext := next_weight hwithin
    show 5 * (s.inFlight.length + 1) + sumOf Stage.weight s.callbacks +
      (next num (i + 1)).weight num.toNat < 5 * s.inFlight.length +
        sumOf Stage.weight s.callbacks + (7 * (num.toNat - i) + num.toNat + 4)
    omega
  | @giveBack k status hk =>
    have hlen := List.length_erase_of_mem hk
    have hpos := List.length_pos_of_mem hk
    simp only [sumOf_cons, Stage.weight]
    omega
  | @read c hc hstage =>
    have hadvance := sumOf_advance Stage.weight hc (c.read num s.status)
    have hread := weight_read num s.status c
    rw [hstage] at hadvance
    dsimp only
    omega
  | @write c hc hstage =>
    have hadvance := sumOf_advance Stage.weight hc .drop
    simp only [hstage, Stage.weight] at hadvance
    dsimp only
    omega
  | @drop c hc hstage hmore =>
    have herase := sumOf_erase Stage.weight hc
    have hpos := weight_pos c.stage
    dsimp only
    omega
  | @last c hc hstage hone =>
    have hadvance := sumOf_advance Stage.weight hc .complete
    simp only [hstage, Stage.weight] at hadvance
    dsimp only
    omega
  | @signal c hc hstage =>
    have herase := sumOf_erase Stage.weight hc
    have hpos := weight_pos c.stage
    dsimp only
    omega

theorem measure_start (num : U32) : measure num (start num) ≤ 8 * num.toNat + 5 := by
  show 5 * 0 + 0 + (next num 0).weight num.toNat ≤ _
  unfold next
  split_ifs
  · simp only [Phase.weight]
    omega
  · simp only [Phase.weight, List.length_cons, List.length_nil]
    omega

/-- Before it returns, the test can go on, or a callback or the host controller can. -/
theorem goes_on {s : State} (hs : Counted num s)
    (hphase : ∀ r, s.phase ≠ .returned r) : ∃ e t, step num s e = some t := by
  cases hp : s.phase with
  | inc i => exact ⟨.test, _, by simp only [step, test, hp]; rfl⟩
  | submit i => exact ⟨.submit 0, _, by simp only [step, submit, hp]; rfl⟩
  | undo i rc => exact ⟨.test, _, by simp only [step, test, hp]; rfl⟩
  | fail i rc => exact ⟨.test, _, by simp only [step, test, hp]; rfl⟩
  | unlink ks =>
    cases ks with
    | nil => exact ⟨.test, _, by simp only [step, test, hp]; rfl⟩
    | cons k ks => exact ⟨.test, _, by simp only [step, test, hp]; rfl⟩
  | complete => exact ⟨.test, _, by simp only [step, test, hp]; rfl⟩
  | returned r => exact absurd hp (hphase r)
  | wait =>
    by_cases hdone : 0 < s.completed
    · exact ⟨.test, _, by simp only [step, test, hp, if_pos hdone]; rfl⟩
    · cases hcalls : s.callbacks with
      | cons c cs =>
        have hc : c ∈ s.callbacks := hcalls ▸ List.mem_cons_self
        exact ⟨.callback c, _, if_pos hc⟩
      | nil =>
        cases hflight : s.inFlight with
        | cons k ks =>
          have hk : k ∈ s.inFlight := hflight ▸ List.mem_cons_self
          exact ⟨.giveBack k 0, _, if_pos hk⟩
        | nil =>
          -- Then `pending` is zero, and somebody has called `complete`.
          have hpending := hs.pending
          have hcompleted := hs.completed
          rw [hp, hcalls, hflight] at hpending
          have hzero : s.pending = 0 := hpending
          rw [if_pos hzero, hp, hcalls] at hcompleted
          simp only [sumOf_nil, Phase.completes] at hcompleted
          omega

theorem Quiet.stuck {s : State} (hs : Quiet s) {r : ℤ} (hphase : s.phase = .returned r)
    (e : Event) : step num s e = none := by
  cases e with
  | test => simp only [step, test, hphase]
  | submit rc => simp only [step, submit, hphase]
  | giveBack k status => exact if_neg (by rw [hs.1]; exact List.not_mem_nil)
  | callback c => exact if_neg (by rw [hs.2]; exact List.not_mem_nil)

/-- Whatever the host controller does and however the callbacks run between the accesses of the
test, no run is longer than eight steps for each URB and five more, and one that cannot go on
has returned. -/
theorem unlinkQueued_ends {num : U32} {es : List Event} {t : State}
    (h : runs (step num) (start num) es = some t) :
    es.length ≤ 8 * num.toNat + 5 ∧
      ((∀ e, step num t e = none) ↔ ∃ r, t.phase = .returned r) := by
  have ht := runs_invariant (fun _ _ _ hs => hs.step) (counted_start num) h
  refine ⟨?_, fun hstuck => ?_, fun ⟨r, hr⟩ e => ?_⟩
  · have hlen := runs_length_le (measure num) (fun _ _ _ hs => hs.step)
      (fun _ _ _ hs => measure_lt hs) (counted_start num) h
    have hstart := measure_start num
    omega
  · by_contra hphase
    obtain ⟨e, u, hu⟩ := goes_on ht fun r hr => hphase ⟨r, hr⟩
    exact absurd (hstuck e) (by rw [hu]; exact Option.some_ne_none u)
  · have hdone := (ht.returned r hr).1
    obtain ⟨hflight, hlen⟩ := ht.quiet (ht.pending_eq_zero (by omega))
    exact Quiet.stuck ⟨hflight, List.eq_nil_of_length_eq_zero (by omega)⟩ hr e

theorem unlinkQueued_ends_race :
    ∃ t, runs (step 4) (start 4) race = some t ∧ race.length ≤ 8 * (4 : U32).toNat + 5 ∧
      ((∀ e, step 4 t e = none) ↔ ∃ r, t.phase = .returned r) := by
  obtain ⟨t, ht, -⟩ := race_returns
  exact ⟨t, ht, unlinkQueued_ends ht⟩

/-! ## What it returns -/

/-- The status of a transfer that is no error. -/
def Expected (num : U32) (k : ℕ) (status : ℤ) : Prop :=
  status = 0 ∨ (Unlinked num k ∧ status = -ECONNRESET)

/-- The submission succeeds, or the URB is given back as it may be. -/
def Passes (num : U32) : Event → Prop
  | .submit rc => rc = 0
  | .giveBack k status => Expected num k status
  | _ => True

/-- What the callback may yet write is no error. -/
def Callback.Harmless (num : U32) (c : Callback) : Prop :=
  match c.stage with
  | .start => Expected num c.urb c.status
  | .write => False
  | _ => True

/-- The error of a submission that is not in `status` yet. -/
def Phase.error : Phase → Option ℤ
  | undo _ rc | fail _ rc => some rc
  | _ => none

/-- No error so far. -/
def Ok (num : U32) (s : State) : Prop :=
  s.status = 0 ∧ s.phase.error = none ∧ ∀ c ∈ s.callbacks, c.Harmless num

/-- What is about to be written is an error. -/
def Errors (s : State) : Prop :=
  (∀ rc, s.phase.error = some rc → rc ≠ 0) ∧
    ∀ c ∈ s.callbacks, c.stage = .write → c.status ≠ 0

theorem next_error (num : U32) (i : ℕ) : (next num i).error = none := by
  unfold next; split <;> rfl

theorem read_eq_write {status : ℤ} {c : Callback} (h : c.read num status = .write) :
    status = 0 ∧ ¬ Expected num c.urb c.status := by
  unfold Callback.read at h
  split_ifs at h with hstatus hreset hne
  exact ⟨not_not.mp hstatus, fun hexp => hexp.elim hne hreset⟩

theorem Errors.keep {s : State} (hs : Errors s) {c c' : Callback} (hc' : c' ∈ s.callbacks.erase c)
    (hwrite : c'.stage = .write) : c'.status ≠ 0 :=
  hs.2 c' (List.mem_of_mem_erase hc') hwrite

theorem Errors.step {s t : State} {e : Event} (hs : Errors s) (h : step num s e = some t) :
    Errors t := by
  cases step_cases h with
  | inc hphase => exact ⟨fun rc hrc => (by cases hrc), hs.2⟩
  | undo hphase => exact ⟨fun rc hrc => hs.1 rc (by rw [hphase]; exact hrc), hs.2⟩
  | fail hphase => exact ⟨fun rc hrc => (by cases hrc), hs.2⟩
  | unlink hphase => exact ⟨fun rc hrc => (by cases hrc), hs.2⟩
  | dec hphase =>
    refine ⟨fun rc hrc => ?_, hs.2⟩
    dsimp only at hrc
    split_ifs at hrc <;> cases hrc
  | complete hphase => exact ⟨fun rc hrc => (by cases hrc), hs.2⟩
  | wake hphase hdone => exact ⟨fun rc hrc => (by cases hrc), hs.2⟩
  | refused hphase hne => exact ⟨fun rc hrc => Option.some.inj hrc ▸ hne, hs.2⟩
  | @submitted i hphase =>
    refine ⟨fun rc hrc => ?_, hs.2⟩
    have hnone := next_error num (i + 1)
    exact absurd (hrc.symm.trans hnone) (Option.some_ne_none rc)
  | giveBack hk =>
    refine ⟨hs.1, fun c' hc' hwrite => ?_⟩
    rcases List.mem_cons.mp hc' with rfl | hc'
    · cases hwrite
    · exact hs.2 c' hc' hwrite
  | @read c hc hstage =>
    refine ⟨hs.1, fun c' hc' hwrite => ?_⟩
    rcases List.mem_cons.mp hc' with rfl | hc'
    · exact fun hzero => (read_eq_write hwrite).2 (.inl hzero)
    · exact hs.keep hc' hwrite
  | write hc hstage =>
    refine ⟨hs.1, fun c' hc' hwrite => ?_⟩
    rcases List.mem_cons.mp hc' with rfl | hc'
    · cases hwrite
    · exact hs.keep hc' hwrite
  | drop hc hstage hmore => exact ⟨hs.1, fun c' hc' hwrite => hs.keep hc' hwrite⟩
  | last hc hstage hone =>
    refine ⟨hs.1, fun c' hc' hwrite => ?_⟩
    rcases List.mem_cons.mp hc' with rfl | hc'
    · cases hwrite
    · exact hs.keep hc' hwrite
  | signal hc hstage => exact ⟨hs.1, fun c' hc' hwrite => hs.keep hc' hwrite⟩

theorem forall_erase_iff {p : Callback → Prop} {c : Callback} {cs : List Callback} (hc : c ∈ cs) :
    (∀ c' ∈ cs, p c') ↔ p c ∧ ∀ c' ∈ cs.erase c, p c' := by
  rw [← List.forall_mem_cons]
  exact forall_congr' fun c' => by rw [(List.perm_cons_erase hc).mem_iff]

theorem harmless_read {c : Callback} (hstage : c.stage = .start) :
    ({ c with stage := c.read num 0 } : Callback).Harmless num ↔ c.Harmless num := by
  have hstart : c.Harmless num = Expected num c.urb c.status := by
    simp only [Callback.Harmless, hstage]
  rw [hstart]
  unfold Callback.read Expected
  by_cases hzero : c.status = 0
  · simp [Callback.Harmless, hzero]
  · by_cases hreset : Unlinked num c.urb ∧ c.status = -ECONNRESET
    · simp only [Callback.Harmless, ne_eq, not_true_eq_false, if_false, if_pos hreset, true_iff]
      exact .inr hreset
    · simp [Callback.Harmless, hzero, hreset]

/-- A callback that has read `status` writes an error if it is to, and no other step makes one. -/
theorem ok_step {s t : State} {e : Event} (hs : Errors s) (h : step num s e = some t) :
    Ok num t ↔ Ok num s ∧ Passes num e := by
  unfold Ok
  cases step_cases h with
  | inc hphase => simp [hphase, Phase.error, Passes]
  | undo hphase => simp [hphase, Phase.error]
  | @fail i rc hphase =>
    have hne := hs.1 rc (by rw [hphase]; rfl)
    simp [hphase, Phase.error, hne]
  | unlink hphase => simp [hphase, Phase.error, Passes]
  | dec hphase =>
    simp only [hphase, Phase.error, Passes, and_true, true_and]
    split_ifs <;> simp
  | complete hphase => simp [hphase, Phase.error, Passes]
  | wake hphase hdone => simp [hphase, Phase.error, Passes]
  | refused hphase hne => simp [hphase, Phase.error, Passes, hne]
  | @submitted i hphase =>
    have hnone := next_error num (i + 1)
    have hphase' : s.phase.error = none := by rw [hphase]; rfl
    simp only [hnone, hphase', Passes, and_true]
  | giveBack hk =>
    simp only [List.forall_mem_cons, Passes, Callback.Harmless]
    tauto
  | @read c hc hstage =>
    rw [forall_erase_iff hc, List.forall_mem_cons]
    refine Iff.trans (and_congr_right fun hzero => ?_) (and_iff_left trivial).symm
    rw [hzero, harmless_read hstage]
  | @write c hc hstage =>
    have hne := hs.2 c hc hstage
    rw [forall_erase_iff hc]
    simp [Callback.Harmless, hstage, hne]
  | @drop c hc hstage hmore =>
    rw [forall_erase_iff hc]
    simp [Callback.Harmless, hstage, Passes]
  | @last c hc hstage hone =>
    rw [forall_erase_iff hc]
    simp [Callback.Harmless, hstage, Passes]
  | @signal c hc hstage =>
    rw [forall_erase_iff hc]
    simp [Callback.Harmless, hstage, Passes]

theorem ok_start (num : U32) : Ok num (start num) :=
  ⟨rfl, next_error num 0, fun _ hc => absurd hc List.not_mem_nil⟩

theorem errors_start (num : U32) : Errors (start num) :=
  ⟨fun rc hrc => absurd (hrc.symm.trans (next_error num 0)) (Option.some_ne_none rc),
    fun _ hc => absurd hc List.not_mem_nil⟩

/-- The event shows the error `r`. -/
def Shows (num : U32) (r : ℤ) : Event → Prop
  | .submit rc => rc ≠ 0 ∧ rc = r
  | .giveBack k status => ¬ Expected num k status ∧ status = r
  | _ => False

/-- What is in `status`, or may be written there, is zero or in `E`. -/
structure Within (num : U32) (E : Set ℤ) (s : State) : Prop where
  status : s.status = 0 ∨ s.status ∈ E
  error : ∀ rc, s.phase.error = some rc → rc ∈ E
  read : ∀ c ∈ s.callbacks, c.stage = .start → Expected num c.urb c.status ∨ c.status ∈ E
  write : ∀ c ∈ s.callbacks, c.stage = .write → c.status ∈ E

/-- One callback is put in the place of another. -/
theorem Within.advance {E : Set ℤ} {s : State} (hs : Within num E s) {b c : Callback}
    (hread : b.stage = .start → Expected num b.urb b.status ∨ b.status ∈ E)
    (hwrite : b.stage = .write → b.status ∈ E) :
    (∀ d ∈ b :: s.callbacks.erase c, d.stage = .start →
      Expected num d.urb d.status ∨ d.status ∈ E) ∧
    (∀ d ∈ b :: s.callbacks.erase c, d.stage = .write → d.status ∈ E) :=
  ⟨List.forall_mem_cons.mpr ⟨hread, fun d hd => hs.read d (List.mem_of_mem_erase hd)⟩,
    List.forall_mem_cons.mpr ⟨hwrite, fun d hd => hs.write d (List.mem_of_mem_erase hd)⟩⟩

theorem Within.step {E : Set ℤ} {s t : State} {e : Event} (hs : Within num E s)
    (he : ∀ r, Shows num r e → r ∈ E) (h : step num s e = some t) : Within num E t := by
  cases step_cases h with
  | inc hphase => exact ⟨hs.status, fun rc hrc => (by cases hrc), hs.read, hs.write⟩
  | undo hphase =>
    exact ⟨hs.status, fun rc hrc => hs.error rc (by rw [hphase]; exact hrc), hs.read, hs.write⟩
  | @fail i rc hphase =>
    have hrc : rc ∈ E := hs.error rc (by rw [hphase]; rfl)
    exact ⟨.inr hrc, fun rc hrc => (by cases hrc), hs.read, hs.write⟩
  | unlink hphase => exact ⟨hs.status, fun rc hrc => (by cases hrc), hs.read, hs.write⟩
  | dec hphase =>
    refine ⟨hs.status, fun rc hrc => ?_, hs.read, hs.write⟩
    dsimp only at hrc
    split_ifs at hrc <;> cases hrc
  | complete hphase => exact ⟨hs.status, fun rc hrc => (by cases hrc), hs.read, hs.write⟩
  | wake hphase hdone => exact ⟨hs.status, fun rc hrc => (by cases hrc), hs.read, hs.write⟩
  | @refused i rc hphase hne =>
    refine ⟨hs.status, fun rc' hrc => ?_, hs.read, hs.write⟩
    exact he rc' ⟨hne, Option.some.inj hrc⟩
  | @submitted i hphase =>
    refine ⟨hs.status, fun rc hrc => ?_, hs.read, hs.write⟩
    exact absurd (hrc.symm.trans (next_error num (i + 1))) (Option.some_ne_none rc)
  | @giveBack k status hk =>
    refine ⟨hs.status, hs.error, List.forall_mem_cons.mpr ⟨fun _ => ?_, hs.read⟩,
      List.forall_mem_cons.mpr ⟨fun hwrite => (by cases hwrite), hs.write⟩⟩
    by_cases hexp : Expected num k status
    · exact .inl hexp
    · exact .inr (he status ⟨hexp, rfl⟩)
  | @read c hc hstage =>
    have hown := hs.read c hc hstage
    obtain ⟨hread, hwrite⟩ := hs.advance (c := c)
      (b := { c with stage := c.read num s.status }) (fun _ => hown)
      (fun hwrite => hown.resolve_left (read_eq_write hwrite).2)
    exact ⟨hs.status, hs.error, hread, hwrite⟩
  | @write c hc hstage =>
    obtain ⟨hread, hwrite⟩ := hs.advance (c := c) (b := { c with stage := .drop })
      (fun h => by cases h) (fun h => by cases h)
    exact ⟨.inr (hs.write c hc hstage), hs.error, hread, hwrite⟩
  | drop hc hstage hmore =>
    exact ⟨hs.status, hs.error, fun d hd => hs.read d (List.mem_of_mem_erase hd),
      fun d hd => hs.write d (List.mem_of_mem_erase hd)⟩
  | @last c hc hstage hone =>
    obtain ⟨hread, hwrite⟩ := hs.advance (c := c) (b := { c with stage := .complete })
      (fun h => by cases h) (fun h => by cases h)
    exact ⟨hs.status, hs.error, hread, hwrite⟩
  | signal hc hstage =>
    exact ⟨hs.status, hs.error, fun d hd => hs.read d (List.mem_of_mem_erase hd),
      fun d hd => hs.write d (List.mem_of_mem_erase hd)⟩

theorem within_start (num : U32) (E : Set ℤ) : Within num E (start num) where
  status := .inl rfl
  error rc hrc := absurd (hrc.symm.trans (next_error num 0)) (Option.some_ne_none rc)
  read _ hc := absurd hc List.not_mem_nil
  write _ hc := absurd hc List.not_mem_nil

/-- The test returns 0 exactly when every submission succeeded and every URB was given back as
it may be, and otherwise it returns one of the errors that it was shown. -/
theorem unlinkQueued_status {num : U32} {es : List Event} {t : State} {r : ℤ}
    (h : runs (step num) (start num) es = some t) (hr : t.phase = .returned r) :
    (r = 0 ↔ ∀ e ∈ es, Passes num e) ∧ (r ≠ 0 → ∃ e ∈ es, Shows num r e) := by
  have hcounted := runs_invariant (fun _ _ _ hs => hs.step) (counted_start num) h
  obtain ⟨hdone, hstatus⟩ := hcounted.returned r hr
  obtain ⟨-, hlen⟩ := hcounted.quiet (hcounted.pending_eq_zero (by omega))
  have hcallbacks : t.callbacks = [] := List.eq_nil_of_length_eq_zero (by omega)
  constructor
  · have hiff := last_iff_alwaysStep (C := fun _ e => Passes num e) (fun _ _ _ hs => hs.step)
      (fun _ _ _ hs hst => ok_step hs hst) (errors_start num) h
    rw [and_iff_right (ok_start num), alwaysStep_iff_forall h] at hiff
    rw [← hiff, hstatus, Ok, hr, hcallbacks]
    exact ⟨fun hzero => ⟨hzero, rfl, fun c hc => absurd hc List.not_mem_nil⟩, fun hok => hok.1⟩
  · intro hne
    have hshown : AlwaysStep (step num) (fun _ e => ∀ r, Shows num r e →
        r ∈ {r | ∃ e ∈ es, Shows num r e}) (start num) es :=
      (alwaysStep_iff_forall h).mpr fun e he r hshow => ⟨e, he, hshow⟩
    have hwithin := always_iff.mp (AlwaysStep.always (fun _ _ _ hs he hst => hs.step he hst)
      (within_start num _) hshown) es t (List.prefix_refl _) h
    rw [hstatus] at hne ⊢
    exact hwithin.status.resolve_left hne

theorem unlinkQueued_status_race :
    ((-71 : ℤ) = 0 ↔ ∀ e ∈ race, Passes 4 e) ∧
      ((-71 : ℤ) ≠ 0 → ∃ e ∈ race, Shows 4 (-71) e) := by
  obtain ⟨t, ht, hr⟩ := race_returns
  exact unlinkQueued_status ht hr

end FuzzUSB.Usbtest.UnlinkQueued
