import FuzzUSB.Transition
import FuzzUSB.UsbtestTypes
import Mathlib.Algebra.Ring.Nat
import Mathlib.Data.List.Basic
import Mathlib.Data.List.Nodup

/-!
# The control queue of the usbtest driver

`test_ctrl_queue` submits `sglen` control URBs, and `ctrl_complete` submits each again until
`iterations * sglen` transfers are done. The host controller gives URBs back at any time, also
while the submission loop or another completion holds the lock. A completion that finds the
first error drops the lock for every URB that it unlinks.
-/

namespace FuzzUSB.Usbtest.CtrlQueue
open Transition

def EPIPE : ℤ := 32
def EDOM : ℤ := 33
def ECONNRESET : ℤ := 104
def EREMOTEIO : ℤ := 121

/-- `NUM_SUBCASES` -/
def numSubcases : ℕ := 16

inductive Speed
  | unknown | low | full | high | wireless | super | superPlus
  deriving DecidableEq

/-- What the table of requests depends on. -/
structure UsbDevice where
  speed : Speed
  bMaxPacketSize0 : BitVec 8
  bcdUSB : BitVec 16
  /-- `wTotalLength` of the BOS descriptor. -/
  bos : Option (BitVec 16)

/-- `struct subcase` -/
structure Subcase where
  setup : CtrlRequest
  number : ℕ
  expected : ℤ

/-- A request to the device that reads a descriptor of `len` bytes. -/
def getDescriptor (type : BitVec 8) (len : BitVec 16) : CtrlRequest :=
  ⟨0x80, 6, type.setWidth 16 <<< 8, 0, len⟩

/-- `USB_REQ_GET_STATUS` of a recipient. -/
def getStatus (recipient : BitVec 8) : CtrlRequest := ⟨0x80 ||| recipient, 0, 0, 0, 2⟩

def dtDevice : BitVec 8 := 1
def dtConfig : BitVec 8 := 2
def dtString : BitVec 8 := 3
def dtInterface : BitVec 8 := 4
def dtEndpoint : BitVec 8 := 5
def dtDeviceQualifier : BitVec 8 := 6
def dtBos : BitVec 8 := 15

/-- The length that fills the last packet and a little more. -/
def packetLen (udev : UsbDevice) : BitVec 16 :=
  let len : BitVec 16 := if udev.speed = .super then 512 else udev.bMaxPacketSize0.setWidth 16
  if len = 8 then 24 else if len = 16 then 32 else len

/-- The request of URB `i`, and the status that is expected of it: a negative one must come,
a positive one may. -/
def subcase (udev : UsbDevice) (i : ℕ) : Subcase :=
  let r : CtrlRequest × ℤ :=
    match i % numSubcases with
    | 0 => (getDescriptor dtDevice 18, 0)
    | 1 => (getDescriptor dtConfig 9, 0)
    | 2 => (⟨0x81, 10, 0, 0, 1⟩, EPIPE)
    | 3 => (getStatus 1, 0)
    | 4 => (getStatus 0, 0)
    | 5 => (getDescriptor dtDeviceQualifier 10, if udev.speed ≠ .high then EPIPE else 0)
    | 6 => (getDescriptor dtConfig (9 + 9), 0)
    | 7 => (getDescriptor dtInterface 9, -EPIPE)
    -- Clear the halt of endpoint 0.
    | 8 => (⟨0x02, 1, 0, 0, 0⟩, EPIPE)
    | 9 => (getStatus 2, 0)
    | 10 => (getDescriptor dtConfig 1024, - EREMOTEIO)
    | 11 => (getDescriptor dtEndpoint 9, EPIPE)
    | 12 => (getDescriptor dtString 9, EREMOTEIO)
    | 13 =>
      (getDescriptor dtConfig
        (if udev.speed = .super then 1024 - 512 else 1024 - udev.bMaxPacketSize0.setWidth 16),
        - EREMOTEIO)
    | 14 => (getDescriptor dtDevice (packetLen udev), - EREMOTEIO)
    | _ =>
      (getDescriptor dtBos (udev.bos.getD 5), if udev.bcdUSB.toNat < 0x0201 then -EPIPE else 0)
  ⟨r.1, i % numSubcases, r.2⟩

/-- `struct ctrl_ctx` -/
structure CtrlCtx where
  count : U32
  pending : U32
  status : ℤ
  last : ℤ

/-- Where `test_ctrl_queue` is: about to submit a URB with the lock held, about to read
`pending`, waiting for the completion, or past it. -/
inductive Phase
  | submitting (i : ℕ)
  | checking
  | waiting
  | returned
  deriving DecidableEq

/-- The submission loop holds the lock. -/
def Phase.locked : Phase → Bool
  | submitting _ => true
  | _ => false

structure State where
  ctx : CtrlCtx
  /-- The URBs whose `dev` is not `NULL`. -/
  dev : ℕ → Bool
  /-- The URBs that the host controller has. -/
  queue : List ℕ
  /-- The URBs it has given back with a status, before their completions have the lock. -/
  back : List (ℕ × ℤ)
  /-- The completion that holds the lock and has judged its transfer. -/
  running : Option (ℕ × ℤ)
  /-- The completion that is unlinking, without the lock, and the round of its loop. -/
  unlinking : Option (ℕ × ℕ)
  /-- A completion has called `complete` and has yet to release the lock. -/
  unlocking : Bool
  /-- The calls of `complete`. -/
  completed : ℕ
  /-- The transfers that completions have counted. -/
  transfers : ℕ
  phase : Phase

/-- What a step of the test is. `submit` and `finish` carry the status of a submission. -/
inductive Event
  | submit (rc : ℤ)
  | giveBack (k : ℕ) (status : ℤ)
  | enter (k : ℕ) (status : ℤ)
  | unlinked
  | finish (rc : ℤ)
  | unlock
  | check
  | wake

/-- `test_ctrl_queue` up to the submission loop, where `allocated` says whether all URBs and
requests were allocated. -/
def testCtrlQueue (sglen iterations : U32) (kcalloc allocated : Bool) : ℤ ⊕ State :=
  if sglen = 0 ∨ (2 ^ 32 - 1) / sglen.toNat < iterations.toNat then .inl (-EOPNOTSUPP)
  else if !kcalloc then .inl (-ENOMEM)
  else if !allocated then .inl (-ENOMEM)
  else .inr
    { ctx := ⟨sglen * iterations, 0, -ENOMEM, -1⟩
      dev := fun _ => true
      queue := []
      back := []
      running := none
      unlinking := none
      unlocking := false
      completed := 0
      transfers := 0
      phase := .submitting 0 }

namespace State

variable (s : State)

/-- Nobody holds `ctx->lock`. -/
def Unlocked : Prop := s.running = none ∧ s.phase.locked = false ∧ s.unlocking = false

instance : Decidable s.Unlocked := inferInstanceAs (Decidable (_ ∧ _))

end State

section

variable (udev : UsbDevice) (sglen : ℕ)

/-- What `ctrl_complete` makes of the status of a transfer. -/
def judge (sub : Subcase) (last status : ℤ) : ℤ :=
  if 0 < sub.number ∧ sub.number - last ≠ 1 then -EDOM
  else if status = sub.expected then 0
  else if status ≠ -ECONNRESET then
    if 0 < sub.expected ∧ (status = -sub.expected ∨ status = 0) then 0
    else if sub.number = 12 ∧ status = -EPIPE then 0
    else status
  else status

/-- The next round of the loop that unlinks, from round `i` on, for URB `k`: one whose URB is
another and is still there. -/
def nextRound (dev : ℕ → Bool) (k i : ℕ) : Option ℕ :=
  (List.range' i (sglen - i)).find? fun i =>
    (i + k % numSubcases) % sglen ≠ k && dev ((i + k % numSubcases) % sglen)

/-- The loop goes on to another URB and drops the lock, or is over. -/
def unlinkFrom (s : State) (k i : ℕ) : State :=
  match nextRound sglen s.dev k i with
  | some i => { s with unlinking := some (k, i) }
  | none => { s with unlinking := none, running := some (k, s.ctx.status) }

/-- The transfer of URB `k` is counted. -/
def counted (k : ℕ) (statusOfUrb : ℤ) (s : State) : State :=
  { s with
    ctx := ⟨s.ctx.count - 1, s.ctx.pending - 1, s.ctx.status, (subcase udev k).number⟩
    back := s.back.erase (k, statusOfUrb)
    transfers := s.transfers + 1 }

/-- `ctrl_complete` of URB `k` once it has the lock. -/
def enter (k : ℕ) (statusOfUrb : ℤ) (s : State) : State :=
  let status := judge (subcase udev k) s.ctx.last statusOfUrb
  let s' := counted udev k statusOfUrb s
  if status ≠ 0 ∧ s.ctx.status = 0 then
    unlinkFrom sglen { s' with ctx := { s'.ctx with status := status } } k 1
  else { s' with running := some (k, status) }

/-- The end of `ctrl_complete`, where `rc` is the status of submitting the URB again. Behind
`complete` the lock is released in a step of its own, since the test goes on before that. -/
def finish (k : ℕ) (status rc : ℤ) (s : State) : State :=
  let s' : State :=
    if status = 0 ∧ s.ctx.pending < s.ctx.count ∧ rc = 0 then
      { s with
        ctx := { s.ctx with pending := s.ctx.pending + 1 }
        queue := s.queue ++ [k] }
    else { s with dev := Function.update s.dev k false }
  { s' with
    running := none
    unlocking := s'.ctx.pending = 0
    completed := s'.completed + if s'.ctx.pending = 0 then 1 else 0 }

/-- One round of the submission loop. -/
def submit (i : ℕ) (rc : ℤ) (s : State) : State :=
  if rc ≠ 0 then
    { s with ctx := { s.ctx with status := rc, count := s.ctx.pending }, phase := .checking }
  else
    { s with
      ctx := { s.ctx with status := 0, pending := s.ctx.pending + 1 }
      queue := s.queue ++ [i]
      phase := if i + 1 < sglen then .submitting (i + 1) else .checking }

def step (s : State) : Event → Option State
  | .submit rc =>
    match s.phase with
    | .submitting i => some (submit sglen i rc s)
    | _ => none
  | .giveBack k status =>
    if k ∈ s.queue then
      some { s with queue := s.queue.erase k, back := s.back ++ [(k, status)] }
    else none
  | .enter k status =>
    if (k, status) ∈ s.back ∧ s.Unlocked then some (enter udev sglen k status s) else none
  | .unlinked =>
    match s.unlinking with
    | some (k, i) => if s.Unlocked then some (unlinkFrom sglen s k (i + 1)) else none
    | none => none
  | .finish rc =>
    match s.running with
    | some (k, status) => some (finish k status rc s)
    | none => none
  | .unlock => if s.unlocking then some { s with unlocking := false } else none
  | .check =>
    if s.phase = .checking then
      some { s with phase := if s.ctx.pending = 0 then .returned else .waiting }
    else none
  | .wake =>
    if s.phase = .waiting ∧ 0 < s.completed then some { s with phase := .returned } else none

end

/-! ## A short run -/

def highSpeedDevice : UsbDevice := ⟨.high, 64, 0x0200, none⟩

/-- One URB, to be sent twice. -/
def shortStart : State where
  ctx := ⟨2, 0, -ENOMEM, -1⟩
  dev _ := true
  queue := []
  back := []
  running := none
  unlinking := none
  unlocking := false
  completed := 0
  transfers := 0
  phase := .submitting 0

/-- The URB is sent and given back twice. -/
def shortRun : List Event :=
  [.submit 0, .giveBack 0 0, .check, .enter 0 0, .finish 0, .giveBack 0 0, .enter 0 0, .finish 0,
    .unlock, .wake]

theorem testCtrlQueue_short : testCtrlQueue 1 2 true true = .inr shortStart := rfl

theorem shortRun_returns :
    ∃ t, runs (step highSpeedDevice 1) shortStart shortRun = some t ∧ t.phase = .returned ∧
      t.completed = 1 :=
  ⟨_, rfl, rfl, rfl⟩

variable {udev : UsbDevice} {sglen : ℕ}

/-! ## What a step does -/

inductive StepTo (udev : UsbDevice) (sglen : ℕ) (s : State) : Event → State → Prop
  | submit {i : ℕ} {rc : ℤ} (hphase : s.phase = .submitting i) :
      StepTo udev sglen s (.submit rc) (submit sglen i rc s)
  | giveBack {k : ℕ} {status : ℤ} (hk : k ∈ s.queue) :
      StepTo udev sglen s (.giveBack k status)
        { s with queue := s.queue.erase k, back := s.back ++ [(k, status)] }
  | enter {k : ℕ} {status : ℤ} (hback : (k, status) ∈ s.back) (hfree : s.Unlocked) :
      StepTo udev sglen s (.enter k status) (enter udev sglen k status s)
  | unlinked {k i : ℕ} (hloop : s.unlinking = some (k, i)) (hfree : s.Unlocked) :
      StepTo udev sglen s .unlinked (unlinkFrom sglen s k (i + 1))
  | finish {k : ℕ} {status rc : ℤ} (hrun : s.running = some (k, status)) :
      StepTo udev sglen s (.finish rc) (finish k status rc s)
  | unlock (hlock : s.unlocking = true) :
      StepTo udev sglen s .unlock { s with unlocking := false }
  | check (hphase : s.phase = .checking) :
      StepTo udev sglen s .check
        { s with phase := if s.ctx.pending = 0 then .returned else .waiting }
  | wake (hphase : s.phase = .waiting) (hdone : 0 < s.completed) :
      StepTo udev sglen s .wake { s with phase := .returned }

theorem step_cases {s t : State} {e : Event} (h : step udev sglen s e = some t) :
    StepTo udev sglen s e t := by
  cases e with
  | submit rc =>
    simp only [step] at h
    split at h
    · obtain rfl := Option.some.inj h
      exact .submit ‹_›
    · cases h
  | giveBack k status =>
    obtain ⟨hk, h⟩ := Option.ite_none_right_eq_some.mp h
    obtain rfl := Option.some.inj h
    exact .giveBack hk
  | enter k status =>
    obtain ⟨hk, h⟩ := Option.ite_none_right_eq_some.mp h
    obtain rfl := Option.some.inj h
    exact .enter hk.1 hk.2
  | unlinked =>
    simp only [step] at h
    split at h
    · obtain ⟨hfree, h⟩ := Option.ite_none_right_eq_some.mp h
      obtain rfl := Option.some.inj h
      exact .unlinked ‹_› hfree
    · cases h
  | finish rc =>
    simp only [step] at h
    split at h
    · obtain rfl := Option.some.inj h
      exact .finish ‹_›
    · cases h
  | unlock =>
    obtain ⟨hlock, h⟩ := Option.ite_none_right_eq_some.mp h
    obtain rfl := Option.some.inj h
    exact .unlock hlock
  | check =>
    obtain ⟨hphase, h⟩ := Option.ite_none_right_eq_some.mp h
    obtain rfl := Option.some.inj h
    exact .check hphase
  | wake =>
    obtain ⟨hw, h⟩ := Option.ite_none_right_eq_some.mp h
    obtain rfl := Option.some.inj h
    exact .wake hw.1 hw.2

theorem nextRound_some {dev : ℕ → Bool} {k i j : ℕ} (h : nextRound sglen dev k i = some j) :
    i ≤ j ∧ j < sglen := by
  have hmem := List.mem_of_find?_eq_some h
  rw [List.mem_range'_1] at hmem
  omega

/-- The loop goes on or is over. -/
theorem unlinkFrom_cases (sglen : ℕ) (s : State) (k i : ℕ) :
    (∃ j, i ≤ j ∧ j < sglen ∧ unlinkFrom sglen s k i = { s with unlinking := some (k, j) }) ∨
      unlinkFrom sglen s k i =
        { s with unlinking := none, running := some (k, s.ctx.status) } := by
  unfold unlinkFrom
  cases h : nextRound sglen s.dev k i with
  | some j => exact .inl ⟨j, (nextRound_some h).1, (nextRound_some h).2, rfl⟩
  | none => exact .inr rfl

section

variable (s : State) (k i : ℕ)

@[simp] theorem unlinkFrom_ctx : (unlinkFrom sglen s k i).ctx = s.ctx := by
  unfold unlinkFrom; split <;> rfl

@[simp] theorem unlinkFrom_queue : (unlinkFrom sglen s k i).queue = s.queue := by
  unfold unlinkFrom; split <;> rfl

@[simp] theorem unlinkFrom_back : (unlinkFrom sglen s k i).back = s.back := by
  unfold unlinkFrom; split <;> rfl

@[simp] theorem unlinkFrom_unlocking : (unlinkFrom sglen s k i).unlocking = s.unlocking := by
  unfold unlinkFrom; split <;> rfl

@[simp] theorem unlinkFrom_completed : (unlinkFrom sglen s k i).completed = s.completed := by
  unfold unlinkFrom; split <;> rfl

@[simp] theorem unlinkFrom_transfers : (unlinkFrom sglen s k i).transfers = s.transfers := by
  unfold unlinkFrom; split <;> rfl

@[simp] theorem unlinkFrom_phase : (unlinkFrom sglen s k i).phase = s.phase := by
  unfold unlinkFrom; split <;> rfl

variable (status : ℤ)

@[simp] theorem enter_count :
    (enter udev sglen k status s).ctx.count = s.ctx.count - 1 := by
  unfold enter; dsimp only; split <;> simp [counted]

@[simp] theorem enter_pending :
    (enter udev sglen k status s).ctx.pending = s.ctx.pending - 1 := by
  unfold enter; dsimp only; split <;> simp [counted]

@[simp] theorem enter_last :
    (enter udev sglen k status s).ctx.last = (subcase udev k).number := by
  unfold enter; dsimp only; split <;> simp [counted]

@[simp] theorem enter_queue : (enter udev sglen k status s).queue = s.queue := by
  unfold enter; dsimp only; split <;> simp [counted]

@[simp] theorem enter_back :
    (enter udev sglen k status s).back = s.back.erase (k, status) := by
  unfold enter; dsimp only; split <;> simp [counted]

@[simp] theorem enter_unlocking : (enter udev sglen k status s).unlocking = s.unlocking := by
  unfold enter; dsimp only; split <;> simp [counted]

@[simp] theorem enter_completed : (enter udev sglen k status s).completed = s.completed := by
  unfold enter; dsimp only; split <;> simp [counted]

@[simp] theorem enter_transfers :
    (enter udev sglen k status s).transfers = s.transfers + 1 := by
  unfold enter; dsimp only; split <;> simp [counted]

@[simp] theorem enter_phase : (enter udev sglen k status s).phase = s.phase := by
  unfold enter; dsimp only; split <;> simp [counted]

end

/-- The first error starts to unlink, if there is a URB to unlink. Otherwise the completion
comes to its end. -/
theorem enter_cases (udev : UsbDevice) (sglen : ℕ) (s : State) (k : ℕ) (status : ℤ) :
    let r := judge (subcase udev k) s.ctx.last status
    let t := enter udev sglen k status s
    (r ≠ 0 ∧ s.ctx.status = 0 ∧ t.ctx.status = r ∧
        ((∃ j, 1 ≤ j ∧ j < sglen ∧ t.unlinking = some (k, j) ∧ t.running = s.running) ∨
          (t.unlinking = none ∧ t.running = some (k, r)))) ∨
      (¬(r ≠ 0 ∧ s.ctx.status = 0) ∧ t.ctx.status = s.ctx.status ∧
        t.unlinking = s.unlinking ∧ t.running = some (k, r)) := by
  intro r t
  by_cases h : r ≠ 0 ∧ s.ctx.status = 0
  · left
    refine ⟨h.1, h.2, ?_⟩
    have ht : t = _ := if_pos h
    rw [ht]
    refine ⟨by rw [unlinkFrom_ctx], ?_⟩
    rcases unlinkFrom_cases sglen _ k 1 with ⟨j, hj, hlt, heq⟩ | heq
    · exact .inl ⟨j, hj, hlt, by rw [heq], by rw [heq]; rfl⟩
    · exact .inr ⟨by rw [heq], by rw [heq]⟩
  · right
    have ht : t = _ := if_neg h
    rw [ht]
    exact ⟨h, rfl, rfl, rfl⟩

/-- The URB is submitted again, or is done with. -/
theorem finish_cases (k : ℕ) (status rc : ℤ) (s : State) :
    (status = 0 ∧ s.ctx.pending < s.ctx.count ∧ rc = 0 ∧ finish k status rc s =
        { s with
          ctx := { s.ctx with pending := s.ctx.pending + 1 }
          queue := s.queue ++ [k]
          running := none
          unlocking := false }) ∨
      (¬(status = 0 ∧ s.ctx.pending < s.ctx.count ∧ rc = 0) ∧ finish k status rc s =
        { s with
          dev := Function.update s.dev k false
          running := none
          unlocking := s.ctx.pending = 0
          completed := s.completed + if s.ctx.pending = 0 then 1 else 0 }) := by
  by_cases h : status = 0 ∧ s.ctx.pending < s.ctx.count ∧ rc = 0
  · left
    have hne : s.ctx.pending + 1 ≠ 0 := by
      have hlt := h.2.1
      bv_omega
    refine ⟨h.1, h.2.1, h.2.2, ?_⟩
    simp only [finish, if_pos h, hne, decide_false, if_false, Nat.add_zero]
  · right
    refine ⟨h, ?_⟩
    simp only [finish, if_neg h]

/-- The loop ends with an error, or submits one URB and goes on to the next. -/
theorem submit_cases (sglen i : ℕ) (rc : ℤ) (s : State) :
    (rc ≠ 0 ∧ submit sglen i rc s =
        { s with ctx := { s.ctx with status := rc, count := s.ctx.pending }, phase := .checking }) ∨
      (rc = 0 ∧ submit sglen i rc s =
        { s with
          ctx := { s.ctx with status := 0, pending := s.ctx.pending + 1 }
          queue := s.queue ++ [i]
          phase := if i + 1 < sglen then .submitting (i + 1) else .checking }) := by
  by_cases h : rc = 0
  · exact .inr ⟨h, if_neg (not_not.mpr h)⟩
  · exact .inl ⟨h, if_pos h⟩

/-! ## What is under way -/

/-- Nothing is with the host controller, and no completion is under way, but for one that has
called `complete` and has yet to release the lock. -/
structure State.AtRest (s : State) : Prop where
  queue : s.queue = []
  back : s.back = []
  running : s.running = none
  unlinking : s.unlinking = none

/-- What every step keeps: `pending` is what the host controller has and what it has given
back, and completions run only behind the submission loop. -/
structure Flight (sglen : ℕ) (s : State) : Prop where
  pending : s.ctx.pending.toNat = s.queue.length + s.back.length
  submitting : ∀ i, s.phase = .submitting i → i < sglen ∧ s.ctx.pending.toNat = i ∧
    s.running = none ∧ s.unlinking = none ∧ s.completed = 0 ∧ s.transfers = 0
  error : ∀ u, s.unlinking = some u → u.2 < sglen ∧ s.ctx.status ≠ 0

namespace Flight

variable {s t : State} {e : Event}

theorem pending_pos (hs : Flight sglen s) {b : ℕ × ℤ} (hb : b ∈ s.back) :
    0 < s.ctx.pending.toNat := by
  have hlen := List.length_pos_of_mem hb
  have hpending := hs.pending
  omega

theorem not_submitting (hfree : s.Unlocked) (i : ℕ) : s.phase ≠ .submitting i := by
  intro hphase
  have hlocked := hfree.2.1
  rw [hphase] at hlocked
  cases hlocked

theorem submit (hs : Flight sglen s) (hlt : sglen < 2 ^ 32) {i : ℕ} {rc : ℤ}
    (hphase : s.phase = .submitting i) : Flight sglen (submit sglen i rc s) := by
  obtain ⟨hi, hpend, hrun, hloop, hdone, hzero⟩ := hs.submitting i hphase
  have hpending := hs.pending
  rcases submit_cases sglen i rc s with ⟨-, heq⟩ | ⟨-, heq⟩
  · rw [heq]
    exact ⟨hpending, fun j hj => (by cases hj), fun u hu => absurd (hloop.symm.trans hu) (by simp)⟩
  · rw [heq]
    have hnext : (s.ctx.pending + 1).toNat = i + 1 := by bv_omega
    refine ⟨?_, fun j hj => ?_, fun u hu => absurd (hloop.symm.trans hu) (by simp)⟩
    · show (s.ctx.pending + 1).toNat = (s.queue ++ [i]).length + s.back.length
      rw [List.length_append, List.length_singleton]
      omega
    · dsimp only at hj
      split at hj
      · obtain rfl := Phase.submitting.inj hj
        exact ⟨‹_›, hnext, hrun, hloop, hdone, hzero⟩
      · cases hj

theorem enter (hs : Flight sglen s) {k : ℕ} {status : ℤ} (hback : (k, status) ∈ s.back)
    (hfree : s.Unlocked) : Flight sglen (enter udev sglen k status s) := by
  have hpos := hs.pending_pos hback
  have hpending := hs.pending
  refine ⟨?_, fun i hi => ?_, fun u hu => ?_⟩
  · rw [enter_pending, enter_queue, enter_back, List.length_erase_of_mem hback]
    have hlen := List.length_pos_of_mem hback
    bv_omega
  · rw [enter_phase] at hi
    exact absurd hi (not_submitting hfree i)
  · rcases enter_cases udev sglen s k status with
      ⟨hr, -, hstatus, ⟨j, -, hlt, hloop, -⟩ | ⟨hloop, -⟩⟩ | ⟨-, hstatus, hloop, -⟩
    · obtain rfl := Option.some.inj (hloop.symm.trans hu)
      exact ⟨hlt, hstatus ▸ hr⟩
    · exact absurd (hloop.symm.trans hu) (by simp)
    · rw [hstatus]
      exact hs.error u (hloop.symm.trans hu)

theorem unlinked (hs : Flight sglen s) {k i : ℕ} (hloop : s.unlinking = some (k, i))
    (hfree : s.Unlocked) : Flight sglen (unlinkFrom sglen s k (i + 1)) := by
  refine ⟨?_, fun j hj => ?_, fun u hu => ?_⟩
  · simpa using hs.pending
  · rw [unlinkFrom_phase] at hj
    exact absurd hj (not_submitting hfree j)
  · rw [unlinkFrom_ctx]
    rcases unlinkFrom_cases sglen s k (i + 1) with ⟨j, -, hlt, heq⟩ | heq
    · rw [heq] at hu
      obtain rfl := Option.some.inj hu
      exact ⟨hlt, (hs.error _ hloop).2⟩
    · rw [heq] at hu
      cases hu

theorem finish (hs : Flight sglen s) {k : ℕ} {status : ℤ} (rc : ℤ)
    (hrun : s.running = some (k, status)) : Flight sglen (finish k status rc s) := by
  have hpending := hs.pending
  have hnot (i : ℕ) (hphase : s.phase = .submitting i) : False := by
    have hnone := (hs.submitting i hphase).2.2.1
    rw [hrun] at hnone
    cases hnone
  rcases finish_cases k status rc s with ⟨-, hlt, -, heq⟩ | ⟨-, heq⟩
  · rw [heq]
    refine ⟨?_, fun i hi => (hnot i hi).elim, hs.error⟩
    show (s.ctx.pending + 1).toNat = (s.queue ++ [k]).length + s.back.length
    rw [List.length_append, List.length_singleton]
    bv_omega
  · rw [heq]
    exact ⟨hpending, fun i hi => (hnot i hi).elim, hs.error⟩

theorem step (hs : Flight sglen s) (hlt : sglen < 2 ^ 32)
    (h : step udev sglen s e = some t) : Flight sglen t := by
  cases step_cases h with
  | submit hphase => exact hs.submit hlt hphase
  | giveBack hk =>
    refine ⟨?_, hs.submitting, hs.error⟩
    have hlen := List.length_erase_add_one hk
    have hpending := hs.pending
    rw [List.length_append, List.length_singleton]
    dsimp only
    omega
  | enter hback hfree => exact hs.enter hback hfree
  | unlinked hloop hfree => exact hs.unlinked hloop hfree
  | finish hrun => exact hs.finish _ hrun
  | unlock => exact ⟨hs.pending, hs.submitting, hs.error⟩
  | check hphase =>
    refine ⟨hs.pending, fun i hi => ?_, hs.error⟩
    dsimp only at hi
    split at hi <;> cases hi
  | wake => exact ⟨hs.pending, fun i hi => (by cases hi), hs.error⟩

end Flight

theorem testCtrlQueue_inr {sg iterations : U32} {kcalloc allocated : Bool} {s : State}
    (h : testCtrlQueue sg iterations kcalloc allocated = .inr s) :
    0 < sg.toNat ∧ (sg * iterations).toNat = sg.toNat * iterations.toNat ∧
      s.ctx = ⟨sg * iterations, 0, -ENOMEM, -1⟩ ∧ s.queue = [] ∧ s.back = [] ∧
      s.running = none ∧ s.unlinking = none ∧ s.unlocking = false ∧ s.completed = 0 ∧
      s.transfers = 0 ∧ s.phase = .submitting 0 := by
  unfold testCtrlQueue at h
  split_ifs at h with hcheck
  obtain rfl := Sum.inr.inj h
  push Not at hcheck
  have hpos : 0 < sg.toNat := by
    have hne := hcheck.1
    bv_omega
  refine ⟨hpos, ?_, rfl, rfl, rfl, rfl, rfl, rfl, rfl, rfl, rfl⟩
  have hmul := (Nat.le_div_iff_mul_le hpos).mp hcheck.2
  rw [BitVec.toNat_mul]
  exact Nat.mod_eq_of_lt (by rw [Nat.mul_comm]; omega)

theorem flight_testCtrlQueue {sg iterations : U32} {kcalloc allocated : Bool} {s : State}
    (h : testCtrlQueue sg iterations kcalloc allocated = .inr s) : Flight sg.toNat s := by
  obtain ⟨hpos, -, hctx, hqueue, hback, hrun, hloop, -, hdone, hzero, hphase⟩ :=
    testCtrlQueue_inr h
  refine ⟨by simp [hctx, hqueue, hback], fun i hi => ?_,
    fun u hu => absurd (hloop.symm.trans hu) (by simp)⟩
  obtain rfl := Phase.submitting.inj (hphase.symm.trans hi)
  exact ⟨hpos, by simp [hctx], hrun, hloop, hdone, hzero⟩

/-! ## The end of the test -/

/-- The test is told of the end once, and is told or returns only when nothing else is under way.
The lock is in its frame, so it returns only when that is released: what it frees is no longer
in use. -/
structure Alone (s : State) : Prop where
  atRest : 0 < s.completed ∨ s.phase = .returned → s.AtRest
  released : s.phase = .returned → s.unlocking = false
  once : s.completed ≤ 1

/-- The completion that is running will submit its URB again. -/
def State.Resubmits (s : State) (rc : ℤ) : Prop :=
  s.running.map Prod.snd = some 0 ∧ s.ctx.pending < s.ctx.count ∧ rc = 0

/-- No completion retires the last pending URB while another one is unlinking, and the test does
not read `pending` as 0 while a completion is under way, nor does it wake before the one that told
it has released the lock. -/
def Waits (s : State) : Event → Prop
  | .finish rc => s.ctx.pending = 0 → ¬s.Resubmits rc → s.unlinking = none
  | .check => s.ctx.pending = 0 → s.running = none ∧ s.unlinking = none ∧ s.unlocking = false
  | .wake => s.unlocking = false
  | _ => True

theorem Alone.of_busy {s t : State} (hs : Alone s) (hbusy : ¬s.AtRest)
    (hdone : t.completed = s.completed) (hphase : t.phase = .returned → s.phase = .returned) :
    Alone t := by
  refine ⟨fun h => absurd (hs.atRest ?_) hbusy, fun h => ?_, hdone ▸ hs.once⟩
  · rw [hdone] at h
    exact h.imp_right hphase
  · exact absurd (hs.atRest (.inr (hphase h))) hbusy

theorem Alone.completed_of_busy {s : State} (hs : Alone s) (hbusy : ¬s.AtRest) :
    s.completed = 0 := by
  by_contra h
  exact hbusy (hs.atRest (.inl (Nat.pos_of_ne_zero h)))

theorem Flight.nil_of_pending {s : State} (hs : Flight sglen s) (hzero : s.ctx.pending = 0) :
    s.queue = [] ∧ s.back = [] := by
  have hpending := hs.pending
  rw [hzero] at hpending
  have hlen : s.queue.length + s.back.length = 0 := hpending.symm
  exact ⟨List.length_eq_zero_iff.mp (by omega), List.length_eq_zero_iff.mp (by omega)⟩

theorem alone_finish {s : State} (hs : Flight sglen s) (ha : Alone s) {k : ℕ} {status rc : ℤ}
    (hrun : s.running = some (k, status)) :
    Alone (finish k status rc s) ↔ Waits s (.finish rc) := by
  have hbusy : ¬s.AtRest := fun h => by simp [h.running] at hrun
  have hdone := ha.completed_of_busy hbusy
  rcases finish_cases k status rc s with ⟨hstatus, hlt, hrc, heq⟩ | ⟨hnot, heq⟩
  · -- Submitted again.
    have hagain : s.Resubmits rc := ⟨by simp [hrun, hstatus], hlt, hrc⟩
    refine iff_of_true ?_ fun _ hn => absurd hagain hn
    rw [heq]
    exact ha.of_busy hbusy rfl id
  · have hn : ¬s.Resubmits rc := fun h => hnot ⟨by simpa [hrun] using h.1, h.2⟩
    have hphase : s.phase ≠ .returned := fun h => hbusy (ha.atRest (.inr h))
    rw [heq]
    by_cases hzero : s.ctx.pending = 0
    · -- Nothing is pending, and the test is told.
      obtain ⟨hqueue, hback⟩ := hs.nil_of_pending hzero
      simp only [if_pos hzero, hdone]
      constructor
      · exact fun h _ _ => (h.atRest (.inl (Nat.lt_add_one 0))).unlinking
      · exact fun h => ⟨fun _ => ⟨hqueue, hback, rfl, h hzero hn⟩, fun h => absurd h hphase, le_rfl⟩
    · simp only [if_neg hzero]
      exact iff_of_true (ha.of_busy hbusy rfl id) fun h => absurd h hzero

theorem alone_check {s : State} (hs : Flight sglen s) (ha : Alone s) :
    Alone { s with phase := if s.ctx.pending = 0 then .returned else .waiting } ↔
      Waits s .check := by
  by_cases hzero : s.ctx.pending = 0
  · obtain ⟨hqueue, hback⟩ := hs.nil_of_pending hzero
    constructor
    · intro h _
      have hrest := h.atRest (.inr (if_pos hzero))
      exact ⟨hrest.running, hrest.unlinking, h.released (if_pos hzero)⟩
    · intro h
      obtain ⟨hrun, hloop, hlock⟩ := h hzero
      exact ⟨fun _ => ⟨hqueue, hback, hrun, hloop⟩, fun _ => hlock, ha.once⟩
  · refine iff_of_true ?_ fun h => absurd h hzero
    rw [if_neg hzero]
    refine ha.of_busy (fun h => ?_) rfl (fun h => (by cases h))
    have hpending := hs.pending
    rw [h.queue, h.back] at hpending
    exact hzero (BitVec.eq_of_toNat_eq hpending)

theorem alone_step {s t : State} {e : Event} (hs : Flight sglen s) (ha : Alone s)
    (h : step udev sglen s e = some t) : Alone t ↔ Waits s e := by
  cases step_cases h with
  | submit hphase =>
    have hdone := (hs.submitting _ hphase).2.2.2.2.1
    refine iff_of_true ?_ trivial
    rcases submit_cases sglen _ _ s with ⟨-, heq⟩ | ⟨-, heq⟩
    · rw [heq]
      refine ⟨fun h => ?_, fun h => (by cases h), ha.once⟩
      rcases h with h | h
      · exact absurd h (by simp [hdone])
      · cases h
    · rw [heq]
      have hnot (i : ℕ) : (if i < sglen then Phase.submitting i else .checking) ≠ .returned := by
        split <;> simp
      refine ⟨fun h => ?_, fun h => absurd h (hnot _), ha.once⟩
      rcases h with h | h
      · exact absurd h (by simp [hdone])
      · exact absurd h (hnot _)
  | giveBack hk =>
    exact iff_of_true (ha.of_busy (fun h => by simp [h.queue] at hk) rfl id) trivial
  | enter hback hfree =>
    refine iff_of_true (ha.of_busy (fun h => ?_) (enter_completed ..) ?_) trivial
    · simp [h.back] at hback
    · rw [enter_phase]; exact id
  | unlinked hloop hfree =>
    refine iff_of_true (ha.of_busy (fun h => ?_) (unlinkFrom_completed ..) ?_) trivial
    · simp [h.unlinking] at hloop
    · rw [unlinkFrom_phase]; exact id
  | finish hrun => exact alone_finish hs ha hrun
  | unlock hlock =>
    refine iff_of_true ⟨fun h => ?_, fun _ => rfl, ha.once⟩ trivial
    have hrest := ha.atRest h
    exact ⟨hrest.queue, hrest.back, hrest.running, hrest.unlinking⟩
  | check hphase => exact alone_check hs ha
  | wake hphase hdone =>
    have hrest := ha.atRest (.inl hdone)
    constructor
    · exact fun h => h.released rfl
    · exact fun h => ⟨fun _ => ⟨hrest.queue, hrest.back, hrest.running, hrest.unlinking⟩,
        fun _ => h, ha.once⟩

/-- The exact condition under which nothing is used behind the end of the test. -/
theorem alone_iff {sg iterations : U32} {kcalloc allocated : Bool} {s : State}
    (h : testCtrlQueue sg iterations kcalloc allocated = .inr s) (es : List Event) :
    Always (step udev sg.toNat) Alone s es ↔ AlwaysStep (step udev sg.toNat) Waits s es := by
  obtain ⟨-, -, -, -, -, -, -, hlock, hdone, -, hphase⟩ := testCtrlQueue_inr h
  apply always_iff_alwaysStep (J := Flight sg.toNat)
  · exact fun s e t hs ht => hs.step sg.isLt ht
  · exact fun s e t hs ha ht => alone_step hs ha ht
  · exact flight_testCtrlQueue h
  · refine ⟨fun h' => ?_, fun _ => hlock, by omega⟩
    rw [hdone, hphase] at h'
    rcases h' with h' | h'
    · exact absurd h' (lt_irrefl 0)
    · cases h'

/-- The test wakes as soon as it is told. -/
def earlyWake : List Event :=
  [.submit 0, .giveBack 0 0, .check, .enter 0 0, .finish 0, .giveBack 0 0, .enter 0 0, .finish 0,
    .wake]

theorem alone_iff_short :
    Always (step highSpeedDevice 1) Alone shortStart shortRun ∧
      ¬Always (step highSpeedDevice 1) Alone shortStart earlyWake := by
  constructor
  · refine (alone_iff testCtrlQueue_short shortRun).mpr ?_
    exact .cons rfl trivial (.cons rfl trivial (.cons rfl (fun h => absurd h (by decide))
      (.cons rfl trivial (.cons rfl (fun _ _ => rfl) (.cons rfl trivial (.cons rfl trivial
        (.cons rfl (fun _ _ => rfl) (.cons rfl trivial (.cons rfl rfl trivial)))))))))
  · intro h
    have hwaits := (alone_iff testCtrlQueue_short earlyWake).mp h
    have hlock : true = false :=
      alwaysStep_iff.mp hwaits earlyWake.dropLast .wake _ _ (List.prefix_refl _) rfl rfl
    cases hlock

/-! ## Progress -/

/-- What every step keeps in a test of at least one iteration: no more URBs are pending than
transfers are left. -/
structure Bounded (sglen total : ℕ) (s : State) : Prop where
  flight : Flight sglen s
  le : s.ctx.pending.toNat ≤ s.ctx.count.toNat
  left : s.ctx.count.toNat + s.transfers ≤ total
  room : s.phase.locked = true → sglen ≤ s.ctx.count.toNat
  /-- A test that waits will be told. -/
  told : s.phase = .waiting → s.AtRest → 0 < s.completed

namespace Bounded

variable {total : ℕ} {s t : State} {e : Event}

theorem enter (hs : Bounded sglen total s) {k : ℕ} {status : ℤ} (hback : (k, status) ∈ s.back)
    (hfree : s.Unlocked) : Bounded sglen total (enter udev sglen k status s) := by
  have hpos := hs.flight.pending_pos hback
  have hle := hs.le
  have hleft := hs.left
  refine ⟨hs.flight.enter hback hfree, ?_, ?_, fun h => ?_, fun _ hrest => ?_⟩
  · rw [enter_count, enter_pending]
    bv_omega
  · rw [enter_count, enter_transfers]
    bv_omega
  · rw [enter_phase, hfree.2.1] at h
    cases h
  · -- A completion is under way.
    rcases enter_cases udev sglen s k status with
      ⟨-, -, -, ⟨j, -, -, hloop, -⟩ | ⟨-, hrun⟩⟩ | ⟨-, -, -, hrun⟩
    · exact absurd (hloop.symm.trans hrest.unlinking) (by simp)
    · exact absurd (hrun.symm.trans hrest.running) (by simp)
    · exact absurd (hrun.symm.trans hrest.running) (by simp)

theorem finish (hs : Bounded sglen total s) {k : ℕ} {status rc : ℤ}
    (hrun : s.running = some (k, status)) : Bounded sglen total (finish k status rc s) := by
  have hflight := hs.flight.finish rc hrun
  rcases finish_cases k status rc s with ⟨-, hlt, -, heq⟩ | ⟨-, heq⟩
  · rw [heq] at hflight ⊢
    refine ⟨hflight, ?_, hs.left, hs.room, fun _ hrest => ?_⟩
    · show (s.ctx.pending + 1).toNat ≤ s.ctx.count.toNat
      bv_omega
    · exact absurd hrest.queue (by simp)
  · rw [heq] at hflight ⊢
    refine ⟨hflight, hs.le, hs.left, hs.room, fun _ hrest => ?_⟩
    have hpending := hs.flight.pending
    rw [hrest.queue, hrest.back] at hpending
    have hzero : s.ctx.pending = 0 := BitVec.eq_of_toNat_eq hpending
    simp [hzero]

theorem step (hs : Bounded sglen total s) (hlt : sglen < 2 ^ 32)
    (h : step udev sglen s e = some t) : Bounded sglen total t := by
  have hflight := hs.flight.step hlt h
  cases step_cases h with
  | @submit i rc hphase =>
    obtain ⟨hi, hpend, -⟩ := hs.flight.submitting i hphase
    have hroom := hs.room (by rw [hphase]; rfl)
    have hleft := hs.left
    rcases submit_cases sglen i rc s with ⟨-, heq⟩ | ⟨-, heq⟩
    · rw [heq] at hflight ⊢
      refine ⟨hflight, le_rfl, ?_, fun h => (by cases h), fun h => (by cases h)⟩
      show s.ctx.pending.toNat + s.transfers ≤ total
      omega
    · rw [heq] at hflight ⊢
      refine ⟨hflight, ?_, hleft, fun _ => hroom, fun _ hrest => ?_⟩
      · show (s.ctx.pending + 1).toNat ≤ s.ctx.count.toNat
        bv_omega
      · exact absurd hrest.queue (by simp)
  | giveBack hk =>
    exact ⟨hflight, hs.le, hs.left, hs.room, fun _ hrest => absurd hrest.back (by simp)⟩
  | enter hback hfree => exact hs.enter hback hfree
  | @unlinked k i hloop hfree =>
    refine ⟨hflight, ?_, ?_, fun h => ?_, fun _ hrest => ?_⟩
    · simpa using hs.le
    · simpa using hs.left
    · rw [unlinkFrom_phase, hfree.2.1] at h
      cases h
    · rcases unlinkFrom_cases sglen s k (i + 1) with ⟨j, -, -, heq⟩ | heq
      · rw [heq] at hrest
        exact absurd hrest.unlinking (by simp)
      · rw [heq] at hrest
        exact absurd hrest.running (by simp)
  | finish hrun => exact hs.finish hrun
  | unlock =>
    refine ⟨hflight, hs.le, hs.left, hs.room, fun hwait hrest => hs.told hwait ?_⟩
    exact ⟨hrest.queue, hrest.back, hrest.running, hrest.unlinking⟩
  | check hphase =>
    refine ⟨hflight, hs.le, hs.left, fun h => ?_, fun hwait hrest => ?_⟩
    · dsimp only at h
      split at h <;> cases h
    · have hpending := hs.flight.pending
      rw [hrest.queue, hrest.back] at hpending
      have hzero : s.ctx.pending = 0 := BitVec.eq_of_toNat_eq hpending
      dsimp only at hwait
      rw [if_pos hzero] at hwait
      cases hwait
  | wake => exact ⟨hflight, hs.le, hs.left, fun h => (by cases h), fun h => (by cases h)⟩

/-- The test never waits for what does not come. -/
theorem returned (hs : Bounded sglen total s) (h : ∀ e, CtrlQueue.step udev sglen s e = none) :
    s.phase = .returned := by
  have hrun : s.running = none := by
    have hfinish := h (.finish 0)
    simp only [CtrlQueue.step] at hfinish
    split at hfinish
    · cases hfinish
    · assumption
  have hqueue : s.queue = [] := by
    apply List.eq_nil_iff_forall_not_mem.mpr
    intro k hk
    have hgive := h (.giveBack k 0)
    rw [CtrlQueue.step, if_pos hk] at hgive
    cases hgive
  cases hphase : s.phase with
  | submitting i =>
    have hsubmit := h (.submit 0)
    simp only [CtrlQueue.step, hphase] at hsubmit
    cases hsubmit
  | checking =>
    have hcheck := h .check
    rw [CtrlQueue.step, if_pos hphase] at hcheck
    cases hcheck
  | returned => rfl
  | waiting =>
    have hlock : s.unlocking = false := by
      rw [← Bool.not_eq_true]
      intro hlock
      have hunlock := h .unlock
      rw [CtrlQueue.step, if_pos hlock] at hunlock
      cases hunlock
    have hfree : s.Unlocked := ⟨hrun, by rw [hphase]; rfl, hlock⟩
    have hback : s.back = [] := by
      apply List.eq_nil_iff_forall_not_mem.mpr
      intro b hb
      have henter := h (.enter b.1 b.2)
      rw [CtrlQueue.step, if_pos ⟨hb, hfree⟩] at henter
      cases henter
    have hloop : s.unlinking = none := by
      have hunlinked := h .unlinked
      simp only [CtrlQueue.step, if_pos hfree] at hunlinked
      split at hunlinked
      · cases hunlinked
      · assumption
    have hdone := hs.told hphase ⟨hqueue, hback, hrun, hloop⟩
    have hwake := h .wake
    rw [CtrlQueue.step, if_pos ⟨hphase, hdone⟩] at hwake
    cases hwake

end Bounded

/-- What the test has yet to go through. -/
def Phase.work (sglen : ℕ) : Phase → ℕ
  | submitting i => sglen - i + 2
  | checking => 2
  | waiting => 1
  | returned => 0

def runningWork : Option (ℕ × ℤ) → ℕ
  | none => 0
  | some _ => 1

def loopWork (sglen : ℕ) : Option (ℕ × ℕ) → ℕ
  | none => 0
  | some (_, i) => sglen - i + 1

/-- The loop that unlinks runs once. -/
def errorWork (sglen : ℕ) (status : ℤ) (phase : Phase) : ℕ :=
  if status = 0 ∨ phase.locked = true then sglen else 0

/-- The steps that are left: three for a transfer, fewer for one that has been given back or
that a completion has counted. -/
def State.work (sglen : ℕ) (s : State) : ℕ :=
  (3 * s.ctx.count.toNat - s.back.length) + runningWork s.running + loopWork sglen s.unlinking +
    errorWork sglen s.ctx.status s.phase + s.phase.work sglen

@[simp] theorem runningWork_none : runningWork none = 0 := rfl

@[simp] theorem runningWork_some (r : ℕ × ℤ) : runningWork (some r) = 1 := rfl

@[simp] theorem loopWork_none : loopWork sglen none = 0 := rfl

@[simp] theorem loopWork_some (k i : ℕ) : loopWork sglen (some (k, i)) = sglen - i + 1 := rfl

theorem errorWork_le (sglen : ℕ) (status : ℤ) (phase : Phase) :
    errorWork sglen status phase ≤ sglen := by
  unfold errorWork
  split <;> omega

theorem work_submit {total : ℕ} {s : State} (hs : Bounded sglen total s) {i : ℕ} (rc : ℤ)
    (hphase : s.phase = .submitting i) : (submit sglen i rc s).work sglen < s.work sglen := by
  obtain ⟨hi, -⟩ := hs.flight.submitting i hphase
  have hle := hs.le
  have herr : errorWork sglen s.ctx.status s.phase = sglen := if_pos (.inr (by rw [hphase]; rfl))
  have hwork : s.phase.work sglen = sglen - i + 2 := by rw [hphase]; rfl
  rcases submit_cases sglen i rc s with ⟨-, heq⟩ | ⟨-, heq⟩
  · have hle' := errorWork_le sglen rc .checking
    have hnext : Phase.checking.work sglen = 2 := rfl
    rw [heq]
    simp only [State.work, herr, hwork, hnext]
    omega
  · have hnext : (if i + 1 < sglen then Phase.submitting (i + 1) else .checking).work sglen <
        sglen - i + 2 := by
      split
      · show sglen - (i + 1) + 2 < _
        omega
      · show 2 < _
        omega
    have hle' := errorWork_le sglen 0
      (if i + 1 < sglen then Phase.submitting (i + 1) else .checking)
    rw [heq]
    simp only [State.work, herr, hwork]
    omega

theorem work_enter {total : ℕ} {s : State} (hs : Bounded sglen total s) {k : ℕ} {status : ℤ}
    (hback : (k, status) ∈ s.back) (hfree : s.Unlocked) :
    (enter udev sglen k status s).work sglen < s.work sglen := by
  have hpending := hs.flight.pending
  have hpos := hs.flight.pending_pos hback
  have hle := hs.le
  have hlen := List.length_erase_of_mem hback
  have hback' := List.length_pos_of_mem hback
  have hcount : (s.ctx.count - 1).toNat = s.ctx.count.toNat - 1 := by bv_omega
  rcases enter_cases udev sglen s k status with
    ⟨hr, hzero, hstatus, hend⟩ | ⟨-, hstatus, hloop, hrun⟩
  · -- The error that starts to unlink is the first.
    have hloop0 : s.unlinking = none :=
      Option.eq_none_iff_forall_ne_some.mpr fun u hu => (hs.flight.error u hu).2 hzero
    have herr : errorWork sglen s.ctx.status s.phase = sglen := if_pos (.inl hzero)
    have herr' : errorWork sglen (enter udev sglen k status s).ctx.status s.phase = 0 := by
      apply if_neg
      rw [hstatus, hfree.2.1]
      simpa using hr
    rcases hend with ⟨j, hj, hlt, hloop, hrun⟩ | ⟨hloop, hrun⟩
    · simp only [State.work, enter_count, enter_back, enter_phase, hcount, hlen, hloop, hrun,
        herr, herr', hfree.1, hloop0, loopWork_some, loopWork_none, runningWork_none]
      omega
    · simp only [State.work, enter_count, enter_back, enter_phase, hcount, hlen, hloop, hrun,
        herr, herr', hfree.1, hloop0, loopWork_none, runningWork_none, runningWork_some]
      omega
  · simp only [State.work, enter_count, enter_back, enter_phase, hcount, hlen, hloop, hrun,
      hstatus, hfree.1, runningWork_none, runningWork_some]
    omega

def Event.isUnlock : Event → Bool
  | .unlock => true
  | _ => false

theorem work_step {total : ℕ} {s t : State} {e : Event} (hs : Bounded sglen total s)
    (he : e.isUnlock = false) (h : step udev sglen s e = some t) :
    t.work sglen < s.work sglen := by
  have hpending := hs.flight.pending
  have hle := hs.le
  cases step_cases h with
  | submit hphase => exact work_submit hs _ hphase
  | giveBack hk =>
    have hpos := List.length_pos_of_mem hk
    simp only [State.work, List.length_append, List.length_singleton]
    omega
  | enter hback hfree => exact work_enter hs hback hfree
  | @unlinked k i hloop hfree =>
    rcases unlinkFrom_cases sglen s k (i + 1) with ⟨j, hj, hlt, heq⟩ | heq
    · rw [heq]
      simp only [State.work, hfree.1, hloop, loopWork_some]
      omega
    · have hpos : i < sglen := (hs.flight.error _ hloop).1
      rw [heq]
      simp only [State.work, hfree.1, hloop, loopWork_some, loopWork_none, runningWork_none,
        runningWork_some]
      omega
  | @finish k status rc hrun =>
    rcases finish_cases k status rc s with ⟨-, -, -, heq⟩ | ⟨-, heq⟩
    · rw [heq]
      simp only [State.work, hrun, runningWork_none, runningWork_some]
      omega
    · rw [heq]
      simp only [State.work, hrun, runningWork_none, runningWork_some]
      omega
  | unlock => cases he
  | check hphase =>
    have hwork : s.phase.work sglen = 2 := by rw [hphase]; rfl
    have hnext : (if s.ctx.pending = 0 then Phase.returned else .waiting).work sglen < 2 := by
      split
      · show 0 < 2
        omega
      · show 1 < 2
        omega
    have herr : errorWork sglen s.ctx.status
        (if s.ctx.pending = 0 then Phase.returned else .waiting) =
          errorWork sglen s.ctx.status s.phase := by
      rw [hphase]
      split <;> rfl
    simp only [State.work, hwork, herr]
    omega
  | wake hphase hdone =>
    have hwork : s.phase.work sglen = 1 := by rw [hphase]; rfl
    have hnext : Phase.returned.work sglen = 0 := rfl
    have herr : errorWork sglen s.ctx.status .returned = errorWork sglen s.ctx.status s.phase := by
      rw [hphase]
      rfl
    simp only [State.work, hwork, hnext, herr]
    omega

/-- All steps but the unlocks behind `complete` are work. -/
theorem work_step_le {total : ℕ} {s t : State} {e : Event} (hs : Bounded sglen total s)
    (h : step udev sglen s e = some t) :
    (if !e.isUnlock then 1 else 0) + t.work sglen ≤ s.work sglen := by
  cases he : e.isUnlock with
  | false =>
    have hless := work_step hs he h
    rw [Bool.not_false, if_pos rfl]
    omega
  | true =>
    cases step_cases h with
    | unlock => exact (Nat.zero_add _).le
    | _ => cases he

/-- What every step keeps: `complete` is called twice at most, the second time by the completion
that was unlinking at the first. -/
structure ToldTwice (s : State) : Prop where
  le : s.completed ≤ 2
  pending : 0 < s.completed → s.ctx.pending = 0
  running : 0 < s.completed → ∀ k status, s.running = some (k, status) →
    status ≠ 0 ∧ s.unlinking = none
  twice : s.completed = 2 → s.running = none ∧ s.unlinking = none

namespace ToldTwice

variable {s t : State} {e : Event}

theorem of_completed (h : s.completed = 0) : ToldTwice s :=
  ⟨by omega, fun hpos => by omega, fun hpos => by omega, fun htwo => by omega⟩

theorem completed_le (hs : ToldTwice s) {k : ℕ} {status : ℤ}
    (hrun : s.running = some (k, status)) : s.completed ≤ 1 := by
  have hle := hs.le
  have hne : s.completed ≠ 2 := fun htwo => by simp [(hs.twice htwo).1] at hrun
  omega

/-- What the host controller has given back is pending. -/
theorem completed_of_pos (hs : ToldTwice s) (hpos : 0 < s.ctx.pending.toNat) :
    s.completed = 0 := by
  by_contra hne
  rw [hs.pending (Nat.pos_of_ne_zero hne)] at hpos
  exact lt_irrefl 0 hpos

theorem unlinked (hs : ToldTwice s) (hf : Flight sglen s) {k i : ℕ}
    (hloop : s.unlinking = some (k, i)) (hfree : s.Unlocked) :
    ToldTwice (unlinkFrom sglen s k (i + 1)) := by
  have hne : s.completed ≠ 2 := fun htwo => by simp [(hs.twice htwo).2] at hloop
  refine ⟨by simpa using hs.le, by simpa using hs.pending, fun hpos k' status hrun => ?_, ?_⟩
  · rcases unlinkFrom_cases sglen s k (i + 1) with ⟨j, -, -, heq⟩ | heq
    · rw [heq] at hrun
      exact absurd (hfree.1.symm.trans hrun) (by simp)
    · rw [heq] at hrun ⊢
      obtain ⟨-, rfl⟩ := Prod.mk.inj (Option.some.inj hrun)
      exact ⟨(hf.error _ hloop).2, rfl⟩
  · rw [unlinkFrom_completed]
    exact fun htwo => absurd htwo hne

theorem finish (hs : ToldTwice s) {k : ℕ} {status : ℤ} (rc : ℤ)
    (hrun : s.running = some (k, status)) : ToldTwice (finish k status rc s) := by
  have hle := hs.completed_le hrun
  rcases finish_cases k status rc s with ⟨hstatus, -, -, heq⟩ | ⟨-, heq⟩
  · -- An error is not submitted again.
    have hdone : s.completed = 0 := by
      by_contra hne
      exact (hs.running (Nat.pos_of_ne_zero hne) k status hrun).1 hstatus
    rw [heq]
    exact .of_completed hdone
  · rw [heq]
    by_cases hzero : s.ctx.pending = 0
    · rw [if_pos hzero]
      refine ⟨Nat.succ_le_succ hle, fun _ => hzero, fun _ k' status' h => (by cases h),
        fun htwo => ⟨rfl, ?_⟩⟩
      have hone : s.completed = 1 := Nat.succ.inj htwo
      exact (hs.running (by omega) k status hrun).2
    · have hdone : s.completed = 0 := by
        by_contra hne
        exact hzero (hs.pending (Nat.pos_of_ne_zero hne))
      exact .of_completed (by rw [if_neg hzero, hdone])

theorem step (hs : ToldTwice s) (hf : Flight sglen s) (h : CtrlQueue.step udev sglen s e = some t) :
    ToldTwice t := by
  cases step_cases h with
  | @submit i rc hphase =>
    have hdone := (hf.submitting _ hphase).2.2.2.2.1
    rcases submit_cases sglen i rc s with ⟨-, heq⟩ | ⟨-, heq⟩ <;>
      exact .of_completed (by rw [heq, hdone])
  | giveBack hk =>
    have hlen := List.length_pos_of_mem hk
    have hpending := hf.pending
    exact .of_completed (hs.completed_of_pos (by omega))
  | enter hback _ =>
    exact .of_completed (by rw [enter_completed, hs.completed_of_pos (hf.pending_pos hback)])
  | unlinked hloop hfree => exact hs.unlinked hf hloop hfree
  | finish hrun => exact hs.finish _ hrun
  | unlock | check | wake => exact ⟨hs.le, hs.pending, hs.running, hs.twice⟩

end ToldTwice

/-- The unlocks that are left. -/
def State.unlocks (s : State) : ℕ := (2 - s.completed) + s.unlocking.toNat

theorem unlocks_step {s t : State} {e : Event} (hs : ToldTwice s)
    (h : step udev sglen s e = some t) :
    (if e.isUnlock then 1 else 0) + t.unlocks ≤ s.unlocks := by
  cases step_cases h with
  | @submit i rc hphase =>
    rcases submit_cases sglen i rc s with ⟨-, heq⟩ | ⟨-, heq⟩ <;>
      simp [heq, State.unlocks, Event.isUnlock]
  | giveBack | check | wake => simp [State.unlocks, Event.isUnlock]
  | enter | unlinked => simp [State.unlocks, Event.isUnlock]
  | @finish k status rc hrun =>
    have hle := hs.completed_le hrun
    rcases finish_cases k status rc s with ⟨-, -, -, heq⟩ | ⟨-, heq⟩
    · simp [heq, State.unlocks, Event.isUnlock]
    · simp only [heq, State.unlocks, Event.isUnlock, Bool.false_eq_true, if_false]
      by_cases hzero : s.ctx.pending = 0
      · simp only [hzero, decide_true, if_true, Bool.toNat_true]
        omega
      · simp only [hzero, decide_false, if_false, Bool.toNat_false]
        omega
  | unlock hlock =>
    simp [State.unlocks, Event.isUnlock, hlock]
    omega

theorem bounded_testCtrlQueue {sg iterations : U32} {kcalloc allocated : Bool} {s : State}
    (h : testCtrlQueue sg iterations kcalloc allocated = .inr s) (hiter : iterations ≠ 0) :
    Bounded sg.toNat (sg.toNat * iterations.toNat) s := by
  obtain ⟨-, hproduct, hctx, -, -, -, -, -, -, hzero, hphase⟩ := testCtrlQueue_inr h
  have hpos : 0 < iterations.toNat := by bv_omega
  have hcount : s.ctx.count.toNat = sg.toNat * iterations.toNat := by rw [hctx, hproduct]
  refine ⟨flight_testCtrlQueue h, by simp [hctx], by omega, fun _ => ?_, fun hwait => ?_⟩
  · rw [hcount]
    exact Nat.le_mul_of_pos_right _ hpos
  · rw [hphase] at hwait
    cases hwait

/-- Whatever the host controller does, the test ends: after so many steps at most, with two more
unlocks at most, and never stuck. -/
theorem ctrlQueue_ends {sg iterations : U32} {kcalloc allocated : Bool} {s t : State}
    (h : testCtrlQueue sg iterations kcalloc allocated = .inr s) (hiter : iterations ≠ 0)
    {es : List Event} (ht : runs (step udev sg.toNat) s es = some t) :
    es.countP (!·.isUnlock) ≤ 3 * (sg.toNat * iterations.toNat) + 2 * sg.toNat + 2 ∧
      es.countP (·.isUnlock) ≤ 2 ∧ t.transfers ≤ sg.toNat * iterations.toNat ∧
      ((∀ e, step udev sg.toNat t e = none) → t.phase = .returned) := by
  have hb := bounded_testCtrlQueue h hiter
  have hbt := runs_invariant (fun s e t hs hst => hs.step sg.isLt hst) hb ht
  obtain ⟨-, hproduct, hctx, -, hback, hrun, hloop, hlock, hdone, -, hphase⟩ := testCtrlQueue_inr h
  have hsteps := runs_countP_le (State.work sg.toNat) (!·.isUnlock)
    (fun s e t (hs : Bounded sg.toNat _ s) hst => hs.step sg.isLt hst)
    (fun s e t hs hst => work_step_le hs hst) hb ht
  have hunlocks := runs_countP_le State.unlocks (·.isUnlock)
    (fun s e t (hs : Bounded sg.toNat (sg.toNat * iterations.toNat) s ∧ ToldTwice s) hst =>
      ⟨hs.1.step sg.isLt hst, hs.2.step hs.1.flight hst⟩)
    (fun s e t hs hst => unlocks_step hs.2 hst) ⟨hb, .of_completed hdone⟩ ht
  have hwork : s.work sg.toNat =
      3 * (sg.toNat * iterations.toNat) + sg.toNat + (sg.toNat + 2) := by
    simp [State.work, errorWork, Phase.work, Phase.locked, hctx, hback, hrun, hloop, hphase,
      hproduct]
  have htwo : s.unlocks = 2 := by simp [State.unlocks, hdone, hlock]
  have hleft := hbt.left
  exact ⟨by omega, by omega, by omega, fun hnone => hbt.returned hnone⟩

theorem ctrlQueue_ends_short :
    ∃ t, runs (step highSpeedDevice 1) shortStart shortRun = some t ∧
      shortRun.countP (!·.isUnlock) ≤ 3 * (1 * 2) + 2 * 1 + 2 ∧
      shortRun.countP (·.isUnlock) ≤ 2 ∧ t.transfers ≤ 1 * 2 ∧
      ((∀ e, step highSpeedDevice 1 t e = none) → t.phase = .returned) := by
  obtain ⟨t, ht, -⟩ := shortRun_returns
  exact ⟨t, ht, ctrlQueue_ends testCtrlQueue_short (by decide) ht⟩

/-! ## What the test reports -/

/-- A status that is no error: success, also where the request must fail, or the fault that is
expected of it. -/
def Allowed (sub : Subcase) (status : ℤ) : Prop :=
  status = 0 ∨ status = sub.expected ∨ (0 < sub.expected ∧ status = -sub.expected) ∨
    (sub.number = 12 ∧ status = -EPIPE)

/-- The transfer comes right behind `last`, or begins the table. -/
def InOrder (sub : Subcase) (last : ℤ) : Prop := sub.number = 0 ∨ sub.number - last = 1

theorem expected_cases (udev : UsbDevice) (k : ℕ) :
    (subcase udev k).expected = 0 ∨ (subcase udev k).expected = EPIPE ∨
      (subcase udev k).expected = -EPIPE ∨ (subcase udev k).expected = EREMOTEIO ∨
      (subcase udev k).expected = - EREMOTEIO := by
  unfold subcase
  dsimp only
  split
  all_goals try (split_ifs)
  all_goals simp

/-- A request that was unlinked has failed, whatever was expected of it. -/
theorem judge_eq_zero_iff (k : ℕ) (last status : ℤ) :
    judge (subcase udev k) last status = 0 ↔
      InOrder (subcase udev k) last ∧ Allowed (subcase udev k) status := by
  have hexp := expected_cases udev k
  unfold judge
  by_cases hlast : 0 < (subcase udev k).number ∧ (subcase udev k).number - last ≠ 1
  · rw [if_pos hlast]
    refine iff_of_false (by decide) fun h => ?_
    have horder := h.1
    unfold InOrder at horder
    omega
  · have horder : InOrder (subcase udev k) last := by
      unfold InOrder
      omega
    rw [if_neg hlast, and_iff_right horder]
    unfold Allowed
    by_cases heq : status = (subcase udev k).expected
    · rw [if_pos heq]
      exact iff_of_true rfl (.inr (.inl heq))
    · rw [if_neg heq]
      have hpipe : EPIPE = 32 := rfl
      have hremote : EREMOTEIO = 121 := rfl
      have hconn : ECONNRESET = 104 := rfl
      split_ifs <;> omega

/-- The submissions of the loop succeed, and the transfers end in order and as they may. -/
def Passes (udev : UsbDevice) (s : State) : Event → Prop
  | .submit rc => rc = 0
  | .enter k status =>
    InOrder (subcase udev k) s.ctx.last ∧ Allowed (subcase udev k) status
  | _ => True

theorem status_enter (sglen k : ℕ) (status : ℤ) (s : State) (hzero : s.ctx.status = 0) :
    (enter udev sglen k status s).ctx.status = 0 ↔ Passes udev s (.enter k status) := by
  rw [Passes, ← judge_eq_zero_iff]
  rcases enter_cases udev sglen s k status with
    ⟨hr, -, hstatus, -⟩ | ⟨hr, hstatus, -⟩
  · rw [hstatus]
  · rw [hstatus]
    exact iff_of_true hzero (by_contra fun hne => hr ⟨hne, hzero⟩)

/-- No error so far. -/
def State.Ok (s : State) : Prop := s.phase.locked = true ∨ s.ctx.status = 0

theorem ok_step {s t : State} {e : Event} (hok : s.Ok) (h : step udev sglen s e = some t) :
    t.Ok ↔ Passes udev s e := by
  cases step_cases h with
  | @submit i rc hphase =>
    rcases submit_cases sglen i rc s with ⟨hrc, heq⟩ | ⟨hrc, heq⟩
    · rw [heq]
      refine iff_of_false (fun h => ?_) hrc
      rcases h with h | h
      · cases h
      · exact hrc h
    · rw [heq]
      exact iff_of_true (.inr rfl) hrc
  | giveBack hk => exact iff_of_true hok trivial
  | @enter k status _ hfree =>
    have hzero : s.ctx.status = 0 := hok.resolve_left (by rw [hfree.2.1]; decide)
    rw [← status_enter sglen k status s hzero, State.Ok, enter_phase, hfree.2.1]
    simp
  | unlinked hloop hfree =>
    refine iff_of_true ?_ trivial
    rwa [State.Ok, unlinkFrom_ctx, unlinkFrom_phase]
  | @finish k status rc hrun =>
    refine iff_of_true ?_ trivial
    rcases finish_cases k status rc s with ⟨-, -, -, heq⟩ | ⟨-, heq⟩ <;> rwa [heq]
  | unlock => exact iff_of_true hok trivial
  | check hphase =>
    have hzero : s.ctx.status = 0 := hok.resolve_left (by rw [hphase]; decide)
    exact iff_of_true (.inr hzero) trivial
  | wake hphase =>
    have hzero : s.ctx.status = 0 := hok.resolve_left (by rw [hphase]; decide)
    exact iff_of_true (.inr hzero) trivial

/-- The first error stays. -/
theorem ok_of_step {s t : State} {e : Event} (h : step udev sglen s e = some t) (hok : t.Ok) :
    s.Ok := by
  by_contra hs
  have hne : s.phase.locked ≠ true ∧ s.ctx.status ≠ 0 := not_or.mp hs
  cases step_cases h with
  | submit hphase => exact hne.1 (by rw [hphase]; rfl)
  | giveBack hk => exact hs hok
  | @enter k status _ _ =>
    rcases enter_cases udev sglen s k status with
      ⟨-, hzero, -⟩ | ⟨-, hstatus, -⟩
    · exact hne.2 hzero
    · rw [State.Ok, enter_phase, hstatus] at hok
      exact hs hok
  | unlinked hloop hfree =>
    rw [State.Ok, unlinkFrom_ctx, unlinkFrom_phase] at hok
    exact hs hok
  | @finish k status rc hrun =>
    rcases finish_cases k status rc s with ⟨-, -, -, heq⟩ | ⟨-, heq⟩
    · rw [heq] at hok
      exact hs hok
    · rw [heq] at hok
      exact hs hok
  | unlock => exact hs hok
  | check hphase =>
    refine hok.elim (fun h => ?_) hne.2
    dsimp only at h
    split at h <;> cases h
  | wake => exact hok.elim (fun h => by cases h) hne.2

theorem ok_step_iff {s t : State} {e : Event} (h : step udev sglen s e = some t) :
    t.Ok ↔ s.Ok ∧ Passes udev s e :=
  ⟨fun hok => ⟨ok_of_step h hok, (ok_step (ok_of_step h hok) h).mp hok⟩,
    fun hok => (ok_step hok.1 h).mpr hok.2⟩

/-- `test_ctrl_queue` returns 0 exactly when every submission of its loop succeeded and every
transfer ended in order, with success or a fault that its request may have. -/
theorem ctrlQueue_status_iff {sg iterations : U32} {kcalloc allocated : Bool} {s t : State}
    (h : testCtrlQueue sg iterations kcalloc allocated = .inr s) {es : List Event}
    (ht : runs (step udev sg.toNat) s es = some t) (hphase : t.phase.locked = false) :
    t.ctx.status = 0 ↔ AlwaysStep (step udev sg.toNat) (Passes udev) s es := by
  have hs : s.Ok := by
    obtain ⟨-, -, -, -, -, -, -, -, -, -, hsub⟩ := testCtrlQueue_inr h
    exact .inl (by rw [hsub]; rfl)
  have hiff := last_iff_alwaysStep (J := fun _ => True) (P := State.Ok) (C := Passes udev)
    (fun _ _ _ _ _ => trivial) (fun _ _ _ _ hst => ok_step_iff hst) trivial ht
  rw [and_iff_right hs] at hiff
  rw [← hiff, State.Ok, hphase]
  simp

theorem ctrlQueue_status_iff_short :
    AlwaysStep (step highSpeedDevice 1) (Passes highSpeedDevice) shortStart shortRun := by
  obtain ⟨t, ht, hphase, -⟩ := shortRun_returns
  have hstatus : (runs (step highSpeedDevice 1) shortStart shortRun).map (·.ctx.status) =
      some 0 := rfl
  rw [ht, Option.map_some, Option.some.injEq] at hstatus
  exact (ctrlQueue_status_iff testCtrlQueue_short ht (by rw [hphase]; rfl)).mp hstatus

/-! ## A host controller that keeps the order -/

/-- The submission that a completion makes succeeds. -/
def Resubmitted : Event → Prop
  | .finish rc => rc = 0
  | _ => True

/-- While there is no error, no transfer is lost: none is left when the test is told. -/
structure Sound (total : ℕ) (s : State) : Prop where
  left : s.Ok → s.ctx.count.toNat + s.transfers = total
  result : s.ctx.status = 0 → ∀ k status, s.running = some (k, status) → status = 0
  ended : s.ctx.status = 0 → 0 < s.completed → s.completed = 1 ∧ s.AtRest ∧ s.ctx.count = 0

namespace Sound

variable {total : ℕ} {s t : State} {e : Event}

theorem enter (hs : Sound total s) (hb : Bounded sglen total s) {k : ℕ} {status : ℤ}
    (hback : (k, status) ∈ s.back) :
    Sound total (enter udev sglen k status s) := by
  have hpos := hb.flight.pending_pos hback
  have hle := hb.le
  have hzero (h : (CtrlQueue.enter udev sglen k status s).ctx.status = 0) : s.ctx.status = 0 := by
    rcases enter_cases udev sglen s k status with
      ⟨-, hzero, -⟩ | ⟨-, hstatus, -⟩
    · exact hzero
    · rwa [hstatus] at h
  refine ⟨fun hok => ?_, fun h => ?_, fun h hdone => ?_⟩
  · have hok' : s.Ok := hok.imp (fun h => by rwa [enter_phase] at h) hzero
    have hleft := hs.left hok'
    rw [enter_count, enter_transfers]
    bv_omega
  · intro k' status' hrun'
    rcases enter_cases udev sglen s k status with
      ⟨hr, -, hstatus, -⟩ | ⟨hr, -, -, hrun⟩
    · exact absurd (hstatus.symm.trans h) hr
    · obtain ⟨-, rfl⟩ := Prod.mk.inj (Option.some.inj (hrun.symm.trans hrun'))
      exact by_contra fun hne => hr ⟨hne, hzero h⟩
  · rw [enter_completed] at hdone
    have hrest := (hs.ended (hzero h) hdone).2.1
    rw [hrest.back] at hback
    cases hback

theorem finish (hs : Sound total s) (hb : Bounded sglen total s) {k : ℕ} {status : ℤ}
    (hrun : s.running = some (k, status)) : Sound total (finish k status 0 s) := by
  have hdone (h : s.ctx.status = 0) : s.completed = 0 := by
    by_contra hne
    have hrest := (hs.ended h (Nat.pos_of_ne_zero hne)).2.1
    rw [hrest.running] at hrun
    cases hrun
  rcases finish_cases k status 0 s with ⟨-, -, -, heq⟩ | ⟨hnot, heq⟩
  · rw [heq]
    refine ⟨hs.left, fun _ k' status' h => (by cases h), fun h hpos => ?_⟩
    exact absurd (hdone h) hpos.ne'
  · rw [heq]
    refine ⟨hs.left, fun _ k' status' h => (by cases h), fun h hpos => ?_⟩
    have hle := hb.le
    -- As many URBs are pending as transfers are left.
    have hge : ¬s.ctx.pending < s.ctx.count := fun hlt => hnot ⟨hs.result h k status hrun, hlt, rfl⟩
    dsimp only at hpos ⊢
    rw [hdone h] at hpos ⊢
    split at hpos
    · next hzero =>
      obtain ⟨hqueue, hback⟩ := hb.flight.nil_of_pending hzero
      have hloop : s.unlinking = none :=
        Option.eq_none_iff_forall_ne_some.mpr fun u hu => (hb.flight.error u hu).2 h
      refine ⟨by rw [if_pos hzero], ⟨hqueue, hback, rfl, hloop⟩, ?_⟩
      bv_omega
    · omega

theorem step (hs : Sound total s) (hb : Bounded sglen total s) (he : Resubmitted e)
    (h : step udev sglen s e = some t) : Sound total t := by
  cases step_cases h with
  | @submit i rc hphase =>
    obtain ⟨-, -, hrun, -, hdone, -⟩ := hb.flight.submitting i hphase
    have hleft := hs.left (.inl (by rw [hphase]; rfl))
    rcases submit_cases sglen i rc s with ⟨hrc, heq⟩ | ⟨-, heq⟩
    · rw [heq]
      refine ⟨fun hok => ?_, fun hzero => absurd hzero hrc, fun hzero => absurd hzero hrc⟩
      rcases hok with hok | hok
      · cases hok
      · exact absurd hok hrc
    · rw [heq]
      refine ⟨fun _ => hleft, fun _ k status h => ?_, fun _ hpos => absurd hdone hpos.ne'⟩
      exact absurd (hrun.symm.trans h) (by simp)
  | giveBack hk =>
    refine ⟨hs.left, hs.result, fun hzero hpos => ?_⟩
    rw [(hs.ended hzero hpos).2.1.queue] at hk
    cases hk
  | enter hback _ => exact hs.enter hb hback
  | unlinked hloop hfree =>
    have hne := (hb.flight.error _ hloop).2
    refine ⟨fun hok => ?_, fun hzero => ?_, fun hzero => ?_⟩
    · rw [State.Ok, unlinkFrom_ctx, unlinkFrom_phase, hfree.2.1] at hok
      exact absurd (hok.resolve_left (by decide)) hne
    · rw [unlinkFrom_ctx] at hzero
      exact absurd hzero hne
    · rw [unlinkFrom_ctx] at hzero
      exact absurd hzero hne
  | finish hrun =>
    obtain rfl : _ = 0 := he
    exact hs.finish hb hrun
  | unlock =>
    refine ⟨hs.left, hs.result, fun hzero hpos => ?_⟩
    obtain ⟨hone, hrest, hcount⟩ := hs.ended hzero hpos
    exact ⟨hone, ⟨hrest.queue, hrest.back, hrest.running, hrest.unlinking⟩, hcount⟩
  | check hphase =>
    refine ⟨fun hok => hs.left (.inr ?_), hs.result, fun hzero hpos => ?_⟩
    · refine hok.resolve_left fun h => ?_
      dsimp only at h
      split at h <;> cases h
    · obtain ⟨hone, hrest, hcount⟩ := hs.ended hzero hpos
      exact ⟨hone, ⟨hrest.queue, hrest.back, hrest.running, hrest.unlinking⟩, hcount⟩
  | wake hphase =>
    refine ⟨fun hok => hs.left (.inr (hok.resolve_left fun h => by cases h)), hs.result,
      fun hzero hpos => ?_⟩
    obtain ⟨hone, hrest, hcount⟩ := hs.ended hzero hpos
    exact ⟨hone, ⟨hrest.queue, hrest.back, hrest.running, hrest.unlinking⟩, hcount⟩

end Sound

/-- The host controller works first in first out, submissions succeed, and every transfer ends
as it may. -/
def Fifo (udev : UsbDevice) (s : State) : Event → Prop
  | .submit rc => rc = 0
  | .giveBack k _ => s.queue.head? = some k
  | .enter k status => s.back.head? = some (k, status) ∧ Allowed (subcase udev k) status
  | .finish rc => rc = 0
  | _ => True

/-- `m` URBs in the order of the queue, from `a` on. -/
def window (sglen a m : ℕ) : List ℕ := (List.range m).map fun j => (a + j) % sglen

theorem window_length (a m : ℕ) : (window sglen a m).length = m := by simp [window]

theorem window_cons (a m : ℕ) :
    window sglen a (m + 1) = a % sglen :: window sglen (a + 1) m := by
  unfold window
  rw [List.range_succ_eq_map, List.map_cons, List.map_map, Nat.add_zero]
  congr 1
  apply List.map_congr_left
  intro j _
  show (a + (j + 1)) % sglen = (a + 1 + j) % sglen
  rw [Nat.add_assoc, Nat.add_comm j]

theorem window_concat (a m : ℕ) :
    window sglen a (m + 1) = window sglen a m ++ [(a + m) % sglen] := by
  simp [window, List.range_succ]

theorem window_head {a m k : ℕ} {ks : List ℕ} (h : k :: ks = window sglen a m) :
    ∃ m', m = m' + 1 ∧ k = a % sglen ∧ ks = window sglen (a + 1) m' := by
  cases m with
  | zero => cases h
  | succ m =>
    rw [window_cons] at h
    exact ⟨m, rfl, List.cons.inj h⟩

theorem add_one_mod (a : ℕ) (hpos : 0 < sglen) :
    (a + 1) % sglen = 0 ∨ (a + 1) % sglen = a % sglen + 1 := by
  have hlt := Nat.mod_lt a hpos
  have hmod := Nat.mod_add_mod a sglen 1
  rw [← hmod]
  by_cases h : a % sglen + 1 = sglen
  · left
    rw [h, Nat.mod_self]
  · right
    exact Nat.mod_eq_of_lt (by omega)

theorem subcase_number (k : ℕ) : (subcase udev k).number = k % 16 := rfl

/-- What is in flight is a window of the queue behind the transfer that ended last. All URBs
are in flight, but for that of the completion under way, or as many as transfers are left. -/
structure Chain (udev : UsbDevice) (sglen : ℕ) (s : State) (a m : ℕ) : Prop where
  ok : s.Ok
  inFlight : s.back.map Prod.fst ++ s.queue = window sglen a m
  last : InOrder (subcase udev (a % sglen)) s.ctx.last
  locked : s.phase.locked = true → a = 0
  all : s.phase.locked = false → s.running = none → m = sglen ∨ s.ctx.pending = s.ctx.count
  running : ∀ k status, s.running = some (k, status) →
    (m + 1 = sglen ∧ k = (a + m) % sglen) ∨ s.ctx.pending = s.ctx.count

namespace Chain

variable {total a m : ℕ} {s t : State} {e : Event}

theorem length (hs : Chain udev sglen s a m) (hb : Bounded sglen total s) :
    s.ctx.pending.toNat = m := by
  have hlen := congrArg List.length hs.inFlight
  rw [window_length, List.length_append, List.length_map] at hlen
  have hpending := hb.flight.pending
  omega

theorem submit (hs : Chain udev sglen s a m) (hb : Bounded sglen total s) {i : ℕ}
    (hphase : s.phase = .submitting i) :
    Chain udev sglen (submit sglen i 0 s) 0 (m + 1) := by
  obtain ⟨hi, hpend, hrun, -⟩ := hb.flight.submitting i hphase
  obtain rfl := hs.locked (by rw [hphase]; rfl)
  have hm := hs.length hb
  rcases submit_cases sglen i 0 s with ⟨hrc, -⟩ | ⟨-, heq⟩
  · exact absurd rfl hrc
  · rw [heq]
    refine ⟨.inr rfl, ?_, hs.last, fun _ => rfl, fun h _ => ?_, fun k status h => ?_⟩
    · show s.back.map Prod.fst ++ (s.queue ++ [i]) = _
      rw [← List.append_assoc, hs.inFlight, window_concat, Nat.zero_add]
      rw [← hm, hpend, Nat.mod_eq_of_lt hi]
    · dsimp only at h
      split at h
      · cases h
      · left
        omega
    · exact absurd (hrun.symm.trans h) (by simp)

theorem giveBack (hs : Chain udev sglen s a m) {k : ℕ} {status : ℤ}
    (hhead : s.queue.head? = some k) :
    Chain udev sglen { s with queue := s.queue.erase k, back := s.back ++ [(k, status)] } a m := by
  obtain ⟨ks, hks⟩ := List.head?_eq_some_iff.mp hhead
  refine ⟨hs.ok, ?_, hs.last, hs.locked, hs.all, hs.running⟩
  have hflight := hs.inFlight
  rw [hks] at hflight ⊢
  rw [← hflight]
  simp

theorem enter (hs : Chain udev sglen s a m) (hb : Bounded sglen total s) (hpos : 0 < sglen)
    {k : ℕ} {status : ℤ} (hfree : s.Unlocked) (hhead : s.back.head? = some (k, status))
    (hallowed : Allowed (subcase udev k) status) :
    ∃ m', Chain udev sglen (enter udev sglen k status s) (a + 1) m' := by
  obtain ⟨bs, hbs⟩ := List.head?_eq_some_iff.mp hhead
  have hflight := hs.inFlight
  rw [hbs] at hflight
  obtain ⟨m', rfl, rfl, hrest⟩ := window_head hflight
  have hzero : s.ctx.status = 0 := hs.ok.resolve_left (by rw [hfree.2.1]; decide)
  have hjudge := (judge_eq_zero_iff _ _ _).mpr ⟨hs.last, hallowed⟩
  have hm := hs.length hb
  have hle := hb.le
  rcases enter_cases udev sglen s (a % sglen) status with
    ⟨hr, -⟩ | ⟨-, hstatus, -, hrun⟩
  · exact absurd hjudge hr
  · rw [hjudge] at hrun
    refine ⟨m', .inr (hstatus.trans hzero), ?_, ?_, fun h => ?_, fun _ h => ?_,
      fun k' status' h => ?_⟩
    · rw [enter_back, enter_queue, hbs, List.erase_cons_head]
      exact hrest
    · rw [enter_last]
      unfold InOrder
      simp only [subcase_number]
      rcases add_one_mod a hpos with h | h <;> omega
    · rw [enter_phase, hfree.2.1] at h
      cases h
    · exact absurd (hrun.symm.trans h) (by simp)
    · obtain ⟨rfl, -⟩ := Prod.mk.inj (Option.some.inj (hrun.symm.trans h))
      rw [enter_pending, enter_count]
      rcases hs.all hfree.2.1 hfree.1 with hall | hall
      · left
        refine ⟨hall, ?_⟩
        rw [show a + 1 + m' = a + sglen by omega, Nat.add_mod_right]
      · right
        rw [hall]

theorem finish (hs : Chain udev sglen s a m) (hb : Bounded sglen total s)
    (hsound : Sound total s) {k : ℕ} {status : ℤ} (hrun : s.running = some (k, status)) :
    ∃ m', Chain udev sglen (finish k status 0 s) a m' := by
  have hzero : s.ctx.status = 0 := by
    refine hs.ok.resolve_left fun h => ?_
    cases hphase : s.phase with
    | submitting i =>
      have hnone := (hb.flight.submitting i hphase).2.2.1
      rw [hrun] at hnone
      cases hnone
    | _ => rw [hphase] at h; cases h
  have hle := hb.le
  rcases finish_cases k status 0 s with ⟨-, hlt, -, heq⟩ | ⟨hnot, heq⟩
  · obtain ⟨hm, hk⟩ := (hs.running k status hrun).resolve_right (by bv_omega)
    rw [heq]
    refine ⟨m + 1, .inr hzero, ?_, hs.last, hs.locked, fun _ _ => .inl hm,
      fun k' status' h => (by cases h)⟩
    show s.back.map Prod.fst ++ (s.queue ++ [k]) = _
    rw [← List.append_assoc, hs.inFlight, window_concat, hk]
  · have hge : ¬s.ctx.pending < s.ctx.count := fun hlt =>
      hnot ⟨hsound.result hzero k status hrun, hlt, rfl⟩
    rw [heq]
    refine ⟨m, .inr hzero, hs.inFlight, hs.last, hs.locked, fun _ _ => .inr ?_,
      fun k' status' h => (by cases h)⟩
    show s.ctx.pending = s.ctx.count
    bv_omega

theorem step (hs : Chain udev sglen s a m) (hb : Bounded sglen total s) (hsound : Sound total s)
    (hpos : 0 < sglen) (he : Fifo udev s e) (h : step udev sglen s e = some t) :
    ∃ a' m', Chain udev sglen t a' m' := by
  cases step_cases h with
  | submit hphase =>
    obtain rfl : _ = 0 := he
    exact ⟨0, m + 1, hs.submit hb hphase⟩
  | giveBack hk => exact ⟨a, m, hs.giveBack he⟩
  | enter hback hfree => exact ⟨a + 1, hs.enter hb hpos hfree he.1 he.2⟩
  | unlinked hloop hfree =>
    have hne := (hb.flight.error _ hloop).2
    exact absurd (hs.ok.resolve_left (by rw [hfree.2.1]; decide)) hne
  | finish hrun =>
    obtain rfl : _ = 0 := he
    exact ⟨a, hs.finish hb hsound hrun⟩
  | unlock => exact ⟨a, m, hs.ok, hs.inFlight, hs.last, hs.locked, hs.all, hs.running⟩
  | check hphase =>
    have hzero : s.ctx.status = 0 := hs.ok.resolve_left (by rw [hphase]; decide)
    have hlocked : s.phase.locked = false := by rw [hphase]; rfl
    refine ⟨a, m, .inr hzero, hs.inFlight, hs.last, fun h => ?_, fun _ => hs.all hlocked,
      hs.running⟩
    dsimp only at h
    split at h <;> cases h
  | wake hphase =>
    have hzero : s.ctx.status = 0 := hs.ok.resolve_left (by rw [hphase]; decide)
    have hlocked : s.phase.locked = false := by rw [hphase]; rfl
    exact ⟨a, m, .inr hzero, hs.inFlight, hs.last, fun h => (by cases h), fun _ => hs.all hlocked,
      hs.running⟩

end Chain

theorem chain_testCtrlQueue (udev : UsbDevice) {sg iterations : U32} {kcalloc allocated : Bool}
    {s : State}
    (h : testCtrlQueue sg iterations kcalloc allocated = .inr s) :
    Sound (sg.toNat * iterations.toNat) s ∧ Chain udev sg.toNat s 0 0 := by
  obtain ⟨-, hproduct, hctx, hqueue, hback, hrun, -, -, hdone, hzero, hphase⟩ :=
    testCtrlQueue_inr h
  have hlocked : s.phase.locked = true := by rw [hphase]; rfl
  constructor
  · refine ⟨fun _ => ?_, fun h => ?_, fun _ hpos => absurd hdone hpos.ne'⟩
    · rw [hctx, hzero, hproduct, Nat.add_zero]
    · rw [hctx] at h
      cases h
  · refine ⟨.inl hlocked, ?_, ?_, fun _ => rfl, fun h => ?_, fun k status h => ?_⟩
    · rw [hqueue, hback]
      rfl
    · exact .inl (by rw [Nat.zero_mod]; rfl)
    · rw [hlocked] at h
      cases h
    · exact absurd (hrun.symm.trans h) (by simp)

theorem Fifo.resubmitted {s : State} {e : Event} (h : Fifo udev s e) : Resubmitted e := by
  cases e with
  | finish rc => exact h
  | _ => trivial

/-- On such a host controller the test passes, and is told once, when all of its transfers are
done and nothing is under way but the completion that tells it. -/
theorem ctrlQueue_fifo {sg iterations : U32} {kcalloc allocated : Bool} {s t : State}
    (h : testCtrlQueue sg iterations kcalloc allocated = .inr s) (hiter : iterations ≠ 0)
    {es : List Event} (hes : AlwaysStep (step udev sg.toNat) (Fifo udev) s es)
    (ht : runs (step udev sg.toNat) s es = some t) :
    (t.phase.locked = false → t.ctx.status = 0) ∧
      (0 < t.completed →
        t.completed = 1 ∧ t.AtRest ∧ t.transfers = sg.toNat * iterations.toNat) := by
  have hpos := (testCtrlQueue_inr h).1
  obtain ⟨hsound, hchain⟩ := chain_testCtrlQueue udev h
  have hall : Always (step udev sg.toNat)
      (fun s => Bounded sg.toNat (sg.toNat * iterations.toNat) s ∧
        Sound (sg.toNat * iterations.toNat) s ∧ ∃ a m, Chain udev sg.toNat s a m) s es := by
    apply hes.always ?_ ⟨bounded_testCtrlQueue h hiter, hsound, 0, 0, hchain⟩
    rintro s e t ⟨hb, hs, a, m, hc⟩ he hst
    exact ⟨hb.step sg.isLt hst, hs.step hb he.resubmitted hst, hc.step hb hs hpos he hst⟩
  obtain ⟨hb, hs, a, m, hc⟩ := always_iff.mp hall es t (List.prefix_refl _) ht
  have hstatus (hlocked : t.phase.locked = false) : t.ctx.status = 0 :=
    hc.ok.resolve_left (by rw [hlocked]; decide)
  refine ⟨hstatus, fun hdone => ?_⟩
  have hlocked : t.phase.locked = false := by
    cases hphase : t.phase with
    | submitting i => exact absurd (hb.flight.submitting i hphase).2.2.2.2.1 hdone.ne'
    | _ => rfl
  obtain ⟨hone, hrest, hcount⟩ := hs.ended (hstatus hlocked) hdone
  refine ⟨hone, hrest, ?_⟩
  have hleft := hs.left hc.ok
  rw [hcount] at hleft
  simpa using hleft

theorem shortRun_fifo :
    AlwaysStep (step highSpeedDevice 1) (Fifo highSpeedDevice) shortStart shortRun :=
  .cons rfl rfl (.cons rfl rfl (.cons rfl trivial (.cons rfl ⟨rfl, .inl rfl⟩ (.cons rfl rfl
    (.cons rfl rfl (.cons rfl ⟨rfl, .inl rfl⟩ (.cons rfl rfl (.cons rfl trivial
      (.cons rfl trivial trivial)))))))))

theorem ctrlQueue_fifo_short :
    ∃ t, runs (step highSpeedDevice 1) shortStart shortRun = some t ∧ t.ctx.status = 0 ∧
      t.completed = 1 ∧ t.AtRest ∧ t.transfers = 2 := by
  obtain ⟨t, ht, hphase, hdone⟩ := shortRun_returns
  obtain ⟨hstatus, hend⟩ := ctrlQueue_fifo testCtrlQueue_short (by decide) shortRun_fifo ht
  exact ⟨t, ht, hstatus (by rw [hphase]; rfl), hend (by rw [hdone]; decide)⟩

end FuzzUSB.Usbtest.CtrlQueue
