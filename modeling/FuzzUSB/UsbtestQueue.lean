import FuzzUSB.Transition
import FuzzUSB.UsbtestIoctl
import Mathlib.Data.List.Basic
import Mathlib.Tactic.Ring

/-!
# The transfer queue of the usbtest driver

`test_queue` submits `sglen` URBs, and `complicated_callback` submits each again as it
completes, until `iterations * sglen` transfers are done. The callbacks run once the
submission loop has released the lock, in any order.
-/

namespace FuzzUSB.Usbtest
open Transition

/-- `struct transfer_context`; `done` is set once it is completed. -/
structure TransferContext where
  count : U32
  pending : U32
  submitError : Bool
  errors : BitVec 64
  packetCount : BitVec 64
  isIso : Bool
  done : Bool

structure IsoFrameDesc where
  length : U32
  offset : U32

/-- What the queue uses of a `struct urb`. -/
structure Urb where
  numberOfPackets : U32
  transferBufferLength : U32
  isoFrameDesc : List IsoFrameDesc

/-- What stands in a slot of the local array `urbs`: the URB allocated for it, or what the
stack held before. -/
inductive UrbRef
  | allocated (i : ℕ)
  | stray (address : BitVec 64)

/-- The faults that stop the kernel in `iso_alloc_urb`. -/
inductive Fault
  | divideError | nullPointer

/-- What `test_queue` finds: the speed of the device and the companion descriptor of its
endpoint, the outcomes of the allocations and submissions, and the contents of `urbs`. -/
structure QueueHost where
  superSpeed : Bool
  ssEpComp : Option (BitVec 8 × BitVec 8)
  allocUrb : ℕ → Bool
  allocCoherent : ℕ → ℕ → Bool
  submit : ℕ → ℤ
  stray : ℕ → Option (BitVec 64)

/-- `usb_endpoint_maxp`. -/
def usbEndpointMaxp (desc : EndpointDescriptor) : ℕ := desc.wMaxPacketSize.toNat % 2048

/-- `usb_endpoint_maxp_mult`. -/
def usbEndpointMaxpMult (desc : EndpointDescriptor) : ℕ :=
  desc.wMaxPacketSize.toNat / 2048 % 4 + 1

/-- `ss_isoc_get_packet_num`, from `bmAttributes` and `bMaxBurst`. -/
def ssIsocGetPacketNum (ssEpComp : BitVec 8 × BitVec 8) : ℕ :=
  (1 + ssEpComp.1.toNat % 4) * (1 + ssEpComp.2.toNat)

/-- `maxp` in `iso_alloc_urb`. -/
def isoMaxp (host : QueueHost) (desc : EndpointDescriptor) : Except Fault U32 :=
  if host.superSpeed then
    match host.ssEpComp with
    | none => .error .nullPointer
    | some comp => .ok (BitVec.ofNat 32 (usbEndpointMaxp desc * ssIsocGetPacketNum comp))
  else .ok (BitVec.ofNat 32 (usbEndpointMaxp desc * usbEndpointMaxpMult desc))

/-- The loop over `iso_frame_desc`, from packet `i` on with `bytes` left. -/
def isoFrames (maxp : U32) : ℕ → ℕ → ℕ → List IsoFrameDesc
  | 0, _, _ => []
  | packets + 1, i, bytes =>
    ⟨BitVec.ofNat 32 (min bytes maxp.toNat), maxp * BitVec.ofNat 32 i⟩ ::
      isoFrames maxp packets (i + 1) (bytes - min bytes maxp.toNat)

/-- `iso_alloc_urb` for slot `i`; `none` is `NULL`. -/
def isoAllocUrb (host : QueueHost) (desc : EndpointDescriptor) (bytes : U32) (offset i : ℕ) :
    Except Fault (Option Urb) :=
  match isoMaxp host desc with
  | .error f => .error f
  | .ok maxp =>
    if maxp = 0 then .error .divideError
    else
      -- `DIV_ROUND_UP`, with `maxp` as the divisor.
      let packets := (bytes.toNat + maxp.toNat - 1) / maxp.toNat
      .ok (if host.allocUrb i ∧ host.allocCoherent i (bytes.toNat + offset) then
        some ⟨BitVec.ofNat 32 packets, bytes, isoFrames maxp packets 0 bytes.toNat⟩ else none)

/-- `complicated_alloc_urb` for slot `i`. -/
def complicatedAllocUrb (host : QueueHost) (bytes : U32) (i : ℕ) : Option Urb :=
  if host.allocUrb i ∧ (bytes = 0 ∨ host.allocCoherent i bytes.toNat) then
    some ⟨0, bytes, []⟩ else none

/-- The queue with the lock free: what is in flight, `status` of the last submission, and
the URBs freed so far. -/
structure QueueState where
  ctx : TransferContext
  urb : Urb
  urbs : ℕ → Option UrbRef
  inFlight : List ℕ
  status : ℤ
  freed : List UrbRef

/-- `test_queue` up to the wait: it returned, and has read and freed slots of `urbs` on the way,
a fault, or a queue to wait for. -/
inductive Setup
  | returned (status : ℤ) (read : List ℕ) (freed : List UrbRef)
  | fault (f : Fault)
  | queued (s : QueueState)

/-- The slots of `urbs` that are not `NULL`, as the loops that free them see it. -/
def freeUrbs (sglen : ℕ) (urbs : ℕ → Option UrbRef) : List UrbRef :=
  (List.range sglen).filterMap urbs

/-- The loop at `fail`, from slot `i` on: the slots that it reads, and what it frees. -/
def failLoop (urbs : ℕ → Option UrbRef) : ℕ → ℕ → List ℕ × List UrbRef
  | 0, _ => ([], [])
  | todo + 1, i =>
    let (read, freed) := failLoop urbs todo (i + 1)
    (i :: read, (urbs i).toList ++ freed)

/-- The exit for failures. -/
def failExit (sglen : ℕ) (status : ℤ) (urbs : ℕ → Option UrbRef) : Setup :=
  let (read, freed) := failLoop urbs sglen 0
  .returned status read freed

theorem failLoop_eq (urbs : ℕ → Option UrbRef) (todo i : ℕ) :
    failLoop urbs todo i = (List.range' i todo, (List.range' i todo).filterMap urbs) := by
  induction todo generalizing i with
  | zero => rfl
  | succ todo ih =>
    rw [failLoop, ih, List.range'_succ, List.filterMap_cons]
    cases urbs i <;> rfl

theorem failExit_eq (sglen : ℕ) (status : ℤ) (urbs : ℕ → Option UrbRef) :
    failExit sglen status urbs = .returned status (List.range sglen) (freeUrbs sglen urbs) := by
  rw [failExit, failLoop_eq, ← List.range_eq_range', freeUrbs]

section

variable (host : QueueHost) (req : QueueRequest) (desc : Option EndpointDescriptor) (offset : ℕ)

/-- The URB of slot `i`. -/
def allocQueueUrb (i : ℕ) : Except Fault (Option Urb) :=
  match desc with
  | some desc => isoAllocUrb host desc req.length offset i
  | none => .ok (complicatedAllocUrb host req.length i)

/-- The submission loop, from slot `i` on. -/
def submitUrbs : ℕ → ℕ → QueueState → Setup
  | 0, _, s => .queued s
  | todo + 1, i, s =>
    let status := host.submit i
    if status < 0 then
      if i = 0 then failExit req.sglen.toNat status s.urbs
      else .queued { s with
        ctx := { s.ctx with submitError := true }
        urbs := Function.update s.urbs i none
        -- This URB is freed at once, and the loop after the wait skips its slot.
        freed := (s.urbs i).toList
        status := status }
    else submitUrbs todo (i + 1) { s with
      ctx := { s.ctx with pending := s.ctx.pending + 1 }
      inFlight := s.inFlight ++ [i]
      status := status }

/-- The allocation loop, from slot `i` on, followed by the submission loop. `urb` is the
URB allocated last; those of one request are alike. -/
def allocUrbs : ℕ → ℕ → (ℕ → Option UrbRef) → Urb → Setup
  | 0, _, urbs, urb =>
    submitUrbs host req req.sglen.toNat 0
      { ctx := ⟨req.iterations * req.sglen, 0, false, 0, 0, desc.isSome, false⟩
        urb := urb, urbs := urbs, inFlight := [], status := 0, freed := [] }
  | todo + 1, i, urbs, _ =>
    match allocQueueUrb host req desc offset i with
    | .error f => .fault f
    | .ok none => failExit req.sglen.toNat (-ENOMEM) (Function.update urbs i none)
    | .ok (some urb) => allocUrbs todo (i + 1) (Function.update urbs i (some (.allocated i))) urb

/-- `test_queue` up to `wait_for_completion`. -/
def testQueue : Setup :=
  if req.sglen = 0 ∨ (2 ^ 32 - 1) / req.sglen.toNat < req.iterations.toNat then
    .returned (-EINVAL) [] []
  else if maxSglen < req.sglen.toNat then .returned (-EINVAL) [] []
  else allocUrbs host req desc offset req.sglen.toNat 0
    (fun i => (host.stray i).map .stray) ⟨0, 0, []⟩

end

/-- The completion of the URB in slot `index`, and the status of submitting it again should
the callback do so. -/
structure Completion where
  index : ℕ
  status : ℤ
  errorCount : ℤ
  actualLength : U32
  guardOk : Bool
  resubmit : ℤ

/-- What a completion adds to `ctx->errors`. -/
def transferErrors (urb : Urb) (e : Completion) (isIso : Bool) : BitVec 64 :=
  if 0 < e.errorCount then BitVec.ofInt 64 e.errorCount
  else if e.status ≠ 0 then if isIso then urb.numberOfPackets.setWidth 64 else 1
  else if e.actualLength ≠ urb.transferBufferLength then 1
  else if e.guardOk = false then 1
  else 0

/-- `ctx->pending--`, and `complete(&ctx->done)` at 0. -/
def TransferContext.retire (ctx : TransferContext) : TransferContext :=
  { ctx with pending := ctx.pending - 1, done := ctx.done || ctx.pending - 1 = 0 }

/-- The completed transfer is counted. -/
def TransferContext.tally (ctx : TransferContext) (urb : Urb) (e : Completion) : TransferContext :=
  { ctx with
    count := ctx.count - 1
    packetCount := ctx.packetCount + urb.numberOfPackets.setWidth 64
    errors := ctx.errors + transferErrors urb e ctx.isIso }

/-- `complicated_callback`: the context, and whether the URB is in flight again. -/
def complicatedCallback (urb : Urb) (e : Completion) (ctx : TransferContext) :
    TransferContext × Bool :=
  if e.status = 0 ∧ ctx.pending - 1 < (ctx.tally urb e).count ∧ ctx.submitError = false then
    if e.resubmit = 0 then (ctx.tally urb e, true)
    else ({ ctx.tally urb e with submitError := true }.retire, false)
  else ((ctx.tally urb e).retire, false)

/-- One completion. -/
def completeStep (s : QueueState) (e : Completion) : Option QueueState :=
  if e.index ∈ s.inFlight then
    let r := complicatedCallback s.urb e s.ctx
    some { s with
      ctx := r.1, inFlight := if r.2 then s.inFlight else s.inFlight.erase e.index }
  else none

/-- What `test_queue` returns after the wait, and what it frees. -/
def testQueueReturn (sglen : ℕ) (s : QueueState) : ℤ × List UrbRef :=
  (if s.status ≠ 0 then s.status
   else if s.ctx.submitError then -EACCES
   else if (if s.ctx.isIso then s.ctx.packetCount / 10 else 0) < s.ctx.errors then - EIO
   else s.status,
   s.freed ++ freeUrbs sglen s.urbs)

/-! ## Completions -/

/-- The transfer and the submission after it, if there is one, succeed. -/
def Completion.Succeeds (e : Completion) : Prop := e.status = 0 ∧ e.resubmit = 0

/-- The URB is submitted again, or is retired: because that fails, or because there is no need
for it. -/
theorem complicatedCallback_eq (urb : Urb) (e : Completion) (ctx : TransferContext) :
    (complicatedCallback urb e ctx = (ctx.tally urb e, true) ∧
        ctx.pending - 1 < (ctx.tally urb e).count) ∨
      (complicatedCallback urb e ctx =
          ({ ctx.tally urb e with submitError := true }.retire, false) ∧ e.resubmit ≠ 0) ∨
      (complicatedCallback urb e ctx = ((ctx.tally urb e).retire, false) ∧
        ¬(e.status = 0 ∧ ctx.pending - 1 < (ctx.tally urb e).count ∧ ctx.submitError = false)) := by
  unfold complicatedCallback
  by_cases hcond :
      e.status = 0 ∧ ctx.pending - 1 < (ctx.tally urb e).count ∧ ctx.submitError = false
  · rw [if_pos hcond]
    by_cases hsub : e.resubmit = 0
    · exact .inl ⟨if_pos hsub, hcond.2.1⟩
    · exact .inr (.inl ⟨if_neg hsub, hsub⟩)
  · exact .inr (.inr ⟨if_neg hcond, hcond⟩)

/-- The callback counts the transfer. It submits the URB again only while more transfers are
left than URBs pending, and after a success does so if there are. -/
theorem complicatedCallback_cases (urb : Urb) (e : Completion) (ctx : TransferContext) :
    (complicatedCallback urb e ctx).1.count = ctx.count - 1 ∧
    (((complicatedCallback urb e ctx).2 = true ∧
        (complicatedCallback urb e ctx).1.pending = ctx.pending ∧
        (complicatedCallback urb e ctx).1.submitError = ctx.submitError ∧
        ctx.pending - 1 < ctx.count - 1) ∨
      ((complicatedCallback urb e ctx).2 = false ∧
        (complicatedCallback urb e ctx).1.pending = ctx.pending - 1 ∧
        (e.Succeeds → ctx.submitError = false →
          (complicatedCallback urb e ctx).1.submitError = false ∧
            ¬ctx.pending - 1 < ctx.count - 1))) := by
  rcases complicatedCallback_eq urb e ctx with ⟨heq, hlt⟩ | ⟨heq, hsub⟩ | ⟨heq, hcond⟩
  · rw [heq]
    exact ⟨rfl, .inl ⟨rfl, rfl, rfl, hlt⟩⟩
  · rw [heq]
    exact ⟨rfl, .inr ⟨rfl, rfl, fun he => absurd he.2 hsub⟩⟩
  · rw [heq]
    exact ⟨rfl, .inr ⟨rfl, rfl, fun he herr => ⟨herr, fun hlt => hcond ⟨he.1, hlt, herr⟩⟩⟩⟩

/-- Only the context and what is in flight change. -/
theorem completeStep_eq_some {s t : QueueState} {e : Completion} (h : completeStep s e = some t) :
    e.index ∈ s.inFlight ∧ t = { s with
      ctx := (complicatedCallback s.urb e s.ctx).1
      inFlight := if (complicatedCallback s.urb e s.ctx).2 then s.inFlight
        else s.inFlight.erase e.index } := by
  obtain ⟨hmem, h⟩ := Option.ite_none_right_eq_some.mp h
  exact ⟨hmem, (Option.some.inj h).symm⟩

/-- What a completion does to the queue. -/
theorem completeStep_cases {s t : QueueState} {e : Completion} (h : completeStep s e = some t) :
    e.index ∈ s.inFlight ∧ t.ctx.count = s.ctx.count - 1 ∧
    ((t.inFlight = s.inFlight ∧ t.ctx.pending = s.ctx.pending ∧
        t.ctx.submitError = s.ctx.submitError ∧ s.ctx.pending - 1 < s.ctx.count - 1) ∨
      (t.inFlight = s.inFlight.erase e.index ∧ t.ctx.pending = s.ctx.pending - 1 ∧
        (e.Succeeds → s.ctx.submitError = false →
          t.ctx.submitError = false ∧ ¬s.ctx.pending - 1 < s.ctx.count - 1))) := by
  obtain ⟨hmem, rfl⟩ := completeStep_eq_some h
  obtain ⟨hcount, ⟨hagain, hrest⟩ | ⟨hlast, hrest⟩⟩ := complicatedCallback_cases s.urb e s.ctx
  · exact ⟨hmem, hcount, .inl ⟨if_pos hagain, hrest⟩⟩
  · exact ⟨hmem, hcount, .inr ⟨if_neg (by simp [hlast]), hrest⟩⟩

/-- The queue after `n` completions out of `total`: what is left counts down, and no more
URBs are in flight than transfers are left. -/
structure Bounded (total n : ℕ) (s : QueueState) : Prop where
  left : s.ctx.count.toNat + n = total
  pending : s.ctx.pending.toNat = s.inFlight.length
  le : s.ctx.pending.toNat ≤ s.ctx.count.toNat

theorem Bounded.pos {total n : ℕ} {s t : QueueState} {e : Completion} (hs : Bounded total n s)
    (h : completeStep s e = some t) : 0 < s.ctx.pending.toNat ∧ 0 < s.ctx.count.toNat := by
  have hlen : 0 < s.inFlight.length := List.length_pos_of_mem (completeStep_cases h).1
  have hpending := hs.pending
  have hle := hs.le
  omega

theorem Bounded.step {total n : ℕ} {s t : QueueState} {e : Completion} (hs : Bounded total n s)
    (h : completeStep s e = some t) : Bounded total (n + 1) t := by
  obtain ⟨hp, hc⟩ := hs.pos h
  obtain ⟨hleft, hpending, hle⟩ := hs
  obtain ⟨hmem, hcount, ⟨hflight, hpend, -, hlt⟩ | ⟨hflight, hpend, -⟩⟩ := completeStep_cases h
  · -- Submitted again: one transfer fewer is left, for the same URBs.
    refine ⟨?_, ?_, ?_⟩
    · rw [hcount]; bv_omega
    · rw [hpend, hflight, hpending]
    · rw [hpend, hcount]; bv_omega
  · -- Retired: one transfer and one URB fewer.
    have hlen := List.length_erase_of_mem hmem
    refine ⟨?_, ?_, ?_⟩
    · rw [hcount]; bv_omega
    · rw [hpend, hflight, hlen]; bv_omega
    · rw [hpend, hcount]; bv_omega

theorem Bounded.run {total n : ℕ} {s t : QueueState} {es : List Completion}
    (hs : Bounded total n s) (h : runs completeStep s es = some t) :
    Bounded total (n + es.length) t := by
  induction es generalizing s n with
  | nil => exact Option.some.inj h ▸ hs
  | cons e es ih =>
    obtain ⟨u, hu, ht⟩ := Option.bind_eq_some_iff.mp h
    have := ih (hs.step hu) ht
    rwa [List.length_cons, Nat.add_comm es.length, ← Nat.add_assoc]

/-- A queue without failures: when nothing is pending, nothing is left. -/
def Flowing (s : QueueState) : Prop :=
  s.ctx.submitError = false ∧ (s.ctx.pending.toNat = 0 → s.ctx.count.toNat = 0)

theorem Flowing.step {total n : ℕ} {s t : QueueState} {e : Completion} (hs : Bounded total n s)
    (hf : Flowing s) (he : e.Succeeds) (h : completeStep s e = some t) : Flowing t := by
  obtain ⟨hp, hc⟩ := hs.pos h
  obtain ⟨-, hcount, ⟨-, hpend, herr, -⟩ | ⟨-, hpend, hlast⟩⟩ := completeStep_cases h
  · refine ⟨herr.trans hf.1, fun hzero => ?_⟩
    rw [hpend] at hzero
    omega
  · obtain ⟨herr, hge⟩ := hlast he hf.1
    refine ⟨herr, fun hzero => ?_⟩
    rw [hpend] at hzero
    rw [hcount]
    bv_omega

theorem Flowing.run {total n : ℕ} {s t : QueueState} {es : List Completion}
    (hs : Bounded total n s) (hf : Flowing s) (hes : ∀ e ∈ es, e.Succeeds)
    (h : runs completeStep s es = some t) : Flowing t := by
  induction es generalizing s n with
  | nil => exact Option.some.inj h ▸ hf
  | cons e es ih =>
    obtain ⟨u, hu, ht⟩ := Option.bind_eq_some_iff.mp h
    exact ih (hs.step hu) (hf.step hs (hes e (by simp)) hu)
      (fun e' he' => hes e' (by simp [he'])) ht

/-! ## The start of a queue -/

variable {host : QueueHost} {req : QueueRequest} {desc : Option EndpointDescriptor} {offset : ℕ}

/-- The submission loop from slot `i` on: it leaves `count`, and what it leaves in flight is
what it leaves pending. -/
theorem submitUrbs_queued {todo i : ℕ} {s t : QueueState}
    (h : submitUrbs host req todo i s = .queued t) (hi : s.inFlight.length = i)
    (hp : s.ctx.pending.toNat = i) (hmax : i + todo ≤ maxSglen) :
    t.ctx.count = s.ctx.count ∧ t.ctx.pending.toNat = t.inFlight.length ∧
      t.inFlight.length ≤ i + todo ∧
      ((∀ j < i + todo, host.submit j = 0) →
        t.ctx.submitError = s.ctx.submitError ∧ t.inFlight.length = i + todo) := by
  induction todo generalizing i s with
  | zero =>
    obtain rfl : s = t := by simpa [submitUrbs] using h
    exact ⟨rfl, by omega, by omega, fun _ => ⟨rfl, by omega⟩⟩
  | succ todo ih =>
    simp only [submitUrbs] at h
    split at h
    · next hneg =>
      split at h
      · cases h
      · obtain rfl := Setup.queued.inj h
        refine ⟨rfl, hp.trans hi.symm, by simp [hi], fun hall => ?_⟩
        have := hall i (by omega)
        omega
    · have hmax' : i + 1 + todo ≤ maxSglen := by omega
      have hpend : (s.ctx.pending + 1).toNat = i + 1 := by
        have : maxSglen = 128 := rfl
        bv_omega
      have hrest := ih h (by simp [hi]) hpend hmax'
      rwa [show i + 1 + todo = i + (todo + 1) by omega] at hrest

theorem allocUrbs_queued {todo i : ℕ} {urbs : ℕ → Option UrbRef} {urb : Urb} {t : QueueState}
    (h : allocUrbs host req desc offset todo i urbs urb = .queued t) :
    ∃ s, submitUrbs host req req.sglen.toNat 0 s = .queued t ∧
      s.ctx = ⟨req.iterations * req.sglen, 0, false, 0, 0, desc.isSome, false⟩ ∧
      s.inFlight = [] := by
  induction todo generalizing i urbs urb with
  | zero => exact ⟨_, h, rfl, rfl⟩
  | succ todo ih =>
    simp only [allocUrbs] at h
    split at h
    · cases h
    · cases h
    · exact ih h

/-- What the checks of `test_queue` accept. -/
structure QueueRequest.Accepted (req : QueueRequest) : Prop where
  pos : 0 < req.sglen.toNat
  le : req.sglen.toNat ≤ maxSglen
  product : (req.iterations * req.sglen).toNat = req.iterations.toNat * req.sglen.toNat

theorem accepted_of_checks
    (h : ¬(req.sglen = 0 ∨ (2 ^ 32 - 1) / req.sglen.toNat < req.iterations.toNat))
    (hle : ¬maxSglen < req.sglen.toNat) : req.Accepted := by
  push Not at h
  have hpos : 0 < req.sglen.toNat := by bv_omega
  refine ⟨hpos, by omega, ?_⟩
  have hmul := (Nat.le_div_iff_mul_le hpos).mp h.2
  rw [BitVec.toNat_mul]
  exact Nat.mod_eq_of_lt (by omega)

theorem testQueue_queued {s : QueueState} (h : testQueue host req desc offset = .queued s) :
    req.Accepted ∧ ∃ urbs,
      allocUrbs host req desc offset req.sglen.toNat 0 urbs ⟨0, 0, []⟩ = .queued s := by
  unfold testQueue at h
  split at h
  · cases h
  · next hcheck =>
    split at h
    · cases h
    · next hle => exact ⟨accepted_of_checks hcheck hle, _, h⟩

/-- A queue with at least one iteration starts with no more URBs in flight than transfers
to do. -/
theorem bounded_testQueue {s : QueueState} (h : testQueue host req desc offset = .queued s)
    (hiter : req.iterations ≠ 0) :
    Bounded (req.iterations.toNat * req.sglen.toNat) 0 s ∧
      ((∀ i < req.sglen.toNat, host.submit i = 0) → Flowing s) := by
  obtain ⟨hacc, urbs, halloc⟩ := testQueue_queued h
  obtain ⟨s₀, hsubmit, hctx, hflight⟩ := allocUrbs_queued halloc
  obtain ⟨hcount, hpend, hlen, hall⟩ :=
    submitUrbs_queued hsubmit (by simp [hflight]) (by simp [hctx]) (by simpa using hacc.le)
  rw [hctx] at hcount
  have hiter' : 0 < req.iterations.toNat := by bv_omega
  have hsglen : req.sglen.toNat ≤ req.iterations.toNat * req.sglen.toNat :=
    Nat.le_mul_of_pos_left _ hiter'
  refine ⟨⟨?_, hpend, ?_⟩, fun hsub => ?_⟩
  · rw [hcount, hacc.product, Nat.add_zero]
  · rw [hcount, hacc.product]
    omega
  · obtain ⟨herr, hlen'⟩ := hall (by simpa using hsub)
    have hpos := hacc.pos
    exact ⟨herr.trans (by rw [hctx]), fun hzero => by omega⟩

/-! ## The bound -/

/-- The queue of a request is bounded: whatever the device and the completions do, `count`
never wraps, at most `iterations * sglen` URBs complete, and all of them do once nothing is
in flight when nothing fails. -/
def QueueBounded (req : QueueRequest) (desc : Option EndpointDescriptor) (offset : ℕ) : Prop :=
  ∀ host s, testQueue host req desc offset = .queued s → ∀ es,
    AlwaysStep completeStep (fun s _ => s.ctx.count ≠ 0) s es ∧
    ∀ t, runs completeStep s es = some t →
      es.length ≤ req.iterations.toNat * req.sglen.toNat ∧
      ((∀ i < req.sglen.toNat, host.submit i = 0) → (∀ e ∈ es, e.Succeeds) → t.inFlight = [] →
        es.length = req.iterations.toNat * req.sglen.toNat)

theorem queueBounded_of_iterations (h : req.iterations ≠ 0) : QueueBounded req desc offset := by
  intro host s hs es
  obtain ⟨hb, hflow⟩ := bounded_testQueue hs h
  constructor
  · apply alwaysStep_iff.mpr
    intro pre e t u _ ht hu
    have hpos := ((hb.run ht).pos hu).2
    bv_omega
  · intro t ht
    have hbt := hb.run ht
    have hleft := hbt.left
    refine ⟨by omega, fun hsub hes hempty => ?_⟩
    have hpend := hbt.pending
    have hzero := ((hflow hsub).run hb hes ht).2 (by simp [hpend, hempty])
    omega

/-- A descriptor that `iso_alloc_urb` divides by zero on. -/
def Packetless (desc : Option EndpointDescriptor) : Prop :=
  ∃ d, desc = some d ∧ usbEndpointMaxp d = 0

theorem allocQueueUrb_packetless (host : QueueHost) (req : QueueRequest) (offset : ℕ)
    (h : Packetless desc) (i : ℕ) :
    ∃ f, allocQueueUrb host req desc offset i = .error f := by
  obtain ⟨d, rfl, hd⟩ := h
  simp only [allocQueueUrb, isoAllocUrb]
  cases hmaxp : isoMaxp host d with
  | error f => exact ⟨f, rfl⟩
  | ok maxp =>
    have hzero : maxp = 0 := by
      unfold isoMaxp at hmaxp
      simp only [hd, Nat.zero_mul] at hmaxp
      split at hmaxp
      · split at hmaxp
        · cases hmaxp
        · exact (Except.ok.inj hmaxp).symm
      · exact (Except.ok.inj hmaxp).symm
    exact ⟨.divideError, if_pos hzero⟩

theorem queueBounded_of_packetless (h : Packetless desc) : QueueBounded req desc offset := by
  intro host s hs
  obtain ⟨hacc, urbs, halloc⟩ := testQueue_queued hs
  obtain ⟨n, hn⟩ := Nat.exists_eq_succ_of_ne_zero hacc.pos.ne'
  obtain ⟨f, hf⟩ := allocQueueUrb_packetless host req offset h 0
  rw [hn, allocUrbs, hf] at halloc
  cases halloc

/-- A high speed device on which everything succeeds. -/
def willingHost : QueueHost where
  superSpeed := false
  ssEpComp := none
  allocUrb _ := true
  allocCoherent _ _ := true
  submit _ := 0
  stray _ := none

theorem allocQueueUrb_willing (req : QueueRequest) (offset : ℕ) (h : ¬Packetless desc)
    (i : ℕ) :
    ∃ urb, allocQueueUrb willingHost req desc offset i = .ok (some urb) := by
  cases desc with
  | none => exact ⟨⟨0, req.length, []⟩, by simp [allocQueueUrb, complicatedAllocUrb, willingHost]⟩
  | some d =>
    have hpos : usbEndpointMaxp d ≠ 0 := fun hd => h ⟨d, rfl, hd⟩
    have hlt : usbEndpointMaxp d < 2048 := Nat.mod_lt _ (by decide)
    have hmult : usbEndpointMaxpMult d ≤ 4 := by unfold usbEndpointMaxpMult; omega
    have hmult' : usbEndpointMaxpMult d ≠ 0 := by unfold usbEndpointMaxpMult; omega
    have hbound : usbEndpointMaxp d * usbEndpointMaxpMult d ≤ 2048 * 4 :=
      Nat.mul_le_mul hlt.le hmult
    have hmaxp : BitVec.ofNat 32 (usbEndpointMaxp d * usbEndpointMaxpMult d) ≠ 0 := by
      have hne := Nat.mul_ne_zero hpos hmult'
      intro heq
      have := congrArg BitVec.toNat heq
      rw [BitVec.toNat_ofNat, Nat.mod_eq_of_lt (by omega)] at this
      exact hne this
    simp only [allocQueueUrb, isoAllocUrb, isoMaxp, willingHost, Bool.false_eq_true, if_false,
      if_neg hmaxp, and_self, if_true]
    exact ⟨_, rfl⟩

theorem allocUrbs_willing (req : QueueRequest) (offset : ℕ) (h : ¬Packetless desc)
    (todo i : ℕ) (urbs : ℕ → Option UrbRef) (urb : Urb) :
    ∃ s, allocUrbs willingHost req desc offset todo i urbs urb =
      submitUrbs willingHost req req.sglen.toNat 0 s ∧
        s.ctx.count = req.iterations * req.sglen ∧ s.inFlight = [] := by
  induction todo generalizing i urbs urb with
  | zero => exact ⟨_, rfl, rfl, rfl⟩
  | succ todo ih =>
    obtain ⟨urb', hurb⟩ := allocQueueUrb_willing req offset h i
    rw [allocUrbs, hurb]
    exact ih _ _ _

theorem submitUrbs_willing (req : QueueRequest) (todo i : ℕ) (s : QueueState) :
    ∃ t, submitUrbs willingHost req todo i s = .queued t ∧ t.ctx.count = s.ctx.count ∧
      s.inFlight ⊆ t.inFlight ∧ (todo ≠ 0 → i ∈ t.inFlight) := by
  induction todo generalizing i s with
  | zero => exact ⟨s, rfl, rfl, List.Subset.refl _, fun h => absurd rfl h⟩
  | succ todo ih =>
    obtain ⟨t, ht, hcount, hsub, -⟩ := ih (i + 1) { s with
      ctx := { s.ctx with pending := s.ctx.pending + 1 }
      inFlight := s.inFlight ++ [i]
      status := 0 }
    refine ⟨t, ht, hcount, fun j hj => hsub (by simp [hj]), fun _ => hsub (by simp)⟩

/-- A request for no iterations that passes the checks starts a queue with nothing to do, and
the first completion makes `count` wrap. -/
theorem not_queueBounded (hiter : req.iterations = 0) (hpos : req.sglen ≠ 0)
    (hle : req.sglen.toNat ≤ maxSglen) (hdesc : ¬Packetless desc) :
    ¬QueueBounded req desc offset := by
  intro h
  obtain ⟨s₀, halloc, hcount₀, -⟩ := allocUrbs_willing req offset hdesc
    req.sglen.toNat 0 (fun i => (willingHost.stray i).map .stray) ⟨0, 0, []⟩
  obtain ⟨s, hsubmit, hcount, -, hmem⟩ :=
    submitUrbs_willing req req.sglen.toNat 0 s₀
  have hqueued : testQueue willingHost req desc offset = .queued s := by
    rw [testQueue, if_neg (by simpa [hiter] using hpos), if_neg (by omega), halloc, hsubmit]
  -- Slot 0 was submitted although no transfer is asked for.
  have hflight : 0 ∈ s.inFlight := hmem (by bv_omega)
  have hstep : completeStep s ⟨0, 0, 0, 0, true, 0⟩ ≠ none := by simp [completeStep, hflight]
  obtain ⟨t, ht⟩ := Option.ne_none_iff_exists'.mp hstep
  refine ((h _ s hqueued [⟨0, 0, 0, 0, true, 0⟩]).1 t ht).1 ?_
  rw [hcount, hcount₀, hiter]
  exact BitVec.zero_mul

/-- The queue of a request is bounded exactly when it asks for an iteration, or never gets as
far as a submission. -/
theorem queueBounded_iff_request : QueueBounded req desc offset ↔
    req.iterations ≠ 0 ∨ req.sglen = 0 ∨ maxSglen < req.sglen.toNat ∨ Packetless desc := by
  constructor
  · intro h
    by_contra hnot
    push Not at hnot
    exact not_queueBounded hnot.1 hnot.2.1 hnot.2.2.1 hnot.2.2.2 h
  · rintro (h | h | h | h)
    · exact queueBounded_of_iterations h
    · intro host s hs
      exact absurd (testQueue_queued hs).1.pos (by simp [h])
    · intro host s hs
      exact absurd (testQueue_queued hs).1.le (by omega)
    · exact queueBounded_of_packetless h

/-! ## The requests that reach a queue -/

open Program

variable {ctx : IoctlContext} {param : UsbtestParam32} {pipe pipe' : U32}

@[simp] theorem mayCall_supported {p : Prop} [Decidable p] {test : Driver ℤ} {c : Op} :
    (supported p test).MayCall c ↔ p ∧ test.MayCall c := by
  unfold supported
  split
  · next hp => exact ⟨fun h => ⟨hp, h⟩, And.right⟩
  · next hp => exact ⟨False.elim, fun h => hp h.1⟩

@[simp] theorem not_mayCall_repeatTest {test : Driver ℤ} {c : Op} {n : ℕ}
    (h : ¬test.MayCall c) : ¬(repeatTest test n).MayCall c := by
  induction n with
  | zero => exact not_mayCall_ret c 0
  | succ n ih =>
    intro hc
    rcases MayCall.of_bind hc with hc | ⟨retval, hc⟩
    · exact h hc
    · split at hc
      · exact ih hc
      · cases hc

@[simp] theorem not_mayCall_simpleTest {bInterval : Option (BitVec 8)} {vary : U32}
    {label : String} :
    ¬(simpleTest pipe' bInterval param vary label).MayCall (.testQueue req pipe desc offset) := by
  intro h
  simp only [simpleTest, perform_bind, mayCall_call, reduceCtorEq, false_or] at h
  obtain ⟨urb, h⟩ := h
  cases urb <;> simp [ignore, performAll] at h

@[simp] theorem not_mayCall_sglistTest {vary : U32} :
    ¬(sglistTest pipe' param vary).MayCall (.testQueue req pipe desc offset) := by
  intro h
  simp only [sglistTest, perform_bind, mayCall_call, reduceCtorEq, false_or] at h
  obtain ⟨sg, h⟩ := h
  cases sg <;> simp [ignore, performAll] at h

/-- The numbered tests hand `test_queue` the request as it is. -/
theorem mayCall_numberedTest {dev : Endpoints} {info : UsbtestInfo} {pattern : U32}
    (h : (numberedTest dev info pattern param).MayCall (.testQueue req pipe desc offset)) :
    req = queueRequest param := by
  unfold numberedTest at h
  dsimp only at h
  split at h <;> simp at h <;> exact h.2.1

/-- So does the fuzzing path. -/
theorem mem_fzCalls_testQueue {info : Endpoints}
    (h : .testQueue req pipe desc offset ∈ fzCalls info param) : req = queueRequest param := by
  unfold fzCalls hostFuzzIso at h
  split at h
  · simp at h
  · split at h
    · simp at h
    · simp only [List.mem_append, List.mem_ite_nil_right, List.mem_singleton, reduceCtorEq,
        and_false, false_or, Op.testQueue.injEq] at h
      rcases h with ⟨-, rfl, -⟩ | ⟨-, rfl, -⟩ <;> rfl

/-- Only the numbered tests refuse a request for no iterations. -/
theorem mayCall_testQueue
    (h : (usbtestDoIoctl ctx param).MayCall (.testQueue req pipe desc offset)) :
    req = queueRequest param ∧ (param.isFz = 0 → param.iterations ≠ 0) := by
  unfold usbtestDoIoctl at h
  split at h
  · next hfz =>
    rcases MayCall.of_bind h with h | ⟨_, h⟩
    · exact ⟨mem_fzCalls_testQueue ((mayCall_performAll _ _).mp h), fun h0 => absurd h0 hfz⟩
    · cases h
  · split at h
    · cases h
    · next hiter =>
      split at h
      · cases h
      · exact ⟨mayCall_numberedTest h, fun _ => hiter⟩

/-- A request that reaches `test_queue` has a bounded queue exactly when it asks for an
iteration, or has no `sglen` that the checks accept, or meets an endpoint without packets. -/
theorem queueBounded_iff (ctx : IoctlContext) (param : UsbtestParam32) (req : QueueRequest)
    (pipe : U32) (desc : Option EndpointDescriptor) (offset : ℕ)
    (h : (usbtestDoIoctl ctx param).MayCall (.testQueue req pipe desc offset)) :
    QueueBounded req desc offset ↔ param.iterations ≠ 0 ∨ param.sglen = 0 ∨
      maxSglen < param.sglen.toNat ∨ Packetless desc := by
  obtain ⟨rfl, -⟩ := mayCall_testQueue h
  exact queueBounded_iff_request

/-- An isochronous IN fuzzing request for no iterations of one URB. -/
def emptyIsoParam : UsbtestParam32 :=
  { zeroTemp with isFz := 1, isIso := 1, sglen := 1, length := 64 }

/-- A device whose record has an isochronous IN endpoint with 64 byte packets. -/
def isoContext : IoctlContext where
  dev := .zero
  infoEps := ⟨Function.update (fun _ => 0) .inIso 0x8180,
    Function.update (fun _ => none) .inIso (some ⟨0x81, 1, 64, 1⟩)⟩
  info :=
    { name := "ss/", iso := true, needFixAlt := 1
      fixAltIntf0 := 1, fixAltIntf1 := -1, fixAltIntf2 := -1 }
  pattern := 0

theorem reaches_emptyIsoParam : (usbtestDoIoctl isoContext emptyIsoParam).MayCall
    (.testQueue ⟨0, 1, 64⟩ 0x8180 (some ⟨0x81, 1, 64, 1⟩) 1) := .inl rfl

theorem queueBounded_iff_emptyIso :
    QueueBounded ⟨0, 1, 64⟩ (some ⟨0x81, 1, 64, 1⟩) 1 ↔ emptyIsoParam.iterations ≠ 0 ∨
      emptyIsoParam.sglen = 0 ∨ maxSglen < emptyIsoParam.sglen.toNat ∨
        Packetless (some ⟨0x81, 1, 64, 1⟩) :=
  queueBounded_iff isoContext emptyIsoParam _ _ _ _ reaches_emptyIsoParam

/-- Its first completion takes `count` from 0 to `UINT_MAX`. -/
theorem emptyIso_wraps :
    (usbtestDoIoctl isoContext emptyIsoParam).MayCall
        (.testQueue ⟨0, 1, 64⟩ 0x8180 (some ⟨0x81, 1, 64, 1⟩) 1) ∧
      ¬QueueBounded ⟨0, 1, 64⟩ (some ⟨0x81, 1, 64, 1⟩) 1 := by
  refine ⟨reaches_emptyIsoParam, fun h => ?_⟩
  obtain ⟨s, hs, hcount, hmem⟩ : ∃ s, testQueue willingHost ⟨0, 1, 64⟩ (some ⟨0x81, 1, 64, 1⟩) 1 =
    .queued s ∧ s.ctx.count = 0 ∧ 0 ∈ s.inFlight := ⟨_, rfl, by decide, by decide⟩
  have hstep : completeStep s ⟨0, 0, 0, 64, true, 0⟩ = some _ := if_pos hmem
  exact ((h _ s hs [⟨0, 0, 0, 64, true, 0⟩]).1 _ hstep).1 hcount

end FuzzUSB.Usbtest
