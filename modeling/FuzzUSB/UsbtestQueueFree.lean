import FuzzUSB.UsbtestQueue
import Mathlib.Data.List.Nodup
import Mathlib.Data.List.Perm.Subperm

/-!
# Who frees the URBs of a queue

An URB of `test_queue` is in flight or belongs to the driver, which frees it at once when it
cannot be submitted, and behind the wait otherwise. The exit for failures goes through all
slots of `urbs`, also through those that were not assigned yet.
-/

namespace FuzzUSB.Usbtest
open Transition

/-- The URBs of a request, one for each slot. -/
def allocatedUrbs (sglen : ℕ) : List UrbRef := (List.range sglen).map .allocated

/-- The callback calls `complete(&ctx->done)`. -/
def callsComplete (s : QueueState) (e : Completion) : Bool :=
  !(complicatedCallback s.urb e s.ctx).2 && s.ctx.pending - 1 = 0

/-- How often a run calls `complete(&ctx->done)`. -/
def completeCalls : QueueState → List Completion → ℕ
  | _, [] => 0
  | s, e :: es =>
    (if callsComplete s e then 1 else 0) +
      match completeStep s e with
      | some t => completeCalls t es
      | none => 0

/-! ## The property -/

/-- What holds in each state `t` of the run `es` from `s`, where a state is the one with the
lock free. -/
structure FreesOnce (sglen : ℕ) (s : QueueState) (es : List Completion) (t : QueueState) :
    Prop where
  pending : t.ctx.pending.toNat = t.inFlight.length ∧ t.inFlight.Nodup
  /-- There has been one call when nothing is pending, and none before. -/
  complete : completeCalls s es = if t.ctx.pending = 0 then 1 else 0
  /-- The wait is over when nothing is in flight. -/
  done : t.ctx.done = true ↔ t.inFlight = []
  /-- What was freed early is not in flight. -/
  early : ∀ i, .allocated i ∈ t.freed → i ∉ t.inFlight
  frees : (testQueueReturn sglen t).2.Perm (allocatedUrbs sglen)
  /-- Until the wait is over, there is an URB that can complete. -/
  progress : t.ctx.done = false → ∃ e u, completeStep t e = some u

/-- `test_queue` frees every URB once, and none in flight. -/
def QueueFreesOnce (host : QueueHost) (req : QueueRequest) : Setup → Prop
  | .fault _ => False
  -- The checks, or the first submission.
  | .returned _ _ freed =>
    (2 ^ 32 - 1) / req.sglen.toNat < req.iterations.toNat ∧ freed = [] ∨
      host.submit 0 < 0 ∧ freed.Perm (allocatedUrbs req.sglen.toNat)
  | .queued s =>
    0 ≤ host.submit 0 ∧ ∀ es t, runs completeStep s es = some t →
      FreesOnce req.sglen.toNat s es t ∧ es.length ≤ 2 ^ 32

/-! ## Slots -/

/-- One slot less. -/
theorem filterMap_update_perm {α : Type} (f : ℕ → Option α) {k : ℕ} {l : List ℕ}
    (hl : l.Nodup) (hk : k ∈ l) :
    ((f k).toList ++ l.filterMap (Function.update f k none)).Perm (l.filterMap f) := by
  induction l with
  | nil => cases hk
  | cons i l ih =>
    obtain ⟨hi, hl⟩ := List.nodup_cons.mp hl
    by_cases hik : i = k
    · subst hik
      have hrest : l.filterMap (Function.update f i none) = l.filterMap f := by
        apply List.filterMap_congr
        intro j hj
        exact Function.update_of_ne (ne_of_mem_of_not_mem hj hi) _ _
      rw [List.filterMap_cons_none (Function.update_self i none f), hrest]
      cases hfi : f i with
      | none => rw [List.filterMap_cons_none hfi]; exact .refl _
      | some a => rw [List.filterMap_cons_some hfi]; exact .refl _
    · have hrest := ih hl ((List.mem_cons.mp hk).resolve_left fun heq => hik heq.symm)
      have hui : Function.update f k none i = f i := Function.update_of_ne hik _ _
      cases hfi : f i with
      | none => rwa [List.filterMap_cons_none (hui.trans hfi), List.filterMap_cons_none hfi]
      | some a =>
        rw [List.filterMap_cons_some (hui.trans hfi), List.filterMap_cons_some hfi]
        exact List.perm_middle.trans (hrest.cons a)

theorem freeUrbs_allocated {sglen : ℕ} {urbs : ℕ → Option UrbRef}
    (h : ∀ i < sglen, urbs i = some (.allocated i)) :
    freeUrbs sglen urbs = allocatedUrbs sglen := by
  rw [freeUrbs, allocatedUrbs, ← List.filterMap_eq_map]
  exact List.filterMap_congr fun i hi => h i (List.mem_range.mp hi)

/-! ## The invariant -/

/-- An URB in flight is in its slot, every URB is in its slot or has been freed, and the wait
is over when nothing is in flight. -/
structure Owned (sglen : ℕ) (s : QueueState) : Prop where
  pending : s.ctx.pending.toNat = s.inFlight.length
  nodup : s.inFlight.Nodup
  held : ∀ i ∈ s.inFlight, i < sglen ∧ s.urbs i = some (.allocated i)
  all : (s.freed ++ freeUrbs sglen s.urbs).Perm (allocatedUrbs sglen)
  done : s.ctx.done = true ↔ s.inFlight = []

variable {sglen : ℕ} {s t : QueueState} {e : Completion}

/-- An URB is submitted again, or retired, and the wait is over if that was the last. -/
theorem complicatedCallback_done (urb : Urb) (e : Completion) (ctx : TransferContext) :
    ((complicatedCallback urb e ctx).2 = true ∧
        (complicatedCallback urb e ctx).1.pending = ctx.pending ∧
        (complicatedCallback urb e ctx).1.done = ctx.done) ∨
      ((complicatedCallback urb e ctx).2 = false ∧
        (complicatedCallback urb e ctx).1.pending = ctx.pending - 1 ∧
        (complicatedCallback urb e ctx).1.done = (ctx.done || ctx.pending - 1 = 0)) := by
  rcases complicatedCallback_eq urb e ctx with ⟨heq, -⟩ | ⟨heq, -⟩ | ⟨heq, -⟩
  · exact .inl (heq ▸ ⟨rfl, rfl, rfl⟩)
  · exact .inr (heq ▸ ⟨rfl, rfl, rfl⟩)
  · exact .inr (heq ▸ ⟨rfl, rfl, rfl⟩)

theorem completeStep_owner (h : completeStep s e = some t) :
    e.index ∈ s.inFlight ∧
      ((t.inFlight = s.inFlight ∧ t.ctx.pending = s.ctx.pending ∧ t.ctx.done = s.ctx.done ∧
          callsComplete s e = false) ∨
        (t.inFlight = s.inFlight.erase e.index ∧ t.ctx.pending = s.ctx.pending - 1 ∧
          t.ctx.done = (s.ctx.done || s.ctx.pending - 1 = 0) ∧
          callsComplete s e = decide (s.ctx.pending - 1 = 0))) := by
  obtain ⟨hmem, rfl⟩ := completeStep_eq_some h
  refine ⟨hmem, ?_⟩
  unfold callsComplete
  obtain ⟨hagain, hpend, hdone⟩ | ⟨hlast, hpend, hdone⟩ :=
    complicatedCallback_done s.urb e s.ctx
  · exact .inl ⟨if_pos hagain, hpend, hdone, by simp [hagain]⟩
  · exact .inr ⟨if_neg (by simp [hlast]), hpend, hdone, by simp [hlast]⟩

theorem Owned.step (hs : Owned sglen s) (h : completeStep s e = some t) : Owned sglen t := by
  have hurbs : t.urbs = s.urbs := by rw [(completeStep_eq_some h).2]
  have hfreed : t.freed = s.freed := by rw [(completeStep_eq_some h).2]
  obtain ⟨hmem, ⟨hflight, hpend, hdone, -⟩ | ⟨hflight, hpend, hdone, -⟩⟩ :=
    completeStep_owner h
  · refine ⟨?_, ?_, ?_, ?_, ?_⟩
    · rw [hpend, hflight, hs.pending]
    · rw [hflight]
      exact hs.nodup
    · rw [hflight, hurbs]
      exact hs.held
    · rw [hurbs, hfreed]
      exact hs.all
    · rw [hdone, hflight]
      exact hs.done
  · have hlen := List.length_erase_of_mem hmem
    have hpos := List.length_pos_of_mem hmem
    have hpending := hs.pending
    have hwaiting : s.ctx.done = false := by
      rw [← Bool.not_eq_true, hs.done]
      exact List.ne_nil_of_mem hmem
    have hpend' : (s.ctx.pending - 1).toNat = (s.inFlight.erase e.index).length := by bv_omega
    refine ⟨?_, ?_, ?_, ?_, ?_⟩
    · rw [hpend, hflight, hpend']
    · rw [hflight]
      exact hs.nodup.erase _
    · rw [hflight, hurbs]
      exact fun i hi => hs.held i (List.mem_of_mem_erase hi)
    · rw [hurbs, hfreed]
      exact hs.all
    · rw [hdone, hwaiting, Bool.false_or, decide_eq_true_eq, hflight,
        ← List.length_eq_zero_iff, ← hpend', ← BitVec.toNat_inj]
      rfl

theorem Owned.run {es : List Completion} (hs : Owned sglen s)
    (h : runs completeStep s es = some t) : Owned sglen t :=
  runs_invariant (fun _ _ _ hs h => hs.step h) hs h

theorem Owned.pending_eq_zero_iff (hs : Owned sglen s) : s.ctx.pending = 0 ↔ s.inFlight = [] := by
  rw [← List.length_eq_zero_iff, ← hs.pending, ← BitVec.toNat_inj]
  rfl

/-- `complete` is called when the last URB is retired. -/
theorem Owned.callsComplete_iff (hs : Owned sglen s) (h : completeStep s e = some t) :
    callsComplete s e = true ↔ t.inFlight = [] := by
  have ht := (hs.step h).pending_eq_zero_iff
  obtain ⟨hmem, ⟨hflight, -, -, hcalls⟩ | ⟨-, hpend, -, hcalls⟩⟩ := completeStep_owner h
  · rw [hcalls, hflight]
    exact iff_of_false Bool.false_ne_true (List.ne_nil_of_mem hmem)
  · rw [hcalls, decide_eq_true_eq, ← hpend, ht]

/-- A run from a state with something in flight calls `complete` when the last is retired. -/
theorem Owned.completeCalls_eq {es : List Completion} (hs : Owned sglen s)
    (hflight : s.inFlight ≠ []) (h : runs completeStep s es = some t) :
    completeCalls s es = if t.ctx.pending = 0 then 1 else 0 := by
  induction es generalizing s with
  | nil =>
    obtain rfl := Option.some.inj h
    rw [if_neg (mt hs.pending_eq_zero_iff.mp hflight)]
    rfl
  | cons e es ih =>
    obtain ⟨u, hu, ht⟩ := Option.bind_eq_some_iff.mp h
    have hus := hs.step hu
    rw [completeCalls, hu]
    by_cases hempty : u.inFlight = []
    · -- Nothing can complete any more.
      cases es with
      | cons e' es =>
        obtain ⟨v, hv, -⟩ := Option.bind_eq_some_iff.mp ht
        exact absurd (completeStep_owner hv).1 (by simp [hempty])
      | nil =>
        obtain rfl := Option.some.inj ht
        rw [if_pos ((hs.callsComplete_iff hu).mpr hempty),
          if_pos (hus.pending_eq_zero_iff.mpr hempty)]
        rfl
    · rw [if_neg (mt (hs.callsComplete_iff hu).mp hempty)]
      exact (Nat.zero_add _).trans (ih hus hempty ht)

/-- What was freed early is not in a slot, and so not in flight. -/
theorem Owned.early (hs : Owned sglen s) {i : ℕ} (hi : .allocated i ∈ s.freed) :
    i ∉ s.inFlight := by
  intro hmem
  obtain ⟨hlt, hslot⟩ := hs.held i hmem
  have hnodup : (s.freed ++ freeUrbs sglen s.urbs).Nodup :=
    hs.all.nodup_iff.mpr (List.Nodup.map (fun _ _ h => UrbRef.allocated.inj h) List.nodup_range)
  refine (List.disjoint_of_nodup_append hnodup) hi (List.mem_filterMap.mpr ⟨i, ?_, hslot⟩)
  exact List.mem_range.mpr hlt

theorem Owned.freesOnce {es : List Completion} (hs : Owned sglen s) (hflight : s.inFlight ≠ [])
    (h : runs completeStep s es = some t) : FreesOnce sglen s es t where
  pending := ⟨(hs.run h).pending, (hs.run h).nodup⟩
  complete := hs.completeCalls_eq hflight h
  done := (hs.run h).done
  early _ := (hs.run h).early
  frees := (hs.run h).all
  progress hwait := by
    have hne : t.inFlight ≠ [] := fun hempty =>
      Bool.false_ne_true (hwait.symm.trans ((hs.run h).done.mpr hempty))
    obtain ⟨i, hi⟩ := List.exists_mem_of_ne_nil _ hne
    exact ⟨⟨i, 0, 0, 0, true, 0⟩, _, if_pos hi⟩

/-- A run is no longer than `count` lets it be, which wraps at most once. -/
theorem Owned.run_le {es : List Completion} (hs : Owned sglen s) (hle : sglen ≤ maxSglen)
    (hcount : s.ctx.pending.toNat ≤ s.ctx.count.toNat ∨ s.ctx.count = 0)
    (h : runs completeStep s es = some t) : es.length ≤ 2 ^ 32 := by
  rcases hcount with hcount | hzero
  · have hbound : Bounded s.ctx.count.toNat 0 s := ⟨rfl, hs.pending, hcount⟩
    have hleft := (hbound.run h).left
    have hlt := s.ctx.count.isLt
    omega
  · cases es with
    | nil => exact Nat.zero_le _
    | cons e es =>
      obtain ⟨u, hu, ht⟩ := Option.bind_eq_some_iff.mp h
      have hus := hs.step hu
      have hleft : u.ctx.count.toNat + 0 = 2 ^ 32 - 1 := by
        rw [(completeStep_cases hu).2.1, hzero]
        rfl
      have hsub : u.inFlight ⊆ List.range sglen := fun i hi => List.mem_range.mpr (hus.held i hi).1
      have hlen := (hus.nodup.subperm hsub).length_le
      have hmax : sglen ≤ 128 := hle
      rw [List.length_range, ← hus.pending] at hlen
      have hbound : Bounded (2 ^ 32 - 1) 0 u := ⟨hleft, hus.pending, by omega⟩
      have hrest := (hbound.run ht).left
      rw [List.length_cons]
      omega

/-! ## The start of a queue -/

variable {host : QueueHost} {req : QueueRequest} {desc : Option EndpointDescriptor} {offset : ℕ}

/-- The submission loop at slot `i`. -/
structure Submitting (sglen i : ℕ) (s : QueueState) : Prop where
  inFlight : s.inFlight = List.range i
  pending : s.ctx.pending.toNat = i
  urbs : ∀ j < sglen, s.urbs j = some (.allocated j)
  freed : s.freed = []
  done : s.ctx.done = false

theorem Submitting.owned {i : ℕ} (hs : Submitting sglen i s) (hi : i ≤ sglen) (hpos : 0 < i) :
    Owned sglen s where
  pending := by rw [hs.pending, hs.inFlight, List.length_range]
  nodup := hs.inFlight ▸ List.nodup_range
  held j hj := by
    rw [hs.inFlight, List.mem_range] at hj
    exact ⟨by omega, hs.urbs j (by omega)⟩
  all := by rw [hs.freed, List.nil_append, freeUrbs_allocated hs.urbs]
  done := by
    rw [hs.done, hs.inFlight]
    exact iff_of_false Bool.false_ne_true (by simp; omega)

variable (host) in
theorem submitUrbs_spec {todo i : ℕ} (hs : Submitting sglen i s) (hi : i + todo = sglen)
    (hreq : req.sglen.toNat = sglen) (hle : sglen ≤ maxSglen) (hpos : 0 < sglen) :
    (i = 0 ∧ host.submit 0 < 0 ∧
        submitUrbs host req todo i s =
          .returned (host.submit 0) (List.range sglen) (allocatedUrbs sglen)) ∨
      ∃ t, submitUrbs host req todo i s = .queued t ∧ Owned sglen t ∧ t.inFlight ≠ [] ∧
        t.ctx.count = s.ctx.count ∧ (i = 0 → 0 ≤ host.submit 0) := by
  induction todo generalizing i s with
  | zero =>
    have hne : s.inFlight ≠ [] := by
      rw [hs.inFlight]
      simp
      omega
    exact .inr ⟨s, rfl, hs.owned (by omega) (by omega), hne, rfl, fun h => absurd h (by omega)⟩
  | succ todo ih =>
    rw [submitUrbs]
    dsimp only
    by_cases hneg : host.submit i < 0
    · rw [if_pos hneg]
      by_cases hzero : i = 0
      · subst hzero
        rw [if_pos rfl, hreq, failExit_eq, freeUrbs_allocated hs.urbs]
        exact .inl ⟨rfl, hneg, rfl⟩
      · rw [if_neg hzero]
        have hi : i < sglen := by omega
        have hold := hs.owned hi.le (Nat.pos_of_ne_zero hzero)
        refine .inr ⟨_, rfl, ⟨hold.pending, hold.nodup, fun j hj => ?_, ?_, hold.done⟩, ?_, rfl,
          fun h => absurd h hzero⟩
        · have hj' : j ∈ List.range i := hs.inFlight ▸ hj
          have hne : j ≠ i := (List.mem_range.mp hj').ne
          refine ⟨(hold.held j hj).1, ?_⟩
          exact (Function.update_of_ne hne _ _).trans (hold.held j hj).2
        · rw [← freeUrbs_allocated hs.urbs]
          exact filterMap_update_perm s.urbs List.nodup_range (List.mem_range.mpr hi)
        · rw [hs.inFlight]
          simpa using hzero
    · rw [if_neg hneg]
      have hmax : maxSglen = 128 := rfl
      have hnext : Submitting sglen (i + 1) { s with
          ctx := { s.ctx with pending := s.ctx.pending + 1 }
          inFlight := s.inFlight ++ [i]
          status := host.submit i } := by
        refine ⟨?_, ?_, hs.urbs, hs.freed, hs.done⟩
        · rw [hs.inFlight, List.range_succ]
        · have hpend := hs.pending
          bv_omega
      rcases ih hnext (by omega) with ⟨hzero, -⟩ | ⟨t, ht, hown, hne, hcount, -⟩
      · exact absurd hzero (Nat.succ_ne_zero i)
      · exact .inr ⟨t, ht, hown, hne, hcount, fun hi => hi ▸ not_lt.mp hneg⟩

/-- The allocation loop gets past the slots whose allocations succeed. -/
theorem allocUrbs_reach (n todo : ℕ) (urbs : ℕ → Option UrbRef) (urb : Urb)
    (h : ∀ j < n, ∃ urb, allocQueueUrb host req desc offset j = .ok (some urb)) :
    ∃ urbs' urb', allocUrbs host req desc offset (n + todo) 0 urbs urb =
        allocUrbs host req desc offset todo n urbs' urb' ∧
      (∀ j < n, urbs' j = some (.allocated j)) ∧ ∀ j, n ≤ j → urbs' j = urbs j := by
  induction n generalizing todo with
  | zero => exact ⟨urbs, urb, by rw [Nat.zero_add], nofun, fun _ _ => rfl⟩
  | succ n ih =>
    obtain ⟨urbs', urb', heq, hbuilt, hrest⟩ := ih (todo + 1) fun j hj => h j (by omega)
    obtain ⟨urbN, hN⟩ := h n (Nat.lt_succ_self n)
    refine ⟨Function.update urbs' n (some (.allocated n)), urbN, ?_, fun j hj => ?_, fun j hj => ?_⟩
    · rw [show n + 1 + todo = n + (todo + 1) by omega, heq, allocUrbs, hN]
    · by_cases hjn : j = n
      · subst hjn
        exact Function.update_self _ _ _
      · rw [Function.update_of_ne hjn]
        exact hbuilt j (by omega)
    · rw [Function.update_of_ne (by omega)]
      exact hrest j (by omega)

/-- Where all allocations succeed, the submission loop starts with an URB in every slot. -/
theorem allocUrbs_spec (urbs : ℕ → Option UrbRef) (urb : Urb)
    (halloc : ∀ j < req.sglen.toNat,
      ∃ urb, allocQueueUrb host req desc offset j = .ok (some urb)) :
    ∃ s, allocUrbs host req desc offset req.sglen.toNat 0 urbs urb =
        submitUrbs host req req.sglen.toNat 0 s ∧
      Submitting req.sglen.toNat 0 s ∧ s.ctx.count = req.iterations * req.sglen := by
  obtain ⟨urbs', urb', heq, hurbs, -⟩ := allocUrbs_reach req.sglen.toNat 0 urbs urb halloc
  rw [Nat.add_zero] at heq
  exact ⟨_, heq, ⟨rfl, rfl, hurbs, rfl, rfl⟩, rfl⟩

/-- With all allocations successful, `test_queue` frees every URB once, whatever fails to be
submitted and however the transfers complete. -/
theorem testQueue_freesOnce (host : QueueHost) (req : QueueRequest)
    (desc : Option EndpointDescriptor) (offset : ℕ) (hpos : 1 ≤ req.sglen.toNat)
    (hle : req.sglen.toNat ≤ maxSglen)
    (halloc : ∀ i < req.sglen.toNat,
      ∃ urb, allocQueueUrb host req desc offset i = .ok (some urb)) :
    QueueFreesOnce host req (testQueue host req desc offset) := by
  have hne : req.sglen ≠ 0 := fun h => by simp [h] at hpos
  by_cases hcheck : (2 ^ 32 - 1) / req.sglen.toNat < req.iterations.toNat
  · rw [testQueue, if_pos (.inr hcheck)]
    exact .inl ⟨hcheck, rfl⟩
  · obtain ⟨s, halloc', hs, hcount⟩ := allocUrbs_spec
      (fun i => (host.stray i).map .stray) ⟨0, 0, []⟩ halloc
    have heq : testQueue host req desc offset = submitUrbs host req req.sglen.toNat 0 s := by
      rw [testQueue, if_neg (not_or.mpr ⟨hne, hcheck⟩), if_neg (not_lt.mpr hle), halloc']
    rcases submitUrbs_spec host hs (Nat.zero_add _) rfl hle hpos with
      ⟨-, hneg, hret⟩ | ⟨t, hqueued, hown, hflight, hcount', hok⟩
    · rw [heq, hret]
      exact .inr ⟨hneg, .refl _⟩
    · have hstart : t.ctx.pending.toNat ≤ t.ctx.count.toNat ∨ t.ctx.count = 0 := by
        by_cases hiter : req.iterations = 0
        · refine .inr (hcount'.trans (hcount.trans ?_))
          rw [hiter]
          exact BitVec.zero_mul
        · exact .inl (bounded_testQueue (heq.trans hqueued) hiter).1.le
      rw [heq, hqueued]
      exact ⟨hok rfl, fun es u hrun =>
        ⟨hown.freesOnce hflight hrun, hown.run_le hle hstart hrun⟩⟩

/-- Three URBs, of which the last cannot be submitted. -/
def lastUnsubmitted : QueueHost := { willingHost with submit := fun i => if i < 2 then 0 else -28 }

theorem testQueue_freesOnce_lastUnsubmitted :
    QueueFreesOnce lastUnsubmitted ⟨4, 3, 512⟩
      (testQueue lastUnsubmitted ⟨4, 3, 512⟩ none 0) :=
  testQueue_freesOnce _ _ _ _ (by decide) (by decide) fun i _ => ⟨⟨0, 512, []⟩, rfl⟩

/-! ## The exit for failures -/

section

variable (host : QueueHost) (req : QueueRequest) (desc : Option EndpointDescriptor) (offset : ℕ)

/-- The slots of `urbs` that the allocation loop assigns, from slot `i` on. -/
def assignedSlots : ℕ → ℕ → List ℕ
  | 0, _ => []
  | todo + 1, i =>
    match allocQueueUrb host req desc offset i with
    | .error _ => []
    | .ok none => [i]
    | .ok (some _) => i :: assignedSlots todo (i + 1)

/-- Those that it assigns an URB. -/
def builtSlots : ℕ → ℕ → List ℕ
  | 0, _ => []
  | todo + 1, i =>
    match allocQueueUrb host req desc offset i with
    | .ok (some _) => i :: builtSlots todo (i + 1)
    | _ => []

/-- The allocation for slot `k` fails, the first to do so. -/
def FailsAt (k : ℕ) : Prop :=
  (∀ j < k, ∃ urb, allocQueueUrb host req desc offset j = .ok (some urb)) ∧
    allocQueueUrb host req desc offset k = .ok none

/-- The slots that the exit reads were assigned, and it frees the URBs there are. -/
structure FailExitClean (read : List ℕ) (freed : List UrbRef) : Prop where
  reads : ∀ i ∈ read, i ∈ assignedSlots host req desc offset req.sglen.toNat 0
  frees : freed.Perm ((builtSlots host req desc offset req.sglen.toNat 0).map .allocated)

end

theorem slots_reach (n todo : ℕ)
    (h : ∀ j < n, ∃ urb, allocQueueUrb host req desc offset j = .ok (some urb)) :
    assignedSlots host req desc offset (n + todo) 0 =
        List.range n ++ assignedSlots host req desc offset todo n ∧
      builtSlots host req desc offset (n + todo) 0 =
        List.range n ++ builtSlots host req desc offset todo n := by
  induction n generalizing todo with
  | zero => simp
  | succ n ih =>
    obtain ⟨hassigned, hbuilt⟩ := ih (todo + 1) fun j hj => h j (by omega)
    obtain ⟨urbN, hN⟩ := h n (Nat.lt_succ_self n)
    rw [show n + 1 + todo = n + (todo + 1) by omega, hassigned, hbuilt, assignedSlots, builtSlots,
      hN, List.range_succ, List.append_assoc, List.append_assoc]
    exact ⟨rfl, rfl⟩

/-- The allocations succeed, or one is the first to fail, or to stop the kernel. -/
theorem alloc_cases (host : QueueHost) (req : QueueRequest) (desc : Option EndpointDescriptor)
    (offset n : ℕ) :
    (∀ j < n, ∃ urb, allocQueueUrb host req desc offset j = .ok (some urb)) ∨
      ∃ k < n, FailsAt host req desc offset k ∨
        (∀ j < k, ∃ urb, allocQueueUrb host req desc offset j = .ok (some urb)) ∧
          ∃ f, allocQueueUrb host req desc offset k = .error f := by
  induction n with
  | zero => exact .inl nofun
  | succ n ih =>
    rcases ih with hall | ⟨k, hk, hstop⟩
    · cases hn : allocQueueUrb host req desc offset n with
      | error f => exact .inr ⟨n, Nat.lt_succ_self n, .inr ⟨hall, f, hn⟩⟩
      | ok o =>
        cases o with
        | none => exact .inr ⟨n, Nat.lt_succ_self n, .inl ⟨hall, hn⟩⟩
        | some urb =>
          refine .inl fun j hj => ?_
          rcases Nat.lt_succ_iff_lt_or_eq.mp hj with hlt | rfl
          · exact hall j hlt
          · exact ⟨urb, hn⟩
    · exact .inr ⟨k, by omega, hstop⟩

theorem FailsAt.not_built {j k : ℕ} (h : FailsAt host req desc offset k)
    (hj : ∀ i < j, ∃ urb, allocQueueUrb host req desc offset i = .ok (some urb)) : j ≤ k := by
  by_contra hlt
  obtain ⟨urb, hurb⟩ := hj k (by omega)
  exact absurd (h.2.symm.trans hurb) nofun

/-- The exit reads slots that were not assigned exactly when the failure is not in the last. -/
theorem failExit_of_failsAt {k : ℕ} (h : FailsAt host req desc offset k)
    (hk : k < req.sglen.toNat) {urbs : ℕ → Option UrbRef} {urb : Urb} {status : ℤ}
    {read : List ℕ} {freed : List UrbRef}
    (hret : allocUrbs host req desc offset req.sglen.toNat 0 urbs urb =
      .returned status read freed) :
    FailExitClean host req desc offset read freed ↔ k + 1 = req.sglen.toNat := by
  obtain ⟨todo, htodo⟩ : ∃ todo, req.sglen.toNat = k + (todo + 1) :=
    ⟨req.sglen.toNat - (k + 1), by omega⟩
  obtain ⟨urbs', urb', heq, hbuilt, -⟩ := allocUrbs_reach k (todo + 1) urbs urb h.1
  obtain ⟨hassigned, hslots⟩ := slots_reach k (todo + 1) h.1
  rw [← htodo, assignedSlots, h.2, ← List.range_succ] at hassigned
  rw [← htodo, builtSlots, h.2, List.append_nil] at hslots
  rw [← htodo, allocUrbs, h.2] at heq
  dsimp only at heq
  rw [failExit_eq] at heq
  obtain ⟨-, rfl, rfl⟩ := Setup.returned.inj (hret.symm.trans heq)
  constructor
  · intro hclean
    by_contra hne
    have hread := hclean.reads (k + 1) (List.mem_range.mpr (by omega))
    rw [hassigned, List.mem_range] at hread
    omega
  · intro hlast
    refine ⟨fun i hi => ?_, ?_⟩
    · rw [hassigned, Nat.succ_eq_add_one, hlast]
      exact hi
    · -- The slot that failed is `NULL`, and those before it have their URBs.
      have hkept : ∀ i < k, Function.update urbs' k none i = some (.allocated i) := fun i hi =>
        (Function.update_of_ne hi.ne _ _).trans (hbuilt i hi)
      rw [hslots, ← hlast, freeUrbs, List.range_succ, List.filterMap_append,
        List.filterMap_cons_none (Function.update_self k none urbs'), List.filterMap_nil,
        List.append_nil]
      exact .of_eq (freeUrbs_allocated hkept)

/-- The exit of `test_queue` for failures frees what was allocated, and reads no slot that was
not assigned, exactly when no allocation fails before that for the last slot. -/
theorem failExit_clean_iff (host : QueueHost) (req : QueueRequest)
    (desc : Option EndpointDescriptor) (offset : ℕ) (hne : req.sglen ≠ 0)
    (hiter : req.iterations.toNat ≤ (2 ^ 32 - 1) / req.sglen.toNat)
    (hle : req.sglen.toNat ≤ maxSglen) {status : ℤ} {read : List ℕ} {freed : List UrbRef}
    (hret : testQueue host req desc offset = .returned status read freed) :
    FailExitClean host req desc offset read freed ↔
      ∀ k, k + 1 < req.sglen.toNat → ¬FailsAt host req desc offset k := by
  have hpos : 0 < req.sglen.toNat := Nat.pos_of_ne_zero fun h => hne (BitVec.eq_of_toNat_eq h)
  rw [testQueue, if_neg (not_or.mpr ⟨hne, not_lt.mpr hiter⟩), if_neg (not_lt.mpr hle)] at hret
  rcases alloc_cases host req desc offset req.sglen.toNat with
    hall | ⟨k, hk, hfails | ⟨hbefore, f, hf⟩⟩
  · -- The first submission failed.
    refine iff_of_true ?_ fun k hk hfails => absurd (hfails.not_built hall) (by omega)
    obtain ⟨hassigned, hbuilt⟩ := slots_reach req.sglen.toNat 0 hall
    rw [assignedSlots, Nat.add_zero, List.append_nil] at hassigned
    rw [builtSlots, Nat.add_zero, List.append_nil] at hbuilt
    obtain ⟨s, heq, hs, -⟩ := allocUrbs_spec
      (fun i => (host.stray i).map .stray) ⟨0, 0, []⟩ hall
    rw [heq] at hret
    rcases submitUrbs_spec host hs (Nat.zero_add _) rfl hle hpos with
      ⟨-, -, hfirst⟩ | ⟨t, hqueued, -⟩
    · obtain ⟨-, rfl, rfl⟩ := Setup.returned.inj (hret.symm.trans hfirst)
      exact ⟨fun i hi => hassigned ▸ hi, hbuilt ▸ .refl _⟩
    · cases hret.symm.trans hqueued
  · rw [failExit_of_failsAt hfails hk hret]
    constructor
    · intro hlast j hj hfails'
      have hle := hfails'.not_built hfails.1
      have hge := hfails.not_built hfails'.1
      omega
    · intro hnone
      by_contra hlast
      exact hnone k (by omega) hfails
  · obtain ⟨todo, htodo⟩ : ∃ todo, req.sglen.toNat = k + (todo + 1) :=
      ⟨req.sglen.toNat - (k + 1), by omega⟩
    obtain ⟨urbs', urb', heq, -⟩ := allocUrbs_reach k (todo + 1)
      (fun i => (host.stray i).map .stray) ⟨0, 0, []⟩ hbefore
    rw [← htodo, allocUrbs, hf] at heq
    cases hret.symm.trans heq

/-- The host has no memory for slot `k`, and the array holds something from before. -/
def failingAt (k : ℕ) : QueueHost :=
  { willingHost with
    allocUrb := fun i => i ≠ k
    stray := fun _ => some 0xFFFF888012345678 }

theorem failExit_clean_iff_last :
    FailExitClean (failingAt 1) ⟨1, 2, 512⟩ none 0 [0, 1] [.allocated 0] := by
  have hret : testQueue (failingAt 1) ⟨1, 2, 512⟩ none 0 =
      .returned (-ENOMEM) [0, 1] [.allocated 0] := rfl
  refine (failExit_clean_iff (failingAt 1) ⟨1, 2, 512⟩ none 0 (by decide) (by decide) (by decide)
    hret).mpr fun k hk hfails => ?_
  obtain rfl : k = 0 := by
    have hk : k + 1 < 2 := hk
    omega
  exact absurd hfails.2 nofun

/-- When the first of two allocations fails, what the second slot held before is freed. -/
theorem failExit_frees_stray :
    testQueue (failingAt 0) ⟨1, 2, 512⟩ none 0 =
        .returned (-ENOMEM) [0, 1] [.stray 0xFFFF888012345678] ∧
      ¬FailExitClean (failingAt 0) ⟨1, 2, 512⟩ none 0 [0, 1] [.stray 0xFFFF888012345678] := by
  refine ⟨rfl, fun h => ?_⟩
  exact absurd (h.reads 1 (by decide)) (by decide)

end FuzzUSB.Usbtest
