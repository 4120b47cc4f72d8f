import FuzzUSB.DummyHcdOrder
import Mathlib.Algebra.Order.BigOperators.Group.Finset
import Mathlib.Data.Fintype.Basic

/-!
# The queues of the gadget

Requests of a gadget driver are queued at an endpoint and given back by several functions, each
of which drops the lock for the completion callback. A step is what one thread does with the
lock held, with the call of the callback behind it.
-/

namespace FuzzUSB.DummyHcd.Udc
open Transition ByteFlow CLayout

/-- `DUMMY_ENDPOINTS` -/
def dummyEndpoints : ℕ := 31

abbrev EpIdx := Fin dummyEndpoints

instance : NeZero dummyEndpoints := ⟨by decide⟩

/-- `FIFO_SIZE` -/
def fifoSize : ℕ := 64

def eConnReset : ℤ := 104

def usbDirIn : Byte := 0x80

/-- `dum->fifo_req` has this number, and the requests of the gadget driver have others. -/
def fifoReq : ℕ := 0

/-- `struct dummy` -/
structure Dummy where
  reqs : ℕ → Request
  /-- `_req->complete` is set. -/
  hasComplete : ℕ → Bool
  queue : EpIdx → List ℕ
  /-- `bEndpointAddress` of the descriptor. -/
  desc : EpIdx → Option Byte
  usbEp : EpIdx → Endpoint
  driver : Bool
  isEnabled : Bool

/-- What is left to do in a thread when a callback returns. -/
inductive Frame
  | callback (r : ℕ)
  /-- `nuke` of the first endpoint goes on, and the others follow. -/
  | nuke (eps : List EpIdx)
  | transfer (streamEnEp : BitVec 32) (ep : EpIdx) (t : DummyHcd.State)

/-- What a step has done: the request that it took for a queue, and the one that it gave
back. -/
structure Outcome where
  dum : Dummy
  accepted : Option ℕ
  given : Option ℕ
  frames : List Frame

namespace Dummy

variable (d : Dummy)

/-- `list_empty(&req->queue)` -/
def unlinked (r : ℕ) : Bool := decide (∀ ep, r ∉ d.queue ep)

def listAddTail (ep : EpIdx) (r : ℕ) : Dummy :=
  { d with queue := Function.update d.queue ep (d.queue ep ++ [r]) }

/-- `list_del_init` -/
def listDel (ep : EpIdx) (r : ℕ) : Dummy :=
  { d with queue := Function.update d.queue ep ((d.queue ep).erase r) }

def setReq (r : ℕ) (req : Request) : Dummy := { d with reqs := Function.update d.reqs r req }

def setStatus (r : ℕ) (status : ℤ) : Dummy := d.setReq r { d.reqs r with status := status }

/-- The descriptor is of an IN endpoint. -/
def isIn (ep : EpIdx) : Bool := (d.desc ep).any fun address => address &&& usbDirIn ≠ 0

/-- The emulated FIFO takes the data of a request. -/
def fillFifo (r : ℕ) : Dummy :=
  d.setReq fifoReq { d.reqs r with
    buf := copy (d.reqs fifoReq).buf 0 (d.reqs r).buf 0 (d.reqs r).length }

/-- `dummy_queue`, with what it gives back. -/
def dummyQueue (ep : EpIdx) (r : ℕ) : ℤ × Dummy × Option ℕ :=
  if !d.unlinked r || !d.hasComplete r then (-eInval, d, none)
  else if d.desc ep = none ∧ ep ≠ 0 then (-eInval, d, none)
  else if !d.driver || !d.isEnabled then (-eShutdown, d, none)
  else
    let d := d.setReq r { d.reqs r with status := -eInProgress, actual := 0 }
    if d.isIn ep && d.unlinked fifoReq && (d.queue ep).isEmpty &&
        (d.reqs r).length ≤ fifoSize then
      let d := (d.fillFifo r).listAddTail ep fifoReq
      (0, d.setReq r { d.reqs r with actual := (d.reqs r).length, status := 0 }, some r)
    else (0, d.listAddTail ep r, none)

/-- `dummy_dequeue`, with what it gives back. -/
def dummyDequeue (ep : EpIdx) (r : ℕ) : ℤ × Dummy × Option ℕ :=
  if !d.driver then (-eShutdown, d, none)
  else if r ∈ d.queue ep then (0, (d.listDel ep r).setStatus r (-eConnReset), some r)
  else (-eInval, d, none)

/-- The first request of an endpoint is unlinked and given back with a status. -/
def giveFirst (ep : EpIdx) (status : ℤ) : Option (Dummy × ℕ) :=
  (d.queue ep).head?.map fun r => ((d.listDel ep r).setStatus r status, r)

/-- `nuke` of one endpoint after the other, up to the next request that is given back. -/
def nuke : List EpIdx → Outcome
  | [] => ⟨d, none, none, []⟩
  | ep :: eps =>
    match d.giveFirst ep (-eShutdown) with
    | some (d, r) => ⟨d, none, some r, [.nuke (ep :: eps)]⟩
    | none => nuke eps

/-- `dummy_disable` -/
def dummyDisable (ep : EpIdx) : Outcome :=
  if d.desc ep = none ∨ ep = 0 then ⟨d, none, none, []⟩
  else nuke { d with desc := Function.update d.desc ep none } [ep]

def stopActivity : Outcome := d.nuke (List.finRange dummyEndpoints)

/-- `dummy_timer` flushes a stale request of endpoint 0. -/
def flushStale : Outcome :=
  match d.giveFirst 0 (-eOverflow) with
  | some (d, r) => ⟨d, none, some r, []⟩
  | none => ⟨d, none, none, []⟩

end Dummy

/-- The loop of `transfer`, up to a request that it unlinks or to its end, if it comes so far
in `rounds`. -/
def scan (streamEnEp : BitVec 32) (ep : Endpoint) :
    (rounds : ℕ) → DummyHcd.State → Option (DummyHcd.State × Option ℕ)
  | 0, _ => none
  | rounds + 1, t =>
    match t.rest with
    | [] => some (t, none)
    | r :: rest =>
      let u := t.visit streamEnEp ep r rest ⟨fun _ => true, 0⟩
      if r ∈ u.queue then scan streamEnEp ep rounds u else some (u, some r)

/-- `transfer` from the head of the queue. -/
def Dummy.transferTop (d : Dummy) (streamEnEp : BitVec 32) (ep : EpIdx) (t : DummyHcd.State)
    (rounds : ℕ) : Option Outcome :=
  (scan streamEnEp (d.usbEp ep) rounds
    { t with reqs := d.reqs, before := [], rest := d.queue ep }).map fun r =>
      { dum := { d with reqs := r.1.reqs, queue := Function.update d.queue ep r.1.queue }
        accepted := none
        given := r.2
        frames := if r.2.isSome then [.transfer streamEnEp ep r.1] else [] }

/-! ## Any number of threads -/

inductive Call
  | queue (ep : EpIdx) (r : ℕ)
  | dequeue (ep : EpIdx) (r : ℕ)
  | disable (ep : EpIdx)
  | stopActivity
  | transfer (streamEnEp : BitVec 32) (ep : EpIdx) (urb : Urb) (limit : BitVec 32) (rounds : ℕ)
  | flushStale

def Call.run (d : Dummy) : Call → Option Outcome
  | .queue ep r =>
    -- The gadget driver does not have the request of the FIFO.
    if r = fifoReq then none
    else
      let (ret, d, given) := d.dummyQueue ep r
      some ⟨d, if ret = 0 then some r else none, given, []⟩
  | .dequeue ep r =>
    if r = fifoReq then none
    else
      let (_, d, given) := d.dummyDequeue ep r
      some ⟨d, none, given, []⟩
  | .disable ep => some (d.dummyDisable ep)
  | .stopActivity => some d.stopActivity
  | .transfer streamEnEp ep urb limit rounds =>
    d.transferTop streamEnEp ep (.start urb d.reqs 0 limit.toInt (-eInProgress)) rounds
  | .flushStale => some d.flushStale

/-- What a thread does when it goes on. -/
def Frame.run (d : Dummy) (rounds : ℕ) : Frame → Option Outcome
  | .callback _ => some ⟨d, none, none, []⟩
  | .nuke eps => some (d.nuke eps)
  | .transfer streamEnEp ep t =>
    if t.status ≠ -eInProgress then some ⟨d, none, none, []⟩
    else d.transferTop streamEnEp ep t rounds

structure State where
  dum : Dummy
  threads : ℕ → List Frame
  /-- How often `dummy_queue` has accepted a request, and how often it was given back. -/
  accepted : ℕ → ℕ
  givenBack : ℕ → ℕ
  /-- What the last step gave back. -/
  last : Option ℕ

inductive Event
  /-- A thread that does nothing else, or is in a callback, calls a function. -/
  | call (thread : ℕ) (c : Call)
  /-- A thread returns from a callback, or goes on behind one. -/
  | resume (thread : ℕ) (rounds : ℕ)
  /-- The gadget driver prepares a request that it has. -/
  | prepare (r : ℕ) (req : Request) (complete : Bool)
  /-- `dummy_enable` -/
  | enable (ep : EpIdx) (bEndpointAddress : Byte) (usbEp : Endpoint)
  /-- A driver is bound or unbound, and the port changes. -/
  | port (driver isEnabled : Bool)

/-- One if the request is `r`. -/
def times (g : Option ℕ) (r : ℕ) : ℕ := if g = some r then 1 else 0

namespace State

/-- Behind `init_dummy_udc_hw`. -/
def start (reqs : ℕ → Request) (hasComplete : ℕ → Bool) (usbEp : EpIdx → Endpoint)
    (driver isEnabled : Bool) : State where
  dum := ⟨reqs, hasComplete, fun _ => [], fun _ => none, usbEp, driver, isEnabled⟩
  threads _ := []
  accepted _ := 0
  givenBack _ := 0
  last := none

/-- The frames of the callback of a request. `fifo_complete` does nothing. -/
def callbacks : Option ℕ → List Frame
  | some r => if r = fifoReq then [] else [.callback r]
  | none => []

/-- A thread has made a step, and `below` is what it did before. -/
def after (s : State) (thread : ℕ) (below : List Frame) (o : Outcome) : State where
  dum := o.dum
  threads := Function.update s.threads thread (callbacks o.given ++ o.frames ++ below)
  accepted r := s.accepted r + times o.accepted r
  givenBack r := s.givenBack r + times o.given r
  last := o.given

end State

def step (s : State) : Event → Option State
  | .call thread c =>
    match s.threads thread with
    | [] => (c.run s.dum).map (s.after thread [])
    | .callback r :: below => (c.run s.dum).map (s.after thread (.callback r :: below))
    | _ => none
  | .resume thread rounds =>
    match s.threads thread with
    | [] => none
    | frame :: below => (frame.run s.dum rounds).map (s.after thread below)
  | .prepare r req complete =>
    if r ≠ fifoReq ∧ s.dum.unlinked r then
      some { s with
        dum := { s.dum.setReq r req with
          hasComplete := Function.update s.dum.hasComplete r complete }
        last := none }
    else none
  | .enable ep bEndpointAddress usbEp =>
    if ep ≠ 0 ∧ s.dum.desc ep = none ∧ s.dum.driver ∧ s.dum.isEnabled then
      some { s with
        dum := { s.dum with
          desc := Function.update s.dum.desc ep (some bEndpointAddress)
          usbEp := Function.update s.dum.usbEp ep usbEp }
        last := none }
    else none
  | .port driver isEnabled =>
    some { s with dum := { s.dum with driver, isEnabled }, last := none }

/-! ## The property -/

/-- Every request is given back as often as it was accepted, or once less while it is at one
endpoint. No queue has a request twice, and what is given back is at no endpoint. -/
structure CompletedOnce (s : State) : Prop where
  once : ∀ r, r ≠ fifoReq →
    (s.accepted r = s.givenBack r ∧ ∀ ep, r ∉ s.dum.queue ep) ∨
      (s.accepted r = s.givenBack r + 1 ∧ ∃! ep, r ∈ s.dum.queue ep)
  nodup : ∀ ep, (s.dum.queue ep).Nodup
  unlinked : ∀ r, s.last = some r → ∀ ep, r ∉ s.dum.queue ep
  fifo : ∀ ep ep', fifoReq ∈ s.dum.queue ep → fifoReq ∈ s.dum.queue ep' → ep = ep'

/-! ## How often a request is queued -/

/-- How often a request is in the queues. -/
@[irreducible] def linked (queue : EpIdx → List ℕ) (r : ℕ) : ℕ := ∑ ep, (queue ep).count r

section

variable {queue : EpIdx → List ℕ} {r : ℕ}

theorem linked_update (queue : EpIdx → List ℕ) (ep : EpIdx) (l : List ℕ) (r : ℕ) :
    linked (Function.update queue ep l) r + (queue ep).count r =
      linked queue r + l.count r := by
  have hrest : ∑ ep' ∈ Finset.univ.erase ep, (Function.update queue ep l ep').count r =
      ∑ ep' ∈ Finset.univ.erase ep, (queue ep').count r :=
    Finset.sum_congr rfl fun ep' hep' => by
      rw [Function.update_of_ne (Finset.ne_of_mem_erase hep')]
  have hnew := Finset.add_sum_erase Finset.univ
    (fun ep' => (Function.update queue ep l ep').count r) (Finset.mem_univ ep)
  have hold := Finset.add_sum_erase Finset.univ
    (fun ep' => (queue ep').count r) (Finset.mem_univ ep)
  simp only [Function.update_self] at hnew
  unfold linked
  omega

theorem linked_eq_zero : linked queue r = 0 ↔ ∀ ep, r ∉ queue ep := by
  simp [linked, Finset.sum_eq_zero_iff, List.count_eq_zero]

theorem count_le_linked (ep : EpIdx) : (queue ep).count r ≤ linked queue r := by
  rw [linked]
  exact Finset.single_le_sum (f := fun ep => (queue ep).count r) (fun _ _ => Nat.zero_le _)
    (Finset.mem_univ ep)

theorem eq_of_linked_le_one (h : linked queue r ≤ 1) {ep ep' : EpIdx} (hr : r ∈ queue ep)
    (hr' : r ∈ queue ep') : ep = ep' := by
  by_contra hne
  have hpair : ∑ e ∈ {ep, ep'}, (queue e).count r ≤ linked queue r := by
    rw [linked]
    exact Finset.sum_le_sum_of_subset (Finset.subset_univ _)
  rw [Finset.sum_pair hne] at hpair
  have := List.count_pos_iff.mpr hr
  have := List.count_pos_iff.mpr hr'
  omega

theorem existsUnique_of_linked_eq_one (h : linked queue r = 1) : ∃! ep, r ∈ queue ep := by
  have hex : ∃ ep, r ∈ queue ep := by
    by_contra! hno
    have := linked_eq_zero.mpr hno
    omega
  obtain ⟨ep, hep⟩ := hex
  exact ⟨ep, hep, fun ep' hep' => eq_of_linked_le_one h.le hep' hep⟩

@[simp] theorem times_none (r : ℕ) : times none r = 0 := rfl

theorem times_self (r : ℕ) : times (some r) r = 1 := if_pos rfl

theorem linked_erase {ep : EpIdx} (hr : r ∈ queue ep) (r' : ℕ) :
    linked (Function.update queue ep ((queue ep).erase r)) r' + times (some r) r' =
      linked queue r' := by
  have hupdate := linked_update queue ep ((queue ep).erase r) r'
  by_cases heq : r = r'
  · subst heq
    have hpos := List.count_pos_iff.mpr hr
    rw [List.count_erase_self] at hupdate
    rw [times_self]
    omega
  · have hzero : times (some r) r' = 0 := if_neg (by simpa using heq)
    rw [List.count_erase_of_ne (Ne.symm heq)] at hupdate
    omega

theorem linked_concat (queue : EpIdx → List ℕ) (ep : EpIdx) (r r' : ℕ) :
    linked (Function.update queue ep (queue ep ++ [r])) r' =
      linked queue r' + times (some r) r' := by
  have hupdate := linked_update queue ep (queue ep ++ [r]) r'
  have hcount : (queue ep ++ [r]).count r' = (queue ep).count r' + times (some r) r' := by
    rw [List.count_append, List.count_singleton, times]
    simp
  omega

end

/-! ## What a step does to the queues -/

/-- A request is taken from its queue and given back, or put into one, or the request of the
FIFO is put into one for a request that is given back. -/
inductive Moves (d : Dummy) (o : Outcome) : Prop
  | none (hqueue : o.dum.queue = d.queue) (haccepted : o.accepted = none)
      (hgiven : o.given = none)
  | gives (ep : EpIdx) (r : ℕ) (hr : r ∈ d.queue ep)
      (hqueue : o.dum.queue = Function.update d.queue ep ((d.queue ep).erase r))
      (haccepted : o.accepted = none) (hgiven : o.given = some r)
  | takes (ep : EpIdx) (r : ℕ) (hr : linked d.queue r = 0)
      (hqueue : o.dum.queue = Function.update d.queue ep (d.queue ep ++ [r]))
      (haccepted : o.accepted = some r) (hgiven : o.given = none)
  | fifo (ep : EpIdx) (r : ℕ) (hr : linked d.queue r = 0) (hne : r ≠ fifoReq)
      (hfifo : linked d.queue fifoReq = 0)
      (hqueue : o.dum.queue = Function.update d.queue ep (d.queue ep ++ [fifoReq]))
      (haccepted : o.accepted = some r) (hgiven : o.given = some r)

section

variable {d : Dummy} {o : Outcome}

theorem unlinked_iff {r : ℕ} : d.unlinked r = true ↔ linked d.queue r = 0 := by
  rw [linked_eq_zero, Dummy.unlinked, decide_eq_true_eq]

/-- No request is queued twice, and none that was given back is queued. The requests of the
driver are accounted for. -/
theorem Moves.balanced (h : Moves d o) (hd : ∀ r, linked d.queue r ≤ 1) :
    (∀ r, linked o.dum.queue r ≤ 1) ∧
      (∀ r, o.given = some r → linked o.dum.queue r = 0) ∧
      ∀ r, r ≠ fifoReq →
        linked o.dum.queue r + times o.given r = linked d.queue r + times o.accepted r := by
  cases h with
  | none hqueue haccepted hgiven =>
    rw [hqueue, haccepted, hgiven]
    exact ⟨hd, nofun, fun r _ => rfl⟩
  | gives ep r hr hqueue haccepted hgiven =>
    have hcount := linked_erase hr
    rw [← hqueue] at hcount
    rw [haccepted, hgiven]
    refine ⟨fun r' => ?_, fun r' hr' => ?_, fun r' _ => by rw [hcount, times_none, Nat.add_zero]⟩
    · exact (Nat.le.intro (hcount r')).trans (hd r')
    · obtain rfl := Option.some.inj hr'
      have hself := hcount r
      have hone := hd r
      rw [times_self] at hself
      omega
  | takes ep r hr hqueue haccepted hgiven =>
    have hcount := linked_concat d.queue ep r
    rw [← hqueue] at hcount
    rw [haccepted, hgiven]
    refine ⟨fun r' => ?_, nofun, fun r' _ => by rw [hcount, times_none, Nat.add_zero]⟩
    rw [hcount]
    by_cases heq : r = r'
    · rw [← heq, hr, times_self]
    · rw [times, if_neg (by simpa using heq), Nat.add_zero]
      exact hd r'
  | fifo ep r hr hne hfifo hqueue haccepted hgiven =>
    have hcount := linked_concat d.queue ep fifoReq
    rw [← hqueue] at hcount
    have hother (r' : ℕ) (hr' : r' ≠ fifoReq) :
        linked o.dum.queue r' = linked d.queue r' := by
      rw [hcount, times, if_neg (by simpa using hr'.symm), Nat.add_zero]
    rw [haccepted, hgiven]
    refine ⟨fun r' => ?_, fun r' hr' => ?_, fun r' hr' => by rw [hother r' hr']⟩
    · by_cases heq : r' = fifoReq
      · rw [heq, hcount, hfifo, times_self]
      · rw [hother r' heq]
        exact hd r'
    · obtain rfl := Option.some.inj hr'
      rw [hother r hne, hr]

/-- Only the queues matter. -/
theorem Moves.congr {d' : Dummy} (h : Moves d' o) (hqueue : d'.queue = d.queue) : Moves d o := by
  cases h with
  | none hq ha hg => exact .none (hqueue ▸ hq) ha hg
  | gives ep r hr hq ha hg => exact .gives ep r (hqueue ▸ hr) (hqueue ▸ hq) ha hg
  | takes ep r hr hq ha hg => exact .takes ep r (hqueue ▸ hr) (hqueue ▸ hq) ha hg
  | fifo ep r hr hne hf hq ha hg =>
    exact .fifo ep r (hqueue ▸ hr) hne (hqueue ▸ hf) (hqueue ▸ hq) ha hg

theorem idle_moves (d : Dummy) : Moves d ⟨d, none, none, []⟩ := .none rfl rfl rfl

theorem giveFirst_eq_some {ep : EpIdx} {status : ℤ} {d' : Dummy} {r : ℕ}
    (h : d.giveFirst ep status = some (d', r)) :
    r ∈ d.queue ep ∧ d'.queue = Function.update d.queue ep ((d.queue ep).erase r) := by
  obtain ⟨r', hhead, heq⟩ := Option.map_eq_some_iff.mp h
  obtain ⟨rfl, rfl⟩ := Prod.mk.inj heq
  exact ⟨List.mem_of_mem_head? hhead, rfl⟩

theorem nuke_moves (d : Dummy) (eps : List EpIdx) : Moves d (d.nuke eps) := by
  induction eps with
  | nil => exact idle_moves d
  | cons ep eps ih =>
    unfold Dummy.nuke
    split
    · next hgive =>
      obtain ⟨hr, hqueue⟩ := giveFirst_eq_some hgive
      exact .gives ep _ hr hqueue rfl rfl
    · exact ih

theorem dummyDisable_moves (d : Dummy) (ep : EpIdx) : Moves d (d.dummyDisable ep) := by
  unfold Dummy.dummyDisable
  split
  · exact idle_moves d
  · exact (nuke_moves _ [ep]).congr rfl

theorem flushStale_moves (d : Dummy) : Moves d d.flushStale := by
  unfold Dummy.flushStale
  split
  · next hgive =>
    obtain ⟨hr, hqueue⟩ := giveFirst_eq_some hgive
    exact .gives 0 _ hr hqueue rfl rfl
  · exact idle_moves d

theorem dummyQueue_moves (d : Dummy) (ep : EpIdx) {r : ℕ} (hne : r ≠ fifoReq) :
    Moves d ⟨(d.dummyQueue ep r).2.1, if (d.dummyQueue ep r).1 = 0 then some r else none,
      (d.dummyQueue ep r).2.2, []⟩ := by
  unfold Dummy.dummyQueue
  split
  · exact .none rfl rfl rfl
  · next hbusy =>
    rw [Bool.or_eq_true, not_or, Bool.not_eq_true', Bool.not_eq_false] at hbusy
    have hr := unlinked_iff.mp hbusy.1
    split
    · exact .none rfl rfl rfl
    · split
      · exact .none rfl rfl rfl
      · simp only
        split
        · next hfifo =>
          simp only [Bool.and_eq_true] at hfifo
          exact .fifo ep r hr hne (unlinked_iff.mp hfifo.1.1.2) rfl rfl rfl
        · exact .takes ep r hr rfl rfl rfl

theorem dummyDequeue_moves (d : Dummy) (ep : EpIdx) (r : ℕ) :
    Moves d ⟨(d.dummyDequeue ep r).2.1, none, (d.dummyDequeue ep r).2.2, []⟩ := by
  unfold Dummy.dummyDequeue
  split
  · exact .none rfl rfl rfl
  · split
    · next hr => exact .gives ep r hr rfl rfl rfl
    · exact .none rfl rfl rfl

/-! ## `transfer` -/

/-- A round keeps the queue, or unlinks the request that it is about. -/
theorem visit_queue (streamEnEp : BitVec 32) (ep : Endpoint) {t : DummyHcd.State} {r : ℕ}
    {rest : List ℕ} (hrest : t.rest = r :: rest) :
    (t.visit streamEnEp ep r rest ⟨fun _ => true, 0⟩).queue = t.queue ∨
      (t.visit streamEnEp ep r rest ⟨fun _ => true, 0⟩).queue = t.before ++ rest := by
  simp only [DummyHcd.State.visit]
  split
  · exact .inl (by simp [DummyHcd.State.queue, hrest])
  · split
    · exact .inl (by simp [DummyHcd.State.queue, hrest])
    · next p _ =>
      obtain ⟨hbefore, -, -⟩ := t.moveSome_queue r p.len
      obtain ⟨hbefore', -, -⟩ := (t.moveSome r p.len).settle_queue r t.urb.hostLen
        (t.reqs r).devLen p.isShort
      rcases DummyHcd.State.conclude_queue ((t.moveSome r p.len).settle r t.urb.hostLen
        (t.reqs r).devLen p.isShort) r rest
        (p.rescan || (!p.isShort && (t.moveSome r p.len).wantsZlp r)) ⟨fun _ => true, 0⟩ with
        ⟨-, hqueue, -⟩ | ⟨hqueue, -⟩
      · left
        rw [hqueue, hbefore', hbefore, DummyHcd.State.queue, hrest]
      · right
        rw [hqueue, hbefore', hbefore]
        simp

theorem scan_queue {streamEnEp : BitVec 32} {ep : Endpoint} {rounds : ℕ} {t u : DummyHcd.State}
    {g : Option ℕ} (hnodup : t.queue.Nodup) (h : scan streamEnEp ep rounds t = some (u, g)) :
    (g = none ∧ u.queue = t.queue) ∨ ∃ r ∈ t.queue, g = some r ∧ u.queue = t.queue.erase r := by
  induction rounds generalizing t with
  | zero => cases h
  | succ rounds ih =>
    simp only [scan] at h
    split at h
    · obtain ⟨rfl, rfl⟩ := Prod.mk.inj (Option.some.inj h)
      exact .inl ⟨rfl, rfl⟩
    · next r rest hrest =>
      have hqueue : t.queue = t.before ++ r :: rest := by rw [DummyHcd.State.queue, hrest]
      have hfresh : r ∉ t.before ++ rest := by
        rw [hqueue, List.nodup_middle] at hnodup
        exact (List.nodup_cons.mp hnodup).1
      have hvisit := visit_queue streamEnEp ep hrest
      split at h
      · next hkept =>
        have hsame := hvisit.resolve_right fun heq => hfresh (heq ▸ hkept)
        rw [← hsame] at hnodup ⊢
        exact ih hnodup h
      · next hgone =>
        obtain ⟨rfl, rfl⟩ := Prod.mk.inj (Option.some.inj h)
        have hmem : r ∈ t.queue := by simp [hqueue]
        have hless := hvisit.resolve_left fun heq => hgone (heq ▸ hmem)
        refine .inr ⟨r, hmem, rfl, ?_⟩
        have hbefore : r ∉ t.before := fun hin => hfresh (List.mem_append_left _ hin)
        rw [hless, hqueue, List.erase_append_right _ hbefore, List.erase_cons_head]

theorem transferTop_moves {streamEnEp : BitVec 32} {ep : EpIdx} {t : DummyHcd.State}
    {rounds : ℕ} (hd : ∀ r, linked d.queue r ≤ 1)
    (h : d.transferTop streamEnEp ep t rounds = some o) : Moves d o := by
  obtain ⟨⟨u, g⟩, hscan, rfl⟩ := Option.map_eq_some_iff.mp h
  have hnodup : (d.queue ep).Nodup := List.nodup_iff_count_le_one.mpr fun r =>
    (count_le_linked ep).trans (hd r)
  rcases scan_queue (by simpa [DummyHcd.State.queue] using hnodup) hscan with
    ⟨rfl, hqueue⟩ | ⟨r, hr, rfl, hqueue⟩
  · have hsame : u.queue = d.queue ep := hqueue
    refine .none ?_ rfl rfl
    simp only [hsame, Function.update_eq_self]
  · exact .gives ep r hr (by simp only [hqueue]; rfl) rfl rfl

/-! ## Steps and runs -/

theorem call_moves {c : Call} (hd : ∀ r, linked d.queue r ≤ 1) (h : c.run d = some o) :
    Moves d o := by
  cases c with
  | queue ep r =>
    simp only [Call.run] at h
    split at h
    · cases h
    · next hne => exact Option.some.inj h ▸ dummyQueue_moves d ep hne
  | dequeue ep r =>
    simp only [Call.run] at h
    split at h
    · cases h
    · exact Option.some.inj h ▸ dummyDequeue_moves d ep r
  | disable ep => exact Option.some.inj h ▸ dummyDisable_moves d ep
  | stopActivity => exact Option.some.inj h ▸ nuke_moves d _
  | transfer => exact transferTop_moves hd h
  | flushStale => exact Option.some.inj h ▸ flushStale_moves d

theorem frame_moves {f : Frame} {rounds : ℕ} (hd : ∀ r, linked d.queue r ≤ 1)
    (h : f.run d rounds = some o) : Moves d o := by
  cases f with
  | callback => exact Option.some.inj h ▸ idle_moves d
  | nuke eps => exact Option.some.inj h ▸ nuke_moves d eps
  | transfer =>
    simp only [Frame.run] at h
    split at h
    · exact Option.some.inj h ▸ idle_moves d
    · exact transferTop_moves hd h

end

/-- What a step may do: a thread moves a request, or the queues stay as they are. -/
inductive StepTo (s : State) : State → Prop
  | moves {thread below o} (h : (∀ r, linked s.dum.queue r ≤ 1) → Moves s.dum o) :
      StepTo s (s.after thread below o)
  | other {dum} (hqueue : dum.queue = s.dum.queue) : StepTo s { s with dum, last := none }

theorem step_cases {s t : State} {e : Event} (h : step s e = some t) : StepTo s t := by
  cases e with
  | call thread c =>
    simp only [step] at h
    split at h
    · obtain ⟨o, ho, rfl⟩ := Option.map_eq_some_iff.mp h
      exact .moves fun hd => call_moves hd ho
    · obtain ⟨o, ho, rfl⟩ := Option.map_eq_some_iff.mp h
      exact .moves fun hd => call_moves hd ho
    · cases h
  | resume thread rounds =>
    simp only [step] at h
    split at h
    · cases h
    · obtain ⟨o, ho, rfl⟩ := Option.map_eq_some_iff.mp h
      exact .moves fun hd => frame_moves hd ho
  | prepare r req complete =>
    obtain ⟨-, rfl⟩ := Option.ite_some_none_eq_some.mp h
    exact .other rfl
  | enable ep bEndpointAddress usbEp =>
    obtain ⟨-, rfl⟩ := Option.ite_some_none_eq_some.mp h
    exact .other rfl
  | port driver isEnabled =>
    obtain rfl := Option.some.inj h
    exact .other rfl

/-- The accounts of the requests. -/
structure Balanced (s : State) : Prop where
  single : ∀ r, linked s.dum.queue r ≤ 1
  last : ∀ r, s.last = some r → linked s.dum.queue r = 0
  balance : ∀ r, r ≠ fifoReq → s.accepted r = s.givenBack r + linked s.dum.queue r

theorem Balanced.step {s t : State} {e : Event} (hs : Balanced s) (h : step s e = some t) :
    Balanced t := by
  cases step_cases h with
  | moves hmoves =>
    obtain ⟨hsingle, hlast, hbalance⟩ := (hmoves hs.single).balanced hs.single
    refine ⟨hsingle, hlast, fun r hr => ?_⟩
    have hbefore := hs.balance r hr
    have hmoved := hbalance r hr
    simp only [State.after]
    omega
  | other hqueue =>
    exact ⟨hqueue ▸ hs.single, nofun, fun r hr => hqueue ▸ hs.balance r hr⟩

theorem Balanced.completedOnce {s : State} (h : Balanced s) : CompletedOnce s where
  once r hr := by
    have hbalance := h.balance r hr
    rcases Nat.le_one_iff_eq_zero_or_eq_one.mp (h.single r) with hzero | hone
    · exact .inl ⟨by omega, linked_eq_zero.mp hzero⟩
    · exact .inr ⟨by omega, existsUnique_of_linked_eq_one hone⟩
  nodup ep := List.nodup_iff_count_le_one.mpr fun r => (count_le_linked ep).trans (h.single r)
  unlinked r hr := linked_eq_zero.mp (h.last r hr)
  fifo _ _ := eq_of_linked_le_one (h.single fifoReq)

/-- In every run, every request of the gadget driver is completed once. -/
theorem completedOnce_always (reqs : ℕ → Request) (hasComplete : ℕ → Bool)
    (usbEp : EpIdx → Endpoint) (driver isEnabled : Bool) (es : List Event) :
    Always step CompletedOnce (.start reqs hasComplete usbEp driver isEnabled) es := by
  have hstart : Balanced (.start reqs hasComplete usbEp driver isEnabled) := by
    have hzero (r : ℕ) : linked (fun _ => []) r = 0 :=
      linked_eq_zero.mpr fun _ => List.not_mem_nil
    exact ⟨fun r => (hzero r).le.trans (Nat.zero_le 1), nofun, fun r _ => by
      simp only [State.start, hzero]⟩
  rw [always_iff]
  intro pre t _ ht
  exact (runs_invariant (fun _ _ _ hs h => hs.step h) hstart ht).completedOnce

end FuzzUSB.DummyHcd.Udc
