import FuzzUSB.Transition
import Mathlib.Data.List.Nodup
import Mathlib.Data.List.Perm.Basic

/-!
# The work queue of the fuzzer

Five stacks of work items. `dequeue` tests for emptiness in one critical section and pops in
a second one, and other procs may come in between.
-/

namespace FuzzUSB.Work
open Transition

/-- `ProgCandidate`. -/
def progCandidate : ℕ := 1

/-- Programs are `P` (`*prog.Prog`), and the information about a call is `I`. -/
structure WorkTriage (P I : Type*) where
  p : P
  call : ℤ
  info : I
  flags : ℕ

structure WorkCandidate (P : Type*) where
  p : P
  flags : ℕ

structure WorkSmash (P : Type*) where
  p : P
  call : ℤ

structure WorkFzUSB (P : Type*) where
  p : P
  call : ℤ

/-- The work types that `enqueue` knows. -/
inductive Item (P I : Type*)
  | triage (w : WorkTriage P I)
  | candidate (w : WorkCandidate P)
  | smash (w : WorkSmash P)
  | fzUSB (w : WorkFzUSB P)

structure WorkQueue (P I : Type*) where
  triageCandidate : List (WorkTriage P I)
  candidate : List (WorkCandidate P)
  triage : List (WorkTriage P I)
  smash : List (WorkSmash P)
  fuzzusb : List (WorkFzUSB P)
  procs : ℕ

variable {P I : Type*}

namespace WorkQueue

/-- `newWorkQueue`. -/
def new (procs : ℕ) : WorkQueue P I := ⟨[], [], [], [], [], procs⟩

def enqueue (wq : WorkQueue P I) : Item P I → WorkQueue P I
  | .triage w =>
    if w.flags &&& progCandidate ≠ 0 then { wq with triageCandidate := wq.triageCandidate ++ [w] }
    else { wq with triage := wq.triage ++ [w] }
  | .candidate w => { wq with candidate := wq.candidate ++ [w] }
  | .smash w => { wq with smash := wq.smash ++ [w] }
  | .fzUSB w => { wq with fuzzusb := wq.fuzzusb ++ [w] }

/-- The first critical section of `dequeue`: there is nothing to do. -/
def isEmpty (wq : WorkQueue P I) : Bool :=
  wq.triageCandidate.length + wq.candidate.length + wq.triage.length + wq.smash.length +
    wq.fuzzusb.length = 0

/-- What the second critical section of `dequeue` returns and whether it asks for candidates,
and the queue it leaves. -/
def pop (wq : WorkQueue P I) : Option (Item P I) × Bool × WorkQueue P I :=
  match wq.fuzzusb.getLast? with
  | some w => (some (.fzUSB w), false, { wq with fuzzusb := wq.fuzzusb.dropLast })
  | none =>
  match wq.triageCandidate.getLast? with
  | some w => (some (.triage w), false, { wq with triageCandidate := wq.triageCandidate.dropLast })
  | none =>
  match wq.candidate.getLast? with
  | some w => (some (.candidate w), wq.candidate.dropLast.length < wq.procs,
      { wq with candidate := wq.candidate.dropLast })
  | none =>
  match wq.triage.getLast? with
  | some w => (some (.triage w), false, { wq with triage := wq.triage.dropLast })
  | none =>
  match wq.smash.getLast? with
  | some w => (some (.smash w), false, { wq with smash := wq.smash.dropLast })
  | none => (none, false, wq)

end WorkQueue

/-! ## The classes of items -/

/-- The classes, the most urgent one first. -/
inductive WorkClass
  | fuzzusb | triageCandidate | candidate | triage | smash
  deriving DecidableEq

namespace WorkClass

def rank : WorkClass → ℕ
  | fuzzusb => 0
  | triageCandidate => 1
  | candidate => 2
  | triage => 3
  | smash => 4

def all : List WorkClass := [fuzzusb, triageCandidate, candidate, triage, smash]

theorem mem_all (c : WorkClass) : c ∈ all := by cases c <;> decide

theorem nodup_all : all.Nodup := by decide

end WorkClass

def Item.workClass : Item P I → WorkClass
  | .triage w => if w.flags &&& progCandidate ≠ 0 then .triageCandidate else .triage
  | .candidate _ => .candidate
  | .smash _ => .smash
  | .fzUSB _ => .fuzzusb

namespace WorkQueue

/-- The stack of a class. -/
def stack (wq : WorkQueue P I) : WorkClass → List (Item P I)
  | .fuzzusb => wq.fuzzusb.map .fzUSB
  | .triageCandidate => wq.triageCandidate.map .triage
  | .candidate => wq.candidate.map .candidate
  | .triage => wq.triage.map .triage
  | .smash => wq.smash.map .smash

/-- What is queued. -/
def items (wq : WorkQueue P I) : List (Item P I) := WorkClass.all.flatMap wq.stack

variable (wq : WorkQueue P I)

theorem enqueue_stack (item : Item P I) (c : WorkClass) :
    (wq.enqueue item).stack c =
      if c = item.workClass then wq.stack c ++ [item] else wq.stack c := by
  cases item with
  | triage w =>
    by_cases hf : w.flags &&& progCandidate ≠ 0 <;> cases c <;>
      simp [enqueue, Item.workClass, hf, stack]
  | candidate w | smash w | fzUSB w => cases c <;> simp [enqueue, Item.workClass, stack]

theorem mem_items {item : Item P I} : item ∈ wq.items ↔ ∃ c, item ∈ wq.stack c := by
  simp [items, WorkClass.mem_all]

theorem isEmpty_iff : wq.isEmpty = true ↔ wq.items = [] := by
  simp [isEmpty, items, WorkClass.all, stack]
  tauto

/-- The pop took `item`, the top of the first stack that is not empty. -/
structure Pops (item : Item P I) (c : WorkClass) : Prop where
  returned : wq.pop.1 = some item
  top : wq.stack c = wq.pop.2.2.stack c ++ [item]
  first : ∀ d, d.rank < c.rank → wq.stack d = []
  others : ∀ d, d ≠ c → wq.pop.2.2.stack d = wq.stack d

theorem pop_spec :
    (wq.items = [] ∧ wq.pop = (none, false, wq)) ∨ ∃ item c, wq.Pops item c := by
  obtain ⟨triageCandidate, candidate, triage, smash, fuzzusb, procs⟩ := wq
  -- A stack is empty, or has a top.
  rcases fuzzusb.eq_nil_or_concat with rfl | ⟨fuzzusb, w, rfl⟩
  case inr =>
    refine .inr ⟨.fzUSB w, .fuzzusb, by simp [pop], by simp [pop, stack], ?_, ?_⟩ <;>
      intro d hd <;> cases d <;> simp_all [pop, stack, WorkClass.rank]
  rcases triageCandidate.eq_nil_or_concat with rfl | ⟨triageCandidate, w, rfl⟩
  case inr =>
    refine .inr ⟨.triage w, .triageCandidate, by simp [pop], by simp [pop, stack], ?_, ?_⟩ <;>
      intro d hd <;> cases d <;> simp_all [pop, stack, WorkClass.rank]
  rcases candidate.eq_nil_or_concat with rfl | ⟨candidate, w, rfl⟩
  case inr =>
    refine .inr ⟨.candidate w, .candidate, by simp [pop], by simp [pop, stack], ?_, ?_⟩ <;>
      intro d hd <;> cases d <;> simp_all [pop, stack, WorkClass.rank]
  rcases triage.eq_nil_or_concat with rfl | ⟨triage, w, rfl⟩
  case inr =>
    refine .inr ⟨.triage w, .triage, by simp [pop], by simp [pop, stack], ?_, ?_⟩ <;>
      intro d hd <;> cases d <;> simp_all [pop, stack, WorkClass.rank]
  rcases smash.eq_nil_or_concat with rfl | ⟨smash, w, rfl⟩
  case inr =>
    refine .inr ⟨.smash w, .smash, by simp [pop], by simp [pop, stack], ?_, ?_⟩ <;>
      intro d hd <;> cases d <;> simp_all [pop, stack, WorkClass.rank]
  exact .inl ⟨by simp [items, WorkClass.all, stack], by simp [pop]⟩

/-- One more element in one part. -/
theorem flatMap_perm {α κ : Type*} {f f' : κ → List α} {c : κ} {x : α} (hc : f' c = f c ++ [x])
    (hother : ∀ d, d ≠ c → f' d = f d) {cs : List κ} (hcs : cs.Nodup) (hmem : c ∈ cs) :
    (cs.flatMap f').Perm (cs.flatMap f ++ [x]) := by
  obtain ⟨l, r, rfl⟩ := List.append_of_mem hmem
  have hnodup := List.nodup_append.mp hcs
  have hl : l.flatMap f' = l.flatMap f := List.flatMap_congr fun d hd =>
    hother d fun heq => hnodup.2.2 d hd c (by simp) heq
  have hr : r.flatMap f' = r.flatMap f := List.flatMap_congr fun d hd =>
    hother d fun heq => (List.nodup_cons.mp hnodup.2.1).1 (heq ▸ hd)
  rw [List.flatMap_append, List.flatMap_append, List.flatMap_cons, List.flatMap_cons, hl, hr, hc]
  simp only [List.append_assoc]
  have hcomm : ([x] ++ r.flatMap f).Perm (r.flatMap f ++ [x]) := List.perm_append_comm
  exact (hcomm.append_left _).append_left _

theorem enqueue_items (item : Item P I) :
    (wq.enqueue item).items.Perm (wq.items ++ [item]) := by
  apply flatMap_perm (c := item.workClass) _ _ WorkClass.nodup_all (WorkClass.mem_all _)
  · simp [enqueue_stack]
  · intro d hd
    simp [enqueue_stack, hd]

theorem Pops.items {wq : WorkQueue P I} {item : Item P I} {c : WorkClass} (h : wq.Pops item c) :
    wq.items.Perm (wq.pop.2.2.items ++ [item]) :=
  flatMap_perm h.top (fun d hd => (h.others d hd).symm) WorkClass.nodup_all (WorkClass.mem_all _)

theorem pop_prefix (d : WorkClass) : wq.pop.2.2.stack d <+: wq.stack d := by
  rcases wq.pop_spec with ⟨-, hpop⟩ | ⟨item, c, hpop⟩
  · rw [hpop]
  · by_cases hd : d = c
    · subst hd
      rw [hpop.top]
      exact List.prefix_append _ _
    · rw [hpop.others d hd]

end WorkQueue

/-! ## Any number of procs -/

/-- The program of an item. -/
def Item.prog : Item P I → P
  | .triage w => w.p
  | .candidate w => w.p
  | .smash w => w.p
  | .fzUSB w => w.p

def Item.map {Q : Type*} (g : P → Q) : Item P I → Item Q I
  | .triage w => .triage { w with p := g w.p }
  | .candidate w => .candidate { w with p := g w.p }
  | .smash w => .smash { w with p := g w.p }
  | .fzUSB w => .fzUSB { w with p := g w.p }

/-- The number of an item, counted over all calls of `enqueue`. -/
def Item.number (item : Item (P × ℕ) I) : ℕ := item.prog.2

/-- The queue with numbered items, which calls of `enqueue` there were, which procs are
between the two critical sections of `dequeue`, and the items that calls have returned. -/
structure State (P I : Type*) where
  queue : WorkQueue (P × ℕ) I
  enqueued : List (Item (P × ℕ) I)
  tested : ℕ → Bool
  returned : List (Item (P × ℕ) I)

def State.start (procs : ℕ) : State P I := ⟨.new procs, [], fun _ => false, []⟩

inductive Event (P I : Type*)
  | enqueue (item : Item P I)
  /-- The first critical section of `dequeue`. -/
  | test (proc : ℕ)
  /-- The second critical section of `dequeue`. -/
  | pop (proc : ℕ)

/-- What a call of `dequeue` returns at this step, if one returns. -/
def answer (s : State P I) : Event P I → Option (Option (Item (P × ℕ) I))
  | .enqueue _ => none
  | .test _ => if s.queue.isEmpty then some none else none
  | .pop _ => some s.queue.pop.1

/-- The next item to be enqueued. -/
def State.numbered (s : State P I) (item : Item P I) : Item (P × ℕ) I :=
  item.map fun p => (p, s.enqueued.length)

def step (s : State P I) : Event P I → Option (State P I)
  | .enqueue item => some { s with
      queue := s.queue.enqueue (s.numbered item)
      enqueued := s.enqueued ++ [s.numbered item] }
  | .test proc =>
    if s.tested proc then none
    else if s.queue.isEmpty then some s
    else some { s with tested := Function.update s.tested proc true }
  | .pop proc =>
    if s.tested proc then some { s with
      queue := s.queue.pop.2.2
      tested := Function.update s.tested proc false
      returned := s.returned ++ s.queue.pop.1.toList }
    else none

/-- Every item that was enqueued was returned by one call or is queued, once. -/
structure Conserved (s : State P I) : Prop where
  items : (s.returned ++ s.queue.items).Perm s.enqueued
  numbers : s.enqueued.map Item.number = List.range s.enqueued.length

/-- The item is queued, no other class is more urgent than its own, and it is the last that
was enqueued of what is left there. -/
structure Next (wq : WorkQueue (P × ℕ) I) (item : Item (P × ℕ) I) : Prop where
  queued : item ∈ wq.items
  urgent : ∀ other ∈ wq.items, item.workClass.rank ≤ other.workClass.rank
  latest : ∀ other ∈ wq.items, other.workClass = item.workClass → other.number ≤ item.number

/-- A call returns the item whose turn it is, and `nil` while the queue is empty. -/
structure AnswersRightly (s : State P I) (e : Event P I) : Prop where
  item : ∀ item, answer s e = some (some item) → Next s.queue item
  empty : answer s e = some none → s.queue.items = []

/-- Each stack holds items of its class, in the order of their calls of `enqueue`. -/
structure Ordered (s : State P I) : Prop where
  routed : ∀ c, ∀ item ∈ s.queue.stack c, item.workClass = c
  sorted : ∀ c, ((s.queue.stack c).map Item.number).Pairwise (· < ·)
  earlier : ∀ c, ∀ item ∈ s.queue.stack c, item.number < s.enqueued.length

section

variable {s t : State P I} {e : Event P I}

theorem number_numbered (s : State P I) (item : Item P I) :
    (s.numbered item).number = s.enqueued.length := by
  cases item <;> rfl

theorem Conserved.step (hs : Conserved s) (h : step s e = some t) : Conserved t := by
  cases e with
  | enqueue item =>
    obtain rfl := Option.some.inj h
    constructor
    · have hitems := (s.queue.enqueue_items (s.numbered item)).append_left s.returned
      rw [← List.append_assoc] at hitems
      exact hitems.trans (hs.items.append_right _)
    · simp [hs.numbers, number_numbered, List.range_succ]
  | test proc =>
    simp only [Work.step] at h
    split at h
    · cases h
    · split at h <;> obtain rfl := Option.some.inj h <;> exact ⟨hs.items, hs.numbers⟩
  | pop proc =>
    simp only [Work.step] at h
    split at h
    · obtain rfl := Option.some.inj h
      refine ⟨?_, hs.numbers⟩
      rcases s.queue.pop_spec with ⟨-, hpop⟩ | ⟨item, c, hpop⟩
      · simpa [hpop] using hs.items
      · rw [hpop.returned]
        apply List.Perm.trans _ hs.items
        rw [List.append_assoc]
        exact (List.perm_append_comm.trans hpop.items.symm).append_left _
    · cases h

theorem Ordered.enqueue (hs : Ordered s) (item : Item P I) : Ordered { s with
    queue := s.queue.enqueue (s.numbered item)
    enqueued := s.enqueued ++ [s.numbered item] } := by
  have hnumber := number_numbered s item
  constructor
  · intro c j hj
    rw [WorkQueue.enqueue_stack] at hj
    split at hj
    · next hc =>
      rcases List.mem_append.mp hj with hj | hj
      · exact hs.routed c j hj
      · rw [List.mem_singleton.mp hj, hc]
    · exact hs.routed c j hj
  · intro c
    rw [WorkQueue.enqueue_stack]
    split
    · -- The new number is greater than all before it.
      rw [List.map_append, List.pairwise_append]
      refine ⟨hs.sorted c, by simp, ?_⟩
      intro a ha b hb
      obtain ⟨j, hj, rfl⟩ := List.mem_map.mp ha
      rw [List.map_singleton, List.mem_singleton] at hb
      rw [hb, hnumber]
      exact hs.earlier c j hj
    · exact hs.sorted c
  · intro c j hj
    rw [List.length_append, List.length_singleton]
    rw [WorkQueue.enqueue_stack] at hj
    split at hj
    · rcases List.mem_append.mp hj with hj | hj
      · exact Nat.lt_succ_of_lt (hs.earlier c j hj)
      · rw [List.mem_singleton.mp hj, hnumber]
        exact Nat.lt_succ_self _
    · exact Nat.lt_succ_of_lt (hs.earlier c j hj)

/-- Stacks from which items were taken are ordered as before. -/
theorem Ordered.of_prefix (hs : Ordered s) (hqueue : ∀ c, t.queue.stack c <+: s.queue.stack c)
    (henqueued : t.enqueued = s.enqueued) : Ordered t := by
  constructor
  · exact fun c j hj => hs.routed c j ((hqueue c).subset hj)
  · exact fun c => (hs.sorted c).sublist ((hqueue c).sublist.map _)
  · intro c j hj
    rw [henqueued]
    exact hs.earlier c j ((hqueue c).subset hj)

theorem Ordered.step (hs : Ordered s) (h : step s e = some t) : Ordered t := by
  cases e with
  | enqueue item =>
    obtain rfl := Option.some.inj h
    exact hs.enqueue item
  | test proc =>
    simp only [Work.step] at h
    split at h
    · cases h
    · split at h <;> obtain rfl := Option.some.inj h <;>
        exact hs.of_prefix (fun _ => List.prefix_refl _) rfl
  | pop proc =>
    simp only [Work.step] at h
    split at h
    · obtain rfl := Option.some.inj h
      exact hs.of_prefix s.queue.pop_prefix rfl
    · cases h

/-- The top of the first stack that is not empty is the item whose turn it is. -/
theorem Ordered.next_of_pops (hs : Ordered s) {item : Item (P × ℕ) I} {c : WorkClass}
    (hpop : s.queue.Pops item c) : Next s.queue item := by
  have hmem : item ∈ s.queue.stack c := by simp [hpop.top]
  have hclass : item.workClass = c := hs.routed c item hmem
  constructor
  · exact s.queue.mem_items.mpr ⟨c, hmem⟩
  · intro j hj
    obtain ⟨d, hd⟩ := s.queue.mem_items.mp hj
    rw [hclass, hs.routed d j hd]
    by_contra hlt
    rw [hpop.first d (Nat.lt_of_not_le hlt)] at hd
    cases hd
  · intro j hj hjc
    obtain ⟨d, hd⟩ := s.queue.mem_items.mp hj
    obtain rfl : d = c := by rw [← hs.routed d j hd, hjc, hclass]
    have hsorted := hs.sorted d
    rw [hpop.top, List.map_append, List.pairwise_append] at hsorted
    rw [hpop.top] at hd
    rcases List.mem_append.mp hd with hd | hd
    · exact Nat.le_of_lt (hsorted.2.2 _ (List.mem_map_of_mem hd) _ (by simp))
    · rw [List.mem_singleton.mp hd]

theorem Ordered.answersRightly (hs : Ordered s) (e : Event P I) : AnswersRightly s e := by
  cases e with
  | enqueue item => constructor <;> simp [answer]
  | test proc =>
    constructor
    · simp [answer]
    · intro h
      apply s.queue.isEmpty_iff.mp
      by_contra hne
      simp [answer, hne] at h
  | pop proc =>
    rcases s.queue.pop_spec with ⟨hempty, hpop⟩ | ⟨item, c, hpop⟩
    · exact ⟨by simp [answer, hpop], fun _ => hempty⟩
    · constructor
      · intro item' h
        simp only [answer, hpop.returned, Option.some.injEq] at h
        exact h ▸ hs.next_of_pops hpop
      · simp [answer, hpop.returned]

end

/-- Over every run of any number of procs, work is neither lost nor repeated, and the calls of
`dequeue` keep to the order of urgency. -/
theorem queue_correct (procs : ℕ) (es : List (Event P I)) :
    Always step Conserved (State.start procs) es ∧
      AlwaysStep step AnswersRightly (State.start procs) es := by
  have hconserved : Conserved (State.start procs : State P I) :=
    ⟨by simp [State.start, WorkQueue.new, WorkQueue.items, WorkClass.all, WorkQueue.stack], rfl⟩
  have hempty (c : WorkClass) : (State.start procs : State P I).queue.stack c = [] := by
    cases c <;> rfl
  have hordered : Ordered (State.start procs : State P I) := by
    constructor <;> simp [hempty]
  constructor
  · rw [always_iff]
    intro pre t _ ht
    exact runs_invariant (fun _ _ _ hs h => hs.step h) hconserved ht
  · rw [alwaysStep_iff]
    intro pre e t _ _ ht _
    exact (runs_invariant (fun _ _ _ hs h => hs.step h) hordered ht : Ordered t).answersRightly e

/-! ## The numbers -/

namespace WorkQueue

variable {Q : Type*} (g : P → Q) (wq : WorkQueue P I)

def map : WorkQueue Q I where
  triageCandidate := wq.triageCandidate.map fun w => { w with p := g w.p }
  candidate := wq.candidate.map fun w => { w with p := g w.p }
  triage := wq.triage.map fun w => { w with p := g w.p }
  smash := wq.smash.map fun w => { w with p := g w.p }
  fuzzusb := wq.fuzzusb.map fun w => { w with p := g w.p }
  procs := wq.procs

/-- Neither function looks at the programs, and so at their numbers. -/
theorem map_enqueue (item : Item P I) :
    (wq.enqueue item).map g = (wq.map g).enqueue (item.map g) := by
  cases item with
  | triage w => by_cases hf : w.flags &&& progCandidate ≠ 0 <;> simp [enqueue, map, Item.map, hf]
  | candidate w | smash w | fzUSB w => simp [enqueue, map, Item.map]

theorem map_pop :
    (wq.map g).pop = (wq.pop.1.map (Item.map g), wq.pop.2.1, wq.pop.2.2.map g) := by
  cases hf : wq.fuzzusb.getLast? with
  | some w => simp [pop, map, hf, Item.map, List.map_dropLast]
  | none =>
  cases htc : wq.triageCandidate.getLast? with
  | some w => simp [pop, map, hf, htc, Item.map, List.map_dropLast]
  | none =>
  cases hc : wq.candidate.getLast? with
  | some w => simp [pop, map, hf, htc, hc, Item.map, List.map_dropLast]
  | none =>
  cases ht : wq.triage.getLast? with
  | some w => simp [pop, map, hf, htc, hc, ht, Item.map, List.map_dropLast]
  | none =>
  cases hs : wq.smash.getLast? with
  | some w => simp [pop, map, hf, htc, hc, ht, hs, Item.map, List.map_dropLast]
  | none => simp [pop, map, hf, htc, hc, ht, hs]

end WorkQueue

end FuzzUSB.Work
