import FuzzUSB.StateMgrWalk
import Mathlib.Data.Finset.Card
import Mathlib.Data.Finset.Image

/-!
# Coverage of the walk

Sequences of `get_next` calls over arbitrary source states, with the answers they
give. With `unexplored` set, the first calls at a state go through all its edges.
-/

namespace FuzzUSB.StateMgr

/-- The type that `get_next_tran` and `get_next_state` share. -/
abbrev GetNext := (ℤ → Option (List ℤ)) → Bool → ℕ → ℤ → Coverage → Option Edge × Coverage

/-- The calls made, each with its source state and its answer, oldest first. -/
abbrev History := List (ℤ × Option Edge)

/-- One call at the source state `call.1` with the random draw `call.2`. -/
def callNext (f : GetNext) (connStates : ℤ → Option (List ℤ)) (s : Coverage × History)
    (call : ℤ × ℕ) : Coverage × History :=
  ((f connStates true call.2 call.1 s.1).2,
    s.2 ++ [(call.1, (f connStates true call.2 call.1 s.1).1)])

/-- A sequence of calls with `unexplored = True`, from empty coverage sets. -/
def callsNext (f : GetNext) (connStates : ℤ → Option (List ℤ)) (calls : List (ℤ × ℕ)) :
    Coverage × History :=
  calls.foldl (callNext f connStates) (.empty, [])

theorem callsNext_concat (f : GetNext) (connStates : ℤ → Option (List ℤ))
    (calls : List (ℤ × ℕ)) (call : ℤ × ℕ) :
    callsNext f connStates (calls ++ [call]) =
      callNext f connStates (callsNext f connStates calls) call := by
  rw [callsNext, List.foldl_append]
  rfl

/-- The edges returned so far. -/
def History.returned (hist : History) : Finset Edge := (hist.filterMap Prod.snd).toFinset

/-- The answers of the calls made at `cur`, oldest first. -/
def History.answersAt (hist : History) (cur : ℤ) : List (Option Edge) :=
  (hist.filter fun c => c.1 = cur).map Prod.snd

theorem History.mem_returned {hist : History} {e : Edge} :
    e ∈ hist.returned ↔ ∃ c, (c, some e) ∈ hist := by
  simp [History.returned]

theorem History.mem_answersAt {hist : History} {cur : ℤ} {r : Option Edge} :
    r ∈ hist.answersAt cur ↔ (cur, r) ∈ hist := by
  simp [History.answersAt]

theorem History.answersAt_concat_self (hist : History) (cur : ℤ) (r : Option Edge) :
    History.answersAt (hist ++ [(cur, r)]) cur = hist.answersAt cur ++ [r] := by
  simp [History.answersAt]

theorem History.answersAt_concat_of_ne (hist : History) {cur c : ℤ} (h : c ≠ cur)
    (r : Option Edge) : History.answersAt (hist ++ [(c, r)]) cur = hist.answersAt cur := by
  simp [History.answersAt, h]

/-! ## Trackers -/

/-- A tracker keeps a set of keys: of edges, or of their targets. -/
structure Tracker.Marks {κ : Type*} [DecidableEq κ] (T : Tracker) (key : Edge → κ)
    (seen : Coverage → Finset κ) : Prop where
  covered_iff : ∀ cov e, T.covered cov e ↔ key e ∈ seen cov
  seen_mark : ∀ cov e, seen (T.mark cov e) = insert (key e) (seen cov)
  coveredall_mark : ∀ cov e, (T.mark cov e).coveredall = cov.coveredall
  seen_coveredall : ∀ cov c, seen { cov with coveredall := c } = seen cov

theorem tranTracker_marks : tranTracker.Marks id Coverage.covTran where
  covered_iff cov e := by simp [tranTracker]
  seen_mark _ _ := rfl
  coveredall_mark _ _ := rfl
  seen_coveredall _ _ := rfl

theorem stateTracker_marks : stateTracker.Marks Prod.snd Coverage.covState where
  covered_iff cov e := by simp [stateTracker]
  seen_mark _ _ := rfl
  coveredall_mark _ _ := rfl
  seen_coveredall _ _ := rfl

section

variable {κ : Type*} [DecidableEq κ] (key : Edge → κ) (seen : Coverage → Finset κ)
  (connStates : ℤ → Option (List ℤ))

/-- Every edge out of `cur` is covered. -/
def Exhausted (cov : Coverage) (cur : ℤ) : Prop :=
  ∀ succ, connStates cur = some succ → ∀ n ∈ succ, key (cur, n) ∈ seen cov

/-- What a call does to the coverage sets. It covers the key of the edge it returns and no
other, returns a covered key only from an exhausted state, and adds only such states to
`coveredall`. -/
structure CallRecords (cov : Coverage) (cur : ℤ) (r : Option Edge × Coverage) : Prop where
  seen_iff : ∀ k, k ∈ seen r.2 ↔ k ∈ seen cov ∨ ∃ e, r.1 = some e ∧ key e = k
  again : ∀ e, r.1 = some e → key e ∈ seen cov → Exhausted key seen connStates cov cur
  coveredall : ∀ c ∈ r.2.coveredall,
    c ∈ cov.coveredall ∨ c = cur ∧ Exhausted key seen connStates cov cur
  kept : cov.coveredall ⊆ r.2.coveredall

variable {key seen connStates} {T : Tracker} {cov : Coverage} {cur : ℤ}

theorem Tracker.Marks.callRecords_mark (hT : T.Marks key seen) {n : ℤ}
    (hagain : key (cur, n) ∈ seen cov → Exhausted key seen connStates cov cur) :
    CallRecords key seen connStates cov cur (some (cur, n), T.mark cov (cur, n)) where
  seen_iff k := by simp [hT.seen_mark, or_comm, eq_comm]
  again := by
    rintro e ⟨⟩ hcovered
    exact hagain hcovered
  coveredall c hc := .inl (hT.coveredall_mark cov (cur, n) ▸ hc)
  kept := (hT.coveredall_mark cov (cur, n)).ge

omit [DecidableEq κ] in
/-- A random successor of an exhausted state is covered already. -/
theorem Exhausted.callRecords_random (h : Exhausted key seen connStates cov cur) {succ : List ℤ}
    (hs : connStates cur = some succ) (draw : ℕ) {cov' : Coverage} (hseen : seen cov' = seen cov)
    (hkept : cov.coveredall ⊆ cov'.coveredall)
    (hall : ∀ c ∈ cov'.coveredall, c ∈ cov.coveredall ∨ c = cur) :
    CallRecords key seen connStates cov cur
      ((randomSelect succ draw).map fun n => (cur, n), cov') where
  seen_iff k := by
    simp only [hseen]
    refine ⟨.inl, ?_⟩
    rintro (hk | ⟨e, he, rfl⟩)
    · exact hk
    · obtain ⟨n, hn, rfl⟩ := Option.map_eq_some_iff.mp he
      exact h succ hs n (randomSelect_mem hn)
  again _ _ _ := h
  coveredall c hc := (hall c hc).imp_right fun hcur => ⟨hcur, h⟩
  kept := hkept

/-- The step lemma of both strategies. -/
theorem Tracker.Marks.callRecords (hT : T.Marks key seen)
    (h : ∀ c ∈ cov.coveredall, Exhausted key seen connStates cov c) (cur : ℤ) (draw : ℕ) :
    CallRecords key seen connStates cov cur (getNextBy T connStates true draw cur cov) := by
  cases hs : connStates cur with
  | none =>
    have hcall : getNextBy T connStates true draw cur cov = (none, cov) := by
      simp [getNextBy, hs]
    rw [hcall]
    exact ⟨by simp, nofun, fun c hc => .inl hc, subset_rfl⟩
  | some succ =>
    have hsel := getNextBy_selects T true draw hs cov
    have hexhausted (hall : ∀ n ∈ succ, key (cur, n) ∈ seen cov) :
        Exhausted key seen connStates cov cur := by
      intro succ' hs' n hn
      obtain rfl := Option.some.inj (hs.symm.trans hs')
      exact hall n hn
    generalize getNextBy T connStates true draw cur cov = r at hsel
    cases hsel with
    | @only n hn =>
      refine hT.callRecords_mark fun hcovered => hexhausted fun n' hn' => ?_
      rw [hn, List.mem_singleton] at hn'
      exact hn' ▸ hcovered
    | @fresh n _ _ _ _ hn =>
      refine hT.callRecords_mark fun hcovered => ?_
      rw [(hT.covered_iff cov (cur, n)).mpr hcovered] at hn
      cases hn
    | exhausted _ _ _ hall =>
      have hcur := hexhausted fun n hn => (hT.covered_iff cov _).mp (hall n hn)
      refine hcur.callRecords_random hs draw (hT.seen_coveredall _ _)
        (Finset.subset_insert _ _) fun c hc => ?_
      exact (Finset.mem_insert.mp hc).symm
    | random _ hscan =>
      -- The scan is off only after it has found every edge covered.
      have hmem : cur ∈ cov.coveredall := by simpa using hscan
      exact (h cur hmem).callRecords_random hs draw rfl subset_rfl fun c hc => .inl hc

end

/-! ## Transitions -/

/-- What the coverage sets say after the calls of `hist`. -/
structure Explored (connStates : ℤ → Option (List ℤ)) (cov : Coverage) (hist : History) :
    Prop where
  covTran_eq : cov.covTran = hist.returned
  all_covered : ∀ {cur succ n}, cur ∈ cov.coveredall → connStates cur = some succ → n ∈ succ →
    (cur, n) ∈ cov.covTran
  answer : ∀ {cur e}, (cur, some e) ∈ hist → ∃ succ n, connStates cur = some succ ∧ n ∈ succ ∧
    e = (cur, n)
  no_answer : ∀ {cur succ}, connStates cur = some succ → (cur, none) ∈ hist → succ = []
  distinct : ∀ {cur succ}, connStates cur = some succ →
    ((hist.answersAt cur).take succ.toFinset.card).Nodup

/-- If every edge out of `cur` was returned, enough calls were made there. -/
theorem card_le_answers {hist : History} {cur : ℤ} {succ : List ℤ}
    (h : ∀ n ∈ succ, some (cur, n) ∈ hist.answersAt cur) :
    succ.toFinset.card ≤ (hist.answersAt cur).length := by
  have hinj : Function.Injective fun n : ℤ => (some (cur, n) : Option Edge) := by
    intro a b hab
    exact (Prod.mk.inj (Option.some.inj hab)).2
  calc succ.toFinset.card
      = (succ.toFinset.image fun n => (some (cur, n) : Option Edge)).card :=
        (Finset.card_image_of_injective _ hinj).symm
    _ ≤ (hist.answersAt cur).toFinset.card := by
        apply Finset.card_le_card
        intro r hr
        obtain ⟨n, hn, rfl⟩ := Finset.mem_image.mp hr
        exact List.mem_toFinset.mpr (h n (List.mem_toFinset.mp hn))
    _ ≤ (hist.answersAt cur).length := List.toFinset_card_le _

variable {connStates : ℤ → Option (List ℤ)} {cov : Coverage} {hist : History}

theorem Explored.mem_answersAt (h : Explored connStates cov hist) {cur n : ℤ} :
    some (cur, n) ∈ hist.answersAt cur ↔ (cur, n) ∈ cov.covTran := by
  rw [History.mem_answersAt, h.covTran_eq, History.mem_returned]
  refine ⟨fun hm => ⟨cur, hm⟩, ?_⟩
  rintro ⟨c, hc⟩
  obtain ⟨succ, n', -, -, he⟩ := h.answer hc
  obtain rfl := (Prod.mk.inj he).1
  exact hc

/-- While fewer calls were made at `cur` than it has successors, the next one returns an
edge that none of them returned. -/
theorem Explored.fresh (h : Explored connStates cov hist) {cur : ℤ} {succ : List ℤ}
    (hs : connStates cur = some succ) (draw : ℕ)
    (hlt : (hist.answersAt cur).length < succ.toFinset.card) :
    (getNextTran connStates true draw cur cov).1 ∉ hist.answersAt cur := by
  have hnot : ¬∀ n ∈ succ, (cur, n) ∈ cov.covTran := fun hall =>
    absurd (card_le_answers fun n hn => h.mem_answersAt.mpr (hall n hn)) (not_le.mpr hlt)
  have hsel := getNextBy_selects tranTracker true draw hs cov
  change Selects _ _ _ _ _ _ (getNextTran connStates true draw cur cov) at hsel
  generalize getNextTran connStates true draw cur cov = r at hsel
  cases hsel with
  | @only n hn =>
    subst hn
    have hnil : hist.answersAt cur = [] := by
      rw [← List.length_eq_zero_iff]
      simpa using hlt
    simp [hnil]
  | fresh _ _ _ _ hn =>
    rw [h.mem_answersAt]
    simpa [tranTracker] using hn
  | exhausted _ _ _ hall =>
    exact absurd (fun n hn => by simpa [tranTracker] using hall n hn) hnot
  | random _ hscan =>
    -- The scan is off only after it has found every edge covered.
    have hmem : cur ∈ cov.coveredall := by simpa using hscan
    exact absurd (fun n hn => h.all_covered hmem hs hn) hnot

/-- What a call does to `cov_tran` and `coveredall`. -/
theorem Explored.call_cov (h : Explored connStates cov hist) (cur : ℤ) (draw : ℕ) :
    CallRecords id Coverage.covTran connStates cov cur
      (getNextTran connStates true draw cur cov) :=
  tranTracker_marks.callRecords (fun _ hc _ hs _ hn => h.all_covered hc hs hn) cur draw

/-- A call answers with an edge of the table, unless the table has none. -/
theorem getNextTran_answer (connStates : ℤ → Option (List ℤ)) (draw : ℕ) (cur : ℤ)
    (cov : Coverage) :
    (∀ e, (getNextTran connStates true draw cur cov).1 = some e →
      ∃ succ n, connStates cur = some succ ∧ n ∈ succ ∧ e = (cur, n)) ∧
    (∀ succ, connStates cur = some succ → (getNextTran connStates true draw cur cov).1 = none →
      succ = []) := by
  cases hs : connStates cur with
  | none => simp [getNextTran, getNextBy, hs]
  | some succ =>
    have hsel := getNextBy_selects tranTracker true draw hs cov
    change Selects _ _ _ _ _ _ (getNextTran connStates true draw cur cov) at hsel
    by_cases hne : succ = []
    · subst hne
      have hr : (getNextTran connStates true draw cur cov).1 = none := by
        simp [getNextTran, getNextBy, hs, randomSelect, randint]
        split <;> rfl
      simp [hr]
    · obtain ⟨n, hn, he⟩ := hsel.edge hne
      refine ⟨fun e he' => ⟨succ, n, rfl, hn, Option.some.inj (he'.symm.trans he)⟩, ?_⟩
      intro _ _ hnone
      rw [he] at hnone
      cases hnone

/-- A call keeps the account of the coverage sets. -/
theorem Explored.step (h : Explored connStates cov hist) (call : ℤ × ℕ) :
    Explored connStates (callNext getNextTran connStates (cov, hist) call).1
      (callNext getNextTran connStates (cov, hist) call).2 := by
  obtain ⟨cur, draw⟩ := call
  have hcall := h.call_cov cur draw
  obtain ⟨hanswer, hnone⟩ := getNextTran_answer connStates draw cur cov
  simp only [callNext]
  refine ⟨?_, ?_, ?_, ?_, ?_⟩
  · ext e
    rw [hcall.seen_iff, h.covTran_eq, History.mem_returned, History.mem_returned]
    simp [exists_or, eq_comm]
  · intro c succ n hc hs hn
    rcases hcall.coveredall c hc with hc | ⟨rfl, hc⟩
    · exact (hcall.seen_iff _).mpr (.inl (h.all_covered hc hs hn))
    · exact (hcall.seen_iff _).mpr (.inl (hc succ hs n hn))
  · intro c e hmem
    rcases List.mem_append.mp hmem with hmem | hmem
    · exact h.answer hmem
    · obtain ⟨rfl, he⟩ := Prod.mk.inj (List.mem_singleton.mp hmem)
      exact hanswer e he.symm
  · intro c succ hs hmem
    rcases List.mem_append.mp hmem with hmem | hmem
    · exact h.no_answer hs hmem
    · obtain ⟨rfl, he⟩ := Prod.mk.inj (List.mem_singleton.mp hmem)
      exact hnone succ hs he.symm
  · intro c succ hs
    by_cases hc : cur = c
    · subst hc
      rw [History.answersAt_concat_self]
      -- While edges are missing the new answer is a new edge. After that the prefix is full.
      by_cases hlt : (hist.answersAt cur).length < succ.toFinset.card
      · have hd := h.distinct hs
        rw [List.take_of_length_le hlt.le] at hd
        rw [List.take_of_length_le (by simpa using Nat.succ_le_of_lt hlt), ← List.concat_eq_append]
        exact hd.concat (h.fresh hs draw hlt)
      · rw [List.take_append_of_le_length (not_lt.mp hlt)]
        exact h.distinct hs
    · rw [History.answersAt_concat_of_ne _ hc]
      exact h.distinct hs

theorem explored_calls (connStates : ℤ → Option (List ℤ)) (calls : List (ℤ × ℕ)) :
    Explored connStates (callsNext getNextTran connStates calls).1
      (callsNext getNextTran connStates calls).2 := by
  induction calls using List.reverseRecOn with
  | nil =>
    constructor <;> simp [callsNext, Coverage.empty, History.returned, History.answersAt]
  | append_singleton calls call ih =>
    rw [callsNext_concat]
    exact ih.step call

/-- `k` different edges out of `cur` among `k` successors are all of them. -/
theorem Explored.covers (h : Explored connStates cov hist) {cur : ℤ} {succ : List ℤ}
    (hs : connStates cur = some succ) (hlen : succ.toFinset.card ≤ (hist.answersAt cur).length)
    {n : ℤ} (hn : n ∈ succ) : some (cur, n) ∈ (hist.answersAt cur).take succ.toFinset.card := by
  set answers := (hist.answersAt cur).take succ.toFinset.card
  set edges := succ.toFinset.image fun n => (some (cur, n) : Option Edge)
  have hsub : answers.toFinset ⊆ edges := by
    intro r hr
    have hmem := History.mem_answersAt.mp (List.mem_of_mem_take (List.mem_toFinset.mp hr))
    cases r with
    | none => simp [h.no_answer hs hmem] at hn
    | some e =>
      obtain ⟨succ', n', hs', hn', rfl⟩ := h.answer hmem
      obtain rfl := Option.some.inj (hs.symm.trans hs')
      exact Finset.mem_image_of_mem _ (List.mem_toFinset.mpr hn')
  -- As many different answers as there are edges, all of them edges.
  have hcard : edges.card ≤ answers.toFinset.card := by
    rw [List.toFinset_card_of_nodup (h.distinct hs), List.length_take, min_eq_left hlen]
    exact Finset.card_image_le
  have heq := Finset.eq_of_subset_of_card_le hsub hcard
  exact List.mem_toFinset.mp (heq ▸ Finset.mem_image_of_mem _ (List.mem_toFinset.mpr hn))

/-- With `unexplored = True` and empty coverage sets at the start, after every sequence of
`get_next_tran` calls: the first calls at a state, as many as it has distinct successors,
returned pairwise different edges, hence all its edges; `cov_tran` holds the edges returned
so far; and a state is in `coveredall` only if all its edges are in `cov_tran`. -/
theorem getNextTran_explores_first (connStates : ℤ → Option (List ℤ)) (calls : List (ℤ × ℕ)) :
    match callsNext getNextTran connStates calls with
    | (cov, hist) =>
      (∀ cur succ, connStates cur = some succ →
        ((hist.answersAt cur).take succ.toFinset.card).Nodup ∧
        (∀ a ∈ (hist.answersAt cur).take succ.toFinset.card, ∃ n ∈ succ, a = some (cur, n)) ∧
        (succ.toFinset.card ≤ (hist.answersAt cur).length →
          ∀ n ∈ succ, some (cur, n) ∈ (hist.answersAt cur).take succ.toFinset.card)) ∧
      cov.covTran = hist.returned ∧
      ∀ cur ∈ cov.coveredall, ∀ succ, connStates cur = some succ →
        ∀ n ∈ succ, (cur, n) ∈ cov.covTran := by
  have h := explored_calls connStates calls
  refine ⟨fun cur succ hs => ⟨h.distinct hs, fun a ha => ?_, fun hlen n hn => h.covers hs hlen hn⟩,
    h.covTran_eq, fun cur hc succ hs n hn => h.all_covered hc hs hn⟩
  have hmem := History.mem_answersAt.mp (List.mem_of_mem_take ha)
  cases a with
  | none =>
    obtain rfl := h.no_answer hs hmem
    simp at ha
  | some e =>
    obtain ⟨succ', n, hs', hn, rfl⟩ := h.answer hmem
    obtain rfl := Option.some.inj (hs.symm.trans hs')
    exact ⟨n, hn, rfl⟩

/-- Calls at states 6 and 7 in turn, with a repeated target in the list of state 6. -/
example : (callsNext getNextTran (fun s => if s = 6 then some [7, 8, 7] else some [6])
    [(6, 0), (7, 0), (6, 1)]).2.answersAt 6 = [some (6, 7), some (6, 8)] := by decide

/-! ## States -/

/-- The targets of the edges returned so far. -/
def History.targets (hist : History) : Finset ℤ := hist.returned.image Prod.snd

theorem History.mem_targets_concat {hist : History} {cur : ℤ} {r : Option Edge} {n : ℤ} :
    n ∈ History.targets (hist ++ [(cur, r)]) ↔ n ∈ hist.targets ∨ ∃ e, r = some e ∧ e.2 = n := by
  cases r <;> simp [History.targets, History.returned, or_comm, eq_comm]

/-- What the coverage sets say after the `get_next_state` calls of `hist`. -/
structure Surveyed (connStates : ℤ → Option (List ℤ)) (cov : Coverage) (hist : History) :
    Prop where
  covState_eq : cov.covState = hist.targets
  all_covered : ∀ cur ∈ cov.coveredall, Exhausted Prod.snd Coverage.covState connStates cov cur

theorem Surveyed.call_cov (h : Surveyed connStates cov hist) (cur : ℤ) (draw : ℕ) :
    CallRecords Prod.snd Coverage.covState connStates cov cur
      (getNextState connStates true draw cur cov) :=
  stateTracker_marks.callRecords h.all_covered cur draw

/-- Coverage only grows, so what is exhausted stays exhausted, also by the calls at other
states. -/
theorem Surveyed.step (h : Surveyed connStates cov hist) (call : ℤ × ℕ) :
    Surveyed connStates (callNext getNextState connStates (cov, hist) call).1
        (callNext getNextState connStates (cov, hist) call).2 ∧
      cov.covState ⊆ (callNext getNextState connStates (cov, hist) call).1.covState ∧
      cov.coveredall ⊆ (callNext getNextState connStates (cov, hist) call).1.coveredall := by
  obtain ⟨cur, draw⟩ := call
  have hcall := h.call_cov cur draw
  have hgrow : cov.covState ⊆ (getNextState connStates true draw cur cov).2.covState :=
    fun n hn => (hcall.seen_iff n).mpr (.inl hn)
  refine ⟨⟨?_, ?_⟩, hgrow, hcall.kept⟩
  · ext n
    rw [callNext, hcall.seen_iff, h.covState_eq, History.mem_targets_concat]
  · intro c hc succ hs n hn
    rcases hcall.coveredall c hc with hc | ⟨rfl, hc⟩
    · exact hgrow (h.all_covered c hc succ hs n hn)
    · exact hgrow (hc succ hs n hn)

theorem surveyed_calls (connStates : ℤ → Option (List ℤ)) (calls : List (ℤ × ℕ)) :
    Surveyed connStates (callsNext getNextState connStates calls).1
      (callsNext getNextState connStates calls).2 := by
  induction calls using List.reverseRecOn with
  | nil => exact ⟨rfl, nofun⟩
  | append_singleton calls call ih =>
    rw [callsNext_concat]
    exact (ih.step call).1

/-- The sets after more calls include those before. -/
theorem callsNext_grow (connStates : ℤ → Option (List ℤ)) (calls later : List (ℤ × ℕ)) :
    (callsNext getNextState connStates calls).1.covState ⊆
        (callsNext getNextState connStates (calls ++ later)).1.covState ∧
      (callsNext getNextState connStates calls).1.coveredall ⊆
        (callsNext getNextState connStates (calls ++ later)).1.coveredall := by
  induction later using List.reverseRecOn with
  | nil => simp
  | append_singleton later call ih =>
    obtain ⟨-, hstate, hall⟩ := (surveyed_calls connStates (calls ++ later)).step call
    rw [← List.append_assoc, callsNext_concat]
    exact ⟨ih.1.trans hstate, ih.2.trans hall⟩

/-- With `unexplored = True` and empty coverage sets at the start, after every sequence of
`get_next_state` calls: `cov_state` holds the target states returned so far; the next call, at
any state, returns a covered target only if every successor of that state is covered; and the
successors of the states of `coveredall` are covered, also after all later calls. -/
theorem getNextState_sound (connStates : ℤ → Option (List ℤ)) (calls : List (ℤ × ℕ)) :
    match callsNext getNextState connStates calls with
    | (cov, hist) =>
      cov.covState = hist.targets ∧
      (∀ cur draw e, (getNextState connStates true draw cur cov).1 = some e →
        e.2 ∈ cov.covState → ∀ succ, connStates cur = some succ → ∀ n ∈ succ, n ∈ cov.covState) ∧
      ∀ cur ∈ cov.coveredall, ∀ succ, connStates cur = some succ → ∀ n ∈ succ, ∀ later,
        match callsNext getNextState connStates (calls ++ later) with
        | (cov', _) => cur ∈ cov'.coveredall ∧ n ∈ cov'.covState := by
  have h := surveyed_calls connStates calls
  refine ⟨h.covState_eq, fun cur draw e he hcovered => (h.call_cov cur draw).again e he hcovered,
    fun cur hcur succ hs n hn later => ?_⟩
  obtain ⟨hstate, hall⟩ := callsNext_grow connStates calls later
  exact ⟨hall hcur, hstate (h.all_covered cur hcur succ hs n hn)⟩

/-- State 7 is covered from state 6, so a call at state 8 finds nothing left there. -/
example : (callsNext getNextState (fun s => if s = 6 then some [7, 8] else some [7, 7])
    [(6, 0), (8, 0)]).1.coveredall = {8} := by decide

end FuzzUSB.StateMgr
