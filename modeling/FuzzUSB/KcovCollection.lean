import FuzzUSB.Transition
import FuzzUSB.KcovLoader

/-!
# Collecting kernel coverage

Each fuzzer inserts addresses into its `fuzzusbCorpus` and sends copies of it to the manager,
which adds their keys to its own set. Messages may come in any order and more than once, and
a fuzzer that restarts begins with an empty map.
-/

namespace FuzzUSB.Kcov
open Transition

/-- `rpctype.FzUSBKcovArgs`. -/
structure FzUSBKcovArgs where
  id : ℕ
  name : String
  kcov : Corpus

/-- `Manager.updateKcov`. Each key is added as a fuzzer adds an address. -/
def updateKcov (mgr kcov : Corpus) : Corpus :=
  fun i => if (kcov i).isSome ∧ (mgr i).getD false = false then some true else mgr i

/-- The loop over the keys of `kcov` does the same in any order. -/
theorem foldl_addAddr_eq (mgr kcov : Corpus) (ks : List Addr)
    (hks : ∀ i, i ∈ ks ↔ (kcov i).isSome) :
    ks.foldl addAddr mgr = updateKcov mgr kcov := by
  have hfold (ks : List Addr) (m : Corpus) : ks.foldl addAddr m =
      fun i => if i ∈ ks ∧ (m i).getD false = false then some true else m i := by
    induction ks generalizing m with
    | nil => simp
    | cons k ks ih =>
      rw [List.foldl_cons, ih]
      funext i
      unfold addAddr
      by_cases hik : i = k <;> split <;> simp_all
  rw [hfold]
  funext i
  simp [updateKcov, hks]

theorem keys_updateKcov (mgr kcov : Corpus) :
    keys (updateKcov mgr kcov) = keys mgr ∪ keys kcov := by
  ext i
  simp only [keys, updateKcov, Set.mem_union, Set.mem_ofPred_eq]
  split
  · next h => simp [h.1]
  · next h =>
    -- A key of the message that is left alone is `true` already.
    cases hm : mgr i <;> simp_all

structure State where
  fuzzers : String → Corpus
  sent : List FzUSBKcovArgs
  mgr : Corpus

def State.start : State := ⟨fun _ _ => none, [], fun _ => none⟩

inductive Event
  /-- `FzUSBLoadKcov` adds an address. -/
  | insert (fuzzer : String) (addr : Addr)
  /-- `FzUSBSendKcovToMgr` copies the map and sends it. -/
  | snapshot (fuzzer : String)
  /-- The manager receives the message of this number. -/
  | deliver (n : ℕ)
  | restart (fuzzer : String)

def step (s : State) : Event → Option State
  | .insert f addr =>
    some { s with fuzzers := Function.update s.fuzzers f (addAddr (s.fuzzers f) addr) }
  | .snapshot f => some { s with sent := s.sent ++ [⟨0, f, s.fuzzers f⟩] }
  | .deliver n => s.sent[n]?.map fun a => { s with mgr := updateKcov s.mgr a.kcov }
  | .restart f => some { s with fuzzers := Function.update s.fuzzers f fun _ => none }

/-- The addresses that some fuzzer has inserted. -/
def inserted (es : List Event) : Set Addr := {a | ∃ f, .insert f a ∈ es}

def Event.isDeliver : Event → Bool
  | deliver _ => true
  | _ => false

/-- Two runs that differ in nothing but the order of the deliveries, and in how often each
is repeated. -/
structure SameDeliveries (es es' : List Event) : Prop where
  others : es.filter (!·.isDeliver) = es'.filter (!·.isDeliver)
  delivered : ∀ n, .deliver n ∈ es ↔ .deliver n ∈ es'

variable {s t : State} {e : Event} {es : List Event}

theorem getElem?_of_prefix {α : Type*} {xs ys : List α} {n : ℕ} {x : α} (h : xs <+: ys)
    (hx : xs[n]? = some x) : ys[n]? = some x := by
  obtain ⟨hn, rfl⟩ := List.getElem?_eq_some_iff.mp hx
  exact List.prefix_iff_getElem?.mp h n hn

/-! ## What a step does -/

theorem sent_prefix_step (h : step s e = some t) : s.sent <+: t.sent := by
  cases e with
  | insert | restart =>
    obtain rfl := Option.some.inj h
    exact List.prefix_refl _
  | snapshot =>
    obtain rfl := Option.some.inj h
    exact List.prefix_append _ _
  | deliver =>
    obtain ⟨a, -, rfl⟩ := Option.map_eq_some_iff.mp h
    exact List.prefix_refl _

theorem keys_mgr_step (h : step s e = some t) :
    keys t.mgr = keys s.mgr ∪
      {a | ∃ n, e = .deliver n ∧ ∃ m, s.sent[n]? = some m ∧ a ∈ keys m.kcov} := by
  cases e with
  | insert | restart | snapshot =>
    obtain rfl := Option.some.inj h
    simp
  | deliver n =>
    obtain ⟨a, hn, rfl⟩ := Option.map_eq_some_iff.mp h
    simp [keys_updateKcov, hn]

/-- A delivery changes the manager only. -/
theorem step_deliver_eq (h : step s e = some t) (he : e.isDeliver) :
    t.fuzzers = s.fuzzers ∧ t.sent = s.sent := by
  cases e with
  | deliver n =>
    obtain ⟨a, -, rfl⟩ := Option.map_eq_some_iff.mp h
    exact ⟨rfl, rfl⟩
  | _ => cases he

/-- What a fuzzer does depends on the fuzzers and the messages only. -/
theorem step_other_eq {s' : State} (h : step s e = some t) (he : ¬e.isDeliver)
    (hf : s'.fuzzers = s.fuzzers) (hsent : s'.sent = s.sent) :
    ∃ t', step s' e = some t' ∧ t'.fuzzers = t.fuzzers ∧ t'.sent = t.sent := by
  cases e with
  | deliver n => exact absurd rfl he
  | _ =>
    obtain rfl := Option.some.inj h
    exact ⟨_, rfl, by simp [hf], by simp [hf, hsent]⟩

/-! ## What a run does -/

theorem sent_prefix_run (h : runs step s es = some t) : s.sent <+: t.sent :=
  runs_invariant (I := fun u => s.sent <+: u.sent)
    (fun _ _ _ hu hstep => hu.trans (sent_prefix_step hstep)) (List.prefix_refl _) h

/-- The manager's set never shrinks. -/
theorem keys_mgr_run (h : runs step s es = some t) : keys s.mgr ⊆ keys t.mgr := by
  apply runs_invariant (I := fun u => keys s.mgr ⊆ keys u.mgr) _ subset_rfl h
  intro u e v hu hstep
  rw [keys_mgr_step hstep]
  exact hu.trans Set.subset_union_left

theorem inserted_append (es fs : List Event) : inserted (es ++ fs) = inserted es ∪ inserted fs := by
  ext a
  simp [inserted, exists_or]

/-- What the fuzzers hold and what they have sent was inserted. -/
theorem subset_inserted (h : runs step .start es = some t) :
    (∀ f, keys (t.fuzzers f) ⊆ inserted es) ∧ ∀ m ∈ t.sent, keys m.kcov ⊆ inserted es := by
  induction es using List.reverseRecOn generalizing t with
  | nil =>
    obtain rfl := Option.some.inj h
    simp [State.start, keys]
  | append_singleton es e ih =>
    rw [runs_concat] at h
    obtain ⟨u, hu, hstep⟩ := Option.bind_eq_some_iff.mp h
    obtain ⟨hf, hsent⟩ := ih hu
    have hgrow : inserted es ⊆ inserted (es ++ [e]) := by
      rw [inserted_append]
      exact Set.subset_union_left
    replace hf := fun f => (hf f).trans hgrow
    replace hsent := fun m hm => (hsent m hm).trans hgrow
    cases e with
    | insert f addr =>
      obtain rfl := Option.some.inj hstep
      refine ⟨fun g => ?_, hsent⟩
      by_cases hg : g = f
      · subst hg
        simp only [Function.update_self, keys_addAddr]
        exact Set.insert_subset ⟨g, by simp⟩ (hf g)
      · simpa [hg] using hf g
    | snapshot f =>
      obtain rfl := Option.some.inj hstep
      refine ⟨hf, fun m hm => ?_⟩
      rcases List.mem_append.mp hm with hm | hm
      · exact hsent m hm
      · obtain rfl := List.mem_singleton.mp hm
        exact hf f
    | deliver n =>
      rw [(step_deliver_eq hstep rfl).1, (step_deliver_eq hstep rfl).2]
      exact ⟨hf, hsent⟩
    | restart f =>
      obtain rfl := Option.some.inj hstep
      refine ⟨fun g => ?_, hsent⟩
      by_cases hg : g = f
      · simp [hg, keys]
      · simpa [hg] using hf g

/-- Every key of the manager came with a message that was delivered. -/
theorem exists_delivered (h : runs step .start es = some t) {a : Addr} (ha : a ∈ keys t.mgr) :
    ∃ n m, .deliver n ∈ es ∧ t.sent[n]? = some m ∧ a ∈ keys m.kcov := by
  induction es using List.reverseRecOn generalizing t with
  | nil =>
    obtain rfl := Option.some.inj h
    simp [State.start, keys] at ha
  | append_singleton es e ih =>
    rw [runs_concat] at h
    obtain ⟨u, hu, hstep⟩ := Option.bind_eq_some_iff.mp h
    rw [keys_mgr_step hstep] at ha
    have hsent {n : ℕ} {m : FzUSBKcovArgs} (hm : u.sent[n]? = some m) : t.sent[n]? = some m :=
      getElem?_of_prefix (sent_prefix_step hstep) hm
    rcases ha with ha | ⟨n, rfl, m, hm, ha⟩
    · obtain ⟨n, m, hn, hm, hkey⟩ := ih hu ha
      exact ⟨n, m, List.mem_append_left _ hn, hsent hm, hkey⟩
    · exact ⟨n, m, by simp, hsent hm, ha⟩

/-- The manager has every key of a message that was delivered. -/
theorem delivered_subset (h : runs step s es = some t) {n : ℕ} (hn : .deliver n ∈ es) :
    ∃ m, t.sent[n]? = some m ∧ keys m.kcov ⊆ keys t.mgr := by
  obtain ⟨pre, suf, rfl⟩ := List.append_of_mem hn
  rw [runs_append] at h
  obtain ⟨u, hu, hsuf⟩ := Option.bind_eq_some_iff.mp h
  obtain ⟨v, hstep, hv⟩ := Option.bind_eq_some_iff.mp hsuf
  obtain ⟨m, hm, rfl⟩ := Option.map_eq_some_iff.mp hstep
  refine ⟨m, getElem?_of_prefix (sent_prefix_run hv) hm, ?_⟩
  have hkeys := keys_mgr_run hv
  rw [keys_updateKcov] at hkeys
  exact Set.subset_union_right.trans hkeys

/-- The fuzzers and the messages are the same without the deliveries. -/
theorem runs_others (h : runs step s es = some t) :
    ∃ t', runs step s (es.filter (!·.isDeliver)) = some t' ∧ t'.fuzzers = t.fuzzers ∧
      t'.sent = t.sent := by
  induction es using List.reverseRecOn generalizing t with
  | nil => exact ⟨t, h, rfl, rfl⟩
  | append_singleton es e ih =>
    rw [runs_concat] at h
    obtain ⟨u, hu, hstep⟩ := Option.bind_eq_some_iff.mp h
    obtain ⟨u', hu', hf, hsent⟩ := ih hu
    rw [List.filter_append]
    by_cases he : e.isDeliver
    · obtain ⟨hf', hsent'⟩ := step_deliver_eq hstep he
      exact ⟨u', by simpa [he] using hu', hf.trans hf'.symm, hsent.trans hsent'.symm⟩
    · obtain ⟨t', ht', hsame⟩ := step_other_eq hstep he hf hsent
      refine ⟨t', ?_, hsame⟩
      rw [List.filter_cons_of_pos (by simpa using he), List.filter_nil, runs_concat, hu']
      exact ht'

theorem SameDeliveries.symm {es es' : List Event} (h : SameDeliveries es es') :
    SameDeliveries es' es :=
  ⟨h.others.symm, fun n => (h.delivered n).symm⟩

theorem SameDeliveries.keys_subset {es es' : List Event} {t t' : State}
    (hsame : SameDeliveries es es') (h : runs step .start es = some t)
    (h' : runs step .start es' = some t') : keys t.mgr ⊆ keys t'.mgr := by
  obtain ⟨u, hu, -, hsent⟩ := runs_others h
  obtain ⟨u', hu', -, hsent'⟩ := runs_others h'
  rw [hsame.others, hu'] at hu
  obtain rfl := Option.some.inj hu
  intro a ha
  obtain ⟨n, m, hn, hm, hkey⟩ := exists_delivered h ha
  obtain ⟨m', hm', hsub⟩ := delivered_subset h' ((hsame.delivered n).mp hn)
  rw [← hsent', hsent, hm] at hm'
  obtain rfl := Option.some.inj hm'
  exact hsub hkey

/-- Collection converges: in every run the manager's set only grows, has nothing that was not
inserted, and has all of a snapshot once its message was delivered. The set does not depend
on the order of deliveries or on repetitions. -/
theorem collection_converges (h : runs step .start es = some t) :
    (∀ pre u, pre <+: es → runs step .start pre = some u → keys u.mgr ⊆ keys t.mgr) ∧
    keys t.mgr ⊆ inserted es ∧
    (∀ pre f suf u, es = pre ++ .snapshot f :: suf → runs step .start pre = some u →
      .deliver u.sent.length ∈ suf → keys (u.fuzzers f) ⊆ keys t.mgr) ∧
    ∀ es' t', SameDeliveries es es' → runs step .start es' = some t' →
      keys t'.mgr = keys t.mgr := by
  refine ⟨?_, ?_, ?_, ?_⟩
  · rintro pre u ⟨suf, rfl⟩ hu
    rw [runs_append, hu] at h
    exact keys_mgr_run h
  · intro a ha
    obtain ⟨n, m, -, hm, hkey⟩ := exists_delivered h ha
    exact (subset_inserted h).2 m (List.mem_of_getElem? hm) hkey
  · rintro pre f suf u rfl hu hdeliver
    rw [runs_append, hu] at h
    -- The snapshot becomes the next message, and stays that message.
    have hsuf : runs step { u with sent := u.sent ++ [⟨0, f, u.fuzzers f⟩] } suf = some t := h
    obtain ⟨m, hm, hsub⟩ := delivered_subset hsuf hdeliver
    have hsent : t.sent[u.sent.length]? = some ⟨0, f, u.fuzzers f⟩ :=
      getElem?_of_prefix (sent_prefix_run hsuf) (by simp)
    rw [hm] at hsent
    obtain rfl := Option.some.inj hsent
    exact hsub
  · intro es' t' hsame h'
    exact (hsame.symm.keys_subset h' h).antisymm (hsame.keys_subset h h')

/-- A fuzzer that restarts before its message arrives, twice. -/
theorem collection_converges_restart :
    ∃ t, runs step .start [.insert "a" 1, .snapshot "a", .restart "a", .insert "b" 2, .deliver 0,
      .deliver 0] = some t ∧ 1 ∈ keys t.mgr := by
  obtain ⟨t, ht⟩ : ∃ t, runs step .start [.insert "a" 1, .snapshot "a", .restart "a",
    .insert "b" 2, .deliver 0, .deliver 0] = some t := ⟨_, rfl⟩
  have hsub := (collection_converges ht).2.2.1 [.insert "a" 1] "a"
    [.restart "a", .insert "b" 2, .deliver 0, .deliver 0] _ rfl rfl (by simp [State.start])
  exact ⟨t, ht, hsub (by simp [keys, addAddr, State.start])⟩

end FuzzUSB.Kcov
