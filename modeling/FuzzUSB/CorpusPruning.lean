import FuzzUSB.CorpusCoverage

/-!
# Pruning the database

A minimization deletes records once the phase says that the corpus is triaged. The phase says
so when the last candidates are handed out, and fuzzers triage them later.
-/

namespace FuzzUSB.Corpus
open Transition Signal
open Rpc (Outside RPCInput PollArgs textPrograms oneSignal noSignal takeLast takeLast_perm)

variable {o : Outside} {pkg : Packages o}

/-- A copy of the program that `loadCorpus` made is a candidate of the manager, or of a fuzzer
that has not finished triaging it. -/
def State.Untriaged (s : State o) (p : o.Prog) : Prop :=
  ∃ c : Candidate o, c.fromDB ∧ c.prog = p ∧ (c ∈ s.mgr.candidates ∨ ∃ n, c ∈ s.hands n)

/-- The minimization of an event. -/
def Event.minimizing : Event o → Option ℕ
  | .snapshot _ _ seed _ => some seed
  | .minimize seed => some seed
  | _ => none

/-- If the step minimizes the corpus, it deletes the records of no program that is still to be
triaged. -/
def PrunesTriaged (pkg : Packages o) (s : State o) (e : Event o) : Prop :=
  ∀ seed, e.minimizing = some seed → ∀ r ∈ s.mgr.corpusDB.records,
    r ∉ (s.mgr.minimizeCorpus pkg seed).corpusDB.records → ¬s.Untriaged r.2

/-- If the step minimizes a corpus that has grown, in a phase that prunes, then no fuzzer holds
a candidate that `loadCorpus` made. -/
def PrunesUnheld (s : State o) (e : Event o) : Prop :=
  e.minimizing.isSome → s.mgr.minimizes → ¬s.mgr.phase < .triagedCorpus →
    ∀ n, ∀ c ∈ s.hands n, c.fromDB = false

/-- In a phase that prunes, the manager has no candidates left that `loadCorpus` made. -/
def Drained (s : State o) : Prop :=
  ¬s.mgr.phase < .triagedCorpus → ∀ c ∈ s.mgr.candidates, c.fromDB = false

variable {s t : State o} {e : Event o}

theorem Drained.congr (h : Drained s) (hphase : t.mgr.phase = s.mgr.phase)
    (hcandidates : t.mgr.candidates = s.mgr.candidates) : Drained t := by
  intro hp c hc
  exact h (hphase ▸ hp) c (hcandidates ▸ hc)

/-- The phase goes on when the candidates are used up. -/
theorem Drained.batch (h : Drained s) (a : PollArgs o) {serv : Rpc.RPCServer o} :
    Drained (s.answered a serv) := by
  unfold Drained State.answered State.batch
  split
  · intro hphase c hc
    simp only [Manager.candidateBatch] at hphase hc
    have hmem : c ∈ s.mgr.candidates := by
      have hperm := takeLast_perm s.serv.batchSize s.mgr.candidates []
      exact List.append_nil s.mgr.candidates ▸ hperm.subset (List.mem_append_left _ hc)
    cases hleft : (takeLast s.serv.batchSize s.mgr.candidates []).2 with
    | nil => simp [hleft] at hc
    | cons => exact h (by simpa [hleft] using hphase) c hmem
  · exact h

theorem Drained.step (h : Drained s) (hstep : step pkg s e = some t) : Drained t := by
  cases step_cases hstep with
  | check hfree hnew hload =>
    obtain ⟨-, hphase, -⟩ := Manager.loadCorpus_spec hload
    intro hprunes
    rw [hphase] at hprunes
    exact absurd (by decide) hprunes
  | checkAgain | reject => exact h
  | snapshot | minimize =>
    apply h.congr <;> simp only <;> rw [Manager.minimizeCorpus_eq]
  | register | accept | handOut | triaged | lost => exact h.congr rfl rfl
  | @poll a => exact h.batch a
  | addNewCandidates =>
    intro hprunes c hc
    simp only [Manager.addNewCandidates, List.mem_append, List.mem_map] at hprunes hc
    rcases hc with hc | ⟨p, -, rfl⟩
    · refine h (fun hlt => hprunes ?_) c hc
      have hne : s.mgr.phase ≠ .triagedCorpus := by
        intro heq
        rw [heq] at hlt
        exact absurd hlt (by decide)
      rwa [if_neg hne]
    · rfl

/-- What a minimization deletes. -/
theorem deleted_iff {mgr : Manager o} {seed : ℕ} {r : o.Hash × o.Prog}
    (hr : r ∈ mgr.corpusDB.records) :
    r ∉ (mgr.minimizeCorpus pkg seed).corpusDB.records ↔
      mgr.minimizes ∧ ¬mgr.phase < .triagedCorpus ∧
        ¬((∃ inp ∈ pkg.minimize seed mgr.contexts, o.hash inp.prog = r.1) ∨
          r.1 ∈ mgr.disabledHashes) := by
  rw [Manager.mem_minimizeCorpus_corpusDB, Manager.minimizeCorpus_corpus]
  by_cases hmin : mgr.minimizes
  · simp only [hr, hmin, if_true, mem_keyed_keys, true_and, true_imp_iff, Classical.not_imp]
  · simp [hr, hmin]

theorem PrunesUnheld.prunesTriaged (hheld : PrunesUnheld s e) (h : Drained s) :
    PrunesTriaged pkg s e := by
  rintro seed heq r hr hdeleted ⟨c, hdb, -, hc⟩
  obtain ⟨hmin, hphase, -⟩ := (deleted_iff hr).mp hdeleted
  have hnot : c.fromDB = false := by
    rcases hc with hc | ⟨n, hc⟩
    · exact h hphase c hc
    · exact hheld (by simp [heq]) hmin hphase n c hc
  simp [hnot] at hdb

/-- In every run in which the database is pruned only while fuzzers hold none of its programs,
minimizations delete the records of triaged programs only. -/
theorem prunesTriaged_of_unheld (batchSize : ℕ) (zero : o.Sig) (corpusDB : DB o)
    (hubClient : Bool) (es : List (Event o))
    (h : AlwaysStep (step pkg) PrunesUnheld (.start batchSize zero corpusDB hubClient) es) :
    AlwaysStep (step pkg) (PrunesTriaged pkg) (.start batchSize zero corpusDB hubClient) es := by
  have hstart : Drained (.start batchSize zero corpusDB hubClient) := fun _ c hc => by cases hc
  exact h.mono (fun s e t hs hst => hs.step hst) (fun s e t hs _ hheld => hheld.prunesTriaged hs)
    hstart

/-- A database with two programs. -/
def twoRecords : DB textPrograms :=
  ⟨3, [("r0 = openat()", "r0 = openat()"), ("read()", "read()")], by decide⟩

/-- "vm-0" has all the candidates, and has sent the input of one of them. -/
def firstTriage : List (Event textPrograms) :=
  [.check [1] ["r0 = openat()", "read()"] id, .snapshot 0 "vm-0" 0 [], .register 0,
   .poll ⟨"vm-0", true, noSignal, []⟩ 0,
   .accept ⟨"vm-0", "openat", "r0 = openat()", oneSignal 7, []⟩, .handOut]

/-- "vm-1" connects when "vm-0" is done with all of them. -/
def latePruning : List (Event textPrograms) :=
  firstTriage ++ List.replicate 4 (.triaged "vm-0" 0) ++ [.snapshot 1 "vm-1" 0 ["r0 = openat()"]]

/-- "vm-0" held nothing when the record of the program without new signal was deleted. -/
theorem prunesTriaged_of_unheld_latePruning :
    AlwaysStep (step textPackages) (PrunesTriaged textPackages)
      (.start 5 noSignal twoRecords false) latePruning ∧
    (runs (step textPackages) (.start 5 noSignal twoRecords false) latePruning).map
      (fun s => s.mgr.corpusDB.records) = some [("r0 = openat()", "r0 = openat()")] := by
  refine ⟨prunesTriaged_of_unheld 5 noSignal twoRecords false latePruning ?_, rfl⟩
  refine .cons rfl nofun (.cons rfl (fun _ hmin => ?_) (.cons rfl nofun (.cons rfl nofun
    (.cons rfl nofun (.cons rfl nofun (.cons rfl nofun (.cons rfl nofun (.cons rfl nofun
      (.cons rfl nofun (.cons rfl (fun _ _ _ n c hc => ?_) trivial))))))))))
  · -- The corpus is still empty.
    exact absurd hmin (by decide +kernel)
  · rcases eq_or_ne n "vm-0" with rfl | hn
    · exact absurd hc List.not_mem_nil
    · simp [State.answered, State.accept, State.start, hn] at hc

/-! ## A pruning that is too early -/

/-- "vm-1" connects before that. -/
theorem earlyPruning_deletes :
    ¬AlwaysStep (step textPackages) (PrunesTriaged textPackages)
      (.start 5 noSignal twoRecords false)
      (firstTriage ++ [.snapshot 1 "vm-1" 0 ["r0 = openat()"]]) := by
  intro h
  have hlast := alwaysStep_iff.mp h firstTriage _ _ _ (List.prefix_refl _) rfl rfl
  refine hlast 0 rfl ("read()", "read()") (.head _) (fun hkept => ?_) ?_
  · exact absurd (List.mem_map_of_mem (f := Prod.fst) hkept) (by decide +kernel)
  · exact ⟨⟨⟨"read()", true, true⟩, true⟩, rfl, rfl, .inr ⟨"vm-0", .head _⟩⟩

end FuzzUSB.Corpus
