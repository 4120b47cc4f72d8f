import FuzzUSB.CorpusManager
import FuzzUSB.RpcInputs

/-!
# The corpus keeps its signal and stays in the database

The entries of the corpus have the signal of every input that was accepted, also when one is
merged into an old entry and when a minimization drops some. A record of an entry is never
deleted.
-/

namespace FuzzUSB.Corpus
open Transition Signal
open Rpc (Outside RPCInput RPCServer NewInputArgs textPrograms oneSignal noSignal)

variable {o : Outside} {pkg : Packages o} {E : Type} {view : o.Sig → E → WithBot ℕ}

namespace Manager

/-- The corpus is a map from hashes to inputs with these hashes. -/
structure WellKeyed (mgr : Manager o) : Prop where
  nodup : (mgr.corpus.map Prod.fst).Nodup
  hashed : ∀ e ∈ mgr.corpus, e.1 = o.hash e.2.prog

/-- Every key of the corpus has a record of a program that parses. -/
def Persistent (mgr : Manager o) : Prop :=
  ∀ e ∈ mgr.corpus, ∃ r ∈ mgr.corpusDB.records, r.1 = e.1 ∧ o.parses r.2

/-- The signals of the entries. -/
def signals (mgr : Manager o) : List o.Sig :=
  mgr.corpus.map fun e => o.signal.deserialize e.2.signal

variable {mgr mgr' : Manager o}

theorem WellKeyed.congr (h : mgr.WellKeyed) (heq : mgr'.corpus = mgr.corpus) :
    mgr'.WellKeyed := ⟨heq ▸ h.nodup, heq ▸ h.hashed⟩

theorem union_signals_le_iff {f : E → WithBot ℕ} :
    union view mgr.signals ≤ f ↔ ∀ e ∈ mgr.corpus, view (o.signal.deserialize e.2.signal) ≤ f := by
  rw [union_le_iff, signals, List.forall_mem_map]

theorem le_union_signals {e : o.Hash × RPCInput o} (he : e ∈ mgr.corpus) :
    view (o.signal.deserialize e.2.signal) ≤ union view mgr.signals :=
  union_signals_le_iff.mp le_rfl e he

/-! ## `newInput` -/

/-- Only the entry at the hash of the input changes, or is new. It has the signal that is left
in `sign`. -/
structure Adds (view : o.Sig → E → WithBot ℕ) (mgr mgr' : Manager o) (inp entry : RPCInput o)
    (sign : o.Sig) : Prop where
  mem : ∀ e, e ∈ mgr'.corpus ↔
    e ∈ mgr.corpus ∧ e.1 ≠ o.hash inp.prog ∨ e = (o.hash inp.prog, entry)
  nodup : (mgr'.corpus.map Prod.fst).Nodup
  hash : o.hash inp.prog = o.hash entry.prog
  signal : view (o.signal.deserialize entry.signal) = view sign
  old : ∀ e ∈ mgr.corpus, e.1 = o.hash inp.prog →
    view (o.signal.deserialize e.2.signal) ≤ view sign

theorem newInput_adds (hlaw : o.signal.Lawful view) (h : mgr.WellKeyed) (inp : RPCInput o) :
    ∃ entry, Adds view mgr (mgr.newInput inp (o.signal.deserialize inp.signal)).1 inp entry
      (mgr.newInput inp (o.signal.deserialize inp.signal)).2 := by
  unfold newInput Rpc.Manager.newInput toRpc
  cases hlookup : List.lookup (o.hash inp.prog) mgr.corpus with
  | none =>
    have hnew : ∀ e ∈ mgr.corpus, e.1 ≠ o.hash inp.prog := fun e he heq => by
      simpa [heq] using List.lookup_eq_none_iff.mp hlookup e he
    refine ⟨inp, fun e => ?_, ?_, rfl, rfl, fun e he heq => absurd heq (hnew e he)⟩
    · simp only [List.mem_append, List.mem_singleton]
      exact or_congr_left ⟨fun he => ⟨he, hnew e he⟩, And.left⟩
    · simp only [List.map_append, List.nodup_append]
      refine ⟨h.nodup, by simp, ?_⟩
      rintro a ha b hb rfl
      obtain ⟨e, he, rfl⟩ := List.mem_map.mp ha
      exact hnew e he (by simpa using hb)
  | some old =>
    obtain ⟨l, l', hsplit, -⟩ := List.lookup_eq_some_iff.mp hlookup
    have hmem : (o.hash inp.prog, old) ∈ mgr.corpus := by simp [hsplit]
    have hold : ∀ e ∈ mgr.corpus, e.1 = o.hash inp.prog → e = (o.hash inp.prog, old) :=
      fun e he heq => List.inj_on_of_nodup_map h.nodup he hmem heq
    refine ⟨_, fun e => mem_map_at hmem, ?_, h.hashed _ hmem, hlaw.view_serial _, ?_⟩
    · have hkeys (f : o.Hash × RPCInput o → RPCInput o) :
          Prod.fst ∘ (fun e => if e.1 = o.hash inp.prog then (e.1, f e) else e) = Prod.fst := by
        funext e
        by_cases heq : e.1 = o.hash inp.prog <;> simp [heq]
      simp only [List.map_map, hkeys]
      exact h.nodup
    · intro e he heq
      rw [hold e he heq, hlaw.view_merge]
      exact le_sup_right

section

variable {inp entry : RPCInput o} {sign : o.Sig}

theorem Adds.wellKeyed (hadd : Adds view mgr mgr' inp entry sign) (h : mgr.WellKeyed) :
    mgr'.WellKeyed := by
  refine ⟨hadd.nodup, fun e he => ?_⟩
  rcases (hadd.mem e).mp he with ⟨hold, -⟩ | rfl
  · exact h.hashed e hold
  · exact hadd.hash

theorem Adds.union_signals (hadd : Adds view mgr mgr' inp entry sign) :
    union view mgr'.signals = union view mgr.signals ⊔ view sign := by
  have hentry : view sign ≤ union view mgr'.signals := by
    have hle : view (o.signal.deserialize entry.signal) ≤ union view mgr'.signals :=
      le_union_signals ((hadd.mem _).mpr (.inr rfl))
    rwa [hadd.signal] at hle
  apply le_antisymm
  · refine union_signals_le_iff.mpr fun e he => ?_
    rcases (hadd.mem e).mp he with ⟨hold, -⟩ | rfl
    · exact (le_union_signals hold).trans le_sup_left
    · exact hadd.signal.le.trans le_sup_right
  · refine sup_le (union_signals_le_iff.mpr fun e he => ?_) hentry
    by_cases heq : e.1 = o.hash inp.prog
    · exact (hadd.old e he heq).trans hentry
    · exact le_union_signals ((hadd.mem e).mpr (.inl ⟨he, heq⟩))

/-- A new key is saved, and an old one has its record. -/
theorem Adds.persistent {sign' : o.Sig}
    (hadd : Adds view mgr (mgr.newInput inp sign').1 inp entry sign) (h : mgr.Persistent)
    (hparses : o.parses inp.prog) : (mgr.newInput inp sign').1.Persistent := by
  have hdb : (mgr.newInput inp sign').1.corpusDB =
      if (List.lookup (o.hash inp.prog) mgr.corpus).isSome then mgr.corpusDB
      else mgr.corpusDB.save (o.hash inp.prog) inp.prog := rfl
  intro e he
  rw [hdb]
  rcases (hadd.mem e).mp he with ⟨hold, hne⟩ | rfl
  · obtain ⟨r, hr, hkey, hp⟩ := h e hold
    refine ⟨r, ?_, hkey, hp⟩
    split
    · exact hr
    · exact DB.mem_save.mpr (.inl ⟨hr, hkey ▸ hne⟩)
  · split
    · next hsome =>
      obtain ⟨old, hlookup⟩ := Option.isSome_iff_exists.mp hsome
      obtain ⟨l, l', hsplit, -⟩ := List.lookup_eq_some_iff.mp hlookup
      exact h (o.hash inp.prog, old) (by simp [hsplit])
    · exact ⟨_, DB.mem_save.mpr (.inr rfl), rfl, hparses⟩

end

/-! ## `minimizeCorpus` -/

section

variable (hmin : Minimizes view pkg.minimize) (seed : ℕ)

include hmin

/-- A minimization only drops entries. -/
theorem mem_of_mem_minimizeCorpus (h : mgr.WellKeyed) {e : o.Hash × RPCInput o}
    (he : e ∈ (mgr.minimizeCorpus pkg seed).corpus) : e ∈ mgr.corpus := by
  rw [minimizeCorpus_corpus] at he
  split at he
  · obtain ⟨kept, hsub, heq, -⟩ := hmin seed mgr.contexts
    obtain ⟨hinp, hkey⟩ := mem_of_mem_keyed he
    rw [heq] at hinp
    obtain ⟨c, hc, hc2⟩ := List.mem_map.mp hinp
    obtain ⟨e', he', rfl⟩ := List.mem_map.mp (hsub hc)
    have heq' : e' = e := Prod.ext ((h.hashed e' he').trans (hc2 ▸ hkey.symm)) hc2
    exact heq' ▸ he'
  · exact he

theorem WellKeyed.minimizeCorpus (h : mgr.WellKeyed) :
    (mgr.minimizeCorpus pkg seed).WellKeyed := by
  refine ⟨?_, fun e he => h.hashed e (mem_of_mem_minimizeCorpus hmin seed h he)⟩
  rw [minimizeCorpus_corpus]
  split
  · exact keyed_nodup _
  · exact h.nodup

/-- What is dropped has no signal of its own. -/
theorem union_signals_minimizeCorpus (h : mgr.WellKeyed) :
    union view (mgr.minimizeCorpus pkg seed).signals = union view mgr.signals := by
  apply le_antisymm
  · exact union_signals_le_iff.mpr fun e he =>
      le_union_signals (mem_of_mem_minimizeCorpus hmin seed h he)
  · have hsub := fun e => mem_of_mem_minimizeCorpus (e := e) hmin seed h
    by_cases hdue : mgr.minimizes
    · obtain ⟨kept, hkept, heq, hunion⟩ := hmin seed mgr.contexts
      have hall : union view mgr.signals = union view (kept.map Prod.fst) := by
        rw [hunion, contexts, List.map_map]
        rfl
      rw [hall, union_le_iff, List.forall_mem_map]
      intro c hc
      obtain ⟨e, he, rfl⟩ := List.mem_map.mp (hkept hc)
      -- The hash of a context that is kept is a key, and the entry there is the old one.
      have hkey : e.1 ∈ (mgr.minimizeCorpus pkg seed).corpus.map Prod.fst := by
        rw [minimizeCorpus_corpus, if_pos hdue, mem_keyed_keys, heq]
        exact ⟨e.2, List.mem_map.mpr ⟨_, hc, rfl⟩, (h.hashed e he).symm⟩
      obtain ⟨e', he', hkeys⟩ := List.mem_map.mp hkey
      have heq' : e' = e := List.inj_on_of_nodup_map h.nodup (hsub e' he') he hkeys
      exact le_union_signals (heq' ▸ he')
    · rw [signals, signals, minimizeCorpus_corpus, if_neg hdue]

theorem Persistent.minimizeCorpus (h : mgr.Persistent) (hkeyed : mgr.WellKeyed) :
    (mgr.minimizeCorpus pkg seed).Persistent := by
  intro e he
  obtain ⟨r, hr, hkey, hparses⟩ := h e (mem_of_mem_minimizeCorpus hmin seed hkeyed he)
  refine ⟨r, mem_minimizeCorpus_corpusDB.mpr ⟨hr, fun _ _ => .inl ?_⟩, hkey, hparses⟩
  exact hkey ▸ List.mem_map_of_mem he

end

/-! ## `loadCorpus` -/

theorem Persistent.loadCorpus {syscalls : List ℕ} {order : List o.Hash} {rand : ℕ → ℕ}
    (h : mgr.Persistent) (hload : mgr.loadCorpus pkg syscalls order rand = some mgr') :
    mgr'.Persistent := by
  obtain ⟨-, -, hcorpus, hkeep⟩ := loadCorpus_spec hload
  intro e he
  obtain ⟨r, hr, hkey, hparses⟩ := h e (hcorpus ▸ he)
  exact ⟨r, hkeep r hr hparses, hkey, hparses⟩

end Manager

/-! ## Any number of fuzzers -/

/-- The signal of the input that a `NewInput` has put into the corpus only. -/
def State.inFlight (view : o.Sig → E → WithBot ℕ) (s : State o) : E → WithBot ℕ :=
  match s.newInput with
  | some (_, sign) => view sign
  | none => ⊥

/-- The entries of the corpus have the signal of `serv.corpusSignal`, with that of an input
whose `NewInput` has not come to merging it, and every key of the corpus has a record. -/
structure CorpusKept (view : o.Sig → E → WithBot ℕ) (s : State o) : Prop where
  signal : s.newInput = none → union view s.mgr.signals = view s.serv.corpusSignal
  within : ∀ a sign, s.newInput = some (a, sign) →
    union view s.mgr.signals = view s.serv.corpusSignal ⊔ view sign
  records : ∀ k ∈ s.mgr.corpus.map Prod.fst, k ∈ s.mgr.corpusDB.records.map Prod.fst

/-- The invariant of the runs. -/
structure Covered (view : o.Sig → E → WithBot ℕ) (s : State o) : Prop where
  wellKeyed : s.mgr.WellKeyed
  persistent : s.mgr.Persistent
  signal : union view s.mgr.signals = view s.serv.corpusSignal ⊔ s.inFlight view

variable {s t : State o} {e : Event o}

theorem Covered.corpusKept (h : Covered view s) : CorpusKept view s where
  signal hfree := by simpa [State.inFlight, hfree] using h.signal
  within a sign hnew := by simpa [State.inFlight, hnew] using h.signal
  records k hk := by
    obtain ⟨e, he, rfl⟩ := List.mem_map.mp hk
    obtain ⟨r, hr, hkey, -⟩ := h.persistent e he
    exact hkey ▸ List.mem_map_of_mem hr

/-- What the candidates and phases are does not matter. -/
theorem Covered.congr (h : Covered view s) (hcorpus : t.mgr.corpus = s.mgr.corpus)
    (hdb : t.mgr.corpusDB = s.mgr.corpusDB) (hserv : t.serv.corpusSignal = s.serv.corpusSignal)
    (hnew : t.newInput = s.newInput) : Covered view t where
  wellKeyed := h.wellKeyed.congr hcorpus
  persistent e he := hdb ▸ h.persistent e (hcorpus ▸ he)
  signal := by
    have hsignals : t.mgr.signals = s.mgr.signals := by rw [Manager.signals, hcorpus]; rfl
    have hflight : t.inFlight view = s.inFlight view := by rw [State.inFlight, hnew]; rfl
    rw [hsignals, hserv, hflight, h.signal]

theorem Covered.step (hlaw : o.signal.Lawful view) (hmin : Minimizes view pkg.minimize)
    (h : Covered view s) (hstep : step pkg s e = some t) : Covered view t := by
  have hminimized (seed : ℕ) (t : State o) (hmgr : t.mgr = s.mgr.minimizeCorpus pkg seed)
      (hserv : t.serv = s.serv) (hnew : t.newInput = s.newInput) : Covered view t := by
    refine ⟨?_, ?_, ?_⟩
    · rw [hmgr]
      exact h.wellKeyed.minimizeCorpus hmin seed
    · rw [hmgr]
      exact h.persistent.minimizeCorpus hmin seed h.wellKeyed
    · rw [hmgr, Manager.union_signals_minimizeCorpus hmin seed h.wellKeyed, h.signal, hserv,
        State.inFlight, State.inFlight, hnew]
  cases step_cases hstep with
  | check hfree hnew hload =>
    obtain ⟨-, -, hcorpus, -⟩ := Manager.loadCorpus_spec hload
    refine ⟨h.wellKeyed.congr hcorpus, h.persistent.loadCorpus hload, ?_⟩
    simpa [Manager.signals, hcorpus, State.inFlight] using h.signal
  | checkAgain | reject => exact h
  | snapshot => exact hminimized _ _ rfl rfl rfl
  | minimize => exact hminimized _ _ rfl rfl rfl
  | register | addNewCandidates | triaged | lost => exact h.congr rfl rfl rfl rfl
  | @accept a hfree haccepts =>
    obtain ⟨entry, hadd⟩ := Manager.newInput_adds hlaw h.wellKeyed a.input
    have hparses : o.parses a.input.prog := (Bool.and_eq_true_iff.mp haccepts).1
    refine ⟨hadd.wellKeyed h.wellKeyed, hadd.persistent h.persistent hparses, ?_⟩
    have hflight : s.inFlight view = ⊥ := by simp [State.inFlight, hfree]
    rw [State.accept, hadd.union_signals, h.signal, hflight, sup_bot_eq]
    rfl
  | @handOut a sign hnew =>
    refine ⟨h.wellKeyed, h.persistent, ?_⟩
    have hsignal := h.signal
    simp only [State.inFlight, hnew] at hsignal
    simpa [State.inFlight, RPCServer.handOut, hlaw.view_merge] using hsignal
  | @poll a seed r hfree hpoll =>
    obtain ⟨-, -, hserv⟩ := poll_batch hpoll
    have hmgr : (s.batch a).2.corpus = s.mgr.corpus ∧
        (s.batch a).2.corpusDB = s.mgr.corpusDB := by
      unfold State.batch
      split <;> exact ⟨rfl, rfl⟩
    exact h.congr hmgr.1 hmgr.2 hserv rfl

/-- In every run, the corpus has the signal of all inputs, and its records. -/
theorem corpusKept_always (hlaw : o.signal.Lawful view) (hmin : Minimizes view pkg.minimize)
    (batchSize : ℕ) (zero : o.Sig) (hzero : o.signal.empty zero) (corpusDB : DB o)
    (hubClient : Bool) (es : List (Event o)) :
    Always (step pkg) (CorpusKept view) (.start batchSize zero corpusDB hubClient) es := by
  have hbot : view zero = ⊥ := (hlaw.empty_iff zero).mp hzero
  have hstart : Covered view (.start batchSize zero corpusDB hubClient) := by
    refine ⟨⟨List.nodup_nil, fun e he => ?_⟩, fun e he => ?_, ?_⟩
    · cases he
    · cases he
    · simp [State.start, Manager.signals, State.inFlight, hbot]
  rw [always_iff]
  intro pre t _ ht
  exact (runs_invariant (fun _ _ _ hs h => hs.step hlaw hmin h) hstart ht).corpusKept

/-- Every program calls syscall 1. -/
def textPackages : Packages textPrograms := ⟨fun _ => [1], minimizeMaps⟩

/-- A database with one program. -/
def oneRecord : DB textPrograms := ⟨3, [("r0 = openat()", "r0 = openat()")], by decide⟩

/-- A second input has the signal of the first, which a minimization drops. -/
theorem corpusKept_always_dropped :
    Always (step textPackages) (CorpusKept PrioMap.prio)
      (.start 5 noSignal oneRecord false)
      [.check [1] ["r0 = openat()"] id, .snapshot 0 "vm-0" 0 [], .register 0,
       .poll ⟨"vm-0", true, noSignal, []⟩ 0,
       .accept ⟨"vm-0", "read", "read()", oneSignal 7, []⟩, .handOut,
       .accept ⟨"vm-0", "close", "close()", (oneSignal 7).merge (oneSignal 8), []⟩, .handOut,
       .minimize 0, .accept ⟨"vm-0", "read", "read()", oneSignal 9, []⟩, .handOut] :=
  corpusKept_always (o := textPrograms) prioMaps_lawful minimizeMaps_minimizes 5 noSignal
    (by decide) oneRecord false _

end FuzzUSB.Corpus
