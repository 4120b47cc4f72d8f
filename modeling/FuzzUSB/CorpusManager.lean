import FuzzUSB.RpcServer
import Mathlib.Data.List.Nodup

/-!
# The corpus of the manager

The corpus in memory, its database, and the candidates that fuzzers have to triage first. The
phase says how far the triage is. Everything of the manager is under `mgr.mu`, and `NewInput`,
`Check` and `Poll` hold `serv.mu` as well.
-/

namespace FuzzUSB.Corpus
open Transition Signal
open Rpc (Outside RPCInput RPCCandidate NewInputArgs PollArgs PollRes RPCServer takeLast
  takeLast_perm)

/-! ## Maps -/

section

variable {K V : Type} [DecidableEq K]

/-- `m[k] = v` -/
def setKey (m : List (K × V)) (k : K) (v : V) : List (K × V) := m.filter (·.1 ≠ k) ++ [(k, v)]

theorem mem_setKey {m : List (K × V)} {k : K} {v : V} {p : K × V} :
    p ∈ setKey m k v ↔ p ∈ m ∧ p.1 ≠ k ∨ p = (k, v) := by
  simp [setKey]

theorem setKey_nodup {m : List (K × V)} (h : (m.map Prod.fst).Nodup) (k : K) (v : V) :
    ((setKey m k v).map Prod.fst).Nodup := by
  rw [setKey, List.map_append, List.nodup_append]
  refine ⟨h.sublist (List.filter_sublist.map _), by simp, ?_⟩
  rintro a ha b hb rfl
  obtain ⟨p, hp, rfl⟩ := List.mem_map.mp ha
  have hne : p.1 ≠ k := of_decide_eq_true (List.mem_filter.mp hp).2
  exact hne (by simpa using hb)

/-- The entries of a map when the one at `k` is set. -/
theorem mem_map_at {m : List (K × V)} {k : K} {v w : V}
    (hk : (k, v) ∈ m) {p : K × V} :
    p ∈ m.map (fun e => if e.1 = k then (e.1, w) else e) ↔ p ∈ m ∧ p.1 ≠ k ∨ p = (k, w) := by
  rw [List.mem_map]
  constructor
  · rintro ⟨e, he, rfl⟩
    by_cases heq : e.1 = k
    · exact .inr (by simp [heq])
    · exact .inl (by simp [heq, he])
  · rintro (⟨hp, hne⟩ | rfl)
    · exact ⟨p, hp, if_neg hne⟩
    · exact ⟨(k, v), hk, if_pos rfl⟩

end

variable {o : Outside}

/-- `corpus.db` -/
structure DB (o : Outside) where
  version : ℕ
  records : List (o.Hash × o.Prog)
  nodup : (records.map Prod.fst).Nodup

namespace DB

def save (db : DB o) (key : o.Hash) (val : o.Prog) : DB o where
  version := db.version
  records := setKey db.records key val
  nodup := setKey_nodup db.nodup key val

/-- `Delete` of the keys that are not to be kept. -/
def retain (db : DB o) (keep : o.Hash → Bool) : DB o where
  version := db.version
  records := db.records.filter fun r => keep r.1
  nodup := db.nodup.sublist (List.filter_sublist.map _)

def delete (db : DB o) (key : o.Hash) : DB o := db.retain (· ≠ key)

def bumpVersion (db : DB o) (version : ℕ) : DB o := { db with version }

@[simp] theorem mem_save {db : DB o} {key : o.Hash} {val : o.Prog} {r : o.Hash × o.Prog} :
    r ∈ (db.save key val).records ↔ r ∈ db.records ∧ r.1 ≠ key ∨ r = (key, val) :=
  mem_setKey

@[simp] theorem mem_retain {db : DB o} {keep : o.Hash → Bool} {r : o.Hash × o.Prog} :
    r ∈ (db.retain keep).records ↔ r ∈ db.records ∧ keep r.1 :=
  List.mem_filter

@[simp] theorem mem_delete {db : DB o} {key : o.Hash} {r : o.Hash × o.Prog} :
    r ∈ (db.delete key).records ↔ r ∈ db.records ∧ r.1 ≠ key := by
  simp [delete]

@[simp] theorem bumpVersion_records (db : DB o) (version : ℕ) :
    (db.bumpVersion version).records = db.records := rfl

end DB

inductive Phase
  | init
  | loadedCorpus
  | triagedCorpus
  | queriedHub
  | triagedHub
  deriving DecidableEq

namespace Phase

def toNat : Phase → ℕ
  | init => 0
  | loadedCorpus => 1
  | triagedCorpus => 2
  | queriedHub => 3
  | triagedHub => 4

instance : LT Phase := ⟨fun p q => p.toNat < q.toNat⟩

instance (p q : Phase) : Decidable (p < q) := inferInstanceAs (Decidable (p.toNat < q.toNat))

/-- The phase when there are no candidates left. -/
def drained (hubClient : Bool) : Phase → Phase
  | loadedCorpus => if hubClient then triagedCorpus else triagedHub
  | queriedHub => triagedHub
  | phase => phase

end Phase

/-- A candidate, and whether `loadCorpus` made it. -/
structure Candidate (o : Outside) extends RPCCandidate o where
  fromDB : Bool

structure Manager (o : Outside) where
  phase : Phase
  candidates : List (Candidate o)
  disabledHashes : List o.Hash
  corpus : List (o.Hash × RPCInput o)
  lastMinCorpus : ℕ
  corpusDB : DB o
  /-- `cfg.HubClient` is not empty. -/
  hubClient : Bool

/-- What the manager calls besides the server's packages. -/
structure Packages (o : Outside) where
  /-- The IDs of the calls of a program that parses. -/
  calls : o.Prog → List ℕ
  /-- `signal.Minimize`, when maps are gone through in the order `seed`. -/
  minimize : (seed : ℕ) → List (o.Sig × RPCInput o) → List (RPCInput o)

def currentDBVersion : ℕ := 3

/-- `shuffle[i], shuffle[j] = shuffle[j], shuffle[i]` -/
def swap {α : Type} (xs : List α) (i j : ℕ) : List α :=
  match xs[i]?, xs[j]? with
  | some a, some b => (xs.set i b).set j a
  | _, _ => xs

/-- The loop that swaps each element with itself or one behind it. -/
def shuffle {α : Type} (rand : ℕ → ℕ) (xs : List α) : List α :=
  (List.range xs.length).foldl (fun ys i => swap ys i (i + rand i % (ys.length - i))) xs

/-- `newCorpus` of `minimizeCorpus`. -/
def keyed (inputs : List (RPCInput o)) : List (o.Hash × RPCInput o) :=
  inputs.foldl (fun newCorpus inp => setKey newCorpus (o.hash inp.prog) inp) []

namespace Manager

/-- The manager as the RPC server has it. -/
def toRpc (mgr : Manager o) : Rpc.Manager o := ⟨mgr.corpus, mgr.candidates.map (·.toRPCCandidate)⟩

/-- The loop of `loadCorpus`. -/
def loadRecord (pkg : Packages o) (syscalls : List ℕ) (mgr : Manager o)
    (rec : o.Hash × o.Prog) : Manager o :=
  if !o.parses rec.2 then { mgr with corpusDB := mgr.corpusDB.delete rec.1 }
  else if (pkg.calls rec.2).any (· ∉ syscalls) then
    { mgr with disabledHashes := mgr.disabledHashes ++ [o.hash rec.2] }
  else
    -- Old versions of the database minimize and smash again.
    let minimized := decide (mgr.corpusDB.version ∉ [0, 1])
    let smashed := decide (mgr.corpusDB.version ∉ [0, 1, 2])
    { mgr with candidates := mgr.candidates ++ [⟨⟨rec.2, minimized, smashed⟩, true⟩] }

/-- `loadCorpus`, which goes through the records in any order. -/
def loadCorpus (pkg : Packages o) (mgr : Manager o) (syscalls : List ℕ) (order : List o.Hash)
    (rand : ℕ → ℕ) : Option (Manager o) :=
  if order.Perm (mgr.corpusDB.records.map Prod.fst) then
    let records := order.filterMap fun key =>
      (List.lookup key mgr.corpusDB.records).map fun val => (key, val)
    let mgr := records.foldl (loadRecord pkg syscalls) mgr
    let mgr := { mgr with candidates := mgr.candidates ++ shuffle rand mgr.candidates }
    if mgr.phase = .init then some { mgr with phase := .loadedCorpus } else none
  else none

/-- `inputs` of `minimizeCorpus`. -/
def contexts (mgr : Manager o) : List (o.Sig × RPCInput o) :=
  mgr.corpus.map fun e => (o.signal.deserialize e.2.signal, e.2)

/-- A minimization is not cut short. -/
def minimizes (mgr : Manager o) : Bool :=
  !(mgr.phase < .loadedCorpus || mgr.corpus.length ≤ mgr.lastMinCorpus * 101 / 100)

/-- The second half of `minimizeCorpus`. -/
def pruneCorpusDB (mgr : Manager o) : Manager o :=
  -- The persistent corpus stays until fuzzers have triaged all inputs from it.
  if mgr.phase < .triagedCorpus then mgr
  else
    { mgr with
      corpusDB := (mgr.corpusDB.retain fun key =>
        (mgr.corpus.map Prod.fst).contains key ||
          mgr.disabledHashes.contains key).bumpVersion currentDBVersion }

def minimizeCorpus (pkg : Packages o) (mgr : Manager o) (seed : ℕ) : Manager o :=
  if mgr.minimizes then
    let newCorpus := keyed (pkg.minimize seed mgr.contexts)
    pruneCorpusDB { mgr with corpus := newCorpus, lastMinCorpus := newCorpus.length }
  else mgr

def fuzzerConnect (pkg : Packages o) (mgr : Manager o) (seed : ℕ) (order : List o.Hash) :
    Option (List (RPCInput o) × Manager o) :=
  let mgr := mgr.minimizeCorpus pkg seed
  if order.Perm (mgr.corpus.map Prod.fst) then
    some (order.filterMap fun h => List.lookup h mgr.corpus, mgr)
  else none

/-- `newInput`, and what it leaves in the signal that it is given. -/
def newInput (mgr : Manager o) (inp : RPCInput o) (sign : o.Sig) : Manager o × o.Sig :=
  let sig := o.hash inp.prog
  let accepted := mgr.toRpc.newInput inp sign
  let corpusDB := if (List.lookup sig mgr.corpus).isSome then mgr.corpusDB
    else mgr.corpusDB.save sig inp.prog
  ({ mgr with corpus := accepted.1.corpus, corpusDB }, accepted.2)

def candidateBatch (mgr : Manager o) (size : ℕ) : List (Candidate o) × Manager o :=
  let batch := takeLast size mgr.candidates []
  let phase := if batch.2.isEmpty then mgr.phase.drained mgr.hubClient else mgr.phase
  (batch.1, { mgr with candidates := batch.2, phase })

def addNewCandidates (mgr : Manager o) (progs : List o.Prog) : Manager o :=
  { mgr with
    candidates := mgr.candidates ++ progs.map fun inp => ⟨⟨inp, false, false⟩, false⟩
    phase := if mgr.phase = .triagedCorpus then .queriedHub else mgr.phase }

end Manager

/-! ## Any number of fuzzers -/

structure State (o : Outside) where
  serv : RPCServer o
  /-- `serv.checkResult` is set. -/
  checked : Bool
  mgr : Manager o
  /-- The `Connect` calls that have their snapshots. -/
  conns : ℕ → Option (String × List (RPCInput o))
  /-- The `NewInput` that has its input in the corpus and holds `serv.mu`. -/
  newInput : Option (NewInputArgs o × o.Sig)
  /-- What a fuzzer has got from `candidateBatch` and has not finished triaging. -/
  hands : String → List (Candidate o)

inductive Event (o : Outside)
  | check (syscalls : List ℕ) (order : List o.Hash) (rand : ℕ → ℕ)
  /-- The first half of the `Connect` of this number. -/
  | snapshot (conn : ℕ) (name : String) (seed : ℕ) (order : List o.Hash)
  | register (conn : ℕ)
  /-- `minimizeCorpus` of the hub's loop or of the bench file's. -/
  | minimize (seed : ℕ)
  /-- `NewInput` up to `mgr.newInput`. -/
  | accept (a : NewInputArgs o)
  /-- The rest of `NewInput`. -/
  | handOut
  | poll (a : PollArgs o) (seed : ℕ)
  /-- The hub has programs. -/
  | addNewCandidates (progs : List o.Prog)
  /-- A fuzzer is done with one of its candidates. -/
  | triaged (name : String) (i : ℕ)
  /-- A fuzzer is gone, and its candidates with it. -/
  | lost (name : String)

namespace State

/-- `signal.Signal` starts as `zero`. -/
def start (batchSize : ℕ) (zero : o.Sig) (corpusDB : DB o) (hubClient : Bool) : State o where
  serv := ⟨batchSize, fun _ => none, zero, zero, o.noCover⟩
  checked := false
  mgr := ⟨.init, [], [], [], 0, corpusDB, hubClient⟩
  conns _ := none
  newInput := none
  hands _ := []

variable (s : State o)

/-- An input is accepted. -/
def accept (a : NewInputArgs o) : State o :=
  let accepted := s.mgr.newInput a.input (o.signal.deserialize a.input.signal)
  { s with mgr := accepted.1, newInput := some (a, accepted.2) }

/-- What `Poll` gets from `candidateBatch`. -/
def batch (a : PollArgs o) : List (Candidate o) × Manager o :=
  if a.needCandidates then s.mgr.candidateBatch s.serv.batchSize else ([], s.mgr)

/-- A poll has an answer. -/
def answered (a : PollArgs o) (serv : RPCServer o) : State o :=
  { s with
    serv
    mgr := (s.batch a).2
    hands := Function.update s.hands a.name (s.hands a.name ++ (s.batch a).1) }

end State

variable (pkg : Packages o)

/-- The snapshot, the minimizations and the programs of the hub take `mgr.mu` only. -/
def step (s : State o) : Event o → Option (State o)
  | .check syscalls order rand =>
    if s.newInput.isSome then none
    else if s.checked then some s
    else (s.mgr.loadCorpus pkg syscalls order rand).map fun mgr => { s with mgr, checked := true }
  | .snapshot conn name seed order =>
    if (s.conns conn).isSome then none
    else (s.mgr.fuzzerConnect pkg seed order).map fun r =>
      { s with mgr := r.2, conns := Function.update s.conns conn (some (name, r.1)) }
  | .register conn =>
    if s.newInput.isSome then none
    else (s.conns conn).map fun c =>
      { s with serv := s.serv.register c.1 c.2, conns := Function.update s.conns conn none }
  | .minimize seed => some { s with mgr := s.mgr.minimizeCorpus pkg seed }
  | .accept a =>
    if s.newInput.isSome then none else if s.serv.accepts a then some (s.accept a) else some s
  | .handOut =>
    s.newInput.map fun r => { s with serv := s.serv.handOut r.1 r.2, newInput := none }
  | .poll a seed =>
    if s.newInput.isSome then none
    else (s.serv.poll s.mgr.toRpc a seed).map fun r => s.answered a r.2.1
  | .addNewCandidates progs => some { s with mgr := s.mgr.addNewCandidates progs }
  | .triaged name i =>
    some { s with hands := Function.update s.hands name ((s.hands name).eraseIdx i) }
  | .lost name => some { s with hands := Function.update s.hands name [] }

/-- What a step does, by its event. -/
inductive StepTo (s : State o) : Event o → State o → Prop
  | check {syscalls order rand mgr} (hfree : s.newInput = none) (hnew : s.checked = false)
      (h : s.mgr.loadCorpus pkg syscalls order rand = some mgr) :
      StepTo s (.check syscalls order rand) { s with mgr, checked := true }
  | checkAgain {syscalls order rand} (hfree : s.newInput = none) (hold : s.checked = true) :
      StepTo s (.check syscalls order rand) s
  | snapshot {conn name seed order corpus} (hnew : s.conns conn = none) :
      StepTo s (.snapshot conn name seed order)
        { s with
          mgr := s.mgr.minimizeCorpus pkg seed
          conns := Function.update s.conns conn (some (name, corpus)) }
  | register {conn name corpus} (hfree : s.newInput = none)
      (hc : s.conns conn = some (name, corpus)) :
      StepTo s (.register conn)
        { s with
          serv := s.serv.register name corpus
          conns := Function.update s.conns conn none }
  | minimize {seed} : StepTo s (.minimize seed) { s with mgr := s.mgr.minimizeCorpus pkg seed }
  | accept {a} (hfree : s.newInput = none) (h : s.serv.accepts a) :
      StepTo s (.accept a) (s.accept a)
  | reject {a} (hfree : s.newInput = none) (h : ¬s.serv.accepts a) : StepTo s (.accept a) s
  | handOut {a sig} (h : s.newInput = some (a, sig)) :
      StepTo s .handOut { s with serv := s.serv.handOut a sig, newInput := none }
  | poll {a seed r} (hfree : s.newInput = none)
      (h : s.serv.poll s.mgr.toRpc a seed = some r) :
      StepTo s (.poll a seed) (s.answered a r.2.1)
  | addNewCandidates {progs} :
      StepTo s (.addNewCandidates progs) { s with mgr := s.mgr.addNewCandidates progs }
  | triaged {name i} : StepTo s (.triaged name i)
      { s with hands := Function.update s.hands name ((s.hands name).eraseIdx i) }
  | lost {name} : StepTo s (.lost name) { s with hands := Function.update s.hands name [] }

variable {pkg} {s t : State o} {e : Event o}

theorem fuzzerConnect_eq_some {mgr mgr' : Manager o} {seed : ℕ} {order : List o.Hash}
    {corpus : List (RPCInput o)}
    (h : mgr.fuzzerConnect pkg seed order = some (corpus, mgr')) :
    mgr' = mgr.minimizeCorpus pkg seed := by
  obtain ⟨-, heq⟩ := Option.ite_some_none_eq_some.mp h
  exact (congrArg Prod.snd heq).symm

theorem step_cases (h : step pkg s e = some t) : StepTo pkg s e t := by
  cases e with
  | check syscalls order rand =>
    obtain ⟨hfree, h⟩ := ite_isSome_eq_some.mp h
    split at h
    · next hold =>
      obtain rfl := Option.some.inj h
      exact .checkAgain hfree hold
    · next hnew =>
      obtain ⟨mgr, hmgr, rfl⟩ := Option.map_eq_some_iff.mp h
      exact .check hfree (Bool.eq_false_iff.mpr hnew) hmgr
  | snapshot conn name seed order =>
    obtain ⟨hnew, h⟩ := ite_isSome_eq_some.mp h
    obtain ⟨⟨corpus, mgr⟩, hr, rfl⟩ := Option.map_eq_some_iff.mp h
    obtain rfl := fuzzerConnect_eq_some hr
    exact .snapshot hnew
  | register conn =>
    obtain ⟨hfree, h⟩ := ite_isSome_eq_some.mp h
    obtain ⟨c, hc, rfl⟩ := Option.map_eq_some_iff.mp h
    exact .register hfree hc
  | minimize seed =>
    obtain rfl := Option.some.inj h
    exact .minimize
  | accept a =>
    obtain ⟨hfree, h⟩ := ite_isSome_eq_some.mp h
    split at h
    · next ha =>
      obtain rfl := Option.some.inj h
      exact .accept hfree ha
    · next ha =>
      obtain rfl := Option.some.inj h
      exact .reject hfree ha
  | handOut =>
    obtain ⟨r, hr, rfl⟩ := Option.map_eq_some_iff.mp h
    exact .handOut hr
  | poll a seed =>
    obtain ⟨hfree, h⟩ := ite_isSome_eq_some.mp h
    obtain ⟨r, hr, rfl⟩ := Option.map_eq_some_iff.mp h
    exact .poll hfree hr
  | addNewCandidates progs =>
    obtain rfl := Option.some.inj h
    exact .addNewCandidates
  | triaged name i =>
    obtain rfl := Option.some.inj h
    exact .triaged
  | lost name =>
    obtain rfl := Option.some.inj h
    exact .lost

/-! ## What the operations do -/

theorem takeLast_map {α β : Type} (f : α → β) (n : ℕ) (xs taken : List α) :
    takeLast n (xs.map f) (taken.map f) =
      ((takeLast n xs taken).1.map f, (takeLast n xs taken).2.map f) := by
  induction n generalizing xs taken with
  | zero => rfl
  | succ n ih =>
    simp only [takeLast, List.getLast?_map]
    cases xs.getLast? with
    | none => rfl
    | some x =>
      have := ih xs.dropLast (taken ++ [x])
      simpa [List.map_dropLast] using this

/-- A poll of the server sees the candidates of this manager, and leaves the signal of the
corpus alone. -/
theorem poll_batch {a : PollArgs o} {seed : ℕ} {r : PollRes o × RPCServer o × Rpc.Manager o}
    (h : s.serv.poll s.mgr.toRpc a seed = some r) :
    r.1.candidates = (s.batch a).1.map (·.toRPCCandidate) ∧ r.2.2 = (s.batch a).2.toRpc ∧
      r.2.1.corpusSignal = s.serv.corpusSignal := by
  obtain ⟨f, -, rfl⟩ := Option.map_eq_some_iff.mp h
  have hreport : (s.serv.report a).batchSize = s.serv.batchSize ∧
      (s.serv.report a).corpusSignal = s.serv.corpusSignal := by
    unfold RPCServer.report
    split <;> exact ⟨rfl, rfl⟩
  have htake := takeLast_map (·.toRPCCandidate) s.serv.batchSize s.mgr.candidates []
  rw [List.map_nil] at htake
  unfold State.batch
  simp only [hreport, and_true]
  split
  · simp only [Rpc.Manager.candidateBatch, Manager.candidateBatch, Manager.toRpc, htake, and_self]
  · exact ⟨rfl, rfl⟩

/-- The keys of `newCorpus` are the hashes of what is put in. -/
theorem mem_keyed_keys {inputs : List (RPCInput o)} {k : o.Hash} :
    k ∈ (keyed inputs).map Prod.fst ↔ ∃ inp ∈ inputs, o.hash inp.prog = k := by
  induction inputs using List.reverseRecOn with
  | nil => simp [keyed]
  | append_singleton l inp ih =>
    have hconcat : keyed (l ++ [inp]) = setKey (keyed l) (o.hash inp.prog) inp := by
      simp [keyed]
    by_cases hk : k = o.hash inp.prog
    · simp [hconcat, setKey, hk]
    · have hk' : ¬o.hash inp.prog = k := fun h => hk h.symm
      simp only [List.mem_map, Prod.exists, exists_and_right, exists_eq_right] at ih
      simp [hconcat, mem_setKey, hk, hk', ih]

theorem keyed_nodup (inputs : List (RPCInput o)) : ((keyed inputs).map Prod.fst).Nodup := by
  induction inputs using List.reverseRecOn with
  | nil => exact List.nodup_nil
  | append_singleton l inp ih =>
    have hconcat : keyed (l ++ [inp]) = setKey (keyed l) (o.hash inp.prog) inp := by
      simp [keyed]
    rw [hconcat]
    exact setKey_nodup ih _ _

/-- Every entry of `newCorpus` was put in. -/
theorem mem_of_mem_keyed {inputs : List (RPCInput o)} {e : o.Hash × RPCInput o}
    (h : e ∈ keyed inputs) : e.2 ∈ inputs ∧ e.1 = o.hash e.2.prog := by
  induction inputs using List.reverseRecOn with
  | nil => cases h
  | append_singleton l inp ih =>
    have hconcat : keyed (l ++ [inp]) = setKey (keyed l) (o.hash inp.prog) inp := by
      simp [keyed]
    rw [hconcat, mem_setKey] at h
    rcases h with ⟨h, -⟩ | rfl
    · exact ⟨List.mem_append_left _ (ih h).1, (ih h).2⟩
    · simp

namespace Manager

variable {mgr : Manager o}

theorem pruneCorpusDB_eq (mgr : Manager o) :
    mgr.pruneCorpusDB = { mgr with corpusDB := mgr.pruneCorpusDB.corpusDB } := by
  unfold pruneCorpusDB
  split <;> rfl

theorem minimizeCorpus_eq (seed : ℕ) :
    mgr.minimizeCorpus pkg seed =
      { mgr with
        corpus := (mgr.minimizeCorpus pkg seed).corpus
        lastMinCorpus := (mgr.minimizeCorpus pkg seed).lastMinCorpus
        corpusDB := (mgr.minimizeCorpus pkg seed).corpusDB } := by
  unfold minimizeCorpus
  split
  · simp only
    rw [pruneCorpusDB_eq]
  · rfl

theorem minimizeCorpus_corpus (seed : ℕ) :
    (mgr.minimizeCorpus pkg seed).corpus =
      if mgr.minimizes then keyed (pkg.minimize seed mgr.contexts) else mgr.corpus := by
  unfold minimizeCorpus
  split
  · simp only
    rw [pruneCorpusDB_eq]
  · rfl

theorem mem_pruneCorpusDB {r : o.Hash × o.Prog} :
    r ∈ mgr.pruneCorpusDB.corpusDB.records ↔ r ∈ mgr.corpusDB.records ∧
      (¬mgr.phase < .triagedCorpus →
        r.1 ∈ mgr.corpus.map Prod.fst ∨ r.1 ∈ mgr.disabledHashes) := by
  unfold pruneCorpusDB
  split
  · next hphase => simp [hphase]
  · next hphase =>
    simp only [hphase, DB.bumpVersion_records, DB.mem_retain, Bool.or_eq_true,
      List.contains_iff_mem, not_false_eq_true, true_imp_iff]

/-- A minimization deletes the records of no hash that it keeps, and of no disabled one. -/
theorem mem_minimizeCorpus_corpusDB {seed : ℕ} {r : o.Hash × o.Prog} :
    r ∈ (mgr.minimizeCorpus pkg seed).corpusDB.records ↔ r ∈ mgr.corpusDB.records ∧
      (mgr.minimizes → ¬mgr.phase < .triagedCorpus →
        r.1 ∈ (mgr.minimizeCorpus pkg seed).corpus.map Prod.fst ∨ r.1 ∈ mgr.disabledHashes) := by
  rw [minimizeCorpus_corpus]
  unfold minimizeCorpus
  split
  · next hmin => simp only [mem_pruneCorpusDB, hmin, true_imp_iff]
  · next hmin => simp [hmin]

/-- What loading one record does. -/
theorem loadRecord_spec (pkg : Packages o) (mgr : Manager o) (syscalls : List ℕ)
    (rec : o.Hash × o.Prog) :
    (mgr.loadRecord pkg syscalls rec).phase = mgr.phase ∧
      (mgr.loadRecord pkg syscalls rec).corpus = mgr.corpus ∧
      ∀ r ∈ mgr.corpusDB.records, o.parses rec.2 ∨ r.1 ≠ rec.1 →
        r ∈ (mgr.loadRecord pkg syscalls rec).corpusDB.records := by
  unfold loadRecord
  split
  · next hbroken =>
    rw [Bool.not_eq_true', ← Bool.not_eq_true] at hbroken
    refine ⟨rfl, rfl, fun r hr hkeep => DB.mem_delete.mpr ⟨hr, ?_⟩⟩
    exact hkeep.resolve_left hbroken
  · split <;> exact ⟨rfl, rfl, fun r hr _ => hr⟩

theorem loadRecords_spec (pkg : Packages o) (mgr : Manager o) (syscalls : List ℕ)
    (recs : List (o.Hash × o.Prog)) :
    (recs.foldl (loadRecord pkg syscalls) mgr).phase = mgr.phase ∧
      (recs.foldl (loadRecord pkg syscalls) mgr).corpus = mgr.corpus ∧
      ∀ r ∈ mgr.corpusDB.records, (∀ rec ∈ recs, o.parses rec.2 ∨ r.1 ≠ rec.1) →
        r ∈ (recs.foldl (loadRecord pkg syscalls) mgr).corpusDB.records := by
  induction recs generalizing mgr with
  | nil => exact ⟨rfl, rfl, fun r hr _ => hr⟩
  | cons rec recs ih =>
    obtain ⟨hphase, hcorpus, hkeep⟩ := loadRecord_spec pkg mgr syscalls rec
    obtain ⟨hphase', hcorpus', hkeep'⟩ := ih (mgr.loadRecord pkg syscalls rec)
    refine ⟨hphase'.trans hphase, hcorpus'.trans hcorpus, fun r hr hrecs => ?_⟩
    rw [List.forall_mem_cons] at hrecs
    exact hkeep' r (hkeep r hr hrecs.1) hrecs.2

/-- What `loadCorpus` leaves: the corpus, and the records that parse. -/
theorem loadCorpus_spec {syscalls : List ℕ} {order : List o.Hash} {rand : ℕ → ℕ}
    {mgr' : Manager o} (h : mgr.loadCorpus pkg syscalls order rand = some mgr') :
    mgr.phase = .init ∧ mgr'.phase = .loadedCorpus ∧ mgr'.corpus = mgr.corpus ∧
      ∀ r ∈ mgr.corpusDB.records, o.parses r.2 → r ∈ mgr'.corpusDB.records := by
  unfold loadCorpus at h
  split at h
  · obtain ⟨hphase, rfl⟩ := Option.ite_some_none_eq_some.mp h
    set recs := order.filterMap fun key =>
      (List.lookup key mgr.corpusDB.records).map fun val => (key, val) with hrecs
    obtain ⟨hphase', hcorpus, hkeep⟩ := loadRecords_spec pkg mgr syscalls recs
    refine ⟨hphase'.symm.trans hphase, rfl, hcorpus, fun r hr hparses => hkeep r hr ?_⟩
    intro rec hrec
    obtain ⟨key, -, hval⟩ := List.mem_filterMap.mp hrec
    obtain ⟨val, hlookup, rfl⟩ := Option.map_eq_some_iff.mp hval
    obtain ⟨l, l', heq, -⟩ := List.lookup_eq_some_iff.mp hlookup
    have hmem : (key, val) ∈ mgr.corpusDB.records := by simp [heq]
    by_cases hkey : r.1 = key
    · have hr' : r = (key, val) := List.inj_on_of_nodup_map mgr.corpusDB.nodup hr hmem hkey
      exact .inl (hr' ▸ hparses)
    · exact .inr hkey
  · cases h

end Manager

end FuzzUSB.Corpus
