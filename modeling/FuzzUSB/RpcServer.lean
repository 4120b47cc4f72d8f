import FuzzUSB.Transition
import FuzzUSB.Signal
import Mathlib.Data.List.Perm.Basic
import Mathlib.Logic.Function.Basic

/-!
# The RPC server of the manager

`Connect` takes its snapshot of the corpus under `mgr.mu` and registers the fuzzer under
`serv.mu` later. `NewInput` holds `serv.mu` and takes `mgr.mu` inside, so a snapshot may be
taken between the moment the corpus has the input and the moment the fuzzers have it.
-/

namespace FuzzUSB.Rpc
open Transition Signal

/-- The code of other packages that the server calls. -/
structure Outside where
  Sig : Type
  Serial : Type
  Prog : Type
  Hash : Type
  Cover : Type
  decHash : DecidableEq Hash
  signal : SignalPkg Sig Serial
  /-- `target.Deserialize` accepts the program. -/
  parses : Prog → Bool
  /-- `hash.String` -/
  hash : Prog → Hash
  noCover : Cover
  mergeCover : Cover → List ℕ → Cover
  serializeCover : Cover → List ℕ

attribute [instance] Outside.decHash

variable {o : Outside}

structure RPCInput (o : Outside) where
  call : String
  prog : o.Prog
  signal : o.Serial
  cover : List ℕ

structure RPCCandidate (o : Outside) where
  prog : o.Prog
  minimized : Bool
  smashed : Bool

structure NewInputArgs (o : Outside) where
  name : String
  input : RPCInput o

structure PollArgs (o : Outside) where
  name : String
  needCandidates : Bool
  maxSignal : o.Serial
  stats : List (String × ℕ)

structure PollRes (o : Outside) where
  candidates : List (RPCCandidate o)
  newInputs : List (RPCInput o)
  maxSignal : o.Serial

structure Fuzzer (o : Outside) where
  name : String
  inputs : List (RPCInput o)
  newMaxSignal : o.Sig

structure Manager (o : Outside) where
  corpus : List (o.Hash × RPCInput o)
  candidates : List (RPCCandidate o)

structure RPCServer (o : Outside) where
  batchSize : ℕ
  fuzzers : String → Option (Fuzzer o)
  maxSignal : o.Sig
  corpusSignal : o.Sig
  corpusCover : o.Cover

/-! ## The manager -/

/-- The loop that takes at most `n` elements from the end of `xs`. -/
def takeLast {α : Type} : (n : ℕ) → (xs taken : List α) → List α × List α
  | 0, xs, taken => (taken, xs)
  | n + 1, xs, taken =>
    match xs.getLast? with
    | none => (taken, xs)
    | some x => takeLast n xs.dropLast (taken ++ [x])

theorem takeLast_perm {α : Type} (n : ℕ) (xs taken : List α) :
    ((takeLast n xs taken).2 ++ (takeLast n xs taken).1).Perm (xs ++ taken) := by
  induction n generalizing xs taken with
  | zero => exact List.Perm.refl _
  | succ n ih =>
    rcases xs.eq_nil_or_concat with rfl | ⟨xs, x, rfl⟩
    · exact List.Perm.refl _
    · simp only [takeLast, List.concat_eq_append, List.getLast?_concat, List.dropLast_concat]
      apply (ih xs (taken ++ [x])).trans
      rw [List.append_assoc]
      exact List.perm_append_comm.append_left xs

namespace Manager

/-- `minimizeCorpus`, if it is due, with the inputs that `signal.Minimize` keeps, and the
corpus of `fuzzerConnect`, which goes through the map in any order. -/
def fuzzerConnect (mgr : Manager o) (minimized : Bool) (order : List o.Hash) :
    Option (List (RPCInput o) × Manager o) :=
  let corpus := if minimized then mgr.corpus.filter (·.1 ∈ order) else mgr.corpus
  if order.Perm (corpus.map Prod.fst) then
    some (order.filterMap fun h => List.lookup h corpus, { mgr with corpus })
  else none

/-- `newInput`, and what it leaves in the signal that it is given. -/
def newInput (mgr : Manager o) (inp : RPCInput o) (sign : o.Sig) : Manager o × o.Sig :=
  match List.lookup (o.hash inp.prog) mgr.corpus with
  | some old =>
    let sign := o.signal.merge sign (o.signal.deserialize old.signal)
    let cov := o.mergeCover (o.mergeCover o.noCover old.cover) inp.cover
    let old := { old with signal := o.signal.serialize sign, cover := o.serializeCover cov }
    ({ mgr with corpus := mgr.corpus.map fun e =>
      if e.1 = o.hash inp.prog then (e.1, old) else e }, sign)
  | none => ({ mgr with corpus := mgr.corpus ++ [(o.hash inp.prog, inp)] }, sign)

def candidateBatch (mgr : Manager o) (size : ℕ) : List (RPCCandidate o) × Manager o :=
  ((takeLast size mgr.candidates []).1,
    { mgr with candidates := (takeLast size mgr.candidates []).2 })

end Manager

/-! ## The calls -/

/-- The input that the other fuzzers get. -/
def NewInputArgs.sent (a : NewInputArgs o) : RPCInput o := { a.input with cover := [] }

namespace RPCServer

/-- The second half of `Connect`. -/
def register (serv : RPCServer o) (name : String) (corpus : List (RPCInput o)) : RPCServer o :=
  let f : Fuzzer o := ⟨name, corpus, o.signal.copy serv.maxSignal⟩
  { serv with fuzzers := Function.update serv.fuzzers name (some f) }

/-- `NewInput` takes the input. -/
def accepts (serv : RPCServer o) (a : NewInputArgs o) : Bool :=
  o.parses a.input.prog &&
    !o.signal.empty (o.signal.diff serv.corpusSignal (o.signal.deserialize a.input.signal))

/-- What `NewInput` does behind `mgr.newInput`. -/
def handOut (serv : RPCServer o) (a : NewInputArgs o) (inputSignal : o.Sig) : RPCServer o :=
  { serv with
    corpusSignal := o.signal.merge serv.corpusSignal inputSignal
    corpusCover := o.mergeCover serv.corpusCover a.input.cover
    fuzzers := fun n => (serv.fuzzers n).map fun f =>
      if f.name = a.name then f else { f with inputs := f.inputs ++ [a.sent] } }

/-- `newMaxSignal` of `Poll`. -/
def newMaxSignal (serv : RPCServer o) (a : PollArgs o) : o.Sig :=
  o.signal.diff serv.maxSignal (o.signal.deserialize a.maxSignal)

/-- `Poll` adds what is new in the reported signal to `maxSignal` and gives it to the other
fuzzers. -/
def report (serv : RPCServer o) (a : PollArgs o) : RPCServer o :=
  if o.signal.empty (serv.newMaxSignal a) then serv
  else { serv with
    maxSignal := o.signal.merge serv.maxSignal (serv.newMaxSignal a)
    fuzzers := fun n => if n = a.name then serv.fuzzers n
      else (serv.fuzzers n).map fun f1 =>
        { f1 with newMaxSignal := o.signal.merge f1.newMaxSignal (serv.newMaxSignal a) } }

/-- How many inputs a poll may return. -/
def inputBatch (serv : RPCServer o) (a : PollArgs o) : ℕ :=
  if a.stats = [] ∧ serv.batchSize < 30 then 30 else serv.batchSize

/-- `Poll`. It ends the manager if the fuzzer is not connected. -/
def poll (serv : RPCServer o) (mgr : Manager o) (a : PollArgs o) (seed : ℕ) :
    Option (PollRes o × RPCServer o × Manager o) :=
  (serv.fuzzers a.name).map fun f =>
    let serv := serv.report a
    let signal := o.signal.split seed 500 f.newMaxSignal
    let batch := if a.needCandidates then mgr.candidateBatch serv.batchSize else ([], mgr)
    let inputs :=
      if batch.1 = [] then takeLast (serv.inputBatch a) f.inputs [] else ([], f.inputs)
    let f := { f with inputs := inputs.2, newMaxSignal := signal.2 }
    (⟨batch.1, inputs.1, o.signal.serialize signal.1⟩,
      { serv with fuzzers := Function.update serv.fuzzers a.name (some f) }, batch.2)

end RPCServer

/-! ## Any number of fuzzers -/

/-- A `Connect` that has taken its snapshot, and what others submitted since. -/
structure Conn (o : Outside) where
  name : String
  corpus : List (RPCInput o)
  since : List (RPCInput o)

/-- The history of a registered fuzzer: the snapshot of its `Connect`, the inputs of others
that were accepted since the snapshot, the inputs that polls have returned, and the signals
that it has reported to polls and got from them. -/
structure Ledger (o : Outside) where
  snapshot : List (RPCInput o)
  since : List (RPCInput o)
  delivered : List (RPCInput o)
  reported : List o.Sig
  returned : List o.Sig

structure State (o : Outside) where
  serv : RPCServer o
  mgr : Manager o
  conns : ℕ → Option (Conn o)
  /-- The `NewInput` that has its input in the corpus and holds `serv.mu`. -/
  newInput : Option (NewInputArgs o × o.Sig)
  ledger : String → Ledger o

inductive Event (o : Outside)
  /-- The first half of the `Connect` of this number. -/
  | snapshot (conn : ℕ) (name : String) (minimized : Bool) (order : List o.Hash)
  | register (conn : ℕ)
  /-- `NewInput` up to `mgr.newInput`. -/
  | accept (a : NewInputArgs o)
  /-- The rest of `NewInput`. -/
  | handOut
  | poll (a : PollArgs o) (seed : ℕ)
  /-- The manager gets candidates. -/
  | candidates (cs : List (RPCCandidate o))

namespace State

/-- Before any fuzzer connects. -/
def start (batchSize : ℕ) (maxSignal corpusSignal : o.Sig) (corpusCover : o.Cover)
    (mgr : Manager o) : State o where
  serv := ⟨batchSize, fun _ => none, maxSignal, corpusSignal, corpusCover⟩
  mgr := mgr
  conns _ := none
  newInput := none
  ledger _ := ⟨[], [], [], [], []⟩

variable (s : State o)

/-- An input is accepted. -/
def accept (a : NewInputArgs o) : State o :=
  let accepted := s.mgr.newInput a.input (o.signal.deserialize a.input.signal)
  { s with
    mgr := accepted.1
    newInput := some (a, accepted.2)
    conns := fun n => (s.conns n).map fun c =>
      if c.name = a.name then c else { c with since := c.since ++ [a.sent] }
    ledger := fun n => if n = a.name then s.ledger n
      else { s.ledger n with since := (s.ledger n).since ++ [a.sent] } }

/-- A `Connect` registers its fuzzer. -/
def register (conn : ℕ) (c : Conn o) : State o :=
  { s with
    serv := s.serv.register c.name c.corpus
    conns := Function.update s.conns conn none
    ledger := Function.update s.ledger c.name ⟨c.corpus, c.since, [], [], []⟩ }

/-- A poll has an answer. -/
def answered (a : PollArgs o) (r : PollRes o) (serv : RPCServer o) (mgr : Manager o) : State o :=
  let l := s.ledger a.name
  let l := { l with
    delivered := l.delivered ++ r.newInputs
    reported := l.reported ++ [o.signal.deserialize a.maxSignal]
    returned := l.returned ++ [o.signal.deserialize r.maxSignal] }
  { s with serv, mgr, ledger := Function.update s.ledger a.name l }

end State

/-- All but the snapshot takes `serv.mu`. -/
def step (s : State o) : Event o → Option (State o)
  | .snapshot conn name minimized order =>
    if (s.conns conn).isSome then none
    else (s.mgr.fuzzerConnect minimized order).map fun r =>
      { s with mgr := r.2, conns := Function.update s.conns conn (some ⟨name, r.1, []⟩) }
  | .register conn =>
    if s.newInput.isSome then none else (s.conns conn).map (s.register conn)
  | .accept a =>
    if s.newInput.isSome then none else if s.serv.accepts a then some (s.accept a) else some s
  | .handOut =>
    s.newInput.map fun r => { s with serv := s.serv.handOut r.1 r.2, newInput := none }
  | .poll a seed =>
    if s.newInput.isSome then none
    else (s.serv.poll s.mgr a seed).map fun r => s.answered a r.1 r.2.1 r.2.2
  | .candidates cs => some { s with mgr := { s.mgr with candidates := s.mgr.candidates ++ cs } }

/-- What a step does, by its event. -/
inductive StepTo (s : State o) : Event o → State o → Prop
  | snapshot {conn name minimized order corpus mgr} (hnew : s.conns conn = none)
      (h : s.mgr.fuzzerConnect minimized order = some (corpus, mgr)) :
      StepTo s (.snapshot conn name minimized order)
        { s with mgr, conns := Function.update s.conns conn (some ⟨name, corpus, []⟩) }
  | register {conn c} (hfree : s.newInput = none) (hc : s.conns conn = some c) :
      StepTo s (.register conn) (s.register conn c)
  | accept {a} (hfree : s.newInput = none) (h : s.serv.accepts a) :
      StepTo s (.accept a) (s.accept a)
  | reject {a} (hfree : s.newInput = none) (h : ¬s.serv.accepts a) : StepTo s (.accept a) s
  | handOut {a sig} (h : s.newInput = some (a, sig)) :
      StepTo s .handOut { s with serv := s.serv.handOut a sig, newInput := none }
  | poll {a seed r serv mgr} (hfree : s.newInput = none)
      (h : s.serv.poll s.mgr a seed = some (r, serv, mgr)) :
      StepTo s (.poll a seed) (s.answered a r serv mgr)
  | candidates {cs} : StepTo s (.candidates cs)
      { s with mgr := { s.mgr with candidates := s.mgr.candidates ++ cs } }

variable {s t : State o} {e : Event o}

theorem step_cases (h : step s e = some t) : StepTo s e t := by
  cases e with
  | snapshot conn name minimized order =>
    obtain ⟨hnew, h⟩ := ite_isSome_eq_some.mp h
    obtain ⟨r, hr, rfl⟩ := Option.map_eq_some_iff.mp h
    exact .snapshot hnew hr
  | register conn =>
    obtain ⟨hfree, h⟩ := ite_isSome_eq_some.mp h
    obtain ⟨c, hc, rfl⟩ := Option.map_eq_some_iff.mp h
    exact .register hfree hc
  | accept a =>
    obtain ⟨hfree, h⟩ := ite_isSome_eq_some.mp h
    split at h
    · next ha =>
      obtain rfl := Option.some.inj h
      exact .accept hfree ha
    · next ha =>
      obtain rfl := Option.some.inj h
      exact .reject hfree ha
  | handOut =>
    obtain ⟨r, hr, rfl⟩ := Option.map_eq_some_iff.mp h
    exact .handOut hr
  | poll a seed =>
    obtain ⟨hfree, h⟩ := ite_isSome_eq_some.mp h
    obtain ⟨r, hr, rfl⟩ := Option.map_eq_some_iff.mp h
    exact .poll hfree hr
  | candidates cs =>
    obtain rfl := Option.some.inj h
    exact .candidates

/-! ## What the calls do to one fuzzer -/

section

variable {serv serv' : RPCServer o} {mgr mgr' : Manager o} {a : PollArgs o} {r : PollRes o}
  {seed : ℕ}

/-- A report changes signals only. -/
theorem report_fuzzers {n : String} {g : Fuzzer o} (h : (serv.report a).fuzzers n = some g) :
    ∃ f, serv.fuzzers n = some f ∧ g.name = f.name ∧ g.inputs = f.inputs := by
  unfold RPCServer.report at h
  split at h
  · exact ⟨g, h, rfl, rfl⟩
  · simp only at h
    split at h
    · exact ⟨g, h, rfl, rfl⟩
    · obtain ⟨f, hf, rfl⟩ := Option.map_eq_some_iff.mp h
      exact ⟨f, hf, rfl, rfl⟩

/-- The poll of `f` leaves `g` in its place. -/
structure Polled (serv serv' : RPCServer o) (a : PollArgs o) (r : PollRes o) (seed : ℕ)
    (f g : Fuzzer o) : Prop where
  before : serv.fuzzers a.name = some f
  after : serv'.fuzzers a.name = some g
  name : g.name = f.name
  inputs : (g.inputs ++ r.newInputs).Perm f.inputs
  left : g.newMaxSignal = (o.signal.split seed 500 f.newMaxSignal).2
  returned : r.maxSignal = o.signal.serialize (o.signal.split seed 500 f.newMaxSignal).1
  maxSignal : serv'.maxSignal = (serv.report a).maxSignal
  others : ∀ n, n ≠ a.name → serv'.fuzzers n = (serv.report a).fuzzers n

theorem poll_spec (h : serv.poll mgr a seed = some (r, serv', mgr')) :
    ∃ f g, Polled serv serv' a r seed f g := by
  obtain ⟨f, hf, heq⟩ := Option.map_eq_some_iff.mp h
  simp only [Prod.mk.injEq] at heq
  obtain ⟨rfl, rfl, -⟩ := heq
  have hinputs (b : Prop) [Decidable b] (n : ℕ) :
      ((if b then takeLast n f.inputs [] else ([], f.inputs)).2 ++
        (if b then takeLast n f.inputs [] else ([], f.inputs)).1).Perm f.inputs := by
    split
    · simpa using takeLast_perm n f.inputs []
    · simp
  exact ⟨f, _, hf, Function.update_self _ _ _, rfl, hinputs _ _, rfl, rfl, rfl,
    fun n hn => Function.update_of_ne hn _ _⟩

/-- Each fuzzer is found under its name. -/
def Named (s : State o) : Prop := ∀ n f, s.serv.fuzzers n = some f → f.name = n

theorem Named.step (hs : Named s) (h : step s e = some t) : Named t := by
  intro n f hf
  cases step_cases h with
  | snapshot | accept | reject | candidates => exact hs n f hf
  | @register conn c =>
    by_cases hn : n = c.name
    · subst hn
      simp only [State.register, RPCServer.register, Function.update_self, Option.some.injEq] at hf
      rw [← hf]
    · simp only [State.register, RPCServer.register, Function.update_of_ne hn] at hf
      exact hs n f hf
  | handOut =>
    obtain ⟨g, hg, rfl⟩ := Option.map_eq_some_iff.mp hf
    split <;> exact hs n g hg
  | @poll a seed r serv mgr hfree hpoll =>
    obtain ⟨f', g, hp⟩ := poll_spec hpoll
    by_cases hn : n = a.name
    · subst hn
      obtain rfl := Option.some.inj (hp.after.symm.trans hf)
      exact hp.name.trans (hs _ _ hp.before)
    · obtain ⟨f₀, hf₀, hname, -⟩ := report_fuzzers ((hp.others n hn).symm.trans hf)
      exact hname.trans (hs n f₀ hf₀)

end

end FuzzUSB.Rpc
