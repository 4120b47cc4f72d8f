import FuzzUSB.FuzzerTriage
import FuzzUSB.RpcCorpus

/-!
# The signal of the manager and of the fuzzers

The procs of a fuzzer find signal, its poll loop reports what is new and adds what others have
reported, and its triages submit inputs. A process may end at any point, with calls under way
that the manager still answers, and another process may connect under its name.
-/

namespace FuzzUSB.FuzzerSignal
open Transition Signal
open Triage (Packages rawView)
open Rpc (Outside RPCInput RPCCandidate NewInputArgs PollArgs PollRes Polled known corpusView
  Within HandsOutKnown SharesMaxSignal)

variable {o : Outside}

/-- What a proc does with signal. -/
inductive ProcState (o : Outside)
  | idle
  /-- `checkNewCallSignal` has its difference and waits for `signalMu`. -/
  | found (raw : List ℕ) (prio : ℕ) (diff : o.Sig)
  /-- `sendInputToManager` waits for the manager. -/
  | sending (inputSignal : o.Sig) (inp : RPCInput o)
  | sent (inputSignal : o.Sig)

/-- How far `poll` is. -/
inductive PollState (o : Outside)
  | idle
  | calling (a : PollArgs o)
  | answered (r : PollRes o)
  /-- These inputs are still to be added. -/
  | adding (inputs : List (RPCInput o))

/-- The signals of a fuzzer, and where its procs and its poll loop are. The raw signals in
`triage` are those of the calls that are queued for triage, or have been. -/
structure Fuzzer (o : Outside) where
  corpusSignal : o.Sig
  maxSignal : o.Sig
  newSignal : o.Sig
  procs : ℕ → ProcState o
  triage : List (List ℕ × ℕ)
  poll : PollState o

/-- What a fuzzer does by itself. -/
inductive Action (o : Outside)
  /-- `checkNewCallSignal` up to its difference. -/
  | execute (proc : ℕ) (raw : List ℕ) (prio : ℕ)
  /-- The rest of `checkNewCallSignal`. -/
  | merge (proc : ℕ)
  /-- A triage comes to `sendInputToManager`. -/
  | send (proc item : ℕ) (call : String) (prog : o.Prog) (cover : List ℕ)
  /-- The triage adds its input to the corpus. -/
  | addInput (proc : ℕ)
  /-- `poll` up to its call. -/
  | grab (needCandidates : Bool) (stats : List (String × ℕ))
  | addMax
  /-- `poll` adds an input of another fuzzer. -/
  | addOther
  | endPoll

/-! ## The fuzzer -/

variable (pkg : Packages o)

/-- A signal without elements. -/
def nilSignal : o.Sig := pkg.fromRaw [] 0

namespace Fuzzer

/-- The fuzzer that `main` makes. -/
def start : Fuzzer o :=
  ⟨nilSignal pkg, nilSignal pkg, nilSignal pkg, fun _ => .idle, [], .idle⟩

variable (f : Fuzzer o)

def setProc (proc : ℕ) (p : ProcState o) : Fuzzer o :=
  { f with procs := Function.update f.procs proc p }

/-- The merge in `checkNewCallSignal`. -/
def addNewSignal (raw : List ℕ) (prio : ℕ) (diff : o.Sig) : Fuzzer o :=
  { f with
    maxSignal := o.signal.merge f.maxSignal diff
    newSignal := o.signal.merge f.newSignal diff
    triage := f.triage ++ [(raw, prio)] }

/-- What `addInputToCorpus` does to the signals. -/
def addInputToCorpus (sign : o.Sig) : Fuzzer o :=
  if o.signal.empty sign then f
  else
    { f with
      corpusSignal := o.signal.merge f.corpusSignal sign
      maxSignal := o.signal.merge f.maxSignal sign }

def addMaxSignal (sign : o.Sig) : Fuzzer o :=
  if pkg.len sign = 0 then f else { f with maxSignal := o.signal.merge f.maxSignal sign }

/-- `grabNewSignal`: the signal, and what is left. -/
def grabNewSignal : o.Sig × Fuzzer o :=
  if o.signal.empty f.newSignal then (nilSignal pkg, f)
  else (f.newSignal, { f with newSignal := nilSignal pkg })

/-- An action of the fuzzer with this name. -/
def act (name : String) : Action o → Option (Fuzzer o)
  | .execute proc raw prio =>
    match f.procs proc with
    | .idle =>
      let diff := pkg.diffRaw f.maxSignal raw prio
      if o.signal.empty diff then some f else some (f.setProc proc (.found raw prio diff))
    | _ => none
  | .merge proc =>
    match f.procs proc with
    | .found raw prio diff => some ((f.addNewSignal raw prio diff).setProc proc .idle)
    | _ => none
  | .send proc item call prog cover =>
    match f.procs proc, f.triage[item]? with
    | .idle, some (raw, prio) =>
      let inputSignal := pkg.fromRaw raw prio
      let inp := ⟨call, prog, o.signal.serialize inputSignal, cover⟩
      some (f.setProc proc (.sending inputSignal inp))
    | _, _ => none
  | .addInput proc =>
    match f.procs proc with
    | .sent inputSignal => some ((f.addInputToCorpus inputSignal).setProc proc .idle)
    | _ => none
  | .grab needCandidates stats =>
    match f.poll with
    | .idle =>
      let maxSignal := o.signal.serialize (f.grabNewSignal pkg).1
      some { (f.grabNewSignal pkg).2 with
        poll := .calling ⟨name, needCandidates, maxSignal, stats⟩ }
    | _ => none
  | .addMax =>
    match f.poll with
    | .answered r =>
      some { f.addMaxSignal pkg (o.signal.deserialize r.maxSignal) with
        poll := .adding r.newInputs }
    | _ => none
  | .addOther =>
    match f.poll with
    | .adding (inp :: inputs) =>
      -- A program that does not parse ends the process.
      if o.parses inp.prog then
        some { f.addInputToCorpus (o.signal.deserialize inp.signal) with poll := .adding inputs }
      else none
    | _ => none
  | .endPoll =>
    match f.poll with
    | .adding [] => some { f with poll := .idle }
    | _ => none

end Fuzzer

/-! ## Any number of processes -/

structure State (o : Outside) where
  rpc : Rpc.State o
  fuzzers : String → Option (Fuzzer o)
  /-- The calls of processes that have ended. -/
  lateInputs : List (NewInputArgs o)
  latePolls : List (PollArgs o)
  /-- What late polls have reported and got since a process connected under the name. -/
  lost : String → List o.Sig
  /-- The raw signals of all executions, with their priorities. -/
  found : List (List ℕ × ℕ)

inductive Event (o : Outside)
  /-- The first half of the `Connect` of this number. -/
  | connect (conn : ℕ) (name : String) (minimized : Bool) (order : List o.Hash)
  /-- The second half, and the start of the fuzzer. -/
  | start (conn : ℕ)
  | handOut
  | candidates (cs : List (RPCCandidate o))
  | act (name : String) (a : Action o)
  /-- The manager takes the input of a proc, -/
  | newInput (name : String) (proc : ℕ)
  /-- or answers a poll. -/
  | poll (name : String) (seed : ℕ)
  /-- The process ends. The inputs of the procs `late`, and the poll, are taken later. -/
  | exit (name : String) (late : List ℕ) (latePoll : Bool)
  | lateInput (i : ℕ)
  | latePoll (i seed : ℕ)

/-- The call of `Manager.NewInput` that a proc waits for. -/
def ProcState.call (name : String) : ProcState o → Option (NewInputArgs o)
  | .sending _ inp => some ⟨name, inp⟩
  | _ => none

def PollState.call : PollState o → Option (PollArgs o)
  | .calling a => some a
  | _ => none

/-- What an action measures. -/
def Action.found : Action o → List (List ℕ × ℕ)
  | .execute _ raw prio => [(raw, prio)]
  | _ => []

def Event.found : Event o → List (List ℕ × ℕ)
  | .act _ a => a.found
  | _ => []

namespace State

def start (batchSize : ℕ) (candidates : List (RPCCandidate o)) : State o where
  rpc := .start batchSize (nilSignal pkg) (nilSignal pkg) o.noCover ⟨[], candidates⟩
  fuzzers _ := none
  lateInputs := []
  latePolls := []
  lost _ := []
  found := []

variable (s : State o)

def setFuzzer (name : String) (f : Fuzzer o) : State o :=
  { s with fuzzers := Function.update s.fuzzers name (some f) }

/-- A step of the manager. -/
def manager (e : Rpc.Event o) : Option (State o) :=
  (Rpc.step s.rpc e).map fun rpc => { s with rpc }

/-- The manager answers a poll. -/
def answer (a : PollArgs o) (seed : ℕ) : Option (PollRes o × State o) :=
  if s.rpc.newInput.isSome then none
  else (s.rpc.serv.poll s.rpc.mgr a seed).map fun r =>
    (r.1, { s with rpc := s.rpc.answered a r.1 r.2.1 r.2.2 })

/-- What is left of a process that ends. -/
def exit (name : String) (f : Fuzzer o) (late : List ℕ) (latePoll : Bool) : State o :=
  { s with
    fuzzers := Function.update s.fuzzers name none
    lateInputs := s.lateInputs ++ late.filterMap fun proc => (f.procs proc).call name
    latePolls := s.latePolls ++ if latePoll then f.poll.call.toList else [] }

/-- A late poll has got this answer. -/
def lose (a : PollArgs o) (r : PollRes o) : State o :=
  { s with lost := Function.update s.lost a.name (s.lost a.name ++
      [o.signal.deserialize a.maxSignal, o.signal.deserialize r.maxSignal]) }

end State

def step (s : State o) : Event o → Option (State o)
  | .connect conn name minimized order => s.manager (.snapshot conn name minimized order)
  | .start conn => do
    let c ← s.rpc.conns conn
    if (s.fuzzers c.name).isSome then none
    else
      let s ← s.manager (.register conn)
      return { s.setFuzzer c.name (.start pkg) with lost := Function.update s.lost c.name [] }
  | .handOut => s.manager .handOut
  | .candidates cs => s.manager (.candidates cs)
  | .act name a => do
    let f ← s.fuzzers name
    let f ← f.act pkg name a
    return { s.setFuzzer name f with found := s.found ++ a.found }
  | .newInput name proc => do
    let f ← s.fuzzers name
    match f.procs proc with
    | .sending inputSignal inp =>
      let s ← s.manager (.accept ⟨name, inp⟩)
      return s.setFuzzer name (f.setProc proc (.sent inputSignal))
    | _ => none
  | .poll name seed => do
    let f ← s.fuzzers name
    match f.poll with
    | .calling a =>
      let answer ← s.answer a seed
      return answer.2.setFuzzer name { f with poll := .answered answer.1 }
    | _ => none
  | .exit name late latePoll => do
    let f ← s.fuzzers name
    return s.exit name f late latePoll
  | .lateInput i => do
    let a ← s.lateInputs[i]?
    let s ← s.manager (.accept a)
    return { s with lateInputs := s.lateInputs.eraseIdx i }
  | .latePoll i seed => do
    let a ← s.latePolls[i]?
    let answer ← s.answer a seed
    return { answer.2.lose a answer.1 with latePolls := s.latePolls.eraseIdx i }

/-! ## What a step does -/

/-- What an action does to a fuzzer, by its branches. -/
inductive ActTo (name : String) (f : Fuzzer o) : Action o → Fuzzer o → Prop
  | old {proc raw prio} (hproc : f.procs proc = .idle)
      (h : o.signal.empty (pkg.diffRaw f.maxSignal raw prio)) :
      ActTo name f (.execute proc raw prio) f
  | found {proc raw prio} (hproc : f.procs proc = .idle) :
      ActTo name f (.execute proc raw prio)
        (f.setProc proc (.found raw prio (pkg.diffRaw f.maxSignal raw prio)))
  | merge {proc raw prio diff} (hproc : f.procs proc = .found raw prio diff) :
      ActTo name f (.merge proc) ((f.addNewSignal raw prio diff).setProc proc .idle)
  | send {proc item raw prio call prog cover} (hproc : f.procs proc = .idle)
      (hitem : (raw, prio) ∈ f.triage) :
      ActTo name f (.send proc item call prog cover) (f.setProc proc (.sending
        (pkg.fromRaw raw prio) ⟨call, prog, o.signal.serialize (pkg.fromRaw raw prio), cover⟩))
  | addInput {proc sig} (hproc : f.procs proc = .sent sig) :
      ActTo name f (.addInput proc) ((f.addInputToCorpus sig).setProc proc .idle)
  | grab {needCandidates stats} (hpoll : f.poll = .idle) :
      ActTo name f (.grab needCandidates stats) { (f.grabNewSignal pkg).2 with
        poll := .calling
          ⟨name, needCandidates, o.signal.serialize (f.grabNewSignal pkg).1, stats⟩ }
  | addMax {r} (hpoll : f.poll = .answered r) :
      ActTo name f .addMax { f.addMaxSignal pkg (o.signal.deserialize r.maxSignal) with
        poll := .adding r.newInputs }
  | addOther {inp inputs} (hpoll : f.poll = .adding (inp :: inputs)) :
      ActTo name f .addOther
        { f.addInputToCorpus (o.signal.deserialize inp.signal) with poll := .adding inputs }
  | endPoll (hpoll : f.poll = .adding []) : ActTo name f .endPoll { f with poll := .idle }

variable {pkg}

theorem act_cases {name : String} {f g : Fuzzer o} {a : Action o}
    (h : f.act pkg name a = some g) : ActTo pkg name f a g := by
  cases a with
  | execute proc raw prio =>
    cases hproc : f.procs proc with
    | idle =>
      simp only [Fuzzer.act, hproc] at h
      split at h
      · next hempty =>
        obtain rfl := Option.some.inj h
        exact .old hproc hempty
      · obtain rfl := Option.some.inj h
        exact .found hproc
    | _ => simp [Fuzzer.act, hproc] at h
  | merge proc =>
    cases hproc : f.procs proc with
    | found raw prio diff =>
      simp only [Fuzzer.act, hproc, Option.some.injEq] at h
      exact h ▸ .merge hproc
    | _ => simp [Fuzzer.act, hproc] at h
  | send proc item call prog cover =>
    cases hproc : f.procs proc with
    | idle =>
      cases hitem : f.triage[item]? with
      | some r =>
        simp only [Fuzzer.act, hproc, hitem, Option.some.injEq] at h
        exact h ▸ .send hproc (List.mem_of_getElem? hitem)
      | none => simp [Fuzzer.act, hproc, hitem] at h
    | _ => simp [Fuzzer.act, hproc] at h
  | addInput proc =>
    cases hproc : f.procs proc with
    | sent sig =>
      simp only [Fuzzer.act, hproc, Option.some.injEq] at h
      exact h ▸ .addInput hproc
    | _ => simp [Fuzzer.act, hproc] at h
  | grab needCandidates stats =>
    cases hpoll : f.poll with
    | idle =>
      simp only [Fuzzer.act, hpoll, Option.some.injEq] at h
      exact h ▸ .grab hpoll
    | _ => simp [Fuzzer.act, hpoll] at h
  | addMax =>
    cases hpoll : f.poll with
    | answered r =>
      simp only [Fuzzer.act, hpoll, Option.some.injEq] at h
      exact h ▸ .addMax hpoll
    | _ => simp [Fuzzer.act, hpoll] at h
  | addOther =>
    cases hpoll : f.poll with
    | adding inputs =>
      cases inputs with
      | cons inp inputs =>
        simp only [Fuzzer.act, hpoll, Option.ite_none_right_eq_some, Option.some.injEq] at h
        exact h.2 ▸ .addOther hpoll
      | nil => simp [Fuzzer.act, hpoll] at h
    | _ => simp [Fuzzer.act, hpoll] at h
  | endPoll =>
    cases hpoll : f.poll with
    | adding inputs =>
      cases inputs with
      | nil =>
        simp only [Fuzzer.act, hpoll, Option.some.injEq] at h
        exact h ▸ .endPoll hpoll
      | cons inp inputs => simp [Fuzzer.act, hpoll] at h
    | _ => simp [Fuzzer.act, hpoll] at h

/-- The manager answers a poll. -/
inductive Answers (rpc : Rpc.State o) (a : PollArgs o) (seed : ℕ) :
    PollRes o → Rpc.State o → Prop
  | intro {r serv mgr} (hfree : rpc.newInput = none)
      (h : rpc.serv.poll rpc.mgr a seed = some (r, serv, mgr)) :
      Answers rpc a seed r (rpc.answered a r serv mgr)

/-- The steps of the manager that concern none of the processes. -/
def Quiet : Rpc.Event o → Prop
  | .snapshot .. | .handOut | .candidates _ => True
  | _ => False

def Event.OfManager : Event o → Prop
  | .connect .. | .handOut | .candidates _ => True
  | _ => False

theorem Quiet.sends {r : Rpc.Event o} (h : Quiet r) : r.sends = none := by
  cases r <;> first | rfl | exact h.elim

variable (pkg) in
/-- What a step does. -/
inductive StepTo (s : State o) : Event o → State o → Prop
  | manager {e r rpc} (h : Rpc.step s.rpc r = some rpc) (hr : Quiet r) (he : e.OfManager) :
      StepTo s e { s with rpc }
  | start {conn c rpc} (hc : s.rpc.conns conn = some c) (hnew : s.fuzzers c.name = none)
      (h : Rpc.step s.rpc (.register conn) = some rpc) :
      StepTo s (.start conn) { State.setFuzzer { s with rpc } c.name (.start pkg) with
        lost := Function.update s.lost c.name [] }
  | act {name a f g} (hf : s.fuzzers name = some f) (h : ActTo pkg name f a g) :
      StepTo s (.act name a) { s.setFuzzer name g with found := s.found ++ a.found }
  | newInput {name proc f sig inp rpc} (hf : s.fuzzers name = some f)
      (hproc : f.procs proc = .sending sig inp)
      (h : Rpc.step s.rpc (.accept ⟨name, inp⟩) = some rpc) :
      StepTo s (.newInput name proc)
        (State.setFuzzer { s with rpc } name (f.setProc proc (.sent sig)))
  | poll {name seed f a r rpc} (hf : s.fuzzers name = some f) (hpoll : f.poll = .calling a)
      (h : Answers s.rpc a seed r rpc) :
      StepTo s (.poll name seed)
        (State.setFuzzer { s with rpc } name { f with poll := .answered r })
  | exit {name late latePoll f} (hf : s.fuzzers name = some f) :
      StepTo s (.exit name late latePoll) (s.exit name f late latePoll)
  | lateInput {i a rpc} (ha : a ∈ s.lateInputs) (h : Rpc.step s.rpc (.accept a) = some rpc) :
      StepTo s (.lateInput i) { s with rpc, lateInputs := s.lateInputs.eraseIdx i }
  | latePoll {i seed a r rpc} (ha : a ∈ s.latePolls) (h : Answers s.rpc a seed r rpc) :
      StepTo s (.latePoll i seed)
        { State.lose { s with rpc } a r with latePolls := s.latePolls.eraseIdx i }

variable {s t : State o} {e : Event o}

theorem manager_eq_some {r : Rpc.Event o} :
    s.manager r = some t ↔ ∃ rpc, Rpc.step s.rpc r = some rpc ∧ { s with rpc } = t :=
  Option.map_eq_some_iff

theorem answer_eq_some {a : PollArgs o} {seed : ℕ} {r : PollRes o × State o}
    (h : s.answer a seed = some r) :
    ∃ rpc, Answers s.rpc a seed r.1 rpc ∧ r.2 = { s with rpc } := by
  obtain ⟨hfree, h⟩ := ite_isSome_eq_some.mp h
  obtain ⟨⟨r, serv, mgr⟩, hpoll, rfl⟩ := Option.map_eq_some_iff.mp h
  exact ⟨_, .intro hfree hpoll, rfl⟩

theorem step_cases (h : step pkg s e = some t) : StepTo pkg s e t := by
  cases e with
  | connect | handOut | candidates =>
    obtain ⟨rpc, hrpc, rfl⟩ := manager_eq_some.mp h
    exact .manager hrpc trivial trivial
  | start conn =>
    obtain ⟨c, hc, h⟩ := Option.bind_eq_some_iff.mp h
    obtain ⟨hnew, h⟩ := ite_isSome_eq_some.mp h
    obtain ⟨s', hs', h⟩ := Option.bind_eq_some_iff.mp h
    obtain ⟨rpc, hrpc, rfl⟩ := manager_eq_some.mp hs'
    obtain rfl := Option.some.inj h
    exact .start hc hnew hrpc
  | act name a =>
    obtain ⟨f, hf, h⟩ := Option.bind_eq_some_iff.mp h
    obtain ⟨g, hg, h⟩ := Option.bind_eq_some_iff.mp h
    obtain rfl := Option.some.inj h
    exact .act hf (act_cases hg)
  | newInput name proc =>
    obtain ⟨f, hf, h⟩ := Option.bind_eq_some_iff.mp h
    cases hproc : f.procs proc with
    | sending sig inp =>
      simp only [hproc] at h
      obtain ⟨s', hs', h⟩ := Option.bind_eq_some_iff.mp h
      obtain ⟨rpc, hrpc, rfl⟩ := manager_eq_some.mp hs'
      obtain rfl := Option.some.inj h
      exact .newInput hf hproc hrpc
    | _ => simp [hproc] at h
  | poll name seed =>
    obtain ⟨f, hf, h⟩ := Option.bind_eq_some_iff.mp h
    cases hpoll : f.poll with
    | calling a =>
      simp only [hpoll] at h
      obtain ⟨⟨r, s'⟩, hr, h⟩ := Option.bind_eq_some_iff.mp h
      obtain ⟨rpc, hrpc, rfl⟩ := answer_eq_some hr
      obtain rfl := Option.some.inj h
      exact .poll hf hpoll hrpc
    | _ => simp [hpoll] at h
  | exit name late latePoll =>
    obtain ⟨f, hf, h⟩ := Option.bind_eq_some_iff.mp h
    obtain rfl := Option.some.inj h
    exact .exit hf
  | lateInput i =>
    obtain ⟨a, ha, h⟩ := Option.bind_eq_some_iff.mp h
    obtain ⟨s', hs', h⟩ := Option.bind_eq_some_iff.mp h
    obtain ⟨rpc, hrpc, rfl⟩ := manager_eq_some.mp hs'
    obtain rfl := Option.some.inj h
    exact .lateInput (List.mem_of_getElem? ha) hrpc
  | latePoll i seed =>
    obtain ⟨a, ha, h⟩ := Option.bind_eq_some_iff.mp h
    obtain ⟨⟨r, s'⟩, hr, h⟩ := Option.bind_eq_some_iff.mp h
    obtain ⟨rpc, hrpc, rfl⟩ := answer_eq_some hr
    obtain rfl := Option.some.inj h
    exact .latePoll (List.mem_of_getElem? ha) hrpc

/-! ## The invariant -/

section

variable (view : o.Sig → ℕ → WithBot ℕ)

namespace PollState

/-- The signal of a call. -/
def grabbed : PollState o → ℕ → WithBot ℕ
  | .calling a => view (o.signal.deserialize a.maxSignal)
  | _ => ⊥

/-- The signal of an answer. -/
def returned : PollState o → ℕ → WithBot ℕ
  | .answered r => view (o.signal.deserialize r.maxSignal)
  | _ => ⊥

def inputs : PollState o → List (RPCInput o)
  | .answered r => r.newInputs
  | .adding inputs => inputs
  | _ => []

end PollState

/-- What a proc has of its own is in `m`, the signal of `maxSignal`, but for the difference it
waits to merge. -/
def ProcState.Covered (m : ℕ → WithBot ℕ) : ProcState o → Prop
  | .idle => True
  | .found raw prio diff => rawView raw prio ≤ m ⊔ view diff
  | .sending sig inp => view sig ≤ m ∧ Within view m inp
  | .sent sig => view sig ≤ m

/-- All that a fuzzer has is in `maxSignal`, and what is not in `newSignal` or in a call is
`known` to the manager. -/
structure Kept (known corpus : ℕ → WithBot ℕ) (name : String) (f : Fuzzer o) : Prop where
  newSignal : view f.newSignal ≤ view f.maxSignal
  grabbed : f.poll.grabbed view ≤ view f.maxSignal
  corpusSignal : view f.corpusSignal ≤ view f.maxSignal
  procs : ∀ proc, (f.procs proc).Covered view (view f.maxSignal)
  triage : ∀ r ∈ f.triage, rawView r.1 r.2 ≤ view f.maxSignal
  inputs : ∀ inp ∈ f.poll.inputs, Within view corpus inp
  returned : f.poll.returned view ≤ known
  maxSignal : view f.maxSignal ≤ known ⊔ view f.newSignal ⊔ f.poll.grabbed view
  called : ∀ a, f.poll = .calling a → a.name = name

/-- The operations on raw signals. -/
structure RawLawful (pkg : Packages o) : Prop extends pkg.Lawful view where
  view_diffRaw : ∀ s raw prio e, view (pkg.diffRaw s raw prio) e =
    if view s e < rawView raw prio e then rawView raw prio e else ⊥

end

section

variable {view : o.Sig → ℕ → WithBot ℕ} (hlaw : RawLawful view pkg) {f g : Fuzzer o}
  {known corpus known' corpus' : ℕ → WithBot ℕ} {name : String}

include hlaw

theorem view_nilSignal : view (nilSignal pkg) = ⊥ := by
  rw [nilSignal, hlaw.view_fromRaw]
  funext e
  exact if_neg List.not_mem_nil

theorem view_len_eq_zero {s : o.Sig} (h : pkg.len s = 0) : view s = ⊥ := by
  rw [hlaw.len_eq, Set.ncard_eq_zero (hlaw.finite s)] at h
  funext e
  by_contra he
  exact Set.notMem_empty e (h ▸ he)

/-- A raw signal is in what it is compared with, or in the difference. -/
theorem rawView_le_sup_diff (s : o.Sig) (raw : List ℕ) (prio : ℕ) :
    rawView raw prio ≤ view s ⊔ view (pkg.diffRaw s raw prio) := by
  intro e
  rw [Pi.sup_apply, hlaw.view_diffRaw]
  split
  · exact le_sup_right
  · next hle => exact le_sup_of_le_left (not_lt.mp hle)

theorem view_diffRaw_le (s : o.Sig) (raw : List ℕ) (prio : ℕ) :
    view (pkg.diffRaw s raw prio) ≤ rawView raw prio := by
  intro e
  rw [hlaw.view_diffRaw]
  split
  · exact le_rfl
  · exact bot_le

/-- What `addInputToCorpus` does, on the views. -/
theorem addInputToCorpus_spec (f : Fuzzer o) (sign : o.Sig) :
    ∃ c m, f.addInputToCorpus sign = { f with corpusSignal := c, maxSignal := m } ∧
      view c = view f.corpusSignal ⊔ view sign ∧ view m = view f.maxSignal ⊔ view sign := by
  unfold Fuzzer.addInputToCorpus
  split
  · next hempty =>
    have hbot := (hlaw.signal.empty_iff sign).mp hempty
    exact ⟨_, _, rfl, by simp [hbot], by simp [hbot]⟩
  · exact ⟨_, _, rfl, hlaw.signal.view_merge _ _, hlaw.signal.view_merge _ _⟩

theorem addMaxSignal_spec (f : Fuzzer o) (sign : o.Sig) :
    ∃ m, f.addMaxSignal pkg sign = { f with maxSignal := m } ∧
      view m = view f.maxSignal ⊔ view sign := by
  unfold Fuzzer.addMaxSignal
  split
  · next hlen => exact ⟨_, rfl, by simp [view_len_eq_zero hlaw hlen]⟩
  · exact ⟨_, rfl, hlaw.signal.view_merge _ _⟩

theorem grabNewSignal_spec (f : Fuzzer o) :
    ∃ n, (f.grabNewSignal pkg).2 = { f with newSignal := n } ∧ view n = ⊥ ∧
      view (f.grabNewSignal pkg).1 = view f.newSignal := by
  unfold Fuzzer.grabNewSignal
  split
  · next hempty =>
    have hbot := (hlaw.signal.empty_iff _).mp hempty
    exact ⟨_, rfl, hbot, by rw [hbot, view_nilSignal hlaw]⟩
  · exact ⟨_, rfl, view_nilSignal hlaw, rfl⟩

omit hlaw in
theorem ProcState.Covered.mono {m m' : ℕ → WithBot ℕ} {p : ProcState o} (h : p.Covered view m)
    (hm : m ≤ m') : p.Covered view m' := by
  cases p with
  | idle => trivial
  | found raw prio diff => exact h.trans (sup_le_sup_right hm _)
  | sending sig inp => exact ⟨h.1.trans hm, h.2.mono hm⟩
  | sent sig => exact h.trans hm

omit hlaw in
theorem covered_setProc {m : ℕ → WithBot ℕ} {proc : ℕ} {p : ProcState o}
    (h : ∀ proc, (f.procs proc).Covered view m) (hp : p.Covered view m) (q : ℕ) :
    ((f.setProc proc p).procs q).Covered view m := by
  by_cases hq : q = proc
  · subst hq
    simpa [Fuzzer.setProc] using hp
  · simpa [Fuzzer.setProc, hq] using h q

omit hlaw in
theorem Kept.mono (h : Kept view known corpus name f) (hknown : known ≤ known')
    (hcorpus : corpus ≤ corpus') : Kept view known' corpus' name f :=
  { h with
    inputs := fun inp hinp => (h.inputs inp hinp).mono hcorpus
    returned := h.returned.trans hknown
    maxSignal := h.maxSignal.trans (sup_le_sup_right (sup_le_sup_right hknown _) _) }

theorem kept_start : Kept view known corpus name (.start pkg) where
  newSignal := le_rfl
  grabbed := bot_le
  corpusSignal := le_rfl
  procs _ := trivial
  triage _ hr := absurd hr List.not_mem_nil
  inputs _ hinp := absurd hinp List.not_mem_nil
  returned := bot_le
  maxSignal := (view_nilSignal hlaw).le.trans bot_le
  called _ h := by cases h

omit hlaw in
theorem Kept.setProc (h : Kept view known corpus name f) {proc : ℕ} {p : ProcState o}
    (hp : p.Covered view (view f.maxSignal)) : Kept view known corpus name (f.setProc proc p) :=
  { h with procs := covered_setProc h.procs hp }

theorem Kept.addNewSignal (h : Kept view known corpus name f) {raw : List ℕ} {prio : ℕ}
    {diff : o.Sig} (hdiff : rawView raw prio ≤ view f.maxSignal ⊔ view diff) :
    Kept view known corpus name (f.addNewSignal raw prio diff) where
  newSignal := by
    simp only [Fuzzer.addNewSignal, hlaw.signal.view_merge]
    exact sup_le_sup_right h.newSignal _
  grabbed := by
    simp only [Fuzzer.addNewSignal, hlaw.signal.view_merge]
    exact le_sup_of_le_left h.grabbed
  corpusSignal := by
    simp only [Fuzzer.addNewSignal, hlaw.signal.view_merge]
    exact le_sup_of_le_left h.corpusSignal
  procs proc := by
    simp only [Fuzzer.addNewSignal, hlaw.signal.view_merge]
    exact (h.procs proc).mono le_sup_left
  triage r hr := by
    simp only [Fuzzer.addNewSignal, hlaw.signal.view_merge]
    rcases List.mem_append.mp hr with hold | hnew
    · exact le_sup_of_le_left (h.triage r hold)
    · rwa [List.mem_singleton.mp hnew]
  inputs := h.inputs
  returned := h.returned
  maxSignal := by
    simp only [Fuzzer.addNewSignal, hlaw.signal.view_merge]
    apply (sup_le_sup_right h.maxSignal _).trans (le_of_eq _)
    ac_rfl
  called := h.called

omit hlaw in
/-- `maxSignal` may take up what the manager knows. -/
theorem Kept.add (h : Kept view known corpus name f) {c m : o.Sig} {sign : ℕ → WithBot ℕ}
    (hc : view c ≤ view f.corpusSignal ⊔ sign) (hm : view m = view f.maxSignal ⊔ sign)
    (hsign : sign ≤ known ⊔ view f.maxSignal) :
    Kept view known corpus name { f with corpusSignal := c, maxSignal := m } := by
  have hle : view f.maxSignal ≤ view m := hm ▸ le_sup_left
  refine ⟨h.newSignal.trans hle, h.grabbed.trans hle, ?_, fun proc => (h.procs proc).mono hle,
    fun r hr => (h.triage r hr).trans hle, h.inputs, h.returned, ?_, h.called⟩
  · exact hm ▸ hc.trans (sup_le_sup_right h.corpusSignal _)
  · simp only [hm]
    refine sup_le h.maxSignal (hsign.trans (sup_le ?_ h.maxSignal))
    exact le_sup_of_le_left le_sup_left

theorem Kept.act {a : Action o} (h : Kept view known corpus name f) (hle : corpus ≤ known)
    (ha : ActTo pkg name f a g) : Kept view known corpus name g := by
  cases ha with
  | old => exact h
  | found => exact h.setProc (rawView_le_sup_diff hlaw _ _ _)
  | @merge proc raw prio diff hproc =>
    have hdiff := hproc ▸ h.procs proc
    exact (h.addNewSignal hlaw hdiff).setProc trivial
  | @send proc item raw prio call prog cover hproc hitem =>
    have hraw := h.triage _ hitem
    rw [← hlaw.view_fromRaw] at hraw
    exact h.setProc ⟨hraw, (hlaw.signal.view_serial _).le.trans hraw⟩
  | @addInput proc sig hproc =>
    obtain ⟨c, m, heq, hc, hm⟩ := addInputToCorpus_spec hlaw f sig
    have hsig := h.procs proc
    rw [hproc] at hsig
    rw [heq]
    exact (h.add hc.le hm (le_sup_of_le_right hsig)).setProc trivial
  | grab hpoll =>
    obtain ⟨n, heq, hbot, hgrabbed⟩ := grabNewSignal_spec hlaw f
    have hmax := h.maxSignal
    have hserial := hlaw.signal.view_serial (f.grabNewSignal pkg).1
    simp only [hpoll, PollState.grabbed, sup_bot_eq] at hmax
    rw [heq]
    refine ⟨hbot.le.trans bot_le, ?_, h.corpusSignal, h.procs, h.triage,
      fun _ hinp => absurd hinp List.not_mem_nil, bot_le, ?_, ?_⟩
    · exact (hserial.trans hgrabbed).le.trans h.newSignal
    · simpa only [PollState.grabbed, hserial, hgrabbed, hbot, sup_bot_eq] using hmax
    · rintro a ⟨⟩
      rfl
  | @addMax r hpoll =>
    obtain ⟨m, heq, hm⟩ := addMaxSignal_spec hlaw f (o.signal.deserialize r.maxSignal)
    have hreturned : view (o.signal.deserialize r.maxSignal) ≤ known := by
      simpa [hpoll, PollState.returned] using h.returned
    have hgrabbed : f.poll.grabbed view = ⊥ := by rw [hpoll]; rfl
    have hadd := h.add le_sup_left hm (le_sup_of_le_left hreturned)
    have hmax := hadd.maxSignal
    rw [hgrabbed] at hmax
    rw [heq]
    refine { hadd with
      grabbed := bot_le
      returned := bot_le
      maxSignal := hmax
      called := fun _ hcall => by cases hcall
      inputs := ?_ }
    exact fun inp hinp => h.inputs inp (by simpa [hpoll, PollState.inputs] using hinp)
  | @addOther inp inputs hpoll =>
    obtain ⟨c, m, heq, hc, hm⟩ :=
      addInputToCorpus_spec hlaw f (o.signal.deserialize inp.signal)
    have hinputs : ∀ i ∈ inp :: inputs, Within view corpus i := by
      simpa [hpoll, PollState.inputs] using h.inputs
    have hinp := (hinputs inp List.mem_cons_self).trans hle
    have hgrabbed : f.poll.grabbed view = ⊥ := by rw [hpoll]; rfl
    have hadd := h.add hc.le hm (le_sup_of_le_left hinp)
    have hmax := hadd.maxSignal
    rw [hgrabbed] at hmax
    rw [heq]
    exact { hadd with
      grabbed := bot_le
      returned := bot_le
      maxSignal := hmax
      called := fun _ hcall => by cases hcall
      inputs := fun i hi => hinputs i (List.mem_cons_of_mem _ hi) }
  | endPoll hpoll =>
    have hmax := h.maxSignal
    rw [hpoll] at hmax
    exact { h with
      grabbed := bot_le
      returned := bot_le
      maxSignal := hmax
      called := fun _ hcall => by cases hcall
      inputs := fun _ hinp => absurd hinp List.not_mem_nil }

end

end FuzzUSB.FuzzerSignal
