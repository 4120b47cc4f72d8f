import FuzzUSB.Program
import FuzzUSB.RpcInputs
import FuzzUSB.WorkQueue
import Mathlib.Data.Set.Card

/-!
# Triage

A proc executes the program of a triage item three times, minimizes it and sends it to the
manager, if part of its new signal comes with every execution that succeeds. A `Proc` that
stops has ended the process, by a panic or by `log.Fatalf`.
-/

namespace FuzzUSB.Triage
open Program Signal Work
open Rpc (Outside RPCInput textPrograms noSignal)

def progMinimized : ℕ := 2

def progSmashed : ℕ := 4

def progNormal : ℕ := 0

/-- The executions that a triage makes are counted as these. -/
inductive Stat
  | triage
  | minimize
  deriving DecidableEq

/-- The flags of `ipc.ExecOpts`. -/
structure ExecOpts where
  dedupCover : Bool
  collectCover : Bool
  collide : Bool

/-- `execOptsNoCollide` of `newProc` -/
def ExecOpts.noCollide (execOpts : ExecOpts) : ExecOpts := { execOpts with collide := false }

/-- `execOptsCover` of `newProc` -/
def ExecOpts.cover (execOpts : ExecOpts) : ExecOpts :=
  { execOpts.noCollide with collectCover := true }

structure CallInfo where
  signal : List ℕ
  cover : List ℕ
  errno : ℤ

structure ProgInfo where
  calls : List CallInfo
  extra : CallInfo

/-- A call of a program: `Meta.CallName`, and what `CallContainsAny` says of it. -/
structure ProgCall where
  callName : String
  containsAny : Bool

/-- The packages `prog`, `hash` and `signal`. -/
structure Packages (o : Outside) where
  Prog : Type
  Key : Type
  calls : Prog → List ProgCall
  serialize : Prog → o.Prog
  hash : o.Prog → Key
  /-- `prog.Minimize`, which asks its predicate. -/
  minimize : Prog → ℤ → (crash : Bool) → Program (fun _ : Prog × ℤ => Bool) (Prog × ℤ)
  fromRaw : List ℕ → ℕ → o.Sig
  diffRaw : o.Sig → List ℕ → ℕ → o.Sig
  intersection : o.Sig → o.Sig → o.Sig
  len : o.Sig → ℕ

variable {o : Outside} (pkg : Packages o)

/-- What a triage reads and changes outside of itself. -/
inductive Request
  | corpusSignal
  | maxSignal
  /-- Merges signal into `maxSignal` and `newSignal`. -/
  | addNewSignal (diff : o.Sig)
  /-- `env.Exec`, counted as `stat`. -/
  | exec (opts : ExecOpts) (p : pkg.Prog) (stat : Stat)
  | enqueue (item : Item pkg.Prog CallInfo)
  | sendInputToManager (inp : RPCInput o)
  | addInputToCorpus (p : pkg.Prog) (sign : o.Sig) (sig : pkg.Key)

/-- What it gets. An execution gives an error, or the information it has, which may be nil,
and the manager says whether the call of `NewInput` was without an error. -/
def Request.Answer : Request pkg → Type
  | corpusSignal | maxSignal => o.Sig
  | exec .. => Option (Option ProgInfo)
  | sendInputToManager _ => Bool
  | addNewSignal _ | enqueue _ | addInputToCorpus .. => Unit

/-- Code of a proc. -/
abbrev Proc := OptionT (Program (Request.Answer pkg))

variable {pkg}

def request (r : Request pkg) : Proc pkg (r.Answer) := monadLift (perform r)

/-! ## Execution -/

/-- `l[i]`, which panics if the index is out of range. -/
def index {α : Type} (l : List α) (i : ℤ) : Option α := if 0 ≤ i then l[i.toNat]? else none

/-- The tries of `executeRaw`. -/
def execTries (opts : ExecOpts) (p : pkg.Prog) (stat : Stat) : ℕ → Proc pkg (Option ProgInfo)
  | 0 => failure
  | n + 1 => do
    let res : Option (Option ProgInfo) ← request (.exec opts p stat)
    match res with
    | some info => return info
    | none => execTries opts p stat n

def executeRaw (opts : ExecOpts) (p : pkg.Prog) (stat : Stat) : Proc pkg (Option ProgInfo) :=
  -- The try that is number 11 is the last one.
  if opts.dedupCover then execTries opts p stat 12 else failure

variable (pkg) in
def signalPrio (p : pkg.Prog) (info : CallInfo) (call : ℤ) : Option ℕ :=
  if call = -1 then some 0
  else
    let prio := if info.errno = 0 then 1 <<< 1 else 0
    (index (pkg.calls p) call).map fun c => if c.containsAny then prio else prio ||| 1 <<< 0

def checkNewCallSignal (p : pkg.Prog) (info : CallInfo) (call : ℤ) : Proc pkg Bool := do
  let maxSignal : o.Sig ← request .maxSignal
  let prio ← (signalPrio pkg p info call).getM
  let diff := pkg.diffRaw maxSignal info.signal prio
  if o.signal.empty diff then return false
  else
    let _ ← request (.addNewSignal diff)
    return true

/-- The loop of `checkNewSignal`, from call `i` on. -/
def checkNewCalls (p : pkg.Prog) : List CallInfo → ℕ → Proc pkg (List ℕ)
  | [], _ => return []
  | inf :: rest, i => do
    let new ← checkNewCallSignal p inf i
    let calls ← checkNewCalls p rest (i + 1)
    return if new then i :: calls else calls

def checkNewSignal (p : pkg.Prog) (info : ProgInfo) : Proc pkg (List ℕ × Bool) := do
  let calls ← checkNewCalls p info.calls 0
  let extra ← checkNewCallSignal p info.extra (-1)
  return (calls, extra)

def enqueueCallTriage (p : pkg.Prog) (flags : ℕ) (callIndex : ℤ) (info : CallInfo) :
    Proc pkg Unit := do
  let _ ← request (.enqueue (.triage ⟨p, callIndex, { info with cover := [] }, flags⟩))
  return ()

/-- The loop of `execute`. -/
def enqueueCalls (p : pkg.Prog) (flags : ℕ) (info : ProgInfo) : List ℕ → Proc pkg Unit
  | [] => return ()
  | callIndex :: rest => do
    let inf ← (index info.calls callIndex).getM
    enqueueCallTriage p flags callIndex inf
    enqueueCalls p flags info rest

/-- What `execute` does with the information. -/
def enqueueNew (p : pkg.Prog) (flags : ℕ) (info : ProgInfo) : Proc pkg Unit := do
  let new ← checkNewSignal p info
  enqueueCalls p flags info new.1
  if new.2 then enqueueCallTriage p flags (-1) info.extra
  else return ()

def execute (opts : ExecOpts) (p : pkg.Prog) (flags : ℕ) (stat : Stat) :
    Proc pkg (Option ProgInfo) := do
  let info ← executeRaw opts p stat
  -- `checkNewSignal` does not expect nil.
  let progInfo ← info.getM
  enqueueNew p flags progInfo
  return info

/-! ## The triage -/

/-- The information about a call, or about the extra calls. -/
def infoOf (info : ProgInfo) (call : ℤ) : Option CallInfo :=
  if call = -1 then some info.extra else index info.calls call

def reexecutionSuccess (info : Option ProgInfo) (oldInfo : CallInfo) (call : ℤ) : Option Bool :=
  match info with
  | none => some false
  | some info =>
    if info.calls.length = 0 then some false
    else if call ≠ -1 then
      (index info.calls call).map fun inf =>
        if oldInfo.errno = 0 ∧ inf.errno ≠ 0 then false else inf.signal.length ≠ 0
    else some (info.extra.signal.length ≠ 0)

variable (pkg) in
def getSignalAndCover (p : pkg.Prog) (info : Option ProgInfo) (call : ℤ) :
    Option (o.Sig × List ℕ) := do
  let info ← info
  let inf ← infoOf info call
  let prio ← signalPrio pkg p inf call
  return (pkg.fromRaw inf.signal prio, inf.cover)

variable (execOpts : ExecOpts)

/-- The predicate for `prog.Minimize`, with some attempts left. -/
def minimizeAttempts (newSignal : o.Sig) (oldInfo : CallInfo) (p1 : pkg.Prog) (call1 : ℤ) :
    ℕ → Proc pkg Bool
  | 0 => return false
  | n + 1 => do
    let info ← execute execOpts.noCollide p1 progNormal .minimize
    let success ← (reexecutionSuccess info oldInfo call1).getM
    if success then
      let this ← (getSignalAndCover pkg p1 info call1).getM
      if pkg.len (pkg.intersection newSignal this.1) = pkg.len newSignal then return true
      else minimizeAttempts newSignal oldInfo p1 call1 n
    else minimizeAttempts newSignal oldInfo p1 call1 n

/-- The signal runs, with some of them left. The triage gives up with `none`. -/
def signalRuns (item : WorkTriage pkg.Prog CallInfo) :
    (left : ℕ) → (newSignal : o.Sig) → (inputCover : o.Cover) → (notexecuted : ℕ) →
      Proc pkg (Option (o.Sig × o.Cover))
  | 0, newSignal, inputCover, _ => return some (newSignal, inputCover)
  | n + 1, newSignal, inputCover, notexecuted => do
    let info ← executeRaw execOpts.cover item.p .triage
    let success ← (reexecutionSuccess info item.info item.call).getM
    if success then
      let this ← (getSignalAndCover pkg item.p info item.call).getM
      let newSignal := pkg.intersection newSignal this.1
      if o.signal.empty newSignal ∧ item.flags &&& progMinimized = 0 then return none
      else signalRuns item n newSignal (o.mergeCover inputCover this.2) notexecuted
    else if notexecuted + 1 > 3 / 2 + 1 then return none
    else signalRuns item n newSignal inputCover (notexecuted + 1)

/-- What is left when the program is minimized. -/
def finish (item : WorkTriage pkg.Prog CallInfo) (callName : String) (inputSignal : o.Sig)
    (inputCover : o.Cover) (p : pkg.Prog) (call : ℤ) : Proc pkg Unit := do
  let data := pkg.serialize p
  let sent : Bool ← request (.sendInputToManager
    ⟨callName, data, o.signal.serialize inputSignal, o.serializeCover inputCover⟩)
  if sent then
    let _ ← request (.addInputToCorpus p inputSignal (pkg.hash data))
    if item.flags &&& progSmashed = 0 then
      let _ ← request (.enqueue (.smash ⟨p, call⟩))
      return ()
    else return ()
  else failure

variable (pkg) in
/-- `callName` in `triageInput` -/
def callName (item : WorkTriage pkg.Prog CallInfo) : Option String :=
  if item.call ≠ -1 then (index (pkg.calls item.p) item.call).map ProgCall.callName
  else some ".extra"

def minimizeInput (item : WorkTriage pkg.Prog CallInfo) (newSignal : o.Sig) :
    Proc pkg (pkg.Prog × ℤ) :=
  if item.flags &&& progMinimized = 0 then
    (pkg.minimize item.p item.call false).interpret fun c =>
      minimizeAttempts execOpts newSignal item.info c.1 c.2 3
  else return (item.p, item.call)

variable (pkg) in
/-- What `triageInput` has when it serializes the program: `item.p` and `item.call` are those
that `prog.Minimize` returned. -/
structure Minimized where
  callName : String
  inputSignal : o.Sig
  inputCover : o.Cover
  p : pkg.Prog
  call : ℤ

/-- `triageInput` up to there. It may return before. -/
def minimized (item : WorkTriage pkg.Prog CallInfo) : Proc pkg (Option (Minimized pkg)) := do
  let prio ← (signalPrio pkg item.p item.info item.call).getM
  let inputSignal := pkg.fromRaw item.info.signal prio
  let corpusSignal : o.Sig ← request .corpusSignal
  let newSignal := o.signal.diff corpusSignal inputSignal
  if o.signal.empty newSignal then return none
  else
    let callName ← (callName pkg item).getM
    let runs ← signalRuns execOpts item 3 newSignal o.noCover 0
    match runs with
    | none => return none
    | some (newSignal, inputCover) =>
      let c ← minimizeInput execOpts item newSignal
      return some ⟨callName, inputSignal, inputCover, c.1, c.2⟩

def triageInput (item : WorkTriage pkg.Prog CallInfo) : Proc pkg Unit := do
  let m ← minimized execOpts item
  match m with
  | none => return ()
  | some m => finish item m.callName m.inputSignal m.inputCover m.p m.call

/-! ## The property -/

variable {execOpts : ExecOpts} {view : o.Sig → ℕ → WithBot ℕ}

/-- The signal with priority `prio` for each of the raw elements. -/
def rawView (raw : List ℕ) (prio : ℕ) (e : ℕ) : WithBot ℕ :=
  if e ∈ raw then WithBot.some prio else ⊥

variable (pkg) in
/-- Signals are finite maps from elements to priorities. -/
structure Packages.Lawful (view : o.Sig → ℕ → WithBot ℕ) : Prop where
  signal : o.signal.Lawful view
  view_fromRaw : ∀ raw prio, view (pkg.fromRaw raw prio) = rawView raw prio
  view_intersection : ∀ s s1 e, view (pkg.intersection s s1) e =
    if view s e ≤ view s1 e then view s e else ⊥
  finite : ∀ s, {e | view s e ≠ ⊥}.Finite
  len_eq : ∀ s, pkg.len s = {e | view s e ≠ ⊥}.ncard

variable (pkg) in
/-- `prog.Minimize` returns the original or a program for which its predicate was true. -/
def Packages.MinimizesByAsking : Prop :=
  ∀ p call crash l r, (pkg.minimize p call crash).Yields l r → r = (p, call) ∨ ⟨r, true⟩ ∈ l

variable (pkg) in
/-- The call has all of `set` in its signal. -/
def HasSignal (p : pkg.Prog) (info : CallInfo) (call : ℤ) (set : ℕ → WithBot ℕ) : Prop :=
  ∃ prio, signalPrio pkg p info call = some prio ∧ set ≤ rawView info.signal prio

/-- What was requested, and what came of it. -/
abbrev Event (pkg : Packages o) : Type := (r : Request pkg) × r.Answer

/-- What a signal run that the executor did not fail says. -/
def Event.signalRun : Event pkg → Option (Option ProgInfo)
  | ⟨.exec _ _ .triage, res⟩ => res
  | _ => none

/-- Input `inp` is sent for new signal that can be reproduced. -/
structure Reproducible (execOpts : ExecOpts) (item : WorkTriage pkg.Prog CallInfo)
    (view : o.Sig → ℕ → WithBot ℕ) (before : List (Event pkg)) (inp : RPCInput o)
    (set : ℕ → WithBot ℕ) : Prop where
  nonempty : set ≠ ⊥
  recorded : HasSignal pkg item.p item.info item.call set
  /-- The triage starts with `corpusSignal`, and all of `set` is new to it. -/
  new : ∃ corpusSignal rest, before = ⟨.corpusSignal, corpusSignal⟩ :: rest ∧
    ∀ e, set e ≠ ⊥ → view corpusSignal e < set e
  three : (before.filterMap Event.signalRun).length = 3
  succeeds : ∃ info ∈ before.filterMap Event.signalRun,
    reexecutionSuccess info item.info item.call = some true
  inEach : ∀ info ∈ before.filterMap Event.signalRun,
    reexecutionSuccess info item.info item.call = some true →
      ∃ inf ∈ info.bind (infoOf · item.call), HasSignal pkg item.p inf item.call set
  /-- The program that is sent is that of the item, as it is then. Unless the item is as it was,
  the program was executed with all of `set` at the call of the item. -/
  program : ∃ m, (minimized execOpts item).run.Yields before (some (some m)) ∧
    inp.prog = pkg.serialize m.p ∧ ((m.p, m.call) = (item.p, item.call) ∨
      ∃ opts stat info, ⟨.exec opts m.p stat, some info⟩ ∈ before ∧
        reexecutionSuccess info item.info m.call = some true ∧
          ∃ inf ∈ info.bind (infoOf · m.call), HasSignal pkg m.p inf m.call set)

/-! ## What is requested -/

/-- Nothing is sent to the manager. -/
def Request.NotSent : Request pkg → Prop
  | sendInputToManager _ => False
  | _ => True

/-- Nothing is sent to the manager and no signal run is made. -/
def Request.Silent : Request pkg → Prop
  | exec _ _ .triage => False
  | r => r.NotSent

theorem Request.Silent.notSent {r : Request pkg} (h : r.Silent) : r.NotSent := by
  unfold Request.Silent at h
  split at h
  · trivial
  · exact h

variable {P : Request pkg → Prop} {opts : ExecOpts} {p : pkg.Prog} {stat : Stat}

theorem allCalls_request {r : Request pkg} (h : P r) : (request r).run.AllCalls P :=
  allCalls_run_monadLift.mpr h

theorem executeRaw_allCalls (h : P (.exec opts p stat)) :
    (executeRaw opts p stat).run.AllCalls P := by
  have htries : ∀ n, (execTries opts p stat n).run.AllCalls P := by
    intro n
    induction n with
    | zero => exact allCalls_run_failure
    | succ n ih =>
      apply allCalls_run_bind (allCalls_request h)
      intro res
      cases res with
      | none => exact ih
      | some info => exact allCalls_run_pure _
  unfold executeRaw
  split
  · exact htries 12
  · exact allCalls_run_failure

theorem checkNewCallSignal_silent (info : CallInfo) (call : ℤ) :
    (checkNewCallSignal p info call).run.AllCalls Request.Silent := by
  refine allCalls_run_bind (allCalls_request trivial) fun maxSignal => ?_
  refine allCalls_run_bind (allCalls_run_getM _) fun prio => ?_
  dsimp only
  split
  · exact allCalls_run_pure _
  · exact allCalls_run_bind (allCalls_request trivial) fun _ => allCalls_run_pure _

theorem checkNewCalls_silent (calls : List CallInfo) (i : ℕ) :
    (checkNewCalls p calls i).run.AllCalls Request.Silent := by
  induction calls generalizing i with
  | nil => exact allCalls_run_pure _
  | cons inf rest ih =>
    refine allCalls_run_bind (checkNewCallSignal_silent inf i) fun new => ?_
    exact allCalls_run_bind (ih _) fun _ => allCalls_run_pure _

theorem enqueueCallTriage_silent (flags : ℕ) (callIndex : ℤ) (info : CallInfo) :
    (enqueueCallTriage p flags callIndex info).run.AllCalls Request.Silent :=
  allCalls_run_bind (allCalls_request trivial) fun _ => allCalls_run_pure _

theorem enqueueCalls_silent (flags : ℕ) (info : ProgInfo) (calls : List ℕ) :
    (enqueueCalls p flags info calls).run.AllCalls Request.Silent := by
  induction calls with
  | nil => exact allCalls_run_pure _
  | cons callIndex rest ih =>
    refine allCalls_run_bind (allCalls_run_getM _) fun inf => ?_
    exact allCalls_run_bind (enqueueCallTriage_silent _ _ _) fun _ => ih

theorem enqueueNew_silent (flags : ℕ) (info : ProgInfo) :
    (enqueueNew p flags info).run.AllCalls Request.Silent := by
  have hnew : (checkNewSignal p info).run.AllCalls Request.Silent := by
    refine allCalls_run_bind (checkNewCalls_silent _ _) fun calls => ?_
    exact allCalls_run_bind (checkNewCallSignal_silent _ _) fun _ => allCalls_run_pure _
  refine allCalls_run_bind hnew fun new => ?_
  refine allCalls_run_bind (enqueueCalls_silent _ _ _) fun _ => ?_
  split
  · exact enqueueCallTriage_silent _ _ _
  · exact allCalls_run_pure _

theorem execute_silent (flags : ℕ) :
    (execute opts p flags .minimize).run.AllCalls Request.Silent := by
  refine allCalls_run_bind (executeRaw_allCalls trivial) fun info => ?_
  refine allCalls_run_bind (allCalls_run_getM _) fun progInfo => ?_
  exact allCalls_run_bind (enqueueNew_silent _ _) fun _ => allCalls_run_pure _

theorem minimizeAttempts_silent (newSignal : o.Sig) (oldInfo : CallInfo) (call1 : ℤ) (n : ℕ) :
    (minimizeAttempts execOpts newSignal oldInfo p call1 n).run.AllCalls Request.Silent := by
  induction n with
  | zero => exact allCalls_run_pure _
  | succ n ih =>
    refine allCalls_run_bind (execute_silent _) fun info => ?_
    refine allCalls_run_bind (allCalls_run_getM _) fun success => ?_
    split
    · refine allCalls_run_bind (allCalls_run_getM _) fun this => ?_
      split
      · exact allCalls_run_pure _
      · exact ih
    · exact ih

variable (execOpts) in
theorem minimizeInput_silent (item : WorkTriage pkg.Prog CallInfo) (newSignal : o.Sig) :
    (minimizeInput execOpts item newSignal).run.AllCalls Request.Silent := by
  unfold minimizeInput
  split
  · exact allCalls_run_interpret (fun _ => minimizeAttempts_silent _ _ _ _) _
  · exact allCalls_run_pure _

theorem signalRuns_notSent (item : WorkTriage pkg.Prog CallInfo) (left : ℕ) (newSignal : o.Sig)
    (inputCover : o.Cover) (notexecuted : ℕ) :
    (signalRuns execOpts item left newSignal inputCover notexecuted).run.AllCalls
      Request.NotSent := by
  induction left generalizing newSignal inputCover notexecuted with
  | zero => exact allCalls_run_pure _
  | succ left ih =>
    refine allCalls_run_bind (executeRaw_allCalls trivial) fun info => ?_
    refine allCalls_run_bind (allCalls_run_getM _) fun success => ?_
    split
    · refine allCalls_run_bind (allCalls_run_getM _) fun this => ?_
      dsimp only
      split
      · exact allCalls_run_pure _
      · exact ih _ _ _
    · split
      · exact allCalls_run_pure _
      · exact ih _ _ _

variable (execOpts) in
theorem minimized_notSent (item : WorkTriage pkg.Prog CallInfo) :
    (minimized execOpts item).run.AllCalls Request.NotSent := by
  refine allCalls_run_bind (allCalls_run_getM _) fun prio => ?_
  refine allCalls_run_bind (allCalls_request trivial) fun corpusSignal => ?_
  dsimp only
  split
  · exact allCalls_run_pure _
  refine allCalls_run_bind (allCalls_run_getM _) fun callName => ?_
  refine allCalls_run_bind (signalRuns_notSent _ _ _ _ _) fun runs => ?_
  split
  · exact allCalls_run_pure _
  next newSignal inputCover =>
  have hsilent := minimizeInput_silent execOpts item newSignal
  exact allCalls_run_bind (hsilent.mono fun _ => Request.Silent.notSent) fun _ =>
    allCalls_run_pure _

/-! ## What comes of it -/

variable {l : List (Event pkg)}

/-- An execution is tried until the executor does not fail. -/
theorem executeRaw_spec {info : Option ProgInfo}
    (h : (executeRaw opts p stat).run.Yields l (some info)) :
    ∃ k, l = List.replicate k ⟨.exec opts p stat, none⟩ ++ [⟨.exec opts p stat, some info⟩] := by
  have htries : ∀ n l, (execTries opts p stat n).run.Yields l (some info) →
      ∃ k, l = List.replicate k ⟨.exec opts p stat, none⟩ ++
        [⟨.exec opts p stat, some info⟩] := by
    intro n
    induction n with
    | zero =>
      intro l h
      exact absurd (yields_run_failure_iff.mp h).2 nofun
    | succ n ih =>
      intro l h
      obtain ⟨l₁, l₂, res, rfl, h₁, h₂⟩ := yields_run_bind_some_iff.mp h
      obtain ⟨res', heq, rfl⟩ := yields_run_monadLift_iff.mp h₁
      obtain rfl := Option.some.inj heq
      cases res with
      | none =>
        obtain ⟨k, rfl⟩ := ih l₂ h₂
        exact ⟨k + 1, rfl⟩
      | some info' =>
        obtain ⟨rfl, hinfo⟩ := yields_run_pure_iff.mp h₂
        obtain rfl := Option.some.inj hinfo
        exact ⟨0, rfl⟩
  unfold executeRaw at h
  split at h
  · exact htries 12 l h
  · exact absurd (yields_run_failure_iff.mp h).2 nofun

theorem signalRun_of_silent (h : ∀ e ∈ l, e.1.Silent) : l.filterMap Event.signalRun = [] := by
  rw [List.filterMap_eq_nil_iff]
  rintro ⟨r, res⟩ he
  have hsilent : r.Silent := h _ he
  cases r with
  | exec opts p stat =>
    cases stat with
    | triage => exact False.elim hsilent
    | minimize => rfl
  | _ => rfl

/-- One signal run. -/
theorem executeRaw_signalRun {info : Option ProgInfo}
    (h : (executeRaw opts p .triage).run.Yields l (some info)) :
    l.filterMap Event.signalRun = [info] := by
  obtain ⟨k, rfl⟩ := executeRaw_spec h
  rw [List.filterMap_append]
  have hfail : (List.replicate k (⟨.exec opts p .triage, none⟩ : Event pkg)).filterMap
      Event.signalRun = [] := by
    rw [List.filterMap_eq_nil_iff]
    intro e he
    rw [List.eq_of_mem_replicate he]
    rfl
  rw [hfail]
  rfl

theorem execute_spec {flags : ℕ} {info : Option ProgInfo}
    (h : (execute opts p flags stat).run.Yields l (some info)) :
    ⟨.exec opts p stat, some info⟩ ∈ l := by
  obtain ⟨l₁, l₂, info', rfl, hraw, h⟩ := yields_run_bind_some_iff.mp h
  obtain ⟨progInfo, rfl, h⟩ := yields_run_getM_bind_iff.mp h
  obtain ⟨l₃, l₄, -, rfl, -, h⟩ := yields_run_bind_some_iff.mp h
  obtain ⟨-, heq⟩ := yields_run_pure_iff.mp h
  obtain rfl := Option.some.inj heq
  obtain ⟨k, rfl⟩ := executeRaw_spec hraw
  simp

section

variable (hlaw : pkg.Lawful view)

include hlaw

/-- An intersection has some of the elements, with their priorities. -/
theorem intersection_part (s s1 : o.Sig) (e : ℕ) :
    view (pkg.intersection s s1) e = ⊥ ∨ view (pkg.intersection s s1) e = view s e := by
  rw [hlaw.view_intersection]
  split
  · exact .inr rfl
  · exact .inl rfl

theorem intersection_le_right (s s1 : o.Sig) : view (pkg.intersection s s1) ≤ view s1 := by
  intro e
  rw [hlaw.view_intersection]
  split
  · assumption
  · exact bot_le

/-- An intersection as long as the signal is the signal. -/
theorem le_of_len_intersection {s s1 : o.Sig}
    (h : pkg.len (pkg.intersection s s1) = pkg.len s) : view s ≤ view s1 := by
  rw [hlaw.len_eq, hlaw.len_eq] at h
  have hsub : {e | view (pkg.intersection s s1) e ≠ ⊥} ⊆ {e | view s e ≠ ⊥} :=
    fun e he hbot => he ((intersection_part hlaw s s1 e).elim id fun heq => heq.trans hbot)
  have heq := Set.eq_of_subset_of_ncard_le hsub h.ge (hlaw.finite s)
  intro e
  by_cases he : view s e = ⊥
  · rw [he]
    exact bot_le
  · have hin : e ∈ {e | view (pkg.intersection s s1) e ≠ ⊥} := heq ▸ he
    by_contra hnot
    exact hin (by rw [hlaw.view_intersection, if_neg hnot])

theorem hasSignal_of_le {info : Option ProgInfo} {call : ℤ} {this : o.Sig × List ℕ}
    {set : ℕ → WithBot ℕ} (h : getSignalAndCover pkg p info call = some this)
    (hle : set ≤ view this.1) :
    ∃ inf ∈ info.bind (infoOf · call), HasSignal pkg p inf call set := by
  unfold getSignalAndCover at h
  simp only [Option.bind_eq_bind, Option.bind_eq_some_iff, Option.pure_def, Option.some.injEq] at h
  obtain ⟨info, rfl, inf, hinf, prio, hprio, rfl⟩ := h
  rw [hlaw.view_fromRaw] at hle
  exact ⟨inf, hinf, prio, hprio, hle⟩

/-- An attempt that convinces the predicate has all of the signal. -/
theorem minimizeAttempts_spec {newSignal : o.Sig} {oldInfo : CallInfo} {call1 : ℤ} {n : ℕ}
    (h : (minimizeAttempts execOpts newSignal oldInfo p call1 n).run.Yields l (some true)) :
    ∃ info, ⟨.exec execOpts.noCollide p .minimize, some info⟩ ∈ l ∧
      reexecutionSuccess info oldInfo call1 = some true ∧
        ∃ inf ∈ info.bind (infoOf · call1), HasSignal pkg p inf call1 (view newSignal) := by
  induction n generalizing l with
  | zero => exact absurd (yields_run_pure_iff.mp h).2 (by simp)
  | succ n ih =>
    obtain ⟨l₁, l₂, info, rfl, hexec, h⟩ := yields_run_bind_some_iff.mp h
    obtain ⟨success, hsuccess, h⟩ := yields_run_getM_bind_iff.mp h
    -- It may be a later attempt.
    have hlater : (minimizeAttempts execOpts newSignal oldInfo p call1 n).run.Yields l₂
        (some true) → _ := fun h => (ih h).imp fun _ => And.imp_left (List.mem_append_right l₁)
    split at h
    · next htrue =>
      subst htrue
      obtain ⟨this, hthis, h⟩ := yields_run_getM_bind_iff.mp h
      split at h
      · next hlen =>
        refine ⟨info, List.mem_append_left _ (execute_spec hexec), hsuccess, ?_⟩
        exact hasSignal_of_le hlaw hthis (le_of_len_intersection hlaw hlen)
      · exact hlater h
    · exact hlater h

/-- The signal that is left after some signal runs is in each of them that succeeds, and not
more than two fail. -/
structure Left (view : o.Sig → ℕ → WithBot ℕ) (item : WorkTriage pkg.Prog CallInfo)
    (runs : List (Option ProgInfo)) (notexecuted : ℕ) (newSignal left : o.Sig) : Prop where
  part : ∀ e, view left e = ⊥ ∨ view left e = view newSignal e
  inEach : ∀ info ∈ runs, reexecutionSuccess info item.info item.call = some true →
    ∃ inf ∈ info.bind (infoOf · item.call), HasSignal pkg item.p inf item.call (view left)
  nonempty : item.flags &&& progMinimized = 0 → o.signal.empty newSignal = false →
    o.signal.empty left = false
  failures : runs.countP (reexecutionSuccess · item.info item.call ≠ some true) + notexecuted ≤ 2

omit hlaw in
theorem Left.le {item : WorkTriage pkg.Prog CallInfo} {runs : List (Option ProgInfo)}
    {notexecuted : ℕ} {newSignal left : o.Sig}
    (h : Left view item runs notexecuted newSignal left) : view left ≤ view newSignal := by
  intro e
  rcases h.part e with hbot | heq
  · rw [hbot]
    exact bot_le
  · exact heq.le

theorem signalRuns_spec {item : WorkTriage pkg.Prog CallInfo} {left : ℕ}
    {newSignal newSignal' : o.Sig} {inputCover inputCover' : o.Cover} {notexecuted : ℕ}
    (hfew : notexecuted ≤ 2)
    (h : (signalRuns execOpts item left newSignal inputCover notexecuted).run.Yields l
      (some (some (newSignal', inputCover')))) :
    (l.filterMap Event.signalRun).length = left ∧
      Left view item (l.filterMap Event.signalRun) notexecuted newSignal newSignal' := by
  induction left generalizing l newSignal inputCover notexecuted with
  | zero =>
    obtain ⟨rfl, heq⟩ := yields_run_pure_iff.mp h
    obtain ⟨rfl, rfl⟩ := Prod.mk.inj (Option.some.inj (Option.some.inj heq))
    exact ⟨rfl, fun _ => .inr rfl, by simp, fun _ => id, by simpa using hfew⟩
  | succ left ih =>
    obtain ⟨l₁, l₂, info, rfl, hexec, h⟩ := yields_run_bind_some_iff.mp h
    obtain ⟨success, hsuccess, h⟩ := yields_run_getM_bind_iff.mp h
    rw [List.filterMap_append, executeRaw_signalRun hexec]
    split at h
    · next htrue =>
      subst htrue
      obtain ⟨this, hthis, h⟩ := yields_run_getM_bind_iff.mp h
      dsimp only at h
      split at h
      · exact absurd (yields_run_pure_iff.mp h).2 (by simp)
      · next hnonempty =>
        obtain ⟨hlen, hleft⟩ := ih hfew h
        refine ⟨by simp [hlen], ?_, ?_, ?_, ?_⟩
        · intro e
          rcases hleft.part e with hbot | heq
          · exact .inl hbot
          · rw [heq]
            exact intersection_part hlaw _ _ e
        · refine List.forall_mem_cons.mpr ⟨fun _ => ?_, hleft.inEach⟩
          exact hasSignal_of_le hlaw hthis (hleft.le.trans (intersection_le_right hlaw _ _))
        · intro hflags _
          exact hleft.nonempty hflags (by simpa [hflags] using hnonempty)
        · simpa [hsuccess] using hleft.failures
    · next hfalse =>
      split at h
      · exact absurd (yields_run_pure_iff.mp h).2 (by simp)
      · next hmore =>
        obtain ⟨hlen, hleft⟩ := ih (by omega) h
        have hfail : reexecutionSuccess info item.info item.call ≠ some true := by
          rw [hsuccess]
          exact fun heq => hfalse (Option.some.inj heq)
        refine ⟨by simp [hlen], hleft.part, ?_, hleft.nonempty, ?_⟩
        · exact List.forall_mem_cons.mpr ⟨fun htrue => absurd htrue hfail, hleft.inEach⟩
        · have hfailures := hleft.failures
          simp only [List.singleton_append, List.countP_cons, hfail, ne_eq, not_false_eq_true,
            decide_true, if_true] at hfailures ⊢
          omega

/-- What comes out of the minimization is the old program, or one with the signal at its call. -/
theorem minimizeInput_spec (hmin : pkg.MinimizesByAsking)
    {item : WorkTriage pkg.Prog CallInfo} {newSignal : o.Sig} {c : pkg.Prog × ℤ}
    (h : (minimizeInput execOpts item newSignal).run.Yields l (some c)) :
    c = (item.p, item.call) ∨ ∃ opts stat info, ⟨.exec opts c.1 stat, some info⟩ ∈ l ∧
      reexecutionSuccess info item.info c.2 = some true ∧
        ∃ inf ∈ info.bind (infoOf · c.2), HasSignal pkg c.1 inf c.2 (view newSignal) := by
  unfold minimizeInput at h
  split at h
  · obtain ⟨l', hyields, hasked⟩ := h.of_interpret
    rcases hmin _ _ _ _ _ hyields with rfl | hmem
    · exact .inl rfl
    · obtain ⟨l₁, hinfix, h₁⟩ := hasked _ hmem
      obtain ⟨info, hexec, hrest⟩ := minimizeAttempts_spec hlaw h₁
      exact .inr ⟨_, _, info, hinfix.subset hexec, hrest⟩
  · obtain ⟨-, heq⟩ := yields_run_pure_iff.mp h
    obtain rfl := Option.some.inj heq
    exact .inl rfl

omit hlaw in
/-- One input is sent, before everything else. -/
theorem finish_spec {item : WorkTriage pkg.Prog CallInfo} {callName : String}
    {inputSignal : o.Sig} {inputCover : o.Cover} {call : ℤ} {r : Option Unit} {inp : RPCInput o}
    {ok : Bool} (h : (finish item callName inputSignal inputCover p call).run.Yields l r)
    (hsent : ⟨.sendInputToManager inp, ok⟩ ∈ l) :
    inp.prog = pkg.serialize p ∧ ∃ after, l = ⟨.sendInputToManager inp, ok⟩ :: after := by
  have hrest (sent : Bool) : (if sent then do
      let _ ← request (.addInputToCorpus p inputSignal (pkg.hash (pkg.serialize p)))
      if item.flags &&& progSmashed = 0 then
        let _ ← request (.enqueue (.smash ⟨p, call⟩))
        return ()
      else return ()
      else failure : Proc pkg Unit).run.AllCalls Request.NotSent := by
    split
    · refine allCalls_run_bind (allCalls_request trivial) fun _ => ?_
      split
      · exact allCalls_run_bind (allCalls_request trivial) fun _ => allCalls_run_pure _
      · exact allCalls_run_pure _
    · exact allCalls_run_failure
  obtain ⟨sent, rest, rfl, hyields⟩ := h.of_monadLift_bind
  rcases List.mem_cons.mp hsent with heq | hmem
  · obtain ⟨hreq, hok⟩ := Sigma.mk.inj heq
    obtain rfl := Request.sendInputToManager.inj hreq
    obtain rfl := eq_of_heq hok
    exact ⟨rfl, rest, rfl⟩
  · exact (hyields.allCalls (hrest sent) _ hmem).elim

omit hlaw in
/-- What a triage that sends an input has done before that. -/
theorem triageInput_sends {item : WorkTriage pkg.Prog CallInfo} {r : Option Unit}
    (h : (triageInput execOpts item).run.Yields l r) {inp : RPCInput o} {ok : Bool}
    (hsent : ⟨.sendInputToManager inp, ok⟩ ∈ l) :
    ∃ before after m, l = before ++ ⟨.sendInputToManager inp, ok⟩ :: after ∧
      (minimized execOpts item).run.Yields before (some (some m)) ∧
      inp.prog = pkg.serialize m.p := by
  obtain ⟨before, rest, m, rfl, hbefore, hrest, hsent⟩ :=
    h.mem_second (minimized_notSent execOpts item) hsent id
  cases m with
  | none =>
    obtain ⟨rfl, -⟩ := yields_run_pure_iff.mp hrest
    exact absurd hsent List.not_mem_nil
  | some m =>
    obtain ⟨hprog, after, rfl⟩ := finish_spec hrest hsent
    exact ⟨before, after, m, rfl, hbefore, hprog⟩

omit hlaw in
/-- What it takes to get to the end of the minimization. -/
theorem minimized_spec {item : WorkTriage pkg.Prog CallInfo} {m : Minimized pkg}
    (h : (minimized execOpts item).run.Yields l (some (some m))) :
    ∃ prio corpusSignal newSignal inputCover l₂ l₄,
      signalPrio pkg item.p item.info item.call = some prio ∧
      l = ⟨.corpusSignal, corpusSignal⟩ :: (l₂ ++ l₄) ∧
      o.signal.empty (o.signal.diff corpusSignal (pkg.fromRaw item.info.signal prio)) = false ∧
      (signalRuns execOpts item 3
        (o.signal.diff corpusSignal (pkg.fromRaw item.info.signal prio)) o.noCover 0).run.Yields l₂
          (some (some (newSignal, inputCover))) ∧
      (minimizeInput execOpts item newSignal).run.Yields l₄ (some (m.p, m.call)) := by
  obtain ⟨prio, hprio, h₁⟩ := yields_run_getM_bind_iff.mp h
  obtain ⟨l₁, l₂, (corpusSignal : o.Sig), rfl, hcorpus, h₂⟩ := yields_run_bind_some_iff.mp h₁
  obtain ⟨res, heq, rfl⟩ := yields_run_monadLift_iff.mp hcorpus
  obtain rfl := Option.some.inj heq
  dsimp only at h₂
  split at h₂
  · exact absurd (yields_run_pure_iff.mp h₂).2 (by simp)
  next hnonempty =>
  obtain ⟨callName, -, h₃⟩ := yields_run_getM_bind_iff.mp h₂
  obtain ⟨l₃, l₄, runs, rfl, hruns, h₄⟩ := yields_run_bind_some_iff.mp h₃
  split at h₄
  · exact absurd (yields_run_pure_iff.mp h₄).2 (by simp)
  next newSignal inputCover =>
  obtain ⟨l₅, l₆, c, rfl, hminimized, h₅⟩ := yields_run_bind_some_iff.mp h₄
  obtain ⟨rfl, heq⟩ := yields_run_pure_iff.mp h₅
  obtain rfl := Option.some.inj (Option.some.inj heq)
  rw [List.append_nil]
  exact ⟨prio, corpusSignal, newSignal, inputCover, l₃, l₅, hprio, rfl,
    Bool.not_eq_true _ ▸ hnonempty, hruns, hminimized⟩

/-- What is left of the new signal has the recorded priorities, where these are new. -/
theorem Left.recorded {item : WorkTriage pkg.Prog CallInfo} {runs : List (Option ProgInfo)}
    {notexecuted prio : ℕ} {corpusSignal left : o.Sig}
    (h : Left view item runs notexecuted
      (o.signal.diff corpusSignal (pkg.fromRaw item.info.signal prio)) left)
    {e : ℕ} (he : view left e ≠ ⊥) :
    view left e = rawView item.info.signal prio e ∧
      view corpusSignal e < rawView item.info.signal prio e := by
  have hpart := (h.part e).resolve_left he
  rw [hlaw.signal.view_diff, hlaw.view_fromRaw] at hpart
  split at hpart
  · next hlt => exact ⟨hpart, hlt⟩
  · exact absurd hpart he

omit hlaw in
/-- Three runs do not all fail. -/
theorem Left.succeeds {item : WorkTriage pkg.Prog CallInfo} {runs : List (Option ProgInfo)}
    {newSignal left : o.Sig} (h : Left view item runs 0 newSignal left) (hlen : runs.length = 3) :
    ∃ info ∈ runs, reexecutionSuccess info item.info item.call = some true := by
  by_contra! hfail
  have hall : runs.countP (reexecutionSuccess · item.info item.call ≠ some true) = 3 := by
    rw [← hlen, List.countP_eq_length]
    exact fun info hinfo => decide_eq_true (hfail info hinfo)
  have hfailures := h.failures
  omega

theorem triageInput_reproducible (hmin : pkg.MinimizesByAsking)
    {item : WorkTriage pkg.Prog CallInfo} (hflags : item.flags &&& progMinimized = 0)
    {r : Option Unit} (h : (triageInput execOpts item).run.Yields l r) {inp : RPCInput o}
    {ok : Bool} (hsent : ⟨.sendInputToManager inp, ok⟩ ∈ l) :
    ∃ before after set, l = before ++ ⟨.sendInputToManager inp, ok⟩ :: after ∧
      Reproducible execOpts item view before inp set := by
  obtain ⟨before, after, m, rfl, hbefore, hprog⟩ := triageInput_sends h hsent
  obtain ⟨prio, corpusSignal, newSignal, inputCover, l₂, l₄, hprio, rfl, hnonempty, hyields,
    hminimized⟩ := minimized_spec hbefore
  obtain ⟨hlen, hleft⟩ := signalRuns_spec hlaw (Nat.zero_le 2) hyields
  have hruns : (⟨.corpusSignal, corpusSignal⟩ :: (l₂ ++ l₄) : List (Event pkg)).filterMap
      Event.signalRun = l₂.filterMap Event.signalRun := by
    rw [List.filterMap_cons_none rfl, List.filterMap_append, signalRun_of_silent
      (hminimized.allCalls (minimizeInput_silent execOpts item newSignal)), List.append_nil]
  refine ⟨_, after, view newSignal, rfl, ?_⟩
  constructor
  case nonempty =>
    rw [ne_eq, ← hlaw.signal.empty_iff, hleft.nonempty hflags hnonempty]
    exact Bool.false_ne_true
  case recorded =>
    refine ⟨prio, hprio, fun e => ?_⟩
    by_cases he : view newSignal e = ⊥
    · rw [he]
      exact bot_le
    · exact (hleft.recorded hlaw he).1.le
  case new =>
    refine ⟨corpusSignal, _, rfl, fun e he => ?_⟩
    obtain ⟨heq, hlt⟩ := hleft.recorded hlaw he
    rwa [heq]
  case three => rw [hruns, hlen]
  case succeeds =>
    rw [hruns]
    exact hleft.succeeds hlen
  case inEach =>
    rw [hruns]
    exact hleft.inEach
  case program =>
    refine ⟨m, hbefore, hprog, (minimizeInput_spec hlaw hmin hminimized).imp_right ?_⟩
    rintro ⟨opts, stat, info, hexec, hrest⟩
    exact ⟨opts, stat, info, by simp [hexec], hrest⟩

end

/-! ## A run -/

def rawMap (raw : List ℕ) (prio : ℕ) : PrioMap where
  elems := raw
  prio := rawView raw prio
  supported _ he := if_neg he

def intersectionMap (s s1 : PrioMap) : PrioMap where
  elems := s.elems
  prio e := if s.prio e ≤ s1.prio e then s.prio e else ⊥
  supported e he := by simp [s.supported e he]

theorem support_eq (s : PrioMap) :
    {e | s.prio e ≠ ⊥} = ↑(s.elems.dedup.filter fun e => s.prio e ≠ ⊥).toFinset := by
  ext e
  simp only [Set.mem_ofPred_eq, List.coe_toFinset, List.mem_filter, List.mem_dedup,
    decide_eq_true_eq]
  exact ⟨fun he => ⟨not_imp_comm.mp (s.supported e) he, he⟩, And.right⟩

theorem len_eq_ncard (s : PrioMap) : s.len = {e | s.prio e ≠ ⊥}.ncard := by
  rw [support_eq, Set.ncard_coe_finset, List.toFinset_card_of_nodup]
  · rfl
  · exact s.elems.nodup_dedup.filter _

/-- `prog.Minimize` for programs without arguments: call `i` is left out, if that is all right,
for each `i` below `n` but that of the call. -/
def removeCalls (p : List ProgCall) (call : ℤ) :
    ℕ → Program (fun _ : List ProgCall × ℤ => Bool) (List ProgCall × ℤ)
  | 0 => ret (p, call)
  | i + 1 =>
    if i = call then removeCalls p call i
    else
      let p' := p.eraseIdx i
      let call' := if i < call then call - 1 else call
      Program.call (p', call') fun ok => if ok then removeCalls p' call' i else removeCalls p call i

/-- Programs are lists of calls, and are written as texts. -/
def listPrograms : Packages textPrograms where
  Prog := List ProgCall
  Key := String
  calls := id
  serialize p := "\n".intercalate (p.map fun c => c.callName ++ "()")
  hash := id
  minimize p call _ := removeCalls p call p.length
  fromRaw := rawMap
  diffRaw s raw prio := s.diff (rawMap raw prio)
  intersection := intersectionMap
  len := PrioMap.len

theorem listPrograms_lawful : listPrograms.Lawful PrioMap.prio where
  signal := prioMaps_lawful
  view_fromRaw _ _ := rfl
  view_intersection _ _ _ := rfl
  finite s := (support_eq s).symm ▸ Finset.finite_toSet _
  len_eq := len_eq_ncard

theorem listPrograms_minimizes : listPrograms.MinimizesByAsking := by
  have hremove : ∀ (n : ℕ) p call l r, (removeCalls p call n).Yields l r →
      r = (p, call) ∨ ⟨r, true⟩ ∈ l := by
    intro n
    induction n with
    | zero => exact fun p call l r h => .inl (yields_ret_iff.mp h).2
    | succ i ih =>
      intro p call l r h
      unfold removeCalls at h
      split at h
      · exact ih p call l r h
      · obtain ⟨ok, l', rfl, hrest⟩ := yields_call_iff.mp h
        cases ok with
        | false => exact (ih _ _ _ _ hrest).imp_right (List.mem_cons_of_mem _)
        | true =>
          rcases ih _ _ _ _ hrest with rfl | hmem
          · exact .inr List.mem_cons_self
          · exact .inr (List.mem_cons_of_mem _ hmem)
  exact fun p call crash l r h => hremove _ p call l r h

/-- Every call has the element 7. The second execution hangs. -/
def flaky : (r : Request listPrograms) → ℕ → r.Answer × ℕ
  | .corpusSignal, n | .maxSignal, n => (noSignal, n)
  | .exec _ p _, n =>
    let calls := List.map (fun _ => ⟨[7], [100], 0⟩) p
    (if n = 1 then some none else some (some ⟨calls, ⟨[], [], 0⟩⟩), n + 1)
  | .sendInputToManager _, n => (true, n)
  | .addNewSignal _, n | .enqueue _, n | .addInputToCorpus .., n => ((), n)

def openWrite : WorkTriage (List ProgCall) CallInfo where
  p := [⟨"open", false⟩, ⟨"write", false⟩]
  call := 1
  info := ⟨[7, 8], [], 0⟩
  flags := progNormal

def openWriteTriage : Proc listPrograms Unit := triageInput ⟨true, false, true⟩ openWrite

/-- The events of the triage. -/
def flakyTriage : List (Event listPrograms) :=
  (openWriteTriage.run.run (record flaky) (0, [])).2.2

/-- The programs that are sent. -/
def Event.sent : Event listPrograms → Option String
  | ⟨.sendInputToManager inp, true⟩ => some inp.prog
  | _ => none

theorem triageInput_reproducible_flakyTriage :
    ∃ inp, inp.prog = "write()" ∧
      ∃ before after set, flakyTriage = before ++ ⟨.sendInputToManager inp, true⟩ :: after ∧
        Reproducible ⟨true, false, true⟩ openWrite PrioMap.prio before inp set := by
  have hsent : "write()" ∈ flakyTriage.filterMap Event.sent := by
    have hone : flakyTriage.filterMap Event.sent = ["write()"] := by decide +kernel
    exact hone ▸ List.mem_singleton_self _
  obtain ⟨⟨req, ok⟩, hmem, hreq⟩ := List.mem_filterMap.mp hsent
  obtain ⟨l, hl, h⟩ := yields_record flaky openWriteTriage.run 0 []
  cases req with
  | sendInputToManager inp =>
    cases ok with
    | true =>
      refine ⟨inp, Option.some.inj hreq, ?_⟩
      have hevents : flakyTriage = l := hl
      rw [hevents] at hmem ⊢
      exact triageInput_reproducible listPrograms_lawful listPrograms_minimizes rfl h hmem
    | false => exact absurd hreq nofun
  | exec _ _ stat => cases stat <;> exact absurd hreq nofun
  | _ => exact absurd hreq nofun

end FuzzUSB.Triage
