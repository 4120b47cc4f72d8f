import FuzzUSB.StateMgrFsm
import FuzzUSB.Transition

/-!
# The configuration thread

`c1_mutate` tears the gadget down and builds it again, one `/root/c1_fz` command at
a time, and `c1_dispatch` tracks the stage reached in the global `state`.
-/

namespace FuzzUSB.StateMgr
open PyText Transition

/-- What `subprocess.check_output` does: return the output, or raise. -/
inductive CheckOutput
  | output (text : Str)
  | exception (text : Str)

/-- `_execute`: the output with the error flag. -/
def execute : CheckOutput → Str × Bool
  | .output text => (text, false)
  | .exception text => (text, true)

/-- `arg0`, `arg1` and `arg2` from the fields after `trans` and `g_dir`; `none` is an
`IndexError`. -/
def c1Args (trans : Str) (fields : List Str) : Option (Str × Str × Str) :=
  if trans = "01".toList then do
    let arg0 ← fields[0]?
    let arg1 ← fields[1]?
    let arg2 ← fields[2]?
    return (arg0, arg1, if arg2.length ≠ 0 then arg2 else [])
  else if trans = "23".toList ∨ trans = "34".toList ∨ trans = "45".toList ∨
      trans = "43".toList ∨ trans = "32".toList then
    (fields[0]?).map fun arg0 => (arg0, [], [])
  else if trans = "55".toList then (fields[0]?).map fun arg0 => (arg0, [], [])
  else some ([], [], [])

/-- The command line of a transition. -/
def c1Cmds (trans gDir : Str) (args : Str × Str × Str) : List Str :=
  ["/root/c1_fz".toList, "-t".toList, trans, "-d".toList, gDir, "-a".toList, args.1,
    "-b".toList, args.2.1, "-c".toList, args.2.2]

/-- The state that `c1_dispatch` assigns for a transition code, if it assigns one. -/
def c1Target (trans : Str) : Option ℤ :=
  if trans = "01".toList then some 1
  else if trans = "12".toList then some 2
  else if trans = "23".toList then some 3
  else if trans = "34".toList then some 4
  else if trans = "45".toList then some 5
  else if trans = "54".toList then some 4
  else if trans = "43".toList then some 3
  else if trans = "32".toList then some 2
  else if trans = "21".toList then some 1
  else if trans = "10".toList then some 0
  else none

/-- `c1_dispatch` with commands that end as `run` says: the new `state`. `none` is the
`IndexError` outside the `try`, which ends the thread. -/
def c1Dispatch (run : List Str → CheckOutput) (arg : Str) (state : ℤ) : Option ℤ :=
  match split ',' arg with
  | tr :: gDir :: fields =>
    match c1Args tr fields with
    | none => some state
    | some args =>
      -- The error flag is computed here and not looked at.
      let (_output, _error) := execute (run (c1Cmds tr gDir args))
      some ((c1Target tr).getD state)
  | _ => none

/-- The calls of one round of `c1_mutate`, by their keys in `c1_tran`. -/
def c1Round (flag : Bool) : List Edge :=
  (if flag then [(5, 4)] else []) ++
    [(4, 3), (3, 2), (2, 1), (1, 0), (0, 1), (1, 2), (2, 3), (3, 4), (4, 5)]

/-- The steps of `c1_mutate`: the draw that starts a round, and one `c1_dispatch`. -/
inductive C1Event
  | round (flag : Bool)
  | call (run : List Str → CheckOutput)

/-- One step of `c1_mutate` with the calls `todo` left in its round. A missing key of
`c1_tran` ends the thread. -/
def c1Next (c1Tran : Edge → Option Str) (todo : List Edge) (state : ℤ) :
    C1Event → Option (List Edge × ℤ)
  | .round flag => if todo = [] then some (c1Round flag, state) else none
  | .call run =>
    match todo with
    | [] => none
    | e :: rest =>
      (c1Tran e).bind fun arg => (c1Dispatch run arg state).map fun state => (rest, state)

/-- The assigned state and the command of an argument that gets as far as `_execute`. -/
def c1Request (arg : Str) : Option (Option ℤ × List Str) :=
  match split ',' arg with
  | tr :: gDir :: fields =>
    (c1Args tr fields).map fun args => (c1Target tr, c1Cmds tr gDir args)
  | _ => none

/-- `c1_dispatch` assigns the target of the request, whatever its command returned. -/
theorem c1Dispatch_eq {run : List Str → CheckOutput} {arg : Str} {state state' : ℤ}
    (h : c1Dispatch run arg state = some state') :
    state' = ((c1Request arg).bind Prod.fst).getD state := by
  unfold c1Dispatch at h
  unfold c1Request
  split at h
  · next tr gDir fields _ =>
    cases hargs : c1Args tr fields with
    | none => simpa [hargs] using h.symm
    | some args => simpa [hargs] using h.symm
  · cases h

theorem c1Dispatch_of_request {run : List Str → CheckOutput} {arg : Str} {state : ℤ}
    {r : Option ℤ × List Str} (h : c1Request arg = some r) :
    c1Dispatch run arg state = some (r.1.getD state) := by
  unfold c1Request at h
  unfold c1Dispatch
  split at h
  · obtain ⟨args, hargs, rfl⟩ := Option.map_eq_some_iff.mp h
    simp [hargs]
  · cases h

theorem c1Round_subset (flag : Bool) : ∀ e ∈ c1Round flag, e ∈ c1Round true := by
  cases flag <;> decide

/-! ## Commands that fail -/

/-- The stage the gadget is left in by a call: the target of its transition when the
command succeeded. -/
def stageAfter (run : List Str → CheckOutput) (arg : Str) (stage : ℤ) : ℤ :=
  match c1Request arg with
  | none => stage
  | some (target, cmds) => if (execute (run cmds)).2 then stage else target.getD stage

/-- A run of `c1_mutate`, with the tracked `state` and the stage of the gadget. -/
structure C1Run where
  todo : List Edge
  state : ℤ
  stage : ℤ
  deriving DecidableEq

def c1Step (c1Tran : Edge → Option Str) (s : C1Run) (e : C1Event) : Option C1Run :=
  (c1Next c1Tran s.todo s.state e).map fun r =>
    { todo := r.1, state := r.2
      stage := match e, s.todo with
        | .call run, edge :: _ =>
          ((c1Tran edge).map fun arg => stageAfter run arg s.stage).getD s.stage
        | _, _ => s.stage }

/-- The tracked state is the stage of the gadget. As `loop` acts from state 5 on, it then acts on
a gadget at stage 5 only, which is bound. -/
def Tracked (s : C1Run) : Prop := s.state = s.stage

/-- If the step is a call whose command fails, its transition is to the tracked state or
assigns none. -/
def FailsHarmlessly (c1Tran : Edge → Option Str) (s : C1Run) (e : C1Event) : Prop :=
  ∀ run edge arg target cmds, e = .call run → s.todo.head? = some edge → c1Tran edge = some arg →
    c1Request arg = some (some target, cmds) → (execute (run cmds)).2 = true → target = s.state

theorem c1Step_round {c1Tran : Edge → Option Str} {s t : C1Run} {flag : Bool}
    (h : c1Step c1Tran s (.round flag) = some t) : t = { s with todo := c1Round flag } := by
  obtain ⟨r, hr, rfl⟩ := Option.map_eq_some_iff.mp h
  simp only [c1Next, Option.ite_none_right_eq_some, Option.some.injEq] at hr
  obtain ⟨-, rfl⟩ := hr
  rfl

theorem c1Step_call {c1Tran : Edge → Option Str} {s t : C1Run} {run : List Str → CheckOutput}
    (h : c1Step c1Tran s (.call run) = some t) :
    ∃ edge rest arg, s.todo = edge :: rest ∧ c1Tran edge = some arg ∧
      t = ⟨rest, ((c1Request arg).bind Prod.fst).getD s.state, stageAfter run arg s.stage⟩ := by
  obtain ⟨r, hr, rfl⟩ := Option.map_eq_some_iff.mp h
  cases htodo : s.todo with
  | nil => simp [c1Next, htodo] at hr
  | cons edge rest =>
    simp only [c1Next, htodo] at hr
    obtain ⟨arg, harg, hr⟩ := Option.bind_eq_some_iff.mp hr
    obtain ⟨state', hstate, rfl⟩ := Option.map_eq_some_iff.mp hr
    refine ⟨edge, rest, arg, rfl, harg, ?_⟩
    simp [c1Dispatch_eq hstate, harg]

theorem tracked_step_iff {c1Tran : Edge → Option Str} {s t : C1Run} {e : C1Event}
    (hs : Tracked s) (h : c1Step c1Tran s e = some t) :
    Tracked t ↔ FailsHarmlessly c1Tran s e := by
  cases e with
  | round flag =>
    rw [c1Step_round h]
    exact ⟨fun _ _ _ _ _ _ he => C1Event.noConfusion he, fun _ => hs⟩
  | call run =>
    obtain ⟨edge, rest, arg, htodo, harg, rfl⟩ := c1Step_call h
    -- The step fixes the call, so the condition is about this one argument.
    have hcond : FailsHarmlessly c1Tran s (.call run) ↔ ∀ target cmds,
        c1Request arg = some (some target, cmds) → (execute (run cmds)).2 = true →
          target = s.state := by
      refine ⟨fun hc target cmds => hc run edge arg target cmds rfl (by simp [htodo]) harg, ?_⟩
      rintro hc run' edge' arg' target cmds ⟨⟩ hedge harg'
      obtain rfl : edge = edge' := by simpa [htodo] using hedge
      obtain rfl := Option.some.inj (harg.symm.trans harg')
      exact hc target cmds
    rw [hcond]
    unfold Tracked stageAfter
    rw [← show s.state = s.stage from hs]
    cases hreq : c1Request arg with
    | none => simp
    | some r =>
      obtain ⟨target, cmds⟩ := r
      cases herr : (execute (run cmds)).2 <;> cases target <;> simp [herr]

/-- In a run of `c1_mutate` from any state, `state` is the stage of the gadget throughout
exactly when no command fails whose transition would change `state`. -/
theorem c1_tracked_iff (c1Tran : Edge → Option Str) (start : ℤ) (es : List C1Event) :
    Always (c1Step c1Tran) Tracked ⟨[], start, start⟩ es ↔
      AlwaysStep (c1Step c1Tran) (FailsHarmlessly c1Tran) ⟨[], start, start⟩ es :=
  always_iff_alwaysStep (J := fun _ => True) (fun _ _ _ _ _ => trivial)
    (fun _ _ _ _ hs h => tracked_step_iff hs h) trivial rfl

/-- The configuration transitions of the `hid` gadget. -/
def hidTran : Edge → Option Str
  | (5, 4) => some "54,hid".toList
  | (4, 3) => some "43,hid,configs/c.1/hid.0".toList
  | (3, 2) => some "32,hid,functions/hid.0".toList
  | (2, 1) => some "21,hid".toList
  | (1, 0) => some "10,hid".toList
  | (0, 1) => some "01,hid,0x1d6b,0x0104,".toList
  | (1, 2) => some "12,hid".toList
  | (2, 3) => some "23,hid,functions/hid.0".toList
  | (3, 4) => some "34,hid,functions/hid.0".toList
  | (4, 5) => some "45,hid,dummy_udc.0".toList
  | _ => none

/-- A round in which only the bind command fails. -/
def failedBind : List C1Event :=
  .round false :: List.replicate 8 (.call fun _ => .output []) ++
    [.call fun _ => .exception "Device or resource busy".toList]

/-- After a failed bind, `state` is 5 on a gadget that is linked only. -/
theorem c1_state_runs_ahead : ¬Always (c1Step hidTran) Tracked ⟨[], 0, 0⟩ failedBind := by
  intro h
  have hend : runs (c1Step hidTran) ⟨[], 0, 0⟩ failedBind = some ⟨[], 5, 4⟩ := by decide
  have htracked : (5 : ℤ) = 4 := always_iff.mp h failedBind _ (List.prefix_refl _) hend
  exact absurd htracked (by decide)

end FuzzUSB.StateMgr
