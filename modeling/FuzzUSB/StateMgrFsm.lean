import FuzzUSB.PyText
import FuzzUSB.Transition
import Mathlib.Data.List.Induction
import Mathlib.Logic.Function.Basic
import Mathlib.Tactic.Common

/-!
# The FSM file of the state manager

`load_fsm` reads a file line by line. A `t:` line opens a transition and the
`c1:` to `c4:` lines after it give payloads to the transition opened last. The
tables it fills are keyed by the pair of states, not by the transition.
-/

namespace FuzzUSB.StateMgr
open PyText Transition

/-- A pair `(c_state, n_state)`, the key of the payload tables. -/
abbrev Edge := ℤ × ℤ

/-- The channels a payload can go through. -/
inductive Channel
  | c1 | c2 | c3 | c4
  deriving DecidableEq

/-- What `load_fsm` sees in one line. -/
inductive Line
  | trans (cState nState : ℤ)
  | payload (k : Channel) (text : Str)
  | other
  deriving DecidableEq

/-- The exceptions that end `load_fsm`. -/
inductive LoadError
  | indexError | valueError | unboundLocalError
  deriving DecidableEq

/-- `c_state` and `n_state` from the text after `t:`. -/
def readTrans (states : Str) : Except LoadError Line :=
  match split ',' states with
  | [] => .error .indexError
  | c :: rest =>
    match int c with
    | none => .error .valueError
    | some cState =>
      -- `c_state` is converted before `n_state` is looked for.
      match rest with
      | [] => .error .indexError
      | n :: _ =>
        match int n with
        | none => .error .valueError
        | some nState => .ok (.trans cState nState)

/-- The `if`/`elif` chain on the start of a line. -/
def readLine (l : Str) : Except LoadError Line :=
  if startsWith l "t:".toList then readTrans (l.drop 2)
  else if startsWith l "c1:".toList then .ok (.payload .c1 (strip (l.drop 3)))
  else if startsWith l "c2:".toList then .ok (.payload .c2 (strip (l.drop 3)))
  else if startsWith l "c3:".toList then .ok (.payload .c3 (strip (l.drop 3)))
  else if startsWith l "c4:".toList then .ok (.payload .c4 (strip (l.drop 3)))
  else .ok .other

/-- The global dictionaries: `conn_states`, `ch`, and `c1_tran` to `c4_tran`. -/
structure Fsm where
  connStates : ℤ → Option (List ℤ)
  ch : Edge → Option Channel
  tran : Channel → Edge → Option Str

/-- The dictionaries and the local variables `c_state, n_state`, unbound at first. -/
structure Loader where
  fsm : Fsm
  cur : Option Edge

def Loader.start : Loader := ⟨⟨fun _ => none, fun _ => none, fun _ _ => none⟩, none⟩

/-- One turn of the loop of `load_fsm`. -/
def loadLine (st : Loader) : Line → Except LoadError Loader
  | .trans c n =>
    let succ := (st.fsm.connStates c).getD []
    -- The key is made even when the edge is not kept.
    let succ := if c = 5 ∧ n ≤ 5 then succ else n :: succ
    .ok { fsm := { st.fsm with connStates := Function.update st.fsm.connStates c (some succ) }
          cur := some (c, n) }
  | .payload k text =>
    match st.cur with
    | none => .error .unboundLocalError
    | some e =>
      .ok { st with fsm := { st.fsm with
        tran := Function.update st.fsm.tran k (Function.update (st.fsm.tran k) e (some text))
        ch := Function.update st.fsm.ch e (some k) } }
  | .other => .ok st

/-- `load_fsm` on the lines of a file. -/
def loadFsm (file : List Str) : Except LoadError Fsm := do
  let st ← file.foldlM (fun st l => readLine l >>= loadLine st) Loader.start
  return st.fsm

/-- `run_trans`: the dispatch it starts, with its payload, and the state it returns.
`none` is a `KeyError`. -/
def runTrans (m : Fsm) (tran : Edge) : Option (Option (Channel × Str) × ℤ) :=
  match m.ch tran with
  | some .c3 => (m.tran .c3 tran).map fun p => (some (.c3, p), tran.2)
  | some .c4 => (m.tran .c4 tran).map fun p => (some (.c4, p), tran.2)
  -- A pair without a channel, or one of `c1` or `c2`, starts nothing.
  | _ => some (none, tran.2)

/-! ## What is written in a file -/

/-- The transition opened last. -/
def lastEdge : List Line → Option Edge
  | [] => none
  | l :: ls =>
    match lastEdge ls, l with
    | some e, _ => some e
    | none, .trans c n => some (c, n)
    | none, _ => none

/-- The payload `p` for channel `k` stands below the transition `e`. -/
def Written (ls : List Line) (e : Edge) (k : Channel) (p : Str) : Prop :=
  ∃ pre suf, ls = pre ++ .payload k p :: suf ∧ lastEdge pre = some e

/-- Every channel line follows a `t:` line. -/
def ChannelsFollow (ls : List Line) : Prop :=
  ∀ pre k p suf, ls = pre ++ .payload k p :: suf → lastEdge pre ≠ none

/-- The edges that `load_fsm` does not drop. -/
def Kept (e : Edge) : Prop := ¬(e.1 = 5 ∧ e.2 ≤ 5)

/-- The pair `e` is one that a walk over `conn_states` can choose. -/
def Fsm.Chosen (m : Fsm) (e : Edge) : Prop :=
  ∃ succ, m.connStates e.1 = some succ ∧ e.2 ∈ succ

/-- What `ch` and the payload tables say together. -/
def Fsm.Recovered (m : Fsm) (e : Edge) (k : Channel) (p : Str) : Prop :=
  m.ch e = some k ∧ m.tran k e = some p

@[simp] theorem lastEdge_concat_trans (ls : List Line) (c n : ℤ) :
    lastEdge (ls ++ [.trans c n]) = some (c, n) := by
  induction ls with
  | nil => rfl
  | cons l ls ih => simp only [List.cons_append, lastEdge, ih]

@[simp] theorem lastEdge_concat_payload (ls : List Line) (k : Channel) (p : Str) :
    lastEdge (ls ++ [.payload k p]) = lastEdge ls := by
  induction ls with
  | nil => rfl
  | cons l ls ih => simp only [List.cons_append, lastEdge, ih]

@[simp] theorem lastEdge_concat_other (ls : List Line) :
    lastEdge (ls ++ [.other]) = lastEdge ls := by
  induction ls with
  | nil => rfl
  | cons l ls ih => simp only [List.cons_append, lastEdge, ih]

theorem written_concat {ls : List Line} {l : Line} {e : Edge} {k : Channel} {p : Str} :
    Written (ls ++ [l]) e k p ↔
      Written ls e k p ∨ (l = .payload k p ∧ lastEdge ls = some e) := by
  constructor
  · rintro ⟨pre, suf, h, he⟩
    rcases concat_eq_split.mp h with ⟨suf', -, h⟩ | ⟨-, rfl, rfl⟩
    · exact .inl ⟨pre, suf', h, he⟩
    · exact .inr ⟨rfl, he⟩
  · rintro (⟨pre, suf, h, he⟩ | ⟨rfl, he⟩)
    · exact ⟨pre, suf ++ [l], by simp [h], he⟩
    · exact ⟨ls, [], rfl, he⟩

theorem lastEdge_trans_cons (c n : ℤ) (ls : List Line) : lastEdge (.trans c n :: ls) ≠ none := by
  cases h : lastEdge ls <;> simp [lastEdge, h]

/-- A file that starts with a transition has no channel line before one. -/
theorem channelsFollow_trans_cons (c n : ℤ) (ls : List Line) :
    ChannelsFollow (.trans c n :: ls) := by
  intro pre k p suf h
  cases pre with
  | nil => cases h
  | cons l pre =>
    obtain rfl := (List.cons.inj h).1
    exact lastEdge_trans_cons c n pre

theorem ChannelsFollow.of_concat {ls : List Line} {l : Line} (h : ChannelsFollow (ls ++ [l])) :
    ChannelsFollow ls :=
  fun pre k p suf hl => h pre k p (suf ++ [l]) (by simp [hl])

end FuzzUSB.StateMgr
