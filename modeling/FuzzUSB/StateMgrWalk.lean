import FuzzUSB.StateMgrLoader
import Mathlib.Data.Finset.Insert

/-!
# The stateful walk

`get_next_tran` and `get_next_state` choose an edge out of the current state and
record it; `loop` dispatches the edge and moves to its target.
-/

namespace FuzzUSB.StateMgr
open PyText

/-- `cov_tran`, `cov_state` and `coveredall`. -/
structure Coverage where
  covTran : Finset Edge
  covState : Finset ℤ
  coveredall : Finset ℤ

def Coverage.empty : Coverage := ⟨∅, ∅, ∅⟩

/-- `random.randint(lo, hi)`: as `draw` varies, every value from `lo` to `hi`. -/
def randint (lo hi draw : ℕ) : Option ℕ :=
  if hi < lo then none else some (lo + draw % (hi - lo + 1))

/-- `succ[random.randint(1, len(succ))-1]`. -/
def randomSelect (succ : List ℤ) (draw : ℕ) : Option ℤ :=
  (randint 1 succ.length draw).bind fun r => succ[r - 1]?

/-- What a strategy records: the test of its scan, and the entry it adds. -/
structure Tracker where
  covered : Coverage → Edge → Bool
  mark : Coverage → Edge → Coverage

def tranTracker : Tracker where
  covered cov e := decide (e ∈ cov.covTran)
  mark cov e := { cov with covTran := insert e cov.covTran }

def stateTracker : Tracker where
  covered cov e := decide (e.2 ∈ cov.covState)
  mark cov e := { cov with covState := insert e.2 cov.covState }

/-- The common body of `get_next_tran` and `get_next_state`. `none` is an exception. -/
def getNextBy (T : Tracker) (connStates : ℤ → Option (List ℤ)) (unexplored : Bool)
    (draw : ℕ) (cur : ℤ) (cov : Coverage) : Option Edge × Coverage :=
  match connStates cur with
  | none => (none, cov)
  | some [n] => (some (cur, n), T.mark cov (cur, n))
  | some succ =>
    if unexplored ∧ cur ∉ cov.coveredall then
      match succ.find? fun n => !T.covered cov (cur, n) with
      | some n => (some (cur, n), T.mark cov (cur, n))
      | none =>
        -- Random from here on, and what is chosen is not recorded.
        ((randomSelect succ draw).map fun n => (cur, n),
          { cov with coveredall := insert cur cov.coveredall })
    else ((randomSelect succ draw).map fun n => (cur, n), cov)

def getNextTran := getNextBy tranTracker

def getNextState := getNextBy stateTracker

/-- The values of the global `get_next`. -/
inductive Strategy
  | tran | state

def Strategy.tracker : Strategy → Tracker
  | .tran => tranTracker
  | .state => stateTracker

/-- The function that `get_next` holds. -/
def Strategy.getNext : Strategy →
    (ℤ → Option (List ℤ)) → Bool → ℕ → ℤ → Coverage → Option Edge × Coverage
  | .tran => getNextTran
  | .state => getNextState

/-- The globals that `loop` works on. -/
structure Walk where
  state : ℤ
  cov : Coverage

/-- One turn of `loop`, with the edge it selects if it acts. `none` is an exception. -/
def loopTurn (m : Fsm) (getNext : Strategy) (unexplored : Bool) (bus : Str) (w : Walk)
    (draw : ℕ) : Option (Option Edge × Walk) :=
  if 5 ≤ w.state ∧ bus = "001".toList then
    match getNext.getNext m.connStates unexplored draw w.state w.cov with
    | (none, _) => none
    | (some tran, cov) => (runTrans m tran).map fun r => (some tran, ⟨r.2, cov⟩)
  else some (none, w)

/-- A list of turns of `loop`, with the edges selected. -/
def loopTurns (m : Fsm) (getNext : Strategy) (unexplored : Bool) (bus : Str) :
    Walk → List ℕ → Option (List Edge × Walk)
  | w, [] => some ([], w)
  | w, draw :: draws =>
    (loopTurn m getNext unexplored bus w draw).bind fun r =>
      (loopTurns m getNext unexplored bus r.2 draws).map fun rs => (r.1.toList ++ rs.1, rs.2)

theorem Strategy.getNext_eq (s : Strategy) : s.getNext = getNextBy s.tracker := by
  cases s <;> rfl

/-! ## Selection -/

theorem randomSelect_mem {succ : List ℤ} {draw : ℕ} {n : ℤ} (h : randomSelect succ draw = some n) :
    n ∈ succ := by
  obtain ⟨r, -, hr⟩ := Option.bind_eq_some_iff.mp h
  exact List.mem_of_getElem? hr

theorem randomSelect_isSome {succ : List ℤ} (h : succ ≠ []) (draw : ℕ) :
    ∃ n, randomSelect succ draw = some n := by
  have hlen : 0 < succ.length := List.length_pos_iff.mpr h
  have hlt : draw % (succ.length - 1 + 1) < succ.length := by
    have := Nat.mod_lt draw (show 0 < succ.length - 1 + 1 by omega)
    omega
  refine ⟨succ[draw % (succ.length - 1 + 1)], ?_⟩
  simp only [randomSelect, randint, if_neg (show ¬succ.length < 1 by omega), Option.bind_some]
  rw [show 1 + draw % (succ.length - 1 + 1) - 1 = draw % (succ.length - 1 + 1) by omega]
  exact List.getElem?_eq_getElem hlt

/-- What one call of a `get_next` function can do, on a state with the successors `succ`:
record and return an uncovered or only successor, or fall back on a random one when the
scan is off or finds every successor covered. -/
inductive Selects (T : Tracker) (unexplored : Bool) (draw : ℕ) (cur : ℤ) (succ : List ℤ)
    (cov : Coverage) : Option Edge × Coverage → Prop
  | only {n} : succ = [n] →
      Selects T unexplored draw cur succ cov (some (cur, n), T.mark cov (cur, n))
  | fresh {n} : succ.length ≠ 1 → unexplored → cur ∉ cov.coveredall → n ∈ succ →
      T.covered cov (cur, n) = false →
      Selects T unexplored draw cur succ cov (some (cur, n), T.mark cov (cur, n))
  | exhausted : succ.length ≠ 1 → unexplored → cur ∉ cov.coveredall →
      (∀ n ∈ succ, T.covered cov (cur, n)) →
      Selects T unexplored draw cur succ cov ((randomSelect succ draw).map fun n => (cur, n),
        { cov with coveredall := insert cur cov.coveredall })
  | random : succ.length ≠ 1 → ¬(unexplored ∧ cur ∉ cov.coveredall) →
      Selects T unexplored draw cur succ cov
        ((randomSelect succ draw).map fun n => (cur, n), cov)

theorem getNextBy_selects (T : Tracker) {connStates : ℤ → Option (List ℤ)} (unexplored : Bool)
    (draw : ℕ) {cur : ℤ} {succ : List ℤ} (hs : connStates cur = some succ) (cov : Coverage) :
    Selects T unexplored draw cur succ cov (getNextBy T connStates unexplored draw cur cov) := by
  unfold getNextBy
  rw [hs]
  split
  · next h => cases h
  · next n h =>
    obtain rfl := Option.some.inj h
    exact .only rfl
  · next succ' hne h =>
    obtain rfl := Option.some.inj h
    have hlen : succ.length ≠ 1 := by
      intro h1
      obtain ⟨n, rfl⟩ := List.length_eq_one_iff.mp h1
      exact hne n rfl
    split_ifs with hscan
    · split
      · next n hfind =>
        have hn := List.find?_some hfind
        exact .fresh hlen hscan.1 hscan.2 (List.mem_of_find?_eq_some hfind) (by simpa using hn)
      · next hfind =>
        refine .exhausted hlen hscan.1 hscan.2 fun n hn => ?_
        simpa using List.find?_eq_none.mp hfind n hn
    · exact .random hlen hscan

/-- On a state with a successor, every call returns an edge to a successor. -/
theorem Selects.edge {T : Tracker} {unexplored : Bool} {draw : ℕ} {cur : ℤ} {succ : List ℤ}
    {cov : Coverage} {r : Option Edge × Coverage} (h : Selects T unexplored draw cur succ cov r)
    (hne : succ ≠ []) : ∃ n ∈ succ, r.1 = some (cur, n) := by
  obtain ⟨n, hn⟩ := randomSelect_isSome hne draw
  cases h with
  | @only n h => exact ⟨n, by simp [h], rfl⟩
  | @fresh n _ _ _ h => exact ⟨n, h, rfl⟩
  | exhausted => exact ⟨n, randomSelect_mem hn, by simp [hn]⟩
  | random => exact ⟨n, randomSelect_mem hn, by simp [hn]⟩

/-! ## The walk stays in the model -/

/-- State 5 leads above 5, no state above 5 is a dead end, and none leads below 5. -/
structure Walkable (ls : List Line) : Prop where
  five : ∃ n, 5 < n ∧ .trans 5 n ∈ ls
  out : ∀ {c n}, .trans c n ∈ ls → 5 < n → ∃ n', .trans n n' ∈ ls
  up : ∀ {c n}, .trans c n ∈ ls → 5 < c → 5 ≤ n

/-- A state that the walk can be in: bound, or a target above. -/
def OnWalk (ls : List Line) (s : ℤ) : Prop := s = 5 ∨ (5 < s ∧ ∃ c, .trans c s ∈ ls)

theorem OnWalk.le {ls : List Line} {s : ℤ} (h : OnWalk ls s) : 5 ≤ s := by
  rcases h with rfl | ⟨h, -⟩ <;> omega

/-- The state of a walk has a successor in `conn_states`. -/
theorem Loaded.exists_succ {ls : List Line} {st : Loader} (h : Loaded ls st) (hw : Walkable ls)
    {s : ℤ} (hs : OnWalk ls s) : ∃ succ, st.fsm.connStates s = some succ ∧ succ ≠ [] := by
  -- Only edges out of state 5 are ever dropped.
  have hkept : ∃ n, .trans s n ∈ ls ∧ Kept (s, n) := by
    rcases hs with rfl | ⟨hs, c, hc⟩
    · obtain ⟨n, hn, hmem⟩ := hw.five
      exact ⟨n, hmem, fun hk => absurd hk.2 (by simpa using hn)⟩
    · obtain ⟨n, hmem⟩ := hw.out hc hs
      exact ⟨n, hmem, fun hk => absurd hk.1 (by simpa using hs.ne')⟩
  obtain ⟨n, hmem, hk⟩ := hkept
  obtain ⟨succ, hsucc, hn⟩ := h.succ_of_trans hmem
  exact ⟨succ, hsucc, List.ne_nil_of_mem (hn hk)⟩

/-- An edge of `conn_states` out of a state of the walk leads to one. -/
theorem Walkable.target {ls : List Line} (hw : Walkable ls) {s n : ℤ} (hs : OnWalk ls s)
    (hmem : .trans s n ∈ ls) (hk : Kept (s, n)) : OnWalk ls n := by
  have hn : 5 ≤ n := by
    rcases hs with rfl | ⟨hs, -⟩
    · by_contra hlt
      exact hk ⟨rfl, by simpa using (not_le.mp hlt).le⟩
    · exact hw.up hmem hs
  rcases hn.eq_or_lt with rfl | hlt
  · exact .inl rfl
  · exact .inr ⟨hlt, s, hmem⟩

/-- `run_trans` finds the payload that `ch` announces. -/
theorem Loaded.runTrans {ls : List Line} {st : Loader} (h : Loaded ls st) (e : Edge) :
    ∃ d, runTrans st.fsm e = some (d, e.2) := by
  unfold StateMgr.runTrans
  cases hch : st.fsm.ch e with
  | none => exact ⟨_, rfl⟩
  | some k =>
    obtain ⟨p, hp⟩ := h.tran_of_ch hch
    cases k
    · exact ⟨_, rfl⟩
    · exact ⟨_, rfl⟩
    · exact ⟨_, by simp [hp]; rfl⟩
    · exact ⟨_, by simp [hp]; rfl⟩

/-- A selected pair is an edge of the file that `load_fsm` kept, between bound states. -/
structure OnModel (ls : List Line) (m : Fsm) (e : Edge) : Prop where
  written : .trans e.1 e.2 ∈ ls
  kept : Kept e
  chosen : m.Chosen e
  source : 5 ≤ e.1
  target : 5 ≤ e.2

/-- One turn of `loop` on a state of the walk raises nothing and stays on the walk. -/
theorem Loaded.loopTurn {ls : List Line} {st : Loader} (h : Loaded ls st) (hw : Walkable ls)
    (getNext : Strategy) (unexplored : Bool) (bus : Str) {w : Walk} (hs : OnWalk ls w.state)
    (draw : ℕ) :
    ∃ sel w', loopTurn st.fsm getNext unexplored bus w draw = some (sel, w') ∧
      OnWalk ls w'.state ∧ (∀ e ∈ sel, OnModel ls st.fsm e) ∧
      (bus = "001".toList → sel.isSome) := by
  by_cases hbus : bus = "001".toList
  · obtain ⟨succ, hsucc, hne⟩ := h.exists_succ hw hs
    have hsel := getNextBy_selects getNext.tracker unexplored draw hsucc w.cov
    obtain ⟨n, hn, hedge⟩ := hsel.edge hne
    rw [← getNext.getNext_eq] at hedge
    obtain ⟨hmem, hkept⟩ := h.trans_of_succ hsucc hn
    obtain ⟨d, hd⟩ := h.runTrans (w.state, n)
    have htarget := hw.target hs hmem hkept
    -- The selection is named, since the turn uses both of its components.
    set r := getNext.getNext st.fsm.connStates unexplored draw w.state w.cov with hr
    refine ⟨some (w.state, n), ⟨n, r.2⟩, ?_, htarget, ?_, fun _ => rfl⟩
    · have hr' : r = (some (w.state, n), r.2) := Prod.ext hedge rfl
      simp only [StateMgr.loopTurn, if_pos (And.intro hs.le hbus), ← hr]
      rw [hr']
      simp [hd]
    · rintro e he
      obtain rfl := Option.some.inj he
      exact ⟨hmem, hkept, ⟨succ, hsucc, hn⟩, hs.le, htarget.le⟩
  · refine ⟨none, w, ?_, hs, by simp, fun h => absurd h hbus⟩
    rw [StateMgr.loopTurn, if_neg fun hc => hbus hc.2]

theorem Loaded.loopTurns {ls : List Line} {st : Loader} (h : Loaded ls st) (hw : Walkable ls)
    (getNext : Strategy) (unexplored : Bool) (bus : Str) (draws : List ℕ) {w : Walk}
    (hs : OnWalk ls w.state) :
    ∃ sels w', loopTurns st.fsm getNext unexplored bus w draws = some (sels, w') ∧
      OnWalk ls w'.state ∧ (∀ e ∈ sels, OnModel ls st.fsm e) ∧
      (bus = "001".toList → sels.length = draws.length) := by
  induction draws generalizing w with
  | nil => exact ⟨[], w, rfl, hs, by simp, fun _ => rfl⟩
  | cons draw draws ih =>
    obtain ⟨sel, w₁, hturn, hs₁, hsel, hlen⟩ := h.loopTurn hw getNext unexplored bus hs draw
    obtain ⟨sels, w₂, hturns, hs₂, hsels, hlens⟩ := ih hs₁
    refine ⟨sel.toList ++ sels, w₂, by simp [StateMgr.loopTurns, hturn, hturns], hs₂, ?_, ?_⟩
    · intro e he
      rcases List.mem_append.mp he with he | he
      · exact hsel e (by simpa using he)
      · exact hsels e he
    · intro hbus
      obtain ⟨e, rfl⟩ := Option.isSome_iff_exists.mp (hlen hbus)
      simp [hlens hbus]

/-- From state 5, with no other thread writing the state, `loop` selects only edges that
`load_fsm` kept, never falls below state 5 and never raises, for every number of turns,
every random draw, both strategies and both modes of rule 3. -/
theorem loop_stays_on_model (file : List Str) (ls : List Line) (m : Fsm)
    (hread : file.map readLine = ls.map .ok) (hload : loadFsm file = .ok m) (hw : Walkable ls)
    (getNext : Strategy) (unexplored : Bool) (bus : Str) (cov : Coverage) (draws : List ℕ) :
    ∃ sels w, loopTurns m getNext unexplored bus ⟨5, cov⟩ draws = some (sels, w) ∧
      5 ≤ w.state ∧ (∀ e ∈ sels, OnModel ls m e) ∧
      (bus = "001".toList → sels.length = draws.length) := by
  rw [loadFsm_eq hread] at hload
  cases hst : loadLines ls with
  | error e => simp [hst, Except.map] at hload
  | ok st =>
    obtain rfl : st.fsm = m := by simpa [hst, Except.map] using hload
    obtain ⟨sels, w, hrun, hs, hrest⟩ :=
      (loaded_of_loadLines hst).loopTurns hw getNext unexplored bus draws (w := ⟨5, cov⟩) (.inl rfl)
    exact ⟨sels, w, hrun, hs.le, hrest⟩

/-- A bound gadget with one host transition and one gadget transition above it. -/
def walkFile : List Str :=
  ["t:5,4\n".toList, "c1:54,hid\n".toList, "t:5,6\n".toList, "c3:bulk,out,1,8,\n".toList,
   "t:6,5\n".toList, "t:6,6\n".toList, "c4:read,/dev/hidg0,8\n".toList]

def walkLines : List Line :=
  [.trans 5 4, .payload .c1 "54,hid".toList, .trans 5 6, .payload .c3 "bulk,out,1,8,".toList,
   .trans 6 5, .trans 6 6, .payload .c4 "read,/dev/hidg0,8".toList]

theorem walkable_walkLines : Walkable walkLines where
  five := ⟨6, by decide, by decide⟩
  out {c n} h hn := by
    obtain rfl : n = 6 := by
      simp only [walkLines, List.mem_cons, Line.trans.injEq, reduceCtorEq, false_or,
        List.not_mem_nil, or_false] at h
      omega
    exact ⟨5, by decide⟩
  up {c n} h hc := by
    simp only [walkLines, List.mem_cons, Line.trans.injEq, reduceCtorEq, false_or,
      List.not_mem_nil, or_false] at h
    omega

theorem loop_stays_on_model_walkFile :
    ∃ m, loadFsm walkFile = .ok m ∧
      ∃ sels w, loopTurns m .tran true "001".toList ⟨5, .empty⟩ [3, 1, 4, 1, 5] = some (sels, w) ∧
        5 ≤ w.state ∧ (∀ e ∈ sels, OnModel walkLines m e) ∧
        ("001".toList = "001".toList → sels.length = [3, 1, 4, 1, 5].length) := by
  have hread : walkFile.map readLine = walkLines.map .ok := by decide
  obtain ⟨st, hst⟩ := exists_loadLines (channelsFollow_trans_cons 5 4 walkLines.tail)
  have hload : loadFsm walkFile = .ok st.fsm := by
    rw [loadFsm_eq hread]
    change (loadLines (Line.trans 5 4 :: walkLines.tail)).map Loader.fsm = _
    rw [hst]
    rfl
  exact ⟨st.fsm, hload, loop_stays_on_model walkFile walkLines st.fsm hread hload
    walkable_walkLines .tran true "001".toList .empty [3, 1, 4, 1, 5]⟩

end FuzzUSB.StateMgr
