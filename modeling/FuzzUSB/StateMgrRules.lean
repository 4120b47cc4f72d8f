import FuzzUSB.StateMgrWalk

/-!
# The rules of the walk

`load_rule` reads the settings of `loop` from the lines of a file, each into a global variable of
its own. What `int` reads and what `time.sleep` takes is left open.
-/

namespace FuzzUSB.StateMgr
open PyText

/-- The globals that `load_rule` sets. `get_next` is a number before. -/
@[ext]
structure Rules where
  interval : ℤ
  getNext : Option Strategy
  unexplored : Bool
  retry : Bool

def Rules.start : Rules := ⟨1, none, false, false⟩

def intervalKey : Str := "1:".toList
def trackKey : Str := "2:".toList
def unexploredKey : Str := "3:".toList
def retryKey : Str := "4:".toList

/-- What a line says behind its key. -/
def setting (l : Str) : Str := strip (l.drop 2)

def strategyOf (l : Str) : Strategy := if setting l = "trans".toList then .tran else .state

section

variable (int : Str → Option ℤ)

def Rules.setInterval (r : Rules) (l : Str) : Except LoadError Rules :=
  if startsWith l intervalKey then
    match int (l.drop 2) with
    | none => .error .valueError
    | some interval => .ok { r with interval }
  else .ok r

def Rules.setTrack (r : Rules) (l : Str) : Rules :=
  if startsWith l trackKey then { r with getNext := some (strategyOf l) } else r

/-- The flag is set and never cleared. -/
def Rules.setUnexplored (r : Rules) (l : Str) : Rules :=
  if startsWith l unexploredKey && setting l = "unexplored".toList then
    { r with unexplored := true }
  else r

def Rules.setRetry (r : Rules) (l : Str) : Rules :=
  if startsWith l retryKey && setting l = "retry".toList then { r with retry := true } else r

/-- One turn of the loop over the lines. -/
def loadRuleLine (r : Rules) (l : Str) : Except LoadError Rules :=
  (r.setInterval int l).map fun r => ((r.setTrack l).setUnexplored l).setRetry l

/-- `load_rule` -/
def loadRule (file : List Str) : Except LoadError Rules :=
  file.foldlM (loadRuleLine int) Rules.start

end

/-! ## What the file says -/

/-- The lines with a key. -/
def keyed (key : Str) (file : List Str) : List Str := file.filter (startsWith · key)

section

variable (int : Str → Option ℤ)

/-- Every interval is a number. -/
def Readable (file : List Str) : Prop := ∀ l ∈ keyed intervalKey file, (int (l.drop 2)).isSome

/-- The last interval and the last track of the file count, and a flag that any line sets. -/
def rulesOf (file : List Str) : Rules where
  interval := ((keyed intervalKey file).getLast?.bind fun l => int (l.drop 2)).getD 1
  getNext := (keyed trackKey file).getLast?.map strategyOf
  unexplored := (keyed unexploredKey file).any fun l => setting l = "unexplored".toList
  retry := (keyed retryKey file).any fun l => setting l = "retry".toList

theorem keyed_concat (key : Str) (file : List Str) (l : Str) :
    keyed key (file ++ [l]) = keyed key file ++ if startsWith l key then [l] else [] := by
  rw [keyed, List.filter_append, List.filter_singleton]
  cases startsWith l key <;> rfl

theorem readable_concat (file : List Str) (l : Str) : Readable int (file ++ [l]) ↔
    Readable int file ∧ (startsWith l intervalKey = true → (int (l.drop 2)).isSome) := by
  unfold Readable
  rw [keyed_concat]
  by_cases hl : startsWith l intervalKey = true
  · simp [hl, or_imp, forall_and]
  · simp [hl]

theorem loadRule_concat (file : List Str) (l : Str) :
    loadRule int (file ++ [l]) = loadRule int file >>= fun r => loadRuleLine int r l := by
  rw [loadRule, List.foldlM_append]
  simp [loadRule]

section

variable (file : List Str) (l : Str)

theorem interval_concat : (rulesOf int (file ++ [l])).interval =
    if startsWith l intervalKey then (int (l.drop 2)).getD 1 else (rulesOf int file).interval := by
  simp only [rulesOf, keyed_concat]
  split
  · simp
  · simp

theorem getNext_concat : (rulesOf int (file ++ [l])).getNext =
    if startsWith l trackKey then some (strategyOf l) else (rulesOf int file).getNext := by
  simp only [rulesOf, keyed_concat]
  split
  · simp
  · simp

theorem unexplored_concat : (rulesOf int (file ++ [l])).unexplored =
    ((rulesOf int file).unexplored ||
      (startsWith l unexploredKey && setting l = "unexplored".toList)) := by
  simp only [rulesOf, keyed_concat, List.any_append]
  cases startsWith l unexploredKey <;> simp

theorem retry_concat : (rulesOf int (file ++ [l])).retry =
    ((rulesOf int file).retry || (startsWith l retryKey && setting l = "retry".toList)) := by
  simp only [rulesOf, keyed_concat, List.any_append]
  cases startsWith l retryKey <;> simp

theorem setTrack_eq (r : Rules) : r.setTrack l =
    { r with getNext := if startsWith l trackKey then some (strategyOf l) else r.getNext } := by
  unfold Rules.setTrack
  split <;> rfl

theorem setUnexplored_eq (r : Rules) : r.setUnexplored l = { r with
    unexplored := r.unexplored ||
      (startsWith l unexploredKey && setting l = "unexplored".toList) } := by
  unfold Rules.setUnexplored
  generalize (startsWith l unexploredKey && setting l = "unexplored".toList) = b
  cases b with
  | false => rw [Bool.or_false]; rfl
  | true => rw [Bool.or_true]; rfl

theorem setRetry_eq (r : Rules) : r.setRetry l = { r with
    retry := r.retry || (startsWith l retryKey && setting l = "retry".toList) } := by
  unfold Rules.setRetry
  generalize (startsWith l retryKey && setting l = "retry".toList) = b
  cases b with
  | false => rw [Bool.or_false]; rfl
  | true => rw [Bool.or_true]; rfl

/-- A line whose interval is a number, if it has one. -/
theorem loadRuleLine_rulesOf
    (h : startsWith l intervalKey = true → (int (l.drop 2)).isSome) :
    loadRuleLine int (rulesOf int file) l = .ok (rulesOf int (file ++ [l])) := by
  have hset : (rulesOf int file).setInterval int l =
      .ok { rulesOf int file with interval := (rulesOf int (file ++ [l])).interval } := by
    rw [Rules.setInterval, interval_concat]
    by_cases hkey : startsWith l intervalKey = true
    · obtain ⟨n, hn⟩ := Option.isSome_iff_exists.mp (h hkey)
      simp only [hkey, if_true, hn, Option.getD_some]
    · simp only [hkey, Bool.false_eq_true, if_false]
  rw [loadRuleLine, hset]
  refine congrArg Except.ok ?_
  dsimp only
  rw [setRetry_eq, setUnexplored_eq, setTrack_eq]
  exact Rules.ext rfl (getNext_concat int file l).symm (unexplored_concat int file l).symm
    (retry_concat int file l).symm

end

theorem loadRuleLine_error (r : Rules) {l : Str} (hkey : startsWith l intervalKey = true)
    (h : int (l.drop 2) = none) : loadRuleLine int r l = .error .valueError := by
  simp only [loadRuleLine, Rules.setInterval, hkey, if_true, h]
  rfl

theorem loadRule_of_readable {file : List Str} (h : Readable int file) :
    loadRule int file = .ok (rulesOf int file) := by
  induction file using List.reverseRecOn with
  | nil => rfl
  | append_singleton file l ih =>
    obtain ⟨hread, hl⟩ := (readable_concat int file l).mp h
    rw [loadRule_concat, ih hread]
    exact loadRuleLine_rulesOf int file l hl

/-- The first interval that is not a number ends the loop. -/
theorem loadRule_of_not_readable {file : List Str} (h : ¬Readable int file) :
    loadRule int file = .error .valueError := by
  induction file using List.reverseRecOn with
  | nil => exact absurd (fun l hl => (by cases hl)) h
  | append_singleton file l ih =>
    rw [loadRule_concat]
    by_cases hread : Readable int file
    · have hl : ¬(startsWith l intervalKey = true → (int (l.drop 2)).isSome) :=
        fun hl => h ((readable_concat int file l).mpr ⟨hread, hl⟩)
      obtain ⟨hkey, hnone⟩ := Classical.not_imp.mp hl
      rw [loadRule_of_readable int hread]
      exact loadRuleLine_error int _ hkey (Option.not_isSome_iff_eq_none.mp hnone)
    · rw [ih hread]
      rfl

/-- For every file: `load_rule` sets what the file says if every interval in it is a number, and
else fails with a `ValueError`. -/
theorem loadRule_spec (file : List Str) :
    (Readable int file ∧ loadRule int file = .ok (rulesOf int file)) ∨
      (¬Readable int file ∧ loadRule int file = .error .valueError) := by
  by_cases h : Readable int file
  · exact .inl ⟨h, loadRule_of_readable int h⟩
  · exact .inr ⟨h, loadRule_of_not_readable int h⟩

theorem rulesOf_of_loadRule {file : List Str} {r : Rules} (h : loadRule int file = .ok r) :
    r = rulesOf int file := by
  by_cases hread : Readable int file
  · exact Except.ok.inj (h.symm.trans (loadRule_of_readable int hread))
  · cases h.symm.trans (loadRule_of_not_readable int hread)

end

/-! ## The walk under the rules -/

section

variable (sleeps : ℤ → Bool) (m : Fsm) (r : Rules) (bus : Str)

/-- One turn of `loop` under the rules: `get_next` may not be a function, and `time.sleep` not
take the interval of `trans_interval`. -/
def ruledTurn (w : Walk) (draw : ℕ) : Option (Option Edge × Walk) :=
  if 5 ≤ w.state ∧ bus = "001".toList then
    r.getNext.bind fun getNext =>
      (loopTurn m getNext r.unexplored bus w draw).bind fun t =>
        if sleeps r.interval then some t else none
  else some (none, w)

/-- A list of turns of `loop` under the rules. -/
def ruledTurns : Walk → List ℕ → Option (List Edge × Walk)
  | w, [] => some ([], w)
  | w, draw :: draws =>
    (ruledTurn sleeps m r bus w draw).bind fun t =>
      (ruledTurns t.2 draws).map fun ts => (t.1.toList ++ ts.1, ts.2)

end

section

variable {sleeps : ℤ → Bool} {m : Fsm} {r : Rules} {bus : Str}

theorem ruledTurn_eq {getNext : Strategy} (hget : r.getNext = some getNext)
    (hsleep : sleeps r.interval = true) (w : Walk) (draw : ℕ) :
    ruledTurn sleeps m r bus w draw = loopTurn m getNext r.unexplored bus w draw := by
  unfold ruledTurn
  by_cases hact : 5 ≤ w.state ∧ bus = "001".toList
  · rw [if_pos hact, hget, Option.bind_some]
    simp only [hsleep, if_true]
    cases loopTurn m getNext r.unexplored bus w draw <;> rfl
  · rw [if_neg hact, loopTurn, if_neg hact]

/-- With a track and an interval that can be slept the walk is that of the track. -/
theorem ruledTurns_eq {getNext : Strategy} (hget : r.getNext = some getNext)
    (hsleep : sleeps r.interval = true) (w : Walk) (draws : List ℕ) :
    ruledTurns sleeps m r bus w draws = loopTurns m getNext r.unexplored bus w draws := by
  induction draws generalizing w with
  | nil => rfl
  | cons draw draws ih => simp only [ruledTurns, loopTurns, ruledTurn_eq hget hsleep, ih]

/-- A turn that acts needs both. -/
theorem usable_of_ruledTurn {w : Walk} {draw : ℕ} {t : Option Edge × Walk} (hw : 5 ≤ w.state)
    (hbus : bus = "001".toList) (h : ruledTurn sleeps m r bus w draw = some t) :
    r.getNext.isSome ∧ sleeps r.interval = true := by
  rw [ruledTurn, if_pos ⟨hw, hbus⟩] at h
  obtain ⟨getNext, hget, hturn⟩ := Option.bind_eq_some_iff.mp h
  obtain ⟨t', -, hsleep⟩ := Option.bind_eq_some_iff.mp hturn
  refine ⟨Option.isSome_iff_exists.mpr ⟨getNext, hget⟩, ?_⟩
  by_contra hno
  rw [if_neg hno] at hsleep
  cases hsleep

end

/-- The file names a track, and its last interval can be slept. -/
def Usable (int : Str → Option ℤ) (sleeps : ℤ → Bool) (file : List Str) : Prop :=
  keyed trackKey file ≠ [] ∧ sleeps (rulesOf int file).interval = true

theorem getNext_isSome_iff (int : Str → Option ℤ) (file : List Str) :
    (rulesOf int file).getNext.isSome ↔ keyed trackKey file ≠ [] := by
  rw [rulesOf, Option.isSome_map, List.getLast?_isSome]

/-- From state 5, with no other thread writing the state, `loop` walks the machine of a file under
the rules of another for any number of turns, without an exception and on the edges that
`load_fsm` kept, exactly if the rules name a track and an interval that can be slept. Where they
do not, the first turn raises. -/
theorem rules_walk_iff (int : Str → Option ℤ) (sleeps : ℤ → Bool) (file rules : List Str)
    (ls : List Line) (m : Fsm) (r : Rules) (hread : file.map readLine = ls.map .ok)
    (hload : loadFsm file = .ok m) (hw : Walkable ls) (hrules : loadRule int rules = .ok r)
    (cov : Coverage) (draw : ℕ) (draws : List ℕ) :
    (Usable int sleeps rules → ∃ sels w,
        ruledTurns sleeps m r "001".toList ⟨5, cov⟩ (draw :: draws) = some (sels, w) ∧
          5 ≤ w.state ∧ (∀ e ∈ sels, OnModel ls m e) ∧ sels.length = draws.length + 1) ∧
      (¬Usable int sleeps rules → ruledTurn sleeps m r "001".toList ⟨5, cov⟩ draw = none) := by
  obtain rfl := rulesOf_of_loadRule int hrules
  constructor
  · rintro ⟨htrack, hsleep⟩
    obtain ⟨getNext, hget⟩ :=
      Option.isSome_iff_exists.mp ((getNext_isSome_iff int rules).mpr htrack)
    obtain ⟨ls', st, hread', hst, rfl⟩ := loaded_of_loadFsm hload
    obtain rfl : ls' = ls := List.map_injective_iff.mpr (fun _ _ => Except.ok.inj)
      (hread'.symm.trans hread)
    obtain ⟨sels, w, hturns, hs, hsels, hlen⟩ := hst.loopTurns hw getNext
      (rulesOf int rules).unexplored "001".toList (draw :: draws) (w := ⟨5, cov⟩) (.inl rfl)
    exact ⟨sels, w, (ruledTurns_eq hget hsleep _ _).trans hturns, hs.le, hsels, hlen rfl⟩
  · intro hunusable
    cases hturn : ruledTurn sleeps m (rulesOf int rules) "001".toList ⟨5, cov⟩ draw with
    | none => rfl
    | some t =>
      obtain ⟨hget, hsleep⟩ := usable_of_ruledTurn le_rfl rfl hturn
      exact absurd ⟨(getNext_isSome_iff int rules).mp hget, hsleep⟩ hunusable

def walkRules : List Str := ["1:2\n".toList, "2:trans\n".toList, "3:unexplored\n".toList]

/-- Up to the longest time that `time.sleep` takes. -/
def sleepsSeconds (interval : ℤ) : Bool := 0 ≤ interval && interval ≤ 9223372036

theorem rules_walk_iff_walkFile : ∃ m r, loadFsm walkFile = .ok m ∧
    loadRule int walkRules = .ok r ∧ ∃ sels w,
      ruledTurns sleepsSeconds m r "001".toList ⟨5, .empty⟩ [3, 1, 4] = some (sels, w) ∧
        5 ≤ w.state ∧ (∀ e ∈ sels, OnModel walkLines m e) ∧ sels.length = [1, 4].length + 1 := by
  have hread : walkFile.map readLine = walkLines.map .ok := by decide
  obtain ⟨m, hload⟩ : ∃ m, loadFsm walkFile = .ok m := ⟨_, rfl⟩
  have hrules : loadRule int walkRules = .ok ⟨2, some .tran, true, false⟩ := rfl
  have husable : Usable int sleepsSeconds walkRules := ⟨by decide, by decide⟩
  exact ⟨m, _, hload, hrules, (rules_walk_iff int sleepsSeconds walkFile walkRules walkLines m _
    hread hload walkable_walkLines hrules .empty 3 [1, 4]).1 husable⟩

end FuzzUSB.StateMgr
