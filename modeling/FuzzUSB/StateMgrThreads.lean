import FuzzUSB.StateMgrCommands
import FuzzUSB.StateMgrWalk

/-!
# The two threads on the global state

`c1_mutate` and `loop` share `state` without a lock. Each reads or writes it in
separate steps, and the steps of the two interleave in any order.
-/

namespace FuzzUSB.StateMgr
open PyText Transition

/-- Where the loop thread is: before the test of `state`, between the test and
`get_next(state)`, or with an edge chosen and `state` still to be written. -/
inductive LoopPc
  | test
  | choose
  | write (tran : Edge)
  | dead

/-- The global `state`, the two threads, and the `c1_dispatch` call completed last. -/
structure Threads where
  state : ℤ
  todo : List Edge
  lastC1 : Option Edge
  pc : LoopPc
  cov : Coverage

/-- The program start: no call completed, `state = 0`, empty coverage. -/
def Threads.start : Threads := ⟨0, [], none, .test, .empty⟩

inductive ThreadEvent
  | c1 (e : C1Event)
  | loopTest
  | loopChoose (draw : ℕ)
  | loopWrite

section

variable (m : Fsm) (getNext : Strategy) (unexplored : Bool) (bus : Str)
  (c1Tran : Edge → Option Str)

/-- One atomic step of one thread. -/
def threadStep (s : Threads) : ThreadEvent → Option Threads
  | .c1 e =>
    (c1Next c1Tran s.todo s.state e).map fun r =>
      { s with todo := r.1, state := r.2
               lastC1 := match e with
                 | .round _ => s.lastC1
                 | .call _ => s.todo.head? }
  | .loopTest =>
    match s.pc with
    | .test => some { s with pc := if 5 ≤ s.state ∧ bus = "001".toList then .choose else .test }
    | _ => none
  | .loopChoose draw =>
    match s.pc with
    | .choose =>
      -- `state` is read again, after the test.
      let r := getNext.getNext m.connStates unexplored draw s.state s.cov
      some { s with cov := r.2, pc := (r.1.map .write).getD .dead }
    | _ => none
  | .loopWrite =>
    match s.pc with
    | .write tran =>
      match runTrans m tran with
      -- The write does not look at `state`.
      | some (_, next) => some { s with state := next, pc := .test }
      | none => some { s with pc := .dead }
    | _ => none

/-- A state that `loop` acts on was reached by the bind transition, and no other call of
`c1_dispatch` completed since. -/
def BoundWhenActing (s : Threads) : Prop := 5 ≤ s.state → s.lastC1 = some (4, 5)

/-- If the step is a write-back to a state from 5 on, `state` is still from 5 on. -/
def WritesBackFresh (s : Threads) (e : ThreadEvent) : Prop :=
  ∀ tran d next, e = .loopWrite → s.pc = .write tran → runTrans m tran = some (d, next) →
    5 ≤ next → 5 ≤ s.state

end

/-- Every call of `c1_mutate` finds its argument and sets `state` to its target. -/
def Completes (c1Tran : Edge → Option Str) : Prop :=
  ∀ e ∈ c1Round true, ∃ arg cmds, c1Tran e = some arg ∧ c1Request arg = some (some e.2, cmds)

/-- What holds in every state, with no condition: the calls left are calls of a round, and
once the loop thread has passed its test, `state` is still from 5 on or a call other than
the bind completed last. -/
structure LoopAware (s : Threads) : Prop where
  todo : ∀ e ∈ s.todo, e ∈ c1Round true
  acting : s.pc = .choose ∨ (∃ tran, s.pc = .write tran) → 5 ≤ s.state ∨ s.lastC1 ≠ some (4, 5)

theorem eq_bind_of_target {e : Edge} (he : e ∈ c1Round true) (h : 5 ≤ e.2) : e = (4, 5) := by
  revert h
  revert e
  decide

variable {m : Fsm} {getNext : Strategy} {unexplored : Bool} {bus : Str}
  {c1Tran : Edge → Option Str} {s t : Threads}

/-- A step of `c1_mutate` starts a round, or completes a call and sets `state` to its target. -/
theorem threadStep_c1 (hc : Completes c1Tran) (hs : LoopAware s) {e : C1Event}
    (h : threadStep m getNext unexplored bus c1Tran s (.c1 e) = some t) :
    (∃ flag, t = { s with todo := c1Round flag }) ∨
    ∃ edge rest, s.todo = edge :: rest ∧
      t = { s with todo := rest, state := edge.2, lastC1 := some edge } := by
  obtain ⟨r, hr, rfl⟩ := Option.map_eq_some_iff.mp h
  cases e with
  | round flag =>
    simp only [c1Next, Option.ite_none_right_eq_some, Option.some.injEq] at hr
    obtain ⟨-, rfl⟩ := hr
    exact .inl ⟨flag, rfl⟩
  | call run =>
    cases htodo : s.todo with
    | nil => simp [c1Next, htodo] at hr
    | cons edge rest =>
      obtain ⟨arg, cmds, harg, hreq⟩ := hc edge (hs.todo edge (by simp [htodo]))
      simp only [c1Next, htodo, harg, c1Dispatch_of_request hreq, Option.bind_some,
        Option.map_some, Option.some.injEq, Option.getD_some] at hr
      obtain rfl := hr
      exact .inr ⟨edge, rest, rfl, by simp⟩

/-- A step of the loop thread. -/
theorem threadStep_loop {e : ThreadEvent} (hne : ∀ e', e ≠ .c1 e')
    (h : threadStep m getNext unexplored bus c1Tran s e = some t) :
    (∃ pc cov, t = { s with pc := pc, cov := cov } ∧
      (pc = .choose ∨ (∃ tran, pc = .write tran) → 5 ≤ s.state ∨ s.pc = .choose) ∧
      (e = .loopWrite → ∀ tran, s.pc = .write tran → runTrans m tran = none)) ∨
    ∃ tran d next, e = .loopWrite ∧ s.pc = .write tran ∧ runTrans m tran = some (d, next) ∧
      t = { s with state := next, pc := .test } := by
  cases e with
  | c1 e' => exact absurd rfl (hne e')
  | loopTest =>
    left
    cases hpc : s.pc <;> simp only [threadStep, hpc, reduceCtorEq, Option.some.injEq] at h
    refine ⟨_, s.cov, h.symm, fun hact => .inl ?_, fun he => ThreadEvent.noConfusion he⟩
    by_contra hlt
    simp [hlt] at hact
  | loopChoose draw =>
    left
    cases hpc : s.pc <;> simp only [threadStep, hpc, reduceCtorEq, Option.some.injEq] at h
    exact ⟨_, _, h.symm, fun _ => .inr rfl, fun he => ThreadEvent.noConfusion he⟩
  | loopWrite =>
    cases hpc : s.pc with
    | write tran =>
      simp only [threadStep, hpc] at h
      cases hrun : runTrans m tran with
      | none =>
        simp only [hrun, Option.some.injEq] at h
        refine .inl ⟨.dead, s.cov, h.symm, by simp, ?_⟩
        rintro - tran' htran
        obtain rfl := LoopPc.write.inj htran
        exact hrun
      | some r =>
        simp only [hrun, Option.some.injEq] at h
        exact .inr ⟨tran, r.1, r.2, rfl, rfl, hrun, h.symm⟩
    | test => simp [threadStep, hpc] at h
    | choose => simp [threadStep, hpc] at h
    | dead => simp [threadStep, hpc] at h

theorem LoopAware.start : LoopAware .start where
  todo e he := by cases he
  acting h := by simp [Threads.start] at h

theorem LoopAware.step (hc : Completes c1Tran) (hs : LoopAware s) {e : ThreadEvent}
    (h : threadStep m getNext unexplored bus c1Tran s e = some t) : LoopAware t := by
  by_cases hne : ∀ e', e ≠ .c1 e'
  · rcases threadStep_loop hne h with ⟨pc, cov, rfl, hpc, -⟩ | ⟨tran, d, next, -, -, -, rfl⟩
    · refine ⟨hs.todo, fun hact => ?_⟩
      rcases hpc hact with hstate | hchoose
      · exact .inl hstate
      · exact hs.acting (.inl hchoose)
    · exact ⟨hs.todo, by simp⟩
  · push Not at hne
    obtain ⟨e', rfl⟩ := hne
    rcases threadStep_c1 hc hs h with ⟨flag, rfl⟩ | ⟨edge, rest, htodo, rfl⟩
    · exact ⟨c1Round_subset flag, hs.acting⟩
    -- After the bind `state` is 5; after any other call that call completed last.
    · have hedge := hs.todo edge (by simp [htodo])
      refine ⟨fun e he => hs.todo e (by simp [htodo, he]), fun _ => ?_⟩
      by_cases hb : edge = (4, 5)
      · exact .inl (by simp [hb])
      · exact .inr (by simpa using hb)

/-- The step that makes the tracked state run ahead is a write-back, and it does so exactly
when `state` has fallen below 5 since the test. -/
theorem boundWhenActing_step_iff (hc : Completes c1Tran) (hs : LoopAware s)
    (hb : BoundWhenActing s) {e : ThreadEvent}
    (h : threadStep m getNext unexplored bus c1Tran s e = some t) :
    BoundWhenActing t ↔ WritesBackFresh m s e := by
  by_cases hne : ∀ e', e ≠ .c1 e'
  · rcases threadStep_loop hne h with
      ⟨pc, cov, rfl, -, hwrite⟩ | ⟨tran, d, next, rfl, hpc, hrun, rfl⟩
    · apply iff_of_true hb
      intro tran d next he hpc hrun
      simp [hwrite he tran hpc] at hrun
    · constructor
      · rintro ht tran' d' next' - hpc' hrun' hnext
        obtain rfl := LoopPc.write.inj (hpc.symm.trans hpc')
        obtain ⟨rfl, rfl⟩ := Prod.mk.inj (Option.some.inj (hrun.symm.trans hrun'))
        exact (hs.acting (.inr ⟨tran, hpc⟩)).resolve_right (not_not.mpr (ht hnext))
      · exact fun hf hnext => hb (hf tran d next rfl hpc hrun hnext)
  · push Not at hne
    obtain ⟨e', rfl⟩ := hne
    refine iff_of_true ?_ fun tran d next he => ThreadEvent.noConfusion he
    rcases threadStep_c1 hc hs h with ⟨flag, rfl⟩ | ⟨edge, rest, htodo, rfl⟩
    · exact hb
    · intro hstate
      rw [eq_bind_of_target (hs.todo edge (by simp [htodo])) hstate]

/-- Over every interleaving of the two threads, `state` from 5 on means that the bind
transition completed last, in every state reached, exactly when every write-back of the
loop thread to a state from 5 on finds `state` still from 5 on. -/
theorem boundWhenActing_iff (m : Fsm) (getNext : Strategy) (unexplored : Bool) (bus : Str)
    (c1Tran : Edge → Option Str) (hc : Completes c1Tran) (es : List ThreadEvent) :
    Always (threadStep m getNext unexplored bus c1Tran) BoundWhenActing .start es ↔
      AlwaysStep (threadStep m getNext unexplored bus c1Tran) (WritesBackFresh m) .start es :=
  always_iff_alwaysStep (J := LoopAware) (fun _ _ _ hs h => hs.step hc h)
    (fun _ _ _ hs hb h => boundWhenActing_step_iff hc hs hb h) LoopAware.start
    (fun h => absurd h (by decide))

theorem completes_hidTran : Completes hidTran := by
  intro e he
  simp only [c1Round, if_true, List.cons_append, List.nil_append, List.mem_cons,
    List.not_mem_nil, or_false] at he
  rcases he with rfl | rfl | rfl | rfl | rfl | rfl | rfl | rfl | rfl | rfl <;>
    exact ⟨_, _, rfl, rfl⟩

/-- States 5 and 6 in turn, with no payloads. -/
def twoStates : Fsm where
  connStates s := if s = 5 then some [6] else if s = 6 then some [5] else none
  ch _ := none
  tran _ _ := none

/-- The gadget is built and bound, the loop thread chooses the edge to state 6, the next
round unbinds the gadget, and the loop thread writes state 6. -/
def staleWrite : List ThreadEvent :=
  [.c1 (.round false)] ++ List.replicate 9 (.c1 (.call fun _ => .output [])) ++
    [.loopTest, .loopChoose 0, .c1 (.round true), .c1 (.call fun _ => .output []), .loopWrite]

theorem boundWhenActing_iff_staleWrite :
    Always (threadStep twoStates .tran true "001".toList hidTran) BoundWhenActing .start
        staleWrite ↔
      AlwaysStep (threadStep twoStates .tran true "001".toList hidTran)
        (WritesBackFresh twoStates) .start staleWrite :=
  boundWhenActing_iff twoStates .tran true "001".toList hidTran completes_hidTran staleWrite

/-- The unbind is overwritten: state 6 on a gadget that was unbound last. -/
theorem loop_overwrites_unbind :
    ¬Always (threadStep twoStates .tran true "001".toList hidTran) BoundWhenActing .start
      staleWrite := by
  intro h
  obtain ⟨t, hrun, hstate, hlast⟩ : ∃ t,
      runs (threadStep twoStates .tran true "001".toList hidTran) .start staleWrite = some t ∧
        t.state = 6 ∧ t.lastC1 = some (5, 4) := ⟨_, rfl, by decide, by decide⟩
  have hb := always_iff.mp h staleWrite t (List.prefix_refl _) hrun (by omega)
  rw [hlast] at hb
  exact absurd hb (by decide)

end FuzzUSB.StateMgr
