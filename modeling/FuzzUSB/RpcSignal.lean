import FuzzUSB.RpcInputs

/-!
# The signal of the fuzzers

New signal that one fuzzer reports is added to `maxSignal` and to `newMaxSignal` of all the
others, which polls take apart 500 elements at a time.
-/

namespace FuzzUSB.Rpc
open Transition Signal

variable {o : Outside} {E : Type} {view : o.Sig → E → WithBot ℕ}

/-- What fuzzer `f`, registered as `n`, has seen since it connected or will see: what polls
have reported and returned, and what is left for it. -/
def share (view : o.Sig → E → WithBot ℕ) (s : State o) (n : String) (f : Fuzzer o) :
    E → WithBot ℕ :=
  union view (s.ledger n).reported ⊔ union view (s.ledger n).returned ⊔ view f.newMaxSignal

/-- Every registered fuzzer has a share in each element of `maxSignal`, of its priority or a
higher one. -/
def SharesMaxSignal (view : o.Sig → E → WithBot ℕ) (s : State o) : Prop :=
  ∀ n f, s.serv.fuzzers n = some f → view s.serv.maxSignal ≤ share view s n f

variable {s t : State o} {e : Event o}

section

variable (hlaw : o.signal.Lawful view) {serv : RPCServer o} {a : PollArgs o}

include hlaw

/-- A report adds to `maxSignal` no more than what is reported. -/
theorem report_maxSignal_le :
    view (serv.report a).maxSignal ≤
      view serv.maxSignal ⊔ view (o.signal.deserialize a.maxSignal) := by
  unfold RPCServer.report
  split
  · exact le_sup_left
  · simp only [hlaw.view_merge, RPCServer.newMaxSignal, sup_view_diff hlaw]
    exact le_rfl

/-- What a report adds to `maxSignal` it adds for every other fuzzer. -/
theorem report_others {n : String} {g : Fuzzer o} (hn : n ≠ a.name)
    (h : (serv.report a).fuzzers n = some g) :
    ∃ f new, serv.fuzzers n = some f ∧
      view (serv.report a).maxSignal = view serv.maxSignal ⊔ new ∧
      view g.newMaxSignal = view f.newMaxSignal ⊔ new := by
  unfold RPCServer.report at h ⊢
  split at h
  · next hempty =>
    rw [if_pos hempty]
    exact ⟨g, ⊥, h, by simp, by simp⟩
  · next hempty =>
    rw [if_neg hempty]
    simp only [if_neg hn] at h
    obtain ⟨f, hf, rfl⟩ := Option.map_eq_some_iff.mp h
    exact ⟨f, view (serv.newMaxSignal a), hf, hlaw.view_merge _ _, hlaw.view_merge _ _⟩

/-- A poll moves signal from what is left to what was returned, and adds the report. -/
theorem share_answered {r : PollRes o} {serv' : RPCServer o} {mgr : Manager o} {seed : ℕ}
    {f g : Fuzzer o} (hp : Polled s.serv serv' a r seed f g) :
    share view (s.answered a r serv' mgr) a.name g =
      share view s a.name f ⊔ view (o.signal.deserialize a.maxSignal) := by
  have hsplit := hlaw.view_split seed 500 f.newMaxSignal
  simp only [share, State.answered, Function.update_self, union_concat, hp.left, hp.returned,
    hlaw.view_serial]
  rw [hsplit]
  ac_rfl

theorem sharesMaxSignal_step (hs : SharesMaxSignal view s) (h : step s e = some t) :
    SharesMaxSignal view t := by
  intro n f hf
  cases step_cases h with
  | snapshot | reject | candidates => exact hs n f hf
  | @accept a =>
    by_cases hn : n = a.name <;> simpa [share, State.accept, hn] using hs n f hf
  | @register conn c =>
    by_cases hn : n = c.name
    · subst hn
      simp only [State.register, RPCServer.register, Function.update_self, Option.some.injEq] at hf
      simp [share, State.register, RPCServer.register, ← hf, hlaw.view_copy]
    · simp only [State.register, RPCServer.register, Function.update_of_ne hn] at hf
      simpa [share, State.register, RPCServer.register, hn] using hs n f hf
  | @handOut a =>
    obtain ⟨g, hg, rfl⟩ := Option.map_eq_some_iff.mp hf
    have hshare := hs n g hg
    split <;> exact hshare
  | @poll a seed r serv mgr hfree hpoll =>
    obtain ⟨f', g, hp⟩ := poll_spec hpoll
    change view serv.maxSignal ≤ _
    rw [hp.maxSignal]
    by_cases hn : n = a.name
    · subst hn
      obtain rfl := Option.some.inj (hp.after.symm.trans hf)
      rw [share_answered hlaw hp]
      exact (report_maxSignal_le hlaw).trans (sup_le_sup_right (hs _ f' hp.before) _)
    · obtain ⟨f₀, new, hf₀, hmax, hnew⟩ :=
        report_others hlaw hn ((hp.others n hn).symm.trans hf)
      have hshare := sup_le_sup_right (hs n f₀ hf₀) new
      rw [hmax]
      apply hshare.trans (le_of_eq _)
      simp only [share, State.answered, Function.update_of_ne hn, hnew, sup_assoc]

/-- In every run, every registered fuzzer has or gets all of `maxSignal`. -/
theorem sharesMaxSignal_always (batchSize : ℕ) (maxSignal corpusSignal : o.Sig)
    (corpusCover : o.Cover) (mgr : Manager o) (es : List (Event o)) :
    Always step (SharesMaxSignal view)
      (.start batchSize maxSignal corpusSignal corpusCover mgr) es := by
  rw [always_iff]
  intro pre t _ ht
  apply runs_invariant (fun _ _ _ hs h => sharesMaxSignal_step hlaw hs h) _ ht
  exact fun n f hf => by cases hf

end

/-- Two fuzzers: one reports a signal, the other connects again and polls for it. -/
theorem sharesMaxSignal_always_reconnect :
    Always step (SharesMaxSignal (o := textPrograms) PrioMap.prio)
      (.start 5 noSignal noSignal [] ⟨[], []⟩)
      [.snapshot 0 "vm-0" false [], .register 0, .snapshot 1 "vm-1" false [], .register 1,
       .poll ⟨"vm-0", false, oneSignal 7, []⟩ 0, .snapshot 2 "vm-1" false [], .register 2,
       .poll ⟨"vm-1", false, noSignal, []⟩ 0] :=
  sharesMaxSignal_always (o := textPrograms) prioMaps_lawful 5 noSignal noSignal [] ⟨[], []⟩ _

end FuzzUSB.Rpc
