import FuzzUSB.RpcSignal

/-!
# The signal of the inputs

The manager has an input in its corpus before its signal is in `corpusSignal`, and a `Connect`
may take the input in between. It hands out no input whose signal it does not know.
-/

namespace FuzzUSB.Rpc
open Transition Signal

variable {o : Outside} {E : Type} {view : o.Sig → E → WithBot ℕ}

section

variable (view) (s : State o)

/-- The signal of the corpus, and of an input that is being added. -/
def corpusView : E → WithBot ℕ :=
  view s.serv.corpusSignal ⊔ union view (s.newInput.toList.map Prod.snd)

/-- The signal that the manager knows. -/
def known : E → WithBot ℕ := view s.serv.maxSignal ⊔ corpusView view s

/-- The signal of an input is below `b`. -/
def Within (b : E → WithBot ℕ) (inp : RPCInput o) : Prop :=
  view (o.signal.deserialize inp.signal) ≤ b

/-- The manager hands out signal of `maxSignal`, and inputs with signal of its corpus. -/
structure HandsOutKnown : Prop where
  signals : ∀ n f, s.serv.fuzzers n = some f → view f.newMaxSignal ≤ view s.serv.maxSignal
  corpus : ∀ e ∈ s.mgr.corpus, Within view (corpusView view s) e.2
  snapshots : ∀ n c, s.conns n = some c → ∀ inp ∈ c.corpus, Within view (corpusView view s) inp
  pending : ∀ n f, s.serv.fuzzers n = some f →
    ∀ inp ∈ f.inputs, Within view (corpusView view s) inp
  handing : ∀ a sig, s.newInput = some (a, sig) → Within view (view sig) a.input

end

/-- The signal that a fuzzer sends with the event. -/
def Event.sends : Event o → Option o.Serial
  | .accept a => some a.input.signal
  | .poll a _ => some a.maxSignal
  | _ => none

theorem Within.mono {b b' : E → WithBot ℕ} {inp : RPCInput o} (h : Within view b inp)
    (hb : b ≤ b') : Within view b' inp :=
  h.trans hb

theorem corpusView_of_free {s : State o} (h : s.newInput = none) :
    corpusView view s = view s.serv.corpusSignal := by
  simp [corpusView, h]

/-! ## The corpus -/

section

variable {mgr mgr' : Manager o}

/-- `fuzzerConnect` returns inputs of the corpus, and may leave out others. -/
theorem fuzzerConnect_spec {minimized : Bool} {order : List o.Hash}
    {corpus : List (RPCInput o)}
    (h : mgr.fuzzerConnect minimized order = some (corpus, mgr')) :
    mgr'.corpus ⊆ mgr.corpus ∧ ∀ inp ∈ corpus, ∃ e ∈ mgr.corpus, e.2 = inp := by
  have hsub : (if minimized then mgr.corpus.filter (·.1 ∈ order) else mgr.corpus) ⊆
      mgr.corpus := by
    split
    · exact List.filter_subset_self _
    · exact List.Subset.refl _
  obtain ⟨-, h⟩ := Option.ite_none_right_eq_some.mp h
  simp only [Option.some.injEq, Prod.mk.injEq] at h
  obtain ⟨rfl, rfl⟩ := h
  refine ⟨hsub, fun inp hinp => ?_⟩
  obtain ⟨hash, -, hlook⟩ := List.mem_filterMap.mp hinp
  obtain ⟨l, l', heq, -⟩ := List.lookup_eq_some_iff.mp hlook
  exact ⟨(hash, inp), hsub (heq ▸ List.mem_append_right _ List.mem_cons_self), rfl⟩

/-- `newInput` joins the signal of the input with that of the entry it changes, and keeps the
others. -/
theorem newInput_spec (hlaw : o.signal.Lawful view) (mgr : Manager o) (inp : RPCInput o) (sign : o.Sig) :
    view sign ≤ view (mgr.newInput inp sign).2 ∧
      (∀ b, view sign ≤ b → (∀ e ∈ mgr.corpus, Within view b e.2) →
        view (mgr.newInput inp sign).2 ≤ b) ∧
      ∀ e ∈ (mgr.newInput inp sign).1.corpus, e ∈ mgr.corpus ∨ e.2 = inp ∨
        Within view (view (mgr.newInput inp sign).2) e.2 := by
  unfold Manager.newInput
  split
  · next old hlook =>
    obtain ⟨l, l', heq, -⟩ := List.lookup_eq_some_iff.mp hlook
    have hold : (o.hash inp.prog, old) ∈ mgr.corpus := by simp [heq]
    refine ⟨?_, fun b hb hcorpus => ?_, fun e he => ?_⟩
    · rw [hlaw.view_merge]
      exact le_sup_left
    · rw [hlaw.view_merge]
      exact sup_le hb (hcorpus _ hold)
    · obtain ⟨e₀, he₀, rfl⟩ := List.mem_map.mp he
      split
      · exact .inr (.inr (hlaw.view_serial _).le)
      · exact .inl he₀
  · refine ⟨le_rfl, fun b hb _ => hb, fun e he => ?_⟩
    rcases List.mem_append.mp he with hold | hnew
    · exact .inl hold
    · exact .inr (.inl (by rw [List.mem_singleton.mp hnew]))

/-- A poll does not change the corpus, and returns inputs that were pending. -/
theorem poll_corpus {serv serv' : RPCServer o} {a : PollArgs o} {r : PollRes o} {seed : ℕ}
    (h : serv.poll mgr a seed = some (r, serv', mgr')) :
    serv'.corpusSignal = serv.corpusSignal ∧ mgr'.corpus = mgr.corpus := by
  obtain ⟨f, -, heq⟩ := Option.map_eq_some_iff.mp h
  simp only [Prod.mk.injEq] at heq
  obtain ⟨-, rfl, rfl⟩ := heq
  constructor
  · unfold RPCServer.report
    split <;> rfl
  · split <;> rfl

end

/-! ## A step -/

section

variable {s t : State o} {e : Event o}

variable (hlaw : o.signal.Lawful view)

include hlaw

theorem le_report_maxSignal {serv : RPCServer o} {a : PollArgs o} :
    view serv.maxSignal ≤ view (serv.report a).maxSignal := by
  unfold RPCServer.report
  split
  · exact le_rfl
  · rw [hlaw.view_merge]
    exact le_sup_left

/-- All that is reported is in `maxSignal` then. -/
theorem reported_le_maxSignal {serv : RPCServer o} {a : PollArgs o} :
    view (o.signal.deserialize a.maxSignal) ≤ view (serv.report a).maxSignal := by
  have hsup := sup_view_diff hlaw serv.maxSignal (o.signal.deserialize a.maxSignal)
  unfold RPCServer.report
  split
  · next hempty =>
    rw [RPCServer.newMaxSignal, hlaw.empty_iff] at hempty
    rw [hempty, sup_bot_eq] at hsup
    exact hsup ▸ le_sup_right
  · rw [hlaw.view_merge, RPCServer.newMaxSignal, hsup]
    exact le_sup_right

/-- A step takes nothing from what the manager knows. -/
theorem known_mono (h : step s e = some t) :
    view s.serv.maxSignal ≤ view t.serv.maxSignal ∧ corpusView view s ≤ corpusView view t := by
  cases step_cases h with
  | snapshot | reject | candidates => exact ⟨le_rfl, le_rfl⟩
  | register => exact ⟨le_rfl, le_rfl⟩
  | accept hfree =>
    refine ⟨le_rfl, ?_⟩
    rw [corpusView_of_free hfree]
    exact le_sup_left
  | @handOut a sig hnew =>
    refine ⟨le_rfl, ?_⟩
    simp [corpusView, RPCServer.handOut, hnew, hlaw.view_merge]
  | @poll a seed r serv mgr hfree hpoll =>
    obtain ⟨f, g, hp⟩ := poll_spec hpoll
    constructor
    · change _ ≤ view serv.maxSignal
      rw [hp.maxSignal]
      exact le_report_maxSignal hlaw
    · rw [corpusView_of_free hfree, corpusView_of_free (s := s.answered a r serv mgr) hfree]
      exact (congrArg view (poll_corpus hpoll).1).ge

theorem HandsOutKnown.step (hs : HandsOutKnown view s) (h : step s e = some t) :
    HandsOutKnown view t := by
  have hmono := (known_mono hlaw h).2
  cases step_cases h with
  | candidates => exact ⟨hs.signals, hs.corpus, hs.snapshots, hs.pending, hs.handing⟩
  | reject => exact hs
  | @snapshot conn name minimized order corpus mgr hnew hconn =>
    obtain ⟨hsub, hcorpus⟩ := fuzzerConnect_spec hconn
    refine ⟨hs.signals, fun e he => hs.corpus e (hsub he), fun n c hc inp hinp => ?_, hs.pending,
      hs.handing⟩
    by_cases hn : n = conn
    · subst hn
      simp only [Function.update_self, Option.some.injEq] at hc
      rw [← hc] at hinp
      obtain ⟨e, he, rfl⟩ := hcorpus inp hinp
      exact hs.corpus e he
    · simp only [Function.update_of_ne hn] at hc
      exact hs.snapshots n c hc inp hinp
  | @register conn c hfree hc =>
    refine ⟨fun n f hf => ?_, hs.corpus, fun n c' hc' => ?_, fun n f hf => ?_, hs.handing⟩
    · by_cases hn : n = c.name
      · simp only [State.register, RPCServer.register, hn, Function.update_self,
          Option.some.injEq] at hf
        subst hf
        exact (hlaw.view_copy _).le
      · simp only [State.register, RPCServer.register, Function.update_of_ne hn] at hf
        exact hs.signals n f hf
    · by_cases hn : n = conn
      · simp [State.register, hn] at hc'
      · simp only [State.register, Function.update_of_ne hn] at hc'
        exact hs.snapshots n c' hc'
    · by_cases hn : n = c.name
      · simp only [State.register, RPCServer.register, hn, Function.update_self,
          Option.some.injEq] at hf
        subst hf
        exact hs.snapshots conn c hc
      · simp only [State.register, RPCServer.register, Function.update_of_ne hn] at hf
        exact hs.pending n f hf
  | @accept a hfree ha =>
    obtain ⟨hle, -, hentries⟩ :=
      newInput_spec hlaw s.mgr a.input (o.signal.deserialize a.input.signal)
    have hin : view (s.mgr.newInput a.input (o.signal.deserialize a.input.signal)).2 ≤
        corpusView view (s.accept a) := by
      simp [corpusView, State.accept]
    refine ⟨hs.signals, fun e he => ?_, fun n c hc inp hinp => ?_, fun n f hf inp hinp => ?_,
      fun a' sig h' => ?_⟩
    · rcases hentries e he with hold | hinp | hnew
      · exact (hs.corpus e hold).mono hmono
      · rw [hinp]
        exact hle.trans hin
      · exact hnew.mono hin
    · obtain ⟨c₀, hc₀, rfl⟩ := Option.map_eq_some_iff.mp hc
      refine (hs.snapshots n c₀ hc₀ inp ?_).mono hmono
      split at hinp <;> exact hinp
    · exact (hs.pending n f hf inp hinp).mono hmono
    · simp only [State.accept, Option.some.injEq, Prod.mk.injEq] at h'
      obtain ⟨rfl, rfl⟩ := h'
      exact hle
  | @handOut a sig hnew =>
    refine ⟨fun n f hf => ?_, fun e he => (hs.corpus e he).mono hmono,
      fun n c hc inp hinp => (hs.snapshots n c hc inp hinp).mono hmono,
      fun n f hf inp hinp => ?_, by simp⟩
    · obtain ⟨g, hg, rfl⟩ := Option.map_eq_some_iff.mp hf
      split <;> exact hs.signals n g hg
    obtain ⟨g, hg, rfl⟩ := Option.map_eq_some_iff.mp hf
    split at hinp
    · exact (hs.pending n g hg inp hinp).mono hmono
    · rcases List.mem_append.mp hinp with hold | hsent
      · exact (hs.pending n g hg inp hold).mono hmono
      · rw [List.mem_singleton.mp hsent]
        refine ((hs.handing a sig hnew).mono ?_).mono hmono
        simp [corpusView, hnew]
  | @poll a seed r serv mgr hfree hpoll =>
    obtain ⟨f, g, hp⟩ := poll_spec hpoll
    refine ⟨fun n f' hf => ?_, fun e he => ?_,
      fun n c hc inp hinp => (hs.snapshots n c hc inp hinp).mono hmono,
      fun n f' hf inp hinp => ?_, hs.handing⟩
    · change _ ≤ view serv.maxSignal
      rw [hp.maxSignal]
      by_cases hn : n = a.name
      · subst hn
        obtain rfl := Option.some.inj (hp.after.symm.trans hf)
        have hsplit := hlaw.view_split seed 500 f.newMaxSignal
        rw [hp.left]
        exact (le_sup_right.trans hsplit.ge).trans
          ((hs.signals _ f hp.before).trans (le_report_maxSignal hlaw))
      · obtain ⟨f₀, new, hf₀, hadd, hnew⟩ :=
          report_others hlaw hn ((hp.others n hn).symm.trans hf)
        rw [hadd, hnew]
        exact sup_le_sup_right (hs.signals n f₀ hf₀) new
    · exact (hs.corpus e ((poll_corpus hpoll).2 ▸ he)).mono hmono
    · by_cases hn : n = a.name
      · subst hn
        obtain rfl := Option.some.inj (hp.after.symm.trans hf)
        exact (hs.pending _ f hp.before inp
          (hp.inputs.subset (List.mem_append_left _ hinp))).mono hmono
      · obtain ⟨f₀, hf₀, -, hinputs⟩ := report_fuzzers ((hp.others n hn).symm.trans hf)
        exact (hs.pending n f₀ hf₀ inp (hinputs ▸ hinp)).mono hmono

/-- A step adds nothing but what is sent with it. -/
theorem known_le_step {b : E → WithBot ℕ} (hinputs : HandsOutKnown view s) (hs : known view s ≤ b)
    (hsends : ∀ m ∈ e.sends, view (o.signal.deserialize m) ≤ b) (h : step s e = some t) :
    known view t ≤ b := by
  obtain ⟨hmax, hcorpus⟩ := sup_le_iff.mp hs
  cases step_cases h with
  | snapshot | reject | candidates | register => exact hs
  | @accept a hfree ha =>
    obtain ⟨-, hle, -⟩ :=
      newInput_spec hlaw s.mgr a.input (o.signal.deserialize a.input.signal)
    have hsig := hle b (hsends _ rfl) fun e he => (hinputs.corpus e he).mono hcorpus
    refine sup_le hmax (sup_le (le_sup_left.trans hcorpus) ?_)
    simpa [State.accept] using hsig
  | @handOut a sig hnew =>
    simp only [corpusView, hnew, Option.toList_some, List.map_cons, List.map_nil, union_cons,
      union_nil, sup_le_iff] at hcorpus
    refine sup_le hmax (sup_le ?_ bot_le)
    simpa [RPCServer.handOut, hlaw.view_merge] using ⟨hcorpus.1, hcorpus.2.1⟩
  | @poll a seed r serv mgr hfree hpoll =>
    obtain ⟨f, g, hp⟩ := poll_spec hpoll
    apply sup_le
    · change view serv.maxSignal ≤ b
      rw [hp.maxSignal]
      exact (report_maxSignal_le hlaw).trans (sup_le hmax (hsends _ rfl))
    · rw [corpusView_of_free (s := s.answered a r serv mgr) hfree]
      exact (congrArg view (poll_corpus hpoll).1).le.trans (le_sup_left.trans hcorpus)

end

end FuzzUSB.Rpc
