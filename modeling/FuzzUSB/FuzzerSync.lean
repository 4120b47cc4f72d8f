import FuzzUSB.FuzzerSignal

/-!
# Signal is not lost

In every run, a fuzzer has nothing in `maxSignal` that is neither known to the manager nor on
the way to it, and all of the manager's `maxSignal` is known to the fuzzer or on the way to it.
-/

namespace FuzzUSB.FuzzerSignal
open Transition Signal
open Triage (Packages rawView listPrograms listPrograms_lawful)
open Rpc (Outside RPCInput NewInputArgs PollArgs PollRes Polled known corpusView Within
  HandsOutKnown SharesMaxSignal textPrograms)

variable {o : Outside} {pkg : Packages o} {view : o.Sig → ℕ → WithBot ℕ} {s t : State o}
  {e : Event o} {rpc rpc' : Rpc.State o}

/-! ## The manager -/

/-- The answer to a poll is a step of the manager. -/
theorem Answers.step {a : PollArgs o} {seed : ℕ} {r : PollRes o} (h : Answers rpc a seed r rpc') :
    Rpc.step rpc (.poll a seed) = some rpc' ∧ ∃ f g, Polled rpc.serv rpc'.serv a r seed f g := by
  cases h with
  | intro hfree h => exact ⟨by simp [Rpc.step, hfree, h], Rpc.poll_spec h⟩

/-- No step takes a fuzzer from the manager. -/
theorem isSome_fuzzers {r : Rpc.Event o} (h : Rpc.step rpc r = some rpc') {n : String}
    (hn : (rpc.serv.fuzzers n).isSome) : (rpc'.serv.fuzzers n).isSome := by
  cases Rpc.step_cases h with
  | snapshot | accept | reject | candidates => exact hn
  | @register conn c =>
    by_cases hc : n = c.name
    · simp [Rpc.State.register, Rpc.RPCServer.register, hc]
    · simpa [Rpc.State.register, Rpc.RPCServer.register, hc] using hn
  | handOut => simpa [Rpc.RPCServer.handOut] using hn
  | @poll a seed r serv mgr hfree hpoll =>
    obtain ⟨f, g, hp⟩ := Rpc.poll_spec hpoll
    change (serv.fuzzers n).isSome
    by_cases ha : n = a.name
    · rw [ha, hp.after]
      rfl
    · rw [hp.others n ha]
      unfold Rpc.RPCServer.report
      split
      · exact hn
      · simpa [ha] using hn

/-- Only `Connect` and `Poll` change what is written down of a fuzzer's signal. -/
theorem ledger_eq (n : String) {r : Rpc.Event o} (h : Rpc.step rpc r = some rpc')
    (hr : r.sends = none ∨ ∃ a, r = .accept a)
    (hn : ∀ conn c, r = .register conn → rpc.conns conn = some c → n ≠ c.name) :
    (rpc'.ledger n).reported = (rpc.ledger n).reported ∧
      (rpc'.ledger n).returned = (rpc.ledger n).returned := by
  cases Rpc.step_cases h with
  | snapshot | reject | candidates | handOut => exact ⟨rfl, rfl⟩
  | @register conn c hfree hc =>
    simp [Rpc.State.register, Function.update_of_ne (hn conn c rfl hc)]
  | @accept a =>
    by_cases ha : n = a.name <;> simp [Rpc.State.accept, ha]
  | poll =>
    rcases hr with hsends | ⟨a, ha⟩
    · cases hsends
    · cases ha

/-! ## The processes -/

theorem setFuzzer_cases {name n : String} {f g : Fuzzer o}
    (h : (s.setFuzzer name f).fuzzers n = some g) :
    (n = name ∧ g = f) ∨ (n ≠ name ∧ s.fuzzers n = some g) := by
  by_cases hn : n = name
  · subst hn
    simp only [State.setFuzzer, Function.update_self, Option.some.injEq] at h
    exact .inl ⟨rfl, h.symm⟩
  · simp only [State.setFuzzer, Function.update_of_ne hn] at h
    exact .inr ⟨hn, h⟩

/-- The other processes go on when one ends. -/
theorem exit_cases {name n : String} {f g : Fuzzer o} {late : List ℕ} {latePoll : Bool}
    (h : (s.exit name f late latePoll).fuzzers n = some g) : s.fuzzers n = some g := by
  by_cases hn : n = name
  · simp [State.exit, hn] at h
  · simpa [State.exit, hn] using h

theorem mem_latePolls_exit {name : String} {f : Fuzzer o} {late : List ℕ} {latePoll : Bool}
    {a : PollArgs o} (h : a ∈ (s.exit name f late latePoll).latePolls) :
    a ∈ s.latePolls ∨ f.poll = .calling a := by
  refine (List.mem_append.mp h).imp_right fun hnew => ?_
  have hcall : f.poll.call = some a := by
    split at hnew
    · simpa using hnew
    · cases hnew
  cases hpoll : f.poll <;> simp_all [PollState.call]

theorem mem_lateInputs_exit {name : String} {f : Fuzzer o} {late : List ℕ} {latePoll : Bool}
    {a : NewInputArgs o} (h : a ∈ (s.exit name f late latePoll).lateInputs) :
    a ∈ s.lateInputs ∨ ∃ proc sig, f.procs proc = .sending sig a.input := by
  refine (List.mem_append.mp h).imp_right fun hnew => ?_
  obtain ⟨proc, -, hcall⟩ := List.mem_filterMap.mp hnew
  cases hproc : f.procs proc with
  | sending sig inp =>
    simp only [hproc, ProcState.call, Option.some.injEq] at hcall
    exact ⟨proc, sig, hcall ▸ hproc⟩
  | _ => simp [hproc, ProcState.call] at hcall

/-! ## Nothing is lost -/

variable (view) in
/-- The invariant of all processes and the manager. -/
structure Inv (s : State o) : Prop where
  handsOut : HandsOutKnown view s.rpc
  shares : SharesMaxSignal view s.rpc
  kept : ∀ n f, s.fuzzers n = some f →
    Kept view (known view s.rpc) (corpusView view s.rpc) n f
  connected : ∀ n f, s.fuzzers n = some f → (s.rpc.serv.fuzzers n).isSome
  lateConnected : ∀ a ∈ s.latePolls, (s.rpc.serv.fuzzers a.name).isSome

section

variable (hlaw : RawLawful view pkg)

include hlaw

/-- What the manager does by itself changes nothing for the processes. -/
theorem Inv.manager (hs : Inv view s) {r : Rpc.Event o} (h : Rpc.step s.rpc r = some rpc) :
    Inv view { s with rpc } := by
  obtain ⟨hmax, hcorpus⟩ := Rpc.known_mono hlaw.signal h
  exact {
    handsOut := hs.handsOut.step hlaw.signal h
    shares := Rpc.sharesMaxSignal_step hlaw.signal hs.shares h
    kept := fun n f hf => (hs.kept n f hf).mono (sup_le_sup hmax hcorpus) hcorpus
    connected := fun n f hf => isSome_fuzzers h (hs.connected n f hf)
    lateConnected := fun a ha => isSome_fuzzers h (hs.lateConnected a ha) }

omit hlaw in
theorem Inv.setFuzzer (hs : Inv view s) {name : String} {f : Fuzzer o}
    (hf : Kept view (known view s.rpc) (corpusView view s.rpc) name f)
    (hname : (s.rpc.serv.fuzzers name).isSome) : Inv view (s.setFuzzer name f) := by
  refine ⟨hs.handsOut, hs.shares, fun n g hg => ?_, fun n g hg => ?_, hs.lateConnected⟩
  · rcases setFuzzer_cases hg with ⟨rfl, rfl⟩ | ⟨-, hold⟩
    · exact hf
    · exact hs.kept n g hold
  · rcases setFuzzer_cases hg with ⟨rfl, -⟩ | ⟨-, hold⟩
    · exact hname
    · exact hs.connected n g hold

/-- An answer has signal and inputs that the manager knows. -/
theorem answered_kept {f : Fuzzer o} {name : String} {a : PollArgs o} {seed : ℕ} {r : PollRes o}
    (hs : HandsOutKnown view rpc)
    (hf : Kept view (known view rpc) (corpusView view rpc) name f)
    (hpoll : f.poll = .calling a) (h : Answers rpc a seed r rpc') :
    Kept view (known view rpc') (corpusView view rpc') name { f with poll := .answered r } := by
  obtain ⟨hstep, f₀, g, hp⟩ := h.step
  obtain ⟨hmax, hcorpus⟩ := Rpc.known_mono hlaw.signal hstep
  have hmono := hf.mono (sup_le_sup hmax hcorpus) hcorpus
  have hreported : view (o.signal.deserialize a.maxSignal) ≤ known view rpc' := by
    apply le_sup_of_le_left
    rw [hp.maxSignal]
    exact Rpc.reported_le_maxSignal hlaw.signal
  have hreturned : view (o.signal.deserialize r.maxSignal) ≤ known view rpc := by
    apply le_sup_of_le_left
    rw [hp.returned, hlaw.signal.view_serial]
    have hsplit := hlaw.signal.view_split seed 500 f₀.newMaxSignal
    exact (le_sup_left.trans hsplit.ge).trans (hs.signals _ f₀ hp.before)
  refine { hmono with
    grabbed := bot_le
    inputs := fun inp hinp => ?_
    returned := hreturned.trans (sup_le_sup hmax hcorpus)
    maxSignal := ?_
    called := fun _ hcall => by cases hcall }
  · have hmem := hp.inputs.subset (List.mem_append_right _ hinp)
    exact (hs.pending _ f₀ hp.before inp hmem).mono hcorpus
  · have hle := hmono.maxSignal
    rw [hpoll] at hle
    refine hle.trans (sup_le le_sup_left ?_)
    exact hreported.trans (le_sup_left.trans le_sup_left)

theorem Inv.step (hs : Inv view s) (h : step pkg s e = some t) : Inv view t := by
  cases step_cases h with
  | manager hrpc => exact hs.manager hlaw hrpc
  | @start conn c rpc hc hnew hrpc =>
    have hconnected : (rpc.serv.fuzzers c.name).isSome := by
      cases Rpc.step_cases hrpc with
      | @register conn c' hfree hc' =>
        obtain rfl := Option.some.inj (hc.symm.trans hc')
        simp [Rpc.State.register, Rpc.RPCServer.register]
    have hset := (hs.manager hlaw hrpc).setFuzzer (kept_start hlaw) hconnected
    exact ⟨hset.handsOut, hset.shares, hset.kept, hset.connected, hset.lateConnected⟩
  | @act name a f g hf hact =>
    have hkept := (hs.kept name f hf).act hlaw le_sup_right hact
    have hset := hs.setFuzzer hkept (hs.connected name f hf)
    exact ⟨hset.handsOut, hset.shares, hset.kept, hset.connected, hset.lateConnected⟩
  | @newInput name proc f sig inp rpc hf hproc haccept =>
    have hrpc := hs.manager hlaw haccept
    have hcovered := (hs.kept name f hf).procs proc
    rw [hproc] at hcovered
    exact hrpc.setFuzzer ((hrpc.kept name f hf).setProc hcovered.1) (hrpc.connected name f hf)
  | @poll name seed f a r rpc hf hpoll hanswer =>
    have hrpc := hs.manager hlaw hanswer.step.1
    exact hrpc.setFuzzer (answered_kept hlaw hs.handsOut (hs.kept name f hf) hpoll hanswer)
      (hrpc.connected name f hf)
  | @exit name late latePoll f hf =>
    refine ⟨hs.handsOut, hs.shares, fun n g hg => hs.kept n g (exit_cases hg),
      fun n g hg => hs.connected n g (exit_cases hg), fun a ha => ?_⟩
    rcases mem_latePolls_exit ha with hold | hpoll
    · exact hs.lateConnected a hold
    · rw [(hs.kept name f hf).called a hpoll]
      exact hs.connected name f hf
  | lateInput ha haccept =>
    have hrpc := hs.manager hlaw haccept
    exact ⟨hrpc.handsOut, hrpc.shares, hrpc.kept, hrpc.connected, hrpc.lateConnected⟩
  | latePoll ha hanswer =>
    have hrpc := hs.manager hlaw hanswer.step.1
    exact ⟨hrpc.handsOut, hrpc.shares, hrpc.kept, hrpc.connected,
      fun a ha => hrpc.lateConnected a (List.mem_of_mem_eraseIdx ha)⟩

omit hlaw in
theorem inv_start (batchSize : ℕ) (candidates : List (Rpc.RPCCandidate o)) :
    Inv view (.start pkg batchSize candidates) where
  handsOut := {
    signals := fun _ _ hf => by cases hf
    corpus := fun _ he => absurd he List.not_mem_nil
    snapshots := fun _ _ hc => by cases hc
    pending := fun _ _ hf => by cases hf
    handing := fun _ _ hnew => by cases hnew }
  shares _ _ hf := by cases hf
  kept _ _ hf := by cases hf
  connected _ _ hf := by cases hf
  lateConnected _ ha := absurd ha List.not_mem_nil

variable (view) in
omit hlaw in
/-- What a fuzzer has found or got is known to the manager, or is in `newSignal` or in a call,
and its polls find it connected. -/
structure NothingLost (s : State o) (n : String) (f : Fuzzer o) : Prop where
  connected : (s.rpc.serv.fuzzers n).isSome
  maxSignal : view f.maxSignal ≤ known view s.rpc ⊔ view f.newSignal ⊔ f.poll.grabbed view
  corpusSignal : view f.corpusSignal ≤ view f.maxSignal
  triage : ∀ r ∈ f.triage, rawView r.1 r.2 ≤ view f.maxSignal

/-- In every run, with any number of processes that end and connect again at any point, no
signal of a running process is lost. -/
theorem nothing_lost (batchSize : ℕ) (candidates : List (Rpc.RPCCandidate o))
    (es : List (Event o)) :
    Always (step pkg) (fun s => ∀ n f, s.fuzzers n = some f → NothingLost view s n f)
      (.start pkg batchSize candidates) es := by
  rw [always_iff]
  intro pre t _ ht n f hf
  have hinv := runs_invariant (fun _ _ _ hs h => Inv.step hlaw hs h)
    (inv_start batchSize candidates) ht
  have hkept := hinv.kept n f hf
  exact ⟨hinv.connected n f hf, hkept.maxSignal, hkept.corpusSignal, hkept.triage⟩

/-! ## The fuzzers are told -/

omit hlaw in
variable (view) in
/-- What is written down of the signal of a fuzzer is in its `maxSignal`, in an answer it has
not added, or went to late polls. -/
structure Told (l : Rpc.Ledger o) (lost : List o.Sig) (f : Fuzzer o) : Prop where
  reported : union view l.reported ≤ view f.maxSignal ⊔ union view lost
  returned : union view l.returned ≤ view f.maxSignal ⊔ f.poll.returned view ⊔ union view lost

theorem act_mono {name : String} {f g : Fuzzer o} {a : Action o} (h : ActTo pkg name f a g) :
    view f.maxSignal ≤ view g.maxSignal ∧
      f.poll.returned view ≤ view g.maxSignal ⊔ g.poll.returned view := by
  cases h with
  | old | found | send => exact ⟨le_rfl, le_sup_right⟩
  | merge =>
    refine ⟨?_, le_sup_right⟩
    simp [Fuzzer.setProc, Fuzzer.addNewSignal, hlaw.signal.view_merge]
  | @addInput proc sig =>
    obtain ⟨c, m, heq, -, hm⟩ := addInputToCorpus_spec hlaw f sig
    rw [heq]
    exact ⟨hm ▸ le_sup_left, le_sup_right⟩
  | grab hpoll =>
    obtain ⟨n, heq, -⟩ := grabNewSignal_spec hlaw f
    rw [heq, hpoll]
    exact ⟨le_rfl, bot_le⟩
  | @addMax r hpoll =>
    obtain ⟨m, heq, hm⟩ := addMaxSignal_spec hlaw f (o.signal.deserialize r.maxSignal)
    rw [heq, hpoll]
    exact ⟨hm ▸ le_sup_left, le_sup_of_le_left (hm ▸ le_sup_right)⟩
  | @addOther inp inputs hpoll =>
    obtain ⟨c, m, heq, -, hm⟩ := addInputToCorpus_spec hlaw f (o.signal.deserialize inp.signal)
    rw [heq, hpoll]
    exact ⟨hm ▸ le_sup_left, bot_le⟩
  | endPoll hpoll =>
    rw [hpoll]
    exact ⟨le_rfl, bot_le⟩

theorem Told.act {l : Rpc.Ledger o} {lost : List o.Sig} {name : String} {f g : Fuzzer o}
    {a : Action o} (hf : Told view l lost f) (h : ActTo pkg name f a g) : Told view l lost g := by
  obtain ⟨hmax, hreturned⟩ := act_mono hlaw h
  refine ⟨hf.reported.trans (sup_le_sup_right hmax _), hf.returned.trans ?_⟩
  exact sup_le_sup_right (sup_le (hmax.trans le_sup_left) hreturned) _

omit hlaw in
theorem Told.congr {l l' : Rpc.Ledger o} {lost : List o.Sig} {f : Fuzzer o}
    (hf : Told view l lost f) (h : l'.reported = l.reported ∧ l'.returned = l.returned) :
    Told view l' lost f :=
  ⟨h.1 ▸ hf.reported, h.2 ▸ hf.returned⟩

omit hlaw in
/-- An answer goes to the fuzzer that called. -/
theorem Told.answered {f : Fuzzer o} {lost : List o.Sig} {a : PollArgs o} {r : PollRes o}
    {serv : Rpc.RPCServer o} {mgr : Rpc.Manager o}
    (hf : Told view (rpc.ledger a.name) lost f) (hpoll : f.poll = .calling a)
    (hgrabbed : f.poll.grabbed view ≤ view f.maxSignal) :
    Told view ((rpc.answered a r serv mgr).ledger a.name) lost
      { f with poll := .answered r } := by
  have hreturned := hf.returned
  rw [hpoll] at hreturned hgrabbed
  simp only [Rpc.State.answered, Function.update_self]
  constructor
  · rw [union_concat]
    exact sup_le hf.reported (le_sup_of_le_left hgrabbed)
  · rw [union_concat]
    refine sup_le (hreturned.trans (sup_le_sup_right ?_ _)) ?_
    · exact sup_le le_sup_left bot_le
    · exact le_sup_of_le_left le_sup_right

omit hlaw in
/-- An answer to a late poll is lost for the process that runs. -/
theorem Told.lost {f : Fuzzer o} {lost : List o.Sig} {a : PollArgs o} {r : PollRes o}
    {serv : Rpc.RPCServer o} {mgr : Rpc.Manager o}
    (hf : Told view (rpc.ledger a.name) lost f) :
    Told view ((rpc.answered a r serv mgr).ledger a.name)
      (lost ++ [o.signal.deserialize a.maxSignal, o.signal.deserialize r.maxSignal]) f := by
  have hsub : union view lost ≤
      union view (lost ++ [o.signal.deserialize a.maxSignal, o.signal.deserialize r.maxSignal]) :=
    union_mono (List.subset_append_left _ _)
  simp only [Rpc.State.answered, Function.update_self]
  constructor
  · rw [union_concat]
    refine sup_le (hf.reported.trans (sup_le_sup_left hsub _)) (le_sup_of_le_right ?_)
    exact le_union (by simp)
  · rw [union_concat]
    refine sup_le (hf.returned.trans (sup_le_sup_left hsub _)) (le_sup_of_le_right ?_)
    exact le_union (by simp)

variable (view) in
omit hlaw in
def AllTold (s : State o) : Prop :=
  ∀ n f, s.fuzzers n = some f → Told view (s.rpc.ledger n) (s.lost n) f

theorem AllTold.step (hinv : Inv view s) (hs : AllTold view s) (h : step pkg s e = some t) :
    AllTold view t := by
  intro n f hf
  cases step_cases h with
  | @manager _ r rpc hrpc hr =>
    refine (hs n f hf).congr (ledger_eq n hrpc (.inl hr.sends) ?_)
    rintro conn c rfl
    exact hr.elim
  | @start conn c rpc hc hnew hrpc =>
    rcases setFuzzer_cases hf with ⟨rfl, rfl⟩ | ⟨hn, hold⟩
    · cases Rpc.step_cases hrpc with
      | @register conn c' hfree hc' =>
        obtain rfl := Option.some.inj (hc.symm.trans hc')
        simp only [State.setFuzzer, Rpc.State.register, Function.update_self]
        exact ⟨bot_le, bot_le⟩
    · simp only [State.setFuzzer, Function.update_of_ne hn]
      refine (hs n f hold).congr (ledger_eq n hrpc (.inl rfl) ?_)
      rintro conn' c' ⟨⟩ hc'
      exact Option.some.inj (hc.symm.trans hc') ▸ hn
  | @act name a f₀ g hf₀ hact =>
    rcases setFuzzer_cases hf with ⟨rfl, rfl⟩ | ⟨-, hold⟩
    · exact (hs n f₀ hf₀).act hlaw hact
    · exact hs n f hold
  | @newInput name proc f₀ sig inp rpc hf₀ hproc haccept =>
    have hledger := ledger_eq n haccept (.inr ⟨_, rfl⟩) fun _ _ h' => by cases h'
    rcases setFuzzer_cases hf with ⟨rfl, rfl⟩ | ⟨-, hold⟩
    · have htold := (hs n f₀ hf₀).congr hledger
      exact ⟨htold.reported, htold.returned⟩
    · exact (hs n f hold).congr hledger
  | @poll name seed f₀ a r rpc hf₀ hpoll hanswer =>
    have hkept := hinv.kept name f₀ hf₀
    obtain rfl := hkept.called a hpoll
    cases hanswer with
    | intro =>
      rcases setFuzzer_cases hf with ⟨rfl, rfl⟩ | ⟨hn, hold⟩
      · exact (hs _ f₀ hf₀).answered hpoll hkept.grabbed
      · refine (hs n f hold).congr ?_
        simp [State.setFuzzer, Rpc.State.answered, hn]
  | exit => exact hs n f (exit_cases hf)
  | lateInput ha haccept =>
    exact (hs n f hf).congr (ledger_eq n haccept (.inr ⟨_, rfl⟩) fun _ _ h' => by cases h')
  | @latePoll i seed a r rpc ha hanswer =>
    cases hanswer with
    | intro =>
      by_cases hn : n = a.name
      · subst hn
        simpa [State.lose] using (hs a.name f hf).lost
      · have htold := hs n f hf
        simpa [State.lose, Rpc.State.answered, hn] using htold

omit hlaw in
theorem told_start (batchSize : ℕ) (candidates : List (Rpc.RPCCandidate o)) :
    AllTold view (.start pkg batchSize candidates) :=
  fun _ _ hf => by cases hf

theorem runs_told {batchSize : ℕ} {candidates : List (Rpc.RPCCandidate o)} {es : List (Event o)}
    (h : runs (step pkg) (.start pkg batchSize candidates) es = some t) :
    Inv view t ∧ AllTold view t := by
  refine runs_invariant (I := fun s => Inv view s ∧ AllTold view s) ?_ ?_ h
  · exact fun s e t hs h => ⟨hs.1.step hlaw h, hs.2.step hlaw hs.1 h⟩
  · exact ⟨inv_start batchSize candidates, told_start batchSize candidates⟩

omit hlaw in
variable (view) in
/-- All of the manager's `maxSignal` is in that of the fuzzer, in an answer it has not added or
in what the manager has for it, but for what late polls got. -/
def IsTold (s : State o) (n : String) (f : Fuzzer o) : Prop :=
  ∀ g, s.rpc.serv.fuzzers n = some g → view s.rpc.serv.maxSignal ≤
    view f.maxSignal ⊔ f.poll.returned view ⊔ view g.newMaxSignal ⊔ union view (s.lost n)

omit hlaw in
theorem Inv.isTold (hs : Inv view s) (htold : AllTold view s) {n : String} {f : Fuzzer o}
    (hf : s.fuzzers n = some f) : IsTold view s n f := by
  intro g hg
  obtain ⟨hreported, hreturned⟩ := htold n f hf
  refine (hs.shares n g hg).trans (sup_le (sup_le ?_ ?_) ?_)
  · refine hreported.trans (sup_le_sup_right ?_ _)
    exact le_sup_left.trans le_sup_left
  · exact hreturned.trans (sup_le_sup_right le_sup_left _)
  · exact le_sup_right.trans le_sup_left

/-- In every run, every running process is told of all signal that others report. -/
theorem told_always (batchSize : ℕ) (candidates : List (Rpc.RPCCandidate o))
    (es : List (Event o)) :
    Always (step pkg) (fun s => ∀ n f, s.fuzzers n = some f → IsTold view s n f)
      (.start pkg batchSize candidates) es := by
  rw [always_iff]
  intro pre t _ ht n f hf
  obtain ⟨hinv, htold⟩ := runs_told hlaw ht
  exact hinv.isTold htold hf

variable (view) in
omit hlaw in
/-- There is nothing on the way between the manager and the fuzzer, and late polls of earlier
processes have taken nothing. -/
structure AtRest (s : State o) (n : String) (f : Fuzzer o) : Prop where
  running : s.fuzzers n = some f
  poll : f.poll = .idle
  newSignal : view f.newSignal = ⊥
  newMaxSignal : ∀ g, s.rpc.serv.fuzzers n = some g → view g.newMaxSignal = ⊥
  lost : s.lost n = []

/-- Whatever the run was, at rest the fuzzers and the manager agree, but for inputs in the
corpus whose signal no poll has reported. -/
theorem at_rest_agree {batchSize : ℕ} {candidates : List (Rpc.RPCCandidate o)}
    {es : List (Event o)} (h : runs (step pkg) (.start pkg batchSize candidates) es = some t)
    {n : String} {f : Fuzzer o} (hf : AtRest view t n f) :
    view t.rpc.serv.maxSignal ≤ view f.maxSignal ∧
      view f.maxSignal ⊔ corpusView view t.rpc = known view t.rpc := by
  obtain ⟨hinv, htold⟩ := runs_told hlaw h
  obtain ⟨g, hg⟩ := Option.isSome_iff_exists.mp (hinv.connected n f hf.running)
  have hle := hinv.isTold htold hf.running g hg
  have hkept := (hinv.kept n f hf.running).maxSignal
  simp only [hf.poll, PollState.returned, hf.newMaxSignal g hg, hf.lost, union_nil,
    sup_bot_eq] at hle
  simp only [hf.poll, PollState.grabbed, hf.newSignal, sup_bot_eq] at hkept
  exact ⟨hle, le_antisymm (sup_le hkept le_sup_right) (sup_le_sup_right hle _)⟩

/-! ## Nothing is invented -/

omit hlaw in
variable (view) in
/-- All signal is below `b`. -/
structure Below (b : ℕ → WithBot ℕ) (s : State o) : Prop where
  known : known view s.rpc ≤ b
  fuzzers : ∀ n f, s.fuzzers n = some f → view f.maxSignal ≤ b
  procs : ∀ n f, s.fuzzers n = some f → ∀ proc raw prio diff,
    f.procs proc = .found raw prio diff → view diff ≤ b
  lateInputs : ∀ a ∈ s.lateInputs, Within view b a.input
  latePolls : ∀ a ∈ s.latePolls, view (o.signal.deserialize a.maxSignal) ≤ b

variable {b b' : ℕ → WithBot ℕ}

omit hlaw in
theorem Below.mono (h : Below view b s) (hb : b ≤ b') : Below view b' s :=
  ⟨h.known.trans hb, fun n f hf => (h.fuzzers n f hf).trans hb,
    fun n f hf proc raw prio diff hproc => (h.procs n f hf proc raw prio diff hproc).trans hb,
    fun a ha => (h.lateInputs a ha).mono hb, fun a ha => (h.latePolls a ha).trans hb⟩

theorem Below.manager (hs : Below view b s) (hinv : Inv view s) {r : Rpc.Event o}
    (hsends : ∀ m ∈ r.sends, view (o.signal.deserialize m) ≤ b)
    (h : Rpc.step s.rpc r = some rpc) : Below view b { s with rpc } :=
  { hs with known := Rpc.known_le_step hlaw.signal hinv.handsOut hs.known hsends h }

omit hlaw in
theorem Below.setFuzzer (hs : Below view b s) (name : String) {f : Fuzzer o}
    (hmax : view f.maxSignal ≤ b)
    (hprocs : ∀ proc raw prio diff, f.procs proc = .found raw prio diff → view diff ≤ b) :
    Below view b (s.setFuzzer name f) := by
  refine { hs with fuzzers := fun n g hg => ?_, procs := fun n g hg => ?_ }
  · rcases setFuzzer_cases hg with ⟨-, rfl⟩ | ⟨-, hold⟩
    · exact hmax
    · exact hs.fuzzers n g hold
  · rcases setFuzzer_cases hg with ⟨-, rfl⟩ | ⟨-, hold⟩
    · exact hprocs
    · exact hs.procs n g hold

omit hlaw in
theorem found_setProc {f : Fuzzer o} {proc : ℕ} {p : ProcState o}
    (h : ∀ proc raw prio diff, f.procs proc = .found raw prio diff → view diff ≤ b)
    (hp : ∀ raw prio diff, p = .found raw prio diff → view diff ≤ b) (q : ℕ) (raw : List ℕ)
    (prio : ℕ) (diff : o.Sig) (hq : (f.setProc proc p).procs q = .found raw prio diff) :
    view diff ≤ b := by
  by_cases hproc : q = proc
  · subst hproc
    exact hp raw prio diff (by simpa [Fuzzer.setProc] using hq)
  · exact h q raw prio diff (by simpa [Fuzzer.setProc, hproc] using hq)

/-- What a fuzzer does by itself brings in nothing but what it measures. -/
theorem act_below {f g : Fuzzer o} {name : String} {a : Action o} {known corpus : ℕ → WithBot ℕ}
    (hkept : Kept view known corpus name f) (hle : corpus ≤ known) (hknown : known ≤ b)
    (hmax : view f.maxSignal ≤ b)
    (hprocs : ∀ proc raw prio diff, f.procs proc = .found raw prio diff → view diff ≤ b)
    (hfound : ∀ r ∈ a.found, rawView r.1 r.2 ≤ b) (h : ActTo pkg name f a g) :
    view g.maxSignal ≤ b ∧
      ∀ proc raw prio diff, g.procs proc = .found raw prio diff → view diff ≤ b := by
  cases h with
  | old => exact ⟨hmax, hprocs⟩
  | @found proc raw prio =>
    refine ⟨hmax, found_setProc hprocs ?_⟩
    rintro _ _ _ ⟨⟩
    exact (view_diffRaw_le hlaw _ _ _).trans (hfound (raw, prio) (by simp [Action.found]))
  | @merge proc raw prio diff hproc =>
    refine ⟨?_, found_setProc hprocs fun _ _ _ hp => by cases hp⟩
    simp only [Fuzzer.setProc, Fuzzer.addNewSignal, hlaw.signal.view_merge]
    exact sup_le hmax (hprocs proc raw prio diff hproc)
  | send => exact ⟨hmax, found_setProc hprocs fun _ _ _ hp => by cases hp⟩
  | @addInput proc sig hproc =>
    obtain ⟨c, m, heq, -, hm⟩ := addInputToCorpus_spec hlaw f sig
    have hsig := hkept.procs proc
    rw [hproc] at hsig
    rw [heq]
    refine ⟨?_, found_setProc hprocs fun _ _ _ hp => by cases hp⟩
    exact hm.le.trans (sup_le hmax (hsig.trans hmax))
  | grab =>
    obtain ⟨n, heq, -⟩ := grabNewSignal_spec hlaw f
    rw [heq]
    exact ⟨hmax, hprocs⟩
  | @addMax r hpoll =>
    obtain ⟨m, heq, hm⟩ := addMaxSignal_spec hlaw f (o.signal.deserialize r.maxSignal)
    have hreturned := hkept.returned
    rw [hpoll] at hreturned
    rw [heq]
    exact ⟨hm.le.trans (sup_le hmax (hreturned.trans hknown)), hprocs⟩
  | @addOther inp inputs hpoll =>
    obtain ⟨c, m, heq, -, hm⟩ := addInputToCorpus_spec hlaw f (o.signal.deserialize inp.signal)
    have hinp := hkept.inputs inp (by simp [hpoll, PollState.inputs])
    rw [heq]
    exact ⟨hm.le.trans (sup_le hmax ((hinp.trans hle).trans hknown)), hprocs⟩
  | endPoll => exact ⟨hmax, hprocs⟩

omit hlaw in
/-- The calls of a process that ends. -/
theorem Below.exit (hs : Below view b s) {name : String} {f : Fuzzer o} (hinv : Inv view s)
    (hf : s.fuzzers name = some f) (late : List ℕ) (latePoll : Bool) :
    Below view b (s.exit name f late latePoll) := by
  have hkept := hinv.kept name f hf
  have hmax := hs.fuzzers name f hf
  refine ⟨hs.known, fun n g hg => hs.fuzzers n g (exit_cases hg),
    fun n g hg => hs.procs n g (exit_cases hg), fun a ha => ?_, fun a ha => ?_⟩
  · rcases mem_lateInputs_exit ha with hold | ⟨proc, sig, hproc⟩
    · exact hs.lateInputs a hold
    · have hcovered := hkept.procs proc
      rw [hproc] at hcovered
      exact hcovered.2.mono hmax
  · rcases mem_latePolls_exit ha with hold | hpoll
    · exact hs.latePolls a hold
    · have hgrabbed := hkept.grabbed
      rw [hpoll] at hgrabbed
      exact hgrabbed.trans hmax

theorem Below.step (hinv : Inv view s) (hs : Below view b s)
    (hfound : ∀ r ∈ e.found, rawView r.1 r.2 ≤ b) (h : step pkg s e = some t) :
    Below view b t := by
  cases step_cases h with
  | @manager _ r rpc hrpc hr =>
    refine hs.manager hlaw hinv (fun m hm => ?_) hrpc
    rw [hr.sends] at hm
    cases hm
  | @start conn c rpc hc hnew hrpc =>
    have hset := (hs.manager hlaw hinv (fun _ hm => by cases hm) hrpc).setFuzzer c.name
      (f := .start pkg) ((view_nilSignal hlaw).le.trans bot_le)
      (fun _ _ _ _ hproc => by cases hproc)
    exact ⟨hset.known, hset.fuzzers, hset.procs, hset.lateInputs, hset.latePolls⟩
  | @act name a f g hf hact =>
    obtain ⟨hmax, hprocs⟩ := act_below hlaw (hinv.kept name f hf) le_sup_right hs.known
      (hs.fuzzers name f hf) (hs.procs name f hf) hfound hact
    have hset := hs.setFuzzer name hmax hprocs
    exact ⟨hset.known, hset.fuzzers, hset.procs, hset.lateInputs, hset.latePolls⟩
  | @newInput name proc f sig inp rpc hf hproc haccept =>
    have hcovered := (hinv.kept name f hf).procs proc
    rw [hproc] at hcovered
    refine (hs.manager hlaw hinv ?_ haccept).setFuzzer name (hs.fuzzers name f hf) ?_
    · rintro _ ⟨⟩
      exact hcovered.2.mono (hs.fuzzers name f hf)
    · exact found_setProc (hs.procs name f hf) fun _ _ _ hp => by cases hp
  | @poll name seed f a r rpc hf hpoll hanswer =>
    have hgrabbed := (hinv.kept name f hf).grabbed
    rw [hpoll] at hgrabbed
    refine (hs.manager hlaw hinv ?_ hanswer.step.1).setFuzzer name (hs.fuzzers name f hf)
      (hs.procs name f hf)
    rintro _ ⟨⟩
    exact hgrabbed.trans (hs.fuzzers name f hf)
  | @exit name late latePoll f hf => exact hs.exit hinv hf late latePoll
  | @lateInput i a rpc ha haccept =>
    have hrpc := hs.manager hlaw hinv (by rintro _ ⟨⟩; exact hs.lateInputs a ha) haccept
    exact { hrpc with lateInputs := fun a ha => hs.lateInputs a (List.mem_of_mem_eraseIdx ha) }
  | @latePoll i seed a r rpc ha hanswer =>
    have hrpc := hs.manager hlaw hinv (by rintro _ ⟨⟩; exact hs.latePolls a ha) hanswer.step.1
    exact { hrpc with latePolls := fun a ha => hs.latePolls a (List.mem_of_mem_eraseIdx ha) }

omit hlaw in
/-- All that executions have measured. -/
def measured (s : State o) : ℕ → WithBot ℕ :=
  union (fun r : List ℕ × ℕ => rawView r.1 r.2) s.found

omit hlaw in
theorem rawView_le_measured {r : List ℕ × ℕ} (h : r ∈ s.found) :
    rawView r.1 r.2 ≤ measured s := by
  have hall := union_le_iff.mp (le_refl (measured s))
  exact hall r h

omit hlaw in
theorem found_step (h : step pkg s e = some t) : t.found = s.found ++ e.found := by
  cases step_cases h with
  | manager _ _ he => cases e <;> first | exact (List.append_nil _).symm | exact he.elim
  | act => rfl
  | start | newInput | poll | exit | lateInput | latePoll => exact (List.append_nil _).symm

theorem below_start (batchSize : ℕ) (candidates : List (Rpc.RPCCandidate o)) :
    Below view b (.start pkg batchSize candidates) where
  known := by
    have hnil := view_nilSignal hlaw
    simp [known, corpusView, State.start, Rpc.State.start, hnil]
  fuzzers _ _ hf := by cases hf
  procs _ _ hf := by cases hf
  lateInputs _ ha := absurd ha List.not_mem_nil
  latePolls _ ha := absurd ha List.not_mem_nil

/-- In every run, all signal of the manager and of the fuzzers comes from executions. -/
theorem nothing_invented (batchSize : ℕ) (candidates : List (Rpc.RPCCandidate o))
    (es : List (Event o)) :
    Always (step pkg) (fun s => known view s.rpc ≤ measured s ∧
        ∀ n f, s.fuzzers n = some f → view f.maxSignal ≤ measured s)
      (.start pkg batchSize candidates) es := by
  rw [always_iff]
  intro pre t _ ht
  have hbelow : Inv view t ∧ Below view (measured t) t := by
    refine runs_invariant (I := fun s => Inv view s ∧ Below view (measured s) s) ?_ ?_ ht
    · intro s e t hs h
      have hfound := found_step h
      have hle : measured s ≤ measured t := by
        rw [measured, measured, hfound]
        exact union_mono (List.subset_append_left _ _)
      refine ⟨hs.1.step hlaw h, (hs.2.mono hle).step hlaw hs.1 (fun r hr => ?_) h⟩
      exact rawView_le_measured (hfound ▸ List.mem_append_right _ hr)
    · exact ⟨inv_start batchSize candidates, below_start hlaw batchSize candidates⟩
  exact ⟨hbelow.2.known, hbelow.2.fuzzers⟩

/-! ## A fuzzer catches up -/

/-- In a phase of these events, nothing new comes to the manager for fuzzer `n`. -/
def Event.Quiet (n : String) : Event o → Prop
  | .poll name _ => name = n
  | .exit name .. => name ≠ n
  | .latePoll .. => False
  | _ => True

def Event.isPoll : Event o → Bool
  | .poll .. => true
  | _ => false

omit hlaw in
/-- All but `Connect` and `Poll` leave what the manager has for a fuzzer. -/
theorem newMaxSignal_eq {n : String} {r : Rpc.Event o} (h : Rpc.step rpc r = some rpc')
    (hr : FuzzerSignal.Quiet r ∨ ∃ a, r = .accept a) {g : Rpc.Fuzzer o}
    (hg : rpc.serv.fuzzers n = some g) :
    ∃ g', rpc'.serv.fuzzers n = some g' ∧ g'.newMaxSignal = g.newMaxSignal := by
  cases Rpc.step_cases h with
  | snapshot | accept | reject | candidates => exact ⟨g, hg, rfl⟩
  | @handOut a =>
    have hg' := congrArg (Option.map fun f : Rpc.Fuzzer o =>
      if f.name = a.name then f else { f with inputs := f.inputs ++ [a.sent] }) hg
    refine ⟨_, hg', ?_⟩
    dsimp only
    split <;> rfl
  | register | poll =>
    rcases hr with hquiet | ⟨a, ha⟩
    · exact hquiet.elim
    · cases ha

omit hlaw in
/-- `Connect` of another fuzzer leaves what the manager has for this one. -/
theorem fuzzers_register {n : String} {conn : ℕ} {c : Rpc.Conn o} (hc : rpc.conns conn = some c)
    (hn : n ≠ c.name) (h : Rpc.step rpc (.register conn) = some rpc') :
    rpc'.serv.fuzzers n = rpc.serv.fuzzers n := by
  cases Rpc.step_cases h with
  | register hfree hc' =>
    obtain rfl := Option.some.inj (hc.symm.trans hc')
    exact Function.update_of_ne hn _ _

variable (hfill : ∀ seed k s, pkg.len (o.signal.split seed k s).2 ≤ pkg.len s - k)

include hfill

omit hlaw in
/-- A step of the phase leaves what the manager has for the fuzzer, or takes 500 elements. -/
theorem drain_step {n : String} {f : Fuzzer o} {g : Rpc.Fuzzer o}
    (hcalled : ∀ a, f.poll = .calling a → a.name = n) (hf : s.fuzzers n = some f)
    (hg : s.rpc.serv.fuzzers n = some g) (he : e.Quiet n) (h : step pkg s e = some t) :
    ∃ f' g', t.fuzzers n = some f' ∧ t.rpc.serv.fuzzers n = some g' ∧
      pkg.len g'.newMaxSignal ≤ pkg.len g.newMaxSignal - if e.isPoll then 500 else 0 := by
  have hset (s : State o) (name : String) (f' : Fuzzer o) (hf : s.fuzzers n = some f) :
      ∃ f'', (s.setFuzzer name f').fuzzers n = some f'' := by
    by_cases hn : n = name
    · exact ⟨f', by simp [State.setFuzzer, hn]⟩
    · exact ⟨f, by simpa [State.setFuzzer, hn] using hf⟩
  cases step_cases h with
  | @manager _ r rpc hrpc hr he' =>
    obtain ⟨g', hg', heq⟩ := newMaxSignal_eq hrpc (.inl hr) hg
    refine ⟨f, g', hf, hg', ?_⟩
    have hpoll : e.isPoll = false := by cases e <;> first | rfl | exact he'.elim
    simp [heq, hpoll]
  | latePoll => exact he.elim
  | @start conn c rpc hc hnew hregister =>
    have hn : n ≠ c.name := by
      rintro rfl
      exact Option.some_ne_none f (hf.symm.trans hnew)
    refine ⟨f, g, ?_, (fuzzers_register hc hn hregister).trans hg, le_rfl⟩
    simpa [State.setFuzzer, hn] using hf
  | @act name a f₀ f₁ hf₀ hact =>
    obtain ⟨f', hf'⟩ := hset s name f₁ hf
    exact ⟨f', g, hf', hg, le_rfl⟩
  | @newInput name proc f₀ sig inp rpc hf₀ hproc haccept =>
    obtain ⟨f', hf'⟩ := hset { s with rpc } name (f₀.setProc proc (.sent sig)) hf
    obtain ⟨g', hg', heq⟩ := newMaxSignal_eq haccept (.inr ⟨_, rfl⟩) hg
    exact ⟨f', g', hf', hg', heq ▸ le_rfl⟩
  | @poll name seed f₀ a r rpc hf₀ hpoll hanswer =>
    obtain rfl : name = n := he
    obtain rfl := Option.some.inj (hf.symm.trans hf₀)
    obtain rfl := hcalled a hpoll
    obtain ⟨-, g₀, g', hp⟩ := hanswer.step
    obtain rfl := Option.some.inj (hg.symm.trans hp.before)
    refine ⟨_, g', Function.update_self _ _ _, hp.after, ?_⟩
    rw [hp.left]
    exact hfill seed 500 g.newMaxSignal
  | @exit name late latePoll f₀ hf₀ =>
    have hn : n ≠ name := Ne.symm he
    exact ⟨f, g, by simpa [State.exit, hn] using hf, hg, le_rfl⟩
  | @lateInput i a rpc ha haccept =>
    obtain ⟨g', hg', heq⟩ := newMaxSignal_eq haccept (.inr ⟨_, rfl⟩) hg
    exact ⟨f, g', hf, hg', heq ▸ le_rfl⟩

theorem drain_runs {n : String} {es : List (Event o)} (hinv : Inv view s)
    {f : Fuzzer o} {g : Rpc.Fuzzer o} (hf : s.fuzzers n = some f)
    (hg : s.rpc.serv.fuzzers n = some g) (hes : ∀ e ∈ es, e.Quiet n)
    (h : runs (step pkg) s es = some t) :
    ∃ f' g', t.fuzzers n = some f' ∧ t.rpc.serv.fuzzers n = some g' ∧
      pkg.len g'.newMaxSignal ≤ pkg.len g.newMaxSignal - 500 * es.countP Event.isPoll := by
  induction es generalizing s f g with
  | nil =>
    obtain rfl := Option.some.inj h
    exact ⟨f, g, hf, hg, le_rfl⟩
  | cons e es ih =>
    obtain ⟨u, hu, ht⟩ := Option.bind_eq_some_iff.mp h
    obtain ⟨he, hes⟩ := List.forall_mem_cons.mp hes
    obtain ⟨f₁, g₁, hf₁, hg₁, hle₁⟩ :=
      drain_step hfill (hinv.kept n f hf).called hf hg he hu
    obtain ⟨f', g', hf', hg', hle⟩ := ih (hinv.step hlaw hu) hf₁ hg₁ hes ht
    refine ⟨f', g', hf', hg', ?_⟩
    rw [List.countP_cons]
    cases hpoll : e.isPoll
    · simp only [hpoll, Bool.false_eq_true, if_false] at hle₁ ⊢
      omega
    · simp only [hpoll, if_true] at hle₁ ⊢
      omega

/-- Whatever a run has done, a fuzzer knows the manager's `maxSignal` once it has polled often
enough, 500 elements a time, while nothing else was reported. -/
theorem catches_up {batchSize : ℕ} {candidates : List (Rpc.RPCCandidate o)}
    {es phase : List (Event o)}
    (h : runs (step pkg) (.start pkg batchSize candidates) es = some s) {n : String}
    {f : Fuzzer o} {g : Rpc.Fuzzer o} (hf : s.fuzzers n = some f)
    (hg : s.rpc.serv.fuzzers n = some g) (hphase : ∀ e ∈ phase, e.Quiet n)
    (ht : runs (step pkg) s phase = some t)
    (henough : pkg.len g.newMaxSignal ≤ 500 * phase.countP Event.isPoll) :
    ∃ f', t.fuzzers n = some f' ∧ view t.rpc.serv.maxSignal ≤
      view f'.maxSignal ⊔ f'.poll.returned view ⊔ union view (t.lost n) := by
  obtain ⟨hinv, -⟩ := runs_told hlaw h
  obtain ⟨f', g', hf', hg', hle⟩ := drain_runs hlaw hfill hinv hf hg hphase ht
  have hrun : runs (step pkg) (.start pkg batchSize candidates) (es ++ phase) = some t := by
    rw [runs_append, h]
    exact ht
  obtain ⟨hinv', htold'⟩ := runs_told hlaw hrun
  have htold := hinv'.isTold htold' hf' g' hg'
  rw [view_len_eq_zero hlaw (s := g'.newMaxSignal) (by omega), sup_bot_eq] at htold
  exact ⟨f', hf', htold⟩

end

/-! ## A run -/

theorem listPrograms_rawLawful : RawLawful PrioMap.prio listPrograms where
  toLawful := listPrograms_lawful
  view_diffRaw _ _ _ _ := rfl

/-- A split takes as many elements as there are, up to `k`. -/
theorem listPrograms_fill (seed k : ℕ) (s : PrioMap) :
    listPrograms.len (prioMaps.split seed k s).2 ≤ listPrograms.len s - k := by
  set l := s.elems.dedup.filter fun e => s.prio e ≠ ⊥ with hl
  have hnodup : l.Nodup := s.elems.nodup_dedup.filter _
  have htaken : (s.taken seed k).Nodup := (List.nodup_rotate.mpr hnodup).sublist
    (List.take_sublist _ _)
  have hsub : s.taken seed k ⊆ l.filter (· ∈ s.taken seed k) := fun e he => by
    have hmem : e ∈ l := List.mem_rotate.mp (List.mem_of_mem_take he)
    simp [hmem, he]
  have hlen := (htaken.subperm hsub).length_le
  have hleft : listPrograms.len (prioMaps.split seed k s).2 =
      (l.filter fun e => !decide (e ∈ s.taken seed k)).length := by
    simp only [listPrograms, prioMaps, PrioMap.len, PrioMap.split, PrioMap.filter, hl,
      List.filter_filter]
    congr 2
    funext e
    by_cases he : e ∈ s.taken seed k <;> simp [he]
  have htotal := List.length_eq_length_filter_add (l := l) fun e => decide (e ∈ s.taken seed k)
  have hall : listPrograms.len s = l.length := rfl
  have hcount : (s.taken seed k).length = min k l.length := by
    rw [PrioMap.taken, List.length_take, List.length_rotate]
  omega

/-- Two procs of "vm-0" find the element 7 at the same time. The process ends while "vm-1" gets
its input. -/
def lostProcess : List (Event textPrograms) :=
  [.connect 0 "vm-0" false [], .start 0, .connect 1 "vm-1" false [], .start 1,
   .act "vm-0" (.execute 0 [7] 2), .act "vm-0" (.execute 1 [7, 8] 2),
   .act "vm-0" (.merge 0), .act "vm-0" (.grab true []), .poll "vm-0" 0, .act "vm-0" (.merge 1),
   .act "vm-0" (.send 0 1 "openat" "r0 = openat()" []), .newInput "vm-0" 0, .handOut,
   .act "vm-0" .addMax, .act "vm-0" .endPoll, .act "vm-0" (.grab true []),
   .exit "vm-0" [] true, .latePoll 0 0]

def vm1Polls : List (Event textPrograms) :=
  [.act "vm-1" (.grab true []), .poll "vm-1" 0, .act "vm-1" .addMax, .act "vm-1" .addOther,
   .act "vm-1" .endPoll]

theorem nothing_lost_lostProcess :
    (runs (step listPrograms) (.start listPrograms 5 []) lostProcess).isSome ∧
      Always (step listPrograms)
        (fun s => ∀ n f, s.fuzzers n = some f → NothingLost PrioMap.prio s n f)
        (.start listPrograms 5 []) lostProcess :=
  ⟨by decide +kernel, nothing_lost listPrograms_rawLawful 5 [] lostProcess⟩

theorem told_always_lostProcess :
    Always (step listPrograms) (fun s => ∀ n f, s.fuzzers n = some f → IsTold PrioMap.prio s n f)
      (.start listPrograms 5 []) (lostProcess ++ vm1Polls) :=
  told_always listPrograms_rawLawful 5 [] (lostProcess ++ vm1Polls)

theorem nothing_invented_lostProcess :
    Always (step listPrograms) (fun s => known PrioMap.prio s.rpc ≤ measured s ∧
        ∀ n f, s.fuzzers n = some f → PrioMap.prio f.maxSignal ≤ measured s)
      (.start listPrograms 5 []) (lostProcess ++ vm1Polls) :=
  nothing_invented listPrograms_rawLawful 5 [] (lostProcess ++ vm1Polls)

/-- The state behind the two polls of "vm-1". -/
def polled : State textPrograms :=
  (runs (step listPrograms) (.start listPrograms 5 []) (lostProcess ++ vm1Polls)).getD
    (.start listPrograms 5 [])

def ended : State textPrograms :=
  (runs (step listPrograms) (.start listPrograms 5 []) lostProcess).getD (.start listPrograms 5 [])

theorem runs_ended :
    runs (step listPrograms) (.start listPrograms 5 []) lostProcess = some ended := rfl

theorem runs_polled :
    runs (step listPrograms) (.start listPrograms 5 []) (lostProcess ++ vm1Polls) = some polled :=
  rfl

theorem at_rest_agree_polled : ∃ f, AtRest PrioMap.prio polled "vm-1" f ∧
    PrioMap.prio polled.rpc.serv.maxSignal 8 = ((2 : ℕ) : WithBot ℕ) ∧
    PrioMap.prio polled.rpc.serv.maxSignal ≤ PrioMap.prio f.maxSignal := by
  have hempty (s : PrioMap) (h : prioMaps.empty s = true) : PrioMap.prio s = ⊥ :=
    (prioMaps_lawful.empty_iff s).mp h
  have hrest : AtRest PrioMap.prio polled "vm-1" _ := {
    running := rfl
    poll := rfl
    newSignal := hempty _ (by decide +kernel)
    newMaxSignal := fun g hg => by
      obtain rfl := Option.some.inj hg
      exact hempty _ (by decide +kernel)
    lost := rfl }
  exact ⟨_, hrest, by decide +kernel, (at_rest_agree listPrograms_rawLawful runs_polled hrest).1⟩

theorem vm1Polls_quiet : ∀ e ∈ vm1Polls, e.Quiet "vm-1" := by
  simp [vm1Polls, Event.Quiet]

theorem catches_up_polled : ∃ f, polled.fuzzers "vm-1" = some f ∧
    PrioMap.prio polled.rpc.serv.maxSignal ≤ PrioMap.prio f.maxSignal ⊔
      f.poll.returned PrioMap.prio ⊔ union PrioMap.prio (polled.lost "vm-1") :=
  catches_up listPrograms_rawLawful listPrograms_fill runs_ended rfl rfl vm1Polls_quiet rfl
    (by decide +kernel)

end FuzzUSB.FuzzerSignal
