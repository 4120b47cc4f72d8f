import FuzzUSB.RpcServer

/-!
# The inputs of the fuzzers

A fuzzer gets the snapshot of its `Connect` and what other fuzzers submit once it is
registered. What they submit between the two halves of its `Connect` it never gets.
-/

namespace FuzzUSB.Rpc
open Transition Signal

variable {o : Outside}

/-- The input that a `NewInput` is handing out, if fuzzer `n` is to have it. -/
def State.handing (s : State o) (n : String) : List (RPCInput o) :=
  match s.newInput with
  | some (a, _) => if n = a.name then [] else [a.sent]
  | none => []

/-- Fuzzer `f`, registered as `n`, has in its pending inputs, once each, what its snapshot had
and what others have submitted since, and what polls have returned is the rest. -/
def HasInputs (s : State o) (n : String) (f : Fuzzer o) : Prop :=
  (f.inputs ++ s.handing n ++ (s.ledger n).delivered).Perm
    ((s.ledger n).snapshot ++ (s.ledger n).since)

/-- No registered fuzzer misses an input, or has one twice. -/
def NoneMissed (s : State o) : Prop := ∀ n f, s.serv.fuzzers n = some f → HasInputs s n f

/-- If the step registers a fuzzer, no other fuzzer's input was accepted since its snapshot. -/
def RegistersUpToDate (s : State o) : Event o → Prop
  | .register conn => ∀ c, s.conns conn = some c → c.since = []
  | _ => True

variable {s t : State o} {e : Event o}

theorem handing_of_free (h : s.newInput = none) (n : String) : s.handing n = [] := by
  simp [State.handing, h]

/-- An accepted input is on its way to every fuzzer that counts it. -/
theorem HasInputs.accept {a : NewInputArgs o} {n : String} {f : Fuzzer o} (hs : HasInputs s n f)
    (hfree : s.newInput = none) : HasInputs (s.accept a) n f := by
  unfold HasInputs at hs ⊢
  rw [handing_of_free hfree, List.append_nil] at hs
  by_cases hn : n = a.name
  · simpa [State.accept, State.handing, hn] using hn ▸ hs
  · have hadd := (hs.append_right [a.sent])
    simp only [State.accept, State.handing, hn, if_false]
    rw [← List.append_assoc (s.ledger n).snapshot]
    apply List.Perm.trans _ hadd
    rw [List.append_assoc, List.append_assoc]
    exact List.perm_append_comm.append_left f.inputs

/-- Behind a registration, a fuzzer misses what came since its snapshot. -/
theorem hasInputs_register_iff (conn : ℕ) (c : Conn o) (f : Fuzzer o)
    (hfree : s.newInput = none) (hf : (s.register conn c).serv.fuzzers c.name = some f) :
    HasInputs (s.register conn c) c.name f ↔ c.since = [] := by
  have hinputs : f.inputs = c.corpus := by
    simp only [State.register, RPCServer.register, Function.update_self, Option.some.injEq] at hf
    rw [← hf]
  have hfree' : (s.register conn c).newInput = none := hfree
  rw [HasInputs, handing_of_free hfree', hinputs]
  simp only [State.register, Function.update_self, List.append_nil]
  constructor
  · intro hperm
    have hlen := hperm.length_eq
    rw [List.length_append] at hlen
    exact List.length_eq_zero_iff.mp (by omega)
  · intro hsince
    rw [hsince, List.append_nil]

/-- What `NewInput` hands out becomes pending. -/
theorem HasInputs.handOut {a : NewInputArgs o} {sig : o.Sig} {n : String} {f g : Fuzzer o}
    (hs : HasInputs s n f) (hnew : s.newInput = some (a, sig)) (hname : f.name = n)
    (hg : g = if f.name = a.name then f else { f with inputs := f.inputs ++ [a.sent] }) :
    HasInputs { s with serv := s.serv.handOut a sig, newInput := none } n g := by
  subst hg
  simp only [HasInputs, State.handing, hnew, hname] at hs ⊢
  by_cases hn : n = a.name
  · simpa [hn] using hs
  · simpa [hn] using hs

/-- What a poll returns is no longer pending. -/
theorem HasInputs.poll {a : PollArgs o} {r : PollRes o} {serv : RPCServer o} {mgr : Manager o}
    {seed : ℕ} {f g : Fuzzer o} (hs : HasInputs s a.name f) (hfree : s.newInput = none)
    (hp : Polled s.serv serv a r seed f g) : HasInputs (s.answered a r serv mgr) a.name g := by
  have hfree' : (s.answered a r serv mgr).newInput = none := hfree
  unfold HasInputs at hs ⊢
  rw [handing_of_free hfree, List.append_nil] at hs
  rw [handing_of_free hfree', List.append_nil]
  simp only [State.answered, Function.update_self]
  have hswap : (g.inputs ++ ((s.ledger a.name).delivered ++ r.newInputs)).Perm
      (g.inputs ++ r.newInputs ++ (s.ledger a.name).delivered) := by
    rw [List.append_assoc]
    exact List.perm_append_comm.append_left _
  exact hswap.trans ((hp.inputs.append_right _).trans hs)

theorem noneMissed_step (hnamed : Named s) (hs : NoneMissed s) (h : step s e = some t) :
    NoneMissed t ↔ RegistersUpToDate s e := by
  cases step_cases h with
  | snapshot | reject | candidates => exact iff_of_true hs trivial
  | accept hfree => exact iff_of_true (fun n f hf => (hs n f hf).accept hfree) trivial
  | @register conn c hfree hc =>
    have hreg : (s.register conn c).serv.fuzzers c.name = some _ := Function.update_self _ _ _
    constructor
    · intro ht c' hc'
      obtain rfl := Option.some.inj (hc.symm.trans hc')
      exact (hasInputs_register_iff conn c _ hfree hreg).mp (ht c.name _ hreg)
    · intro hup n f hf
      by_cases hn : n = c.name
      · subst hn
        exact (hasInputs_register_iff conn c f hfree hf).mpr (hup c hc)
      · simp only [State.register, RPCServer.register, Function.update_of_ne hn] at hf
        simpa [HasInputs, State.register, hn, State.handing] using hs n f hf
  | @handOut a sig hnew =>
    apply iff_of_true _ trivial
    intro n f hf
    obtain ⟨g, hg, rfl⟩ := Option.map_eq_some_iff.mp hf
    exact (hs n g hg).handOut hnew (hnamed n g hg) rfl
  | @poll a seed r serv mgr hfree hpoll =>
    apply iff_of_true _ trivial
    intro n f hf
    obtain ⟨f', g, hp⟩ := poll_spec hpoll
    by_cases hn : n = a.name
    · subst hn
      obtain rfl := Option.some.inj (hp.after.symm.trans hf)
      exact (hs _ f' hp.before).poll hfree hp
    · obtain ⟨f₀, hf₀, -, hinputs⟩ := report_fuzzers ((hp.others n hn).symm.trans hf)
      have h₀ := hs n f₀ hf₀
      unfold HasInputs at h₀ ⊢
      rw [hinputs]
      simpa [State.answered, hn, State.handing] using h₀

/-- In every run, no fuzzer misses an input exactly if every registration is up to date. -/
theorem noneMissed_iff (batchSize : ℕ) (maxSignal corpusSignal : o.Sig) (corpusCover : o.Cover)
    (mgr : Manager o) (es : List (Event o)) :
    Always step NoneMissed (.start batchSize maxSignal corpusSignal corpusCover mgr) es ↔
      AlwaysStep step RegistersUpToDate
        (.start batchSize maxSignal corpusSignal corpusCover mgr) es := by
  apply always_iff_alwaysStep (J := Named)
  · exact fun s e t hs h => hs.step h
  · exact fun s e t hs h => noneMissed_step hs h
  · exact fun n f hf => by cases hf
  · exact fun n f hf => by cases hf

/-! ## An input between the halves of `Connect` -/

/-- Programs are texts that stand for their own hashes, and signals are maps. -/
def textPrograms : Outside where
  Sig := PrioMap
  Serial := PrioMap
  Prog := String
  Hash := String
  Cover := List ℕ
  decHash := inferInstance
  signal := prioMaps
  parses _ := true
  hash := id
  noCover := []
  mergeCover c raw := (c ++ raw).dedup
  serializeCover := id

/-- One element of priority 0. -/
def oneSignal (elem : ℕ) : PrioMap where
  elems := [elem]
  prio e := if e = elem then WithBot.some 0 else ⊥
  supported e he := by simpa using he

def noSignal : PrioMap := ⟨[], fun _ => ⊥, fun _ _ => rfl⟩

/-- "vm-1" submits an input while "vm-0" connects. -/
def lateRegistration : List (Event textPrograms) :=
  [.snapshot 0 "vm-1" false [], .register 0, .snapshot 1 "vm-0" false [],
   .accept ⟨"vm-1", "openat", "r0 = openat()", oneSignal 7, [1, 2]⟩, .handOut, .register 1]

theorem lateRegistration_misses :
    ¬Always step NoneMissed (.start (o := textPrograms) 5 noSignal noSignal [] ⟨[], []⟩)
      lateRegistration := by
  intro h
  have hlast := always_iff.mp h lateRegistration _ (List.prefix_refl _) rfl
  have hperm := hlast "vm-0" _ rfl
  exact absurd hperm.length_eq (by decide)

end FuzzUSB.Rpc
