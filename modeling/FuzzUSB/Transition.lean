import Mathlib.Data.List.Induction
import Mathlib.Data.List.Infix

/-!
# Runs of partial transition functions

A system is a function `step : σ → ε → Option σ`: the state after an event, or
`none` when the event cannot happen in that state. All nondeterminism is in the
events, so a run is a list of events and can be evaluated.
-/

namespace FuzzUSB.Transition

variable {σ ε : Type*}

/-- The state after a list of events, if every one of them could happen. -/
def runs (step : σ → ε → Option σ) : σ → List ε → Option σ
  | s, [] => some s
  | s, e :: es => (step s e).bind fun t => runs step t es

/-- `P` holds in every state the run goes through, the first one included. -/
def Always (step : σ → ε → Option σ) (P : σ → Prop) : σ → List ε → Prop
  | s, [] => P s
  | s, e :: es => P s ∧ ∀ t, step s e = some t → Always step P t es

/-- `C` holds of every step the run takes: of the state before it and its event. -/
def AlwaysStep (step : σ → ε → Option σ) (C : σ → ε → Prop) : σ → List ε → Prop
  | _, [] => True
  | s, e :: es => ∀ t, step s e = some t → C s e ∧ AlwaysStep step C t es

variable {step : σ → ε → Option σ}

@[simp] theorem runs_nil (s : σ) : runs step s [] = some s := rfl

@[simp] theorem runs_cons (s : σ) (e : ε) (es : List ε) :
    runs step s (e :: es) = (step s e).bind fun t => runs step t es := rfl

theorem runs_append (s : σ) (es fs : List ε) :
    runs step s (es ++ fs) = (runs step s es).bind fun t => runs step t fs := by
  induction es generalizing s with
  | nil => rfl
  | cons e es ih =>
    simp only [List.cons_append, runs_cons, Option.bind_assoc]
    congr 1
    funext t
    exact ih t

theorem runs_concat (s : σ) (es : List ε) (e : ε) :
    runs step s (es ++ [e]) = (runs step s es).bind fun t => step t e := by
  rw [runs_append]
  congr 1
  funext t
  cases h : step t e <;> simp [h]

/-- An event that waits for `x` to be there no longer. -/
theorem ite_isSome_eq_some {α : Type*} {x : Option α} {next : Option σ} {t : σ} :
    (if x.isSome then none else next) = some t ↔ x = none ∧ next = some t := by
  rw [Option.ite_none_left_eq_some, Option.not_isSome_iff_eq_none]

/-! ## Histories -/

/-- A split of `ls ++ [l]` at a marked event is a split of `ls`, or marks `l`. -/
theorem concat_eq_split {ls pre suf : List ε} {l x : ε} :
    ls ++ [l] = pre ++ x :: suf ↔
      (∃ suf', suf = suf' ++ [l] ∧ ls = pre ++ x :: suf') ∨ (suf = [] ∧ pre = ls ∧ x = l) := by
  constructor
  · intro h
    -- The last element stands behind the mark, or is the mark.
    cases suf using List.reverseRecOn with
    | nil =>
      obtain ⟨rfl, h2⟩ := List.append_inj' h rfl
      exact .inr ⟨rfl, rfl, (List.cons.inj h2).1.symm⟩
    | append_singleton suf y =>
      rw [← List.cons_append, ← List.append_assoc] at h
      obtain ⟨rfl, h2⟩ := List.append_inj' h rfl
      exact .inl ⟨suf, by rw [(List.cons.inj h2).1], rfl⟩
  · rintro (⟨suf', rfl, rfl⟩ | ⟨rfl, rfl, rfl⟩) <;> simp

/-! ## Invariants -/

/-- The induction over runs: what every step preserves holds at the end. -/
theorem runs_invariant {I : σ → Prop} (hstep : ∀ s e t, I s → step s e = some t → I t)
    {s t : σ} {es : List ε} (hs : I s) (h : runs step s es = some t) : I t := by
  induction es generalizing s with
  | nil => exact Option.some.inj h ▸ hs
  | cons e es ih =>
    obtain ⟨u, hu, ht⟩ := Option.bind_eq_some_iff.mp h
    exact ih (hstep s e u hs hu) ht

/-- `Always` is a statement about the states reached by the prefixes of the run. -/
theorem always_iff {P : σ → Prop} {s : σ} {es : List ε} :
    Always step P s es ↔ ∀ pre t, pre <+: es → runs step s pre = some t → P t := by
  induction es generalizing s with
  | nil =>
    constructor
    · rintro h pre t hpre ht
      obtain rfl := List.prefix_nil.mp hpre
      exact Option.some.inj ht ▸ h
    · exact fun h => h [] s (List.prefix_refl _) rfl
  | cons e es ih =>
    constructor
    · rintro ⟨hs, h⟩ pre t hpre ht
      cases pre with
      | nil => exact Option.some.inj ht ▸ hs
      | cons e' pre =>
        obtain ⟨rfl, hpre'⟩ := List.cons_prefix_cons.mp hpre
        obtain ⟨u, hu, ht⟩ := Option.bind_eq_some_iff.mp ht
        exact ih.mp (h u hu) pre t hpre' ht
    · intro h
      refine ⟨h [] s (List.nil_prefix) rfl, fun u hu => ih.mpr fun pre t hpre ht => ?_⟩
      exact h (e :: pre) t (List.cons_prefix_cons.mpr ⟨rfl, hpre⟩) (by simp [hu, ht])

/-- `AlwaysStep` is a statement about the steps taken after the prefixes of the run. -/
theorem alwaysStep_iff {C : σ → ε → Prop} {s : σ} {es : List ε} :
    AlwaysStep step C s es ↔ ∀ pre e t u, pre ++ [e] <+: es →
      runs step s pre = some t → step t e = some u → C t e := by
  induction es generalizing s with
  | nil =>
    refine ⟨fun _ pre e t u hpre => ?_, fun _ => trivial⟩
    simp at hpre
  | cons e es ih =>
    constructor
    · intro h pre e' t u hpre ht hu
      cases pre with
      | nil =>
        obtain ⟨rfl, -⟩ := List.cons_prefix_cons.mp hpre
        obtain rfl := Option.some.inj ht
        exact (h u hu).1
      | cons e'' pre =>
        obtain ⟨rfl, hpre'⟩ := List.cons_prefix_cons.mp hpre
        obtain ⟨v, hv, ht⟩ := Option.bind_eq_some_iff.mp ht
        exact ih.mp (h v hv).2 pre e' t u hpre' ht hu
    · intro h v hv
      refine ⟨h [] e s v (by simp) rfl hv, ih.mpr fun pre e' t u hpre ht hu => ?_⟩
      refine h (e :: pre) e' t u (List.cons_prefix_cons.mpr ⟨rfl, hpre⟩) ?_ hu
      simp [hv, ht]

/-- A state property that each step carries over exactly when the step meets `C` holds
along a run exactly when every step of the run meets `C`. The invariant `J` needs no
condition and supplies what is known of every state. -/
theorem always_iff_alwaysStep {J P : σ → Prop} {C : σ → ε → Prop}
    (hJ : ∀ s e t, J s → step s e = some t → J t)
    (hP : ∀ s e t, J s → P s → step s e = some t → (P t ↔ C s e))
    {s : σ} {es : List ε} (hs : J s) (h0 : P s) :
    Always step P s es ↔ AlwaysStep step C s es := by
  induction es generalizing s with
  | nil => simp [Always, AlwaysStep, h0]
  | cons e es ih =>
    constructor
    · rintro ⟨-, h⟩ t ht
      -- `Always` on the tail says `P t`, whether or not the run ends there.
      have hPt : P t := by
        cases es with
        | nil => exact h t ht
        | cons _ _ => exact (h t ht).1
      exact ⟨(hP s e t hs h0 ht).mp hPt, (ih (hJ s e t hs ht) hPt).mp (h t ht)⟩
    · intro h
      refine ⟨h0, fun t ht => ?_⟩
      have hPt : P t := (hP s e t hs h0 ht).mpr (h t ht).1
      exact (ih (hJ s e t hs ht) hPt).mpr (h t ht).2

/-- A run by its first step. -/
theorem AlwaysStep.cons {C : σ → ε → Prop} {s t : σ} {e : ε} {es : List ε}
    (h : step s e = some t) (hC : C s e) (htail : AlwaysStep step C t es) :
    AlwaysStep step C s (e :: es) := by
  intro u hu
  obtain rfl := Option.some.inj (h.symm.trans hu)
  exact ⟨hC, htail⟩

/-- A condition that a step meets if it meets another one, from the states of an invariant. -/
theorem AlwaysStep.mono {J : σ → Prop} {C D : σ → ε → Prop}
    (hJ : ∀ s e t, J s → step s e = some t → J t)
    (hCD : ∀ s e t, J s → step s e = some t → C s e → D s e) {s : σ} {es : List ε} (hs : J s)
    (h : AlwaysStep step C s es) : AlwaysStep step D s es := by
  induction es generalizing s with
  | nil => trivial
  | cons e es ih =>
    intro t ht
    obtain ⟨hC, htail⟩ := h t ht
    exact ⟨hCD s e t hs ht hC, ih (hJ s e t hs ht) htail⟩

/-- Conditions that agree on every step from the states of an invariant agree on runs. -/
theorem alwaysStep_congr {J : σ → Prop} {C D : σ → ε → Prop}
    (hJ : ∀ s e t, J s → step s e = some t → J t)
    (hCD : ∀ s e t, J s → step s e = some t → (C s e ↔ D s e)) {s : σ} {es : List ε} (hs : J s) :
    AlwaysStep step C s es ↔ AlwaysStep step D s es :=
  ⟨AlwaysStep.mono hJ (fun s e t hs h => (hCD s e t hs h).mp) hs,
    AlwaysStep.mono hJ (fun s e t hs h => (hCD s e t hs h).mpr) hs⟩

/-- What holds in every state holds before every step. -/
theorem Always.alwaysStep {P : σ → Prop} {s : σ} {es : List ε} (h : Always step P s es) :
    AlwaysStep step (fun s _ => P s) s es := by
  induction es generalizing s with
  | nil => trivial
  | cons e es ih => exact fun t ht => ⟨h.1, ih (h.2 t ht)⟩

/-- A condition on the events alone. -/
theorem alwaysStep_iff_forall {C : ε → Prop} {s t : σ} {es : List ε}
    (h : runs step s es = some t) : AlwaysStep step (fun _ e => C e) s es ↔ ∀ e ∈ es, C e := by
  induction es generalizing s with
  | nil => simp [AlwaysStep]
  | cons e es ih =>
    obtain ⟨u, hu, ht⟩ := Option.bind_eq_some_iff.mp h
    simp only [AlwaysStep, hu, Option.some.injEq, forall_eq', ih ht, List.forall_mem_cons]

/-- A state property that every step keeps exactly when it meets `C`, and that none brings about,
holds at the end exactly when every step of the run meets `C`. -/
theorem last_iff_alwaysStep {J P : σ → Prop} {C : σ → ε → Prop}
    (hJ : ∀ s e t, J s → step s e = some t → J t)
    (hP : ∀ s e t, J s → step s e = some t → (P t ↔ P s ∧ C s e))
    {s t : σ} {es : List ε} (hs : J s) (h : runs step s es = some t) :
    P t ↔ P s ∧ AlwaysStep step C s es := by
  induction es generalizing s with
  | nil =>
    obtain rfl := Option.some.inj h
    exact (and_iff_left trivial).symm
  | cons e es ih =>
    obtain ⟨u, hu, hrun⟩ := Option.bind_eq_some_iff.mp h
    rw [ih (hJ s e u hs hu) hrun, hP s e u hs hu, and_assoc]
    refine and_congr_right fun _ => ⟨fun hstep v hv => ?_, fun hstep => hstep u hu⟩
    obtain rfl := Option.some.inj (hu.symm.trans hv)
    exact hstep

/-- Every state of a run is one before a step, or the last. -/
theorem always_iff_alwaysStep_last {P : σ → Prop} {s t : σ} {es : List ε}
    (h : runs step s es = some t) :
    Always step P s es ↔ AlwaysStep step (fun s _ => P s) s es ∧ P t := by
  induction es generalizing s with
  | nil =>
    obtain rfl := Option.some.inj h
    simp [Always, AlwaysStep]
  | cons e es ih =>
    obtain ⟨u, hu, ht⟩ := Option.bind_eq_some_iff.mp h
    simp only [Always, AlwaysStep, hu, Option.some.injEq, forall_eq', ih ht, and_assoc]

/-- The induction over runs for a property that steps keep under a condition. -/
theorem AlwaysStep.always {I : σ → Prop} {C : σ → ε → Prop}
    (hstep : ∀ s e t, I s → C s e → step s e = some t → I t) {s : σ} {es : List ε} (hs : I s)
    (h : AlwaysStep step C s es) : Always step I s es := by
  induction es generalizing s with
  | nil => exact hs
  | cons e es ih =>
    refine ⟨hs, fun t ht => ?_⟩
    obtain ⟨hC, htail⟩ := h t ht
    exact ih (hstep s e t hs hC ht) htail

theorem Always.mono {P Q : σ → Prop} (hPQ : ∀ s, P s → Q s) {s : σ} {es : List ε}
    (h : Always step P s es) : Always step Q s es := by
  induction es generalizing s with
  | nil => exact hPQ s h
  | cons e es ih => exact ⟨hPQ s h.1, fun t ht => ih (h.2 t ht)⟩

/-! ## Simulation -/

/-- The induction for two runs side by side: where the events of the one run meet `C`, the
other run takes every step along with it. -/
theorem runs_simulation {τ ι : Type*} {step' : τ → ε → Option τ} {R : σ → τ → Prop}
    {C : σ → ε → Prop} {f g : ι → ε}
    (hstep : ∀ s t i s', R s t → C s (f i) → step s (f i) = some s' →
      ∃ t', step' t (g i) = some t' ∧ R s' t')
    {s s' : σ} {t : τ} {is : List ι} (hR : R s t) (hC : AlwaysStep step C s (is.map f))
    (h : runs step s (is.map f) = some s') :
    ∃ t', runs step' t (is.map g) = some t' ∧ R s' t' := by
  induction is generalizing s t with
  | nil =>
    obtain rfl := Option.some.inj h
    exact ⟨t, rfl, hR⟩
  | cons i is ih =>
    obtain ⟨u, hu, hrun⟩ := Option.bind_eq_some_iff.mp h
    obtain ⟨hCi, hCs⟩ := hC u hu
    obtain ⟨v, hv, hRv⟩ := hstep s t i u hR hCi hu
    obtain ⟨t', ht', hR'⟩ := ih hRv hCs hrun
    exact ⟨t', by rw [List.map_cons, runs_cons, hv, Option.bind_some, ht'], hR'⟩

/-! ## Termination -/

/-- When every step makes a measure smaller, a run comes to a state without a step, whatever
the events are. -/
theorem runs_terminate {α : Type*} {r : α → α → Prop} (hwf : WellFounded r) (μ : σ → α)
    {I : σ → Prop} (hstep : ∀ s e t, I s → step s e = some t → I t)
    (hμ : ∀ s e t, I s → step s e = some t → r (μ t) (μ s)) {s : σ} (hs : I s) (es : ℕ → ε) :
    ∃ n t, runs step s ((List.range n).map es) = some t ∧ step t (es n) = none := by
  induction hm : μ s using hwf.induction generalizing s es with
  | _ m ih =>
    subst hm
    cases ht : step s (es 0) with
    | none => exact ⟨0, s, rfl, ht⟩
    | some t =>
      obtain ⟨n, u, hu, hnone⟩ :=
        ih _ (hμ s _ t hs ht) (hstep s _ t hs ht) (fun k => es (k + 1)) rfl
      refine ⟨n + 1, u, ?_, hnone⟩
      rw [List.range_succ_eq_map, List.map_cons, runs_cons, ht, List.map_map]
      exact hu

/-- When no step makes a natural number larger, it bounds how many steps make it smaller. -/
theorem runs_countP_le (μ : σ → ℕ) (C : ε → Bool) {I : σ → Prop}
    (hstep : ∀ s e t, I s → step s e = some t → I t)
    (hμ : ∀ s e t, I s → step s e = some t → (if C e then 1 else 0) + μ t ≤ μ s) {s t : σ}
    {es : List ε} (hs : I s) (h : runs step s es = some t) : es.countP C + μ t ≤ μ s := by
  induction es generalizing s with
  | nil =>
    obtain rfl := Option.some.inj h
    simp
  | cons e es ih =>
    obtain ⟨u, hu, ht⟩ := Option.bind_eq_some_iff.mp h
    have hrest := ih (hstep s e u hs hu) ht
    have hless := hμ s e u hs hu
    rw [List.countP_cons]
    omega

/-- When every step makes a natural number smaller, it bounds the length of a run. -/
theorem runs_length_le (μ : σ → ℕ) {I : σ → Prop} (hstep : ∀ s e t, I s → step s e = some t → I t)
    (hμ : ∀ s e t, I s → step s e = some t → μ t < μ s) {s t : σ} {es : List ε} (hs : I s)
    (h : runs step s es = some t) : es.length + μ t ≤ μ s := by
  have hcount := runs_countP_le μ (fun _ => true) hstep
    (fun s e t hs hst => by rw [if_pos rfl, Nat.add_comm]; exact hμ s e t hs hst) hs h
  rwa [List.countP_true] at hcount

end FuzzUSB.Transition
