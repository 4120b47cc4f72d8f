import Mathlib.Data.List.Nodup
import Mathlib.Data.List.Range
import Mathlib.Data.Option.Basic
import Mathlib.Logic.Function.Basic

/-!
# Loops over the elements of an array

A loop whose turn `i` changes element `i` only. A turn may be impossible (`none`), and the turns
of `forLoop` have a status, at the first of which that is not zero the loop stops.
-/

namespace FuzzUSB.ArrayLoops

variable {α : Type*}

/-- The turns for the indices of a list. -/
def forEach (f : ℕ → α → Option α) (is : List ℕ) (s : ℕ → α) : Option (ℕ → α) :=
  is.foldlM (fun s i => (f i (s i)).map (Function.update s i)) s

/-- The turns from `i` on, `todo` of them at most. -/
def forLoop (f : ℕ → α → Option (ℕ × α)) : ℕ → ℕ → (ℕ → α) → Option (Option (ℕ × ℕ) × (ℕ → α))
  | 0, _, s => some (none, s)
  | todo + 1, i, s =>
    (f i (s i)).bind fun r =>
      if r.1 ≠ 0 then some (some (i, r.1), Function.update s i r.2)
      else forLoop f todo (i + 1) (Function.update s i r.2)

variable {f : ℕ → α → Option α} {g : ℕ → α → Option (ℕ × α)} {s t : ℕ → α} {e : ℕ → ℕ}

theorem forEach_nil : forEach f [] s = some s := rfl

theorem forEach_cons (i : ℕ) (is : List ℕ) :
    forEach f (i :: is) s = (f i (s i)).bind fun x => forEach f is (Function.update s i x) := by
  simp only [forEach, List.foldlM_cons]
  cases f i (s i) <;> rfl

/-- When every turn is possible, each element is what its own turn makes of it. -/
theorem forEach_eq_some {is : List ℕ} (hnodup : is.Nodup) (h : ∀ i ∈ is, f i (s i) = some (t i)) :
    forEach f is s = some fun j => if j ∈ is then t j else s j := by
  induction is generalizing s with
  | nil => simp [forEach_nil]
  | cons i is ih =>
    obtain ⟨hi, hnodup⟩ := List.nodup_cons.mp hnodup
    have hrest : ∀ j ∈ is, f j (Function.update s i (t i) j) = some (t j) := by
      intro j hj
      rw [Function.update_of_ne (ne_of_mem_of_not_mem hj hi)]
      exact h j (List.mem_cons_of_mem i hj)
    rw [forEach_cons, h i List.mem_cons_self, Option.bind_some, ih hnodup hrest, Option.some.injEq]
    funext j
    by_cases hj : j ∈ is
    · rw [if_pos hj, if_pos (List.mem_cons_of_mem i hj)]
    · rw [if_neg hj]
      by_cases hji : j = i
      · subst hji
        rw [if_pos List.mem_cons_self, Function.update_self]
      · rw [Function.update_of_ne hji, if_neg (by simp [hji, hj])]

/-- A turn that is not possible for an element as it is. -/
theorem forEach_eq_none {is : List ℕ} (hnodup : is.Nodup) {i : ℕ} (hi : i ∈ is)
    (h : f i (s i) = none) : forEach f is s = none := by
  induction is generalizing s with
  | nil => cases hi
  | cons k is ih =>
    obtain ⟨hk, hnodup⟩ := List.nodup_cons.mp hnodup
    rw [forEach_cons]
    rcases List.mem_cons.mp hi with rfl | hi
    · rw [h, Option.bind_none]
    · cases hfk : f k (s k) with
      | none => rfl
      | some x =>
        refine ih hnodup hi ?_
        rwa [Function.update_of_ne (ne_of_mem_of_not_mem hi hk)]

/-- The loop goes to its end, or stops at the first turn whose status is not zero. -/
theorem forLoop_cases {todo i : ℕ}
    (h : ∀ j, i ≤ j → j < i + todo → g j (s j) = some (e j, t j)) :
    ((∀ j, i ≤ j → j < i + todo → e j = 0) ∧
        forLoop g todo i s = some (none, fun j => if i ≤ j ∧ j < i + todo then t j else s j)) ∨
      ∃ k, i ≤ k ∧ k < i + todo ∧ e k ≠ 0 ∧ (∀ j, i ≤ j → j < k → e j = 0) ∧
        forLoop g todo i s =
          some (some (k, e k), fun j => if i ≤ j ∧ j ≤ k then t j else s j) := by
  induction todo generalizing i s with
  | zero =>
    refine .inl ⟨fun j hle hlt => by omega, ?_⟩
    rw [forLoop, Option.some.injEq, Prod.mk.injEq]
    refine ⟨rfl, funext fun j => (if_neg (by omega)).symm⟩
  | succ todo ih =>
    have hself := h i (by omega) (by omega)
    rw [forLoop, hself, Option.bind_some]
    by_cases he : e i = 0
    · have hrest : ∀ j, i + 1 ≤ j → j < i + 1 + todo →
          g j (Function.update s i (t i) j) = some (e j, t j) := by
        intro j hle hlt
        rw [Function.update_of_ne (by omega)]
        exact h j (by omega) (by omega)
      have hupdate (m j : ℕ) (hm : i < m) :
          (if i + 1 ≤ j ∧ j < m then t j else Function.update s i (t i) j) =
            if i ≤ j ∧ j < m then t j else s j := by
        by_cases hj : j = i
        · subst hj
          rw [if_neg (by omega), if_pos (by omega), Function.update_self]
        · rw [Function.update_of_ne hj]
          exact if_congr (by omega) rfl rfl
      rw [if_neg (not_not.mpr he)]
      rcases ih hrest with ⟨hall, heq⟩ | ⟨k, hle, hlt, hek, hbefore, heq⟩
      · refine .inl ⟨fun j hle hlt => ?_, ?_⟩
        · by_cases hj : j = i
          · rwa [hj]
          · exact hall j (by omega) (by omega)
        · rw [heq, Option.some.injEq, Prod.mk.injEq]
          refine ⟨rfl, funext fun j => ?_⟩
          rw [hupdate _ j (by omega)]
          exact if_congr (by omega) rfl rfl
      · refine .inr ⟨k, by omega, by omega, hek, fun j hle' hlt' => ?_, ?_⟩
        · by_cases hj : j = i
          · rwa [hj]
          · exact hbefore j (by omega) hlt'
        · rw [heq, Option.some.injEq, Prod.mk.injEq]
          refine ⟨rfl, funext fun j => ?_⟩
          have hj := hupdate (k + 1) j (by omega)
          simpa only [Nat.lt_succ_iff] using hj
    · refine .inr ⟨i, le_rfl, by omega, he, fun j hle hlt => by omega, ?_⟩
      rw [if_pos he, Option.some.injEq, Prod.mk.injEq]
      refine ⟨rfl, funext fun j => ?_⟩
      by_cases hj : j = i
      · subst hj
        rw [Function.update_self, if_pos ⟨le_rfl, le_rfl⟩]
      · rw [Function.update_of_ne hj, if_neg (by omega)]

/-! ## Properties of the elements -/

/-- Every turn is possible and brings about `Q`. -/
theorem forEach_of {Q : ℕ → α → Prop} {is : List ℕ} (hnodup : is.Nodup)
    (h : ∀ i ∈ is, ∃ y, f i (s i) = some y ∧ Q i y) :
    ∃ s', forEach f is s = some s' ∧ (∀ i ∈ is, Q i (s' i)) ∧ ∀ i ∉ is, s' i = s i := by
  have hne : Nonempty α := ⟨s 0⟩
  choose! y hy hQ using h
  refine ⟨_, forEach_eq_some hnodup hy, fun i hi => ?_, fun i hi => if_neg hi⟩
  rw [if_pos hi]
  exact hQ i hi

/-- Where the turns are possible, the loop goes through with status zero, or up to a turn with
another. -/
theorem forLoop_of {n : ℕ} (h : ∀ i < n, ∃ r, g i (s i) = some r) :
    (∃ s', forLoop g n 0 s = some (none, s') ∧ (∀ i < n, g i (s i) = some (0, s' i)) ∧
        ∀ i, n ≤ i → s' i = s i) ∨
      ∃ k e s', k < n ∧ e ≠ 0 ∧ forLoop g n 0 s = some (some (k, e), s') ∧
        (∀ i < k, g i (s i) = some (0, s' i)) ∧ g k (s k) = some (e, s' k) ∧
        ∀ i, k < i → s' i = s i := by
  have hne : Nonempty (ℕ × α) := ⟨(0, s 0)⟩
  choose! r hr using h
  have hturn : ∀ j, 0 ≤ j → j < 0 + n → g j (s j) = some ((r j).1, (r j).2) :=
    fun j _ hj => hr j (by omega)
  rcases forLoop_cases hturn with ⟨hzero, heq⟩ | ⟨k, -, hk, hek, hzero, heq⟩
  · refine .inl ⟨_, heq, fun i hi => ?_, fun i hi => if_neg (by omega)⟩
    rw [if_pos (by omega), hr i hi, ← hzero i (by omega) (by omega)]
  · refine .inr ⟨k, _, _, by omega, hek, heq, fun i hi => ?_, ?_, fun i hi => if_neg (by omega)⟩
    · rw [if_pos (by omega), hr i (by omega), ← hzero i (by omega) hi]
    · rw [if_pos (by omega)]
      exact hr k (by omega)

end FuzzUSB.ArrayLoops
