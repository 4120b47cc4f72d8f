import Mathlib.Algebra.BigOperators.Group.List.Basic
import Mathlib.Algebra.Order.Group.Nat
import Mathlib.Algebra.Ring.Nat
import Mathlib.Tactic.Common

/-!
# Tilings of a range

Pieces with a start and a length tile a range of addresses when each starts where the one
before it ends. Then they are disjoint and cover the range.
-/

namespace FuzzUSB.Tiling

variable {α : Type*} (start len : α → ℕ)

/-- The pieces follow one another from `a` to `b`. -/
def Tiles : ℕ → ℕ → List α → Prop
  | a, b, [] => a = b
  | a, b, x :: l => start x = a ∧ Tiles (a + len x) b l

variable {start len} {a b : ℕ} {l : List α} {x : α}

@[simp] theorem tiles_nil : Tiles start len a b [] ↔ a = b := Iff.rfl

@[simp] theorem tiles_cons :
    Tiles start len a b (x :: l) ↔ start x = a ∧ Tiles start len (a + len x) b l := Iff.rfl

theorem Tiles.sum (h : Tiles start len a b l) : a + (l.map len).sum = b := by
  induction l generalizing a with
  | nil => exact h
  | cons x l ih =>
    rw [List.map_cons, List.sum_cons, ← Nat.add_assoc]
    exact ih h.2

theorem Tiles.le (h : Tiles start len a b l) : a ≤ b := h.sum ▸ Nat.le_add_right _ _

/-- A piece lies in the range. -/
theorem Tiles.inside (h : Tiles start len a b l) (hx : x ∈ l) :
    a ≤ start x ∧ start x + len x ≤ b := by
  induction l generalizing a with
  | nil => cases hx
  | cons y l ih =>
    obtain ⟨rfl, htail⟩ := h
    rcases List.mem_cons.mp hx with rfl | hx
    · exact ⟨Nat.le_refl _, htail.le⟩
    · have hin := ih htail hx
      exact ⟨by omega, hin.2⟩

/-- A piece ends before the later ones start. -/
theorem Tiles.pairwise (h : Tiles start len a b l) :
    l.Pairwise fun x y => start x + len x ≤ start y := by
  induction l generalizing a with
  | nil => exact .nil
  | cons x l ih =>
    obtain ⟨rfl, htail⟩ := h
    exact .cons (fun y hy => (htail.inside hy).1) (ih htail)

/-- A piece ends where the next one starts. -/
theorem Tiles.isChain (h : Tiles start len a b l) :
    l.IsChain fun x y => start y = start x + len x := by
  induction l generalizing a with
  | nil => exact .nil
  | cons x l ih =>
    obtain ⟨rfl, htail⟩ := h
    cases l with
    | nil => exact .singleton x
    | cons y l => exact .cons_cons htail.1 (ih htail)

/-- The range has the addresses of the pieces. -/
theorem Tiles.cover (h : Tiles start len a b l) (i : ℕ) :
    (a ≤ i ∧ i < b) ↔ ∃ x ∈ l, start x ≤ i ∧ i < start x + len x := by
  induction l generalizing a with
  | nil =>
    obtain rfl : a = b := h
    simp
  | cons x l ih =>
    obtain ⟨rfl, htail⟩ := h
    have hle := htail.le
    rw [List.exists_mem_cons_iff, ← ih htail]
    omega

end FuzzUSB.Tiling
