import Mathlib.Data.List.Perm.Basic

/-!
# Objects that are created and released

Objects are numbered in the order of their creation. A ledger counts them and lists the
releases; a program holds what it has created and not released.
-/

namespace FuzzUSB

structure Ledger where
  created : ℕ
  released : List ℕ

namespace Ledger

/-- The ledger after one more object, which has the number `created`. -/
def create (l : Ledger) : Ledger := { l with created := l.created + 1 }

def release (l : Ledger) (object : ℕ) : Ledger := { l with released := object :: l.released }

/-- Every object has been released once, but for those in `live`, which have not. -/
def Holds (l : Ledger) (live : List ℕ) : Prop :=
  (live ++ l.released).Perm (List.range l.created)

/-- Every object that was created has been released exactly once, and nothing else has. -/
def Balanced (l : Ledger) : Prop :=
  (∀ o < l.created, l.released.count o = 1) ∧ ∀ o ∈ l.released, o < l.created

instance (l : Ledger) : Decidable l.Balanced := inferInstanceAs (Decidable (_ ∧ _))

variable {l : Ledger} {live : List ℕ} {o : ℕ}

theorem Holds.create (h : l.Holds live) : l.create.Holds (l.created :: live) := by
  have hrange : (List.range (l.created + 1)).Perm (l.created :: List.range l.created) := by
    rw [List.range_succ]
    exact List.perm_append_singleton _ _
  exact (h.cons l.created).trans hrange.symm

/-- An object that is held is released. -/
theorem Holds.release (h : l.Holds (o :: live)) : (l.release o).Holds live :=
  List.perm_middle.trans h

theorem Holds.perm {live' : List ℕ} (h : l.Holds live) (hp : live'.Perm live) : l.Holds live' :=
  (hp.append_right _).trans h

theorem holds_nil_iff : l.Holds [] ↔ l.Balanced := by
  constructor
  · intro h
    refine ⟨fun o ho => ?_, fun o ho => List.mem_range.mp (h.subset ho)⟩
    have hcount := h.count_eq o
    rw [List.nil_append, List.count_range, if_pos ho] at hcount
    exact hcount
  · rintro ⟨hone, hlt⟩
    rw [Holds, List.nil_append, List.perm_iff_count]
    intro o
    rw [List.count_range]
    by_cases ho : o < l.created
    · rw [if_pos ho, hone o ho]
    · rw [if_neg ho, List.count_eq_zero_of_not_mem fun hmem => ho (hlt o hmem)]

/-- What is held decides whether the ledger is balanced. -/
theorem Holds.balanced_iff (h : l.Holds live) : l.Balanced ↔ live = [] := by
  constructor
  · intro hbal
    have hlen := h.length_eq.trans (holds_nil_iff.mpr hbal).length_eq.symm
    simp only [List.length_append, List.length_nil] at hlen
    exact List.length_eq_zero_iff.mp (by omega)
  · rintro rfl
    exact holds_nil_iff.mp h

end Ledger

end FuzzUSB
