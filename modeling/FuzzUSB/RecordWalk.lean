import Mathlib.Algebra.BigOperators.Group.List.Basic
import Mathlib.Algebra.Ring.Nat
import Mathlib.Data.List.Basic

/-!
# Records one behind the other

A buffer holds records, each with its length in its head. A walk goes from one record to the next
by that length, for a number of records at most, and ends where no head fits any more.
-/

namespace FuzzUSB.RecordWalk

variable {α : Type*}

/-- Where record `k` begins, counted from a first one at `pos`. -/
def position (len : ℕ → ℕ) (pos : ℕ) : ℕ → ℕ
  | 0 => pos
  | k + 1 => position len (pos + len pos) k

/-- All records of the walk are good. -/
def walk (len : ℕ → ℕ) (good : ℕ → Bool) (head total : ℕ) : ℕ → ℕ → Bool
  | 0, _ => true
  | todo + 1, pos =>
    if total < pos + head then true
    else good pos && walk len good head total todo (pos + len pos)

variable {len : ℕ → ℕ} {good : ℕ → Bool} {head total pos todo : ℕ}

theorem le_position (len : ℕ → ℕ) (pos k : ℕ) : pos ≤ position len pos k := by
  induction k generalizing pos with
  | zero => exact le_rfl
  | succ k ih =>
    have h := ih (pos + len pos)
    rw [position]
    omega

theorem position_succ (len : ℕ → ℕ) (pos k : ℕ) :
    position len pos (k + 1) = position len pos k + len (position len pos k) := by
  induction k generalizing pos with
  | zero => rfl
  | succ k ih => exact ih (pos + len pos)

theorem walk_eq_true_iff : walk len good head total todo pos = true ↔
    ∀ k < todo, position len pos k + head ≤ total → good (position len pos k) = true := by
  induction todo generalizing pos with
  | zero => simp [walk]
  | succ todo ih =>
    rw [walk]
    by_cases hend : total < pos + head
    · rw [if_pos hend]
      refine iff_of_true rfl fun k _ hk => ?_
      have hle := le_position len pos k
      omega
    · rw [if_neg hend, Bool.and_eq_true, ih]
      constructor
      · rintro ⟨hgood, hrest⟩ k hk hfit
        cases k with
        | zero => exact hgood
        | succ k => exact hrest k (by omega) hfit
      · intro h
        exact ⟨h 0 (by omega) (by rw [position]; omega),
          fun k hk hfit => h (k + 1) (by omega) hfit⟩

/-- The walk looks at positions only where a head fits. -/
theorem walk_congr {len' : ℕ → ℕ} {good' : ℕ → Bool}
    (hlen : ∀ p, p + head ≤ total → len p = len' p)
    (hgood : ∀ p, p + head ≤ total → good p = good' p) :
    walk len good head total todo pos = walk len' good' head total todo pos := by
  induction todo generalizing pos with
  | zero => rfl
  | succ todo ih =>
    rw [walk, walk]
    by_cases hend : total < pos + head
    · rw [if_pos hend, if_pos hend]
    · have hfit : pos + head ≤ total := Nat.le_of_not_lt hend
      rw [if_neg hend, if_neg hend, hlen pos hfit, hgood pos hfit, ih]

/-! ## A list of records -/

/-- Where record `k` of a list begins. -/
def start (records : List (List α)) (pos k : ℕ) : ℕ := pos + ((records.take k).map List.length).sum

theorem start_succ {records : List (List α)} {pos k : ℕ} {r : List α}
    (h : records[k]? = some r) : start records pos (k + 1) = start records pos k + r.length := by
  obtain ⟨hk, rfl⟩ := List.getElem?_eq_some_iff.mp h
  unfold start
  rw [List.take_succ_eq_append_getElem hk, List.map_append, List.sum_append, List.map_singleton,
    List.sum_singleton, Nat.add_assoc]

/-- A record lies in the whole at its start. -/
theorem getElem?_flatten {records : List (List α)} {k j : ℕ} {r : List α}
    (h : records[k]? = some r) (hj : j < r.length) :
    records.flatten[start records 0 k + j]? = r[j]? := by
  induction records generalizing k with
  | nil => simp at h
  | cons r' records ih =>
    cases k with
    | zero =>
      obtain rfl := Option.some.inj h
      simp only [start, List.take_zero, List.map_nil, List.sum_nil, Nat.zero_add, List.flatten_cons]
      exact List.getElem?_append_left hj
    | succ k =>
      have hpos : start (r' :: records) 0 (k + 1) + j = r'.length + (start records 0 k + j) := by
        simp only [start, List.take_succ_cons, List.map_cons, List.sum_cons]
        omega
      rw [hpos, List.flatten_cons, List.getElem?_append_right (by omega), Nat.add_sub_cancel_left]
      exact ih h

theorem start_add_le {records : List (List α)} {k : ℕ} {r : List α} (h : records[k]? = some r) :
    start records 0 k + r.length ≤ records.flatten.length := by
  induction records generalizing k with
  | nil => simp at h
  | cons r' records ih =>
    cases k with
    | zero =>
      obtain rfl := Option.some.inj h
      simp [start]
    | succ k =>
      have hrest := ih h
      simp only [start, List.take_succ_cons, List.map_cons, List.sum_cons, List.flatten_cons,
        List.length_append] at hrest ⊢
      omega

theorem start_eq_add (records : List (List α)) (pos k : ℕ) :
    start records pos k = pos + start records 0 k := by
  simp [start]

/-- The walk finds the records of the list, up to where a head does not fit. -/
theorem position_eq_start {records : List (List α)} {k : ℕ}
    (hlen : ∀ j r, records[j]? = some r → start records pos j + head ≤ total →
      len (start records pos j) = r.length) (hk : k ≤ records.length)
    (hfit : position len pos k + head ≤ total ∨ start records pos k + head ≤ total) :
    position len pos k = start records pos k := by
  induction k with
  | zero => simp [position, start]
  | succ k ih =>
    have hrecord : records[k]? = some records[k] := List.getElem?_eq_getElem hk
    have hnext : start records pos (k + 1) = _ := start_succ hrecord
    rw [position_succ] at hfit ⊢
    have hself := ih (by omega) (hfit.imp (by omega) (by omega))
    rw [hself] at hfit ⊢
    rw [hnext, hlen k _ hrecord (by omega)]

end FuzzUSB.RecordWalk
