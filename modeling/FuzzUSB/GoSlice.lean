import Mathlib.Data.List.Basic
import Mathlib.Logic.Function.Basic

/-!
# Slices

A slice is a window of an array that other slices may share. Appending writes into the array
behind the window while there is room, and copies the window into a new array otherwise.
-/

namespace FuzzUSB.GoSlice

variable {α : Type*}

/-- The arrays by number. Those from `next` on are not allocated. -/
structure Heap (α : Type*) where
  cells : ℕ → ℕ → α
  next : ℕ

structure Slice where
  array : ℕ
  offset : ℕ
  len : ℕ
  cap : ℕ

/-- Array 0 is that of `nil`, and is never written. -/
def Heap.new (zero : α) : Heap α := ⟨fun _ _ => zero, 1⟩

namespace Slice

def nil : Slice := ⟨0, 0, 0, 0⟩

/-- `s[lo:]` -/
def behind (s : Slice) (lo : ℕ) : Slice := ⟨s.array, s.offset + lo, s.len - lo, s.cap - lo⟩

/-- `s[:hi]` -/
def upTo (s : Slice) (hi : ℕ) : Slice := { s with len := hi }

end Slice

namespace Heap

/-- `s[i]` -/
def get (h : Heap α) (s : Slice) (i : ℕ) : α := h.cells s.array (s.offset + i)

/-- The elements of a slice. -/
def view (h : Heap α) (s : Slice) : List α := (List.range s.len).map (h.get s)

/-- Elements are written one after the other. -/
def place (h : Heap α) (array pos : ℕ) (xs : List α) : Heap α :=
  { h with cells := Function.update h.cells array fun p =>
      if pos ≤ p then xs[p - pos]?.getD (h.cells array p) else h.cells array p }

/-- `s[i] = x` -/
def set (h : Heap α) (s : Slice) (i : ℕ) (x : α) : Heap α := h.place s.array (s.offset + i) [x]

/-- `append(s, xs...)`, with what a new array has more than is needed. -/
def append (h : Heap α) (s : Slice) (xs : List α) (slack : ℕ) : Heap α × Slice :=
  if s.len + xs.length ≤ s.cap then
    (h.place s.array (s.offset + s.len) xs, s.upTo (s.len + xs.length))
  else
    ({ h with next := h.next + 1 }.place h.next 0 (h.view s ++ xs),
      ⟨h.next, 0, s.len + xs.length, s.len + xs.length + slack⟩)

end Heap

/-- The array is allocated, and the window is in it. -/
structure Slice.Valid (h : Heap α) (s : Slice) : Prop where
  array_lt : s.array < h.next
  le_cap : s.len ≤ s.cap

/-- Nothing that is appended to `s` is seen in `t`. -/
structure Slice.Older (h : Heap α) (t s : Slice) : Prop where
  array_lt : t.array < h.next
  behind : t.array = s.array → t.offset + t.len ≤ s.offset + s.len

/-! ## Elements -/

section

variable {h : Heap α} {s t : Slice} {xs : List α} {slack : ℕ}

@[simp] theorem length_view : (h.view s).length = s.len := by
  rw [Heap.view, List.length_map, List.length_range]

theorem getElem?_view {i : ℕ} (hi : i < s.len) : (h.view s)[i]? = some (h.get s i) := by
  rw [Heap.view, List.getElem?_map, List.getElem?_range hi, Option.map_some]

theorem get_eq_of_view_eq {α : Type*} {h h' : Heap α} {t : Slice} (heq : h'.view t = h.view t)
    {i : ℕ} (hi : i < t.len) : h'.get t i = h.get t i := by
  have hget : (h'.view t)[i]? = (h.view t)[i]? := congrArg (·[i]?) heq
  rw [getElem?_view hi, getElem?_view hi] at hget
  exact Option.some.inj hget

theorem pairwise_view {R : α → α → Prop} :
    (h.view s).Pairwise R ↔ ∀ i j, i < j → j < s.len → R (h.get s i) (h.get s j) := by
  rw [List.pairwise_iff_getElem]
  simp only [Heap.view, List.getElem_map, List.getElem_range, List.length_map, List.length_range]
  constructor
  · exact fun hR i j hij hj => hR i j (by omega) hj hij
  · exact fun hR i j _ hj hij => hR i j hij hj

/-- A slice has the elements of a list. -/
theorem view_eq_iff {l : List α} :
    h.view s = l ↔ s.len = l.length ∧ ∀ i < s.len, l[i]? = some (h.get s i) := by
  constructor
  · rintro rfl
    exact ⟨length_view.symm, fun i hi => getElem?_view hi⟩
  · rintro ⟨hlen, hget⟩
    refine List.ext_getElem? fun i => ?_
    by_cases hi : i < s.len
    · rw [getElem?_view hi, hget i hi]
    · rw [List.getElem?_eq_none (by rw [length_view]; omega),
        List.getElem?_eq_none (by omega)]

theorem view_nil (h : Heap α) : h.view .nil = [] := rfl

theorem view_upTo {n : ℕ} (hn : n ≤ s.len) : h.view (s.upTo n) = (h.view s).take n := by
  rw [view_eq_iff, List.length_take, length_view]
  refine ⟨(Nat.min_eq_left hn).symm, fun i hi => ?_⟩
  have hi' : i < n := hi
  rw [List.getElem?_take_of_lt hi', getElem?_view (by omega)]
  rfl

theorem get_behind (lo i : ℕ) : h.get (s.behind lo) i = h.get s (lo + i) := by
  simp only [Heap.get, Slice.behind, Nat.add_assoc]

/-! ## Writing -/

theorem get_place {array pos i : ℕ} (hout : s.array = array → s.offset + i < pos ∨
    pos + xs.length ≤ s.offset + i) : (h.place array pos xs).get s i = h.get s i := by
  simp only [Heap.get, Heap.place]
  by_cases heq : s.array = array
  · rw [heq, Function.update_self]
    rcases hout heq with hlt | hge
    · rw [if_neg (by omega)]
    · rw [if_pos (by omega), List.getElem?_eq_none (by omega), Option.getD_none]
  · rw [Function.update_of_ne heq]

theorem get_place_self {pos i : ℕ} {x : α} (hpos : pos ≤ s.offset + i)
    (hx : xs[s.offset + i - pos]? = some x) : (h.place s.array pos xs).get s i = x := by
  simp only [Heap.get, Heap.place, Function.update_self]
  rw [if_pos hpos, hx, Option.getD_some]

/-- What is written outside of a slice is not seen in it. -/
theorem view_place {array pos : ℕ} (hout : s.array = array → s.offset + s.len ≤ pos ∨
    pos + xs.length ≤ s.offset) : (h.place array pos xs).view s = h.view s := by
  refine List.map_congr_left fun i hi => get_place fun heq => ?_
  have hlt := List.mem_range.mp hi
  rcases hout heq with hle | hge <;> omega

theorem view_set {i : ℕ} (hi : i < s.len) (x : α) :
    (h.set s i x).view s = (h.view s).set i x := by
  rw [view_eq_iff, List.length_set, length_view]
  refine ⟨rfl, fun j hj => ?_⟩
  by_cases heq : i = j
  · subst heq
    have hself : (h.set s i x).get s i = x := get_place_self (Nat.le_refl _) (by simp)
    rw [hself, List.getElem?_set_self (by rw [length_view]; exact hi)]
  · have hother : (h.set s i x).get s j = h.get s j := get_place fun _ => by
      simp only [List.length_singleton]
      omega
    rw [hother, List.getElem?_set_ne heq, getElem?_view hj]

/-- Writing through `s[lo:]` is writing to `s`. -/
theorem set_behind (lo i : ℕ) (x : α) : h.set (s.behind lo) i x = h.set s (lo + i) x := by
  simp only [Heap.set, Slice.behind, Nat.add_assoc]

/-! ## Appending -/

theorem nil_valid (h : Heap α) (hnext : 0 < h.next) : Slice.nil.Valid h := ⟨hnext, Nat.le_refl _⟩

theorem view_append (h : Heap α) (s : Slice) (xs : List α) (slack : ℕ) :
    (h.append s xs slack).1.view (h.append s xs slack).2 = h.view s ++ xs := by
  rw [view_eq_iff, List.length_append, length_view]
  unfold Heap.append
  split
  · refine ⟨rfl, fun i hi => ?_⟩
    simp only [Slice.upTo] at hi ⊢
    by_cases hold : i < s.len
    · rw [List.getElem?_append_left (by rw [length_view]; exact hold), getElem?_view hold]
      refine congrArg some (get_place fun _ => .inl ?_).symm
      omega
    · rw [List.getElem?_append_right (by rw [length_view]; omega), length_view]
      have hx : xs[i - s.len]? = some xs[i - s.len] := List.getElem?_eq_getElem (by omega)
      rw [hx]
      refine congrArg some (get_place_self ?_ ?_).symm
      · omega
      · rw [← hx]
        congr 1
        omega
  · refine ⟨rfl, fun i hi => ?_⟩
    dsimp only at hi ⊢
    have hi' : i < (h.view s ++ xs).length := by
      rw [List.length_append, length_view]
      exact hi
    rw [List.getElem?_eq_getElem hi']
    refine congrArg some (get_place_self (Nat.zero_le _) ?_).symm
    rw [← List.getElem?_eq_getElem hi']
    congr 1
    dsimp only
    omega

theorem append_len (h : Heap α) (s : Slice) (xs : List α) (slack : ℕ) :
    (h.append s xs slack).2.len = s.len + xs.length := by
  unfold Heap.append
  split <;> rfl

theorem append_valid (hs : s.Valid h) (xs : List α) (slack : ℕ) :
    (h.append s xs slack).2.Valid (h.append s xs slack).1 := by
  unfold Heap.append
  split
  · next hroom => exact ⟨hs.array_lt, hroom⟩
  · exact ⟨Nat.lt_succ_self _, Nat.le_add_right _ _⟩

theorem Slice.Valid.older (hs : s.Valid h) : s.Older h s := ⟨hs.array_lt, fun _ => Nat.le_refl _⟩

/-- Appending to a slice changes no older one. -/
theorem Slice.Older.view_append (ht : t.Older h s) :
    (h.append s xs slack).1.view t = h.view t := by
  unfold Heap.append
  split
  · exact view_place fun heq => .inl (ht.behind heq)
  · refine view_place fun heq => absurd heq ?_
    have := ht.array_lt
    omega

theorem Slice.Older.append (ht : t.Older h s) :
    t.Older (h.append s xs slack).1 (h.append s xs slack).2 := by
  have hlt := ht.array_lt
  unfold Heap.append
  split
  · refine ⟨hlt, fun heq => ?_⟩
    have := ht.behind heq
    simp only [Slice.upTo]
    omega
  · refine ⟨Nat.lt_succ_of_lt hlt, fun heq => ?_⟩
    have heq' : t.array = h.next := heq
    omega

end

/-! ## Searching -/

/-- The loop of `sort.Search`. -/
def searchFrom (f : ℕ → Bool) : (rounds i j : ℕ) → ℕ
  | 0, i, _ => i
  | rounds + 1, i, j =>
    if i < j then
      let h := (i + j) / 2
      if !f h then searchFrom f rounds (h + 1) j else searchFrom f rounds i h
    else i

/-- `sort.Search`. The window gets smaller in every round. -/
def search (n : ℕ) (f : ℕ → Bool) : ℕ := searchFrom f n 0 n

/-- The first number below `n` with `f`, or `n`. -/
structure Least (n : ℕ) (f : ℕ → Bool) (k : ℕ) : Prop where
  le : k ≤ n
  before : ∀ i < k, f i = false
  holds : k < n → f k = true

theorem Least.unique {n k k' : ℕ} {f : ℕ → Bool} (h : Least n f k) (h' : Least n f k') :
    k = k' := by
  by_contra hne
  rcases Nat.lt_or_gt_of_ne hne with hlt | hgt
  · have hfalse := h'.before k hlt
    rw [h.holds (Nat.lt_of_lt_of_le hlt h'.le)] at hfalse
    cases hfalse
  · have hfalse := h.before k' hgt
    rw [h'.holds (Nat.lt_of_lt_of_le hgt h.le)] at hfalse
    cases hfalse

section

variable {n : ℕ} {f : ℕ → Bool}

/-- Only numbers below `n` are looked at. -/
theorem searchFrom_congr {g : ℕ → Bool} (hfg : ∀ i < n, f i = g i) {rounds i j : ℕ}
    (hj : j ≤ n) : searchFrom f rounds i j = searchFrom g rounds i j := by
  induction rounds generalizing i j with
  | zero => rfl
  | succ rounds ih =>
    unfold searchFrom
    split
    · dsimp only
      rw [hfg _ (by omega), ih hj, ih (by omega)]
    · rfl

theorem search_congr {g : ℕ → Bool} (hfg : ∀ i < n, f i = g i) : search n f = search n g :=
  searchFrom_congr hfg (Nat.le_refl n)

/-- The window keeps the number that is searched for. -/
theorem searchFrom_least (hmono : ∀ i j, i ≤ j → j < n → f i = true → f j = true)
    {rounds i j : ℕ} (hrounds : j ≤ i + rounds) (hij : i ≤ j) (hj : j ≤ n)
    (hbefore : ∀ k < i, f k = false) (hholds : j < n → f j = true) :
    Least n f (searchFrom f rounds i j) := by
  induction rounds generalizing i j with
  | zero =>
    obtain rfl : i = j := by omega
    exact ⟨hj, hbefore, hholds⟩
  | succ rounds ih =>
    unfold searchFrom
    split
    · next hlt =>
      dsimp only
      split
      · next hfalse =>
        rw [Bool.not_eq_true'] at hfalse
        refine ih (by omega) (by omega) hj (fun k hk => ?_) hholds
        rw [← Bool.not_eq_true]
        intro hk'
        have hmid := hmono k ((i + j) / 2) (by omega) (by omega) hk'
        rw [hfalse] at hmid
        cases hmid
      · next htrue =>
        rw [Bool.not_eq_true', Bool.not_eq_false] at htrue
        exact ih (by omega) (by omega) (by omega) hbefore fun _ => htrue
    · obtain rfl : i = j := by omega
      exact ⟨hj, hbefore, hholds⟩

theorem search_least (hmono : ∀ i j, i ≤ j → j < n → f i = true → f j = true) :
    Least n f (search n f) :=
  searchFrom_least hmono (by omega) (Nat.zero_le n) (Nat.le_refl n) nofun
    fun hlt => absurd hlt (Nat.lt_irrefl n)

end

end FuzzUSB.GoSlice
