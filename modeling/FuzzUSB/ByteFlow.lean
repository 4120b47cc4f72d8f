import Mathlib.Algebra.BigOperators.Group.Finset.Piecewise

/-!
# Elements copied between one buffer and several

On the one side is a buffer that is gone over from some position on, on the other side a
family of buffers, each with a cursor of its own. A ledger names the far positions in the
order in which their elements were copied.
-/

namespace FuzzUSB.ByteFlow

variable {ι β : Type*}

/-! ## Copies -/

/-- `memcpy` of `n` elements from `src + srcPos` to `dst + dstPos`. -/
def copy (dst : ℕ → β) (dstPos : ℕ) (src : ℕ → β) (srcPos n : ℕ) : ℕ → β := fun p =>
  if dstPos ≤ p ∧ p < dstPos + n then src (srcPos + (p - dstPos)) else dst p

section

variable {dst src : ℕ → β} {dstPos srcPos n : ℕ}

theorem copy_add {k : ℕ} (h : k < n) :
    copy dst dstPos src srcPos n (dstPos + k) = src (srcPos + k) := by
  rw [copy, if_pos ⟨by omega, by omega⟩, Nat.add_sub_cancel_left]

theorem copy_outside {p : ℕ} (h : p < dstPos ∨ dstPos + n ≤ p) :
    copy dst dstPos src srcPos n p = dst p :=
  if_neg fun hp => by omega

theorem copy_of_lt {p : ℕ} (h : p < dstPos) : copy dst dstPos src srcPos n p = dst p :=
  copy_outside (.inl h)

end

/-! ## The ledger -/

/-- The `n` positions of buffer `i` from `p` on. -/
def span (i : ι) (p n : ℕ) : List (ι × ℕ) := (List.range' p n).map fun q => (i, q)

@[simp] theorem length_span (i : ι) (p n : ℕ) : (span i p n).length = n := by
  simp [span]

theorem mem_span {i j : ι} {p q n : ℕ} : (j, q) ∈ span i p n ↔ j = i ∧ p ≤ q ∧ q < p + n := by
  simp only [span, List.mem_map, List.mem_range'_1, Prod.mk.injEq]
  constructor
  · rintro ⟨q, hq, rfl, rfl⟩
    exact ⟨rfl, hq⟩
  · rintro ⟨rfl, hq⟩
    exact ⟨q, hq, rfl, rfl⟩

theorem getElem?_span {i : ι} {p n k : ℕ} (h : k < n) : (span i p n)[k]? = some (i, p + k) := by
  simp [span, h]

/-- An element that was not there before the span is one of the span. -/
theorem getElem?_append_span {ledger : List (ι × ℕ)} {i : ι} {p n k : ℕ} {x : ι × ℕ}
    (hk : ¬k < ledger.length) (hx : (ledger ++ span i p n)[k]? = some x) :
    ∃ j < n, k = ledger.length + j ∧ x = (i, p + j) := by
  rw [List.getElem?_append_right (Nat.le_of_not_lt hk)] at hx
  have hlt : k - ledger.length < n := by
    have := (List.getElem?_eq_some_iff.mp hx).1
    rwa [length_span] at this
  rw [getElem?_span hlt] at hx
  exact ⟨k - ledger.length, hlt, by omega, (Option.some.inj hx).symm⟩

section

variable [DecidableEq ι]

/-- What the ledger says of one buffer. -/
def positions (ledger : List (ι × ℕ)) (i : ι) : List ℕ :=
  (ledger.filter fun x => x.1 = i).map Prod.snd

/-- Each cursor has gone over what the ledger says of its buffer, once and in order. -/
structure Records (start pos : ι → ℕ) (ledger : List (ι × ℕ)) : Prop where
  le : ∀ i, start i ≤ pos i
  positions_eq : ∀ i, positions ledger i = List.range' (start i) (pos i - start i)

variable {start pos : ι → ℕ} {ledger : List (ι × ℕ)}

theorem positions_append (l l' : List (ι × ℕ)) (i : ι) :
    positions (l ++ l') i = positions l i ++ positions l' i := by
  simp [positions]

theorem positions_span_self (i : ι) (p n : ℕ) : positions (span i p n) i = List.range' p n := by
  simp [positions, span, List.filter_map, Function.comp_def]

theorem positions_span_of_ne {i j : ι} (h : i ≠ j) (p n : ℕ) : positions (span i p n) j = [] := by
  simp [positions, span, List.filter_map, Function.comp_def, h]

theorem Records.nil : Records start start ([] : List (ι × ℕ)) :=
  ⟨fun _ => Nat.le_refl _, fun i => by simp [positions]⟩

theorem Records.mem_iff (h : Records start pos ledger) {i : ι} {p : ℕ} :
    (i, p) ∈ ledger ↔ start i ≤ p ∧ p < pos i := by
  have hmem : (i, p) ∈ ledger ↔ p ∈ positions ledger i := by
    simp [positions]
  have hle := h.le i
  rw [hmem, h.positions_eq, List.mem_range'_1]
  omega

/-- One cursor advances, and the ledger grows by what it went over. -/
theorem Records.advance (h : Records start pos ledger) (i : ι) (n : ℕ) :
    Records start (Function.update pos i (pos i + n)) (ledger ++ span i (pos i) n) := by
  constructor
  · intro j
    by_cases hj : j = i
    · subst hj
      rw [Function.update_self]
      exact (h.le j).trans (Nat.le_add_right _ _)
    · rw [Function.update_of_ne hj]
      exact h.le j
  · intro j
    rw [positions_append, h.positions_eq]
    by_cases hj : j = i
    · subst hj
      have hle := h.le j
      have hsplit : pos j = start j + (pos j - start j) := by omega
      have hlen : pos j + n - start j = pos j - start j + n := by omega
      rw [Function.update_self, positions_span_self, hlen]
      conv_lhs => rw [hsplit]
      rw [← List.range'_append_1]
      simp
    · rw [Function.update_of_ne hj, positions_span_of_ne (Ne.symm hj), List.append_nil]

/-- Every entry of the ledger is of one of the buffers. -/
theorem sum_length_positions (ledger : List (ι × ℕ)) {s : Finset ι} (hs : ∀ x ∈ ledger, x.1 ∈ s) :
    ∑ i ∈ s, (positions ledger i).length = ledger.length := by
  induction ledger with
  | nil => simp [positions]
  | cons x ledger ih =>
    have hcons : ∀ i, (positions (x :: ledger) i).length =
        (if x.1 = i then 1 else 0) + (positions ledger i).length := by
      intro i
      by_cases hi : x.1 = i
      · simp [positions, hi, Nat.add_comm]
      · simp [positions, hi]
    have hx := hs x List.mem_cons_self
    rw [Finset.sum_congr rfl fun i _ => hcons i, Finset.sum_add_distrib, Finset.sum_ite_eq,
      if_pos hx, ih fun y hy => hs y (List.mem_cons_of_mem _ hy), List.length_cons, Nat.add_comm]

/-- Together the cursors advance by the length of the ledger. -/
theorem Records.sum_eq (h : Records start pos ledger) {s : Finset ι}
    (hs : ∀ x ∈ ledger, x.1 ∈ s) :
    ∑ i ∈ s, pos i = ∑ i ∈ s, start i + ledger.length := by
  rw [← sum_length_positions ledger hs, ← Finset.sum_add_distrib]
  apply Finset.sum_congr rfl
  intro i _
  have hle := h.le i
  rw [h.positions_eq, List.length_range']
  omega

end

/-! ## What was copied -/

/-- The elements from `base` on are those at the positions of the ledger. -/
def Carried (near : ℕ → β) (base : ℕ) (far : ι → ℕ → β) (ledger : List (ι × ℕ)) : Prop :=
  ∀ k x, ledger[k]? = some x → near (base + k) = far x.1 x.2

section

variable {near : ℕ → β} {base : ℕ} {far : ι → ℕ → β} {ledger : List (ι × ℕ)}

theorem Carried.nil : Carried near base far [] := nofun

/-- Elements are copied from a far buffer to the end of what is carried. -/
theorem Carried.pull (h : Carried near base far ledger) (i : ι) (p n : ℕ) :
    Carried (copy near (base + ledger.length) (far i) p n) base far (ledger ++ span i p n) := by
  intro k x hx
  by_cases hk : k < ledger.length
  · rw [List.getElem?_append_left hk] at hx
    rw [copy_of_lt (by omega)]
    exact h k x hx
  · obtain ⟨j, hj, rfl, rfl⟩ := getElem?_append_span hk hx
    rw [← Nat.add_assoc, copy_add hj]

/-- Elements are copied to where the cursor of a far buffer stands. What was copied before
is in front of it. -/
theorem Carried.push [DecidableEq ι] {start pos : ι → ℕ} (h : Carried near base far ledger)
    (hr : Records start pos ledger) (i : ι) (n : ℕ) :
    Carried near base
      (Function.update far i (copy (far i) (pos i) near (base + ledger.length) n))
      (ledger ++ span i (pos i) n) := by
  intro k x hx
  by_cases hk : k < ledger.length
  · rw [List.getElem?_append_left hk] at hx
    rw [h k x hx]
    by_cases hi : x.1 = i
    · subst hi
      have hlt := (hr.mem_iff.mp (List.mem_of_getElem? hx)).2
      rw [Function.update_self, copy_of_lt hlt]
    · rw [Function.update_of_ne hi]
  · obtain ⟨j, hj, rfl, rfl⟩ := getElem?_append_span hk hx
    rw [Function.update_self, copy_add hj, Nat.add_assoc]

end

end FuzzUSB.ByteFlow
