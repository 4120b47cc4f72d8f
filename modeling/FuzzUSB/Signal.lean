import Mathlib.Order.WithBot
import Mathlib.Order.Lattice.Nat
import Mathlib.Data.List.Dedup
import Mathlib.Data.List.Sort

/-!
# Signals with priorities

A signal is a finite map from elements to priorities. The operations are a parameter, and
what they do is said on the view of a signal as a function with `⊥` for an absent element,
where merging is the join.
-/

namespace FuzzUSB.Signal

/-- The operations of a package for signals. -/
structure SignalPkg (Sig Serial : Type) where
  empty : Sig → Bool
  /-- `s.Diff(s1)`: what is new in `s1`. -/
  diff : Sig → Sig → Sig
  merge : Sig → Sig → Sig
  copy : Sig → Sig
  /-- `s.Split(n)`: what it returns and what it leaves, when the map is gone through in the
  order `seed`. -/
  split : (seed n : ℕ) → Sig → Sig × Sig
  serialize : Sig → Serial
  deserialize : Serial → Sig

variable {Sig Serial E : Type} {S : SignalPkg Sig Serial} {view : Sig → E → WithBot ℕ}

/-- The operations are those of sets of elements with the greatest priority of each. -/
structure SignalPkg.Lawful (S : SignalPkg Sig Serial) (view : Sig → E → WithBot ℕ) : Prop where
  empty_iff : ∀ s, S.empty s = true ↔ view s = ⊥
  view_diff : ∀ s s1 e, view (S.diff s s1) e = if view s e < view s1 e then view s1 e else ⊥
  view_merge : ∀ s s1, view (S.merge s s1) = view s ⊔ view s1
  view_copy : ∀ s, view (S.copy s) = view s
  view_split : ∀ seed n s, view s = view (S.split seed n s).1 ⊔ view (S.split seed n s).2
  split_le : ∀ seed n s, ∃ l : List E, l.length ≤ n ∧
    ∀ e, view (S.split seed n s).1 e ≠ ⊥ → e ∈ l
  view_serial : ∀ s, view (S.deserialize (S.serialize s)) = view s

/-- The union of some signals. -/
def union (view : Sig → E → WithBot ℕ) (l : List Sig) : E → WithBot ℕ :=
  (l.map view).foldr (· ⊔ ·) ⊥

@[simp] theorem union_nil : union view [] = ⊥ := rfl

@[simp] theorem union_cons (s : Sig) (l : List Sig) :
    union view (s :: l) = view s ⊔ union view l := rfl

theorem union_concat (l : List Sig) (s : Sig) : union view (l ++ [s]) = union view l ⊔ view s := by
  induction l with
  | nil => simp [union]
  | cons t l ih => rw [List.cons_append, union_cons, union_cons, ih, sup_assoc]

theorem union_le_iff {l : List Sig} {f : E → WithBot ℕ} :
    union view l ≤ f ↔ ∀ s ∈ l, view s ≤ f := by
  induction l with
  | nil => simp
  | cons t l ih => simp [ih]

theorem le_union {l : List Sig} {s : Sig} (hs : s ∈ l) : view s ≤ union view l :=
  union_le_iff.mp le_rfl s hs

theorem union_mono {l m : List Sig} (h : l ⊆ m) : union view l ≤ union view m :=
  union_le_iff.mpr fun _ hs => le_union (h hs)

/-- Adding a difference adds the signal. -/
theorem sup_view_diff (h : S.Lawful view) (s s1 : Sig) :
    view s ⊔ view (S.diff s s1) = view s ⊔ view s1 := by
  funext e
  simp only [Pi.sup_apply, h.view_diff]
  split
  · rfl
  · next hle => simp [not_lt.mp hle]

/-- A function that keeps some of the contexts, with the union of the signals of all. The
order in which maps are gone through is `seed`. -/
def Minimizes {C : Type} (view : Sig → E → WithBot ℕ)
    (minimize : (seed : ℕ) → List (Sig × C) → List C) : Prop :=
  ∀ seed l, ∃ kept ⊆ l, minimize seed l = kept.map Prod.snd ∧
    union view (kept.map Prod.fst) = union view (l.map Prod.fst)

/-! ## Finite maps -/

/-- A finite map from elements to priorities. -/
structure PrioMap where
  elems : List ℕ
  prio : ℕ → WithBot ℕ
  supported : ∀ e, e ∉ elems → prio e = ⊥

namespace PrioMap

instance : EmptyCollection PrioMap := ⟨⟨[], ⊥, fun _ _ => rfl⟩⟩

@[simp] theorem empty_prio : prio ∅ = ⊥ := rfl

def diff (s s1 : PrioMap) : PrioMap where
  elems := s1.elems
  prio e := if s.prio e < s1.prio e then s1.prio e else ⊥
  supported e he := by simp [s1.supported e he]

def merge (s s1 : PrioMap) : PrioMap where
  elems := s.elems ++ s1.elems
  prio e := s.prio e ⊔ s1.prio e
  supported e he := by
    rw [List.mem_append, not_or] at he
    simp [s.supported e he.1, s1.supported e he.2]

/-- How many elements have a priority. -/
def len (s : PrioMap) : ℕ := (s.elems.dedup.filter fun e => s.prio e ≠ ⊥).length

/-- The elements that a split takes. -/
def taken (seed n : ℕ) (s : PrioMap) : List ℕ :=
  ((s.elems.dedup.filter fun e => s.prio e ≠ ⊥).rotate seed).take n

/-- The part of a map on which `p` holds. -/
def filter (p : ℕ → Bool) (s : PrioMap) : PrioMap where
  elems := s.elems
  prio e := if p e then s.prio e else ⊥
  supported e he := by simp [s.supported e he]

def split (seed n : ℕ) (s : PrioMap) : PrioMap × PrioMap :=
  (s.filter (· ∈ s.taken seed n), s.filter (· ∉ s.taken seed n))

/-- Signal `s` has an element first in the order of the signals, with the greatest priority.
The signals `before` it come together, `after` it are the others. -/
def leads (before s : PrioMap) (after : List PrioMap) : Bool :=
  s.elems.any fun e => before.prio e < s.prio e ∧ ∀ t ∈ after, t.prio e ≤ s.prio e

/-- The contexts of the signals that lead. -/
def minimize {C : Type} (before : PrioMap) : List (PrioMap × C) → List (PrioMap × C)
  | [] => []
  | c :: l =>
    if before.leads c.1 (l.map Prod.fst) then c :: minimize (before.merge c.1) l
    else minimize (before.merge c.1) l

theorem minimize_subset {C : Type} (before : PrioMap) (l : List (PrioMap × C)) :
    minimize before l ⊆ l := by
  induction l generalizing before with
  | nil => simp [minimize]
  | cons c l ih =>
    unfold minimize
    split
    · exact List.cons_subset_cons c (ih _)
    · exact List.subset_cons_of_subset c (ih _)

/-- What does not lead is in another signal. -/
theorem le_of_not_leads {before s : PrioMap} {after : List PrioMap}
    (h : ¬before.leads s after) (e : ℕ) :
    s.prio e ≤ before.prio e ∨ s.prio e < union PrioMap.prio after e := by
  by_cases he : e ∈ s.elems
  · by_contra! hno
    refine h (List.any_eq_true.mpr ⟨e, he, decide_eq_true ⟨hno.1, fun t ht => ?_⟩⟩)
    exact (le_union ht e).trans hno.2
  · simp [s.supported e he]

theorem union_minimize {C : Type} (before : PrioMap) (l : List (PrioMap × C)) :
    before.prio ⊔ union PrioMap.prio ((minimize before l).map Prod.fst) =
      before.prio ⊔ union PrioMap.prio (l.map Prod.fst) := by
  induction l generalizing before with
  | nil => rfl
  | cons c l ih =>
    have hrest := ih (before.merge c.1)
    change before.prio ⊔ c.1.prio ⊔ _ = before.prio ⊔ c.1.prio ⊔ _ at hrest
    unfold minimize
    split
    · simpa [sup_assoc] using hrest
    · next hno =>
      rw [List.map_cons, union_cons, ← sup_assoc, ← hrest]
      funext e
      have he := congrFun hrest e
      -- The signal left out is below `before`, or below a signal behind it.
      rcases le_of_not_leads hno e with hle | hlt
      · simp [hle]
      · simp only [Pi.sup_apply] at he ⊢
        grind

end PrioMap

def prioMaps : SignalPkg PrioMap PrioMap where
  empty s := s.elems.all fun e => s.prio e = ⊥
  diff := PrioMap.diff
  merge := PrioMap.merge
  copy := id
  split := PrioMap.split
  serialize := id
  deserialize := id

theorem prioMaps_lawful : prioMaps.Lawful PrioMap.prio where
  empty_iff s := by
    simp only [prioMaps, List.all_eq_true, decide_eq_true_eq]
    constructor
    · intro h
      funext e
      by_cases he : e ∈ s.elems
      · exact h e he
      · exact s.supported e he
    · exact fun h e _ => congrFun h e
  view_diff s s1 e := rfl
  view_merge s s1 := rfl
  view_copy s := rfl
  view_split seed n s := by
    funext e
    by_cases he : e ∈ s.taken seed n <;> simp [prioMaps, PrioMap.split, PrioMap.filter, he]
  split_le seed n s := by
    refine ⟨s.taken seed n, by simp [PrioMap.taken], fun e he => ?_⟩
    by_contra hnot
    exact he (by simp [prioMaps, PrioMap.split, PrioMap.filter, hnot])
  view_serial s := rfl

/-- `signal.Minimize`, which takes the longest signals first. -/
def minimizeMaps {C : Type} (_seed : ℕ) (l : List (PrioMap × C)) : List C :=
  (PrioMap.minimize ∅ (l.insertionSort fun c d => d.1.len ≤ c.1.len)).map Prod.snd

theorem minimizeMaps_minimizes {C : Type} :
    Minimizes PrioMap.prio (minimizeMaps (C := C)) := by
  intro seed l
  have hperm := List.perm_insertionSort (fun c d : PrioMap × C => d.1.len ≤ c.1.len) l
  refine ⟨_, List.Subset.trans (PrioMap.minimize_subset ∅ _) hperm.subset, rfl, ?_⟩
  have hsorted := PrioMap.union_minimize ∅ (l.insertionSort fun c d => d.1.len ≤ c.1.len)
  simp only [PrioMap.empty_prio, bot_sup_eq] at hsorted
  rw [hsorted]
  exact le_antisymm (union_mono (hperm.map _).subset) (union_mono (hperm.symm.map _).subset)

end FuzzUSB.Signal
