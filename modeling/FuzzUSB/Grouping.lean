import Mathlib.Data.List.TakeWhile
import Mathlib.Tactic.Common

/-!
# Items grouped by the heads before them

In a sequence some elements are heads and some are items. An item belongs to the latest
head. A table of `n` groups that takes up no further head gives the items behind it to its
last group.
-/

namespace FuzzUSB.Grouping

variable {α β : Type*} {isHead isItem : α → Bool}

/-- The heads, each with the items between it and the next head. -/
def groups (isHead isItem : α → Bool) : List α → List (α × List α)
  | [] => []
  | a :: as =>
    if isHead a then
      (a, (as.takeWhile fun b => !isHead b).filter isItem) :: groups isHead isItem as
    else groups isHead isItem as

/-- The groups with one more item in the last of them. -/
def addItem (gs : List (α × List α)) (a : α) : List (α × List α) :=
  match gs.getLast? with
  | none => gs
  | some g => gs.dropLast ++ [(g.1, g.2 ++ [a])]

/-- The first `n` groups, the last of them with the items of all groups behind it. -/
def gather : ℕ → List (α × List α) → List (α × List α)
  | 0, _ => []
  | _, [] => []
  | 1, g :: gs => [(g.1, g.2 ++ gs.flatMap Prod.snd)]
  | n + 2, g :: gs => g :: gather (n + 1) gs

@[simp] theorem addItem_nil (a : α) : addItem [] a = [] := rfl

@[simp] theorem addItem_singleton (g : α × List α) (a : α) :
    addItem [g] a = [(g.1, g.2 ++ [a])] := rfl

theorem addItem_cons {gs : List (α × List α)} (h : gs ≠ []) (g : α × List α) (a : α) :
    addItem (g :: gs) a = g :: addItem gs a := by
  obtain ⟨last, hlast⟩ := List.getLast?_isSome.mpr h |> Option.isSome_iff_exists.mp
  have hdrop : (g :: gs).dropLast = g :: gs.dropLast := List.dropLast_cons_of_ne_nil h
  have hcons : (g :: gs).getLast? = some last := by
    rw [List.getLast?_cons_of_ne_nil h, hlast]
  simp [addItem, hlast, hcons, hdrop]

theorem flatMap_addItem {gs : List (α × List α)} (h : gs ≠ []) (a : α) :
    (addItem gs a).flatMap Prod.snd = gs.flatMap Prod.snd ++ [a] := by
  induction gs with
  | nil => exact absurd rfl h
  | cons g gs ih =>
    cases gs with
    | nil => simp
    | cons g' gs =>
      rw [addItem_cons (List.cons_ne_nil _ _), List.flatMap_cons, ih (List.cons_ne_nil _ _),
        ← List.append_assoc, ← List.flatMap_cons]

/-! ## One more element -/

theorem takeWhile_concat_of_not {p : α → Bool} {a : α} (h : p a = false) (as : List α) :
    (as ++ [a]).takeWhile p = as.takeWhile p := by
  induction as with
  | nil => simp [h]
  | cons b as ih => simp [List.takeWhile_cons, ih]

theorem groups_concat_head (as : List α) {a : α} (ha : isHead a = true) :
    groups isHead isItem (as ++ [a]) = groups isHead isItem as ++ [(a, [])] := by
  induction as with
  | nil => simp [groups, ha]
  | cons b as ih =>
    rw [List.cons_append, groups, groups, takeWhile_concat_of_not (by simp [ha]), ih]
    split <;> rfl

variable (isItem) in
/-- Behind a head the items are those of the last group. -/
theorem takeWhile_concat_of_heads {as : List α} {a : α} (ha : isHead a = false) :
    (as ++ [a]).takeWhile (fun b => !isHead b) =
      if groups isHead isItem as = [] then as.takeWhile (fun b => !isHead b) ++ [a]
      else as.takeWhile fun b => !isHead b := by
  induction as with
  | nil => simp [groups, ha]
  | cons b as ih =>
    cases hb : isHead b with
    | true => simp [groups, hb]
    | false =>
      have hgroups : groups isHead isItem (b :: as) = groups isHead isItem as := by
        simp [groups, hb]
      rw [hgroups, List.cons_append, List.takeWhile_cons, List.takeWhile_cons, ih]
      simp only [hb, Bool.not_false, if_true]
      split <;> rfl

theorem groups_concat_item (as : List α) {a : α} (ha : isHead a = false)
    (hitem : isItem a = true) :
    groups isHead isItem (as ++ [a]) = addItem (groups isHead isItem as) a := by
  induction as with
  | nil => simp [groups, ha]
  | cons b as ih =>
    rw [List.cons_append, groups, groups, ih,
      takeWhile_concat_of_heads isItem ha]
    split
    · by_cases hnil : groups isHead isItem as = []
      · simp [hnil, hitem]
      · rw [if_neg hnil, addItem_cons hnil]
    · rfl

theorem groups_concat_other (as : List α) {a : α} (ha : isHead a = false)
    (hitem : isItem a = false) :
    groups isHead isItem (as ++ [a]) = groups isHead isItem as := by
  induction as with
  | nil => simp [groups, ha]
  | cons b as ih =>
    have hfilter : ((as ++ [a]).takeWhile fun b => !isHead b).filter isItem =
        (as.takeWhile fun b => !isHead b).filter isItem := by
      rw [takeWhile_concat_of_heads isItem ha]
      split
      · simp [hitem]
      · rfl
    rw [List.cons_append, groups, groups, hfilter, ih]

/-! ## The table -/

theorem length_gather (n : ℕ) (gs : List (α × List α)) :
    (gather n gs).length = min n gs.length := by
  induction n, gs using gather.induct with
  | case1 gs => simp [gather]
  | case2 n hn => simp [gather]
  | case3 g gs => simp [gather]
  | case4 n g gs ih =>
    simp only [gather, List.length_cons, ih]
    omega

theorem gather_eq_nil_iff {n : ℕ} (hn : 0 < n) {gs : List (α × List α)} :
    gather n gs = [] ↔ gs = [] := by
  rw [← List.length_eq_zero_iff, length_gather, ← List.length_eq_zero_iff]
  omega

/-- A head is taken up as long as there is room. -/
theorem gather_concat_head (n : ℕ) (gs : List (α × List α)) (a : α) :
    gather n (gs ++ [(a, [])]) =
      if gs.length < n then gather n gs ++ [(a, [])] else gather n gs := by
  induction n, gs using gather.induct with
  | case1 gs => simp [gather]
  | case2 n hn =>
    match n with
    | 0 => exact absurd rfl hn
    | 1 => simp [gather]
    | n + 2 => simp [gather]
  | case3 g gs => simp [gather]
  | case4 n g gs ih =>
    have hlt : (g :: gs).length < n + 2 ↔ gs.length < n + 1 := Nat.add_lt_add_iff_right
    simp only [List.cons_append, gather, ih, hlt]
    split <;> rfl

/-- An item goes to the last group of the table. -/
theorem gather_addItem {n : ℕ} (hn : 0 < n) (gs : List (α × List α)) (a : α) :
    gather n (addItem gs a) = addItem (gather n gs) a := by
  induction n, gs using gather.induct with
  | case1 gs => cases hn
  | case2 n _ => simp [gather]
  | case3 g gs =>
    by_cases hgs : gs = []
    · simp [hgs, gather]
    · rw [addItem_cons hgs, gather, gather, flatMap_addItem hgs, addItem_singleton,
        List.append_assoc]
  | case4 n g gs ih =>
    by_cases hgs : gs = []
    · simp [hgs, gather]
    · have hne : gather (n + 1) gs ≠ [] :=
        (gather_eq_nil_iff (Nat.succ_pos n)).not.mpr hgs
      rw [addItem_cons hgs, gather, ih (Nat.succ_pos n), gather, addItem_cons hne]

/-- A table of `n + 1` groups that shows at most `cap` items of each is the first groups
exactly when there are no items behind its last group, or that was full before. -/
theorem gather_map_iff {f : α × List α → β} {cap : ℕ}
    (htake : ∀ a as, f (a, as.take cap) = f (a, as))
    (hlen : ∀ a as bs, f (a, as) = f (a, bs) → min cap as.length = min cap bs.length)
    (n : ℕ) (gs : List (α × List α)) :
    (gather (n + 1) gs).map f = (gs.take (n + 1)).map f ↔
      (∀ g ∈ gs.drop (n + 1), g.2 = []) ∨ ∃ g, gs[n]? = some g ∧ cap ≤ g.2.length := by
  induction n generalizing gs with
  | zero =>
    cases gs with
    | nil => simp [gather]
    | cons g gs =>
      have hempty : (∀ g ∈ gs, g.2 = []) ↔ gs.flatMap Prod.snd = [] := by
        simp [List.flatMap_eq_nil_iff]
      simp only [gather, List.map_cons, List.map_nil, List.take_succ_cons, List.take_zero,
        List.drop_succ_cons, List.drop_zero, List.getElem?_cons_zero, Option.some.injEq,
        exists_eq_left', List.cons.injEq, and_true, hempty]
      constructor
      · intro h
        by_contra hno
        rw [not_or] at hno
        have hmin := hlen g.1 _ g.2 h
        have hpos := List.length_pos_iff.mpr hno.1
        rw [List.length_append] at hmin
        omega
      · rintro (h | h)
        · rw [h, List.append_nil]
        · rw [← htake, List.take_append_of_le_length h, htake]
  | succ n ih =>
    cases gs with
    | nil => simp [gather]
    | cons g gs =>
      simp only [gather, List.map_cons, List.take_succ_cons, List.drop_succ_cons,
        List.getElem?_cons_succ, List.cons.injEq, true_and]
      exact ih gs

end FuzzUSB.Grouping
