import Mathlib.Data.List.Basic
import Mathlib.Data.List.Chain
import Mathlib.Data.List.Infix
import Mathlib.Data.List.TakeWhile
import Mathlib.Data.List.DropRight

/-!
# Lines and words

A text is a list, and a separator ends its lines or stands between its words. What follows the
last separator is a line if it is not empty.
-/

namespace FuzzUSB.TextLines

variable {α β : Type*} {nl sp : α}

/-! ## Lines by their positions -/

/-- A line begins behind a separator and ends in front of the next. -/
structure IsLine (nl : α) (s : List α) (i j : ℕ) : Prop where
  start : i < s.length
  behind : i = 0 ∨ s[i - 1]? = some nl
  le : i ≤ j
  inside : ∀ k, i ≤ k → k < j → s[k]? ≠ some nl
  stop : j = s.length ∨ s[j]? = some nl

namespace IsLine

variable {s t : List α} {i j i' j' : ℕ}

theorem stop_le (h : IsLine nl s i j) : j ≤ s.length :=
  h.stop.elim (fun h => h.le) fun h => (List.getElem?_eq_some_iff.mp h).1.le

/-- A line ends before the next begins. -/
theorem stop_lt (h : IsLine nl s i j) (h' : IsLine nl s i' j') (hlt : i < i') : j < i' := by
  have hsep := h'.behind.resolve_left (by omega)
  by_contra hle
  exact h.inside (i' - 1) (by omega) (by omega) hsep

/-- Text that follows leaves the lines that are ended as they are. -/
theorem append_iff (hj : j < s.length) : IsLine nl (s ++ t) i j ↔ IsLine nl s i j := by
  have hin (k : ℕ) (hk : k < s.length) : (s ++ t)[k]? = s[k]? := List.getElem?_append_left hk
  constructor
  · intro h
    have hle := h.le
    refine ⟨by omega, ?_, hle, fun k h1 h2 => ?_, ?_⟩
    · rw [← hin (i - 1) (by omega)]
      exact h.behind
    · rw [← hin k (by omega)]
      exact h.inside k h1 h2
    · rw [← hin j hj]
      refine h.stop.imp_left fun h => ?_
      rw [List.length_append] at h
      omega
  · intro h
    have hle := h.le
    refine ⟨by rw [List.length_append]; omega, ?_, hle, fun k h1 h2 => ?_, .inr ?_⟩
    · rw [hin (i - 1) (by omega)]
      exact h.behind
    · rw [hin k (by omega)]
      exact h.inside k h1 h2
    · rw [hin j hj]
      exact h.stop.resolve_left (by omega)

end IsLine

variable [DecidableEq α]

/-- The lines from position `pos` on, where the line that is read began at `start`. -/
def spansFrom (nl : α) : ℕ → ℕ → List α → List (ℕ × ℕ)
  | start, pos, [] => if start < pos then [(start, pos)] else []
  | start, pos, c :: cs =>
    if c = nl then (start, pos) :: spansFrom nl (pos + 1) (pos + 1) cs
    else spansFrom nl start (pos + 1) cs

/-- Where the lines of a text begin and end. -/
def spans (nl : α) (s : List α) : List (ℕ × ℕ) := spansFrom nl 0 0 s

/-- The loop that looks at one line after another, up to the first that `f` accepts. -/
def lineLoop (nl : α) (s : List α) (f : ℕ → ℕ → Option β) : ℕ → ℕ → Option β
  | 0, _ => none
  | fuel + 1, pos =>
    if pos < s.length then
      let next := pos + (s.drop pos).idxOf nl
      match f pos next with
      | some b => some b
      | none => lineLoop nl s f fuel (next + 1)
    else none

theorem spansFrom_eq_cons {start pos : ℕ} {s : List α} (hle : start ≤ pos)
    (hs : s ≠ [] ∨ start < pos) :
    spansFrom nl start pos s = (start, pos + s.idxOf nl) ::
      spansFrom nl (pos + s.idxOf nl + 1) (pos + s.idxOf nl + 1) (s.drop (s.idxOf nl + 1)) := by
  induction s generalizing pos with
  | nil =>
    have hlt : start < pos := hs.resolve_left (fun h => h rfl)
    simp [spansFrom, hlt]
  | cons c cs ih =>
    by_cases hc : c = nl
    · subst hc
      simp [spansFrom]
    · rw [spansFrom, if_neg hc, List.idxOf_cons_ne _ hc, ih (by omega) (.inr (by omega)),
        List.drop_succ_cons]
      simp only [Nat.succ_eq_add_one, Nat.add_assoc, Nat.add_comm 1]

/-- The loop goes through the lines in their order. -/
theorem lineLoop_eq (s : List α) (f : ℕ → ℕ → Option β) (fuel pos : ℕ)
    (hfuel : s.length ≤ fuel + pos) :
    lineLoop nl s f fuel pos =
      (spansFrom nl pos pos (s.drop pos)).findSome? fun l => f l.1 l.2 := by
  induction fuel generalizing pos with
  | zero => simp [lineLoop, spansFrom, List.drop_eq_nil_of_le (show s.length ≤ pos by omega)]
  | succ fuel ih =>
    rw [lineLoop]
    by_cases hpos : pos < s.length
    · have hne : s.drop pos ≠ [] := by
        rw [Ne, List.drop_eq_nil_iff]
        omega
      rw [if_pos hpos, spansFrom_eq_cons le_rfl (.inl hne), List.findSome?_cons, List.drop_drop]
      dsimp only
      cases f pos (pos + (s.drop pos).idxOf nl) with
      | some b => rfl
      | none =>
        rw [ih _ (by omega), ← Nat.add_assoc]
    · rw [if_neg hpos, List.drop_eq_nil_of_le (by omega)]
      simp [spansFrom]

theorem mem_spansFrom {start : ℕ} {s t : List α} (hstart : start ≤ s.length)
    (hbehind : start = 0 ∨ s[start - 1]? = some nl)
    (hinside : ∀ k, start ≤ k → k < s.length → s[k]? ≠ some nl) {i j : ℕ} :
    (i, j) ∈ spansFrom nl start s.length t ↔ start ≤ i ∧ IsLine nl (s ++ t) i j := by
  induction t generalizing start s with
  | nil =>
    rw [List.append_nil]
    constructor
    · intro h
      by_cases hlt : start < s.length
      · rw [spansFrom, if_pos hlt, List.mem_singleton] at h
        obtain ⟨rfl, rfl⟩ := Prod.mk.inj h
        exact ⟨le_rfl, hlt, hbehind, hstart, hinside, .inl rfl⟩
      · rw [spansFrom, if_neg hlt] at h
        cases h
    · rintro ⟨hle, h⟩
      have hlt := h.start
      have hi : i = start := by
        by_contra hne
        have hpos := h.behind.resolve_left (by omega)
        exact hinside (i - 1) (by omega) (by omega) hpos
      have hj : j = s.length := by
        refine h.stop.resolve_right fun hstop => ?_
        have hjlt := (List.getElem?_eq_some_iff.mp hstop).1
        have hij := h.le
        exact hinside j (by omega) hjlt hstop
      rw [spansFrom, if_pos (by omega), hi, hj]
      exact List.mem_singleton_self _
  | cons c cs ih =>
    have happend : s ++ c :: cs = (s ++ [c]) ++ cs := by simp
    have hlen : (s ++ [c]).length = s.length + 1 := by simp
    have hlast : (s ++ [c])[s.length]? = some c := by simp
    have hold (k : ℕ) (hk : k < s.length) : (s ++ [c])[k]? = s[k]? :=
      List.getElem?_append_left hk
    by_cases hc : c = nl
    · subst hc
      rw [spansFrom, if_pos rfl, List.mem_cons, happend, ← hlen,
        ih (by omega) (.inr (by rw [hlen]; simp)) (fun k h1 h2 => by omega)]
      have hat : ((s ++ [c]) ++ cs)[s.length]? = some c := by simp
      have hin (k : ℕ) (hk : k < s.length) : ((s ++ [c]) ++ cs)[k]? = s[k]? := by
        rw [List.getElem?_append_left (by omega), hold k hk]
      constructor
      · rintro (h | ⟨h, hline⟩)
        · obtain ⟨rfl, rfl⟩ := Prod.mk.inj h
          refine ⟨le_rfl, ⟨by simp; omega, ?_, hstart, ?_, .inr hat⟩⟩
          · refine hbehind.imp_right fun h => ?_
            rwa [hin _ (List.getElem?_eq_some_iff.mp h).1]
          · intro k h1 h2
            rw [hin k h2]
            exact hinside k h1 h2
        · exact ⟨by omega, hline⟩
      · rintro ⟨hle, hline⟩
        by_cases hi : s.length + 1 ≤ i
        · exact .inr ⟨by omega, hline⟩
        · left
          have hstart' : i = start := by
            by_contra hne
            have hpos := hline.behind.resolve_left (by omega)
            rw [hin (i - 1) (by omega)] at hpos
            exact hinside (i - 1) (by omega) (by omega) hpos
          have hij := hline.le
          have hge : s.length ≤ j := by
            by_contra hlt
            refine hline.stop.elim (fun h => ?_) (fun h => ?_)
            · simp at h
              omega
            · rw [hin j (by omega)] at h
              exact hinside j (by omega) (by omega) h
          have hle' : j ≤ s.length := by
            by_contra hlt
            exact hline.inside s.length (by omega) (by omega) hat
          rw [hstart', le_antisymm hle' hge]
    · rw [spansFrom, if_neg hc, happend, ← hlen, ih (by omega) ?_ ?_]
      · refine hbehind.imp_right fun h => ?_
        rwa [hold _ (by have := (List.getElem?_eq_some_iff.mp h).1; omega)]
      · intro k h1 h2
        rw [hlen] at h2
        by_cases hk : k < s.length
        · rw [hold k hk]
          exact hinside k h1 hk
        · rw [show k = s.length by omega, hlast]
          simpa using hc

theorem mem_spans {s : List α} {i j : ℕ} : (i, j) ∈ spans nl s ↔ IsLine nl s i j := by
  have h : (i, j) ∈ spansFrom nl 0 ([] : List α).length s ↔ 0 ≤ i ∧ IsLine nl ([] ++ s) i j :=
    mem_spansFrom (Nat.zero_le _) (.inl rfl) (fun k _ hk => by simp at hk)
  rw [List.nil_append] at h
  exact h.trans (and_iff_right (Nat.zero_le _))

theorem spansFrom_start {start pos : ℕ} {s : List α} (hle : start ≤ pos) {l : ℕ × ℕ}
    (hl : l ∈ spansFrom nl start pos s) : start ≤ l.1 := by
  induction s generalizing start pos with
  | nil =>
    rw [spansFrom] at hl
    split at hl
    · rw [List.mem_singleton.mp hl]
    · cases hl
  | cons c cs ih =>
    rw [spansFrom] at hl
    split at hl
    · rcases List.mem_cons.mp hl with rfl | hl
      · exact le_rfl
      · have := ih le_rfl hl
        omega
    · exact ih (by omega) hl

/-- The lines stand in the order of the text. -/
theorem pairwise_spansFrom {start pos : ℕ} {s : List α} (hle : start ≤ pos) :
    (spansFrom nl start pos s).Pairwise fun l l' => l.1 < l'.1 := by
  induction s generalizing start pos with
  | nil =>
    rw [spansFrom]
    split <;> simp
  | cons c cs ih =>
    rw [spansFrom]
    split
    · refine List.pairwise_cons.mpr ⟨fun l hl => ?_, ih le_rfl⟩
      have := spansFrom_start le_rfl hl
      omega
    · exact ih (by omega)

/-- What the loop finds is what `f` makes of the first line that it accepts. -/
theorem lineLoop_eq_some {s : List α} {f : ℕ → ℕ → Option β} {b : β} :
    lineLoop nl s f s.length 0 = some b ↔ ∃ i j, IsLine nl s i j ∧ f i j = some b ∧
      ∀ i' j', IsLine nl s i' j' → i' < i → f i' j' = none := by
  rw [lineLoop_eq s f _ _ (by omega), List.drop_zero, ← spans]
  have hsorted : (spans nl s).Pairwise fun l l' => l.1 < l'.1 := pairwise_spansFrom le_rfl
  rw [List.findSome?_eq_some_iff]
  constructor
  · rintro ⟨ls, l, ls', hls, hl, hnone⟩
    have hmem : l ∈ spans nl s := by simp [hls]
    refine ⟨l.1, l.2, mem_spans.mp hmem, hl, fun i' j' hline hlt => ?_⟩
    have hmem' := mem_spans.mpr hline
    rw [hls] at hmem' hsorted
    rcases List.mem_append.mp hmem' with h | h
    · exact hnone _ h
    · -- The lines behind `l` begin behind it.
      have hle : l.1 ≤ i' := by
        rcases List.mem_cons.mp h with h | h
        · rw [← h]
        · exact ((List.pairwise_cons.mp (List.pairwise_append.mp hsorted).2.1).1 _ h).le
      omega
  · rintro ⟨i, j, hline, hb, hnone⟩
    obtain ⟨ls, ls', hls⟩ := List.append_of_mem (mem_spans.mpr hline)
    refine ⟨ls, (i, j), ls', hls, hb, fun l hl => ?_⟩
    have hmem : l ∈ spans nl s := by simp [hls, hl]
    rw [hls] at hsorted
    exact hnone l.1 l.2 (mem_spans.mp hmem)
      ((List.pairwise_append.mp hsorted).2.2 l hl (i, j) (List.mem_cons_self ..))

theorem lineLoop_eq_none {s : List α} {f : ℕ → ℕ → Option β} :
    lineLoop nl s f s.length 0 = none ↔ ∀ i j, IsLine nl s i j → f i j = none := by
  rw [lineLoop_eq s f _ _ (by omega), List.drop_zero, ← spans, List.findSome?_eq_none_iff]
  constructor
  · exact fun h i j hline => h (i, j) (mem_spans.mpr hline)
  · exact fun h l hl => h l.1 l.2 (mem_spans.mp hl)

/-! ## Lines by their contents -/

/-- The lines of a text, where `cur` has been read of the first. -/
def linesFrom (nl : α) : List α → List α → List (List α)
  | cur, [] => if cur = [] then [] else [cur]
  | cur, c :: cs => if c = nl then cur :: linesFrom nl [] cs else linesFrom nl (cur ++ [c]) cs

def lines (nl : α) (s : List α) : List (List α) := linesFrom nl [] s

theorem linesFrom_append (cur s t : List α) :
    linesFrom nl cur (s ++ nl :: t) = linesFrom nl cur (s ++ [nl]) ++ lines nl t := by
  induction s generalizing cur with
  | nil => simp [linesFrom, lines]
  | cons c cs ih =>
    simp only [List.cons_append, linesFrom]
    split
    · rw [ih, List.cons_append]
    · exact ih _

/-- A text behind a separator adds its lines. -/
theorem lines_append (s t : List α) :
    lines nl (s ++ [nl] ++ t) = lines nl (s ++ [nl]) ++ lines nl t := by
  rw [List.append_assoc, List.singleton_append]
  exact linesFrom_append [] s t

/-! ## Words -/

/-- The words of a text, where `cur` has been read of the first. -/
def wordsFrom (sp : α) : List α → List α → List (List α)
  | cur, [] => if cur = [] then [] else [cur]
  | cur, c :: cs =>
    if c = sp then if cur = [] then wordsFrom sp [] cs else cur :: wordsFrom sp [] cs
    else wordsFrom sp (cur ++ [c]) cs

def words (sp : α) (s : List α) : List (List α) := wordsFrom sp [] s

/-- The text without separators at its ends. -/
def trim (sp : α) (s : List α) : List α :=
  (s.dropWhile fun c => c = sp).rdropWhile fun c => c = sp

/-- Single separators stand between the words, and nowhere else. -/
structure Spaced (sp : α) (s : List α) : Prop where
  head : s.head? ≠ some sp
  last : s.getLast? ≠ some sp
  apart : s.IsChain fun a b => a ≠ sp ∨ b ≠ sp

@[simp] theorem words_cons_sep (s : List α) : words sp (sp :: s) = words sp s := by
  simp [words, wordsFrom]

theorem words_dropWhile (s : List α) : words sp (s.dropWhile fun c => c = sp) = words sp s := by
  induction s with
  | nil => rfl
  | cons c cs ih =>
    by_cases hc : c = sp
    · subst hc
      rw [List.dropWhile_cons_of_pos (by simp), ih, words_cons_sep]
    · rw [List.dropWhile_cons_of_neg (by simpa using hc)]

theorem wordsFrom_concat_sep (cur s : List α) :
    wordsFrom sp cur (s ++ [sp]) = wordsFrom sp cur s := by
  induction s generalizing cur with
  | nil =>
    by_cases hcur : cur = [] <;> simp [wordsFrom, hcur]
  | cons c cs ih =>
    simp only [List.cons_append, wordsFrom]
    rw [ih, ih]

theorem words_rdropWhile (s : List α) : words sp (s.rdropWhile fun c => c = sp) = words sp s := by
  induction s using List.reverseRecOn with
  | nil => rfl
  | append_singleton s c ih =>
    by_cases hc : c = sp
    · subst hc
      rw [List.rdropWhile_concat_pos _ _ _ (by simp), ih]
      exact (wordsFrom_concat_sep [] s).symm
    · rw [List.rdropWhile_concat_neg _ _ _ (by simpa using hc)]

theorem words_trim (s : List α) : words sp (trim sp s) = words sp s := by
  rw [trim, words_rdropWhile, words_dropWhile]

theorem wordsFrom_ne_nil {cur s : List α} (hcur : cur ≠ []) : wordsFrom sp cur s ≠ [] := by
  induction s generalizing cur with
  | nil => simp [wordsFrom, hcur]
  | cons c cs ih =>
    rw [wordsFrom, if_neg hcur]
    split
    · simp
    · exact ih (by simp)

/-- A text that is spaced like that is its words, joined. -/
theorem intercalate_wordsFrom {cur s : List α} (hhead : cur = [] → s.head? ≠ some sp)
    (hlast : s.getLast? ≠ some sp) (hapart : s.IsChain fun a b => a ≠ sp ∨ b ≠ sp) :
    [sp].intercalate (wordsFrom sp cur s) = cur ++ s := by
  induction s generalizing cur with
  | nil =>
    by_cases hcur : cur = []
    · simp [wordsFrom, hcur]
    · simp [wordsFrom, hcur]
  | cons c cs ih =>
    have hlast' (d : α) (ds : List α) (hds : cs = d :: ds) : cs.getLast? ≠ some sp := by
      rw [hds] at hlast ⊢
      rwa [List.getLast?_cons_cons] at hlast
    by_cases hc : c = sp
    · subst hc
      have hcur : cur ≠ [] := fun h => hhead h rfl
      rw [wordsFrom, if_pos rfl, if_neg hcur]
      cases cs with
      | nil => exact absurd rfl hlast
      | cons d ds =>
        obtain ⟨hcd, hchain⟩ := List.isChain_cons_cons.mp hapart
        have hd : d ≠ c := hcd.resolve_left (fun h => h rfl)
        have hrest : [c].intercalate (wordsFrom c [] (d :: ds)) = [] ++ d :: ds :=
          ih (fun _ => by simpa using hd) (hlast' d ds rfl) hchain
        have hne : wordsFrom c [] (d :: ds) ≠ [] := by
          rw [wordsFrom, if_neg hd]
          exact wordsFrom_ne_nil (by simp)
        obtain ⟨w, ws, hw⟩ := List.exists_cons_of_ne_nil hne
        rw [hw, List.intercalate_cons_cons, ← hw, hrest]
        simp
    · rw [wordsFrom, if_neg hc]
      have hlastCs : cs.getLast? ≠ some sp := by
        cases cs with
        | nil => simp
        | cons d ds => exact hlast' d ds rfl
      have hrest : [sp].intercalate (wordsFrom sp (cur ++ [c]) cs) = cur ++ [c] ++ cs :=
        ih (fun h => by simp at h) hlastCs hapart.tail
      rw [hrest, List.append_assoc, List.singleton_append]

theorem Spaced.intercalate_words {s : List α} (h : Spaced sp s) :
    [sp].intercalate (words sp s) = s :=
  intercalate_wordsFrom (fun _ => h.head) h.last h.apart

/-- Without separators at its ends, a text is spaced if no two stand together. -/
theorem spaced_trim {s : List α} (hapart : s.IsChain fun a b => a ≠ sp ∨ b ≠ sp) :
    Spaced sp (trim sp s) := by
  have hsuffix := List.dropWhile_suffix (l := s) fun c => decide (c = sp)
  have hprefix := List.rdropWhile_prefix (fun c => decide (c = sp))
    (s.dropWhile fun c => decide (c = sp))
  have htrim : (trim sp s).IsChain fun a b => a ≠ sp ∨ b ≠ sp := by
    have hrest := hapart.suffix hsuffix
    obtain ⟨t, ht⟩ := hprefix
    rw [← ht] at hrest
    exact hrest.left_of_append
  refine ⟨fun h => ?_, fun h => ?_, htrim⟩
  · obtain ⟨t, ht⟩ := List.head?_eq_some_iff.mp h
    obtain ⟨u, hu⟩ := hprefix
    have hhead := List.head?_dropWhile_not (fun c => decide (c = sp)) s
    rw [← hu, ← trim, ht] at hhead
    simp at hhead
  · obtain ⟨t, ht⟩ := List.getLast?_eq_some_iff.mp h
    have hne : trim sp s ≠ [] := by simp [ht]
    have hlast := List.rdropWhile_last_not (fun c => decide (c = sp)) _ hne
    apply hlast
    rw [List.getLast?_eq_some_getLast hne, Option.some.injEq] at h
    exact decide_eq_true h

theorem trim_eq_self {s : List α} (h : Spaced sp s) : trim sp s = s := by
  have hdrop : (s.dropWhile fun c => decide (c = sp)) = s := by
    cases s with
    | nil => rfl
    | cons c cs =>
      have hc : c ≠ sp := by simpa using h.head
      rw [List.dropWhile_cons_of_neg (by simpa using hc)]
  rw [trim, hdrop]
  apply List.rdropWhile_eq_self_iff.mpr
  intro hne hlast
  apply h.last
  rw [List.getLast?_eq_some_getLast hne]
  simpa using hlast

end FuzzUSB.TextLines
