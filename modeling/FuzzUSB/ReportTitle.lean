import FuzzUSB.Report

/-!
# Titles of reports

`sanitizeTitle` brings a title into a normal form: printable characters, with single spaces
between the words.
-/

namespace FuzzUSB.CrashReport
open TextLines CLayout

def space : Byte := 0x20
def tab : Byte := 0x09
def verticalTab : Byte := 0x0b
def formFeed : Byte := 0x0c

def maxTitleLen : ℕ := 120

def asciiSpace (ch : Byte) : Bool :=
  ch = tab || ch = newline || ch = verticalTab || ch = formFeed || ch = carriageReturn ||
    ch = space

/-- `strings.TrimSpace` on ASCII text. -/
def trimSpace (s : Bytes) : Bytes := (s.dropWhile asciiSpace).rdropWhile asciiSpace

/-- The `switch` of `sanitizeTitle`; `none` is a character that is left out. -/
def shown (ch : Byte) : Option Byte :=
  if ch = tab then some space else if ch < 0x20 ∨ 0x7f ≤ ch then none else some ch

/-- The loop of `sanitizeTitle`, behind the character `prev`. -/
def sanitizeLoop : Byte → Bytes → Bytes
  | _, [] => []
  | prev, ch :: cs =>
    match shown ch with
    | none => sanitizeLoop prev cs
    | some ch =>
      if ch = space ∧ prev = space then sanitizeLoop prev cs else ch :: sanitizeLoop ch cs

def sanitizeTitle (title : Bytes) : Bytes := trimSpace (sanitizeLoop space (title.take maxTitleLen))

/-! ## The normal form -/

def Printable (ch : Byte) : Prop := 0x20 ≤ ch ∧ ch < 0x7f

instance (ch : Byte) : Decidable (Printable ch) := inferInstanceAs (Decidable (_ ∧ _))

/-- What a title looks like. -/
structure Sanitary (title : Bytes) : Prop where
  length : title.length ≤ maxTitleLen
  printable : ∀ ch ∈ title, Printable ch
  spaced : Spaced space title

theorem printable_of_shown {c ch : Byte} (h : shown c = some ch) : Printable ch := by
  unfold shown at h
  split_ifs at h with h1 h2
  · obtain rfl := Option.some.inj h
    exact ⟨by decide, by decide⟩
  · obtain rfl := Option.some.inj h
    obtain ⟨hlo, hhi⟩ := not_or.mp h2
    exact ⟨BitVec.not_lt.mp hlo, BitVec.not_le.mp hhi⟩

theorem shown_of_printable {ch : Byte} (h : Printable ch) : shown ch = some ch := by
  obtain ⟨hlo, hhi⟩ := h
  have htab : ch ≠ tab := by
    rintro rfl
    exact absurd hlo (by decide)
  rw [shown, if_neg htab, if_neg (not_or.mpr ⟨BitVec.not_lt.mpr hlo, BitVec.not_le.mpr hhi⟩)]

theorem printable_sanitizeLoop (prev : Byte) (s : Bytes) :
    ∀ ch ∈ sanitizeLoop prev s, Printable ch := by
  induction s generalizing prev with
  | nil => simp [sanitizeLoop]
  | cons c cs ih =>
    unfold sanitizeLoop
    split
    · exact ih prev
    · next ch hch =>
      split
      · exact ih prev
      · exact List.forall_mem_cons.mpr ⟨printable_of_shown hch, ih ch⟩

theorem length_sanitizeLoop (prev : Byte) (s : Bytes) :
    (sanitizeLoop prev s).length ≤ s.length := by
  induction s generalizing prev with
  | nil => simp [sanitizeLoop]
  | cons c cs ih =>
    have hskip := (ih prev).trans (Nat.le_succ _)
    unfold sanitizeLoop
    split
    · exact hskip
    · next ch hch =>
      split
      · exact hskip
      · exact Nat.succ_le_succ (ih ch)

/-- No two spaces stand together, also not with the character in front. -/
theorem isChain_sanitizeLoop (prev : Byte) (s : Bytes) :
    (prev :: sanitizeLoop prev s).IsChain fun a b => a ≠ space ∨ b ≠ space := by
  induction s generalizing prev with
  | nil => exact .singleton _
  | cons c cs ih =>
    unfold sanitizeLoop
    split
    · exact ih prev
    · next ch hch =>
      split
      · exact ih prev
      · next hnot =>
        refine List.isChain_cons_cons.mpr ⟨?_, ih ch⟩
        rwa [not_and_or, or_comm] at hnot

/-- The loop keeps the words. -/
theorem wordsFrom_sanitizeLoop {prev : Byte} {cur : Bytes} (hprev : prev = space → cur = [])
    (s : Bytes) :
    wordsFrom space cur (sanitizeLoop prev s) = wordsFrom space cur (s.filterMap shown) := by
  induction s generalizing prev cur with
  | nil => rfl
  | cons c cs ih =>
    unfold sanitizeLoop
    cases hc : shown c with
    | none =>
      rw [List.filterMap_cons_none hc]
      exact ih hprev
    | some ch =>
      rw [List.filterMap_cons_some hc]
      dsimp only
      by_cases hch : ch = space
      · subst hch
        by_cases hsp : prev = space
        · obtain rfl := hprev hsp
          rw [if_pos ⟨rfl, hsp⟩, ih hprev]
          exact (words_cons_sep _).symm
        · rw [if_neg fun h => hsp h.2]
          simp only [wordsFrom, if_true]
          rw [ih fun _ => rfl]
      · rw [if_neg fun h => hch h.1, wordsFrom, if_neg hch, wordsFrom, if_neg hch]
        exact ih fun h => absurd h hch

theorem dropWhile_congr {α : Type*} {p q : α → Bool} {s : List α} (h : ∀ c ∈ s, p c = q c) :
    s.dropWhile p = s.dropWhile q := by
  induction s with
  | nil => rfl
  | cons c cs ih =>
    obtain ⟨hc, hcs⟩ := List.forall_mem_cons.mp h
    rw [List.dropWhile_cons, List.dropWhile_cons, hc, ih hcs]

/-- On printable text only spaces are trimmed. -/
theorem trimSpace_eq {s : Bytes} (h : ∀ ch ∈ s, Printable ch) : trimSpace s = trim space s := by
  have hspace (ch : Byte) (hch : Printable ch) : asciiSpace ch = decide (ch = space) := by
    have hne (c : Byte) (hc : ¬Printable c) : ch ≠ c := fun heq => hc (heq ▸ hch)
    simp [asciiSpace, hne tab (by decide), hne newline (by decide), hne verticalTab (by decide),
      hne formFeed (by decide), hne carriageReturn (by decide)]
  have hdrop : s.dropWhile asciiSpace = s.dropWhile fun ch => decide (ch = space) :=
    dropWhile_congr fun ch hch => hspace ch (h ch hch)
  rw [trimSpace, trim, hdrop, List.rdropWhile, List.rdropWhile]
  congr 1
  apply dropWhile_congr
  intro ch hch
  exact hspace ch (h ch ((List.dropWhile_sublist _).subset (List.mem_reverse.mp hch)))

theorem sanitizeTitle_eq (title : Bytes) :
    sanitizeTitle title = trim space (sanitizeLoop space (title.take maxTitleLen)) :=
  trimSpace_eq (printable_sanitizeLoop _ _)

theorem trim_sublist {α : Type*} [DecidableEq α] (sp : α) (s : List α) :
    (trim sp s).Sublist s :=
  List.Sublist.trans (List.IsPrefix.sublist ( List.rdropWhile_prefix _ _)) (List.dropWhile_sublist _)

/-- The words of a title are those that its first `maxTitleLen` bytes show. -/
theorem words_sanitizeTitle (title : Bytes) :
    words space (sanitizeTitle title) =
      words space ((title.take maxTitleLen).filterMap shown) := by
  rw [sanitizeTitle_eq, words_trim]
  exact wordsFrom_sanitizeLoop (fun _ => rfl) _

theorem sanitary_sanitizeTitle (title : Bytes) : Sanitary (sanitizeTitle title) := by
  rw [sanitizeTitle_eq]
  have hsub := trim_sublist space (sanitizeLoop space (title.take maxTitleLen))
  refine ⟨?_, fun ch hch => printable_sanitizeLoop _ _ ch (hsub.subset hch), ?_⟩
  · calc _ ≤ _ := hsub.length_le
      _ ≤ (title.take maxTitleLen).length := length_sanitizeLoop _ _
      _ ≤ maxTitleLen := List.length_take_le _ _
  · exact spaced_trim (isChain_sanitizeLoop space _).tail

theorem sanitizeLoop_eq_self {prev : Byte} {s : Bytes} (hs : ∀ ch ∈ s, Printable ch)
    (hchain : (prev :: s).IsChain fun a b => a ≠ space ∨ b ≠ space) :
    sanitizeLoop prev s = s := by
  induction s generalizing prev with
  | nil => rfl
  | cons c cs ih =>
    obtain ⟨hc, hcs⟩ := List.forall_mem_cons.mp hs
    obtain ⟨hpair, hrest⟩ := List.isChain_cons_cons.mp hchain
    rw [sanitizeLoop, shown_of_printable hc]
    dsimp only
    rw [if_neg fun h => hpair.elim (fun hp => hp h.2) fun hp => hp h.1, ih hcs hrest]

/-- The titles that `sanitizeTitle` makes are those that it leaves as they are, with the words
that the given title shows. -/
theorem sanitizeTitle_normal (title : Bytes) :
    (sanitizeTitle title = title ↔ Sanitary title) ∧
      sanitizeTitle (sanitizeTitle title) = sanitizeTitle title ∧
      sanitizeTitle title =
        [space].intercalate (words space ((title.take maxTitleLen).filterMap shown)) := by
  have hself {t : Bytes} (h : Sanitary t) : sanitizeTitle t = t := by
    have hchain : (space :: t).IsChain fun a b => a ≠ space ∨ b ≠ space := by
      refine h.spaced.apart.cons fun c hc => .inr fun heq => h.spaced.head ?_
      rwa [heq] at hc
    rw [sanitizeTitle_eq, List.take_of_length_le h.length, sanitizeLoop_eq_self h.printable hchain]
    exact trim_eq_self h.spaced
  refine ⟨⟨fun h => h ▸ sanitary_sanitizeTitle title, hself⟩,
    hself (sanitary_sanitizeTitle title), ?_⟩
  rw [← words_sanitizeTitle]
  exact (sanitary_sanitizeTitle title).spaced.intercalate_words.symm

end FuzzUSB.CrashReport
