import FuzzUSB.PyText
import Mathlib.Algebra.Order.Ring.Nat
import Mathlib.Order.Basic
import Mathlib.Data.List.Infix
import Mathlib.Data.List.DropRight
import Mathlib.Data.List.TakeWhile

/-!
# Go text

`strings.TrimSpace` and `strconv.ParseUint` on a string given by its runes. A byte that is
not part of valid UTF-8 is the rune U+FFFD, which is neither a space nor a digit.
-/

namespace FuzzUSB.GoText
open PyText (Str)

/-- `unicode.IsSpace`. -/
def isSpace (c : Char) : Bool :=
  let n := c.toNat
  (9 ≤ n && n ≤ 13) || n == 32 || n == 0x85 || n == 0xa0 || n == 0x1680 ||
    (0x2000 ≤ n && n ≤ 0x200a) || n == 0x2028 || n == 0x2029 || n == 0x202f || n == 0x205f ||
    n == 0x3000

/-- `strings.TrimSpace`. -/
def trimSpace (s : Str) : Str := (s.dropWhile isSpace).rdropWhile isSpace

inductive NumError
  | errSyntax
  | errRange
  deriving DecidableEq

/-- The value of a digit or a letter. -/
def digitValue (c : Char) : Option ℕ :=
  if c.isDigit then some (c.toNat - '0'.toNat)
  else if c.isAlpha then some (c.toLower.toNat - 'a'.toNat + 10)
  else none

/-- The loop of `ParseUint`, with the number read so far. -/
def parseDigits (base bitSize : ℕ) : ℕ → Str → Except NumError ℕ
  | n, [] => .ok n
  | n, c :: cs =>
    match digitValue c with
    | none => .error .errSyntax
    | some d =>
      if base ≤ d then .error .errSyntax
      else if 2 ^ bitSize ≤ n * base + d then .error .errRange
      else parseDigits base bitSize (n * base + d) cs

/-- `strconv.ParseUint` for a base that is not 0. -/
def parseUint (base bitSize : ℕ) (s : Str) : Except NumError ℕ :=
  if s = [] then .error .errSyntax else parseDigits base bitSize 0 s

/-- The number that `ParseUint` returns beside its error. -/
def parsedValue (bitSize : ℕ) : Except NumError ℕ → ℕ
  | .ok n => n
  | .error .errSyntax => 0
  | .error .errRange => 2 ^ bitSize - 1

/-! ## What is a number -/

def IsDigit (base : ℕ) (c : Char) : Prop := ∃ d, digitValue c = some d ∧ d < base

def IsDigits (base : ℕ) (s : Str) : Prop := ∀ c ∈ s, IsDigit base c

/-- The number that digits append to `n`. -/
def appendDigits (base n : ℕ) (s : Str) : ℕ :=
  s.foldl (fun n c => n * base + (digitValue c).getD 0) n

def number (base : ℕ) (s : Str) : ℕ := appendDigits base 0 s

/-- The text is a number, between white space. -/
def Writes (base : ℕ) (s : Str) (v : ℕ) : Prop :=
  ∃ pre ds post, s = pre ++ ds ++ post ∧ (∀ c ∈ pre, isSpace c) ∧ (∀ c ∈ post, isSpace c) ∧
    ds ≠ [] ∧ IsDigits base ds ∧ number base ds = v

/-- The text begins with a number that does not fit. -/
def BeginsTooLarge (base bitSize : ℕ) (s : Str) : Prop :=
  ∃ ds, ds <+: s ∧ IsDigits base ds ∧ 2 ^ bitSize ≤ number base ds

theorem IsDigit.not_isSpace {base : ℕ} {c : Char} (h : IsDigit base c) : isSpace c = false := by
  obtain ⟨d, hd, -⟩ := h
  have halnum : c.isDigit ∨ c.isAlpha := by
    by_contra hno
    push Not at hno
    simp [digitValue, hno] at hd
  have hdigit : c.isDigit = (decide (c.val ≥ 48) && decide (c.val ≤ 57)) := rfl
  have halpha : c.isAlpha = (decide (c.val ≥ 65 ∧ c.val ≤ 90) ||
      (decide (c.val ≥ 97) && decide (c.val ≤ 122))) := rfl
  have hcode : 48 ≤ c.toNat ∧ c.toNat ≤ 57 ∨ 65 ≤ c.toNat ∧ c.toNat ≤ 90 ∨
      97 ≤ c.toNat ∧ c.toNat ≤ 122 := by
    simp only [hdigit, halpha, Bool.or_eq_true, Bool.and_eq_true, decide_eq_true_eq, ge_iff_le,
      UInt32.le_iff_toNat_le] at halnum
    exact halnum.imp_right fun h => h
  simp only [isSpace, Bool.or_eq_false_iff, Bool.and_eq_false_iff, decide_eq_false_iff_not,
    beq_eq_false_iff_ne]
  omega

theorem appendDigits_cons (base n : ℕ) (c : Char) (s : Str) :
    appendDigits base n (c :: s) = appendDigits base (n * base + (digitValue c).getD 0) s := rfl

theorem le_appendDigits {base : ℕ} (hbase : 0 < base) (n : ℕ) (s : Str) :
    n ≤ appendDigits base n s := by
  induction s generalizing n with
  | nil => exact le_rfl
  | cons c s ih =>
    calc n ≤ n * base := Nat.le_mul_of_pos_right n hbase
      _ ≤ n * base + (digitValue c).getD 0 := Nat.le_add_right _ _
      _ ≤ _ := ih _

/-! ## What `ParseUint` accepts -/

section

variable {base bitSize : ℕ}

theorem parseDigits_eq_ok (hbase : 0 < base) {n v : ℕ} {s : Str} (hn : n < 2 ^ bitSize) :
    parseDigits base bitSize n s = .ok v ↔
      IsDigits base s ∧ appendDigits base n s = v ∧ v < 2 ^ bitSize := by
  induction s generalizing n with
  | nil =>
    simp only [parseDigits, IsDigits, appendDigits, List.foldl_nil, Except.ok.injEq]
    constructor
    · rintro rfl
      exact ⟨by simp, rfl, hn⟩
    · exact fun h => h.2.1
  | cons c s ih =>
    rw [parseDigits, IsDigits, List.forall_mem_cons, appendDigits_cons]
    cases hc : digitValue c with
    | none => simp [IsDigit, hc]
    | some d =>
      have hdigit : IsDigit base c ↔ d < base := by simp [IsDigit, hc]
      simp only [hdigit, Option.getD_some]
      split
      · next hd => simp [Nat.not_lt.mpr hd]
      · next hd =>
        split
        · next hbig =>
          -- What comes later does not make the number smaller.
          have := le_appendDigits hbase (n * base + d) s
          constructor
          · rintro ⟨⟩
          · rintro ⟨-, rfl, h⟩
            omega
        · next hfit =>
          rw [ih (Nat.lt_of_not_le hfit), and_iff_right (Nat.lt_of_not_le hd)]
          rfl

theorem parseDigits_eq_range {n : ℕ} {s : Str} (hn : n < 2 ^ bitSize) :
    parseDigits base bitSize n s = .error .errRange ↔
      ∃ ds, ds <+: s ∧ IsDigits base ds ∧ 2 ^ bitSize ≤ appendDigits base n ds := by
  induction s generalizing n with
  | nil =>
    simp only [parseDigits, reduceCtorEq, List.prefix_nil, false_iff]
    rintro ⟨ds, rfl, -, h⟩
    exact absurd hn (Nat.not_lt.mpr h)
  | cons c s ih =>
    -- The empty prefix is not too large, and a longer one begins with the same digit.
    have hcons : (∃ ds, ds <+: c :: s ∧ IsDigits base ds ∧ 2 ^ bitSize ≤ appendDigits base n ds) ↔
        IsDigit base c ∧ ∃ ds, ds <+: s ∧ IsDigits base ds ∧
          2 ^ bitSize ≤ appendDigits base (n * base + (digitValue c).getD 0) ds := by
      constructor
      · rintro ⟨ds, hpre, hds, hbig⟩
        cases ds with
        | nil => exact absurd hn (Nat.not_lt.mpr hbig)
        | cons c' ds =>
          obtain ⟨rfl, htail⟩ := List.cons_prefix_cons.mp hpre
          obtain ⟨hc, hds⟩ := List.forall_mem_cons.mp hds
          exact ⟨hc, ds, htail, hds, hbig⟩
      · rintro ⟨hc, ds, hpre, hds, hbig⟩
        exact ⟨c :: ds, List.cons_prefix_cons.mpr ⟨rfl, hpre⟩, List.forall_mem_cons.mpr ⟨hc, hds⟩,
          hbig⟩
    rw [hcons, parseDigits]
    cases hc : digitValue c with
    | none => simp [IsDigit, hc]
    | some d =>
      have hdigit : IsDigit base c ↔ d < base := by simp [IsDigit, hc]
      simp only [hdigit, Option.getD_some]
      split
      · next hd => simp [Nat.not_lt.mpr hd]
      · next hd =>
        rw [and_iff_right (Nat.lt_of_not_le hd)]
        split
        · next hbig =>
          exact iff_of_true rfl ⟨[], List.nil_prefix, by simp [IsDigits], hbig⟩
        · next hfit => rw [ih (Nat.lt_of_not_le hfit)]

theorem parseUint_eq_ok (hbase : 0 < base) {v : ℕ} {s : Str} :
    parseUint base bitSize s = .ok v ↔
      s ≠ [] ∧ IsDigits base s ∧ number base s = v ∧ v < 2 ^ bitSize := by
  unfold parseUint
  split
  · next h => simp [h]
  · next h =>
    rw [parseDigits_eq_ok hbase (Nat.two_pow_pos bitSize), and_iff_right h]
    rfl

theorem parseUint_eq_range {s : Str} :
    parseUint base bitSize s = .error .errRange ↔ BeginsTooLarge base bitSize s := by
  unfold parseUint
  split
  · next h =>
    subst h
    apply iff_of_false (by simp)
    rintro ⟨ds, hpre, -, hbig⟩
    obtain rfl := List.prefix_nil.mp hpre
    exact absurd (Nat.two_pow_pos bitSize) (Nat.not_lt.mpr hbig)
  · exact parseDigits_eq_range (Nat.two_pow_pos bitSize)

end

/-! ## White space -/

theorem trimSpace_eq {pre ds post : Str} (hpre : ∀ c ∈ pre, isSpace c)
    (hpost : ∀ c ∈ post, isSpace c) (hds : ∀ c ∈ ds, isSpace c = false) (hne : ds ≠ []) :
    trimSpace (pre ++ ds ++ post) = ds := by
  have hleft : (pre ++ ds ++ post).dropWhile isSpace = ds ++ post := by
    rw [List.append_assoc, List.dropWhile_append_of_pos hpre]
    cases ds with
    | nil => exact absurd rfl hne
    | cons c ds => simp [hds c (by simp)]
  have hright : (ds ++ post).rdropWhile isSpace = ds.rdropWhile isSpace := by
    unfold List.rdropWhile
    rw [List.reverse_append, List.dropWhile_append_of_pos (by simpa using hpost)]
  rw [trimSpace, hleft, hright, List.rdropWhile_eq_self_iff]
  intro hl
  simp [hds _ (List.getLast_mem hl)]

theorem exists_trimSpace (s : Str) :
    ∃ pre post, s = pre ++ trimSpace s ++ post ∧ (∀ c ∈ pre, isSpace c) ∧
      ∀ c ∈ post, isSpace c := by
  refine ⟨s.takeWhile isSpace, (s.dropWhile isSpace).rtakeWhile isSpace, ?_, ?_, ?_⟩
  · rw [trimSpace, List.append_assoc, List.rdropWhile_append_rtakeWhile,
      List.takeWhile_append_dropWhile]
  · exact fun c => List.mem_takeWhile_imp
  · exact fun c => List.mem_rtakeWhile_imp

/-- What `ParseUint` makes of a trimmed text is what the text writes. -/
theorem parseUint_trimSpace_eq_ok {base bitSize : ℕ} (hbase : 0 < base) {s : Str} {v : ℕ} :
    parseUint base bitSize (trimSpace s) = .ok v ↔ Writes base s v ∧ v < 2 ^ bitSize := by
  rw [parseUint_eq_ok hbase]
  constructor
  · rintro ⟨hne, hds, hv, hfit⟩
    obtain ⟨pre, post, hs, hpre, hpost⟩ := exists_trimSpace s
    exact ⟨⟨pre, trimSpace s, post, hs, hpre, hpost, hne, hds, hv⟩, hfit⟩
  · rintro ⟨⟨pre, ds, post, rfl, hpre, hpost, hne, hds, hv⟩, hfit⟩
    have htrim := trimSpace_eq hpre hpost (fun c hc => (hds c hc).not_isSpace) hne
    rw [htrim]
    exact ⟨hne, hds, hv, hfit⟩

example : parseUint 16 64 (trimSpace " ffffffff81A0\r".toList) = .ok 0xffffffff81a0 := by decide

end FuzzUSB.GoText
