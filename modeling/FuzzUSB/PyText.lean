import Mathlib.Data.Int.Notation
import Mathlib.Data.Nat.Notation
import Mathlib.Tactic.Common

/-!
# Python text

The methods of `str` that a line-based configuration reader needs, on lists of
characters: `split` on one character, `startswith`, `strip`, and `int` as Python 3.11
has it.
-/

namespace FuzzUSB.PyText

/-- A Python `str`, as its characters. -/
abbrev Str := List Char

/-- `s.split(sep)` for a one-character separator: never empty, empty pieces are kept. -/
def split (sep : Char) : Str → List Str
  | [] => [[]]
  | c :: cs =>
    if c = sep then [] :: split sep cs
    else match split sep cs with
      | [] => [[c]]
      | w :: ws => (c :: w) :: ws

/-- `s.startswith(p)`. -/
def startsWith (s p : Str) : Bool := p.isPrefixOf s

/-- `c.isspace()`. -/
def isSpace (c : Char) : Bool :=
  let n := c.toNat
  (9 ≤ n && n ≤ 13) || (28 ≤ n && n ≤ 32) || n == 0x85 || n == 0xa0 || n == 0x1680 ||
    (0x2000 ≤ n && n ≤ 0x200a) || n == 0x2028 || n == 0x2029 || n == 0x202f || n == 0x205f ||
    n == 0x3000

/-- The characters at both ends that satisfy `p` are taken off. -/
def stripBy (p : Char → Bool) (s : Str) : Str := ((s.dropWhile p).reverse.dropWhile p).reverse

/-- `s.strip()`. -/
def strip : Str → Str := stripBy isSpace

/-- What `int` takes for space. The separators of ASCII are not among it. -/
def isIntSpace (c : Char) : Bool := isSpace c && !(28 ≤ c.toNat && c.toNat ≤ 31)

/-- The zeros of the decimal digits outside ASCII, each with its nine behind it. -/
def zeros : List ℕ :=
  [0x660, 0x6f0, 0x7c0, 0x966, 0x9e6, 0xa66, 0xae6, 0xb66, 0xbe6, 0xc66, 0xce6, 0xd66, 0xde6, 0xe50,
    0xed0, 0xf20, 0x1040, 0x1090, 0x17e0, 0x1810, 0x1946, 0x19d0, 0x1a80, 0x1a90, 0x1b50, 0x1bb0,
    0x1c40, 0x1c50, 0xa620, 0xa8d0, 0xa900, 0xa9d0, 0xa9f0, 0xaa50, 0xabf0, 0xff10, 0x104a0,
    0x10d30, 0x11066, 0x110f0, 0x11136, 0x111d0, 0x112f0, 0x11450, 0x114d0, 0x11650, 0x116c0,
    0x11730, 0x118e0, 0x11950, 0x11c50, 0x11d50, 0x11da0, 0x16a60, 0x16ac0, 0x16b50, 0x1d7ce,
    0x1d7d8, 0x1d7e2, 0x1d7ec, 0x1d7f6, 0x1e140, 0x1e2f0, 0x1e950, 0x1fbf0]

/-- `unicodedata.decimal(c)`. -/
def digitOf (c : Char) : Option ℕ :=
  if c.isDigit then some (c.toNat - '0'.toNat)
  else if c.toNat < 128 then none
  else (zeros.find? fun z => z ≤ c.toNat && c.toNat < z + 10).map (c.toNat - ·)

/-- The digits of a decimal literal, single underscores allowed between two digits;
`digit` says whether the character just read was a digit. -/
def decimal : ℕ → Bool → Str → Option ℕ
  | acc, digit, [] => if digit then some acc else none
  | acc, digit, c :: cs =>
    match digitOf c with
    | some d => decimal (10 * acc + d) true cs
    | none => if c = '_' ∧ digit then decimal acc false cs else none

/-- `sys.int_info.default_max_str_digits` -/
def maxStrDigits : ℕ := 4300

/-- The digits behind the sign, no more than Python reads. -/
def digits (ds : Str) : Option ℕ :=
  if maxStrDigits < ds.countP (digitOf · |>.isSome) then none else decimal 0 false ds

/-- `int(s)`, with `none` for a `ValueError`. -/
def int (s : Str) : Option ℤ :=
  match stripBy isIntSpace s with
  | '-' :: ds => (digits ds).map fun n => -(n : ℤ)
  | '+' :: ds => (digits ds).map fun n => (n : ℤ)
  | ds => (digits ds).map fun n => (n : ℤ)

example : int " -1_0\n".toList = some (-10) := by decide

example : int "\x1c1".toList = none := by decide

example : int "٣".toList = some 3 := by decide

end FuzzUSB.PyText
