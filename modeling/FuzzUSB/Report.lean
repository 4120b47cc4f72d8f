import FuzzUSB.TextLines
import FuzzUSB.CLayout

/-!
# Crashes in the console output

`containsCrash` looks for a line with an oops, and `simpleLineParser` for the first one.
Compiled regular expressions are taken as they are documented: what they find lies in the text.
-/

namespace FuzzUSB.CrashReport
open TextLines CLayout

abbrev Bytes := List Byte

def ascii (s : String) : Bytes := s.toList.map fun c => BitVec.ofNat 8 c.toNat

def newline : Byte := 10
def carriageReturn : Byte := 13

/-- What `FindSubmatchIndex` finds. A group that takes no part in the match is `none`. -/
structure Match where
  start : ℕ
  stop : ℕ
  groups : List (Option (ℕ × ℕ))

/-- A compiled `regexp.Regexp` -/
structure Regexp where
  find : Bytes → Option Match
  bounds : ∀ s m, find s = some m → m.start ≤ m.stop ∧ m.stop ≤ s.length

/-- `s[i:j]` -/
def slice (s : Bytes) (i j : ℕ) : Bytes := (s.drop i).take (j - i)

namespace Regexp

variable (re : Regexp)

/-- `re.Match` -/
def isMatch (s : Bytes) : Bool := (re.find s).isSome

/-- The groups of `re.FindSubmatch`. -/
def submatches (s : Bytes) : Option (List (Option Bytes)) :=
  (re.find s).map fun m => m.groups.map (Option.map fun g => slice s g.1 g.2)

end Regexp

def matchesAny (line : Bytes) (res : List Regexp) : Bool := res.any fun re => re.isMatch line

/-- `bytes.Index` -/
def index (sep : Bytes) : Bytes → Option ℕ
  | [] => if sep = [] then some 0 else none
  | c :: cs => if sep.isPrefixOf (c :: cs) then some 0 else (index sep cs).map (· + 1)

theorem isPrefixOf_append {s t : Bytes} (more : Bytes) (hlen : s.length ≤ t.length) :
    s.isPrefixOf (t ++ more) = s.isPrefixOf t := by
  rw [Bool.eq_iff_iff, List.isPrefixOf_iff_prefix, List.isPrefixOf_iff_prefix]
  exact List.isPrefix_append_of_length hlen

theorem index_length {sep s : Bytes} {p : ℕ} (h : index sep s = some p) :
    sep <+: s.drop p ∧ p + sep.length ≤ s.length := by
  induction s generalizing p with
  | nil =>
    unfold index at h
    split_ifs at h with hnil
    obtain rfl := Option.some.inj h
    simp [hnil]
  | cons c cs ih =>
    unfold index at h
    split_ifs at h with hprefix
    · obtain rfl := Option.some.inj h
      have hpre := List.isPrefixOf_iff_prefix.mp hprefix
      exact ⟨hpre, by simpa using hpre.length_le⟩
    · obtain ⟨q, hq, rfl⟩ := Option.map_eq_some_iff.mp h
      obtain ⟨hpre, hle⟩ := ih hq
      refine ⟨by simpa using hpre, ?_⟩
      rw [List.length_cons]
      omega

/-- Behind its first occurrence a text may go on. -/
theorem index_append {sep s : Bytes} {p : ℕ} (h : index sep s = some p) (more : Bytes) :
    index sep (s ++ more) = some p := by
  induction s generalizing p with
  | nil =>
    unfold index at h
    split_ifs at h with hnil
    subst hnil
    cases more <;> exact h
  | cons c cs ih =>
    have hle := (index_length h).2
    unfold index at h
    rw [List.cons_append, index]
    rw [← List.cons_append, isPrefixOf_append more (by omega)]
    split_ifs at h ⊢ with hprefix
    · exact h
    · obtain ⟨q, hq, rfl⟩ := Option.map_eq_some_iff.mp h
      rw [ih hq]
      rfl

/-- The expression that is a text without operators. -/
def literal (text : Bytes) : Regexp where
  find s := (index text s).map fun p => ⟨p, p + text.length, []⟩
  bounds := by
    intro s m hm
    obtain ⟨p, hp, rfl⟩ := Option.map_eq_some_iff.mp hm
    exact ⟨Nat.le_add_right _ _, (index_length hp).2⟩

/-- A text with `(.*)` behind it. -/
def restOfLine (text : Bytes) : Regexp where
  find s := (index text s).map fun p =>
    let start := p + text.length
    let stop := start + (s.drop start).idxOf newline
    ⟨p, stop, [some (start, stop)]⟩
  bounds := by
    intro s m hm
    obtain ⟨p, hp, rfl⟩ := Option.map_eq_some_iff.mp hm
    have hbound := (index_length hp).2
    have hidx := List.idxOf_le_length (l := s.drop (p + text.length)) (a := newline)
    rw [List.length_drop] at hidx
    dsimp only
    omega

structure StackFmt where
  /-- `none` stands for `parseStackTrace`. -/
  parts : List (Option Regexp)
  parts2 : List (Option Regexp)
  skip : List Bytes
  /-- The guilty frame, and why the report is corrupted. -/
  extractor : Option (List Bytes → Bytes × String)

/-- `fmt` is what `fmt.Sprintf` makes of the arguments. -/
structure OopsFormat where
  title : Regexp
  report : Option Regexp
  fmt : List Bytes → Bytes
  stack : Option StackFmt
  corrupted : Bool

structure Oops where
  header : Bytes
  formats : List OopsFormat
  suppressions : List Regexp

/-- `commonOopses` -/
def commonOopses : List Oops :=
  [{ header := ascii "panic:"
     formats :=
      [{ title := restOfLine (ascii "panic:")
         report := none
         fmt := fun args => ascii "panic:" ++ args.headD []
         stack := none
         corrupted := false }]
     suppressions := [literal (ascii "_panic:")] }]

def matchOops (line : Bytes) (oops : Oops) (ignores : List Regexp) : Bool :=
  if index oops.header line = none then false
  else if matchesAny line oops.suppressions then false
  else if matchesAny line ignores then false
  else true

section

variable (oopses : List Oops) (ignores : List Regexp)

def containsCrash (output : Bytes) : Bool :=
  (lineLoop newline output (fun pos next =>
    if oopses.any fun oops => matchOops (slice output pos next) oops ignores then some ()
    else none) output.length 0).isSome

/-- The loop of `simpleLineParser`: the oops, `StartPos` and `EndPos`. -/
def findOops (output : Bytes) : Option (Oops × ℕ × ℕ) :=
  lineLoop newline output (fun pos next =>
    (oopses.find? fun oops => matchOops (slice output pos next) oops ignores).map
      fun oops => (oops, pos, next)) output.length 0

/-! ## The first line with an oops -/

/-- A line of the output with an oops. -/
structure CrashLine (output : Bytes) (i j : ℕ) : Prop where
  line : IsLine newline output i j
  crash : ∃ oops ∈ oopses, matchOops (slice output i j) oops ignores = true

variable {oopses ignores}

/-- The loops of both functions agree on whether a line is a crash. -/
theorem find_eq_none_iff {output : Bytes} {i j : ℕ} :
    (oopses.find? fun oops => matchOops (slice output i j) oops ignores) = none ↔
      ¬∃ oops ∈ oopses, matchOops (slice output i j) oops ignores = true := by
  simp [List.find?_eq_none]

theorem containsCrash_iff {output : Bytes} :
    containsCrash oopses ignores output = true ↔ ∃ i j, CrashLine oopses ignores output i j := by
  rw [containsCrash, ← not_iff_not, Bool.not_eq_true, Option.isSome_eq_false_iff,
    Option.isNone_iff_eq_none, lineLoop_eq_none]
  constructor
  · rintro h ⟨i, j, hline, oops, hmem, hmatch⟩
    have hnone := h i j hline
    rw [if_pos (List.any_eq_true.mpr ⟨oops, hmem, hmatch⟩)] at hnone
    cases hnone
  · intro h i j hline
    refine if_neg fun hany => ?_
    obtain ⟨oops, hmem, hmatch⟩ := List.any_eq_true.mp hany
    exact h ⟨i, j, hline, oops, hmem, hmatch⟩

theorem findOops_eq_some {output : Bytes} {oops : Oops} {i j : ℕ} :
    findOops oopses ignores output = some (oops, i, j) ↔
      IsLine newline output i j ∧
      (oopses.find? fun oops => matchOops (slice output i j) oops ignores) = some oops ∧
      ∀ i' j', CrashLine oopses ignores output i' j' → i ≤ i' := by
  rw [findOops, lineLoop_eq_some]
  constructor
  · rintro ⟨i₀, j₀, hline, hfind, hfirst⟩
    obtain ⟨oops', hoops, heq⟩ := Option.map_eq_some_iff.mp hfind
    obtain ⟨rfl, rfl, rfl⟩ : oops' = oops ∧ i₀ = i ∧ j₀ = j := by simpa using heq
    refine ⟨hline, hoops, fun i' j' hcrash => ?_⟩
    by_contra hlt
    have hnone := hfirst i' j' hcrash.line (by omega)
    exact find_eq_none_iff.mp (Option.map_eq_none_iff.mp hnone) hcrash.crash
  · rintro ⟨hline, hfind, hfirst⟩
    refine ⟨i, j, hline, Option.map_eq_some_iff.mpr ⟨oops, hfind, rfl⟩, fun i' j' hline' hlt => ?_⟩
    apply Option.map_eq_none_iff.mpr
    apply find_eq_none_iff.mpr
    intro hcrash
    have hle := hfirst i' j' ⟨hline', hcrash⟩
    omega

theorem findOops_eq_none {output : Bytes} :
    findOops oopses ignores output = none ↔ ¬∃ i j, CrashLine oopses ignores output i j := by
  rw [findOops, lineLoop_eq_none]
  constructor
  · rintro h ⟨i, j, hline, hcrash⟩
    exact find_eq_none_iff.mp (Option.map_eq_none_iff.mp (h i j hline)) hcrash
  · intro h i j hline
    apply Option.map_eq_none_iff.mpr
    apply find_eq_none_iff.mpr
    exact fun hcrash => h ⟨i, j, hline, hcrash⟩

/-! ## More output -/

theorem slice_append {s t : Bytes} {i j : ℕ} (hj : j ≤ s.length) :
    slice (s ++ t) i j = slice s i j := by
  by_cases hi : i ≤ s.length
  · rw [slice, slice, List.drop_append_of_le_length hi, List.take_append_of_le_length]
    rw [List.length_drop]
    omega
  · rw [slice, slice, show j - i = 0 by omega, List.take_zero, List.take_zero]

theorem crashLine_append {output more : Bytes} {i j : ℕ} (hj : j < output.length) :
    CrashLine oopses ignores (output ++ more) i j ↔ CrashLine oopses ignores output i j := by
  constructor
  · rintro ⟨hline, hcrash⟩
    rw [slice_append hj.le] at hcrash
    exact ⟨(IsLine.append_iff hj).mp hline, hcrash⟩
  · rintro ⟨hline, hcrash⟩
    rw [← slice_append (t := more) hj.le] at hcrash
    exact ⟨(IsLine.append_iff hj).mpr hline, hcrash⟩

/-- Once its line is ended, the first oops stays the same whatever is printed behind it. -/
theorem findOops_append {output : Bytes} {oops : Oops} {i j : ℕ}
    (h : findOops oopses ignores output = some (oops, i, j)) (hj : j < output.length)
    (more : Bytes) : findOops oopses ignores (output ++ more) = some (oops, i, j) := by
  obtain ⟨hline, hfind, hfirst⟩ := findOops_eq_some.mp h
  have hline' := (IsLine.append_iff (t := more) hj).mpr hline
  apply findOops_eq_some.mpr
  refine ⟨hline', by rwa [slice_append hj.le], fun i' j' hcrash => ?_⟩
  by_contra hlt
  have hj' := hcrash.line.stop_lt hline' (by omega)
  have hle := hline.le
  have hi := hfirst i' j' ((crashLine_append (by omega)).mp hcrash)
  omega

end

end FuzzUSB.CrashReport
