import FuzzUSB.GoText
import Mathlib.Data.Set.Lattice
import Mathlib.Tactic.Ring

/-!
# Loading kernel coverage

The fuzzer reads files with an address in hexadecimal on each line and collects the addresses
in `fuzzusbCorpus`. It drops the error of `ParseUint` and keeps the number beside it.
-/

namespace FuzzUSB.Kcov
open PyText GoText

abbrev Addr := BitVec 64

/-- `fuzzusbCorpus`, a `map[uint64]bool`. -/
abbrev Corpus := Addr → Option Bool

def keys (m : Corpus) : Set Addr := {a | (m a).isSome}

/-- `addr, _ := strconv.ParseUint(strings.TrimSpace(line), 16, 64)`. -/
def lineAddr (line : Str) : Addr :=
  BitVec.ofNat 64 (parsedValue 64 (parseUint 16 64 (trimSpace line)))

/-- A missing key reads as `false`. -/
def addAddr (m : Corpus) (addr : Addr) : Corpus :=
  if (m addr).getD false = false then Function.update m addr (some true) else m

def addFile (m : Corpus) (readData : Str) : Corpus :=
  (split '\n' readData).foldl (fun m line => addAddr m (lineAddr line)) m

/-! ## The two loops -/

/-- A file that `ReadDir` lists: what `ReadFile` reads, if it can, and whether `Remove`
succeeds. -/
structure KcovFile where
  name : String
  readData : Option Str
  removed : Bool

/-- One pass of a loop: the files in the directory, or an error of `ReadDir`. -/
abbrev Pass := Option (List KcovFile)

section

variable {σ : Type*} (load : σ → Str → σ)

/-- The files of one pass in `FzUSBLoadKcov`. The second part is `false` after the
`log.Fatal` for a file that cannot be removed. -/
def loadFiles : List KcovFile → σ → σ × Bool
  | [], m => (m, true)
  | file :: files, m =>
    match file.readData with
    | none => loadFiles files m
    | some data => if file.removed then loadFiles files (load m data) else (load m data, false)

/-- The passes of `FzUSBLoadKcov`, which returns when `ReadDir` fails. -/
def loadPasses : List Pass → σ → σ
  | [], m => m
  | none :: _, m => m
  | some files :: passes, m =>
    if (loadFiles load files m).2 then loadPasses passes (loadFiles load files m).1
    else (loadFiles load files m).1

/-- The files of one pass in `FzUSBLoadKcov_fsg_thread`, with the names in `procCorpus`. -/
def loadProcFiles : List KcovFile → List String × σ → List String × σ
  | [], s => s
  | file :: files, (procCorpus, m) =>
    if file.name ∈ procCorpus then loadProcFiles files (procCorpus, m)
    else match file.readData with
      | none => loadProcFiles files (file.name :: procCorpus, m)
      | some data => loadProcFiles files (file.name :: procCorpus, load m data)

/-- The passes of `FzUSBLoadKcov_fsg_thread`, which goes on when `ReadDir` fails. -/
def loadProcPasses : List Pass → List String × σ → List String × σ
  | [], s => s
  | none :: passes, s => loadProcPasses passes s
  | some files :: passes, s => loadProcPasses passes (loadProcFiles load files s)

end

/-- The two functions of the fuzzer. -/
inductive Loader
  | fzUSBLoadKcov
  | fzUSBLoadKcovFsgThread

/-- What a loader that does `load` with the contents of each file has made of `m` after
some passes. -/
def Loader.run {σ : Type*} (load : σ → Str → σ) (passes : List Pass) (m : σ) : Loader → σ
  | fzUSBLoadKcov => loadPasses load passes m
  | fzUSBLoadKcovFsgThread => (loadProcPasses load passes ([], m)).2

def Loader.corpus (l : Loader) (passes : List Pass) (m : Corpus) : Corpus := l.run addFile passes m

/-- The contents that a loader has processed, in order. -/
def Loader.processed (l : Loader) (passes : List Pass) : List Str :=
  l.run (fun done data => done ++ [data]) passes []

section

variable {σ τ : Type*} {load : σ → Str → σ} {load' : τ → Str → τ} {h : σ → τ}
  (hload : ∀ m data, h (load m data) = load' (h m) data)

include hload

theorem loadFiles_map (files : List KcovFile) (m : σ) :
    loadFiles load' files (h m) = (h (loadFiles load files m).1, (loadFiles load files m).2) := by
  induction files generalizing m with
  | nil => rfl
  | cons file files ih =>
    cases hdata : file.readData with
    | none => simp only [loadFiles, hdata, ih]
    | some data =>
      simp only [loadFiles, hdata, ← hload, ih]
      split <;> rfl

theorem loadPasses_map (passes : List Pass) (m : σ) :
    loadPasses load' passes (h m) = h (loadPasses load passes m) := by
  induction passes generalizing m with
  | nil => rfl
  | cons pass passes ih =>
    cases pass with
    | none => rfl
    | some files =>
      simp only [loadPasses, loadFiles_map hload, ih]
      split <;> rfl

theorem loadProcFiles_map (files : List KcovFile) (s : List String × σ) :
    loadProcFiles load' files (s.1, h s.2) =
      ((loadProcFiles load files s).1, h (loadProcFiles load files s).2) := by
  induction files generalizing s with
  | nil => rfl
  | cons file files ih =>
    simp only [loadProcFiles]
    split
    · exact ih s
    · cases file.readData with
      | none => exact ih (file.name :: s.1, s.2)
      | some data =>
        simp only [← hload]
        exact ih (file.name :: s.1, load s.2 data)

theorem loadProcPasses_map (passes : List Pass) (s : List String × σ) :
    loadProcPasses load' passes (s.1, h s.2) =
      ((loadProcPasses load passes s).1, h (loadProcPasses load passes s).2) := by
  induction passes generalizing s with
  | nil => rfl
  | cons pass passes ih =>
    cases pass with
    | none => exact ih s
    | some files =>
      simp only [loadProcPasses, loadProcFiles_map hload]
      exact ih (loadProcFiles load files s)

end

/-- A loader does what it does with the contents that it has processed, one after another. -/
theorem Loader.run_eq_foldl {σ : Type*} (load : σ → Str → σ) (l : Loader) (passes : List Pass)
    (m : σ) : l.run load passes m = (l.processed passes).foldl load m := by
  have hload (done : List Str) (data : Str) :
      (done ++ [data]).foldl load m = load (done.foldl load m) data := by simp
  cases l with
  | fzUSBLoadKcov => exact loadPasses_map (h := fun done => done.foldl load m) hload passes []
  | fzUSBLoadKcovFsgThread =>
    have hmap := loadProcPasses_map (h := fun done => done.foldl load m) hload passes ([], [])
    exact congrArg Prod.snd hmap

/-! ## The keys -/

theorem keys_addAddr (m : Corpus) (addr : Addr) : keys (addAddr m addr) = insert addr (keys m) := by
  ext a
  unfold addAddr
  split
  · by_cases ha : a = addr <;> simp [keys, ha]
  · next hset =>
    -- The key is there, with the value `true`.
    have hkey : addr ∈ keys m := by
      cases hm : m addr with
      | none => simp [hm] at hset
      | some b => simp [keys, hm]
    rw [Set.insert_eq_of_mem hkey]

theorem keys_foldl_addAddr (lines : List Str) (m : Corpus) :
    keys (lines.foldl (fun m line => addAddr m (lineAddr line)) m) =
      keys m ∪ {a | ∃ line ∈ lines, lineAddr line = a} := by
  induction lines generalizing m with
  | nil => simp
  | cons line lines ih =>
    rw [List.foldl_cons, ih, keys_addAddr]
    ext a
    simp only [Set.mem_union, Set.mem_insert_iff, Set.mem_ofPred_eq, List.exists_mem_cons_iff,
      @eq_comm _ (lineAddr line) a]
    tauto

/-- The lines of the files that a loader has processed. -/
def Loader.lines (l : Loader) (passes : List Pass) : List Str :=
  (l.processed passes).flatMap (split '\n')

theorem Loader.keys_corpus (l : Loader) (passes : List Pass) (m : Corpus) :
    keys (l.corpus passes m) = keys m ∪ {a | ∃ line ∈ l.lines passes, lineAddr line = a} := by
  rw [← keys_foldl_addAddr, Loader.lines, List.foldl_flatMap, Loader.corpus, Loader.run_eq_foldl]
  rfl

/-! ## What a line adds -/

/-- The line is blank, or no hexadecimal number. -/
def Malformed (line : Str) : Prop :=
  ¬BeginsTooLarge 16 64 (trimSpace line) ∧ ∀ v, ¬Writes 16 line v

/-- The line begins with a hexadecimal number of more than 64 bits. -/
def OutOfRange (line : Str) : Prop := BeginsTooLarge 16 64 (trimSpace line)

theorem writes_iff_parseUint (line : Str) (v : ℕ) :
    Writes 16 line v ∧ v < 2 ^ 64 ↔ parseUint 16 64 (trimSpace line) = .ok v :=
  (parseUint_trimSpace_eq_ok (by decide)).symm

theorem outOfRange_iff_parseUint (line : Str) :
    OutOfRange line ↔ parseUint 16 64 (trimSpace line) = .error .errRange :=
  parseUint_eq_range.symm

theorem outOfRange_of_writes {line : Str} {v : ℕ} (h : Writes 16 line v) (hv : 2 ^ 64 ≤ v) :
    OutOfRange line := by
  obtain ⟨pre, ds, post, rfl, hpre, hpost, hne, hds, rfl⟩ := h
  refine ⟨ds, ?_, hds, hv⟩
  rw [trimSpace_eq hpre hpost (fun c hc => (hds c hc).not_isSpace) hne]

theorem malformed_iff_parseUint (line : Str) :
    Malformed line ↔ parseUint 16 64 (trimSpace line) = .error .errSyntax := by
  have hok := writes_iff_parseUint line
  have hrange := outOfRange_iff_parseUint line
  constructor
  · rintro ⟨hlarge, hwrites⟩
    cases hp : parseUint 16 64 (trimSpace line) with
    | ok v => exact absurd ((hok v).mpr hp).1 (hwrites v)
    | error e =>
      cases e with
      | errSyntax => rfl
      | errRange => exact absurd (hrange.mpr hp) hlarge
  · intro hp
    have hlarge : ¬OutOfRange line := by simp [hrange, hp]
    refine ⟨hlarge, fun v hv => ?_⟩
    rcases Nat.lt_or_ge v (2 ^ 64) with hfit | hbig
    · have := (hok v).mp ⟨hv, hfit⟩
      simp [hp] at this
    · exact hlarge (outOfRange_of_writes hv hbig)

/-- A line adds the number that it writes, 0 if it is malformed and the greatest address if
its number is out of range. -/
theorem lineAddr_eq_iff (line : Str) (a : Addr) :
    lineAddr line = a ↔ Writes 16 line a.toNat ∨ (Malformed line ∧ a = 0) ∨
      (OutOfRange line ∧ a = BitVec.allOnes 64) := by
  have hwrites : Writes 16 line a.toNat ↔ parseUint 16 64 (trimSpace line) = .ok a.toNat := by
    rw [← writes_iff_parseUint, and_iff_left a.isLt]
  rw [hwrites, malformed_iff_parseUint, outOfRange_iff_parseUint, lineAddr]
  cases hp : parseUint 16 64 (trimSpace line) with
  | ok v =>
    have hv : v < 2 ^ 64 := ((writes_iff_parseUint line v).mpr hp).2
    have hmod : (BitVec.ofNat 64 v).toNat = v := BitVec.toNat_ofNat v 64 ▸ Nat.mod_eq_of_lt hv
    simp [parsedValue, ← BitVec.toNat_inj, hmod]
  | error e =>
    cases e with
    | errSyntax =>
      change 0 = a ↔ _
      rw [eq_comm]
      simp
    | errRange =>
      change BitVec.allOnes 64 = a ↔ _
      rw [eq_comm]
      simp

/-! ## Exactly what was recorded -/

/-- The addresses that are validly written on some line of a processed file. -/
def Loader.recorded (l : Loader) (passes : List Pass) : Set Addr :=
  {a | ∃ line ∈ l.lines passes, Writes 16 line a.toNat}

/-- The loader adds to the keys the addresses that are recorded, and no others. -/
def Loader.KeysExact (l : Loader) (passes : List Pass) (m : Corpus) : Prop :=
  keys (l.corpus passes m) = keys m ∪ l.recorded passes

/-- The loader is exact when 0 and the greatest address, which stand for lines that are
malformed or out of range, would be keys anyway. -/
theorem Loader.keysExact_iff (l : Loader) (passes : List Pass) (m : Corpus) :
    l.KeysExact passes m ↔
      ((∃ line ∈ l.lines passes, Malformed line) → 0 ∈ keys m ∪ l.recorded passes) ∧
      ((∃ line ∈ l.lines passes, OutOfRange line) →
        BitVec.allOnes 64 ∈ keys m ∪ l.recorded passes) := by
  have hkeys (a : Addr) : a ∈ keys (l.corpus passes m) ↔ a ∈ keys m ∪ l.recorded passes ∨
      ((∃ line ∈ l.lines passes, Malformed line) ∧ a = 0) ∨
      ((∃ line ∈ l.lines passes, OutOfRange line) ∧ a = BitVec.allOnes 64) := by
    simp only [l.keys_corpus, Loader.recorded, Set.mem_union, Set.mem_ofPred_eq, lineAddr_eq_iff,
      and_or_left, exists_or, or_assoc, ← and_assoc, exists_and_right]
  rw [KeysExact, Set.ext_iff]
  constructor
  · intro h
    exact ⟨fun hline => (h 0).mp ((hkeys 0).mpr (.inr (.inl ⟨hline, rfl⟩))),
      fun hline => (h _).mp ((hkeys _).mpr (.inr (.inr ⟨hline, rfl⟩)))⟩
  · rintro ⟨hzero, hmax⟩ a
    rw [hkeys, or_iff_left_iff_imp]
    rintro (⟨hline, rfl⟩ | ⟨hline, rfl⟩)
    · exact hzero hline
    · exact hmax hline

/-- A file with one address and a final newline. The blank line behind it adds 0. -/
theorem final_newline_adds_zero :
    ¬Loader.fzUSBLoadKcov.KeysExact [some [⟨"kcov", some "ffffffff81000000\n".toList, true⟩]]
      fun _ => none := by
  intro h
  have hzero : (0 : Addr) ∈ keys (Loader.fzUSBLoadKcov.corpus
      [some [⟨"kcov", some "ffffffff81000000\n".toList, true⟩]] fun _ => none) := by
    change (Loader.corpus _ _ _ 0).isSome
    decide +kernel
  rw [h] at hzero
  rcases hzero with hzero | ⟨line, hline, hwrites⟩
  · exact absurd hzero (by simp [keys])
  · have hparse := (writes_iff_parseUint line 0).mp ⟨hwrites, by decide⟩
    have hnone : ∀ line ∈ Loader.fzUSBLoadKcov.lines
        [some [⟨"kcov", some "ffffffff81000000\n".toList, true⟩]],
        parseUint 16 64 (trimSpace line) ≠ .ok 0 := by decide +kernel
    exact hnone line hline hparse

end FuzzUSB.Kcov
