import FuzzUSB.GoSlice
import FuzzUSB.Signal
import Mathlib.Algebra.Ring.Nat

/-!
# The corpus of a fuzzer

A fuzzer adds programs to its corpus and chooses one by a binary search in the sums of their
priorities. The procs choose from snapshots, which share the arrays of the corpus.
-/

namespace FuzzUSB.FuzzerCorpus
open GoSlice Signal

section

variable {Prog Hash Sig Serial : Type} [DecidableEq Hash]

/-- The fields of `Fuzzer` for its corpus, and the arrays of the slices. -/
structure Fuzzer (Prog Hash Sig : Type) where
  progs : Heap Prog
  prios : Heap ℕ
  corpus : Slice
  corpusHashes : List Hash
  corpusPrios : Slice
  sumPrios : ℕ
  corpusSignal : Sig
  maxSignal : Sig

structure FuzzerSnapshot where
  corpus : Slice
  corpusPrios : Slice
  sumPrios : ℕ

/-- The arguments of `addInputToCorpus`, and how much more than needed `append` allocates. -/
structure Input (Prog Hash Sig : Type) where
  p : Prog
  sign : Sig
  sig : Hash
  slack : ℕ
  slackPrios : ℕ

/-- `newFuzzer`. A nil pointer is `null`. -/
def Fuzzer.start (null : Prog) (corpusSignal maxSignal : Sig) : Fuzzer Prog Hash Sig where
  progs := .new null
  prios := .new 0
  corpus := .nil
  corpusHashes := []
  corpusPrios := .nil
  sumPrios := 0
  corpusSignal := corpusSignal
  maxSignal := maxSignal

variable (S : SignalPkg Sig Serial) (len : Sig → ℕ)

/-- `prio` of a new entry. -/
def prio (sign : Sig) : ℕ := if S.empty sign then 1 else len sign

/-- The part of `addInputToCorpus` under `corpusMu`. -/
def Fuzzer.addEntry (f : Fuzzer Prog Hash Sig) (a : Input Prog Hash Sig) :
    Fuzzer Prog Hash Sig :=
  if a.sig ∈ f.corpusHashes then f
  else
    let corpus := f.progs.append f.corpus [a.p] a.slack
    let sumPrios := f.sumPrios + prio S len a.sign
    let corpusPrios := f.prios.append f.corpusPrios [sumPrios] a.slackPrios
    { f with
      progs := corpus.1
      prios := corpusPrios.1
      corpus := corpus.2
      corpusHashes := f.corpusHashes ++ [a.sig]
      corpusPrios := corpusPrios.2
      sumPrios := sumPrios }

def Fuzzer.addInputToCorpus (f : Fuzzer Prog Hash Sig) (a : Input Prog Hash Sig) :
    Fuzzer Prog Hash Sig :=
  let f := f.addEntry S len a
  if S.empty a.sign then f
  else
    { f with
      corpusSignal := S.merge f.corpusSignal a.sign
      maxSignal := S.merge f.maxSignal a.sign }

def Fuzzer.snapshot (f : Fuzzer Prog Hash Sig) : FuzzerSnapshot :=
  ⟨f.corpus, f.corpusPrios, f.sumPrios⟩

/-- `idx` of `chooseProgram`. -/
def FuzzerSnapshot.idx (s : FuzzerSnapshot) (prios : Heap ℕ) (randVal : ℕ) : ℕ :=
  search s.corpusPrios.len fun i => prios.get s.corpusPrios i ≥ randVal

/-- `chooseProgram`, if the index is in range. -/
def FuzzerSnapshot.chooseProgram (s : FuzzerSnapshot) (progs : Heap Prog) (prios : Heap ℕ)
    (randVal : ℕ) : Option Prog :=
  if s.idx prios randVal < s.corpus.len then some (progs.get s.corpus (s.idx prios randVal))
  else none

/-- A sequence of calls. -/
def Fuzzer.addInputs (f : Fuzzer Prog Hash Sig) (calls : List (Input Prog Hash Sig)) :
    Fuzzer Prog Hash Sig :=
  calls.foldl (fun f a => f.addInputToCorpus S len a) f

/-! ## The property -/

/-- The binary search finds the first sum that is large enough, and the program there. -/
structure Chooses (s : FuzzerSnapshot) (progs : Heap Prog) (prios : Heap ℕ) (randVal i : ℕ) :
    Prop where
  idx : s.idx prios randVal = i
  lt : i < s.corpusPrios.len
  enough : randVal ≤ prios.get s.corpusPrios i
  least : ∀ j < i, prios.get s.corpusPrios j < randVal
  program : s.chooseProgram progs prios randVal = (progs.view s.corpus)[i]?
  defined : (s.chooseProgram progs prios randVal).isSome

/-- A choice is well defined. -/
structure WellDefined (s : FuzzerSnapshot) (progs : Heap Prog) (prios : Heap ℕ) : Prop where
  lengths : s.corpus.len = s.corpusPrios.len
  increasing : (prios.view s.corpusPrios).Pairwise (· < ·)
  last : s.corpus.len ≠ 0 → (prios.view s.corpusPrios).getLast? = some s.sumPrios
  inRange : s.corpus.len ≠ 0 → ∀ randVal ≤ s.sumPrios, ∃ i, Chooses s progs prios randVal i
  reached : ∀ i < s.corpus.len, ∃ randVal ≤ s.sumPrios, Chooses s progs prios randVal i

/-! ## Sums of priorities -/

/-- Positive amounts are added up to `top`. -/
structure Ladder (steps : List ℕ) (top : ℕ) : Prop where
  increasing : steps.Pairwise (· < ·)
  le : ∀ x ∈ steps, x ≤ top
  last : steps ≠ [] → steps.getLast? = some top

theorem ladder_nil : Ladder [] 0 := ⟨.nil, nofun, fun h => absurd rfl h⟩

theorem Ladder.concat {steps : List ℕ} {top n : ℕ} (h : Ladder steps top) (hn : 0 < n) :
    Ladder (steps ++ [top + n]) (top + n) := by
  refine ⟨?_, fun x hx => ?_, fun _ => List.getLast?_concat⟩
  · rw [List.pairwise_append]
    refine ⟨h.increasing, List.pairwise_singleton _ _, fun x hx y hy => ?_⟩
    have hle := h.le x hx
    rw [List.mem_singleton.mp hy]
    omega
  · rcases List.mem_append.mp hx with hold | hnew
    · exact Nat.le_add_right_of_le (h.le x hold)
    · exact (List.mem_singleton.mp hnew).le

end

/-! ## The entries -/

section

variable {Prog Hash Sig Serial : Type} {S : SignalPkg Sig Serial} {len : Sig → ℕ}
  {f : Fuzzer Prog Hash Sig} {entries : List (Input Prog Hash Sig)}

variable (S len) in
/-- The fuzzer has an entry for each of the inputs, and for no other. -/
structure Holds (f : Fuzzer Prog Hash Sig) (entries : List (Input Prog Hash Sig)) : Prop where
  corpus : f.progs.view f.corpus = entries.map (·.p)
  corpusValid : f.corpus.Valid f.progs
  priosValid : f.corpusPrios.Valid f.prios
  hashes : f.corpusHashes = entries.map (·.sig)
  nodup : (entries.map (·.sig)).Nodup
  lengths : f.corpus.len = f.corpusPrios.len
  sum : f.sumPrios = (entries.map fun a => prio S len a.sign).sum
  ladder : Ladder (f.prios.view f.corpusPrios) f.sumPrios

theorem prio_pos (hempty : ∀ sign, S.empty sign = true ↔ len sign = 0) (sign : Sig) :
    0 < prio S len sign := by
  unfold prio
  split
  · exact Nat.one_pos
  · next hne =>
    rw [hempty] at hne
    omega

theorem holds_start (null : Prog) (corpusSignal maxSignal : Sig) :
    Holds S len (.start null corpusSignal maxSignal : Fuzzer Prog Hash Sig) [] where
  corpus := view_nil _
  corpusValid := nil_valid _ Nat.one_pos
  priosValid := nil_valid _ Nat.one_pos
  hashes := rfl
  nodup := .nil
  lengths := rfl
  sum := rfl
  ladder := ladder_nil

theorem Holds.signals (h : Holds S len f entries) (corpusSignal maxSignal : Sig) :
    Holds S len { f with corpusSignal := corpusSignal, maxSignal := maxSignal } entries :=
  ⟨h.corpus, h.corpusValid, h.priosValid, h.hashes, h.nodup, h.lengths, h.sum, h.ladder⟩

/-! ## The choice -/

variable {s : FuzzerSnapshot} {progs : Heap Prog} {prios : Heap ℕ}

/-- The binary search of a snapshot with a sum that is large enough. -/
theorem chooses_idx (hlen : s.corpus.len = s.corpusPrios.len)
    (hinc : (prios.view s.corpusPrios).Pairwise (· < ·)) {randVal : ℕ}
    (hex : ∃ i < s.corpusPrios.len, randVal ≤ prios.get s.corpusPrios i) :
    Chooses s progs prios randVal (s.idx prios randVal) := by
  rw [pairwise_view] at hinc
  have hleast : Least s.corpusPrios.len (fun i => decide (prios.get s.corpusPrios i ≥ randVal))
      (s.idx prios randVal) := by
    refine search_least fun i j hij hj hi => ?_
    rcases Nat.eq_or_lt_of_le hij with rfl | hlt
    · exact hi
    · exact decide_eq_true ((of_decide_eq_true hi).trans (hinc i j hlt hj).le)
  have hlt : s.idx prios randVal < s.corpusPrios.len := by
    obtain ⟨i, hi, hle⟩ := hex
    by_contra hge
    have hfalse := hleast.before i (by omega)
    exact absurd hle (of_decide_eq_false hfalse)
  have hin : s.idx prios randVal < s.corpus.len := hlen ▸ hlt
  refine ⟨rfl, hlt, of_decide_eq_true (hleast.holds hlt), fun j hj => ?_, ?_, ?_⟩
  · exact Nat.lt_of_not_le (of_decide_eq_false (hleast.before j hj))
  · rw [FuzzerSnapshot.chooseProgram, if_pos hin, getElem?_view hin]
  · rw [FuzzerSnapshot.chooseProgram, if_pos hin]
    rfl

/-- Each sum chooses its own entry. -/
theorem chooses_self (hlen : s.corpus.len = s.corpusPrios.len)
    (hinc : (prios.view s.corpusPrios).Pairwise (· < ·)) {i : ℕ} (hi : i < s.corpusPrios.len) :
    Chooses s progs prios (prios.get s.corpusPrios i) i := by
  have hchooses : Chooses s progs prios _ _ := chooses_idx hlen hinc ⟨i, hi, le_rfl⟩
  have hidx : s.idx prios (prios.get s.corpusPrios i) = i := by
    rcases Nat.lt_trichotomy (s.idx prios (prios.get s.corpusPrios i)) i with hlt | heq | hgt
    · have hless := pairwise_view.mp hinc _ i hlt hi
      exact absurd hchooses.enough hless.not_ge
    · exact heq
    · exact absurd (hchooses.least i hgt) (Nat.lt_irrefl _)
  rw [hidx] at hchooses
  exact hchooses

/-- In every state with its entries the snapshot is well defined. -/
theorem Holds.wellDefined (h : Holds S len f entries) : WellDefined f.snapshot f.progs f.prios where
  lengths := h.lengths
  increasing := h.ladder.increasing
  last hne := by
    refine h.ladder.last fun hnil => hne ?_
    have hlen := congrArg List.length hnil
    rw [length_view] at hlen
    exact h.lengths.trans hlen
  inRange hne randVal hle := by
    refine ⟨_, chooses_idx h.lengths h.ladder.increasing ?_⟩
    have hlen : f.corpusPrios.len ≠ 0 := fun hzero => hne (h.lengths.trans hzero)
    have hview : f.prios.view f.corpusPrios ≠ [] := fun hnil =>
      hlen (length_view.symm.trans (congrArg List.length hnil))
    have hlast := h.ladder.last hview
    rw [List.getLast?_eq_getElem?, length_view, getElem?_view (by omega)] at hlast
    exact ⟨f.corpusPrios.len - 1, Nat.sub_one_lt hlen, hle.trans (Option.some.inj hlast).ge⟩
  reached i hi := by
    have hi' : i < f.corpusPrios.len := h.lengths ▸ hi
    have hmem := List.mem_of_getElem? (getElem?_view (h := f.prios) hi')
    exact ⟨_, h.ladder.le _ hmem, chooses_self h.lengths h.ladder.increasing hi'⟩

/-- A choice depends on the elements of the slices only. -/
theorem chooseProgram_congr {progs' : Heap Prog} {prios' : Heap ℕ}
    (hprogs : progs'.view s.corpus = progs.view s.corpus)
    (hprios : prios'.view s.corpusPrios = prios.view s.corpusPrios) (randVal : ℕ) :
    s.chooseProgram progs' prios' randVal = s.chooseProgram progs prios randVal := by
  have hidx : s.idx prios' randVal = s.idx prios randVal :=
    search_congr fun i hi => by rw [get_eq_of_view_eq hprios hi]
  unfold FuzzerSnapshot.chooseProgram
  rw [hidx]
  split
  · next hin => rw [get_eq_of_view_eq hprogs hin]
  · rfl

/-! ## Calls -/

variable [DecidableEq Hash]

/-- The first input with each hash. -/
def firsts (calls : List (Input Prog Hash Sig)) : List (Input Prog Hash Sig) :=
  calls.foldl (fun l a => if a.sig ∈ l.map (·.sig) then l else l ++ [a]) []

/-- Only the signals are changed behind the first lock. -/
theorem addInputToCorpus_cases (S : SignalPkg Sig Serial) (len : Sig → ℕ)
    (f : Fuzzer Prog Hash Sig) (a : Input Prog Hash Sig) :
    ∃ corpusSignal maxSignal, f.addInputToCorpus S len a =
      { f.addEntry S len a with corpusSignal := corpusSignal, maxSignal := maxSignal } := by
  unfold Fuzzer.addInputToCorpus
  dsimp only
  split
  · exact ⟨_, _, rfl⟩
  · exact ⟨_, _, rfl⟩

/-- A call adds an entry unless there is one with its hash. -/
theorem Holds.addEntry (hempty : ∀ sign, S.empty sign = true ↔ len sign = 0)
    (h : Holds S len f entries) (a : Input Prog Hash Sig) :
    Holds S len (f.addEntry S len a)
      (if a.sig ∈ entries.map (·.sig) then entries else entries ++ [a]) := by
  unfold Fuzzer.addEntry
  rw [h.hashes]
  split
  · exact h
  · next hnew =>
    refine ⟨?_, append_valid h.corpusValid _ _, append_valid h.priosValid _ _, ?_, ?_, ?_, ?_, ?_⟩
    · simp only [view_append, h.corpus, List.map_append, List.map_singleton]
    · rw [List.map_append, List.map_singleton]
    · rw [List.map_append, List.map_singleton]
      exact h.nodup.append (List.nodup_singleton _) (List.disjoint_singleton.mpr hnew)
    · simp only [append_len, h.lengths, List.length_singleton]
    · simp only [h.sum, List.map_append, List.map_singleton, List.sum_append, List.sum_singleton]
    · simp only [view_append]
      exact h.ladder.concat (prio_pos hempty a.sign)

/-- After every sequence of calls there are entries for the first calls with each hash. -/
theorem holds_addInputs (hempty : ∀ sign, S.empty sign = true ↔ len sign = 0) (null : Prog)
    (corpusSignal maxSignal : Sig) (calls : List (Input Prog Hash Sig)) :
    Holds S len ((Fuzzer.start null corpusSignal maxSignal).addInputs S len calls)
      (firsts calls) := by
  induction calls using List.reverseRecOn with
  | nil => exact holds_start null corpusSignal maxSignal
  | append_singleton calls a ih =>
    rw [Fuzzer.addInputs, firsts, List.foldl_concat, List.foldl_concat]
    obtain ⟨corpusSignal', maxSignal', heq⟩ := addInputToCorpus_cases S len
      ((Fuzzer.start null corpusSignal maxSignal).addInputs S len calls) a
    have hstep := (ih.addEntry hempty a).signals corpusSignal' maxSignal'
    rw [← heq] at hstep
    exact hstep

/-- The arrays of a snapshot are not written by what is added to the fuzzer. -/
structure Kept (s : FuzzerSnapshot) (progs : Heap Prog) (prios : Heap ℕ)
    (f : Fuzzer Prog Hash Sig) : Prop where
  corpus : s.corpus.Older f.progs f.corpus
  corpusPrios : s.corpusPrios.Older f.prios f.corpusPrios
  viewCorpus : f.progs.view s.corpus = progs.view s.corpus
  viewPrios : f.prios.view s.corpusPrios = prios.view s.corpusPrios

theorem Kept.addInputToCorpus (h : Kept s progs prios f) (a : Input Prog Hash Sig) :
    Kept s progs prios (f.addInputToCorpus S len a) := by
  obtain ⟨corpusSignal, maxSignal, heq⟩ := addInputToCorpus_cases S len f a
  rw [heq]
  unfold Fuzzer.addEntry
  split
  · exact ⟨h.corpus, h.corpusPrios, h.viewCorpus, h.viewPrios⟩
  · exact ⟨h.corpus.append, h.corpusPrios.append, h.corpus.view_append.trans h.viewCorpus,
      h.corpusPrios.view_append.trans h.viewPrios⟩

theorem Kept.addInputs (h : Kept s progs prios f) (calls : List (Input Prog Hash Sig)) :
    Kept s progs prios (f.addInputs S len calls) := by
  induction calls generalizing f with
  | nil => exact h
  | cons a calls ih => exact ih (h.addInputToCorpus a)

/-- After every sequence of calls the snapshot is well defined, its entries are the first
inputs with each hash, and no later calls change what it chooses. -/
theorem choice_well_defined (S : SignalPkg Sig Serial) (len : Sig → ℕ)
    (hempty : ∀ sign, S.empty sign = true ↔ len sign = 0) (null : Prog)
    (corpusSignal maxSignal : Sig) (calls later : List (Input Prog Hash Sig)) :
    let f := (Fuzzer.start null corpusSignal maxSignal).addInputs S len calls
    let g := f.addInputs S len later
    WellDefined f.snapshot f.progs f.prios ∧
      (f.progs.view f.corpus = (firsts calls).map (·.p) ∧
        f.corpusHashes = (firsts calls).map (·.sig) ∧ ((firsts calls).map (·.sig)).Nodup ∧
        f.sumPrios = ((firsts calls).map fun a => prio S len a.sign).sum) ∧
      ∀ randVal, f.snapshot.chooseProgram g.progs g.prios randVal =
        f.snapshot.chooseProgram f.progs f.prios randVal := by
  intro f g
  have hholds : Holds S len f (firsts calls) :=
    holds_addInputs hempty null corpusSignal maxSignal calls
  have hkept : Kept f.snapshot f.progs f.prios g :=
    Kept.addInputs ⟨hholds.corpusValid.older, hholds.priosValid.older, rfl, rfl⟩ later
  exact ⟨hholds.wellDefined, ⟨hholds.corpus, hholds.hashes, hholds.nodup, hholds.sum⟩,
    chooseProgram_congr hkept.viewCorpus hkept.viewPrios⟩

end

/-! ## A run -/

theorem prioMaps_empty_iff (s : PrioMap) : prioMaps.empty s = true ↔ s.len = 0 := by
  simp [prioMaps, PrioMap.len, List.filter_eq_nil_iff]

def twoElements : PrioMap where
  elems := [1, 2]
  prio e := if e ∈ [1, 2] then WithBot.some 0 else ⊥
  supported _ he := if_neg he

/-- The third input has the hash of the first. -/
def threeInputs : List (Input String ℕ PrioMap) :=
  [⟨"open", ∅, 1, 0, 1⟩, ⟨"write", twoElements, 2, 1, 0⟩, ⟨"close", ∅, 1, 0, 0⟩]

theorem choice_well_defined_threeInputs :
    let f := (Fuzzer.start "" ∅ ∅).addInputs prioMaps PrioMap.len threeInputs
    let g := f.addInputs prioMaps PrioMap.len [⟨"ioctl", twoElements, 3, 0, 0⟩]
    WellDefined f.snapshot f.progs f.prios ∧ f.sumPrios = 3 ∧
      f.snapshot.chooseProgram f.progs f.prios 1 = some "open" ∧
      f.snapshot.chooseProgram g.progs g.prios 3 = some "write" := by
  intro f g
  obtain ⟨hdefined, ⟨-, -, -, hsum⟩, hlater⟩ := choice_well_defined prioMaps PrioMap.len
    prioMaps_empty_iff "" ∅ ∅ threeInputs [⟨"ioctl", twoElements, 3, 0, 0⟩]
  refine ⟨hdefined, hsum.trans (by decide +kernel), by decide +kernel, ?_⟩
  exact (hlater 3).trans (by decide +kernel)

end FuzzUSB.FuzzerCorpus
