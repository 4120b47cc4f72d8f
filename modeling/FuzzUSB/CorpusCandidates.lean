import FuzzUSB.CorpusCoverage
import FuzzUSB.GoSlice

/-!
# The candidates in memory

`loadCorpus` appends the candidates to themselves and shuffles the second half through a slice
of the same array. `candidateBatch` takes them from the end.
-/

namespace FuzzUSB.Corpus
open Transition GoSlice Signal
open Rpc (Outside takeLast takeLast_perm textPrograms noSignal)

variable {o : Outside}

/-- `mgr.candidates` as a slice, and the arrays. -/
structure Store (o : Outside) where
  heap : Heap (Candidate o)
  candidates : Slice

/-- What `loadCorpus` makes of a record. -/
def candidateOf (pkg : Packages o) (syscalls : List ℕ) (version : ℕ) (rec : o.Hash × o.Prog) :
    Option (Candidate o) :=
  if !o.parses rec.2 then none
  else if (pkg.calls rec.2).any (· ∉ syscalls) then none
  else some ⟨⟨rec.2, version ∉ [0, 1], version ∉ [0, 1, 2]⟩, true⟩

/-- `s[i], s[j] = s[j], s[i]` -/
def swapIn {α : Type} (h : Heap α) (s : Slice) (i j : ℕ) : Heap α :=
  (h.set s i (h.get s j)).set s j (h.get s i)

namespace Store

def view (st : Store o) : List (Candidate o) := st.heap.view st.candidates

/-- `mgr.candidates = append(mgr.candidates, cs...)`, where an array of `n` elements gets room
for `grow n` more. -/
def append (grow : ℕ → ℕ) (st : Store o) (cs : List (Candidate o)) : Store o :=
  let r := st.heap.append st.candidates cs (grow (st.candidates.len + cs.length))
  ⟨r.1, r.2⟩

/-- The loop of `loadCorpus`. -/
def loadRecord (pkg : Packages o) (syscalls : List ℕ) (version : ℕ) (grow : ℕ → ℕ)
    (st : Store o) (rec : o.Hash × o.Prog) : Store o :=
  match candidateOf pkg syscalls version rec with
  | some c => st.append grow [c]
  | none => st

/-- The loop over the slice `shuffle`. -/
def shuffle (rand : ℕ → ℕ) (st : Store o) : Store o :=
  let shuffle := st.candidates.behind (st.candidates.len / 2)
  { st with
    heap := (List.range shuffle.len).foldl
      (fun h i => swapIn h shuffle i (i + rand i % (shuffle.len - i))) st.heap }

/-- `loadCorpus` of a manager without candidates. The zero value is `null`. -/
def loadCorpus (pkg : Packages o) (syscalls : List ℕ) (version : ℕ) (grow rand : ℕ → ℕ)
    (null : Candidate o) (records : List (o.Hash × o.Prog)) : Store o :=
  let st := records.foldl (loadRecord pkg syscalls version grow) ⟨.new null, .nil⟩
  (st.append grow st.view).shuffle rand

/-- The loop of `candidateBatch`. -/
def take (null : Candidate o) : (n : ℕ) → Store o → (res : List (Candidate o)) →
    List (Candidate o) × Store o
  | 0, st, res => (res, st)
  | n + 1, st, res =>
    if 0 < st.candidates.len then
      let last := st.candidates.len - 1
      take null n ⟨st.heap.set st.candidates last null, st.candidates.upTo last⟩
        (res ++ [st.heap.get st.candidates last])
    else (res, st)

def candidateBatch (null : Candidate o) (st : Store o) (size : ℤ) :
    List (Candidate o) × Store o :=
  let r := take null size.toNat st []
  (r.1, if r.2.candidates.len = 0 then { r.2 with candidates := .nil } else r.2)

/-- Some calls of `candidateBatch`, one after the other. -/
def batches (null : Candidate o) : List ℤ → Store o → List (List (Candidate o)) × Store o
  | [], st => ([], st)
  | size :: sizes, st =>
    let r := st.candidateBatch null size
    let rest := batches null sizes r.2
    (r.1 :: rest.1, rest.2)

end Store

/-! ## Shuffling -/

section

variable {α : Type}

theorem swap_perm (xs : List α) (i j : ℕ) : (swap xs i j).Perm xs := by
  unfold swap
  split
  · next ha hb =>
    obtain ⟨hi, rfl⟩ := List.getElem?_eq_some_iff.mp ha
    obtain ⟨hj, rfl⟩ := List.getElem?_eq_some_iff.mp hb
    exact List.set_set_perm hi hj
  · exact List.Perm.refl xs

theorem foldl_swap_perm (f : List α → ℕ → ℕ) (l : List ℕ) (xs : List α) :
    (l.foldl (fun ys i => swap ys i (f ys i)) xs).Perm xs := by
  induction l generalizing xs with
  | nil => exact List.Perm.refl xs
  | cons i l ih => exact (ih _).trans (swap_perm xs i _)

theorem shuffle_perm (rand : ℕ → ℕ) (xs : List α) : (shuffle rand xs).Perm xs :=
  foldl_swap_perm (fun ys i => i + rand i % (ys.length - i)) _ xs

/-- The length is the same in every round. -/
theorem foldl_swap_length (rand : ℕ → ℕ) {n : ℕ} (l : List ℕ) {xs : List α}
    (hn : xs.length = n) :
    l.foldl (fun ys i => swap ys i (i + rand i % (ys.length - i))) xs =
      l.foldl (fun ys i => swap ys i (i + rand i % (n - i))) xs := by
  induction l generalizing xs with
  | nil => rfl
  | cons i l ih =>
    rw [List.foldl_cons, List.foldl_cons, hn]
    exact ih ((swap_perm xs i _).length_eq.trans hn)

theorem swap_append (xs ys : List α) (i j : ℕ) :
    swap (xs ++ ys) (xs.length + i) (xs.length + j) = xs ++ swap ys i j := by
  unfold swap
  rw [List.getElem?_append_right (Nat.le_add_right _ i), Nat.add_sub_cancel_left,
    List.getElem?_append_right (Nat.le_add_right _ j), Nat.add_sub_cancel_left]
  split
  · rw [List.set_append_right _ _ (Nat.le_add_right _ i), Nat.add_sub_cancel_left,
      List.set_append_right _ _ (Nat.le_add_right _ j), Nat.add_sub_cancel_left]
  · rfl

/-- Swapping in a slice from `lo` on swaps behind the first `lo` elements. -/
theorem view_swapIn {h : Heap α} {s : Slice} {lo i j : ℕ} (hi : lo + i < s.len)
    (hj : lo + j < s.len) :
    (swapIn h (s.behind lo) i j).view s = swap (h.view s) (lo + i) (lo + j) := by
  unfold swapIn swap
  rw [set_behind, set_behind, get_behind, get_behind, view_set hj, view_set hi,
    getElem?_view hi, getElem?_view hj]

theorem view_foldl_swapIn {s : Slice} {xs : List α} (f : ℕ → ℕ) (l : List ℕ)
    (hl : ∀ i ∈ l, xs.length + i < s.len ∧ xs.length + f i < s.len) {h : Heap α} {ys : List α}
    (hview : h.view s = xs ++ ys) :
    (l.foldl (fun h i => swapIn h (s.behind xs.length) i (f i)) h).view s =
      xs ++ l.foldl (fun ys i => swap ys i (f i)) ys := by
  induction l generalizing h ys with
  | nil => exact hview
  | cons i l ih =>
    rw [List.forall_mem_cons] at hl
    refine ih hl.2 ?_
    rw [view_swapIn hl.1.1 hl.1.2, hview, swap_append]

end

/-! ## Loading -/

variable {pkg : Packages o} {syscalls : List ℕ} {grow rand : ℕ → ℕ}

theorem Store.view_append (st : Store o) (cs : List (Candidate o)) :
    (st.append grow cs).view = st.view ++ cs := GoSlice.view_append _ _ _ _

theorem Store.view_eq_nil {st : Store o} (h : st.candidates.len = 0) : st.view = [] := by
  apply List.eq_nil_of_length_eq_zero
  rw [view, length_view, h]

theorem Store.view_shuffle {st : Store o} {xs : List (Candidate o)} (hview : st.view = xs ++ xs) :
    (st.shuffle rand).view = xs ++ Corpus.shuffle rand xs := by
  have hlen : st.candidates.len = xs.length + xs.length := by
    rw [← length_view (h := st.heap), ← List.length_append]
    exact congrArg List.length hview
  have hhalf : st.candidates.len / 2 = xs.length := by omega
  have hrest : (st.candidates.behind xs.length).len = xs.length := by
    simp only [Slice.behind]
    omega
  unfold Store.shuffle Store.view
  dsimp only
  rw [hhalf, hrest, view_foldl_swapIn _ _ (fun i hi => ?_) hview, Corpus.shuffle,
    foldl_swap_length rand _ rfl]
  -- The second position is behind the first and before the end.
  have hi' := List.mem_range.mp hi
  have hmod := Nat.mod_lt (rand i) (Nat.sub_pos_of_lt hi')
  omega

/-- A loop that appends what it makes of each element, in states where `I` holds. -/
theorem foldl_view {σ α β : Type} {view : σ → List β} {step : σ → α → σ} {make : α → Option β}
    {I : σ → Prop} (hstep : ∀ s a, I s → I (step s a) ∧ view (step s a) = view s ++ (make a).toList)
    (l : List α) {s : σ} (hs : I s) : view (l.foldl step s) = view s ++ l.filterMap make := by
  induction l generalizing s with
  | nil => rw [List.foldl_nil, List.filterMap_nil, List.append_nil]
  | cons a l ih =>
    obtain ⟨hI, hview⟩ := hstep s a hs
    rw [List.foldl_cons, ih hI, hview, List.append_assoc]
    cases ha : make a with
    | none => rw [List.filterMap_cons_none ha, Option.toList_none, List.nil_append]
    | some b => rw [List.filterMap_cons_some ha, Option.toList_some, List.singleton_append]

theorem Store.view_loadRecord (pkg : Packages o) (syscalls : List ℕ) (version : ℕ)
    (grow : ℕ → ℕ) (st : Store o) (rec : o.Hash × o.Prog) :
    (st.loadRecord pkg syscalls version grow rec).view =
      st.view ++ (candidateOf pkg syscalls version rec).toList := by
  unfold loadRecord
  cases candidateOf pkg syscalls version rec with
  | none => exact (List.append_nil _).symm
  | some c => exact st.view_append [c]

/-- The slice has the candidates, and behind them the same in another order. -/
theorem Store.view_loadCorpus (version : ℕ) (null : Candidate o)
    (records : List (o.Hash × o.Prog)) :
    (loadCorpus pkg syscalls version grow rand null records).view =
      records.filterMap (candidateOf pkg syscalls version) ++
        Corpus.shuffle rand (records.filterMap (candidateOf pkg syscalls version)) := by
  have hnil : (⟨.new null, .nil⟩ : Store o).view = [] := view_nil _
  have hloaded :
      (records.foldl (loadRecord pkg syscalls version grow) ⟨.new null, .nil⟩).view = _ :=
    foldl_view (I := fun _ => True)
      (fun st rec _ => ⟨trivial, view_loadRecord pkg syscalls version grow st rec⟩) records trivial
  rw [hnil, List.nil_append] at hloaded
  refine view_shuffle ?_
  rw [view_append, hloaded]

/-- The records of the database in an order of their keys. -/
def DB.inOrder (db : DB o) (order : List o.Hash) : List (o.Hash × o.Prog) :=
  order.filterMap fun key => (List.lookup key db.records).map fun val => (key, val)

theorem DB.lookup_of_mem {db : DB o} {r : o.Hash × o.Prog} (hr : r ∈ db.records) :
    List.lookup r.1 db.records = some r.2 := by
  obtain ⟨l, l', heq⟩ := List.append_of_mem hr
  refine List.lookup_eq_some_iff.mpr ⟨l, l', heq, fun p hp => ?_⟩
  have hnodup := db.nodup
  rw [heq, List.map_append, List.nodup_append] at hnodup
  have hne := hnodup.2.2 p.1 (List.mem_map_of_mem hp) r.1 (by simp)
  simpa using hne.symm

theorem DB.inOrder_perm {db : DB o} {order : List o.Hash}
    (h : order.Perm (db.records.map Prod.fst)) : (db.inOrder order).Perm db.records := by
  have hself : (db.records.map Prod.fst).filterMap
      (fun key => (List.lookup key db.records).map fun val => (key, val)) = db.records := by
    rw [List.filterMap_map]
    calc db.records.filterMap _ = db.records.filterMap some :=
          List.filterMap_congr fun r hr => by
            simp only [Function.comp_apply, lookup_of_mem hr, Option.map_some]
      _ = db.records := List.filterMap_some
  have hperm := h.filterMap fun key => (List.lookup key db.records).map fun val => (key, val)
  rw [hself] at hperm
  exact hperm

namespace Manager

variable {mgr mgr' : Manager o}

/-- The manager has the same candidates. -/
theorem loadRecord_candidates (pkg : Packages o) (syscalls : List ℕ) (mgr : Manager o)
    (rec : o.Hash × o.Prog) :
    (mgr.loadRecord pkg syscalls rec).candidates =
        mgr.candidates ++ (candidateOf pkg syscalls mgr.corpusDB.version rec).toList ∧
      (mgr.loadRecord pkg syscalls rec).corpusDB.version = mgr.corpusDB.version := by
  unfold loadRecord candidateOf
  split
  · exact ⟨(List.append_nil _).symm, rfl⟩
  · split
    · exact ⟨(List.append_nil _).symm, rfl⟩
    · exact ⟨rfl, rfl⟩

theorem loadRecords_candidates (pkg : Packages o) (syscalls : List ℕ)
    (records : List (o.Hash × o.Prog)) (mgr : Manager o) :
    (records.foldl (loadRecord pkg syscalls) mgr).candidates =
      mgr.candidates ++ records.filterMap (candidateOf pkg syscalls mgr.corpusDB.version) := by
  refine foldl_view (I := fun m => m.corpusDB.version = mgr.corpusDB.version)
    (fun m rec hm => ?_) records rfl
  obtain ⟨hcandidates, hversion⟩ := loadRecord_candidates pkg syscalls m rec
  rw [hm] at hcandidates
  exact ⟨hversion.trans hm, hcandidates⟩

/-- The candidates behind `loadCorpus`. -/
theorem loadCorpus_candidates {order : List o.Hash} (hnew : mgr.candidates = [])
    (h : mgr.loadCorpus pkg syscalls order rand = some mgr') :
    order.Perm (mgr.corpusDB.records.map Prod.fst) ∧
      mgr'.candidates = (mgr.corpusDB.inOrder order).filterMap
          (candidateOf pkg syscalls mgr.corpusDB.version) ++
        shuffle rand ((mgr.corpusDB.inOrder order).filterMap
          (candidateOf pkg syscalls mgr.corpusDB.version)) := by
  unfold loadCorpus at h
  split at h
  · next horder =>
    obtain ⟨-, rfl⟩ := Option.ite_some_none_eq_some.mp h
    refine ⟨horder, ?_⟩
    have hloaded := loadRecords_candidates pkg syscalls (mgr.corpusDB.inOrder order) mgr
    rw [hnew, List.nil_append] at hloaded
    simp only
    rw [← hloaded]
    rfl
  · cases h

end Manager

/-! ## Batches -/

namespace Store

variable (null : Candidate o)

/-- The loop takes the elements that the slice ends in. -/
theorem take_eq (n : ℕ) (st : Store o) (res : List (Candidate o)) :
    ((take null n st res).1, (take null n st res).2.view) = takeLast n st.view res := by
  induction n generalizing st res with
  | zero => rfl
  | succ n ih =>
    unfold take takeLast
    split
    · next hlen =>
      have hlast : st.view.getLast? = some (st.heap.get st.candidates (st.candidates.len - 1)) := by
        rw [List.getLast?_eq_getElem?, view, length_view, getElem?_view (by omega)]
      have hrest : (⟨st.heap.set st.candidates (st.candidates.len - 1) null,
          st.candidates.upTo (st.candidates.len - 1)⟩ : Store o).view = st.view.dropLast := by
        rw [view, view, List.dropLast_eq_take, length_view, ← view_upTo (Nat.sub_le _ _)]
        exact view_place fun _ => .inl (Nat.le_refl _)
      rw [ih, hlast, hrest]
    · next hempty =>
      have hnil : st.view = [] := view_eq_nil (by omega)
      rw [hnil]
      rfl

/-- A batch is that of the list. -/
theorem candidateBatch_eq (st : Store o) (size : ℤ) :
    ((st.candidateBatch null size).1, (st.candidateBatch null size).2.view) =
      takeLast size.toNat st.view [] := by
  rw [← take_eq null, candidateBatch]
  dsimp only
  split
  · next hempty =>
    rw [view_eq_nil hempty]
    rfl
  · rfl

/-- The manager hands out the same batch and keeps the same candidates. -/
theorem candidateBatch_manager {st : Store o} {mgr : Manager o} (h : st.view = mgr.candidates)
    (size : ℕ) :
    (st.candidateBatch null size).1 = (mgr.candidateBatch size).1 ∧
      (st.candidateBatch null size).2.view = (mgr.candidateBatch size).2.candidates := by
  have htake := candidateBatch_eq null st size
  rw [Int.toNat_natCast, h] at htake
  exact Prod.mk.inj htake

/-- No candidate is lost, and none is handed out twice. -/
theorem batches_perm (sizes : List ℤ) (st : Store o) :
    ((batches null sizes st).1.flatten ++ (batches null sizes st).2.view).Perm st.view := by
  induction sizes generalizing st with
  | nil => exact List.Perm.refl _
  | cons size sizes ih =>
    have htake := candidateBatch_eq null st size
    have hperm := takeLast_perm size.toNat st.view []
    rw [← htake, List.append_nil] at hperm
    simp only [batches, List.flatten_cons, List.append_assoc]
    exact ((ih _).append_left _).trans (List.perm_append_comm.trans hperm)

end Store

/-! ## The property -/

/-- The records that parse and use enabled syscalls only. -/
def DB.enabled (db : DB o) (pkg : Packages o) (syscalls : List ℕ) : List (o.Hash × o.Prog) :=
  db.records.filter fun r => o.parses r.2 && (pkg.calls r.2).all (· ∈ syscalls)

/-- Each of the programs is a candidate in the first half once, and in the second once, and
there are no others. -/
def TwoChances (progs : List o.Prog) (candidates : List (Candidate o)) : Prop :=
  ∃ first second, candidates = first ++ second ∧ (first.map (·.prog)).Perm progs ∧
    second.Perm first

theorem candidateOf_prog (version : ℕ) (r : o.Hash × o.Prog) :
    (candidateOf pkg syscalls version r).map (·.prog) =
      if o.parses r.2 && (pkg.calls r.2).all (· ∈ syscalls) then some r.2 else none := by
  unfold candidateOf
  cases hparses : o.parses r.2 with
  | false => rfl
  | true =>
    by_cases hall : (pkg.calls r.2).all (· ∈ syscalls)
    · have hany : (pkg.calls r.2).any (· ∉ syscalls) = false := by
        simpa [List.any_eq_false] using hall
      rw [hany, hall]
      rfl
    · have hany : (pkg.calls r.2).any (· ∉ syscalls) = true := by
        simpa [List.any_eq_true] using hall
      rw [hany, Bool.eq_false_iff.mpr hall]
      rfl

theorem candidates_progs (db : DB o) (version : ℕ) {order : List o.Hash}
    (h : order.Perm (db.records.map Prod.fst)) :
    (((db.inOrder order).filterMap (candidateOf pkg syscalls version)).map (·.prog)).Perm
      ((db.enabled pkg syscalls).map Prod.snd) := by
  have hmap (l : List (o.Hash × o.Prog)) :
      (l.filterMap (candidateOf pkg syscalls version)).map (·.prog) =
        (l.filter fun r => o.parses r.2 && (pkg.calls r.2).all (· ∈ syscalls)).map Prod.snd := by
    rw [List.map_filterMap, ← List.filterMap_eq_map, ← List.filterMap_eq_filter,
      List.filterMap_filterMap]
    refine List.filterMap_congr fun r _ => ?_
    rw [candidateOf_prog, Option.guard]
    cases o.parses r.2 && (pkg.calls r.2).all (· ∈ syscalls) with
    | false => rfl
    | true => rfl
  rw [hmap]
  exact ((DB.inOrder_perm h).filter _).map _

/-- The hub has not added programs, and no candidate is there before `loadCorpus`. -/
def Unloaded (s : State o) : Prop := s.mgr.phase = .init → s.mgr.candidates = []

theorem Phase.init_of_drained {hubClient : Bool} {p : Phase} (h : p.drained hubClient = .init) :
    p = .init := by
  cases p with
  | init => rfl
  | loadedCorpus =>
    simp only [drained] at h
    split at h <;> cases h
  | triagedCorpus | queriedHub | triagedHub => cases h

theorem Unloaded.step {s t : State o} {e : Event o} (hs : Unloaded s)
    (he : ∀ progs, e ≠ .addNewCandidates progs) (h : step pkg s e = some t) : Unloaded t := by
  intro hinit
  cases step_cases h with
  | check _ _ hmgr =>
    obtain ⟨-, hphase, -⟩ := Manager.loadCorpus_spec hmgr
    rw [hphase] at hinit
    cases hinit
  | snapshot =>
    rw [Manager.minimizeCorpus_eq] at hinit ⊢
    exact hs hinit
  | minimize =>
    rw [Manager.minimizeCorpus_eq] at hinit ⊢
    exact hs hinit
  | @poll a seed r _ hr =>
    -- A batch of no candidates leaves none, and the phase is the same.
    change (s.batch a).2.phase = .init at hinit
    change (s.batch a).2.candidates = []
    unfold State.batch at hinit ⊢
    split at hinit
    · next hneed =>
      rw [if_pos hneed]
      unfold Manager.candidateBatch at hinit ⊢
      have hphase : s.mgr.phase = .init := by
        dsimp only at hinit
        split at hinit
        · exact Phase.init_of_drained hinit
        · exact hinit
      have hperm := takeLast_perm s.serv.batchSize s.mgr.candidates []
      rw [hs hphase] at hperm ⊢
      exact (List.append_eq_nil_iff.mp hperm.eq_nil).1
    · next hneed =>
      rw [if_neg hneed]
      exact hs hinit
  | addNewCandidates => exact absurd rfl (he _)
  | checkAgain | register | accept | reject | handOut | triaged | lost => exact hs hinit

/-- In every run without programs of the hub, `loadCorpus` gives each program that is enabled
two chances, and the batches after it have each candidate once. -/
theorem twoChances {batchSize : ℕ} {zero : o.Sig} {corpusDB : DB o} {hubClient : Bool}
    {es : List (Event o)} {s : State o}
    (hhub : AlwaysStep (step pkg) (fun _ e => ∀ progs, e ≠ .addNewCandidates progs)
      (.start batchSize zero corpusDB hubClient) es)
    (hs : runs (step pkg) (.start batchSize zero corpusDB hubClient) es = some s)
    {order : List o.Hash} {mgr : Manager o}
    (hload : s.mgr.loadCorpus pkg syscalls order rand = some mgr) (grow : ℕ → ℕ)
    (null : Candidate o) :
    let st := Store.loadCorpus pkg syscalls s.mgr.corpusDB.version grow rand null
      (s.mgr.corpusDB.inOrder order)
    st.view = mgr.candidates ∧
      TwoChances ((s.mgr.corpusDB.enabled pkg syscalls).map Prod.snd) st.view ∧
      ∀ sizes, ((st.batches null sizes).1.flatten ++ (st.batches null sizes).2.view).Perm st.view ∧
        ((st.batches null sizes).2.candidates.len = 0 →
          (st.batches null sizes).1.flatten.Perm st.view) := by
  intro st
  have hunloaded : Always (step pkg) Unloaded (.start batchSize zero corpusDB hubClient) es :=
    hhub.always (fun _ _ _ hs he h => hs.step he h) fun _ => rfl
  have hnew := always_iff.mp hunloaded es s (List.prefix_refl es) hs
  obtain ⟨hinit, -, -, -⟩ := Manager.loadCorpus_spec hload
  obtain ⟨horder, hcandidates⟩ := Manager.loadCorpus_candidates (hnew hinit) hload
  have hview : st.view = _ := Store.view_loadCorpus _ _ _
  refine ⟨hview.trans hcandidates.symm, ?_, fun sizes => ?_⟩
  · exact ⟨_, _, hview, candidates_progs _ _ horder, shuffle_perm rand _⟩
  · have hperm := Store.batches_perm null sizes st
    refine ⟨hperm, fun hempty => ?_⟩
    rw [Store.view_eq_nil hempty, List.append_nil] at hperm
    exact hperm

/-- The program that reads uses a syscall of its own. -/
def fileCalls (p : String) : List ℕ := if p = "read()" then [2] else [1]

def filePackages : Packages textPrograms := ⟨fileCalls, minimizeMaps⟩

def threeRecords : DB textPrograms :=
  ⟨3, [("open()", "open()"), ("read()", "read()"), ("close()", "close()")], by decide⟩

theorem twoChances_threeRecords :
    ∃ mgr, (State.start 5 noSignal threeRecords false).mgr.loadCorpus filePackages [1]
        ["read()", "close()", "open()"] (fun _ => 1) = some mgr ∧
      TwoChances ["open()", "close()"] mgr.candidates ∧
      mgr.candidates.map (·.prog) = ["close()", "open()", "open()", "close()"] := by
  have hprogs : ((State.start 5 noSignal threeRecords false).mgr.loadCorpus filePackages [1]
      ["read()", "close()", "open()"] (fun _ => 1)).map (fun mgr => mgr.candidates.map (·.prog)) =
      some ["close()", "open()", "open()", "close()"] := by rfl
  obtain ⟨mgr, hload, hmgr⟩ := Option.map_eq_some_iff.mp hprogs
  have hhub : AlwaysStep (step filePackages) (fun _ e => ∀ progs, e ≠ .addNewCandidates progs)
    (.start 5 noSignal threeRecords false) [] := trivial
  obtain ⟨hview, hchances, -⟩ := twoChances hhub rfl hload id ⟨⟨"", true, true⟩, true⟩
  rw [hview] at hchances
  have henabled : (threeRecords.enabled filePackages [1]).map Prod.snd = ["open()", "close()"] := by
    rfl
  exact ⟨mgr, hload, henabled ▸ hchances, hmgr⟩

end FuzzUSB.Corpus
