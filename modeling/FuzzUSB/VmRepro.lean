import FuzzUSB.VmLoop

/-!
# Failed reproductions

A crash is reproduced again until as many attempts have failed as there are marker files in its
directory. The markers are written by `saveFailedRepro` and counted by `needLocalRepro`.
-/

namespace FuzzUSB.VmLoop
open Transition

/-- A reproduction that fails, not of a hub crash, leaves a marker: the crash is no memory leak
and the file can be written. -/
def Marked (s : State) : Event → Prop
  | .reproDone k (.failed _ written) =>
    ∀ r, s.repros[k]? = some r → ¬r.1.hub → r.1.type ≠ .memoryLeak ∧ written
  | _ => True

/-! ## Markers -/

/-- How many of the markers there are. -/
def CrashDir.marks (dir : CrashDir) : ℕ := (List.range maxReproAttempts).countP dir.repro

theorem CrashDir.marks_le (dir : CrashDir) : dir.marks ≤ maxReproAttempts := by
  have hle := List.countP_le_length (p := dir.repro) (l := List.range maxReproAttempts)
  rwa [List.length_range] at hle

theorem CrashDir.marks_lt (dir : CrashDir)
    (h : (List.range maxReproAttempts).any fun i => !dir.repro i) :
    dir.marks < maxReproAttempts := by
  obtain ⟨i, hi, hmissing⟩ := List.any_eq_true.mp h
  refine dir.marks_le.lt_of_ne fun hall => ?_
  have heach := List.countP_eq_length.mp (hall.trans List.length_range.symm) i hi
  rw [heach] at hmissing
  cases hmissing

theorem CrashDir.marks_mark (dir : CrashDir) :
    (dir.mark true).marks = min maxReproAttempts (dir.marks + 1) := by
  simp only [CrashDir.mark, CrashDir.marks, maxReproAttempts]
  cases h0 : dir.repro 0 <;> cases h1 : dir.repro 1 <;> cases h2 : dir.repro 2 <;>
    simp [List.range_succ, h0, h1, h2]

/-! ## The invariant -/

/-- The crashes that are queued or being reproduced. -/
def State.inFlight (s : State) : List Crash := s.reproQueue ++ s.repros.map Prod.fst

/-- Every failure has left a marker, and another attempt is under way only if there were not
enough of them. -/
structure Limited (cfg : Config) (s : State) : Prop where
  booked : Booked cfg s
  marked : ∀ title, s.failed title ≤ (s.dirs (cfg.hash title)).marks
  room : ∀ crash ∈ s.inFlight, ¬crash.hub → s.failed crash.title < maxReproAttempts

section

variable {cfg : Config} {s t : State}

theorem limited_start (checkResult : Option Bool) (dirs : String → CrashDir) :
    Limited cfg (.start cfg checkResult dirs) where
  booked := booked_start checkResult dirs
  marked _ := Nat.zero_le _
  room := nofun

/-- What the start of instances and reproductions does not change. -/
structure Kept (s t : State) : Prop where
  dirs : t.dirs = s.dirs
  failed : t.failed = s.failed
  inFlight : ∀ crash ∈ t.inFlight, crash ∈ s.inFlight

theorem Kept.refl (s : State) : Kept s s := ⟨rfl, rfl, fun _ h => h⟩

theorem Kept.trans {u : State} (h : Kept s t) (h' : Kept t u) : Kept s u :=
  ⟨h'.dirs.trans h.dirs, h'.failed.trans h.failed,
    fun crash hmem => h.inFlight crash (h'.inFlight crash hmem)⟩

theorem Limited.keep (h : Limited cfg s) (hbooked : Booked cfg t) (hkept : Kept s t) :
    Limited cfg t where
  booked := hbooked
  marked title := by rw [hkept.dirs, hkept.failed]; exact h.marked title
  room crash hmem hhub := by
    rw [hkept.failed]
    exact h.room crash (hkept.inFlight crash hmem) hhub

/-- Without a dashboard the markers decide. -/
theorem needRepro_room (hdash : cfg.dash = false) {dashNeeds : Crash → Bool} {crash : Crash}
    (hneed : needRepro cfg s dashNeeds crash = some true) (hhub : ¬crash.hub) :
    (s.dirs (cfg.hash crash.title)).marks < maxReproAttempts := by
  rw [needRepro, if_neg hhub, if_pos (by simp [hdash]), needLocalRepro] at hneed
  split_ifs at hneed
  · simp at hneed
  · obtain ⟨leak, -, hdir⟩ := Option.map_eq_some_iff.mp hneed
    simp only at hdir
    split_ifs at hdir
    exact CrashDir.marks_lt _ hdir

theorem Limited.queuePending (hdash : cfg.dash = false) {dashNeeds : Crash → Bool}
    {order : List Crash} (h : Limited cfg s)
    (ht : s.queuePending cfg dashNeeds order = some t) : Limited cfg t := by
  refine State.queuePending_invariant (fun s crash h => ?_) (fun s crash h hnot hneed => ?_) h ht
  · exact h.keep (h.booked.congr rfl rfl rfl rfl rfl rfl) ⟨rfl, rfl, fun _ h => h⟩
  · refine ⟨h.booked.queue hnot, h.marked, fun c hmem hhub => ?_⟩
    have hcases : c = crash ∨ c ∈ s.inFlight := by
      simp only [State.inFlight, List.mem_append, List.mem_singleton] at hmem ⊢
      tauto
    rcases hcases with rfl | hold
    · exact (h.marked c.title).trans_lt (needRepro_room hdash hneed hhub)
    · exact h.room c hold hhub

theorem startRepro_kept (s : State) : Kept s (s.startRepro cfg) := by
  simp only [State.startRepro]
  split
  · exact .refl s
  · next crash hlast =>
    refine ⟨rfl, rfl, fun c hmem => ?_⟩
    have hcrash : crash ∈ s.reproQueue := List.mem_of_getLast? hlast
    simp only [State.inFlight, List.map_append, List.map_cons, List.map_nil, List.mem_append,
      List.mem_singleton] at hmem ⊢
    rcases hmem with hqueue | hold | rfl
    · exact .inl (List.mem_of_mem_dropLast hqueue)
    · exact .inr hold
    · exact .inl hcrash

theorem startRepros_kept (s : State) (n : ℕ) : Kept s (s.startRepros cfg n) := by
  induction n generalizing s with
  | zero => exact .refl s
  | succ n ih =>
    simp only [State.startRepros]
    split
    · exact (startRepro_kept s).trans (ih _)
    · exact .refl s

theorem startInstances_kept (s : State) (n : ℕ) : Kept s (s.startInstances cfg n) := by
  induction n generalizing s with
  | zero => exact .refl s
  | succ n ih =>
    have hone : Kept s s.startInstance := by
      simp only [State.startInstance]
      split <;> exact ⟨rfl, rfl, fun _ h => h⟩
    simp only [State.startInstances]
    split
    · exact hone.trans (ih _)
    · exact .refl s

theorem startAll_kept (s : State) : Kept s (s.startAll cfg) := by
  simp only [State.startAll]
  split
  · exact .refl s
  · exact (startRepros_kept s _).trans (startInstances_kept _ _)

/-- Of the reproductions in flight, no other one has the title of the one that is done. -/
theorem Booked.other_title {k : ℕ} {r : Crash × List ℕ} (h : Booked cfg s)
    (hr : s.repros[k]? = some r) {crash : Crash}
    (hmem : crash ∈ s.reproQueue ++ (s.repros.eraseIdx k).map Prod.fst) :
    crash ∈ s.inFlight ∧ crash.title ≠ r.1.title := by
  obtain ⟨hk, rfl⟩ := List.getElem?_eq_some_iff.mp hr
  have hperm : (s.repros[k].1 :: (s.reproQueue ++ (s.repros.eraseIdx k).map Prod.fst)).Perm
      s.inFlight :=
    List.perm_middle.symm.trans
      (List.Perm.append_left _ ((List.getElem_cons_eraseIdx_perm hk).map Prod.fst))
  have hnodup := (hperm.map Crash.title).nodup_iff.mpr h.titles
  refine ⟨hperm.subset (List.mem_cons_of_mem _ hmem), fun heq => ?_⟩
  exact (List.nodup_cons.mp hnodup).1 (heq ▸ List.mem_map_of_mem hmem)

/-- A failure leaves a marker or finds all of them. -/
theorem Limited.fail (h : Limited cfg s) {crash : Crash} {flight : List Crash}
    (hflight : ∀ c ∈ flight, c ∈ s.inFlight ∧ c.title ≠ crash.title)
    (hcrash : s.failed crash.title < maxReproAttempts) {failed : String → ℕ}
    (hfailed : failed = Function.update s.failed crash.title (s.failed crash.title + 1))
    {dirs : String → CrashDir} (hdirs : dirs = Function.update s.dirs (cfg.hash crash.title)
      ((s.dirs (cfg.hash crash.title)).mark true)) :
    (∀ title, failed title ≤ (dirs (cfg.hash title)).marks) ∧
      ∀ c ∈ flight, ¬c.hub → failed c.title < maxReproAttempts := by
  subst hfailed hdirs
  have hmark := (s.dirs (cfg.hash crash.title)).marks_mark
  constructor
  · intro title
    have hmarked := h.marked title
    have hle := (s.dirs (cfg.hash title)).marks_le
    by_cases htitle : title = crash.title
    · subst htitle
      rw [Function.update_self, Function.update_self, hmark]
      omega
    · rw [Function.update_of_ne htitle]
      by_cases hhash : cfg.hash title = cfg.hash crash.title
      · rw [hhash] at hmarked hle ⊢
        rw [Function.update_self, hmark]
        omega
      · rw [Function.update_of_ne hhash]
        exact hmarked
  · intro c hmem hhub
    obtain ⟨hold, htitle⟩ := hflight c hmem
    rw [Function.update_of_ne htitle]
    exact h.room c hold hhub

/-- Writing more files keeps the number of markers, or makes it greater. -/
theorem Limited.reproDone (hdash : cfg.dash = false) {k : ℕ} {r : Crash × List ℕ}
    (h : Limited cfg s) (hr : s.repros[k]? = some r) {outcome : Outcome}
    (hmarked : Marked s (.reproDone k outcome)) :
    Limited cfg (s.reproDone cfg k r.1 r.2 outcome) := by
  suffices hmore : (∀ title, (s.reproDone cfg k r.1 r.2 outcome).failed title ≤
      ((s.reproDone cfg k r.1 r.2 outcome).dirs (cfg.hash title)).marks) ∧
      ∀ c ∈ (s.reproDone cfg k r.1 r.2 outcome).inFlight, ¬c.hub →
        (s.reproDone cfg k r.1 r.2 outcome).failed c.title < maxReproAttempts from
    ⟨h.booked.reproDone hr outcome, hmore.1, hmore.2⟩
  cases outcome with
  | failed reported written =>
    have hcrash : r.1 ∈ s.inFlight :=
      List.mem_append_right _ (List.mem_map_of_mem (List.mem_of_getElem? hr))
    by_cases hhub : r.1.hub
    · have heq : s.reproDone cfg k r.1 r.2 (.failed reported written) =
          s.endRepro cfg k r.1 r.2 := by
        simp [State.reproDone, hhub]
      rw [heq]
      exact ⟨h.marked, fun c hmem => h.room c (h.booked.other_title hr hmem).1⟩
    · obtain ⟨htype, hwritten⟩ := hmarked r hr hhub
      have heq : s.reproDone cfg k r.1 r.2 (.failed reported written) =
          { s.endRepro cfg k r.1 r.2 with
            failed := Function.update s.failed r.1.title (s.failed r.1.title + 1)
            dirs := Function.update s.dirs (cfg.hash r.1.title)
              ((s.dirs (cfg.hash r.1.title)).mark true) } := by
        simp [State.reproDone, State.endRepro, State.saveFailedRepro, hhub, htype, hdash, hwritten]
      rw [heq]
      exact h.fail (fun c hmem => h.booked.other_title hr hmem) (h.room r.1 hcrash hhub) rfl rfl
  | reproduced title reported written =>
    have heq : s.reproDone cfg k r.1 r.2 (.reproduced title reported written) =
        { s.endRepro cfg k r.1 r.2 with
          dirs := Function.update s.dirs (cfg.hash title) { s.dirs (cfg.hash title) with
            reproProg := (s.dirs (cfg.hash title)).reproProg || written } } := by
      simp [State.reproDone, State.endRepro, State.saveRepro, hdash]
    rw [heq]
    refine ⟨fun other => ?_, fun c hmem => h.room c (h.booked.other_title hr hmem).1⟩
    dsimp only
    by_cases hhash : cfg.hash other = cfg.hash title
    · rw [hhash, Function.update_self, ← hhash]
      exact h.marked other
    · rw [Function.update_of_ne hhash]
      exact h.marked other

/-- The step lemma. -/
theorem Limited.step (hdash : cfg.dash = false) {e : Event} (h : Limited cfg s)
    (hmarked : Marked s e) (ht : step cfg s e = some t) : Limited cfg t := by
  have hbooked := h.booked.step ht
  cases e with
  | top phase order dashNeeds =>
    simp only [VmLoop.step] at ht
    split_ifs at ht
    · obtain ⟨u, hu, rfl⟩ := Option.map_eq_some_iff.mp ht
      have hphase : Limited cfg { s with phase := phase } :=
        h.keep (h.booked.congr rfl rfl rfl rfl rfl rfl) ⟨rfl, rfl, fun _ h => h⟩
      have hstart : Kept u (u.startAll cfg) := startAll_kept u
      exact (hphase.queuePending hdash hu).keep hbooked
        ⟨hstart.dirs, hstart.failed, hstart.inFlight⟩
    · obtain rfl := Option.some.inj ht
      exact h.keep hbooked ⟨rfl, rfl, fun _ h => h⟩
  | runDone idx crash dashReply =>
    simp only [VmLoop.step] at ht
    split_ifs at ht
    refine h.keep hbooked ?_
    simp only [State.runDone] at ht
    split at ht
    · exact Option.some.inj ht ▸ ⟨rfl, rfl, fun _ h => h⟩
    · split at ht
      · exact Option.some.inj ht ▸ ⟨rfl, rfl, fun _ h => h⟩
      · obtain ⟨needs, -, rfl⟩ := Option.map_eq_some_iff.mp ht
        split <;> exact ⟨rfl, rfl, fun _ h => h⟩
  | reproDone k outcome =>
    simp only [VmLoop.step] at ht
    split_ifs at ht
    obtain ⟨r, hr, rfl⟩ := Option.map_eq_some_iff.mp ht
    exact h.reproDone hdash hr hmarked
  | _ =>
    obtain ⟨-, rfl⟩ := Option.ite_some_none_eq_some.mp ht
    exact h.keep hbooked ⟨rfl, rfl, fun _ h => h⟩

end

/-- Without a dashboard, in every run of the loop in which every failed reproduction leaves a
marker: for every title at most `maxReproAttempts` reproductions fail that did not come from the
hub. -/
theorem reproductions_bounded (cfg : Config) (hdash : cfg.dash = false)
    (checkResult : Option Bool) (dirs : String → CrashDir) (es : List Event)
    (hmarked : AlwaysStep (step cfg) Marked (.start cfg checkResult dirs) es) :
    Always (step cfg) (fun s => ∀ title, s.failed title ≤ maxReproAttempts)
      (.start cfg checkResult dirs) es := by
  have hstart : Limited cfg (.start cfg checkResult dirs) := limited_start checkResult dirs
  have hlimited := hmarked.always (fun _ _ _ h hC ht => h.step hdash hC ht) hstart
  exact hlimited.mono fun s h title => (h.marked title).trans (CrashDir.marks_le _)

/-- One VM, and no dashboard. -/
def oneVm : Config := ⟨1, true, false, id⟩

/-- A crash that is no leak: its failed reproduction leaves a marker. -/
def warning : Crash := ⟨0, false, "WARNING in dummy_queue", .unknown, false, false⟩

def warningRound : List Event :=
  [.top 4 [] fun _ => false, .runDone 0 (some warning) none,
    .top 4 [warning] fun _ => false, .reproDone 0 (.failed false true)]

theorem reproductions_bounded_warning :
    Always (step oneVm) (fun s => ∀ title, s.failed title ≤ maxReproAttempts)
      (.start oneVm (some false) fun _ => ⟨false, fun _ => false⟩) warningRound := by
  refine reproductions_bounded oneVm rfl (some false) _ warningRound ?_
  refine .cons rfl trivial (.cons rfl trivial (.cons rfl trivial (.cons rfl ?_ trivial)))
  rintro r hr -
  obtain rfl := Option.some.inj hr
  exact ⟨by decide +kernel, rfl⟩

/-- A leak that is found but cannot be reproduced. -/
def leak (addr : ℕ) : Crash :=
  ⟨addr, false, "memory leak in dummy_queue", .memoryLeak, false, false⟩

/-- The instance crashes, the crash is queued, and its reproduction fails. -/
def leakRound (addr : ℕ) : List Event :=
  [.top 4 [] fun _ => false, .runDone 0 (some (leak addr)) none,
    .top 4 [leak addr] fun _ => false, .reproDone 0 (.failed false true)]

/-- No failure is counted, and a fourth attempt is made. -/
theorem leak_reproduced_again :
    ¬Always (step oneVm) (fun s => ∀ title, s.failed title ≤ maxReproAttempts)
      (.start oneVm (some true) fun _ => ⟨false, fun _ => false⟩)
      ((List.range 4).flatMap leakRound) := by
  intro h
  have hlast := always_iff.mp h _ _ (List.prefix_refl _) rfl
  exact absurd (hlast "memory leak in dummy_queue") (by decide +kernel)

end FuzzUSB.VmLoop
