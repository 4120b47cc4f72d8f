import FuzzUSB.Transition
import Mathlib.Data.Finset.Card
import Mathlib.Data.List.Perm.Basic
import Mathlib.Tactic.Ring

/-!
# The VM loop of the manager

`vmLoop` hands the indices of the VMs to fuzzing instances and to reproductions of crashes, and
takes them back with the results. One iteration is a part that starts what can be started, and
a `select` that waits for one of the channels.
-/

namespace FuzzUSB.VmLoop
open Transition

/-- `report.Type` -/
inductive CrashType
  | unknown | hang | memoryLeak | dataRace | unexpectedReboot
  deriving DecidableEq

/-- `*Crash`: its address, and what the loop reads of the report. -/
structure Crash where
  addr : ℕ
  hub : Bool
  title : String
  type : CrashType
  corrupted : Bool
  suppressed : Bool
  deriving DecidableEq

/-- The files of a crash directory that the loop looks for. -/
structure CrashDir where
  reproProg : Bool
  repro : ℕ → Bool

/-- What does not change while the loop runs. -/
structure Config where
  vmCount : ℕ
  reproduce : Bool
  dash : Bool
  hash : String → String

/-- The replies to `needMoreRepros` and `reproRequest`. -/
inductive Reply
  | needMoreRepros (need : Bool)
  | repros (titles : Finset String)

/-- Where the loop is: before an iteration, in its `select`, or behind its end. -/
inductive Point
  | top | wait | exit
  deriving DecidableEq

/-- The locals of `vmLoop`, with the instances and reproductions that it has started and whose
results it has not received, the fields of the manager that it uses and the crash directories.
Beside them: the replies, and how many reproductions of crashes with a title that did not come
from the hub have failed. -/
structure State where
  point : Point
  phase : ℕ
  instances : List ℕ
  running : List ℕ
  pendingRepro : List Crash
  reproducing : Finset String
  reproInstances : ℤ
  reproQueue : List Crash
  repros : List (Crash × List ℕ)
  stopPending : Bool
  shutdown : Bool
  checkResult : Option Bool
  dirs : String → CrashDir
  replies : List Reply
  failed : String → ℕ

def Config.instancesPerRepro (cfg : Config) : ℕ := min 4 cfg.vmCount

/-- `checkResult` says whether the leak feature is enabled, once a fuzzer has checked. -/
def State.start (cfg : Config) (checkResult : Option Bool) (dirs : String → CrashDir) : State where
  point := .top
  phase := 0
  instances := (List.range cfg.vmCount).reverse
  running := []
  pendingRepro := []
  reproducing := ∅
  reproInstances := 0
  reproQueue := []
  repros := []
  stopPending := false
  shutdown := false
  checkResult := checkResult
  dirs := dirs
  replies := []
  failed := fun _ => 0

/-! ## Decisions about a crash -/

def maxReproAttempts : ℕ := 3

def phaseTriagedHub : ℕ := 4

/-- `none` is a fault, as nothing has been checked yet. -/
def needLocalRepro (cfg : Config) (s : State) (crash : Crash) : Option Bool :=
  if !cfg.reproduce ∨ crash.corrupted then some false
  else s.checkResult.map fun (leak : Bool) =>
    let dir := s.dirs (cfg.hash crash.title)
    if leak ∧ crash.type ≠ .memoryLeak then false
    else if dir.reproProg then false
    else (List.range maxReproAttempts).any fun i => !dir.repro i

/-- `dashNeeds` is the answer of the dashboard. -/
def needRepro (cfg : Config) (s : State) (dashNeeds : Crash → Bool) (crash : Crash) :
    Option Bool :=
  if crash.hub then some true
  else if !cfg.dash then needLocalRepro cfg s crash
  else if crash.type = .memoryLeak then some true
  else some (dashNeeds crash)

/-- `dashReply` is the answer of the dashboard, if it can be reached. -/
def saveCrash (cfg : Config) (s : State) (crash : Crash) (dashReply : Option Bool) : Option Bool :=
  if crash.suppressed then some false
  else if cfg.dash ∧ crash.type = .memoryLeak then some true
  else
    match if cfg.dash then dashReply else none with
    | some needs => some needs
    | none => needLocalRepro cfg s crash

/-- The first missing one of the files that `saveFailedRepro` tries is written, if writing it
does not fail. -/
def CrashDir.mark (dir : CrashDir) (written : Bool) : CrashDir :=
  match (List.range maxReproAttempts).find? fun i => !dir.repro i with
  | some i => if written then { dir with repro := Function.update dir.repro i true } else dir
  | none => dir

def State.saveFailedRepro (cfg : Config) (s : State) (crash : Crash) (reported written : Bool) :
    State :=
  if crash.type = .memoryLeak then s
  else if cfg.dash ∧ reported then s
  else
    let d := cfg.hash crash.title
    { s with dirs := Function.update s.dirs d ((s.dirs d).mark written) }

/-- `title` is that of the report of the reproducer. -/
def State.saveRepro (cfg : Config) (s : State) (title : String) (reported written : Bool) : State :=
  if cfg.dash ∧ reported then s
  else
    let d := cfg.hash title
    let dir := s.dirs d
    { s with
      dirs := Function.update s.dirs d { dir with reproProg := dir.reproProg || written } }

/-! ## The first part of an iteration -/

/-- The loop over the pending crashes, in the order in which the map gives them. -/
def State.queuePending (cfg : Config) (dashNeeds : Crash → Bool) : List Crash → State → Option State
  | [], s => some s
  | crash :: crashes, s =>
    if crash.title ∈ s.reproducing then s.queuePending cfg dashNeeds crashes
    else
      let s := { s with pendingRepro := s.pendingRepro.erase crash }
      match needRepro cfg s dashNeeds crash with
      | none => none
      | some false => s.queuePending cfg dashNeeds crashes
      | some true =>
        { s with
          reproducing := insert crash.title s.reproducing
          reproQueue := s.reproQueue ++ [crash] }.queuePending cfg dashNeeds crashes

def State.canRepro (cfg : Config) (s : State) : Bool :=
  phaseTriagedHub ≤ s.phase && s.reproQueue ≠ [] &&
    s.reproInstances + cfg.instancesPerRepro ≤ cfg.vmCount

/-- `repro.Run` is started for the last crash of the queue, on the last instances. -/
def State.startRepro (cfg : Config) (s : State) : State :=
  match s.reproQueue.getLast? with
  | none => s
  | some crash =>
    let left := s.instances.length - cfg.instancesPerRepro
    { s with
      reproQueue := s.reproQueue.dropLast
      instances := s.instances.take left
      reproInstances := s.reproInstances + cfg.instancesPerRepro
      repros := s.repros ++ [(crash, s.instances.drop left)] }

/-- `runInstance` is started on the last instance. -/
def State.startInstance (s : State) : State :=
  match s.instances.getLast? with
  | none => s
  | some idx => { s with instances := s.instances.dropLast, running := s.running ++ [idx] }

/-- At most `n` rounds of the loop that starts reproductions. -/
def State.startRepros (cfg : Config) : ℕ → State → State
  | 0, s => s
  | n + 1, s =>
    if s.canRepro cfg ∧ cfg.instancesPerRepro ≤ s.instances.length then
      (s.startRepro cfg).startRepros cfg n
    else s

/-- At most `n` rounds of the loop that starts instances. -/
def State.startInstances (cfg : Config) : ℕ → State → State
  | 0, s => s
  | n + 1, s =>
    if !s.canRepro cfg ∧ s.instances ≠ [] then s.startInstance.startInstances cfg n
    else s

def State.startAll (cfg : Config) (s : State) : State :=
  if s.shutdown then s
  else
    let s := s.startRepros cfg s.reproQueue.length
    s.startInstances cfg s.instances.length

/-! ## The `select` -/

/-- What comes of a reproduction, with what becomes of the report to the dashboard and of the
write to the crash directory. -/
inductive Outcome
  | failed (reported written : Bool)
  | reproduced (title : String) (reported written : Bool)

inductive Event
  | top (phase : ℕ) (order : List Crash) (dashNeeds : Crash → Bool)
  | stopRequest
  | runDone (idx : ℕ) (crash : Option Crash) (dashReply : Option Bool)
  | reproDone (k : ℕ) (outcome : Outcome)
  | shutdown
  | hubRepro (crash : Crash)
  | needMoreRepros
  | reproRequest
  | checked (leak : Bool)

/-- `pendingRepro[crash] = true` -/
def State.addPending (s : State) (crash : Crash) : State :=
  { s with
    pendingRepro := if crash ∈ s.pendingRepro then s.pendingRepro else s.pendingRepro ++ [crash] }

def State.runDone (cfg : Config) (s : State) (idx : ℕ) (crash : Option Crash)
    (dashReply : Option Bool) : Option State :=
  let s := { s with
    point := .top
    stopPending := false
    instances := s.instances ++ [idx]
    running := s.running.erase idx }
  match crash with
  | none => some s
  | some crash =>
    if s.shutdown then some s
    else (saveCrash cfg s crash dashReply).map fun needs => if needs then s.addPending crash else s

/-- The instances and the title of a reproduction are free again. -/
def State.endRepro (cfg : Config) (s : State) (k : ℕ) (crash : Crash) (vmIndexes : List ℕ) :
    State :=
  { s with
    point := .top
    reproducing := s.reproducing.erase crash.title
    instances := s.instances ++ vmIndexes
    reproInstances := s.reproInstances - cfg.instancesPerRepro
    repros := s.repros.eraseIdx k }

def State.reproDone (cfg : Config) (s : State) (k : ℕ) (crash : Crash) (vmIndexes : List ℕ)
    (outcome : Outcome) : State :=
  let s := s.endRepro cfg k crash vmIndexes
  match outcome with
  | .failed reported written =>
    if crash.hub then s
    else
      let s := { s with
        failed := Function.update s.failed crash.title (s.failed crash.title + 1) }
      s.saveFailedRepro cfg crash reported written
  | .reproduced title reported written => s.saveRepro cfg title reported written

def State.needsMoreRepros (s : State) : Bool :=
  phaseTriagedHub ≤ s.phase &&
    s.reproQueue.length + s.pendingRepro.length + s.reproducing.card = 0

def step (cfg : Config) (s : State) : Event → Option State
  | .top phase order dashNeeds =>
    if s.point = .top ∧ order.Perm s.pendingRepro then
      if !s.shutdown ∨ s.instances.length ≠ cfg.vmCount then
        ({ s with phase := phase }.queuePending cfg dashNeeds order).map fun (s : State) =>
          { s.startAll cfg with point := .wait }
      else some { s with point := .exit }
    else none
  | .stopRequest =>
    if s.point = .wait ∧ !s.stopPending ∧ s.canRepro cfg then
      some { s with point := .top, stopPending := true }
    else none
  | .runDone idx crash dashReply =>
    if s.point = .wait ∧ idx ∈ s.running ∧ (∀ c ∈ crash, !c.hub) then
      s.runDone cfg idx crash dashReply
    else none
  | .reproDone k outcome =>
    if s.point = .wait then
      (s.repros[k]?).map fun r => s.reproDone cfg k r.1 r.2 outcome
    else none
  | .shutdown =>
    if s.point = .wait ∧ !s.shutdown then some { s with point := .top, shutdown := true } else none
  | .hubRepro crash =>
    if s.point = .wait ∧ crash.hub then some { s.addPending crash with point := .top } else none
  | .needMoreRepros =>
    if s.point = .wait then
      some { s with replies := s.replies ++ [.needMoreRepros s.needsMoreRepros] }
    else none
  | .reproRequest =>
    if s.point = .wait then some { s with replies := s.replies ++ [.repros s.reproducing] }
    else none
  | .checked leak => if s.checkResult = none then some { s with checkResult := some leak } else none

/-! ## The property -/

/-- No VM and no title is booked twice. -/
structure Booked (cfg : Config) (s : State) : Prop where
  /-- Idle, running and held by reproductions, the indices are those of the VMs. -/
  partition : (s.instances ++ s.running ++ s.repros.flatMap Prod.snd).Perm (List.range cfg.vmCount)
  count : s.reproInstances = cfg.instancesPerRepro * s.repros.length
  bound : s.reproInstances ≤ cfg.vmCount
  /-- The titles that are queued or running are different, and `reproducing` holds them. -/
  titles : ((s.reproQueue ++ s.repros.map Prod.fst).map Crash.title).Nodup
  reproducing_iff : ∀ t, t ∈ s.reproducing ↔
    t ∈ (s.reproQueue ++ s.repros.map Prod.fst).map Crash.title

/-- Every VM is idle. -/
def AllIdle (cfg : Config) (s : State) : Prop :=
  s.instances.Perm (List.range cfg.vmCount) ∧ s.running = [] ∧ ∀ r ∈ s.repros, r.2 = []

/-! ## The first part of an iteration -/

section

variable {cfg : Config} {s t : State}

theorem booked_start (checkResult : Option Bool) (dirs : String → CrashDir) :
    Booked cfg (.start cfg checkResult dirs) where
  partition := by simp [State.start]
  count := by simp [State.start]
  bound := by simp [State.start]
  titles := by simp [State.start]
  reproducing_iff := by simp [State.start]

/-- A state with the same books. -/
theorem Booked.congr (h : Booked cfg s) (hinst : t.instances = s.instances)
    (hrun : t.running = s.running) (hrepros : t.repros = s.repros)
    (hcount : t.reproInstances = s.reproInstances) (hqueue : t.reproQueue = s.reproQueue)
    (hrepro : t.reproducing = s.reproducing) : Booked cfg t where
  partition := by rw [hinst, hrun, hrepros]; exact h.partition
  count := by rw [hcount, hrepros]; exact h.count
  bound := by rw [hcount]; exact h.bound
  titles := by rw [hqueue, hrepros]; exact h.titles
  reproducing_iff := by rw [hqueue, hrepros, hrepro]; exact h.reproducing_iff

/-- A title that is not being reproduced is queued. -/
theorem Booked.queue (h : Booked cfg s) {crash : Crash} (hnot : crash.title ∉ s.reproducing) :
    Booked cfg { s with
      reproducing := insert crash.title s.reproducing
      reproQueue := s.reproQueue ++ [crash] } := by
  have hperm : ((s.reproQueue ++ [crash] ++ s.repros.map Prod.fst).map Crash.title).Perm
      (crash.title :: (s.reproQueue ++ s.repros.map Prod.fst).map Crash.title) := by
    simp only [List.append_assoc, List.singleton_append, List.map_append, List.map_cons]
    exact List.perm_middle
  refine ⟨h.partition, h.count, h.bound, ?_, fun t => ?_⟩
  · rw [hperm.nodup_iff, List.nodup_cons]
    exact ⟨fun hmem => hnot ((h.reproducing_iff _).mpr hmem), h.titles⟩
  · rw [hperm.mem_iff, List.mem_cons, Finset.mem_insert, h.reproducing_iff]

/-- What holds of the loop over the pending crashes: it drops them one by one, and queues the
titles that need it and are not being reproduced. -/
theorem State.queuePending_invariant {I : State → Prop} {dashNeeds : Crash → Bool}
    {order : List Crash}
    (herase : ∀ s crash, I s → I { s with pendingRepro := s.pendingRepro.erase crash })
    (hqueue : ∀ s crash, I s → crash.title ∉ s.reproducing →
      needRepro cfg s dashNeeds crash = some true → I { s with
        reproducing := insert crash.title s.reproducing
        reproQueue := s.reproQueue ++ [crash] })
    (h : I s) (ht : s.queuePending cfg dashNeeds order = some t) : I t := by
  induction order generalizing s with
  | nil => exact Option.some.inj ht ▸ h
  | cons crash crashes ih =>
    simp only [State.queuePending] at ht
    split at ht
    · exact ih h ht
    · next hnot =>
      split at ht
      · cases ht
      · exact ih (herase s crash h) ht
      · next hneed => exact ih (hqueue _ crash (herase s crash h) hnot hneed) ht

theorem Booked.queuePending {dashNeeds : Crash → Bool} {order : List Crash} (h : Booked cfg s)
    (ht : s.queuePending cfg dashNeeds order = some t) : Booked cfg t :=
  State.queuePending_invariant (fun _ _ h => h.congr rfl rfl rfl rfl rfl rfl)
    (fun _ _ h hnot _ => h.queue hnot) h ht

theorem Booked.startRepro (h : Booked cfg s) (hcan : s.canRepro cfg) :
    Booked cfg (s.startRepro cfg) := by
  simp only [State.canRepro, Bool.and_eq_true, decide_eq_true_eq] at hcan
  obtain ⟨⟨-, hne⟩, hroom⟩ := hcan
  simp only [State.startRepro]
  split
  · exact h
  · next crash hlast =>
    obtain ⟨queue, hqueue⟩ := List.getLast?_eq_some_iff.mp hlast
    have hdrop : s.reproQueue.dropLast = queue := by rw [hqueue, List.dropLast_concat]
    have hperm : ((queue ++ (s.repros ++ [(crash, s.instances.drop (s.instances.length -
          cfg.instancesPerRepro))]).map Prod.fst).map Crash.title).Perm
        ((s.reproQueue ++ s.repros.map Prod.fst).map Crash.title) := by
      rw [hqueue]
      refine List.Perm.map _ ?_
      simp only [List.map_append, List.map_cons, List.map_nil, List.append_assoc]
      exact List.Perm.append_left _ List.perm_append_comm
    constructor
    case partition =>
      refine List.Perm.trans (List.perm_iff_count.mpr fun idx => ?_) h.partition
      have hsplit := congrArg (List.count idx)
        (List.take_append_drop (s.instances.length - cfg.instancesPerRepro) s.instances)
      simp only [List.count_append, List.flatMap_append, List.flatMap_cons, List.flatMap_nil,
        List.append_nil] at hsplit ⊢
      omega
    case count =>
      simp only [h.count, List.length_append, List.length_singleton]
      push_cast
      ring
    case bound => exact hroom
    case titles =>
      simp only [hdrop]
      exact hperm.nodup_iff.mpr h.titles
    case reproducing_iff =>
      intro t
      simp only [hdrop]
      rw [h.reproducing_iff, hperm.mem_iff]

theorem Booked.startInstance (h : Booked cfg s) : Booked cfg s.startInstance := by
  simp only [State.startInstance]
  split
  · exact h
  · next idx hlast =>
    obtain ⟨instances, hinst⟩ := List.getLast?_eq_some_iff.mp hlast
    refine ⟨?_, h.count, h.bound, h.titles, h.reproducing_iff⟩
    refine List.Perm.trans (List.perm_iff_count.mpr fun i => ?_) h.partition
    simp only [hinst, List.dropLast_concat, List.count_append]
    omega

theorem Booked.startRepros (h : Booked cfg s) (n : ℕ) : Booked cfg (s.startRepros cfg n) := by
  induction n generalizing s with
  | zero => exact h
  | succ n ih =>
    simp only [State.startRepros]
    split
    · next hcan => exact ih (h.startRepro hcan.1)
    · exact h

theorem Booked.startInstances (h : Booked cfg s) (n : ℕ) :
    Booked cfg (s.startInstances cfg n) := by
  induction n generalizing s with
  | zero => exact h
  | succ n ih =>
    simp only [State.startInstances]
    split
    · exact ih h.startInstance
    · exact h

theorem Booked.startAll (h : Booked cfg s) : Booked cfg (s.startAll cfg) := by
  simp only [State.startAll]
  split
  · exact h
  · exact (h.startRepros _).startInstances _

/-- As many rounds as there are queued crashes are enough. -/
theorem State.startRepros_stops (s : State) {n : ℕ} (hn : s.reproQueue.length ≤ n) :
    ¬((s.startRepros cfg n).canRepro cfg ∧
      cfg.instancesPerRepro ≤ (s.startRepros cfg n).instances.length) := by
  induction n generalizing s with
  | zero =>
    have hnil : s.reproQueue = [] := by simpa using hn
    simp [State.startRepros, State.canRepro, hnil]
  | succ n ih =>
    simp only [State.startRepros]
    split
    · next hcan =>
      apply ih
      simp only [State.canRepro, Bool.and_eq_true, decide_eq_true_eq] at hcan
      obtain ⟨crash, hlast⟩ := List.getLast?_isSome.mpr hcan.1.1.2 |> Option.isSome_iff_exists.mp
      simp only [State.startRepro, hlast, List.length_dropLast]
      omega
    · next hcan => exact hcan

/-- As many rounds as there are idle instances are enough. -/
theorem State.startInstances_stops (s : State) {n : ℕ} (hn : s.instances.length ≤ n) :
    ¬((s.startInstances cfg n).canRepro cfg = false ∧ (s.startInstances cfg n).instances ≠ []) := by
  induction n generalizing s with
  | zero =>
    have hnil : s.instances = [] := by simpa using hn
    simp [State.startInstances, hnil]
  | succ n ih =>
    simp only [State.startInstances]
    split
    · next hcan =>
      apply ih
      obtain ⟨idx, hlast⟩ := List.getLast?_isSome.mpr hcan.2 |> Option.isSome_iff_exists.mp
      simp only [State.startInstance, hlast, List.length_dropLast]
      omega
    · next hcan => simpa using hcan

/-! ## The channels -/

theorem Booked.saveFailedRepro (h : Booked cfg s) (crash : Crash) (reported written : Bool) :
    Booked cfg (s.saveFailedRepro cfg crash reported written) := by
  simp only [State.saveFailedRepro]
  split_ifs
  · exact h
  · exact h
  · exact h.congr rfl rfl rfl rfl rfl rfl

theorem Booked.saveRepro (h : Booked cfg s) (title : String) (reported written : Bool) :
    Booked cfg (s.saveRepro cfg title reported written) := by
  simp only [State.saveRepro]
  split
  · exact h
  · exact h.congr rfl rfl rfl rfl rfl rfl

/-- The instance of a result is idle. -/
theorem Booked.runDone {idx : ℕ} {crash : Option Crash} {dashReply : Option Bool}
    (h : Booked cfg s) (hidx : idx ∈ s.running)
    (ht : s.runDone cfg idx crash dashReply = some t) : Booked cfg t := by
  have hidle : Booked cfg { s with
      point := .top
      stopPending := false
      instances := s.instances ++ [idx]
      running := s.running.erase idx } := by
    refine ⟨?_, h.count, h.bound, h.titles, h.reproducing_iff⟩
    refine List.Perm.trans (List.perm_iff_count.mpr fun i => ?_) h.partition
    have hrun := (List.perm_cons_erase hidx).count_eq i
    rw [← List.singleton_append, List.count_append] at hrun
    simp only [List.count_append]
    omega
  simp only [State.runDone] at ht
  split at ht
  · exact Option.some.inj ht ▸ hidle
  · split at ht
    · exact Option.some.inj ht ▸ hidle
    · obtain ⟨needs, -, rfl⟩ := Option.map_eq_some_iff.mp ht
      split
      · exact hidle.congr rfl rfl rfl rfl rfl rfl
      · exact hidle

theorem Booked.endRepro {k : ℕ} {r : Crash × List ℕ} (h : Booked cfg s)
    (hr : s.repros[k]? = some r) : Booked cfg (s.endRepro cfg k r.1 r.2) := by
  obtain ⟨hk, rfl⟩ := List.getElem?_eq_some_iff.mp hr
  have hperm : (s.repros[k] :: s.repros.eraseIdx k).Perm s.repros :=
    List.getElem_cons_eraseIdx_perm hk
  have htitles : (s.repros[k].1.title ::
        (s.reproQueue ++ (s.repros.eraseIdx k).map Prod.fst).map Crash.title).Perm
      ((s.reproQueue ++ s.repros.map Prod.fst).map Crash.title) := by
    rw [← List.map_cons]
    refine List.Perm.map _ (List.perm_middle.symm.trans ?_)
    exact List.Perm.append_left _ (hperm.map Prod.fst)
  have hnodup := htitles.nodup_iff.mpr h.titles
  constructor
  case partition =>
    refine List.Perm.trans (List.perm_iff_count.mpr fun i => ?_) h.partition
    have hcount := (hperm.flatMap_right Prod.snd).count_eq i
    simp only [State.endRepro, List.flatMap_cons, List.count_append] at hcount ⊢
    omega
  case count =>
    have hlen : s.repros.length = (s.repros.eraseIdx k).length + 1 := by
      rw [← hperm.length_eq, List.length_cons]
    simp only [State.endRepro]
    rw [h.count, hlen]
    push_cast
    ring
  case bound =>
    have hbound := h.bound
    simp only [State.endRepro]
    omega
  case titles => exact (List.nodup_cons.mp hnodup).2
  case reproducing_iff =>
    intro t
    simp only [State.endRepro]
    rw [Finset.mem_erase, h.reproducing_iff, ← htitles.mem_iff, List.mem_cons]
    constructor
    · rintro ⟨hne, rfl | hmem⟩
      · exact absurd rfl hne
      · exact hmem
    · intro hmem
      exact ⟨fun heq => (List.nodup_cons.mp hnodup).1 (heq ▸ hmem), .inr hmem⟩

theorem Booked.reproDone {k : ℕ} {r : Crash × List ℕ} (h : Booked cfg s)
    (hr : s.repros[k]? = some r) (outcome : Outcome) :
    Booked cfg (s.reproDone cfg k r.1 r.2 outcome) := by
  have hfree := h.endRepro hr
  simp only [State.reproDone]
  cases outcome with
  | failed reported written =>
    dsimp only
    split
    · exact hfree
    · refine Booked.saveFailedRepro ?_ _ _ _
      exact hfree.congr rfl rfl rfl rfl rfl rfl
  | reproduced title reported written => exact hfree.saveRepro title reported written

/-- The step lemma. -/
theorem Booked.step {e : Event} (h : Booked cfg s) (ht : step cfg s e = some t) :
    Booked cfg t := by
  cases e with
  | top phase order dashNeeds =>
    simp only [VmLoop.step] at ht
    split_ifs at ht
    · obtain ⟨u, hu, rfl⟩ := Option.map_eq_some_iff.mp ht
      have hphase : Booked cfg { s with phase := phase } := h.congr rfl rfl rfl rfl rfl rfl
      exact (hphase.queuePending hu).startAll.congr rfl rfl rfl rfl rfl rfl
    · obtain rfl := Option.some.inj ht
      exact h.congr rfl rfl rfl rfl rfl rfl
  | runDone idx crash dashReply =>
    simp only [VmLoop.step] at ht
    split_ifs at ht with hguard
    exact h.runDone hguard.2.1 ht
  | reproDone k outcome =>
    simp only [VmLoop.step] at ht
    split_ifs at ht
    obtain ⟨r, hr, rfl⟩ := Option.map_eq_some_iff.mp ht
    exact h.reproDone hr outcome
  | _ =>
    obtain ⟨-, rfl⟩ := Option.ite_some_none_eq_some.mp ht
    exact h.congr rfl rfl rfl rfl rfl rfl

/-- When the idle list is full, nothing else is left. -/
theorem Booked.allIdle (h : Booked cfg s) (hlen : s.instances.length = cfg.vmCount) :
    AllIdle cfg s := by
  have hsum := h.partition.length_eq
  simp only [List.length_append, List.length_range] at hsum
  have hrun : s.running = [] := List.length_eq_zero_iff.mp (by omega)
  have hflat : s.repros.flatMap Prod.snd = [] := List.length_eq_zero_iff.mp (by omega)
  refine ⟨?_, hrun, List.flatMap_eq_nil_iff.mp hflat⟩
  have hpart := h.partition
  rwa [hrun, hflat, List.append_nil, List.append_nil] at hpart

theorem State.runDone_point {idx : ℕ} {crash : Option Crash} {dashReply : Option Bool}
    (ht : s.runDone cfg idx crash dashReply = some t) : t.point = .top := by
  simp only [State.runDone] at ht
  split at ht
  · exact Option.some.inj ht ▸ rfl
  · split at ht
    · exact Option.some.inj ht ▸ rfl
    · obtain ⟨needs, -, rfl⟩ := Option.map_eq_some_iff.mp ht
      split <;> rfl

theorem State.reproDone_point (s : State) (k : ℕ) (crash : Crash) (vmIndexes : List ℕ)
    (outcome : Outcome) : (s.reproDone cfg k crash vmIndexes outcome).point = .top := by
  cases outcome with
  | failed reported written =>
    simp only [State.reproDone, State.saveFailedRepro]
    split_ifs <;> rfl
  | reproduced title reported written =>
    simp only [State.reproDone, State.saveRepro]
    split <;> rfl

/-- Only an iteration that finds all instances idle ends the loop. -/
theorem step_exit {e : Event} (ht : step cfg s e = some t) (hexit : t.point = .exit) :
    s.instances = t.instances ∧ s.running = t.running ∧ s.repros = t.repros ∧
      (s.point = .exit ∨ s.instances.length = cfg.vmCount) := by
  cases e with
  | top phase order dashNeeds =>
    simp only [VmLoop.step] at ht
    split_ifs at ht with hguard hgoes
    · obtain ⟨u, hu, rfl⟩ := Option.map_eq_some_iff.mp ht
      cases hexit
    · obtain rfl := Option.some.inj ht
      exact ⟨rfl, rfl, rfl, .inr (by_contra fun hlen => hgoes (.inr hlen))⟩
  | runDone idx crash dashReply =>
    simp only [VmLoop.step] at ht
    split_ifs at ht
    rw [State.runDone_point ht] at hexit
    cases hexit
  | reproDone k outcome =>
    simp only [VmLoop.step] at ht
    split_ifs at ht
    obtain ⟨r, -, rfl⟩ := Option.map_eq_some_iff.mp ht
    rw [State.reproDone_point] at hexit
    cases hexit
  | checked leak =>
    obtain ⟨-, rfl⟩ := Option.ite_some_none_eq_some.mp ht
    exact ⟨rfl, rfl, rfl, .inl hexit⟩
  | needMoreRepros | reproRequest =>
    obtain ⟨hpoint, rfl⟩ := Option.ite_some_none_eq_some.mp ht
    cases hpoint.symm.trans hexit
  | _ =>
    obtain ⟨-, rfl⟩ := Option.ite_some_none_eq_some.mp ht
    cases hexit

/-- For every number of VMs and every order of results, hub crashes, stop requests, shutdown and
questions: in every state of the loop no VM and no title is booked twice, and if it has ended
then every VM is idle. -/
theorem vmLoop_booked (cfg : Config) (checkResult : Option Bool) (dirs : String → CrashDir)
    (es : List Event) :
    Always (step cfg) (fun s => Booked cfg s ∧ (s.point = .exit → AllIdle cfg s))
      (.start cfg checkResult dirs) es := by
  have hinv {s : State} {e : Event} {t : State}
      (h : Booked cfg s ∧ (s.point = .exit → AllIdle cfg s)) (ht : step cfg s e = some t) :
      Booked cfg t ∧ (t.point = .exit → AllIdle cfg t) := by
    refine ⟨h.1.step ht, fun hexit => ?_⟩
    obtain ⟨hinst, hrun, hrepros, hpoint | hlen⟩ := step_exit ht hexit
    · rw [AllIdle, ← hinst, ← hrun, ← hrepros]
      exact h.2 hpoint
    · exact (h.1.step ht).allIdle (hinst ▸ hlen)
  refine always_iff.mpr fun pre t _ ht => ?_
  exact runs_invariant (fun _ _ _ => hinv) ⟨booked_start checkResult dirs, nofun⟩ ht

end

end FuzzUSB.VmLoop
