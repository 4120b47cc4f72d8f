import FuzzUSB.ArrayLoops
import FuzzUSB.Transition
import Mathlib.Algebra.Ring.Int.Defs
import Mathlib.Data.Int.Notation

/-!
# Loading and unloading the emulated bus

`init` of `dummy_hcd.c` makes two platform devices and a `struct dummy` for each emulated
controller, and registers two drivers, whose probe functions run when a device is added. What
the kernel does not allow (a device released twice, a pointer freed that was never set, an
object overwritten that is still there) has no next state.
-/

namespace FuzzUSB.DummyHcd.Init
open Transition ArrayLoops

def eNoMem : ℕ := 12
def eNoDev : ℕ := 19
def eInval : ℕ := 22

/-- `MAX_NUM_UDC` -/
def maxNumUdc : ℕ := 32

/-- `struct dummy_hcd_module_parameters` -/
structure Params where
  isSuperSpeed : Bool
  isHighSpeed : Bool
  num : ℕ

/-- The drivers, and the devices of an emulated controller. -/
inductive Kind
  | hcd
  | udc
  deriving DecidableEq

/-- A pointer to the `struct dummy` of a controller. -/
inductive Ptr
  | garbage
  | null
  | dummy
  deriving DecidableEq

/-- A platform device, with its platform data, and whether a driver is bound to it. -/
inductive Pdev
  | absent
  | alloced (data : Ptr)
  | added (data : Ptr) (bound : Bool)
  deriving DecidableEq

/-- `struct dummy`, with `hs_hcd` and `ss_hcd`, which are set while the HCDs exist. -/
inductive Dum
  | free
  | used (hsHcd ssHcd : Bool)
  deriving DecidableEq

/-- What there is of one controller. `dum` is the memory, and `ptr` the element of the local
array of `init`. -/
structure Controller where
  hcd : Pdev
  udc : Pdev
  dum : Dum
  ptr : Ptr
  deriving DecidableEq

structure Module where
  controllers : ℕ → Controller
  registered : Kind → Bool

/-- What the rest of the kernel answers. Calls that return an `int` return 0 or minus an error
number, which is given here. -/
structure Env where
  usbDisabled : Bool
  alloc : Kind → ℕ → Bool
  kzalloc : ℕ → Bool
  addData : Kind → ℕ → ℕ
  register : Kind → ℕ
  add : Kind → ℕ → ℕ
  createHcd : ℕ → Bool
  addHcd : ℕ → ℕ
  createSharedHcd : ℕ → Bool
  addSharedHcd : ℕ → ℕ
  addGadgetUdc : ℕ → ℕ
  createFile : ℕ → ℕ

namespace Controller

variable (x : Controller)

def pdev : Kind → Pdev
  | .hcd => x.hcd
  | .udc => x.udc

def setPdev (p : Pdev) : Kind → Controller
  | .hcd => { x with hcd := p }
  | .udc => { x with udc := p }

/-- `platform_device_put` -/
def put (k : Kind) : Option Controller :=
  match x.pdev k with
  | .alloced _ => some (x.setPdev .absent k)
  | _ => none

/-- `dummy_hcd_remove`; the gadget side has nothing in `x`. -/
def remove (k : Kind) : Controller :=
  match k, x.dum with
  | .hcd, .used _ _ => { x with dum := .used false false }
  | _, _ => x

/-- `platform_device_del` -/
def del (k : Kind) : Option Controller :=
  match x.pdev k with
  | .added data bound => some ((if bound then x.remove k else x).setPdev (.alloced data) k)
  | _ => none

/-- `platform_device_unregister` -/
def unregister (k : Kind) : Option Controller := (x.del k).bind fun x => x.put k

/-- `kfree` of a pointer to the `struct dummy`, which nothing may use any longer. -/
def kfree (p : Ptr) : Option Controller :=
  match p with
  | .garbage => none
  | .null => some x
  | .dummy =>
    match x.hcd, x.udc, x.dum with
    | .added _ _, _, _ => none
    | _, .added _ _, _ => none
    | _, _, .used false false => some { x with dum := .free }
    | _, _, _ => none

end Controller

section

variable (p : Params) (env : Env) (i : ℕ)

/-- `platform_device_alloc`, with the status of a turn of its loop. -/
def alloc (k : Kind) (x : Controller) : Option (ℕ × Controller) :=
  match x.pdev k with
  | .absent => some (if env.alloc k i then (0, x.setPdev (.alloced .null) k) else (eNoMem, x))
  | _ => none

/-- `platform_device_add_data` of the pointer. -/
def addData (k : Kind) (x : Controller) : Option (ℕ × Controller) :=
  match x.pdev k with
  | .alloced .null =>
    some (env.addData k i, if env.addData k i = 0 then x.setPdev (.alloced x.ptr) k else x)
  | _ => none

/-- A turn of the loop that makes `dum[i]` and its platform data. -/
def addPdata (x : Controller) : Option (ℕ × Controller) :=
  match x.dum with
  | .used _ _ => none
  | .free =>
    if env.kzalloc i then
      (addData env i .hcd { x with dum := .used false false, ptr := .dummy }).bind fun r =>
        if r.1 ≠ 0 then some r else addData env i .udc r.2
    else some (eNoMem, { x with ptr := .null })

/-- `dummy_hcd_probe`: its status, and `hs_hcd` and `ss_hcd`, which had the values `old`. -/
def dummyHcdProbe (old : Bool × Bool) : ℕ × Bool × Bool :=
  if !env.createHcd i then (eNoMem, old)
  else if env.addHcd i ≠ 0 then (env.addHcd i, false, false)
  else if p.isSuperSpeed then
    if !env.createSharedHcd i then (eNoMem, false, false)
    else if env.addSharedHcd i ≠ 0 then (env.addSharedHcd i, false, false)
    else (0, true, true)
  else (0, true, old.2)

/-- `dummy_udc_probe` -/
def dummyUdcProbe : ℕ :=
  if env.addGadgetUdc i ≠ 0 then env.addGadgetUdc i else env.createFile i

/-- What a probe makes of a controller, and whether its driver is bound. -/
def probe (k : Kind) (data : Ptr) (x : Controller) : Option (Bool × Controller) :=
  match data, x.dum with
  | .dummy, .used hs ss =>
    match k with
    | .hcd =>
      let r := dummyHcdProbe p env i (hs, ss)
      some (r.1 = 0, { x with dum := .used r.2.1 r.2.2 })
    | .udc => some (dummyUdcProbe env i = 0, x)
  | _, _ => none

/-- `platform_device_add`. A probe that fails is no error. -/
def add (registered : Bool) (k : Kind) (x : Controller) : Option (ℕ × Controller) :=
  match x.pdev k with
  | .alloced data =>
    if env.add k i ≠ 0 then some (env.add k i, x)
    else if registered then
      (probe p env i k data x).map fun r => (0, r.2.setPdev (.added data r.1) k)
    else some (0, x.setPdev (.added data false) k)
  | _ => none

/-- The loop that looks whether the HCDs were probed. -/
def checkHcd (x : Controller) : Option (ℕ × Controller) :=
  match x.ptr, x.dum with
  | .dummy, .used hs ss => some (if !hs || (!ss && p.isSuperSpeed) then eInval else 0, x)
  | _, _ => none

/-- The loop that looks at the driver data of the gadget devices. -/
def checkUdc (x : Controller) : Option (ℕ × Controller) :=
  match x.udc with
  | .absent => none
  | .alloced _ => some (eInval, x)
  | .added _ bound => some (if bound then 0 else eInval, x)

end

namespace Module

variable (m : Module)

def each (f : Controller → Option Controller) (is : List ℕ) : Option Module :=
  (forEach (fun _ => f) is m.controllers).map fun cs => { m with controllers := cs }

/-- Registering a driver that is registered, or the other way round, is not allowed. -/
def setRegistered (k : Kind) (value : Bool) : Option Module :=
  if m.registered k = value then none
  else some { m with registered := fun k' => if k' = k then value else m.registered k' }

end Module

section

variable (p : Params) (env : Env)

/-- `while (i >= 0)` with `i` counting down from the index before `i`. -/
def down (f : Controller → Option Controller) (i : ℕ) (m : Module) : Option Module :=
  m.each f (List.range i).reverse

/-- `for (i = 0; i < mod_data.num; i++)` -/
def up (f : Controller → Option Controller) (m : Module) : Option Module :=
  m.each f (List.range p.num)

/-! ### The labels of `init` -/

def errAllocUdc (rc : ℤ) (m : Module) : Option (ℤ × Module) :=
  (up p (·.put .hcd) m).map fun m => (rc, m)

def errAddPdata (rc : ℤ) (m : Module) : Option (ℤ × Module) :=
  (up p (fun x => x.kfree x.ptr) m).bind fun m =>
  (up p (·.put .udc) m).bind (errAllocUdc p rc)

def errRegisterUdcDriver (rc : ℤ) (m : Module) : Option (ℤ × Module) :=
  (m.setRegistered .hcd false).bind (errAddPdata p rc)

def errAddHcd (rc : ℤ) (m : Module) : Option (ℤ × Module) :=
  (m.setRegistered .udc false).bind (errRegisterUdcDriver p rc)

def errAddUdc (rc : ℤ) (m : Module) : Option (ℤ × Module) :=
  (up p (·.del .hcd) m).bind (errAddHcd p rc)

def errProbeUdc (rc : ℤ) (m : Module) : Option (ℤ × Module) :=
  (up p (·.del .udc) m).bind (errAddUdc p rc)

/-! ### `init`, from its last part to its first -/

/-- A loop of `init`: where it stops it goes on with `stop`, else with `next`. -/
def loop (f : ℕ → Controller → Option (ℕ × Controller)) (m : Module)
    (stop : ℕ → ℕ → Module → Option (ℤ × Module)) (next : Module → Option (ℤ × Module)) :
    Option (ℤ × Module) :=
  (forLoop f p.num 0 m.controllers).bind fun r =>
    match r.1 with
    | some (i, e) => stop i e { m with controllers := r.2 }
    | none => next { m with controllers := r.2 }

def checkUdcs (m : Module) : Option (ℤ × Module) :=
  loop p (fun _ => checkUdc) m (fun _ e => errProbeUdc p (-e)) fun m => some (0, m)

def addUdcs (m : Module) : Option (ℤ × Module) :=
  loop p (fun i => add p env i (m.registered .udc) .udc) m
    (fun i e m => (down (·.del .udc) i m).bind (errAddUdc p (-e))) (checkUdcs p)

def checkHcds (m : Module) : Option (ℤ × Module) :=
  loop p (fun _ => checkHcd p) m (fun _ e => errAddUdc p (-e)) (addUdcs p env)

def addHcds (m : Module) : Option (ℤ × Module) :=
  loop p (fun i => add p env i (m.registered .hcd) .hcd) m
    (fun i e m => (down (·.del .hcd) i m).bind (errAddHcd p (-e))) (checkHcds p env)

def registerDrivers (m : Module) : Option (ℤ × Module) :=
  if env.register .hcd ≠ 0 then errAddPdata p (-env.register .hcd) m
  else (m.setRegistered .hcd true).bind fun m =>
    if env.register .udc ≠ 0 then errRegisterUdcDriver p (-env.register .udc) m
    else (m.setRegistered .udc true).bind (addHcds p env)

def addPdatas (m : Module) : Option (ℤ × Module) :=
  loop p (addPdata env) m (fun _ e => errAddPdata p (-e)) (registerDrivers p env)

def allocUdcs (m : Module) : Option (ℤ × Module) :=
  loop p (fun i => alloc env i .udc) m
    (fun i _ m => (down (·.put .udc) i m).bind (errAllocUdc p (-eNoMem))) (addPdatas p env)

def allocHcds (m : Module) : Option (ℤ × Module) :=
  loop p (fun i => alloc env i .hcd) m
    (fun i _ m => (down (·.put .hcd) i m).map fun m => (-eNoMem, m)) (allocUdcs p env)

def init (m : Module) : Option (ℤ × Module) :=
  if env.usbDisabled then some (-eNoDev, m)
  else if !p.isHighSpeed && p.isSuperSpeed then some (-eInval, m)
  else if p.num < 1 ∨ maxNumUdc < p.num then some (-eInval, m)
  -- The local array is not set.
  else allocHcds p env
    { m with controllers := fun i => { m.controllers i with ptr := .garbage } }

/-- `cleanup` finds the `struct dummy` in the platform data. -/
def cleanup (m : Module) : Option Module :=
  (up p (fun x =>
    let dum := match x.udc with
      | .absent => Ptr.garbage
      | .alloced data => data
      | .added data _ => data
    (x.unregister .udc).bind fun x => (x.unregister .hcd).bind fun x => x.kfree dum) m).bind
  fun m => (m.setRegistered .udc false).bind fun m => m.setRegistered .hcd false

end

/-! ## Loading and unloading -/

/-- The module in memory, with its parameters, and whether a rule of the kernel was broken. -/
structure State where
  mem : Module
  loaded : Option Params
  broken : Bool

inductive Event
  | load (p : Params) (env : Env)
  | unload

def step (s : State) : Event → Option State
  | .load p env =>
    if s.broken ∨ s.loaded.isSome then none
    else match init p env s.mem with
      | some (rc, m) => some ⟨m, if rc < 0 then none else some p, false⟩
      | none => some { s with broken := true }
  | .unload =>
    match s.loaded with
    | some p =>
      if s.broken then none
      else match cleanup p s.mem with
        | some m => some ⟨m, none, false⟩
        | none => some { s with broken := true }
    | none => none

def start : State := ⟨⟨fun _ => ⟨.absent, .absent, .free, .garbage⟩, fun _ => false⟩, none, false⟩

/-! ## One controller -/

def Pdev.Alloced : Pdev → Prop
  | .alloced _ => True
  | _ => False

namespace Controller

/-- There is nothing. -/
def Fresh (x : Controller) : Prop := x.hcd = .absent ∧ x.udc = .absent ∧ x.dum = .free

def HasHcd (x : Controller) : Prop := x.hcd.Alloced ∧ x.udc = .absent ∧ x.dum = .free

def HasBoth (x : Controller) : Prop := x.hcd.Alloced ∧ x.udc.Alloced ∧ x.dum = .free

/-- The element of the local array can be freed. -/
def Freeable (x : Controller) : Prop :=
  x.hcd.Alloced ∧ x.udc.Alloced ∧
    (x.ptr = .dummy ∧ x.dum = .used false false ∨ x.ptr = .null ∧ x.dum = .free)

end Controller

/-- With both devices and the memory in place. -/
def ready : Controller := ⟨.alloced .dummy, .alloced .dummy, .used false false, .dummy⟩

/-- With the devices added and probed or not. -/
def added (p : Params) (hcd : Bool) (udc : Pdev) : Controller :=
  ⟨.added .dummy hcd, udc, .used hcd (hcd && p.isSuperSpeed), .dummy⟩

/-- Up and running. -/
def running (p : Params) : Controller := added p true (.added .dummy true)

variable {x : Controller} {p : Params} {env : Env} {i : ℕ}

theorem put_hcd (h : x.HasHcd) : ∃ y, x.put .hcd = some y ∧ y.Fresh := by
  obtain ⟨hhcd, hudc, hdum⟩ := h
  unfold Controller.put Controller.pdev
  cases hx : x.hcd with
  | alloced data => exact ⟨_, rfl, rfl, hudc, hdum⟩
  | absent => rw [hx] at hhcd; exact hhcd.elim
  | added data bound => rw [hx] at hhcd; exact hhcd.elim

theorem put_udc (h : x.HasBoth) : ∃ y, x.put .udc = some y ∧ y.HasHcd := by
  obtain ⟨hhcd, hudc, hdum⟩ := h
  unfold Controller.put Controller.pdev
  cases hx : x.udc with
  | alloced data => exact ⟨_, rfl, hhcd, rfl, hdum⟩
  | absent => rw [hx] at hudc; exact hudc.elim
  | added data bound => rw [hx] at hudc; exact hudc.elim

theorem kfree_ptr (h : x.Freeable) : ∃ y, x.kfree x.ptr = some y ∧ y.HasBoth := by
  obtain ⟨hhcd, hudc, ⟨hptr, hdum⟩ | ⟨hptr, hdum⟩⟩ := h
  · refine ⟨{ x with dum := .free }, ?_, hhcd, hudc, rfl⟩
    rw [hptr]
    unfold Controller.kfree
    rw [hdum]
    cases hx : x.hcd <;> cases hy : x.udc <;> simp_all [Pdev.Alloced]
  · exact ⟨x, by rw [hptr]; rfl, hhcd, hudc, hdum⟩

theorem del_hcd (b : Bool) : (added p b (.alloced .dummy)).del .hcd = some ready := by
  cases b <;> rfl

theorem del_udc (b b' : Bool) :
    (added p b (.added .dummy b')).del .udc = some (added p b (.alloced .dummy)) := by
  cases b' <;> rfl

/-! ## All controllers -/

/-- The controllers of the module are in `P`, there are no others, and the drivers are
registered or not. -/
structure Holds (n : ℕ) (P : Controller → Prop) (hcd udc : Bool) (m : Module) : Prop where
  inside : ∀ i < n, P (m.controllers i)
  outside : ∀ i, n ≤ i → (m.controllers i).Fresh
  registered : m.registered = fun
    | .hcd => hcd
    | .udc => udc

/-- Nothing is left. -/
def Clean (m : Module) : Prop := Holds 0 (fun _ => True) false false m

def Up (p : Params) (m : Module) : Prop := Holds p.num (· = running p) true true m

variable {P Q R : Controller → Prop} {f : Controller → Option Controller} {a b : Bool}
  {m : Module} {n k : ℕ} {rc : ℤ}

theorem Holds.clean (h : Holds n Controller.Fresh false false m) : Clean m where
  inside i hi := by omega
  outside i _ := if hi : i < n then h.inside i hi else h.outside i (by omega)
  registered := h.registered

theorem Holds.mono (h : Holds n P a b m) (hPQ : ∀ x, P x → Q x) : Holds n Q a b m :=
  ⟨fun i hi => hPQ _ (h.inside i hi), h.outside, h.registered⟩

theorem Holds.register (h : Holds n P a b m) :
    (∀ c, a ≠ c → ∃ m', m.setRegistered .hcd c = some m' ∧ Holds n P c b m') ∧
      ∀ c, b ≠ c → ∃ m', m.setRegistered .udc c = some m' ∧ Holds n P a c m' := by
  unfold Module.setRegistered
  rw [h.registered]
  refine ⟨fun c hc => ⟨_, if_neg hc, h.inside, h.outside, ?_⟩,
    fun c hc => ⟨_, if_neg hc, h.inside, h.outside, ?_⟩⟩
  · funext k'
    cases k' <;> rfl
  · funext k'
    cases k' <;> rfl

/-- A loop over all controllers. -/
theorem Holds.up (h : Holds p.num P a b m) (hf : ∀ x, P x → ∃ y, f x = some y ∧ Q y) :
    ∃ m', up p f m = some m' ∧ Holds p.num Q a b m' := by
  obtain ⟨cs, heq, hin, hout⟩ := forEach_of (Q := fun _ => Q) (f := fun _ => f) List.nodup_range
    fun i hi => hf _ (h.inside i (List.mem_range.mp hi))
  refine ⟨{ m with controllers := cs }, ?_, fun i hi => ?_, fun i hi => ?_, h.registered⟩
  · rw [Init.up, Module.each, heq, Option.map_some]
  · exact hin i (List.mem_range.mpr hi)
  · show (cs i).Fresh
    rw [hout i (by rw [List.mem_range]; omega)]
    exact h.outside i hi

/-- The loop has stopped at `k`, so the controllers in front of it are in `Q` already. -/
structure Stopped (n k : ℕ) (P Q R : Controller → Prop) (a b : Bool) (m : Module) : Prop where
  lt : k < n
  front : ∀ i < k, Q (m.controllers i)
  here : R (m.controllers k)
  behind : ∀ i, k < i → i < n → P (m.controllers i)
  outside : ∀ i, n ≤ i → (m.controllers i).Fresh
  registered : m.registered = fun
    | .hcd => a
    | .udc => b

theorem loop_cases {g : ℕ → Controller → Option (ℕ × Controller)}
    (stop : ℕ → ℕ → Module → Option (ℤ × Module)) (next : Module → Option (ℤ × Module))
    (h : Holds p.num P a b m)
    (hg : ∀ i x, P x → ∃ e y, g i x = some (e, y) ∧ (e = 0 → Q y) ∧ (e ≠ 0 → R y)) :
    (∃ m', Holds p.num Q a b m' ∧ (∀ i < p.num, ∃ y, g i (m.controllers i) = some (0, y)) ∧
        loop p g m stop next = next m') ∨
      ∃ k e m', e ≠ 0 ∧ Stopped p.num k P Q R a b m' ∧
        ((∀ i < k, ∃ y, g i (m.controllers i) = some (0, y)) ∧
          ∃ y, g k (m.controllers k) = some (e, y)) ∧ loop p g m stop next = stop k e m' := by
  have hturn (i : ℕ) (hi : i < p.num) {e : ℕ} {y : Controller}
      (heq : g i (m.controllers i) = some (e, y)) : (e = 0 → Q y) ∧ (e ≠ 0 → R y) := by
    obtain ⟨e', y', heq', h'⟩ := hg i _ (h.inside i hi)
    obtain ⟨rfl, rfl⟩ := Prod.mk.inj (Option.some.inj (heq.symm.trans heq'))
    exact h'
  have hsome : ∀ i < p.num, ∃ r, g i (m.controllers i) = some r := by
    intro i hi
    obtain ⟨e, y, heq, -⟩ := hg i _ (h.inside i hi)
    exact ⟨_, heq⟩
  rcases forLoop_of hsome with
    ⟨cs, heq, hin, hout⟩ | ⟨k, e, cs, hk, he, heq, hfront, hhere, hbehind⟩
  · refine .inl ⟨{ m with controllers := cs }, ⟨fun i hi => (hturn i hi (hin i hi)).1 rfl,
      fun i hi => ?_, h.registered⟩, fun i hi => ⟨_, hin i hi⟩, ?_⟩
    · show (cs i).Fresh
      rw [hout i hi]
      exact h.outside i hi
    · rw [loop, heq, Option.bind_some]
  · refine .inr ⟨k, e, { m with controllers := cs }, he, ⟨hk,
      fun i hi => (hturn i (by omega) (hfront i hi)).1 rfl, (hturn k hk hhere).2 he,
      fun i hki hi => ?_, fun i hi => ?_, h.registered⟩,
      ⟨fun i hi => ⟨_, hfront i hi⟩, _, hhere⟩, ?_⟩
    · show P (cs i)
      rw [hbehind i hki]
      exact h.inside i hi
    · show (cs i).Fresh
      rw [hbehind i (by omega)]
      exact h.outside i hi
    · rw [loop, heq, Option.bind_some]

/-- The turns of a loop that stopped are taken back, the last first. -/
theorem Stopped.down (h : Stopped n k P Q P a b m) (hf : ∀ x, Q x → ∃ y, f x = some y ∧ P y) :
    ∃ m', down f k m = some m' ∧ Holds n P a b m' := by
  obtain ⟨cs, heq, hin, hout⟩ := forEach_of (Q := fun _ => P) (f := fun _ => f)
    (List.nodup_reverse.mpr (List.nodup_range (n := k)))
    fun i hi => hf _ (h.front i (List.mem_range.mp (List.mem_reverse.mp hi)))
  have hrange (i : ℕ) : i ∈ (List.range k).reverse ↔ i < k := by
    rw [List.mem_reverse, List.mem_range]
  have hlt := h.lt
  refine ⟨{ m with controllers := cs }, ?_, fun i hi => ?_, fun i hi => ?_, h.registered⟩
  · rw [Init.down, Module.each, heq, Option.map_some]
  · by_cases hik : i < k
    · exact hin i ((hrange i).mpr hik)
    · show P (cs i)
      rw [hout i (by rw [hrange]; exact hik)]
      rcases Nat.eq_or_lt_of_not_lt hik with rfl | hki
      · exact h.here
      · exact h.behind i hki hi
  · show (cs i).Fresh
    rw [hout i (by rw [hrange]; omega)]
    exact h.outside i hi

/-! ## The labels -/

/-- `init` has failed and left nothing behind. -/
def Undone (rc : ℤ) (r : Option (ℤ × Module)) : Prop := ∃ m, r = some (rc, m) ∧ Clean m

theorem undone_errAllocUdc (h : Holds p.num Controller.HasHcd false false m) (rc : ℤ) :
    Undone rc (errAllocUdc p rc m) := by
  obtain ⟨m', heq, h'⟩ := h.up (Q := Controller.Fresh) fun x hx => put_hcd hx
  exact ⟨m', by rw [errAllocUdc, heq, Option.map_some], h'.clean⟩

theorem undone_errAddPdata (h : Holds p.num Controller.Freeable false false m) (rc : ℤ) :
    Undone rc (errAddPdata p rc m) := by
  obtain ⟨m', heq, h'⟩ := h.up (Q := Controller.HasBoth) fun x hx => kfree_ptr hx
  obtain ⟨m'', heq', h''⟩ := h'.up (Q := Controller.HasHcd) fun x hx => put_udc hx
  rw [errAddPdata, heq, Option.bind_some, heq', Option.bind_some]
  exact undone_errAllocUdc h'' rc

theorem undone_errRegisterUdcDriver (h : Holds p.num Controller.Freeable true false m) (rc : ℤ) :
    Undone rc (errRegisterUdcDriver p rc m) := by
  obtain ⟨m', heq, h'⟩ := h.register.1 false (by decide)
  rw [errRegisterUdcDriver, heq, Option.bind_some]
  exact undone_errAddPdata h' rc

theorem freeable_ready : ready.Freeable := ⟨trivial, trivial, .inl ⟨rfl, rfl⟩⟩

theorem undone_errAddHcd (h : Holds p.num (· = ready) true true m) (rc : ℤ) :
    Undone rc (errAddHcd p rc m) := by
  obtain ⟨m', heq, h'⟩ := h.register.2 false (by decide)
  rw [errAddHcd, heq, Option.bind_some]
  exact undone_errRegisterUdcDriver (h'.mono fun x hx => hx ▸ freeable_ready) rc

/-- The device of the HCD is added. -/
def HcdAdded (p : Params) (x : Controller) : Prop := ∃ b, x = added p b (.alloced .dummy)

theorem undone_errAddUdc (h : Holds p.num (HcdAdded p) true true m) (rc : ℤ) :
    Undone rc (errAddUdc p rc m) := by
  obtain ⟨m', heq, h'⟩ := h.up (Q := (· = ready)) fun x ⟨b, hx⟩ => ⟨ready, hx ▸ del_hcd b, rfl⟩
  rw [errAddUdc, heq, Option.bind_some]
  exact undone_errAddHcd h' rc

/-- So is that of the gadget. -/
def UdcAdded (p : Params) (x : Controller) : Prop := ∃ b, x = added p true (.added .dummy b)

theorem del_udcAdded (x : Controller) (h : UdcAdded p x) :
    ∃ y, x.del .udc = some y ∧ y = added p true (.alloced .dummy) := by
  obtain ⟨b, rfl⟩ := h
  exact ⟨_, del_udc true b, rfl⟩

theorem undone_errProbeUdc (h : Holds p.num (UdcAdded p) true true m) (rc : ℤ) :
    Undone rc (errProbeUdc p rc m) := by
  obtain ⟨m', heq, h'⟩ := h.up del_udcAdded
  rw [errProbeUdc, heq, Option.bind_some]
  exact undone_errAddUdc (h'.mono fun x hx => ⟨true, hx⟩) rc

/-! ## The parts of `init` -/

/-- All is there, or an error has been returned and nothing is. -/
def Settled (p : Params) (r : Option (ℤ × Module)) : Prop :=
  (∃ m, r = some (0, m) ∧ Up p m) ∨ ∃ rc < 0, Undone rc r

theorem Undone.settled {e : ℕ} {r : Option (ℤ × Module)} (he : e ≠ 0) (h : Undone (-e) r) :
    Settled p r := .inr ⟨-e, by omega, h⟩

theorem settled_checkUdcs (h : Holds p.num (UdcAdded p) true true m) :
    Settled p (checkUdcs p m) := by
  have hturn : ∀ (i : ℕ) (x : Controller), UdcAdded p x → ∃ e y, checkUdc x = some (e, y) ∧
      (e = 0 → y = running p) ∧ (e ≠ 0 → UdcAdded p y) := by
    rintro - x ⟨b, rfl⟩
    refine ⟨_, _, rfl, fun he => ?_, fun _ => ⟨b, rfl⟩⟩
    cases b with
    | true => rfl
    | false => cases he
  rcases loop_cases (fun _ e => errProbeUdc p (-e)) (fun m => some (0, m)) h hturn with
    ⟨m', h', -, heq⟩ | ⟨k, e, m', he, h', -, heq⟩
  · exact .inl ⟨m', heq, h'⟩
  · refine Undone.settled he ?_
    rw [checkUdcs, heq]
    refine undone_errProbeUdc ⟨fun i hi => ?_, h'.outside, h'.registered⟩ _
    rcases Nat.lt_trichotomy i k with hik | rfl | hik
    · exact ⟨true, h'.front i hik⟩
    · exact h'.here
    · exact h'.behind i hik hi

theorem add_udc (i : ℕ) :
    ∃ e y, add p env i true .udc (added p true (.alloced .dummy)) = some (e, y) ∧
      (e = 0 → UdcAdded p y) ∧ (e ≠ 0 → y = added p true (.alloced .dummy)) := by
  by_cases he : env.add .udc i ≠ 0
  · exact ⟨_, _, if_pos he, fun h => absurd h he, fun _ => rfl⟩
  · exact ⟨0, _, if_neg he, fun _ => ⟨dummyUdcProbe env i = 0, rfl⟩, fun h => absurd rfl h⟩

theorem settled_addUdcs (env : Env)
    (h : Holds p.num (· = added p true (.alloced .dummy)) true true m) :
    Settled p (addUdcs p env m) := by
  have hturn : ∀ (i : ℕ) (x : Controller), x = added p true (.alloced .dummy) →
      ∃ e y, add p env i true .udc x = some (e, y) ∧ (e = 0 → UdcAdded p y) ∧
        (e ≠ 0 → y = added p true (.alloced .dummy)) := by
    rintro i x rfl
    exact add_udc i
  unfold addUdcs
  rw [h.registered]
  rcases loop_cases (Q := UdcAdded p) (R := (· = added p true (.alloced .dummy)))
    (g := fun i => add p env i true .udc)
    (fun i e m => (down (·.del .udc) i m).bind (errAddUdc p (-e))) (checkUdcs p) h hturn with
    ⟨m', h', -, heq⟩ | ⟨k, e, m', he, h', -, heq⟩
  · rw [heq]
    exact settled_checkUdcs h'
  · refine Undone.settled he ?_
    obtain ⟨m'', hdown, h''⟩ := h'.down del_udcAdded
    rw [heq, hdown, Option.bind_some]
    exact undone_errAddUdc (h''.mono fun x hx => ⟨true, hx⟩) _

theorem checkHcd_added (b : Bool) (udc : Pdev) : checkHcd p (added p b udc) =
    some (if b then 0 else eInval, added p b udc) := by
  cases b with
  | false => rfl
  | true =>
    unfold checkHcd added
    cases p.isSuperSpeed <;> rfl

theorem settled_checkHcds (env : Env) (h : Holds p.num (HcdAdded p) true true m) :
    Settled p (checkHcds p env m) := by
  have hturn : ∀ (i : ℕ) (x : Controller), HcdAdded p x → ∃ e y, checkHcd p x = some (e, y) ∧
      (e = 0 → y = added p true (.alloced .dummy)) ∧ (e ≠ 0 → HcdAdded p y) := by
    rintro - x ⟨b, rfl⟩
    refine ⟨_, _, checkHcd_added b _, fun he => ?_, fun _ => ⟨b, rfl⟩⟩
    cases b with
    | true => rfl
    | false => cases he
  rcases loop_cases (fun _ e => errAddUdc p (-e)) (addUdcs p env) h hturn with
    ⟨m', h', -, heq⟩ | ⟨k, e, m', he, h', -, heq⟩
  · rw [checkHcds, heq]
    exact settled_addUdcs env h'
  · refine Undone.settled he ?_
    rw [checkHcds, heq]
    refine undone_errAddUdc ⟨fun i hi => ?_, h'.outside, h'.registered⟩ _
    rcases Nat.lt_trichotomy i k with hik | rfl | hik
    · exact ⟨true, h'.front i hik⟩
    · exact h'.here
    · exact h'.behind i hik hi

/-- A probe sets both pointers that it is to set, or leaves none. -/
theorem dummyHcdProbe_cases (p : Params) (env : Env) (i : ℕ) :
    dummyHcdProbe p env i (false, false) = (0, true, p.isSuperSpeed) ∨
      (dummyHcdProbe p env i (false, false)).1 ≠ 0 ∧
        (dummyHcdProbe p env i (false, false)).2 = (false, false) := by
  unfold dummyHcdProbe
  split_ifs with h1 h2 h3 h4 h5
  · exact .inr ⟨by decide, rfl⟩
  · exact .inr ⟨h2, rfl⟩
  · exact .inr ⟨by decide, rfl⟩
  · exact .inr ⟨h5, rfl⟩
  · exact .inl (by rw [h3])
  · exact .inl (by rw [Bool.eq_false_iff.mpr h3])

theorem add_hcd (i : ℕ) : ∃ e y, add p env i true .hcd ready = some (e, y) ∧
    (e = 0 → HcdAdded p y) ∧ (e ≠ 0 → y = ready) := by
  by_cases he : env.add .hcd i ≠ 0
  · exact ⟨_, _, if_pos he, fun h => absurd h he, fun _ => rfl⟩
  · refine ⟨0, _, if_neg he, fun _ => ?_, fun h => absurd rfl h⟩
    dsimp only
    rcases dummyHcdProbe_cases p env i with hprobe | ⟨hne, hprobe⟩
    · refine ⟨true, ?_⟩
      rw [hprobe]
      rfl
    · refine ⟨false, ?_⟩
      rw [hprobe, decide_eq_false hne]
      rfl

theorem settled_addHcds (env : Env) (h : Holds p.num (· = ready) true true m) :
    Settled p (addHcds p env m) := by
  have hturn : ∀ (i : ℕ) (x : Controller), x = ready →
      ∃ e y, add p env i true .hcd x = some (e, y) ∧ (e = 0 → HcdAdded p y) ∧
        (e ≠ 0 → y = ready) := by
    rintro i x rfl
    exact add_hcd i
  unfold addHcds
  rw [h.registered]
  rcases loop_cases (Q := HcdAdded p) (R := (· = ready))
    (g := fun i => add p env i true .hcd)
    (fun i e m => (down (·.del .hcd) i m).bind (errAddHcd p (-e))) (checkHcds p env) h hturn with
    ⟨m', h', -, heq⟩ | ⟨k, e, m', he, h', -, heq⟩
  · rw [heq]
    exact settled_checkHcds env h'
  · refine Undone.settled he ?_
    obtain ⟨m'', hdown, h''⟩ := h'.down fun x ⟨b, hx⟩ => ⟨ready, hx ▸ del_hcd b, rfl⟩
    rw [heq, hdown, Option.bind_some]
    exact undone_errAddHcd h'' _

theorem settled_registerDrivers (env : Env) (h : Holds p.num (· = ready) false false m) :
    Settled p (registerDrivers p env m) := by
  unfold registerDrivers
  by_cases hhcd : env.register .hcd ≠ 0
  · rw [if_pos hhcd]
    exact Undone.settled hhcd (undone_errAddPdata (h.mono fun x hx => hx ▸ freeable_ready) _)
  · obtain ⟨m', heq, h'⟩ := h.register.1 true (by decide)
    rw [if_neg hhcd, heq, Option.bind_some]
    by_cases hudc : env.register .udc ≠ 0
    · rw [if_pos hudc]
      exact Undone.settled hudc
        (undone_errRegisterUdcDriver (h'.mono fun x hx => hx ▸ freeable_ready) _)
    · obtain ⟨m'', heq', h''⟩ := h'.register.2 true (by decide)
      rw [if_neg hudc, heq', Option.bind_some]
      exact settled_addHcds env h''

/-- The memory or the platform data of controller `i` cannot be had. -/
def Env.DataFails (env : Env) (i : ℕ) : Prop :=
  env.kzalloc i = false ∨ env.addData .hcd i ≠ 0 ∨ env.addData .udc i ≠ 0

/-- This happens before the last controller. -/
def Env.FailsEarly (env : Env) (p : Params) : Prop := ∃ i, i + 1 < p.num ∧ env.DataFails i

/-- With both devices allocated, and nothing in the local array. -/
def allocated : Controller := ⟨.alloced .null, .alloced .null, .free, .garbage⟩

theorem addPdata_allocated (env : Env) (i : ℕ) :
    ∃ e y, addPdata env i allocated = some (e, y) ∧ (e = 0 → y = ready) ∧
      (e ≠ 0 → y.Freeable) ∧ (e ≠ 0 ↔ env.DataFails i) := by
  unfold Env.DataFails
  cases hmem : env.kzalloc i with
  | false =>
    refine ⟨eNoMem, { allocated with ptr := .null }, ?_, fun h => (by cases h),
      fun _ => ⟨trivial, trivial, .inr ⟨rfl, rfl⟩⟩, iff_of_true (by decide) (.inl rfl)⟩
    simp [addPdata, allocated, hmem]
  | true =>
    by_cases hhcd : env.addData .hcd i = 0
    · by_cases hudc : env.addData .udc i = 0
      · refine ⟨0, ready, ?_, fun _ => rfl, fun h => absurd rfl h, by simp [hhcd, hudc]⟩
        simp [addPdata, addData, allocated, ready, hmem, hhcd, hudc, Controller.pdev,
          Controller.setPdev]
      · refine ⟨env.addData .udc i, { ready with udc := .alloced .null }, ?_,
          fun h => absurd h hudc, fun _ => ⟨trivial, trivial, .inl ⟨rfl, rfl⟩⟩,
          iff_of_true hudc (.inr (.inr hudc))⟩
        simp [addPdata, addData, allocated, ready, hmem, hhcd, hudc, Controller.pdev,
          Controller.setPdev]
    · refine ⟨env.addData .hcd i, ⟨.alloced .null, .alloced .null, .used false false, .dummy⟩, ?_,
        fun h => absurd h hhcd, fun _ => ⟨trivial, trivial, .inl ⟨rfl, rfl⟩⟩,
        iff_of_true hhcd (.inr (.inl hhcd))⟩
      simp [addPdata, addData, allocated, hmem, hhcd, Controller.pdev]

/-- Behind the controller where the loop stops, the pointers that are freed were never set. -/
theorem addPdatas_cases (env : Env) (h : Holds p.num (· = allocated) false false m) :
    addPdatas p env m = none ∧ env.FailsEarly p ∨
      Settled p (addPdatas p env m) ∧ ¬env.FailsEarly p := by
  have hfails (i : ℕ) (hi : i < p.num) {e : ℕ} {y : Controller}
      (heq : addPdata env i (m.controllers i) = some (e, y)) : e ≠ 0 ↔ env.DataFails i := by
    obtain ⟨e', y', heq', -, -, hiff⟩ := addPdata_allocated env i
    rw [h.inside i hi] at heq
    obtain ⟨rfl, -⟩ := Prod.mk.inj (Option.some.inj (heq.symm.trans heq'))
    exact hiff
  have hturn : ∀ (i : ℕ) (x : Controller), x = allocated → ∃ e y, addPdata env i x = some (e, y) ∧
      (e = 0 → y = ready) ∧ (e ≠ 0 → y.Freeable) := by
    rintro i x rfl
    obtain ⟨e, y, heq, hQ, hR, -⟩ := addPdata_allocated env i
    exact ⟨e, y, heq, hQ, hR⟩
  unfold addPdatas
  rcases loop_cases (fun _ e => errAddPdata p (-e)) (registerDrivers p env) h hturn with
    ⟨m', h', hzero, heq⟩ | ⟨k, e, m', he, h', ⟨hzero, y, hk⟩, heq⟩
  · rw [heq]
    refine .inr ⟨settled_registerDrivers env h', fun ⟨i, hi, hdata⟩ => ?_⟩
    obtain ⟨y, hy⟩ := hzero i (by omega)
    exact (hfails i (by omega) hy).mpr hdata rfl
  · rw [heq]
    by_cases hlast : k + 1 < p.num
    · refine .inl ⟨?_, k, hlast, (hfails k h'.lt hk).mp he⟩
      have hgarbage : (m'.controllers (k + 1)).kfree (m'.controllers (k + 1)).ptr = none := by
        rw [h'.behind (k + 1) (by omega) hlast]
        rfl
      have hnone := forEach_eq_none (f := fun _ x => x.kfree x.ptr) (s := m'.controllers)
        (List.nodup_range (n := p.num)) (List.mem_range.mpr hlast) hgarbage
      rw [errAddPdata, Init.up, Module.each, hnone, Option.map_none, Option.bind_none]
    · have hlt := h'.lt
      have hholds : Holds p.num Controller.Freeable false false m' := by
        refine ⟨fun i hi => ?_, h'.outside, h'.registered⟩
        by_cases hik : i < k
        · rw [h'.front i hik]
          exact freeable_ready
        · obtain rfl : i = k := by omega
          exact h'.here
      refine .inr ⟨Undone.settled he (undone_errAddPdata hholds _), fun ⟨i, hi, hdata⟩ => ?_⟩
      obtain ⟨y, hy⟩ := hzero i (by omega)
      exact (hfails i (by omega) hy).mpr hdata rfl

/-- With nothing, and with the first device allocated. -/
def nothing : Controller := ⟨.absent, .absent, .free, .garbage⟩

def hcdAlloced : Controller := ⟨.alloced .null, .absent, .free, .garbage⟩

/-- A loop that allocates. -/
theorem alloc_cases (env : Env) (k : Kind) (stop : ℕ → ℕ → Module → Option (ℤ × Module))
    (next : Module → Option (ℤ × Module)) (hx : x.pdev k = .absent)
    (h : Holds p.num (· = x) false false m) :
    (∃ m', Holds p.num (· = x.setPdev (.alloced .null) k) false false m' ∧
        (∀ i < p.num, env.alloc k i = true) ∧
        loop p (fun i => alloc env i k) m stop next = next m') ∨
      ∃ i e m', (∃ i < p.num, env.alloc k i = false) ∧
        Stopped p.num i (· = x) (· = x.setPdev (.alloced .null) k) (· = x) false false m' ∧
        loop p (fun i => alloc env i k) m stop next = stop i e m' := by
  have halloc (i : ℕ) : alloc env i k x =
      some (if env.alloc k i then (0, x.setPdev (.alloced .null) k) else (eNoMem, x)) := by
    rw [alloc, hx]
  have hturn : ∀ (i : ℕ) (y : Controller), y = x → ∃ e z, alloc env i k y = some (e, z) ∧
      (e = 0 → z = x.setPdev (.alloced .null) k) ∧ (e ≠ 0 → z = x) := by
    rintro i y rfl
    rw [halloc]
    cases env.alloc k i with
    | true => exact ⟨0, _, rfl, fun _ => rfl, fun h => absurd rfl h⟩
    | false => exact ⟨eNoMem, _, rfl, fun h => (by cases h), fun _ => rfl⟩
  rcases loop_cases stop next h hturn with
    ⟨m', h', hzero, heq⟩ | ⟨i, e, m', he, h', ⟨-, y, hi⟩, heq⟩
  · refine .inl ⟨m', h', fun i hi => ?_, heq⟩
    obtain ⟨y, hy⟩ := hzero i hi
    rw [h.inside i hi, halloc] at hy
    by_contra hfalse
    rw [if_neg hfalse] at hy
    cases hy
  · refine .inr ⟨i, e, m', ⟨i, h'.lt, ?_⟩, h', heq⟩
    rw [h.inside i h'.lt, halloc] at hi
    by_contra htrue
    rw [if_pos (by simpa using htrue)] at hi
    exact he (Prod.mk.inj (Option.some.inj hi)).1.symm

/-- All platform devices can be allocated. -/
def Env.Allocates (env : Env) (p : Params) : Prop := ∀ k, ∀ i < p.num, env.alloc k i = true

/-- The pointers that `init` frees were never set. -/
def Env.FreesGarbage (env : Env) (p : Params) : Prop := env.Allocates p ∧ env.FailsEarly p

theorem Env.not_allocates {env : Env} {k : Kind} (h : ∃ i < p.num, env.alloc k i = false) :
    ¬env.FreesGarbage p := by
  rintro ⟨hall, -⟩
  obtain ⟨i, hi, hfalse⟩ := h
  rw [hall k i hi] at hfalse
  cases hfalse

theorem allocHcds_cases (env : Env) (h : Holds p.num (· = nothing) false false m) :
    allocHcds p env m = none ∧ env.FreesGarbage p ∨
      Settled p (allocHcds p env m) ∧ ¬env.FreesGarbage p := by
  unfold allocHcds
  rcases alloc_cases env .hcd (fun i _ m => (down (·.put .hcd) i m).map fun m => (-eNoMem, m))
    (allocUdcs p env) rfl h with ⟨m', h', hhcd, heq⟩ | ⟨i, e, m', hfalse, h', heq⟩
  · rw [heq]
    unfold allocUdcs
    rcases alloc_cases env .udc
      (fun i _ m => (down (·.put .udc) i m).bind (errAllocUdc p (-eNoMem))) (addPdatas p env)
      rfl h' with ⟨m'', h'', hudc, heq'⟩ | ⟨i, e, m'', hfalse, h'', heq'⟩
    · rw [heq']
      have hall : env.Allocates p := by
        intro k
        cases k with
        | hcd => exact hhcd
        | udc => exact hudc
      rcases addPdatas_cases env h'' with ⟨hnone, hearly⟩ | ⟨hsettled, hearly⟩
      · exact .inl ⟨hnone, hall, hearly⟩
      · exact .inr ⟨hsettled, fun hfrees => hearly hfrees.2⟩
    · refine .inr ⟨?_, Env.not_allocates hfalse⟩
      obtain ⟨m3, hdown, h3⟩ := h''.down (f := (·.put .udc)) fun x hx =>
        ⟨hcdAlloced, by rw [hx]; rfl, rfl⟩
      rw [heq', hdown, Option.bind_some]
      refine Undone.settled (e := eNoMem) (by decide) (undone_errAllocUdc (h3.mono ?_) _)
      rintro x rfl
      exact ⟨trivial, rfl, rfl⟩
  · refine .inr ⟨?_, Env.not_allocates hfalse⟩
    obtain ⟨m3, hdown, h3⟩ := h'.down (f := (·.put .hcd)) fun x hx =>
      ⟨nothing, by rw [hx]; rfl, rfl⟩
    rw [heq, hdown, Option.map_some]
    refine Undone.settled (e := eNoMem) (by decide) ⟨m3, rfl, (h3.mono ?_).clean⟩
    rintro x rfl
    exact ⟨rfl, rfl, rfl⟩

/-! ## The whole of `init` -/

/-- The module may be used with these parameters. -/
def Params.Usable (p : Params) : Prop :=
  (p.isHighSpeed = true ∨ p.isSuperSpeed = false) ∧ 1 ≤ p.num ∧ p.num ≤ maxNumUdc

/-- `init` frees pointers that were never set. -/
def Env.Breaks (env : Env) (p : Params) : Prop :=
  env.usbDisabled = false ∧ p.Usable ∧ env.FreesGarbage p

/-- `init` ends with everything in place or with nothing left, or it frees what was never set. -/
theorem init_cases (p : Params) (env : Env) (h : Clean m) :
    init p env m = none ∧ env.Breaks p ∨ Settled p (init p env m) ∧ ¬env.Breaks p := by
  unfold init
  by_cases hdisabled : env.usbDisabled = true
  · rw [if_pos hdisabled]
    refine .inr ⟨.inr ⟨-eNoDev, by decide, m, rfl, h⟩, fun hb => ?_⟩
    exact absurd (hdisabled.symm.trans hb.1) (by decide)
  · rw [if_neg hdisabled]
    by_cases hspeed : (!p.isHighSpeed && p.isSuperSpeed) = true
    · rw [if_pos hspeed]
      refine .inr ⟨.inr ⟨-eInval, by decide, m, rfl, h⟩, fun hb => ?_⟩
      have husable := hb.2.1.1
      simp only [Bool.and_eq_true, Bool.not_eq_true'] at hspeed
      rw [hspeed.1, hspeed.2] at husable
      rcases husable with h | h <;> cases h
    · rw [if_neg hspeed]
      by_cases hnum : p.num < 1 ∨ maxNumUdc < p.num
      · rw [if_pos hnum]
        refine .inr ⟨.inr ⟨-eInval, by decide, m, rfl, h⟩, fun hb => ?_⟩
        have husable := hb.2.1.2
        omega
      · rw [if_neg hnum]
        have hholds : Holds p.num (· = nothing) false false
            { m with controllers := fun i => { m.controllers i with ptr := .garbage } } := by
          refine ⟨fun i _ => ?_, fun i _ => h.outside i (Nat.zero_le i), h.registered⟩
          obtain ⟨hhcd, hudc, hdum⟩ := h.outside i (Nat.zero_le i)
          dsimp only
          rw [hhcd, hudc, hdum]
          rfl
        have husable : p.Usable := by
          refine ⟨?_, by omega, by omega⟩
          cases hh : p.isHighSpeed <;> cases hs : p.isSuperSpeed <;> simp_all
        rcases allocHcds_cases env hholds with ⟨hnone, hfrees⟩ | ⟨hsettled, hfrees⟩
        · exact .inl ⟨hnone, by simpa using hdisabled, husable, hfrees⟩
        · exact .inr ⟨hsettled, fun hb => hfrees hb.2.2⟩

/-- Every release in `cleanup` is of something that is there. -/
theorem cleanup_up (h : Up p m) : ∃ m', cleanup p m = some m' ∧ Clean m' := by
  obtain ⟨m1, heq1, h1⟩ := h.up (Q := Controller.Fresh) (f := fun x =>
    let dum := match x.udc with
      | .absent => Ptr.garbage
      | .alloced data => data
      | .added data _ => data
    (x.unregister .udc).bind fun x => (x.unregister .hcd).bind fun x => x.kfree dum)
    fun x hx => ⟨⟨.absent, .absent, .free, .dummy⟩, by rw [hx]; rfl, rfl, rfl, rfl⟩
  obtain ⟨m2, heq2, h2⟩ := h1.register.2 false (by decide)
  obtain ⟨m3, heq3, h3⟩ := h2.register.1 false (by decide)
  refine ⟨m3, ?_, h3.clean⟩
  rw [cleanup, heq1, Option.bind_some, heq2, Option.bind_some, heq3]

/-! ## Loads and unloads -/

/-- What is in memory is what the module was loaded with. -/
def Consistent (s : State) : Prop :=
  s.broken = false → match s.loaded with
    | none => Clean s.mem
    | some p => Up p s.mem

theorem step_load {s t : State} {env : Env} (hs : Consistent s)
    (h : step s (.load p env) = some t) :
    s.broken = false ∧ s.loaded = none ∧ (t.broken = true ∧ env.Breaks p ∨
      t.broken = false ∧ ¬env.Breaks p ∧ Consistent t) := by
  obtain ⟨hfree, h⟩ := Option.ite_none_left_eq_some.mp h
  obtain ⟨hbroken, hloaded⟩ := not_or.mp hfree
  have hbroken := Bool.eq_false_iff.mpr hbroken
  have hloaded := Option.not_isSome_iff_eq_none.mp hloaded
  have hclean := hs hbroken
  rw [hloaded] at hclean
  refine ⟨hbroken, hloaded, ?_⟩
  rcases init_cases p env hclean with ⟨hnone, hbreaks⟩ | ⟨hsettled, hbreaks⟩
  · rw [hnone] at h
    obtain rfl := Option.some.inj h
    exact .inl ⟨rfl, hbreaks⟩
  · refine .inr ?_
    rcases hsettled with ⟨m, heq, hup⟩ | ⟨rc, hrc, m, heq, hclean'⟩
    · rw [heq] at h
      obtain rfl := Option.some.inj h
      exact ⟨rfl, hbreaks, fun _ => hup⟩
    · rw [heq] at h
      obtain rfl := Option.some.inj h
      refine ⟨rfl, hbreaks, fun _ => ?_⟩
      rw [if_pos hrc]
      exact hclean'

theorem step_unload {s t : State} (hs : Consistent s) (h : step s .unload = some t) :
    s.broken = false ∧ t.broken = false ∧ t.loaded = none ∧ Clean t.mem := by
  simp only [step] at h
  cases hp : s.loaded with
  | none =>
    rw [hp] at h
    cases h
  | some p =>
    rw [hp] at h
    obtain ⟨hbroken, h⟩ := Option.ite_none_left_eq_some.mp h
    have hbroken := Bool.eq_false_iff.mpr hbroken
    have hup := hs hbroken
    rw [hp] at hup
    obtain ⟨m, heq, hclean⟩ := cleanup_up hup
    rw [heq] at h
    obtain rfl := Option.some.inj h
    exact ⟨hbroken, rfl, rfl, hclean⟩

theorem Consistent.step {s t : State} {e : Event} (hs : Consistent s) (h : step s e = some t) :
    Consistent t := by
  cases e with
  | load p env =>
    obtain ⟨-, -, ⟨hbroken, -⟩ | ⟨-, -, ht⟩⟩ := step_load hs h
    · intro hfalse
      rw [hbroken] at hfalse
      cases hfalse
    · exact ht
  | unload =>
    obtain ⟨-, -, hloaded, hclean⟩ := step_unload hs h
    intro _
    rw [hloaded]
    exact hclean

theorem consistent_start : Consistent start := fun _ =>
  ⟨fun i hi => by omega, fun _ _ => ⟨rfl, rfl, rfl⟩, by funext k; cases k <;> rfl⟩

/-- After every load that failed and every unload nothing is left, and after every load that
succeeded everything is in place, whatever the calls of `init` return. -/
theorem loads_consistent (es : List Event) : Always step (fun s => s.broken = false →
    (s.loaded = none → Clean s.mem) ∧ ∀ p, s.loaded = some p → Up p s.mem) start es := by
  refine always_iff.mpr fun pre s _ hrun hbroken => ?_
  have hs := runs_invariant (fun _ _ _ hs => hs.step) consistent_start hrun hbroken
  refine ⟨fun hnone => ?_, fun p hp => ?_⟩
  · rwa [hnone] at hs
  · rwa [hp] at hs

/-- The event is no load that frees pointers which were never set. -/
def Event.Safe : Event → Prop
  | .load p env => ¬env.Breaks p
  | .unload => True

/-- Over loads and unloads in any order, the kernel's rules are kept exactly when no load runs
out of memory for the data of a controller that is not the last. -/
theorem rules_kept_iff (es : List Event) :
    Always step (fun s => s.broken = false) start es ↔
      AlwaysStep step (fun _ e => e.Safe) start es := by
  refine always_iff_alwaysStep (J := Consistent) (fun _ _ _ hs h => hs.step h)
    (fun s e t hs _ h => ?_) consistent_start rfl
  cases e with
  | load p env =>
    obtain ⟨-, -, ⟨hbroken, hbreaks⟩ | ⟨hbroken, hbreaks, -⟩⟩ := step_load hs h
    · rw [hbroken]
      exact iff_of_false (by decide) fun hsafe => hsafe hbreaks
    · exact iff_of_true hbroken hbreaks
  | unload => exact iff_of_true (step_unload hs h).2.1 trivial

/-- There is no memory for the first of two controllers. -/
def lowMemory : Env where
  usbDisabled := false
  alloc _ _ := true
  kzalloc i := i ≠ 0
  addData _ _ := 0
  register _ := 0
  add _ _ := 0
  createHcd _ := true
  addHcd _ := 0
  createSharedHcd _ := true
  addSharedHcd _ := 0
  addGadgetUdc _ := 0
  createFile _ := 0

example : (runs step start [.load ⟨true, true, 2⟩ { lowMemory with kzalloc := fun _ => true },
    .unload, .load ⟨false, true, 2⟩ lowMemory]).map State.broken = some true := by decide

end FuzzUSB.DummyHcd.Init
