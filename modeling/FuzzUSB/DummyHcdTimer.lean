import FuzzUSB.DummyHcdHub
import FuzzUSB.DummyHcdQueues
import FuzzUSB.DummyHcdStreams

/-!
# The timer of the emulated bus

One frame of `dummy_timer`. It goes through the list of URBs and starts again from the head
whenever it has given one back. While the lock is dropped, callbacks put URBs at the end of the
list, the port and the endpoints change, and URBs are marked as unlinked.
-/

namespace FuzzUSB.DummyHcd.Timer
open Transition CLayout
open Udc (EpIdx dummyEndpoints usbDirIn)

def eProto : ℤ := 71
def eNoMem : ℤ := 12

def pipeIsochronous : BitVec 32 := 0
def pipeInterrupt : BitVec 32 := 1
def pipeControl : BitVec 32 := 2

/-- `struct urbp`, where it is in memory, and which URB it is for. -/
structure Urbp where
  addr : ℕ
  urb : ℕ
  deriving DecidableEq

/-- `struct urb` -/
structure HcdUrb extends Urb where
  pipe : BitVec 32
  unlinked : Bool
  errorCount : ℕ

def usbPipetype (pipe : BitVec 32) : BitVec 32 := (pipe >>> 30) &&& 3

/-- `struct usb_endpoint_descriptor` -/
structure EpDesc where
  bEndpointAddress : Byte
  bmAttributes : Byte
  wMaxPacketSize : BitVec 16

def EpDesc.maxpMult (desc : EpDesc) : ℕ := ((desc.wMaxPacketSize >>> 11) &&& 3).toNat + 1

/-- The port and the endpoints, which change while the lock is dropped. -/
structure Config where
  rhState : RhState
  isActive : Bool
  intsEnabled : Bool
  gadgetSpeed : UsbSpeed
  streamEnEp : BitVec 32
  desc : EpIdx → Option EpDesc
  usbEp : EpIdx → Endpoint
  /-- `maxpacket` is a field of 16 bits. -/
  usbEp_lt : ∀ ep, (usbEp ep).maxpacket < 65536
  halted : EpIdx → Bool

/-- A call of `dummy_urb_enqueue`: the memory that it gets, and what
`dummy_validate_stream` and `usb_hcd_link_urb_to_ep` return. -/
structure Submission where
  addr : Option ℕ
  urb : ℕ
  contents : HcdUrb
  actual_le : contents.actualLength ≤ contents.transferBufferLength
  rc : ℤ

/-- What happens while the lock is dropped. Requests of endpoint 0 are unlinked and others are
queued there. -/
structure Meanwhile where
  submissions : List Submission
  unlinked : ℕ → Bool
  ep0Keep : ℕ → Bool
  ep0Arrivals : List ℕ
  cfg : Config

/-- A request of a gadget driver has room for what was moved. -/
structure ReadyRequest extends Request where
  actual_le : actual ≤ length

/-- What `handle_control_request` returns, and what it leaves. -/
structure Control where
  value : ℤ
  status : ℤ
  cfg : Config

/-- What is beyond the timer in one step of it. -/
structure Event where
  meanwhile : Meanwhile
  control : Control
  /-- What `driver->setup` returns, and what happens up to then. -/
  setup : ℤ
  duringSetup : Meanwhile
  /-- The requests of the endpoint when `transfer` is called. -/
  reqs : ℕ → ReadyRequest
  queued : ℕ
  interlude : Interlude

inductive Mode
  /-- At an URB of the list, or at its head again. -/
  | loop (cur : Option Urbp)
  /-- In `transfer` for this URB, with the next one in `tmp`. -/
  | transfer (urbp : Urbp) (tmp : Option Urbp) (ep : EpIdx) (t : DummyHcd.State)
  | done

/-- `struct dummy_hcd` and `struct dummy` in a tick. Beside them: what was freed and given back
in the tick, what is left of the list that it started with, and what was enqueued since. -/
structure State where
  cfg : Config
  udev : Bool
  timerPending : Bool
  urbpList : List Urbp
  nextFrameUrbp : Option ℕ
  urbs : ℕ → HcdUrb
  alreadySeen : EpIdx → Bool
  setupStage : EpIdx → Bool
  ep0Queue : List ℕ
  total : ℤ
  mode : Mode
  freed : List ℕ
  given : List (ℕ × ℤ)
  olds : List Urbp
  enqueued : List Urbp

/-- Memory that is not in use. -/
def kmalloc (used : List ℕ) (addr : ℕ) : ℕ := if addr ∈ used then used.sum + 1 else addr

namespace State

variable (s : State)

/-! ## While the lock is dropped -/

def setUrb (u : ℕ) (urb : HcdUrb) : State := { s with urbs := Function.update s.urbs u urb }

def dummyUrbEnqueue (sub : Submission) : ℤ × State :=
  match sub.addr with
  | none => (-eNoMem, s)
  | some addr =>
    if sub.rc ≠ 0 then (sub.rc, s)
    else
      let urbp : Urbp := ⟨kmalloc (s.urbpList.map (·.addr)) addr, sub.urb⟩
      let s := { s with
        udev := true
        urbpList := s.urbpList ++ [urbp]
        nextFrameUrbp := if s.nextFrameUrbp = none then some urbp.addr else s.nextFrameUrbp
        timerPending := true
        enqueued := s.enqueued ++ [urbp] }
      -- A control URB is marked as a new one.
      let errorCount :=
        if usbPipetype sub.contents.pipe = pipeControl then 1 else sub.contents.errorCount
      (0, s.setUrb sub.urb { sub.contents with errorCount })

/-- The host does not submit an URB that is on the list. -/
def submit (sub : Submission) : State :=
  if sub.urb ∈ s.urbpList.map (·.urb) then s else (s.dummyUrbEnqueue sub).2

def meanwhile (m : Meanwhile) : State :=
  let s := m.submissions.foldl submit s
  { s with
    cfg := m.cfg
    urbs := fun u => { s.urbs u with unlinked := (s.urbs u).unlinked || m.unlinked u }
    ep0Queue := s.ep0Queue.filter m.ep0Keep ++ m.ep0Arrivals }

/-! ## The tick -/

/-- `tmp` of `list_for_each_entry_safe`. -/
def next (urbp : Urbp) : Option Urbp := (s.urbpList.dropWhile (· ≠ urbp)).tail.head?

def restart : State := { s with mode := .loop s.urbpList.head? }

/-- `continue` -/
def goOn (tmp : Option Urbp) : State := { s with mode := .loop tmp }

def findEndpoint (address : Byte) : Option EpIdx :=
  if !s.cfg.isActive then none
  else if !s.cfg.intsEnabled then none
  else if address &&& ~~~usbDirIn = 0 then some 0
  else (List.finRange dummyEndpoints).find? fun i =>
    i ≠ 0 && (s.cfg.desc i).any (·.bEndpointAddress = address)

/-- Only endpoint 0 has no descriptor. The code would follow a null pointer there, but the core
submits no URB with a periodic pipe to endpoint 0. -/
def periodicBytes (ep : EpIdx) : ℤ :=
  let limit : ℤ := (s.cfg.usbEp ep).maxpacket
  match s.cfg.gadgetSpeed, s.cfg.desc ep with
  | .high, some desc => limit + limit * (desc.maxpMult * 8 : ℕ)
  | .super, some desc =>
    if desc.bmAttributes &&& 0x03 = 0x01 then 3 * 16 * 1024 * 8
    else if desc.bmAttributes &&& 0x03 = 0x03 then 3 * 1024 * 8
    else limit
  | _, _ => limit

/-- `limit` of an URB that is not a control request. -/
def limit (urb : HcdUrb) (ep : EpIdx) : ℤ :=
  if usbPipetype urb.pipe = pipeIsochronous ∨ usbPipetype urb.pipe = pipeInterrupt then
    max s.total (s.periodicBytes ep)
  else s.total

/-- `return_urb`, up to the completion callback. -/
def giveBack (urbp : Urbp) (ep : Option EpIdx) (status : ℤ) : State :=
  let clear (flags : EpIdx → Bool) : EpIdx → Bool :=
    ep.elim flags fun ep => Function.update flags ep false
  { s with
    urbpList := s.urbpList.erase urbp
    freed := s.freed ++ [urbp.addr]
    alreadySeen := clear s.alreadySeen
    setupStage := clear s.setupStage
    given := s.given ++ [(urbp.urb, status)]
    olds := s.olds.erase urbp }

/-- `return_urb` -/
def returnUrb (urbp : Urbp) (ep : Option EpIdx) (status : ℤ) (m : Meanwhile) : State :=
  ((s.giveBack urbp ep status).meanwhile m).restart

/-- `treat_control_like_bulk`, up to the loop of `transfer`. -/
def startTransfer (urbp : Urbp) (tmp : Option Urbp) (ep : EpIdx) (limit status : ℤ)
    (e : Event) : State :=
  { s with
    mode := .transfer urbp tmp ep
      (.start (s.urbs urbp.urb).toUrb (fun i => (e.reqs i).toRequest) e.queued limit status) }

/-- A control request fails. -/
def stall (urbp : Urbp) (m : Meanwhile) : State :=
  (s.setUrb urbp.urb { s.urbs urbp.urb with
    actualLength := 0 }).returnUrb urbp (some 0) (-ePipe) m

/-- A control request in its setup stage. -/
def control (urbp : Urbp) (tmp : Option Urbp) (e : Event) : State :=
  match s.ep0Queue with
  | _ :: queue =>
    -- While a stale request is given back, no others are queued.
    let s := { s with ep0Queue := queue }.meanwhile { e.meanwhile with ep0Arrivals := [] }
    { s with alreadySeen := Function.update s.alreadySeen 0 false }.restart
  | [] =>
    let s := { s with setupStage := Function.update s.setupStage 0 false, cfg := e.control.cfg }
    if e.control.value > 0 then
      let s := s.meanwhile e.duringSetup
      if e.setup ≥ 0 then s.startTransfer urbp tmp 0 (64 * 1024) e.control.status e
      else s.stall urbp e.meanwhile
    else if e.control.value < 0 then s.stall urbp e.meanwhile
    else s.returnUrb urbp (some 0) e.control.status e.meanwhile

/-- The endpoint is seen, and a new URB of endpoint 0 begins with its setup stage. -/
def see (urbp : Urbp) (ep : EpIdx) : State :=
  let urb := s.urbs urbp.urb
  let s := { s with alreadySeen := Function.update s.alreadySeen ep true }
  if ep = 0 ∧ urb.errorCount ≠ 0 then
    { s with setupStage := Function.update s.setupStage ep true }.setUrb urbp.urb
      { urb with errorCount := 0 }
  else s

/-- An endpoint that was not seen yet. -/
def visit (urbp : Urbp) (tmp : Option Urbp) (ep : EpIdx) (e : Event) : State :=
  let urb := s.urbs urbp.urb
  let s := s.see urbp ep
  if s.cfg.halted ep && !s.setupStage ep then s.returnUrb urbp (some ep) (-ePipe) e.meanwhile
  else if ep = 0 ∧ s.setupStage ep then s.control urbp tmp e
  else s.startTransfer urbp tmp ep (s.limit urb ep) (-eInProgress) e

/-- The body of the loop, up to the loop of `transfer`. -/
def body (urbp : Urbp) (e : Event) : State :=
  let tmp := s.next urbp
  let urb := s.urbs urbp.urb
  if urb.unlinked then s.returnUrb urbp none (-eInProgress) e.meanwhile
  else if s.cfg.rhState ≠ .running then s.goOn tmp
  else if s.total ≤ 0 then s.goOn tmp
  else
    let address : Byte :=
      (usbPipeendpoint urb.pipe).setWidth 8 ||| if urb.dirIn then usbDirIn else 0
    match s.findEndpoint address with
    | none => s.returnUrb urbp none (-eProto) e.meanwhile
    | some ep => if s.alreadySeen ep then s.goOn tmp else s.visit urbp tmp ep e

/-- Behind the loop of `transfer`. -/
def leave (urbp : Urbp) (tmp : Option Urbp) (ep : EpIdx) (t : DummyHcd.State) (e : Event) :
    State :=
  let s := { s with total := s.total - t.sent }.setUrb urbp.urb
    { s.urbs urbp.urb with toUrb := t.urb }
  if t.status = -eInProgress then s.goOn tmp
  else s.returnUrb urbp (some ep) t.status e.meanwhile

/-- Behind the loop. -/
def finish : State :=
  if s.urbpList = [] then { s with udev := false, mode := .done }
  else if s.cfg.rhState = .running then { s with timerPending := true, mode := .done }
  else { s with mode := .done }

/-- `total` -/
def bandwidth : ℤ :=
  match s.cfg.gadgetSpeed with
  | .low => 8 * 12
  | .full => 64 * 19
  | .high => 512 * 13 * 8
  | .super => 490000
  | _ => 0

/-- `dummy_timer`, up to its loop. -/
def dummyTimer : State :=
  { s with
    timerPending := false
    nextFrameUrbp := if s.udev then none else s.nextFrameUrbp
    alreadySeen := if s.udev then fun _ => false else s.alreadySeen
    total := s.bandwidth
    mode := if s.udev then .loop s.urbpList.head? else .done
    freed := []
    given := []
    olds := s.urbpList
    enqueued := [] }

end State

/-- A step of the tick: a round of the list or of `transfer`. -/
def step (s : State) (e : Event) : Option State :=
  match s.mode with
  | .done => none
  | .loop none => some s.finish
  | .loop (some urbp) =>
    -- The URBs from here on were queued after the timer interrupt.
    if some urbp.addr = s.nextFrameUrbp then some s.finish else some (s.body urbp e)
  | .transfer urbp tmp ep t =>
    match t.rest with
    | [] => some (s.leave urbp tmp ep t e)
    | r :: rest =>
      let u := t.visit s.cfg.streamEnEp (s.cfg.usbEp ep) r rest e.interlude
      let s := { s with mode := .transfer urbp tmp ep u }
      -- The lock is dropped for a request that is given back.
      some (if r ∈ u.queue then s else s.meanwhile e.meanwhile)

/-! ## The property -/

/-- The URBs that were given back were on the list at the start, each is given back once, when
its `urbp` is freed, and behind those that are left there are the new ones in their order. -/
structure TickKept (start : List Urbp) (s : State) : Prop where
  urbpList : s.urbpList = s.olds ++ s.enqueued
  gone : ∃ gone, (gone ++ s.olds).Perm start ∧ s.freed = gone.map (·.addr) ∧
    s.given.map Prod.fst = gone.map (·.urb)
  once : (s.given.map Prod.fst).Nodup
  olds : s.olds.Sublist start

/-! ## The list -/

/-- The list is well formed in the tick. -/
structure Listed (start : List Urbp) (s : State) : Prop where
  urbpList : s.urbpList = s.olds ++ s.enqueued
  gone : ∃ gone, (gone ++ s.olds).Perm start ∧ s.freed = gone.map (·.addr) ∧
    s.given.map Prod.fst = gone.map (·.urb)
  olds : s.olds.Sublist start
  marker : s.nextFrameUrbp = s.enqueued.head?.map (·.addr)
  addrs : (s.urbpList.map (·.addr)).Nodup
  urbs : (s.urbpList.map (·.urb)).Nodup
  actual_le : ∀ p ∈ s.urbpList,
    (s.urbs p.urb).actualLength ≤ (s.urbs p.urb).transferBufferLength

/-- New URBs may have come, and the rest of the list is as it was. -/
structure Grows (s t : State) : Prop where
  olds : t.olds = s.olds
  enqueued : s.enqueued <+: t.enqueued
  alreadySeen : t.alreadySeen = s.alreadySeen
  total : t.total = s.total
  mode : t.mode = s.mode

section

variable {start : List Urbp} {s t : State} {p : Urbp}

theorem kmalloc_notMem (used : List ℕ) (addr : ℕ) : kmalloc used addr ∉ used := by
  unfold kmalloc
  split
  · intro hmem
    have hle := List.le_sum_of_mem hmem
    omega
  · assumption

theorem Grows.refl (s : State) : Grows s s := ⟨rfl, List.prefix_refl _, rfl, rfl, rfl⟩

theorem Grows.trans {u : State} (h : Grows s t) (h' : Grows t u) : Grows s u :=
  ⟨h'.olds.trans h.olds, h.enqueued.trans h'.enqueued, h'.alreadySeen.trans h.alreadySeen,
    h'.total.trans h.total, h'.mode.trans h.mode⟩

theorem Grows.of_eq {u : State} (h : Grows t u) (holds : t.olds = s.olds)
    (henqueued : t.enqueued = s.enqueued) (hseen : t.alreadySeen = s.alreadySeen)
    (htotal : t.total = s.total) (hmode : t.mode = s.mode) : Grows s u :=
  ⟨h.olds.trans holds, henqueued ▸ h.enqueued, h.alreadySeen.trans hseen, h.total.trans htotal,
    h.mode.trans hmode⟩

/-- What is not about the list does not matter. -/
theorem Listed.congr (h : Listed start s) (hlist : t.urbpList = s.urbpList)
    (hmarker : t.nextFrameUrbp = s.nextFrameUrbp) (hfreed : t.freed = s.freed)
    (hgiven : t.given = s.given) (holds : t.olds = s.olds) (henqueued : t.enqueued = s.enqueued)
    (hurbs : ∀ p ∈ s.urbpList,
      (t.urbs p.urb).actualLength ≤ (t.urbs p.urb).transferBufferLength) : Listed start t where
  urbpList := by rw [hlist, holds, henqueued, h.urbpList]
  gone := by rw [holds, hfreed, hgiven]; exact h.gone
  olds := holds ▸ h.olds
  marker := by rw [hmarker, henqueued, h.marker]
  addrs := hlist ▸ h.addrs
  urbs := hlist ▸ h.urbs
  actual_le := hlist ▸ hurbs

/-- An URB is written. -/
theorem Listed.setUrb (h : Listed start s) (u : ℕ) {urb : HcdUrb}
    (hurb : urb.actualLength ≤ urb.transferBufferLength) : Listed start (s.setUrb u urb) := by
  refine h.congr rfl rfl rfl rfl rfl rfl fun p hp => ?_
  simp only [State.setUrb, Function.update_apply]
  split
  · exact hurb
  · exact h.actual_le p hp

/-- A new URB comes at the end, and is the marker if it is the first one. -/
theorem Listed.enqueue (h : Listed start s) {urbp : Urbp} {contents : HcdUrb}
    (haddr : urbp.addr ∉ s.urbpList.map (·.addr)) (hurb : urbp.urb ∉ s.urbpList.map (·.urb))
    (hlist : t.urbpList = s.urbpList ++ [urbp])
    (hmarker : t.nextFrameUrbp =
      if s.nextFrameUrbp = none then some urbp.addr else s.nextFrameUrbp)
    (hfreed : t.freed = s.freed) (hgiven : t.given = s.given) (holds : t.olds = s.olds)
    (henqueued : t.enqueued = s.enqueued ++ [urbp])
    (hurbs : t.urbs = Function.update s.urbs urbp.urb contents)
    (hcontents : contents.actualLength ≤ contents.transferBufferLength) : Listed start t where
  urbpList := by rw [hlist, holds, henqueued, h.urbpList, List.append_assoc]
  gone := by rw [holds, hfreed, hgiven]; exact h.gone
  olds := holds ▸ h.olds
  marker := by
    rw [hmarker, henqueued, h.marker]
    cases s.enqueued <;> rfl
  addrs := by
    rw [hlist, List.map_append]
    exact h.addrs.append (by simp) (by simpa using haddr)
  urbs := by
    rw [hlist, List.map_append]
    exact h.urbs.append (by simp) (by simpa using hurb)
  actual_le := by
    intro p hp
    rw [hlist, List.mem_append, List.mem_singleton] at hp
    rw [hurbs, Function.update_apply]
    split
    · exact hcontents
    · next hne =>
      have hold := hp.resolve_right fun heq => hne (heq ▸ rfl)
      exact h.actual_le p hold

theorem Listed.submit (h : Listed start s) (sub : Submission) :
    Listed start (s.submit sub) ∧ Grows s (s.submit sub) := by
  unfold State.submit
  split
  · exact ⟨h, .refl s⟩
  · next hnew =>
    unfold State.dummyUrbEnqueue
    split
    · exact ⟨h, .refl s⟩
    · split
      · exact ⟨h, .refl s⟩
      · refine ⟨?_, rfl, List.prefix_append _ _, rfl, rfl, rfl⟩
        exact h.enqueue (kmalloc_notMem _ _) hnew rfl rfl rfl rfl rfl rfl rfl sub.actual_le

theorem Listed.meanwhile (h : Listed start s) (m : Meanwhile) :
    Listed start (s.meanwhile m) ∧ Grows s (s.meanwhile m) := by
  have hsubmit : Listed start (m.submissions.foldl State.submit s) ∧
      Grows s (m.submissions.foldl State.submit s) := by
    generalize m.submissions = subs
    induction subs generalizing s with
    | nil => exact ⟨h, .refl s⟩
    | cons sub subs ih =>
      obtain ⟨hlisted, hgrows⟩ := h.submit sub
      obtain ⟨hlisted', hgrows'⟩ := ih hlisted
      exact ⟨hlisted', hgrows.trans hgrows'⟩
  obtain ⟨hlisted, hgrows⟩ := hsubmit
  exact ⟨hlisted.congr rfl rfl rfl rfl rfl rfl hlisted.actual_le,
    hgrows.olds, hgrows.enqueued, hgrows.alreadySeen, hgrows.total, hgrows.mode⟩

end

/-! ## The place in the list -/

/-- An URB of before the tick, or the first one behind these. -/
def Current (s : State) (cur : Option Urbp) : Prop :=
  ∀ p, cur = some p → p ∈ s.olds ∨ s.enqueued.head? = some p

/-- How much of the list is ahead of an URB. -/
def ahead (olds : List Urbp) (p : Urbp) : ℕ := (olds.dropWhile (· ≠ p)).length

/-- The URB of a transfer is on the list, and the transfer is sound. -/
def Placed (s : State) : Prop :=
  match s.mode with
  | .loop cur => Current s cur
  | .transfer p tmp _ t => p ∈ s.olds ∧ Current s tmp ∧
    ∃ urb reqs limit, limit < 2147483648 ∧ Inv urb reqs limit t
  | .done => True

structure Ticking (start : List Urbp) (s : State) : Prop where
  listed : Listed start s
  placed : Placed s
  total_lt : s.total < 2147483648

section

variable {start : List Urbp} {s t : State} {p q : Urbp} {cur : Option Urbp}

theorem Current.grows (h : Current s cur) (hgrows : Grows s t) : Current t cur := by
  intro p hp
  rcases h p hp with hold | hnew
  · exact .inl (hgrows.olds ▸ hold)
  · obtain ⟨l, hl⟩ := hgrows.enqueued
    right
    rw [← hl, List.head?_append, hnew]
    rfl

theorem Listed.current_head (h : Listed start s) : Current s s.urbpList.head? := by
  intro p hp
  rw [h.urbpList] at hp
  cases holds : s.olds with
  | nil => exact .inr (by simpa [holds] using hp)
  | cons => exact .inl (List.mem_of_mem_head? (by simpa [holds] using hp))

theorem dropWhile_ne_append_cons {l l' : List Urbp} (hp : p ∉ l) :
    (l ++ p :: l').dropWhile (· ≠ p) = p :: l' := by
  induction l with
  | nil => simp
  | cons x l ih =>
    rw [List.mem_cons, not_or] at hp
    have hne : x ≠ p := Ne.symm hp.1
    simpa [hne] using ih hp.2

theorem ahead_of_notMem {olds : List Urbp} (hp : p ∉ olds) : ahead olds p = 0 := by
  induction olds with
  | nil => rfl
  | cons x olds ih =>
    rw [List.mem_cons, not_or] at hp
    have hne : x ≠ p := Ne.symm hp.1
    simpa [ahead, hne] using ih hp.2

theorem Listed.nodup (h : Listed start s) : s.urbpList.Nodup := .of_map _ h.addrs

/-- The next URB is closer to the end. -/
theorem Listed.next_spec (h : Listed start s) (hp : p ∈ s.olds) :
    Current s (s.next p) ∧ 0 < ahead s.olds p ∧
      ∀ q, s.next p = some q → ahead s.olds q < ahead s.olds p := by
  obtain ⟨l, l', hsplit⟩ := List.append_of_mem hp
  have hlist : s.urbpList = l ++ p :: (l' ++ s.enqueued) := by simp [h.urbpList, hsplit]
  have hnodup := h.nodup
  rw [hlist, List.nodup_middle] at hnodup
  obtain ⟨hpnew, hnodup⟩ := List.nodup_cons.mp hnodup
  have hpl : p ∉ l := fun hin => hpnew (List.mem_append_left _ hin)
  have hnext : s.next p = (l' ++ s.enqueued).head? := by
    rw [State.next, hlist, dropWhile_ne_append_cons hpl, List.tail_cons]
  have hahead : ahead s.olds p = l'.length + 1 := by
    rw [ahead, hsplit, dropWhile_ne_append_cons hpl, List.length_cons]
  rw [hnext, hahead]
  cases l' with
  | nil =>
    refine ⟨fun q hq => .inr (by simpa using hq), Nat.succ_pos _, fun q hq => ?_⟩
    have hqnew : q ∈ s.enqueued := List.mem_of_mem_head? (by simpa using hq)
    have hqold : q ∉ s.olds := by
      have hdisjoint := h.nodup
      rw [h.urbpList, List.nodup_append] at hdisjoint
      exact fun hin => hdisjoint.2.2 q hin q hqnew rfl
    rw [ahead_of_notMem hqold]
    exact Nat.succ_pos _
  | cons x l' =>
    refine ⟨fun q hq => .inl ?_, Nat.succ_pos _, fun q hq => ?_⟩
    · obtain rfl := Option.some.inj hq
      simp [hsplit]
    · obtain rfl := Option.some.inj hq
      have hx : x ∉ l ++ [p] := by
        rw [List.nodup_append] at hnodup
        intro hin
        rcases List.mem_append.mp hin with hin | hin
        · exact hnodup.2.2 x hin x (by simp) rfl
        · exact hpnew (by simp [List.mem_singleton.mp hin])
      have hsplit' : s.olds = (l ++ [p]) ++ x :: l' := by simp [hsplit]
      rw [ahead, hsplit', dropWhile_ne_append_cons hx]
      simp

/-- Before the marker there are the URBs of before the tick. -/
theorem Listed.mem_olds (h : Listed start s) (hcur : Current s (some p))
    (hmarker : some p.addr ≠ s.nextFrameUrbp) : p ∈ s.olds := by
  refine (hcur p rfl).resolve_right fun hnew => hmarker ?_
  rw [h.marker, hnew]
  rfl

/-! ## An URB is given back -/

theorem Listed.giveBack (h : Listed start s) (hp : p ∈ s.olds) (ep : Option EpIdx)
    (status : ℤ) : Listed start (s.giveBack p ep status) := by
  have hsub : (s.urbpList.erase p).Sublist s.urbpList := List.erase_sublist
  refine ⟨?_, ?_, List.erase_sublist.trans h.olds, h.marker, h.addrs.sublist (hsub.map _),
    h.urbs.sublist (hsub.map _), fun q hq => h.actual_le q (hsub.mem hq)⟩
  · simp only [State.giveBack, h.urbpList, List.erase_append_left _ hp]
  · obtain ⟨gone, hperm, hfreed, hgiven⟩ := h.gone
    refine ⟨gone ++ [p], ?_, by simp [State.giveBack, hfreed], by simp [State.giveBack, hgiven]⟩
    rw [List.append_assoc, List.singleton_append]
    exact ((List.perm_cons_erase hp).symm.append_left gone).trans hperm

theorem Listed.restart (h : Listed start s) (htotal : s.total < 2147483648) :
    Ticking start s.restart :=
  ⟨h.congr rfl rfl rfl rfl rfl rfl h.actual_le, h.current_head, htotal⟩

/-- What is left of the list gets shorter. -/
theorem Listed.returnUrb (h : Listed start s) (hp : p ∈ s.olds) (htotal : s.total < 2147483648)
    (ep : Option EpIdx) (status : ℤ) (m : Meanwhile) :
    Ticking start (s.returnUrb p ep status m) ∧
      (s.returnUrb p ep status m).olds.length < s.olds.length := by
  obtain ⟨hlisted, hgrows⟩ := (h.giveBack hp ep status).meanwhile m
  refine ⟨hlisted.restart (lt_of_eq_of_lt hgrows.total htotal), ?_⟩
  have holds : (s.returnUrb p ep status m).olds = s.olds.erase p := hgrows.olds
  have hlen := List.length_erase_of_mem hp
  have hpos := List.length_pos_of_mem hp
  rw [holds]
  omega

end

/-! ## The measure -/

/-- The endpoints that were not seen since an URB of theirs was given back. -/
@[irreducible] def State.unseen (s : State) : ℕ :=
  (Finset.univ.filter fun ep => s.alreadySeen ep = false).card

/-- What a transfer has before it. -/
def moving : Mode → ℕ ×ₗ ℕ
  | .transfer _ _ _ t => toLex (t.urb.hostLen + 1, t.rest.length)
  | _ => toLex (0, 0)

/-- What the loop has before it. -/
def State.toGo (s : State) : ℕ :=
  match s.mode with
  | .loop (some p) => ahead s.olds p + 2
  | .loop none => 1
  | _ => 0

/-- URBs of before the tick, endpoints, a transfer, stale requests, and the place in the
list. -/
def State.measure (s : State) : ℕ ×ₗ ℕ ×ₗ (ℕ ×ₗ ℕ) ×ₗ ℕ ×ₗ ℕ :=
  toLex (s.olds.length, toLex (s.unseen, toLex (moving s.mode,
    toLex (s.ep0Queue.length, s.toGo))))

section

variable {s t : State}

theorem measure_lt_of_olds (h : t.olds.length < s.olds.length) : t.measure < s.measure :=
  Prod.Lex.toLex_lt_toLex.mpr (.inl h)

theorem measure_lt_of_unseen (holds : t.olds = s.olds) (h : t.unseen < s.unseen) :
    t.measure < s.measure :=
  Prod.Lex.toLex_lt_toLex.mpr (.inr
    ⟨congrArg List.length holds, Prod.Lex.toLex_lt_toLex.mpr (.inl h)⟩)

theorem unseen_congr (hseen : t.alreadySeen = s.alreadySeen) : t.unseen = s.unseen := by
  rw [State.unseen, State.unseen, hseen]

/-- Without URBs and endpoints less, a transfer or what is behind it has to be less. -/
theorem measure_lt_of_rest (holds : t.olds = s.olds) (hseen : t.alreadySeen = s.alreadySeen)
    (h : moving t.mode < moving s.mode ∨ moving t.mode = moving s.mode ∧
      (t.ep0Queue.length < s.ep0Queue.length ∨ t.ep0Queue = s.ep0Queue ∧ t.toGo < s.toGo)) :
    t.measure < s.measure := by
  refine Prod.Lex.toLex_lt_toLex.mpr (.inr ⟨congrArg List.length holds, ?_⟩)
  refine Prod.Lex.toLex_lt_toLex.mpr (.inr ⟨unseen_congr hseen, ?_⟩)
  refine Prod.Lex.toLex_lt_toLex.mpr (h.imp_right fun h => ⟨h.1, ?_⟩)
  exact Prod.Lex.toLex_lt_toLex.mpr (h.2.imp_right fun h => ⟨congrArg List.length h.1, h.2⟩)

/-- Seeing an endpoint is progress. -/
theorem unseen_lt {ep : EpIdx} (hunseen : s.alreadySeen ep = false)
    (hseen : t.alreadySeen = Function.update s.alreadySeen ep true) : t.unseen < s.unseen := by
  rw [State.unseen, State.unseen, hseen]
  apply Finset.card_lt_card
  rw [Finset.ssubset_iff_of_subset]
  · exact ⟨ep, by simp [hunseen], by simp⟩
  · intro x hx
    simp only [Finset.mem_filter, Finset.mem_univ, true_and] at hx ⊢
    by_cases heq : x = ep
    · simp [heq] at hx
    · simpa [heq] using hx

end

/-! ## A step -/

section

variable {start : List Urbp} {s t : State} {p : Urbp} {tmp : Option Urbp}

theorem Listed.mem_urbpList (h : Listed start s) (hp : p ∈ s.olds) : p ∈ s.urbpList :=
  h.urbpList ▸ List.mem_append_left _ hp

theorem Listed.startTransfer (h : Listed start s) (hp : p ∈ s.olds)
    (htmp : Current s tmp) (htotal : s.total < 2147483648) (ep : EpIdx) {limit : ℤ}
    (h0 : 0 ≤ limit) (hlimit : limit < 2147483648) (status : ℤ) (e : Event) :
    Ticking start (s.startTransfer p tmp ep limit status e) := by
  have hurb := h.actual_le p (h.mem_urbpList hp)
  have hinv := Inv.start hurb (fun i => (e.reqs i).actual_le) h0 e.queued status
  exact ⟨h.congr rfl rfl rfl rfl rfl rfl h.actual_le,
    ⟨hp, htmp, (s.urbs p.urb).toUrb, fun i => (e.reqs i).toRequest, limit, hlimit, hinv⟩, htotal⟩

theorem Listed.stall (h : Listed start s) (hp : p ∈ s.olds) (htotal : s.total < 2147483648)
    (m : Meanwhile) :
    Ticking start (s.stall p m) ∧ (s.stall p m).olds.length < s.olds.length := by
  have hset : Listed start (s.setUrb p.urb { s.urbs p.urb with actualLength := 0 }) :=
    h.setUrb p.urb (Nat.zero_le _)
  exact hset.returnUrb hp htotal _ _ _

theorem State.ep0Queue_submit (s : State) (sub : Submission) :
    (s.submit sub).ep0Queue = s.ep0Queue := by
  unfold State.submit State.dummyUrbEnqueue
  repeat' split
  all_goals rfl

theorem State.ep0Queue_meanwhile (s : State) (m : Meanwhile) :
    (s.meanwhile m).ep0Queue = s.ep0Queue.filter m.ep0Keep ++ m.ep0Arrivals := by
  have hsubmit : (m.submissions.foldl State.submit s).ep0Queue = s.ep0Queue := by
    generalize m.submissions = subs
    induction subs generalizing s with
    | nil => rfl
    | cons sub subs ih => rw [List.foldl_cons, ih, s.ep0Queue_submit]
  rw [State.meanwhile, hsubmit]

/-- A stale request is flushed. -/
theorem Listed.flush (h : Listed start s) (htotal : s.total < 2147483648) {r : ℕ}
    {queue : List ℕ} (hqueue : s.ep0Queue = r :: queue) (m : Meanwhile)
    (harrive : m.ep0Arrivals = [])
    (ht : t = { { s with ep0Queue := queue }.meanwhile m with
      alreadySeen := Function.update ({ s with ep0Queue := queue }.meanwhile m).alreadySeen 0
        false }.restart) :
    Ticking start t ∧ t.olds = s.olds ∧
      t.alreadySeen = Function.update s.alreadySeen 0 false ∧
      moving t.mode = toLex (0, 0) ∧ t.ep0Queue.length < s.ep0Queue.length := by
  have hs : Listed start { s with ep0Queue := queue } :=
    h.congr rfl rfl rfl rfl rfl rfl h.actual_le
  obtain ⟨hlisted, hgrows⟩ := hs.meanwhile m
  subst ht
  refine ⟨Listed.restart ?_ ?_, hgrows.olds, ?_, rfl, ?_⟩
  · exact hlisted.congr rfl rfl rfl rfl rfl rfl hlisted.actual_le
  · exact lt_of_eq_of_lt hgrows.total htotal
  · exact congrArg (Function.update · 0 false) hgrows.alreadySeen
  · have hleft := State.ep0Queue_meanwhile { s with ep0Queue := queue } m
    have hle := List.length_filter_le m.ep0Keep queue
    simp only [State.restart, hleft, harrive, hqueue, List.append_nil, List.length_cons]
    omega

/-- A control request is flushed of a stale request, is given back, or goes on as a transfer. -/
theorem Listed.control (h : Listed start s) (hp : p ∈ s.olds) (htmp : Current s tmp)
    (htotal : s.total < 2147483648) (e : Event) :
    Ticking start (s.control p tmp e) ∧
      ((s.control p tmp e).olds.length < s.olds.length ∨
        (s.control p tmp e).olds = s.olds ∧
          ((s.control p tmp e).alreadySeen = s.alreadySeen ∨
            (s.control p tmp e).alreadySeen = Function.update s.alreadySeen 0 false ∧
              moving (s.control p tmp e).mode = toLex (0, 0) ∧
              (s.control p tmp e).ep0Queue.length < s.ep0Queue.length)) := by
  unfold State.control
  split
  · next r queue hqueue =>
    obtain ⟨hticking, holds, hseen, hmode, hless⟩ :=
      h.flush htotal hqueue { e.meanwhile with ep0Arrivals := [] } rfl rfl
    exact ⟨hticking, .inr ⟨holds, .inr ⟨hseen, hmode, hless⟩⟩⟩
  · have hs : Listed start { s with
        setupStage := Function.update s.setupStage 0 false, cfg := e.control.cfg } :=
      h.congr rfl rfl rfl rfl rfl rfl h.actual_le
    dsimp only
    split
    · obtain ⟨hsetup, hsince⟩ := hs.meanwhile e.duringSetup
      have hgrows : Grows s _ := hsince.of_eq rfl rfl rfl rfl rfl
      have hp' := hgrows.olds.symm ▸ hp
      have htotal' := lt_of_eq_of_lt hgrows.total htotal
      split
      · have hticking := hsetup.startTransfer hp' (htmp.grows hgrows) htotal' 0
          (show (0 : ℤ) ≤ 64 * 1024 by decide) (by decide) e.control.status e
        exact ⟨hticking, .inr ⟨hgrows.olds, .inl hgrows.alreadySeen⟩⟩
      · obtain ⟨hticking, hless⟩ := hsetup.stall hp' htotal' e.meanwhile
        exact ⟨hticking, .inl (hless.trans_eq (congrArg List.length hgrows.olds))⟩
    · split
      · obtain ⟨hticking, hless⟩ := hs.stall hp htotal e.meanwhile
        exact ⟨hticking, .inl hless⟩
      · obtain ⟨hticking, hless⟩ :=
          hs.returnUrb hp htotal (some 0) e.control.status e.meanwhile
        exact ⟨hticking, .inl hless⟩

theorem EpDesc.maxpMult_le (desc : EpDesc) : desc.maxpMult ≤ 4 := by
  have hand : ((desc.wMaxPacketSize >>> 11) &&& 3).toNat ≤ 3 := by
    rw [BitVec.toNat_and]
    exact Nat.and_le_right
  unfold EpDesc.maxpMult
  omega

theorem State.periodicBytes_lt (s : State) (ep : EpIdx) : s.periodicBytes ep < 2147483648 := by
  have hlt := s.cfg.usbEp_lt ep
  unfold State.periodicBytes
  dsimp only
  split
  · next desc _ _ =>
    have hmult := desc.maxpMult_le
    have hle : (s.cfg.usbEp ep).maxpacket * (desc.maxpMult * 8) ≤ 65536 * 32 :=
      Nat.mul_le_mul hlt.le (by omega)
    rw [← Nat.cast_mul]
    omega
  · split
    · decide
    · split
      · decide
      · omega
  · omega

theorem State.limit_bounds (s : State) (urb : HcdUrb) (ep : EpIdx) (hpos : 0 < s.total)
    (hlt : s.total < 2147483648) : 0 ≤ s.limit urb ep ∧ s.limit urb ep < 2147483648 := by
  unfold State.limit
  split
  · exact ⟨le_max_of_le_left hpos.le, max_lt hlt (s.periodicBytes_lt ep)⟩
  · exact ⟨hpos.le, hlt⟩

theorem Listed.see (h : Listed start s) (hp : p ∈ s.olds) (ep : EpIdx) :
    Listed start (s.see p ep) ∧ (s.see p ep).olds = s.olds ∧
      (s.see p ep).enqueued = s.enqueued ∧
      (s.see p ep).alreadySeen = Function.update s.alreadySeen ep true ∧
      (s.see p ep).total = s.total ∧ (s.see p ep).ep0Queue = s.ep0Queue := by
  unfold State.see
  dsimp only
  split
  · have hstage : Listed start { s with
        alreadySeen := Function.update s.alreadySeen ep true
        setupStage := Function.update s.setupStage ep true } :=
      h.congr rfl rfl rfl rfl rfl rfl h.actual_le
    have hle := h.actual_le p (h.mem_urbpList hp)
    exact ⟨hstage.setUrb p.urb hle, rfl, rfl, rfl, rfl, rfl⟩
  · exact ⟨h.congr rfl rfl rfl rfl rfl rfl h.actual_le, rfl, rfl, rfl, rfl, rfl⟩

/-- An URB is given back, its endpoint is seen, or a stale request is flushed. -/
theorem Listed.visit (h : Listed start s) (hp : p ∈ s.olds) (htmp : Current s tmp)
    (hpos : 0 < s.total) (htotal : s.total < 2147483648) (hmode : moving s.mode = toLex (0, 0))
    {ep : EpIdx} (hunseen : s.alreadySeen ep = false) (e : Event) :
    Ticking start (s.visit p tmp ep e) ∧ (s.visit p tmp ep e).measure < s.measure := by
  obtain ⟨hsee, holds, henqueued, hseen, htot, hqueue⟩ := h.see hp ep
  unfold State.visit
  generalize s.see p ep = u at hsee holds henqueued hseen htot hqueue
  have hp' : p ∈ u.olds := holds ▸ hp
  have htmp' : Current u tmp := by
    intro q hq
    rw [holds, henqueued]
    exact htmp q hq
  have htotal' : u.total < 2147483648 := htot ▸ htotal
  dsimp only
  split
  · obtain ⟨hticking, hless⟩ := hsee.returnUrb hp' htotal' (some ep) (-ePipe) e.meanwhile
    exact ⟨hticking, measure_lt_of_olds (hless.trans_eq (congrArg List.length holds))⟩
  · split
    · next hsetup =>
      obtain ⟨hticking, hless | ⟨holds', hseen' | ⟨hseen', hmode', hless⟩⟩⟩ :=
        hsee.control hp' htmp' htotal' e
      · exact ⟨hticking, measure_lt_of_olds (hless.trans_eq (congrArg List.length holds))⟩
      · exact ⟨hticking, measure_lt_of_unseen (holds'.trans holds)
          (unseen_lt hunseen (hseen'.trans hseen))⟩
      · -- The endpoint is unseen again.
        obtain rfl := hsetup.1
        have hback : (u.control p tmp e).alreadySeen = s.alreadySeen := by
          rw [hseen', hseen, Function.update_idem, ← hunseen, Function.update_eq_self]
        exact ⟨hticking, measure_lt_of_rest (holds'.trans holds) hback
          (.inr ⟨hmode'.trans hmode.symm, .inl (hqueue ▸ hless)⟩)⟩
    · obtain ⟨h0, hlimit⟩ := u.limit_bounds (s.urbs p.urb) ep (htot ▸ hpos) htotal'
      exact ⟨hsee.startTransfer hp' htmp' htotal' ep h0 hlimit _ e,
        measure_lt_of_unseen holds (unseen_lt hunseen hseen)⟩

/-- The loop goes on to the next URB. -/
theorem Ticking.goOn (h : Ticking start s) (hp : p ∈ s.olds) (hmode : s.mode = .loop (some p)) :
    Ticking start (s.goOn (s.next p)) ∧ (s.goOn (s.next p)).measure < s.measure := by
  obtain ⟨hcur, -, hcloser⟩ := h.listed.next_spec hp
  refine ⟨⟨h.listed.congr rfl rfl rfl rfl rfl rfl h.listed.actual_le, hcur, h.total_lt⟩, ?_⟩
  have hmoving : moving s.mode = toLex (0, 0) := by rw [hmode]; rfl
  refine measure_lt_of_rest rfl rfl (.inr ⟨hmoving.symm, .inr ⟨rfl, ?_⟩⟩)
  have htoGo : s.toGo = ahead s.olds p + 2 := by rw [State.toGo, hmode]
  rw [htoGo]
  cases hnext : s.next p with
  | none =>
    show 1 < ahead s.olds p + 2
    omega
  | some q =>
    have hless := hcloser q hnext
    show ahead s.olds q + 2 < ahead s.olds p + 2
    omega

theorem Ticking.returnUrb (h : Ticking start s) (hp : p ∈ s.olds) (ep : Option EpIdx)
    (status : ℤ) (m : Meanwhile) :
    Ticking start (s.returnUrb p ep status m) ∧
      (s.returnUrb p ep status m).measure < s.measure := by
  obtain ⟨hticking, hless⟩ := h.listed.returnUrb hp h.total_lt ep status m
  exact ⟨hticking, measure_lt_of_olds hless⟩

theorem Ticking.body (h : Ticking start s) (hmode : s.mode = .loop (some p))
    (hmarker : some p.addr ≠ s.nextFrameUrbp) (e : Event) :
    Ticking start (s.body p e) ∧ (s.body p e).measure < s.measure := by
  have hcur : Current s (some p) := by
    have hplaced := h.placed
    rwa [Placed, hmode] at hplaced
  have hp := h.listed.mem_olds hcur hmarker
  unfold State.body
  dsimp only
  split
  · exact h.returnUrb hp _ _ _
  · split
    · exact h.goOn hp hmode
    · split
      · exact h.goOn hp hmode
      · next hpos =>
        split
        · exact h.returnUrb hp _ _ _
        · split
          · exact h.goOn hp hmode
          · next hseen =>
            obtain ⟨htmp, -, -⟩ := h.listed.next_spec hp
            have hmoving : moving s.mode = toLex (0, 0) := by rw [hmode]; rfl
            exact h.listed.visit hp htmp (not_le.mp hpos) h.total_lt hmoving
              (by simpa using hseen) e

variable {ep : EpIdx} {x : DummyHcd.State}

theorem moving_lt (hmode : s.mode = .transfer p tmp ep x) {m : ℕ ×ₗ ℕ}
    (h : m < toLex (x.urb.hostLen + 1, x.rest.length)) : m < moving s.mode := by
  rw [hmode, moving]
  exact h

/-- The transfer is over. -/
theorem Ticking.leave (h : Ticking start s) (hmode : s.mode = .transfer p tmp ep x) (e : Event) :
    Ticking start (s.leave p tmp ep x e) ∧ (s.leave p tmp ep x e).measure < s.measure := by
  have hplaced := h.placed
  rw [Placed, hmode] at hplaced
  obtain ⟨hp, htmp, urb, reqs, limit, hlimit, hinv⟩ := hplaced
  have hs : Listed start { s with total := s.total - x.sent } :=
    h.listed.congr rfl rfl rfl rfl rfl rfl h.listed.actual_le
  have hset : Listed start ({ s with total := s.total - x.sent }.setUrb p.urb
      { s.urbs p.urb with toUrb := x.urb }) := hs.setUrb p.urb hinv.urb_le
  have htotal : s.total - x.sent < 2147483648 := by
    have hsent := hinv.sent
    have hlt := h.total_lt
    omega
  unfold State.leave
  dsimp only
  split
  · refine ⟨⟨hset.congr rfl rfl rfl rfl rfl rfl hset.actual_le, htmp, htotal⟩, ?_⟩
    refine measure_lt_of_rest rfl rfl (.inl (moving_lt hmode ?_))
    exact Prod.Lex.toLex_lt_toLex.mpr (.inl (Nat.succ_pos _))
  · obtain ⟨hticking, hless⟩ := hset.returnUrb hp htotal (some ep) x.status e.meanwhile
    exact ⟨hticking, measure_lt_of_olds hless⟩

/-- A round of the transfer. -/
theorem Ticking.round (h : Ticking start s) (hmode : s.mode = .transfer p tmp ep x) {r : ℕ}
    {rest : List ℕ} (hrest : x.rest = r :: rest) {u : DummyHcd.State} (e : Event)
    (hu : u = x.visit s.cfg.streamEnEp (s.cfg.usbEp ep) r rest e.interlude)
    (ht : Grows { s with mode := .transfer p tmp ep u } t) (hlisted : Listed start t) :
    Ticking start t ∧ t.measure < s.measure := by
  have hplaced := h.placed
  rw [Placed, hmode] at hplaced
  obtain ⟨hp, htmp, urb, reqs, limit, hlimit, hinv⟩ := hplaced
  have hinv' : Inv urb reqs limit u := hu ▸ hinv.visit hlimit hrest _ _ _
  have hless := hinv.visit_lt hlimit hrest s.cfg.streamEnEp (s.cfg.usbEp ep) e.interlude
  rw [← hu] at hless
  have hmode' : t.mode = .transfer p tmp ep u := ht.mode
  have hcur : Current { s with mode := .transfer p tmp ep u } tmp := htmp
  refine ⟨⟨hlisted, ?_, lt_of_eq_of_lt ht.total h.total_lt⟩, ?_⟩
  · rw [Placed, hmode']
    exact ⟨ht.olds ▸ hp, hcur.grows ht, urb, reqs, limit, hlimit, hinv'⟩
  · refine measure_lt_of_rest ht.olds ht.alreadySeen (.inl (moving_lt hmode ?_))
    rw [hmode', moving]
    rw [Prod.Lex.toLex_lt_toLex] at hless ⊢
    exact hless.imp Nat.succ_lt_succ (And.imp_left (congrArg Nat.succ))

/-- The loop is left. -/
theorem Ticking.finish (h : Ticking start s) {cur : Option Urbp} (hmode : s.mode = .loop cur) :
    Ticking start s.finish ∧ s.finish.measure < s.measure := by
  have hmoving : moving s.mode = toLex (0, 0) := by rw [hmode]; rfl
  have htoGo : 0 < s.toGo := by
    rw [State.toGo, hmode]
    cases cur <;> simp
  have hfinish : ∃ udev timerPending, s.finish =
      { s with udev := udev, timerPending := timerPending, mode := .done } := by
    unfold State.finish
    split
    · exact ⟨false, s.timerPending, rfl⟩
    · split
      · exact ⟨s.udev, true, rfl⟩
      · exact ⟨s.udev, s.timerPending, rfl⟩
  obtain ⟨udev, timerPending, hfinish⟩ := hfinish
  rw [hfinish]
  exact ⟨⟨h.listed.congr rfl rfl rfl rfl rfl rfl h.listed.actual_le, trivial, h.total_lt⟩,
    measure_lt_of_rest rfl rfl (.inr ⟨hmoving.symm, .inr ⟨rfl, htoGo⟩⟩)⟩

theorem Ticking.step {e : Event} (h : Ticking start s) (ht : step s e = some t) :
    Ticking start t ∧ t.measure < s.measure := by
  unfold Timer.step at ht
  split at ht
  · cases ht
  · next hmode =>
    obtain rfl := Option.some.inj ht
    exact h.finish hmode
  · next p hmode =>
    split at ht
    · obtain rfl := Option.some.inj ht
      exact h.finish hmode
    · next hmarker =>
      obtain rfl := Option.some.inj ht
      exact h.body hmode hmarker e
  · next p tmp ep x hmode =>
    split at ht
    · obtain rfl := Option.some.inj ht
      exact h.leave hmode e
    · next r rest hrest =>
      obtain rfl := Option.some.inj ht
      let u := x.visit s.cfg.streamEnEp (s.cfg.usbEp ep) r rest e.interlude
      have hs : Listed start { s with mode := .transfer p tmp ep u } :=
        h.listed.congr rfl rfl rfl rfl rfl rfl h.listed.actual_le
      split
      · exact h.round hmode hrest e rfl (.refl _) hs
      · obtain ⟨hlisted, hgrows⟩ := hs.meanwhile e.meanwhile
        exact h.round hmode hrest e rfl hgrows hlisted

theorem step_eq_none {e : Event} : step s e = none ↔ s.mode = .done := by
  unfold Timer.step
  split
  · next hmode => simp [hmode]
  · next hmode => simp [hmode]
  · next hmode => split <;> simp [hmode]
  · next hmode => split <;> simp [hmode]

theorem State.bandwidth_lt (s : State) : s.bandwidth < 2147483648 := by
  unfold State.bandwidth
  split <;> decide

/-- The tick begins. -/
theorem ticking_dummyTimer (s : State) (haddrs : (s.urbpList.map (·.addr)).Nodup)
    (hurbs : (s.urbpList.map (·.urb)).Nodup)
    (hactual : ∀ p ∈ s.urbpList,
      (s.urbs p.urb).actualLength ≤ (s.urbs p.urb).transferBufferLength) (hudev : s.udev = true) :
    Ticking s.urbpList s.dummyTimer := by
  have hlisted : Listed s.urbpList s.dummyTimer := {
    urbpList := (List.append_nil _).symm
    gone := ⟨[], .refl _, rfl, rfl⟩
    olds := .refl _
    marker := if_pos hudev
    addrs := haddrs
    urbs := hurbs
    actual_le := hactual }
  refine ⟨hlisted, ?_, s.bandwidth_lt⟩
  have hmode : s.dummyTimer.mode = .loop s.urbpList.head? := if_pos hudev
  rw [Placed, hmode]
  exact hlisted.current_head

/-- Each URB of the start is given back once at most. -/
theorem Listed.tickKept (h : Listed start s) (hurbs : (start.map (·.urb)).Nodup) :
    TickKept start s where
  urbpList := h.urbpList
  gone := h.gone
  once := by
    obtain ⟨gone, hperm, -, hgiven⟩ := h.gone
    have hnodup := (hperm.map (·.urb)).nodup_iff.mpr hurbs
    rw [hgiven]
    exact hnodup.sublist ((List.sublist_append_left gone s.olds).map _)
  olds := h.olds

end

/-- A tick is finite, whatever the callbacks do, and keeps the property in all of its states. -/
theorem dummyTimer_tick (s : State) (haddrs : (s.urbpList.map (·.addr)).Nodup)
    (hurbs : (s.urbpList.map (·.urb)).Nodup)
    (hactual : ∀ p ∈ s.urbpList,
      (s.urbs p.urb).actualLength ≤ (s.urbs p.urb).transferBufferLength) :
    (∀ es t, runs step s.dummyTimer es = some t → TickKept s.urbpList t) ∧
    ∀ es : ℕ → Event, ∃ n t,
      runs step s.dummyTimer ((List.range n).map es) = some t ∧ t.mode = .done := by
  cases hudev : s.udev with
  | false =>
    have hdone : s.dummyTimer.mode = .done := by simp [State.dummyTimer, hudev]
    constructor
    · intro es t ht
      cases es with
      | nil =>
        obtain rfl := Option.some.inj ht
        exact ⟨(List.append_nil _).symm, ⟨[], .refl _, rfl, rfl⟩, List.nodup_nil, .refl _⟩
      | cons e es =>
        rw [runs_cons, step_eq_none.mpr hdone] at ht
        cases ht
    · exact fun es => ⟨0, s.dummyTimer, rfl, hdone⟩
  | true =>
    have hstart := ticking_dummyTimer s haddrs hurbs hactual hudev
    constructor
    · intro es t ht
      exact (runs_invariant (fun s e t hs ht => (hs.step ht).1) hstart ht).listed.tickKept hurbs
    · intro es
      obtain ⟨n, t, ht, hnone⟩ := runs_terminate wellFounded_lt State.measure
        (fun s e t hs ht => (Ticking.step hs ht).1) (fun s e t hs ht => (Ticking.step hs ht).2)
        hstart es
      exact ⟨n, t, ht, step_eq_none.mp hnone⟩

/-! ## A tick -/

/-- A running port of a device in which only endpoint 0 is found. -/
def addressed : Config where
  rhState := .running
  isActive := true
  intsEnabled := true
  gadgetSpeed := .high
  streamEnEp := 0
  desc _ := none
  usbEp _ := ⟨64, by decide⟩
  usbEp_lt _ := by decide
  halted _ := false

def bulkUrb : HcdUrb := ⟨fiveBytes, 3 <<< 30 ||| 1 <<< 15, false, 0⟩

/-- The first of two URBs is unlinked. -/
def twoUrbs : State where
  cfg := addressed
  udev := true
  timerPending := false
  urbpList := [⟨64, 1⟩, ⟨128, 2⟩]
  nextFrameUrbp := none
  urbs u := { bulkUrb with unlinked := u = 1 }
  alreadySeen _ := false
  setupStage _ := false
  ep0Queue := []
  total := 0
  mode := .done
  freed := []
  given := []
  olds := []
  enqueued := []

/-- The completion callback submits the URB again, and gets the memory of before. -/
def resubmission : Event where
  meanwhile := ⟨[⟨some 64, 1, bulkUrb, by decide, 0⟩], fun _ => false, fun _ => true, [], addressed⟩
  control := ⟨0, 0, addressed⟩
  setup := 0
  duringSetup := ⟨[], fun _ => false, fun _ => true, [], addressed⟩
  reqs _ := ⟨threeWanted, by decide⟩
  queued := 0
  interlude := ⟨fun _ => true, 0⟩

theorem dummyTimer_tick_resubmission :
    ∃ t, runs step twoUrbs.dummyTimer [resubmission, resubmission, resubmission] = some t ∧
      t.given = [(1, -eInProgress), (2, -eProto)] ∧ t.urbpList = [⟨64, 1⟩] ∧
      TickKept twoUrbs.urbpList t := by
  have h := dummyTimer_tick twoUrbs (by decide) (by decide) (fun _ _ => Nat.zero_le _)
  exact ⟨_, rfl, by decide +kernel, by decide +kernel,
    h.1 [resubmission, resubmission, resubmission] _ rfl⟩

end FuzzUSB.DummyHcd.Timer
