import FuzzUSB.DummyHcdHub

/-!
# Endpoints that are enabled

`dummy_enable` checks the descriptor of an endpoint against its name and the speed of the
gadget, and sets the packet size that `transfer` divides by.
-/

namespace FuzzUSB.DummyHcd
open Transition CLayout

/-! ## Enabling -/

/-- `struct usb_endpoint_descriptor` -/
structure UsbEndpointDescriptor where
  bDescriptorType : Byte
  bEndpointAddress : Byte
  bmAttributes : Byte
  wMaxPacketSize : BitVec 16

/-- `struct dummy_ep` with its `usb_ep`. The companion descriptor is there by its
`bmAttributes`. -/
structure DummyEp where
  name : List Char
  compDesc : Option Byte
  desc : Option UsbEndpointDescriptor
  maxpacket : ℕ
  streamEn : Bool
  halted : Bool
  wedged : Bool

def usbDtEndpoint : Byte := 5

def ep0name : List Char := ['e', 'p', '0']

/-- `usb_endpoint_maxp` -/
def usbEndpointMaxp (desc : UsbEndpointDescriptor) : ℕ := desc.wMaxPacketSize.toNat % 2048

/-- `usb_endpoint_type` -/
def usbEndpointType (desc : UsbEndpointDescriptor) : Byte := desc.bmAttributes &&& 0x03

def usbEndpointXferIsoc : Byte := 1
def usbEndpointXferBulk : Byte := 2
def usbEndpointXferInt : Byte := 3

/-- `usb_ss_max_streams` -/
def usbSsMaxStreams (compDesc : Option Byte) : ℕ :=
  match compDesc with
  | none => 0
  | some bmAttributes =>
    let maxStreams := (bmAttributes &&& 0x1f).toNat
    if maxStreams = 0 then 0 else 1 <<< maxStreams

/-- The name has such a part, as `strstr` finds it. -/
def strstr (name part : List Char) : Bool := decide (part <:+: name)

def isoPart : List Char := ['-', 'i', 's', 'o']
def intPart : List Char := ['-', 'i', 'n', 't']
def bulkPart : List Char := ['-', 'b', 'u', 'l', 'k']

/-- The sizes of bulk packets. -/
def bulkAllows (speed : UsbSpeed) (max : ℕ) : Bool :=
  match speed with
  | .super => max = 1024
  | .high => max = 512
  | .full => max = 8 || max = 16 || max = 32 || max = 64
  | _ => false

/-- The sizes of interrupt packets. A size that is too large for one speed falls through to the
next. -/
def intAllows (speed : UsbSpeed) (max : ℕ) : Bool :=
  match speed with
  | .super | .high => max ≤ 1024 || max ≤ 64 || max ≤ 8
  | .full => max ≤ 64 || max ≤ 8
  | _ => max ≤ 8

/-- The sizes of isochronous packets. -/
def isocAllows (speed : UsbSpeed) (max : ℕ) : Bool :=
  match speed with
  | .super | .high => max ≤ 1024 || max ≤ 1023
  | .full => max ≤ 1023
  | _ => false

/-- The `switch` on the type of the endpoint. -/
def typeAllows (name : List Char) (speed : UsbSpeed) (desc : UsbEndpointDescriptor) : Bool :=
  let max := usbEndpointMaxp desc
  if usbEndpointType desc = usbEndpointXferBulk then
    !(strstr name isoPart || strstr name intPart) && bulkAllows speed max
  else if usbEndpointType desc = usbEndpointXferInt then
    !strstr name isoPart && intAllows speed max
  else if usbEndpointType desc = usbEndpointXferIsoc then
    !(strstr name bulkPart || strstr name intPart) && isocAllows speed max
  else false

/-- The state of the gadget that `dummy_enable` reads. -/
structure GadgetState where
  driver : Bool
  isEnabled : Bool
  speed : UsbSpeed

/-- `dummy_enable` -/
def dummyEnable (dum : GadgetState) (ep : DummyEp) (desc : Option UsbEndpointDescriptor) :
    ℤ × DummyEp :=
  match desc with
  | none => (-eInval, ep)
  | some desc =>
    if ep.desc.isSome || ep.name = ep0name || desc.bDescriptorType ≠ usbDtEndpoint then
      (-eInval, ep)
    else if !dum.driver || !dum.isEnabled then (-eShutdown, ep)
    else if !typeAllows ep.name dum.speed desc then (-eInval, ep)
    else
      let ep := { ep with maxpacket := usbEndpointMaxp desc }
      if usbSsMaxStreams ep.compDesc ≠ 0 then
        if usbEndpointType desc ≠ usbEndpointXferBulk then (-eInval, ep)
        else (0, { ep with
          streamEn := true, desc := some desc, halted := false, wedged := false })
      else (0, { ep with desc := some desc, halted := false, wedged := false })

/-! ## Transfers that can divide by zero -/

/-- The fault of a division by zero. -/
inductive DivideError
  | divideError
  deriving DecidableEq

/-- The operator `%`. -/
def modulo (a b : ℕ) : Except DivideError ℕ :=
  if b = 0 then .error .divideError else .ok (a % b)

/-- `portion`, with the division by the packet size as it is. -/
def portionChecked (maxpacket : ℕ) (limit : ℤ) (len : ℕ) : Except DivideError (Option Portion) :=
  if len = 0 then .ok (some ⟨0, true, false⟩)
  else if limit < maxpacket ∧ asUnsigned limit < len then .ok none
  else
    let len := min len (asUnsigned limit)
    if len = 0 then .ok none
    else if maxpacket ≤ len then do
      let remainder ← modulo len maxpacket
      return some ⟨len - remainder, false, remainder ≠ 0⟩
    else .ok (some ⟨len, true, false⟩)

/-- The body of the loop, for an endpoint of any packet size. -/
def State.visitChecked (streamEnEp : BitVec 32) (maxpacket : ℕ) (s : State) (i : ℕ)
    (rest : List ℕ) (e : Interlude) : Except DivideError State :=
  if dummyEpStreamEn streamEnEp s.urb ∧ s.urb.streamId ≠ (s.reqs i).streamId then
    .ok { s with before := s.before ++ [i], rest := rest }
  else do
    let hostLen := s.urb.hostLen
    let devLen := (s.reqs i).devLen
    match ← portionChecked maxpacket s.limit (min hostLen devLen) with
    | none => return { s with before := s.before ++ i :: rest, rest := [] }
    | some p =>
      let s := s.moveSome i p.len
      let rescan := p.rescan || (!p.isShort && s.wantsZlp i)
      return (s.settle i hostLen devLen p.isShort).conclude i rest rescan e

/-- One round of the loop of `transfer`, if it does not fault. -/
def stepChecked (streamEnEp : BitVec 32) (maxpacket : ℕ) (s : State) (e : Interlude) :
    Option State :=
  match s.rest with
  | [] => none
  | i :: rest =>
    match s.visitChecked streamEnEp maxpacket i rest e with
    | .ok t => some t
    | .error _ => none

/-- No modulo operation of the next round has the divisor 0. -/
def NoFault (streamEnEp : BitVec 32) (maxpacket : ℕ) (s : State) : Prop :=
  ∀ i rest e, s.rest = i :: rest →
    s.visitChecked streamEnEp maxpacket i rest e ≠ .error .divideError

/-- `transfer` never divides by zero on an endpoint that has been enabled. -/
def TransfersSafely (dum : GadgetState) (ep : DummyEp) (desc : Option UsbEndpointDescriptor) :
    Prop :=
  ∀ ep', dummyEnable dum ep desc = (0, ep') →
    ∀ streamEnEp urb reqs n (limit : BitVec 32) status es,
      Always (stepChecked streamEnEp ep'.maxpacket) (NoFault streamEnEp ep'.maxpacket)
        (.start urb reqs n limit.toInt status) es

/-- A descriptor with packets of no bytes that passes the checks: one of an interrupt
endpoint, or at full speed or more of an isochronous endpoint, without streams. -/
def ZeroPacket (dum : GadgetState) (ep : DummyEp) (desc : UsbEndpointDescriptor) : Prop :=
  usbEndpointMaxp desc = 0 ∧ ep.desc = none ∧ ep.name ≠ ep0name ∧
    desc.bDescriptorType = usbDtEndpoint ∧ dum.driver = true ∧ dum.isEnabled = true ∧
    usbSsMaxStreams ep.compDesc = 0 ∧
    ((usbEndpointType desc = usbEndpointXferInt ∧ strstr ep.name isoPart = false) ∨
      (usbEndpointType desc = usbEndpointXferIsoc ∧ strstr ep.name bulkPart = false ∧
        strstr ep.name intPart = false ∧ dum.speed ∈ [.full, .high, .super]))

/-! ### With a packet size -/

theorem modulo_of_pos {b : ℕ} (h : 0 < b) (a : ℕ) : modulo a b = .ok (a % b) :=
  if_neg (Nat.pos_iff_ne_zero.mp h)

theorem portionChecked_eq (ep : Endpoint) (limit : ℤ) (len : ℕ) :
    portionChecked ep.maxpacket limit len = .ok (portion ep.maxpacket limit len) := by
  unfold portionChecked portion
  simp only [modulo_of_pos ep.pos, bind, Except.bind, pure, Except.pure]
  split_ifs <;> rfl

/-- With a packet size the loop is that of `transfer`. -/
theorem State.visitChecked_eq (streamEnEp : BitVec 32) (ep : Endpoint) (s : State) (i : ℕ)
    (rest : List ℕ) (e : Interlude) :
    s.visitChecked streamEnEp ep.maxpacket i rest e = .ok (s.visit streamEnEp ep i rest e) := by
  unfold State.visitChecked State.visit
  split
  · rfl
  · simp only [portionChecked_eq, bind, Except.bind]
    cases portion ep.maxpacket s.limit (min s.urb.hostLen (s.reqs i).devLen) <;> rfl

theorem stepChecked_eq (streamEnEp : BitVec 32) (ep : Endpoint) :
    stepChecked streamEnEp ep.maxpacket = step streamEnEp ep := by
  funext s e
  unfold stepChecked step
  cases s.rest with
  | nil => rfl
  | cons i rest =>
    dsimp only
    rw [State.visitChecked_eq]

theorem noFault_of_pos {maxpacket : ℕ} (h : 0 < maxpacket) (streamEnEp : BitVec 32) (s : State) :
    NoFault streamEnEp maxpacket s := by
  intro i rest e _
  rw [State.visitChecked_eq streamEnEp ⟨maxpacket, h⟩]
  exact nofun

/-! ### Without -/

/-- A URB to a device, or a request of a gadget driver, of one byte. -/
def byteUrb : Urb := ⟨1, 3, 0, 0, fun _ => 0, 1, 0⟩
def byteRequest : Request := ⟨fun _ => 0, 1, 0, false, -eInProgress, 0⟩

/-- The first byte is enough. -/
theorem fault_of_zero : ¬NoFault 0 0
    (.start byteUrb (fun _ => byteRequest) 1 (1 : BitVec 32).toInt (-eInProgress)) :=
  fun h => h 0 [] ⟨fun _ => true, 0⟩ rfl (by rfl)

/-! ## What is accepted -/

theorem bulkAllows_zero (speed : UsbSpeed) : bulkAllows speed 0 = false := by
  cases speed <;> rfl

theorem intAllows_zero (speed : UsbSpeed) : intAllows speed 0 = true := by
  cases speed <;> rfl

theorem isocAllows_zero (speed : UsbSpeed) :
    isocAllows speed 0 = true ↔ speed ∈ [.full, .high, .super] := by
  cases speed <;> decide

theorem typeAllows_zero (name : List Char) (speed : UsbSpeed) {desc : UsbEndpointDescriptor}
    (hmax : usbEndpointMaxp desc = 0) :
    typeAllows name speed desc = true ↔
      (usbEndpointType desc = usbEndpointXferInt ∧ strstr name isoPart = false) ∨
      (usbEndpointType desc = usbEndpointXferIsoc ∧ strstr name bulkPart = false ∧
        strstr name intPart = false ∧ speed ∈ [.full, .high, .super]) := by
  rw [← isocAllows_zero]
  unfold typeAllows
  rw [hmax]
  by_cases hbulk : usbEndpointType desc = usbEndpointXferBulk
  · simp [hbulk, bulkAllows_zero, usbEndpointXferBulk, usbEndpointXferInt, usbEndpointXferIsoc]
  · rw [if_neg hbulk]
    by_cases hint : usbEndpointType desc = usbEndpointXferInt
    · simp [hint, intAllows_zero, usbEndpointXferInt, usbEndpointXferIsoc]
    · rw [if_neg hint]
      by_cases hisoc : usbEndpointType desc = usbEndpointXferIsoc
      · simp [hisoc, usbEndpointXferInt, usbEndpointXferIsoc, and_assoc]
      · simp [hint, hisoc]

/-- What an endpoint that has been enabled has been checked for, and its packet size. -/
theorem dummyEnable_eq_zero {dum : GadgetState} {ep ep' : DummyEp} {desc : UsbEndpointDescriptor}
    (h : dummyEnable dum ep (some desc) = (0, ep')) :
    ep'.maxpacket = usbEndpointMaxp desc ∧ ep.desc = none ∧ ep.name ≠ ep0name ∧
      desc.bDescriptorType = usbDtEndpoint ∧ dum.driver = true ∧ dum.isEnabled = true ∧
      typeAllows ep.name dum.speed desc = true ∧
      (usbSsMaxStreams ep.compDesc = 0 ∨ usbEndpointType desc = usbEndpointXferBulk) := by
  simp only [dummyEnable] at h
  split_ifs at h with hopen hdum htype hstreams hbulk
  · cases h
  · cases h
  · cases h
  · cases h
  all_goals
    simp only [Bool.or_eq_true, not_or, Bool.not_eq_true, decide_eq_true_eq] at hopen
    simp only [Bool.or_eq_true, not_or, Bool.not_eq_true', Bool.not_eq_false] at hdum
    obtain ⟨⟨hdesc, hname⟩, hdt⟩ := hopen
    obtain rfl := (Prod.mk.inj h).2
    refine ⟨rfl, by simpa using hdesc, hname, by simpa using hdt, hdum.1, hdum.2,
      by simpa using htype, ?_⟩
  · exact .inr (not_not.mp hbulk)
  · exact .inl (not_not.mp hstreams)

/-- A descriptor with packets of no bytes is accepted. -/
theorem dummyEnable_of_zeroPacket {dum : GadgetState} {ep : DummyEp}
    {desc : UsbEndpointDescriptor} (h : ZeroPacket dum ep desc) :
    ∃ ep', dummyEnable dum ep (some desc) = (0, ep') ∧ ep'.maxpacket = 0 := by
  obtain ⟨hmax, hdesc, hname, hdt, hdriver, henabled, hstreams, htype⟩ := h
  have hallows := (typeAllows_zero ep.name dum.speed hmax).mpr htype
  refine ⟨{ ep with
    maxpacket := usbEndpointMaxp desc, desc := some desc, halted := false, wedged := false },
    ?_, hmax⟩
  simp [dummyEnable, hdesc, hname, hdt, hdriver, henabled, hallows, hstreams]

/-- Transfers do not divide by zero exactly if `dummy_enable` is not given packets of no bytes
in a descriptor that it accepts. -/
theorem transfersSafely_iff (dum : GadgetState) (ep : DummyEp)
    (desc : Option UsbEndpointDescriptor) :
    TransfersSafely dum ep desc ↔ ∀ d, desc = some d → ¬ZeroPacket dum ep d := by
  constructor
  · rintro h d rfl hzero
    obtain ⟨ep', hep', hmax⟩ := dummyEnable_of_zeroPacket hzero
    have hsafe := h ep' hep' 0 byteUrb (fun _ => byteRequest) 1 1 (-eInProgress) []
    rw [hmax] at hsafe
    exact fault_of_zero hsafe
  · intro h ep' hep' streamEnEp urb reqs n limit status es
    cases desc with
    | none => cases hep'
    | some d =>
      obtain ⟨hmax, hdesc, hname, hdt, hdriver, henabled, htype, hstreams⟩ :=
        dummyEnable_eq_zero hep'
      have hpos : 0 < ep'.maxpacket := by
        by_contra hzero
        have hzero : usbEndpointMaxp d = 0 := by omega
        have htype := (typeAllows_zero _ _ hzero).mp htype
        refine h d rfl ⟨hzero, hdesc, hname, hdt, hdriver, henabled, ?_, htype⟩
        apply hstreams.resolve_right
        intro hbulk
        rcases htype with ⟨hint, -⟩ | ⟨hisoc, -⟩
        · exact absurd (hbulk.symm.trans hint) (by decide)
        · exact absurd (hbulk.symm.trans hisoc) (by decide)
      rw [always_iff]
      exact fun _ s _ _ => noFault_of_pos hpos streamEnEp s

/-- `ep5in-int`, not enabled. -/
def interruptEp : DummyEp where
  name := ['e', 'p', '5', 'i', 'n', '-', 'i', 'n', 't']
  compDesc := none
  desc := none
  maxpacket := 64
  streamEn := false
  halted := false
  wedged := false

/-- An interrupt endpoint of a high-speed gadget is enabled with packets of no bytes. -/
theorem zero_packet_faults :
    ¬TransfersSafely ⟨true, true, .high⟩ interruptEp (some ⟨5, 0x85, 3, 0⟩) := by
  intro h
  have hsafe := h _ rfl 0 byteUrb (fun _ => byteRequest) 1 1 (-eInProgress) []
  exact fault_of_zero hsafe

end FuzzUSB.DummyHcd
