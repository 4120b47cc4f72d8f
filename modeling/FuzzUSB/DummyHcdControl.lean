import FuzzUSB.DummyHcdHub
import FuzzUSB.DummyHcdQueues

/-!
# Control requests that the gadget driver does not see

`handle_control_request` keeps the device status and the halts of endpoints, which the driver
sets and clears as well.
-/

namespace FuzzUSB.DummyHcd.Ctrl
open Transition CLayout
open Udc (EpIdx dummyEndpoints usbDirIn)

def eOpNotSupp : ℤ := 95
def eAgain : ℤ := 11

/-- `Dev_Request` -/
def devRequest : Byte := 0x00
def epRequest : Byte := 0x02
def devInRequest : Byte := 0x80
def intfInRequest : Byte := 0x81
def epInRequest : Byte := 0x82

def usbReqGetStatus : Byte := 0
def usbReqClearFeature : Byte := 1
def usbReqSetFeature : Byte := 3
def usbReqSetAddress : Byte := 5

def usbDeviceRemoteWakeup : BitVec 16 := 1
def usbDeviceBHnpEnable : BitVec 16 := 3
def usbDeviceAHnpSupport : BitVec 16 := 4
def usbDeviceAAltHnpSupport : BitVec 16 := 5
def usbDeviceU1Enable : BitVec 16 := 48
def usbDeviceU2Enable : BitVec 16 := 49
def usbDeviceLtmEnable : BitVec 16 := 50

def usbDevStatU1Enabled : BitVec 16 := 2
def usbDevStatU2Enabled : BitVec 16 := 3
def usbDevStatLtmEnabled : BitVec 16 := 4

/-- `struct usb_ctrlrequest` -/
structure UsbCtrlrequest where
  bRequestType : Byte
  bRequest : Byte
  wValue : BitVec 16
  wIndex : BitVec 16

/-- `struct dummy` -/
structure Dummy where
  devstatus : BitVec 16
  address : ℕ
  halted : EpIdx → Bool
  wedged : EpIdx → Bool
  /-- `bEndpointAddress` of the descriptor. -/
  desc : EpIdx → Option Byte
  queueEmpty : EpIdx → Bool
  driver : Bool
  intsEnabled : Bool
  isActive : Bool
  bHnpEnable : Bool
  aHnpSupport : Bool
  aAltHnpSupport : Bool
  isSelfpowered : Bool

/-- What `handle_control_request` returns, and what it writes: `*status`, the transfer buffer
and its length. -/
structure Outcome where
  retVal : ℤ
  status : Option ℤ
  buf : List Byte
  actualLength : Option ℕ
  dum : Dummy

/-- What is written to the transfer buffer is counted, and fits into it. -/
def Outcome.Fits (o : Outcome) (len : ℕ) : Prop :=
  o.buf.length ≤ len ∧ o.actualLength.getD 0 = o.buf.length

namespace Dummy

variable (d : Dummy)

def findEndpoint (address : Byte) : Option EpIdx :=
  if !d.isActive then none
  else if !d.intsEnabled then none
  else if address &&& ~~~usbDirIn = 0 then some 0
  else (List.finRange dummyEndpoints).find? fun i => i ≠ 0 && d.desc i = some address

/-- The endpoint that `w_index` names. -/
def indexed (setup : UsbCtrlrequest) : Option EpIdx := d.findEndpoint (setup.wIndex.setWidth 8)

def setBit (w : BitVec 16) : Dummy := { d with devstatus := d.devstatus ||| 1#16 <<< w.toNat }

def clearBit (w : BitVec 16) : Dummy :=
  { d with devstatus := d.devstatus &&& ~~~(1#16 <<< w.toNat) }

def unhandled : Outcome := ⟨1, none, [], none, d⟩

def handled : Outcome := ⟨0, some 0, [], none, d⟩

def unsupported : Outcome := ⟨-eOpNotSupp, none, [], none, d⟩

/-- A feature that only a USB 3 bus has. -/
def ifUsb3 (usb3 : Bool) (o : Outcome) : Outcome := if usb3 then o else d.unsupported

/-- `USB_REQ_SET_FEATURE` of the device -/
def setFeature (usb3 : Bool) (wValue : BitVec 16) : Outcome :=
  if wValue = usbDeviceRemoteWakeup then (d.setBit wValue).handled
  else if wValue = usbDeviceBHnpEnable then ({ d with bHnpEnable := true }.setBit wValue).handled
  else if wValue = usbDeviceAHnpSupport then ({ d with aHnpSupport := true }.setBit wValue).handled
  else if wValue = usbDeviceAAltHnpSupport then
    ({ d with aAltHnpSupport := true }.setBit wValue).handled
  else if wValue = usbDeviceU1Enable then d.ifUsb3 usb3 (d.setBit usbDevStatU1Enabled).handled
  else if wValue = usbDeviceU2Enable then d.ifUsb3 usb3 (d.setBit usbDevStatU2Enabled).handled
  else if wValue = usbDeviceLtmEnable then d.ifUsb3 usb3 (d.setBit usbDevStatLtmEnabled).handled
  else d.unsupported

/-- `USB_REQ_CLEAR_FEATURE` of the device -/
def clearFeature (usb3 : Bool) (wValue : BitVec 16) : Outcome :=
  if wValue = usbDeviceRemoteWakeup then (d.clearBit wValue).handled
  else if wValue = usbDeviceU1Enable then d.ifUsb3 usb3 (d.clearBit usbDevStatU1Enabled).handled
  else if wValue = usbDeviceU2Enable then d.ifUsb3 usb3 (d.clearBit usbDevStatU2Enabled).handled
  else if wValue = usbDeviceLtmEnable then
    d.ifUsb3 usb3 (d.clearBit usbDevStatLtmEnabled).handled
  else d.unsupported

def setHalted (ep : EpIdx) (value : Bool) : Dummy :=
  { d with halted := Function.update d.halted ep value }

/-- `USB_REQ_SET_FEATURE` of an endpoint -/
def setEpHalt (setup : UsbCtrlrequest) : Outcome :=
  match d.indexed setup with
  | none => d.unsupported
  | some ep => if ep = 0 then d.unsupported else (d.setHalted ep true).handled

/-- `USB_REQ_CLEAR_FEATURE` of an endpoint -/
def clearEpHalt (setup : UsbCtrlrequest) : Outcome :=
  match d.indexed setup with
  | none => d.unsupported
  | some ep => if d.wedged ep then d.handled else (d.setHalted ep false).handled

/-- The answer of `USB_REQ_GET_STATUS`, with `len` bytes in the transfer buffer. -/
def answer (status : Byte) (len : ℕ) : Outcome :=
  ⟨0, some 0, [status, 0].take len, some (min 2 len), d⟩

/-- `USB_REQ_GET_STATUS` -/
def getStatus (setup : UsbCtrlrequest) (len : ℕ) : Outcome :=
  if setup.bRequestType = epInRequest then
    if len > 0 then
      match d.indexed setup with
      | none => d.unsupported
      | some ep => d.answer (if d.halted ep then 1 else 0) len
    else d.answer 0 len
  else if setup.bRequestType = devInRequest then d.answer (d.devstatus.setWidth 8) len
  else if setup.bRequestType = intfInRequest then d.answer 0 len
  else d.unhandled

/-- `handle_control_request`, for a transfer buffer of `len` bytes. -/
def handleControlRequest (usb3 : Bool) (setup : UsbCtrlrequest) (len : ℕ) : Outcome :=
  if setup.bRequest = usbReqSetAddress then
    if setup.bRequestType = devRequest then { d with address := setup.wValue.toNat }.handled
    else d.unhandled
  else if setup.bRequest = usbReqSetFeature then
    if setup.bRequestType = devRequest then d.setFeature usb3 setup.wValue
    else if setup.bRequestType = epRequest then d.setEpHalt setup
    else d.unhandled
  else if setup.bRequest = usbReqClearFeature then
    if setup.bRequestType = devRequest then d.clearFeature usb3 setup.wValue
    else if setup.bRequestType = epRequest then d.clearEpHalt setup
    else d.unhandled
  else if setup.bRequest = usbReqGetStatus then d.getStatus setup len
  else d.unhandled

/-- The control stage in `dummy_timer`. -/
def control (usb3 : Bool) (setup : UsbCtrlrequest) (len : ℕ) : Outcome :=
  (d.setHalted 0 false).handleControlRequest usb3 setup len

theorem fits_answer (status : Byte) (len : ℕ) : (d.answer status len).Fits len := by
  simp [Outcome.Fits, answer, Nat.min_comm]

theorem fits_getStatus (setup : UsbCtrlrequest) (len : ℕ) : (d.getStatus setup len).Fits len := by
  unfold getStatus
  split_ifs
  · split
    · exact ⟨Nat.zero_le _, rfl⟩
    · exact fits_answer _ _ _
  · exact fits_answer _ _ _
  · exact fits_answer _ _ _
  · exact fits_answer _ _ _
  · exact ⟨Nat.zero_le _, rfl⟩

theorem fits_handled (len : ℕ) : d.handled.Fits len := ⟨Nat.zero_le _, rfl⟩

theorem fits_unhandled (len : ℕ) : d.unhandled.Fits len := ⟨Nat.zero_le _, rfl⟩

theorem fits_unsupported (len : ℕ) : d.unsupported.Fits len := ⟨Nat.zero_le _, rfl⟩

theorem fits_ite {c : Prop} [Decidable c] {o o' : Outcome} {len : ℕ} (h : o.Fits len)
    (h' : o'.Fits len) : (if c then o else o').Fits len := by
  split
  · exact h
  · exact h'

theorem fits_setFeature (usb3 : Bool) (wValue : BitVec 16) (len : ℕ) :
    (d.setFeature usb3 wValue).Fits len := by
  unfold setFeature
  repeat' apply fits_ite
  all_goals first
    | exact fits_handled _ len
    | exact fits_unsupported _ len

theorem fits_clearFeature (usb3 : Bool) (wValue : BitVec 16) (len : ℕ) :
    (d.clearFeature usb3 wValue).Fits len := by
  unfold clearFeature
  repeat' apply fits_ite
  all_goals first
    | exact fits_handled _ len
    | exact fits_unsupported _ len

theorem fits_setEpHalt (setup : UsbCtrlrequest) (len : ℕ) : (d.setEpHalt setup).Fits len := by
  unfold setEpHalt
  split
  · exact fits_unsupported d len
  · exact fits_ite (fits_unsupported d len) (fits_handled _ len)

theorem fits_clearEpHalt (setup : UsbCtrlrequest) (len : ℕ) : (d.clearEpHalt setup).Fits len := by
  unfold clearEpHalt
  split
  · exact fits_unsupported d len
  · exact fits_ite (fits_handled d len) (fits_handled _ len)

theorem fits_control (usb3 : Bool) (setup : UsbCtrlrequest) (len : ℕ) :
    (d.control usb3 setup len).Fits len := by
  unfold control handleControlRequest
  refine fits_ite (fits_ite (fits_handled _ len) (fits_unhandled _ len)) ?_
  refine fits_ite (fits_ite (fits_setFeature _ usb3 _ len)
    (fits_ite (fits_setEpHalt _ setup len) (fits_unhandled _ len))) ?_
  refine fits_ite (fits_ite (fits_clearFeature _ usb3 _ len)
    (fits_ite (fits_clearEpHalt _ setup len) (fits_unhandled _ len))) ?_
  exact fits_ite (fits_getStatus _ setup len) (fits_unhandled _ len)

/-! ## The driver's side -/

def dummySetHaltAndWedge (ep : EpIdx) (value wedged : Bool) : ℤ × Dummy :=
  if !d.driver then (-eShutdown, d)
  else if !value then
    (0, { d.setHalted ep false with wedged := Function.update d.wedged ep false })
  else if (d.desc ep).any (fun address => address &&& usbDirIn ≠ 0) && !d.queueEmpty ep then
    (-eAgain, d)
  else if wedged then
    (0, { d.setHalted ep true with wedged := Function.update d.wedged ep true })
  else (0, d.setHalted ep true)

def dummySetHalt (ep : EpIdx) (value : Bool) : ℤ × Dummy := d.dummySetHaltAndWedge ep value false

def dummySetWedge (ep : EpIdx) : ℤ × Dummy :=
  if ep = 0 then (-eInval, d) else d.dummySetHaltAndWedge ep true true

def dummySetSelfpowered (value : Bool) : Dummy :=
  if value then { d with isSelfpowered := true }.setBit 0
  else { d with isSelfpowered := false }.clearBit 0

/-- A port reset keeps the self powered feature only. -/
def portReset : Dummy := { d with devstatus := d.devstatus &&& 1#16 <<< 0 }

/-- `dummy_enable`, if the descriptor is all right for the endpoint. -/
def dummyEnable (ep : EpIdx) (address : Byte) : Dummy :=
  if ep = 0 ∨ d.desc ep ≠ none ∨ !d.driver then d
  else
    { d.setHalted ep false with
      desc := Function.update d.desc ep (some address)
      wedged := Function.update d.wedged ep false }

def dummyDisable (ep : EpIdx) : Dummy :=
  if ep = 0 ∨ d.desc ep = none then d else { d with desc := Function.update d.desc ep none }

def dummyUdcStart : Dummy := { d with devstatus := 0, driver := true, intsEnabled := true }

def dummyUdcStop : Dummy := { d with intsEnabled := false, address := 0, driver := false }

end Dummy

/-! ## The device of chapter 9 -/

/-- The features of a device. -/
inductive Feature
  | selfPowered
  | remoteWakeup
  | bHnpEnable
  | aHnpSupport
  | aAltHnpSupport
  | u1Enable
  | u2Enable
  | ltmEnable
  deriving DecidableEq

namespace Feature

/-- The place of a feature in the device status. -/
def bit : Feature → ℕ
  | selfPowered => 0
  | remoteWakeup => 1
  | u1Enable => 2
  | bHnpEnable | u2Enable => 3
  | aHnpSupport | ltmEnable => 4
  | aAltHnpSupport => 5

/-- The feature that `wValue` selects. -/
def ofSelector (wValue : BitVec 16) : Option Feature :=
  if wValue = usbDeviceRemoteWakeup then some remoteWakeup
  else if wValue = usbDeviceBHnpEnable then some bHnpEnable
  else if wValue = usbDeviceAHnpSupport then some aHnpSupport
  else if wValue = usbDeviceAAltHnpSupport then some aAltHnpSupport
  else if wValue = usbDeviceU1Enable then some u1Enable
  else if wValue = usbDeviceU2Enable then some u2Enable
  else if wValue = usbDeviceLtmEnable then some ltmEnable
  else none

/-- A host can set the feature. -/
def settable (usb3 : Bool) : Feature → Bool
  | selfPowered => false
  | u1Enable | u2Enable | ltmEnable => usb3
  | _ => true

/-- A host can clear the feature. The HNP features stay until a reset. -/
def clearable (usb3 : Bool) : Feature → Bool
  | remoteWakeup => true
  | u1Enable | u2Enable | ltmEnable => usb3
  | _ => false

theorem bit_lt (f : Feature) : f.bit < 16 := by cases f <;> decide

end Feature

/-- The halt feature of an endpoint. Only the driver ends a wedge. -/
inductive Stall
  | running
  | halted
  | wedged
  deriving DecidableEq

/-- The host clears the halt. -/
def Stall.clear : Stall → Stall
  | wedged => wedged
  | _ => running

/-- It is halted by the host, or by the driver. -/
def Stall.halt : Stall → Stall
  | wedged => wedged
  | _ => halted

inductive Event
  | control (usb3 : Bool) (setup : UsbCtrlrequest) (len : ℕ)
  | setHalt (ep : EpIdx) (value : Bool)
  | setWedge (ep : EpIdx)
  | setSelfpowered (value : Bool)
  | portReset
  | enable (ep : EpIdx) (address : Byte)
  | disable (ep : EpIdx)
  | udcStart
  | udcStop
  /-- The queue of an endpoint, or the port, changes. -/
  | queue (ep : EpIdx) (isEmpty : Bool)
  | port (isActive : Bool)

/-- The driver next to what it should be: the features that are on, and the halts. -/
structure State where
  dum : Dummy
  features : Feature → Bool
  stall : EpIdx → Stall

def Dummy.next (d : Dummy) : Event → Dummy
  | .control usb3 setup len => (d.control usb3 setup len).dum
  | .setHalt ep value => (d.dummySetHalt ep value).2
  | .setWedge ep => (d.dummySetWedge ep).2
  | .setSelfpowered value => d.dummySetSelfpowered value
  | .portReset => d.portReset
  | .enable ep address => d.dummyEnable ep address
  | .disable ep => d.dummyDisable ep
  | .udcStart => d.dummyUdcStart
  | .udcStop => d.dummyUdcStop
  | .queue ep isEmpty => { d with queueEmpty := Function.update d.queueEmpty ep isEmpty }
  | .port isActive => { d with isActive }

/-- The feature that a request of the device sets. -/
def Event.sets : Event → Option Feature
  | .control usb3 setup _ =>
    if setup.bRequest = usbReqSetFeature ∧ setup.bRequestType = devRequest then
      (Feature.ofSelector setup.wValue).filter (·.settable usb3)
    else none
  | _ => none

def Event.clears : Event → Option Feature
  | .control usb3 setup _ =>
    if setup.bRequest = usbReqClearFeature ∧ setup.bRequestType = devRequest then
      (Feature.ofSelector setup.wValue).filter (·.clearable usb3)
    else none
  | _ => none

/-- The features that are on after an event. -/
def nextFeatures (on : Feature → Bool) (e : Event) : Feature → Bool :=
  match e with
  | .setSelfpowered value => Function.update on .selfPowered value
  | .portReset => fun f => on f && f = .selfPowered
  | .udcStart => fun _ => false
  | e =>
    match e.sets, e.clears with
    | some f, _ => Function.update on f true
    | none, some f => Function.update on f false
    | none, none => on

/-- The driver may halt the endpoint now. -/
def Dummy.mayHalt (d : Dummy) (ep : EpIdx) : Bool :=
  !((d.desc ep).any (fun address => address &&& usbDirIn ≠ 0) && !d.queueEmpty ep)

/-- The halts after an event. -/
def nextStall (d : Dummy) (stall : EpIdx → Stall) : Event → EpIdx → Stall
  | .control _ setup _ =>
    -- A control request ends a halt of endpoint 0.
    let stall := Function.update stall 0 .running
    match d.indexed setup with
    | none => stall
    | some ep =>
      if setup.bRequestType ≠ epRequest then stall
      else if setup.bRequest = usbReqSetFeature ∧ ep ≠ 0 then
        Function.update stall ep (stall ep).halt
      else if setup.bRequest = usbReqClearFeature then
        Function.update stall ep (stall ep).clear
      else stall
  | .setHalt ep value =>
    if !d.driver then stall
    else if !value then Function.update stall ep .running
    else if d.mayHalt ep then Function.update stall ep (stall ep).halt
    else stall
  | .setWedge ep =>
    if d.driver && d.mayHalt ep && ep ≠ 0 then Function.update stall ep .wedged else stall
  | .enable ep _ =>
    if ep ≠ 0 ∧ d.desc ep = none ∧ d.driver then Function.update stall ep .running else stall
  | _ => stall

def step (s : State) (e : Event) : Option State :=
  some ⟨s.dum.next e, nextFeatures s.features e, nextStall s.dum s.stall e⟩

/-- `init_dummy_udc_hw` -/
def start (queueEmpty : EpIdx → Bool) : State where
  dum := ⟨0, 0, fun _ => false, fun _ => false, fun _ => none, queueEmpty, false, false, false,
    false, false, false, false⟩
  features _ := false
  stall _ := .running

/-! ## The device status -/

/-- The device status has the bits of the features that are on. -/
def Reports (devstatus : BitVec 16) (on : Feature → Bool) : Prop :=
  ∀ i, devstatus.getLsbD i = true ↔ ∃ f, on f = true ∧ f.bit = i

/-- No feature is cleared while another one with its bit is on. -/
def ClearsApart (s : State) (e : Event) : Prop :=
  ∀ f, e.clears = some f → ∀ g, g ≠ f → g.bit = f.bit → s.features g = false

section

variable {w : BitVec 16} {on : Feature → Bool} {f : Feature}

theorem getLsbD_bit (f : Feature) (i : ℕ) : (1#16 <<< f.bit).getLsbD i = decide (i = f.bit) := by
  have hlt := f.bit_lt
  rw [← BitVec.twoPow_eq, BitVec.getLsbD_twoPow]
  simp [hlt, eq_comm]

theorem Reports.set (h : Reports w on) (f : Feature) :
    Reports (w ||| 1#16 <<< f.bit) (Function.update on f true) := by
  intro i
  rw [BitVec.getLsbD_or, getLsbD_bit, Bool.or_eq_true, h i, decide_eq_true_eq]
  constructor
  · rintro (⟨g, hg, rfl⟩ | rfl)
    · by_cases hgf : g = f
      · exact ⟨f, Function.update_self _ _ _, by rw [hgf]⟩
      · exact ⟨g, by rwa [Function.update_of_ne hgf], rfl⟩
    · exact ⟨f, Function.update_self _ _ _, rfl⟩
  · rintro ⟨g, hg, rfl⟩
    by_cases hgf : g = f
    · exact .inr (by rw [hgf])
    · rw [Function.update_of_ne hgf] at hg
      exact .inl ⟨g, hg, rfl⟩

/-- Clearing a bit clears one feature, if no other one with the bit is on. -/
theorem reports_clear_iff (h : Reports w on) (f : Feature) :
    Reports (w &&& ~~~(1#16 <<< f.bit)) (Function.update on f false) ↔
      ∀ g, g ≠ f → g.bit = f.bit → on g = false := by
  have hbits (i : ℕ) : (w &&& ~~~(1#16 <<< f.bit)).getLsbD i = true ↔
      (∃ g, on g = true ∧ g.bit = i) ∧ i ≠ f.bit := by
    rw [BitVec.getLsbD_and, BitVec.getLsbD_not, getLsbD_bit, Bool.and_eq_true, h i]
    refine and_congr_right fun ⟨g, _, hg⟩ => ?_
    have hlt := g.bit_lt
    simp [← hg, hlt]
  constructor
  · intro hclear g hne hbit
    by_contra hon
    have hg := (hclear f.bit).mpr ⟨g, by simpa [Function.update_of_ne hne] using hon, hbit⟩
    exact ((hbits f.bit).mp hg).2 rfl
  · intro hapart i
    rw [hbits]
    constructor
    · rintro ⟨⟨g, hg, rfl⟩, hne⟩
      have hgf : g ≠ f := fun heq => hne (by rw [heq])
      exact ⟨g, by rwa [Function.update_of_ne hgf], rfl⟩
    · rintro ⟨g, hg, rfl⟩
      have hgf : g ≠ f := by
        rintro rfl
        simp at hg
      rw [Function.update_of_ne hgf] at hg
      refine ⟨⟨g, hg, rfl⟩, fun hbit => ?_⟩
      simp [hapart g hgf hbit] at hg

/-- What a request does to the device status. -/
def statusAfter (w : BitVec 16) : Option Feature → Option Feature → BitVec 16
  | some f, _ => w ||| 1#16 <<< f.bit
  | none, some f => w &&& ~~~(1#16 <<< f.bit)
  | none, none => w

theorem setFeature_devstatus (d : Dummy) (usb3 : Bool) (wValue : BitVec 16) :
    (d.setFeature usb3 wValue).dum.devstatus =
      statusAfter d.devstatus ((Feature.ofSelector wValue).filter (·.settable usb3)) none := by
  unfold Dummy.setFeature Feature.ofSelector
  split_ifs with h
  all_goals cases usb3 <;> simp_all [Dummy.setBit, Dummy.handled, Dummy.unsupported,
    Dummy.ifUsb3, Feature.settable, Feature.bit, statusAfter, Option.filter,
    usbDeviceRemoteWakeup, usbDeviceBHnpEnable, usbDeviceAHnpSupport, usbDeviceAAltHnpSupport,
    usbDevStatU1Enabled, usbDevStatU2Enabled, usbDevStatLtmEnabled]

theorem clearFeature_devstatus (d : Dummy) (usb3 : Bool) (wValue : BitVec 16) :
    (d.clearFeature usb3 wValue).dum.devstatus =
      statusAfter d.devstatus none ((Feature.ofSelector wValue).filter (·.clearable usb3)) := by
  unfold Dummy.clearFeature Feature.ofSelector
  split_ifs with h
  all_goals cases usb3 <;> simp_all [Dummy.clearBit, Dummy.handled, Dummy.unsupported,
    Dummy.ifUsb3, Feature.clearable, Feature.bit, statusAfter, Option.filter,
    usbDeviceRemoteWakeup, usbDeviceBHnpEnable, usbDeviceAHnpSupport, usbDeviceAAltHnpSupport,
    usbDeviceU1Enable, usbDeviceU2Enable, usbDeviceLtmEnable,
    usbDevStatU1Enabled, usbDevStatU2Enabled, usbDevStatLtmEnabled]

@[simp] theorem setHalted_devstatus (d : Dummy) (ep : EpIdx) (value : Bool) :
    (d.setHalted ep value).devstatus = d.devstatus := rfl

theorem setEpHalt_devstatus (d : Dummy) (setup : UsbCtrlrequest) :
    (d.setEpHalt setup).dum.devstatus = d.devstatus := by
  unfold Dummy.setEpHalt
  split
  · rfl
  · split <;> rfl

theorem clearEpHalt_devstatus (d : Dummy) (setup : UsbCtrlrequest) :
    (d.clearEpHalt setup).dum.devstatus = d.devstatus := by
  unfold Dummy.clearEpHalt
  split
  · rfl
  · split <;> rfl

theorem getStatus_dum (d : Dummy) (setup : UsbCtrlrequest) (len : ℕ) :
    (d.getStatus setup len).dum = d := by
  unfold Dummy.getStatus
  split_ifs
  · split <;> rfl
  all_goals rfl

theorem control_devstatus (d : Dummy) (usb3 : Bool) (setup : UsbCtrlrequest) (len : ℕ) :
    (d.control usb3 setup len).dum.devstatus = statusAfter d.devstatus
      (Event.control usb3 setup len).sets (Event.control usb3 setup len).clears := by
  unfold Dummy.control Dummy.handleControlRequest Event.sets Event.clears
  split_ifs <;> simp_all [statusAfter, setFeature_devstatus, clearFeature_devstatus,
    setEpHalt_devstatus, clearEpHalt_devstatus, getStatus_dum, Dummy.handled, Dummy.unhandled,
    usbReqSetFeature, usbReqClearFeature, usbReqSetAddress]

theorem dummySetHaltAndWedge_devstatus (d : Dummy) (ep : EpIdx) (value wedged : Bool) :
    (d.dummySetHaltAndWedge ep value wedged).2.devstatus = d.devstatus := by
  unfold Dummy.dummySetHaltAndWedge
  split_ifs <;> rfl

theorem reports_portReset (h : Reports w on) :
    Reports (w &&& 1#16 <<< Feature.selfPowered.bit) fun f => on f && f = .selfPowered := by
  intro i
  rw [BitVec.getLsbD_and, getLsbD_bit, Bool.and_eq_true, h i, decide_eq_true_eq]
  constructor
  · rintro ⟨⟨g, hg, rfl⟩, hbit⟩
    have hself : g = .selfPowered := by cases g <;> simp_all [Feature.bit]
    exact ⟨g, by simpa [hself] using hg, rfl⟩
  · rintro ⟨g, hg, rfl⟩
    simp only [Bool.and_eq_true, decide_eq_true_eq] at hg
    exact ⟨⟨g, hg.1, rfl⟩, by rw [hg.2]⟩

theorem reports_step_iff {s t : State} {e : Event} (hs : Reports s.dum.devstatus s.features)
    (h : step s e = some t) : Reports t.dum.devstatus t.features ↔ ClearsApart s e := by
  obtain rfl := Option.some.inj h
  have hquiet (he : e.clears = none) : ClearsApart s e := fun f hf => by simp [he] at hf
  cases e with
  | control usb3 setup len =>
    simp only [Dummy.next, control_devstatus, nextFeatures]
    cases hsets : (Event.control usb3 setup len).sets with
    | some f =>
      refine iff_of_true (hs.set f) (hquiet ?_)
      by_contra hclears
      simp only [Event.sets, Event.clears, ite_eq_right_iff, Classical.not_imp] at hsets hclears
      simp [hclears.1, usbReqSetFeature, usbReqClearFeature] at hsets
    | none =>
      cases hclears : (Event.control usb3 setup len).clears with
      | some f =>
        simp only [statusAfter, reports_clear_iff hs, ClearsApart, hclears, Option.some.injEq,
          forall_eq']
      | none => exact iff_of_true hs (hquiet hclears)
  | setHalt ep value =>
    refine iff_of_true ?_ (hquiet rfl)
    exact (dummySetHaltAndWedge_devstatus s.dum ep value false).symm ▸ hs
  | setWedge ep =>
    refine iff_of_true ?_ (hquiet rfl)
    simp only [Dummy.next, Dummy.dummySetWedge]
    split
    · exact hs
    · exact (dummySetHaltAndWedge_devstatus s.dum ep true true).symm ▸ hs
  | setSelfpowered value =>
    refine iff_of_true ?_ (hquiet rfl)
    cases value with
    | true => exact hs.set .selfPowered
    | false =>
      refine (reports_clear_iff hs .selfPowered).mpr fun g hg hbit => ?_
      cases g <;> simp [Feature.bit] at hg hbit
  | portReset => exact iff_of_true (reports_portReset hs) (hquiet rfl)
  | enable ep address =>
    refine iff_of_true ?_ (hquiet rfl)
    simp only [Dummy.next, Dummy.dummyEnable]
    split <;> exact hs
  | disable ep =>
    refine iff_of_true ?_ (hquiet rfl)
    simp only [Dummy.next, Dummy.dummyDisable]
    split <;> exact hs
  | udcStart =>
    refine iff_of_true (fun i => ?_) (hquiet rfl)
    simp [Dummy.next, Dummy.dummyUdcStart, nextFeatures]
  | udcStop | queue | port => exact iff_of_true hs (hquiet rfl)

end

/-- In every run, the device status has at each moment the bits of the features that are on,
exactly if no feature is cleared while another one with its bit is on: not U2 while B-HNP is
enabled, and not LTM while A-HNP is. -/
theorem features_reported_iff (queueEmpty : EpIdx → Bool) (es : List Event) :
    Always step (fun s => Reports s.dum.devstatus s.features) (start queueEmpty) es ↔
      AlwaysStep step ClearsApart (start queueEmpty) es := by
  apply always_iff_alwaysStep (J := fun _ => True) (fun _ _ _ _ _ => trivial)
  · exact fun s e t _ hs h => reports_step_iff hs h
  · trivial
  · intro i
    simp [start]

def deviceFeature (bRequest : Byte) (wValue : BitVec 16) : Event :=
  .control true ⟨devRequest, bRequest, wValue, 0⟩ 0

/-- On a USB 3 bus, a host that clears U2 also takes B-HNP out of the device status. -/
example : ((runs step (start fun _ => true)
      [deviceFeature usbReqSetFeature usbDeviceBHnpEnable,
        deviceFeature usbReqSetFeature usbDeviceU2Enable,
        deviceFeature usbReqClearFeature usbDeviceU2Enable]).map
      fun s => (s.dum.devstatus, s.features .bHnpEnable, s.dum.bHnpEnable)) =
    some (0, true, true) := by
  decide +kernel

/-! ## The halts -/

/-- The flags of the endpoints are those of their halts. -/
structure Agrees (d : Dummy) (stall : EpIdx → Stall) : Prop where
  halted : ∀ ep, d.halted ep = true ↔ stall ep ≠ .running
  wedged : ∀ ep, d.wedged ep = true ↔ stall ep = .wedged
  ep0 : stall 0 ≠ .wedged

section

variable {d : Dummy} {stall : EpIdx → Stall}

/-- One endpoint changes. -/
theorem Agrees.update (h : Agrees d stall) {d' : Dummy} (ep : EpIdx) {halted wedged : Bool}
    {st : Stall} (hhalted : d'.halted = Function.update d.halted ep halted)
    (hwedged : d'.wedged = Function.update d.wedged ep wedged)
    (h1 : halted = true ↔ st ≠ .running) (h2 : wedged = true ↔ st = .wedged)
    (h0 : ep = 0 → st ≠ .wedged) : Agrees d' (Function.update stall ep st) := by
  refine ⟨fun q => ?_, fun q => ?_, ?_⟩
  · by_cases hq : q = ep
    · rw [hhalted, hq, Function.update_self, Function.update_self, h1]
    · rw [hhalted, Function.update_of_ne hq, Function.update_of_ne hq, h.halted]
  · by_cases hq : q = ep
    · rw [hwedged, hq, Function.update_self, Function.update_self, h2]
    · rw [hwedged, Function.update_of_ne hq, Function.update_of_ne hq, h.wedged]
  · by_cases hq : 0 = ep
    · rw [hq, Function.update_self]
      exact h0 hq.symm
    · rw [Function.update_of_ne hq]
      exact h.ep0

/-- Only `halted` of an endpoint changes. -/
theorem Agrees.setHalted (h : Agrees d stall) (ep : EpIdx) {value : Bool} {st : Stall}
    (h1 : value = true ↔ st ≠ .running) (h2 : stall ep = .wedged ↔ st = .wedged) :
    Agrees (d.setHalted ep value) (Function.update stall ep st) := by
  refine h.update ep rfl (Function.update_eq_self ep d.wedged).symm h1
    ((h.wedged ep).trans h2) fun hep hst => ?_
  exact h.ep0 (hep ▸ h2.mpr hst)

theorem Agrees.congr (h : Agrees d stall) {d' : Dummy} (hhalted : d'.halted = d.halted)
    (hwedged : d'.wedged = d.wedged) : Agrees d' stall :=
  ⟨hhalted ▸ h.halted, hwedged ▸ h.wedged, h.ep0⟩

theorem Stall.halt_ne (st : Stall) : st.halt ≠ .running := by cases st <;> decide

theorem Stall.halt_eq_wedged {st : Stall} : st = .wedged ↔ st.halt = .wedged := by
  cases st <;> decide

theorem Stall.clear_eq_wedged {st : Stall} : st = .wedged ↔ st.clear = .wedged := by
  cases st <;> decide

theorem Stall.clear_of_ne {st : Stall} (h : st ≠ .wedged) : st.clear = .running := by
  cases st <;> simp_all [Stall.clear]

theorem setFeature_flags (d : Dummy) (usb3 : Bool) (wValue : BitVec 16) :
    (d.setFeature usb3 wValue).dum.halted = d.halted ∧
      (d.setFeature usb3 wValue).dum.wedged = d.wedged := by
  unfold Dummy.setFeature
  split_ifs <;> cases usb3 <;> exact ⟨rfl, rfl⟩

theorem clearFeature_flags (d : Dummy) (usb3 : Bool) (wValue : BitVec 16) :
    (d.clearFeature usb3 wValue).dum.halted = d.halted ∧
      (d.clearFeature usb3 wValue).dum.wedged = d.wedged := by
  unfold Dummy.clearFeature
  split_ifs <;> cases usb3 <;> exact ⟨rfl, rfl⟩

/-- A request that is not for an endpoint leaves the flags. -/
theorem handleControlRequest_flags (usb3 : Bool) {setup : UsbCtrlrequest} (len : ℕ)
    (h : setup.bRequestType ≠ epRequest ∨
      (setup.bRequest ≠ usbReqSetFeature ∧ setup.bRequest ≠ usbReqClearFeature)) :
    (d.handleControlRequest usb3 setup len).dum.halted = d.halted ∧
      (d.handleControlRequest usb3 setup len).dum.wedged = d.wedged := by
  unfold Dummy.handleControlRequest
  split_ifs with h1 h2 h3 h4 h5 h6 h7 h8 h9
  all_goals first
    | exact ⟨rfl, rfl⟩
    | exact setFeature_flags d usb3 setup.wValue
    | exact clearFeature_flags d usb3 setup.wValue
    | simp [getStatus_dum]
    | grind

theorem Agrees.control (h : Agrees d stall) (usb3 : Bool) (setup : UsbCtrlrequest) (len : ℕ) :
    Agrees (d.control usb3 setup len).dum (nextStall d stall (.control usb3 setup len)) := by
  have h0 : Agrees (d.setHalted 0 false) (Function.update stall 0 .running) := by
    refine h.setHalted 0 (by simp) ?_
    simpa using h.ep0
  have hindexed : (d.setHalted 0 false).indexed setup = d.indexed setup := rfl
  have hcongr (hflags : setup.bRequestType ≠ epRequest ∨
      (setup.bRequest ≠ usbReqSetFeature ∧ setup.bRequest ≠ usbReqClearFeature)) :
      Agrees (d.control usb3 setup len).dum (Function.update stall 0 .running) :=
    have hflags := handleControlRequest_flags usb3 len hflags
    h0.congr hflags.1 hflags.2
  simp only [nextStall]
  by_cases htype : setup.bRequestType = epRequest
  · by_cases hset : setup.bRequest = usbReqSetFeature
    · have hreq : d.control usb3 setup len = (d.setHalted 0 false).setEpHalt setup := by
        simp [Dummy.control, Dummy.handleControlRequest, hset, htype, usbReqSetFeature,
          usbReqSetAddress, epRequest, devRequest]
      rw [hreq, Dummy.setEpHalt, hindexed]
      cases hep : d.indexed setup with
      | none => exact h0
      | some ep =>
        by_cases hzero : ep = 0
        · simpa [htype, hset, hzero, usbReqSetFeature, usbReqClearFeature,
            Dummy.unsupported] using h0
        · simp only [htype, hset, hzero, if_false, ne_eq, not_true_eq_false, not_false_eq_true,
            and_self, if_true]
          exact h0.setHalted ep (by simp [Stall.halt_ne]) Stall.halt_eq_wedged
    · by_cases hclear : setup.bRequest = usbReqClearFeature
      · have hreq : d.control usb3 setup len = (d.setHalted 0 false).clearEpHalt setup := by
          simp [Dummy.control, Dummy.handleControlRequest, hclear, htype, usbReqSetFeature,
            usbReqClearFeature, usbReqSetAddress, epRequest, devRequest]
        rw [hreq, Dummy.clearEpHalt, hindexed]
        cases hep : d.indexed setup with
        | none => exact h0
        | some ep =>
          have hne : ¬usbReqClearFeature = usbReqSetFeature := by decide
          simp only [htype, hclear, hne, ne_eq, not_true_eq_false, if_false, false_and, if_true]
          by_cases hwedged : (d.setHalted 0 false).wedged ep
          · -- The host does not end a wedge.
            have hst := (h0.wedged ep).mp hwedged
            have hsame : Function.update (Function.update stall 0 .running) ep
                (Function.update stall 0 .running ep).clear =
                  Function.update stall 0 .running := by
              rw [hst, Stall.clear, ← hst, Function.update_eq_self]
            rw [if_pos hwedged, hsame]
            exact h0
          · have hst := fun heq => hwedged ((h0.wedged ep).mpr heq)
            rw [if_neg hwedged]
            exact h0.setHalted ep (by simp [Stall.clear_of_ne hst]) Stall.clear_eq_wedged
      · have hagrees := hcongr (.inr ⟨hset, hclear⟩)
        cases d.indexed setup <;> simpa [hset, hclear] using hagrees
  · have hagrees := hcongr (.inl htype)
    cases d.indexed setup <;> simpa [htype] using hagrees

/-- What the driver halts, wedges or clears. -/
theorem Agrees.setHaltAndWedge (h : Agrees d stall) (ep : EpIdx) (value wedged : Bool)
    (hep : wedged = true → ep ≠ 0) :
    Agrees (d.dummySetHaltAndWedge ep value wedged).2
      (if !d.driver then stall
      else if !value then Function.update stall ep .running
      else if d.mayHalt ep then
        Function.update stall ep (if wedged then .wedged else (stall ep).halt)
      else stall) := by
  unfold Dummy.dummySetHaltAndWedge
  by_cases hdriver : !d.driver
  · rw [if_pos hdriver, if_pos hdriver]
    exact h
  rw [if_neg hdriver, if_neg hdriver]
  by_cases hvalue : !value
  · rw [if_pos hvalue, if_pos hvalue]
    exact h.update ep rfl rfl (by simp) (by simp) (by simp)
  rw [if_neg hvalue, if_neg hvalue]
  cases hmay : d.mayHalt ep with
  | false =>
    rw [Dummy.mayHalt, Bool.not_eq_false'] at hmay
    rw [if_pos hmay, if_neg Bool.false_ne_true]
    exact h
  | true =>
    rw [Dummy.mayHalt, Bool.not_eq_true'] at hmay
    rw [hmay, if_neg Bool.false_ne_true, if_pos rfl]
    cases wedged with
    | true => exact h.update ep rfl rfl (by simp) (by simp) fun hzero => absurd hzero (hep rfl)
    | false => exact h.setHalted ep (by simp [Stall.halt_ne]) Stall.halt_eq_wedged

theorem Agrees.step {s t : State} {e : Event} (hs : Agrees s.dum s.stall)
    (h : step s e = some t) : Agrees t.dum t.stall := by
  obtain rfl := Option.some.inj h
  cases e with
  | control usb3 setup len => exact hs.control usb3 setup len
  | setHalt ep value =>
    have hset := hs.setHaltAndWedge ep value false (by simp)
    simpa [Dummy.next, Dummy.dummySetHalt, nextStall] using hset
  | setWedge ep =>
    by_cases hep : ep = 0
    · simpa [Dummy.next, Dummy.dummySetWedge, nextStall, hep] using hs
    · have hset := hs.setHaltAndWedge ep true true fun _ => hep
      cases hdriver : s.dum.driver <;>
        simpa [Dummy.next, Dummy.dummySetWedge, nextStall, hep, hdriver] using hset
  | enable ep address =>
    simp only [Dummy.next, Dummy.dummyEnable, nextStall]
    by_cases hok : ep ≠ 0 ∧ s.dum.desc ep = none ∧ s.dum.driver
    · rw [if_pos hok, if_neg (by simpa [hok.1, hok.2.1] using hok.2.2)]
      exact hs.update ep rfl rfl (by simp) (by simp) (by simp)
    · rw [if_neg hok, if_pos (by simp only [not_and_or] at hok ⊢; grind)]
      exact hs
  | disable ep =>
    simp only [Dummy.next, Dummy.dummyDisable]
    split <;> exact hs.congr rfl rfl
  | setSelfpowered value => cases value <;> exact hs.congr rfl rfl
  | portReset | udcStart | udcStop | queue | port => exact hs.congr rfl rfl

/-- What `GET_STATUS` of an endpoint answers. -/
theorem getStatus_endpoint (h : Agrees d stall) (usb3 : Bool) {setup : UsbCtrlrequest} {len : ℕ}
    (hrequest : setup.bRequest = usbReqGetStatus) (htype : setup.bRequestType = epInRequest)
    (hlen : 0 < len) {ep : EpIdx} (hep : d.indexed setup = some ep) :
    (d.control usb3 setup len).retVal = 0 ∧ (d.control usb3 setup len).buf =
      [if ep ≠ 0 ∧ stall ep ≠ .running then 1 else 0, 0].take len := by
  have hindexed : (d.setHalted 0 false).indexed setup = some ep := hep
  have hreq : d.control usb3 setup len =
      (d.setHalted 0 false).answer (if (d.setHalted 0 false).halted ep then 1 else 0) len := by
    simp [Dummy.control, Dummy.handleControlRequest, Dummy.getStatus, hrequest, htype, hlen,
      hindexed, usbReqGetStatus, usbReqSetAddress, usbReqSetFeature, usbReqClearFeature]
  rw [hreq]
  refine ⟨rfl, ?_⟩
  by_cases hzero : ep = 0
  · simp [Dummy.answer, Dummy.setHalted, hzero]
  · simp [Dummy.answer, Dummy.setHalted, hzero, h.halted ep]

end

theorem agrees_of_runs {queueEmpty : EpIdx → Bool} {es : List Event} {t : State}
    (ht : runs step (start queueEmpty) es = some t) : Agrees t.dum t.stall := by
  have hstart : Agrees (start queueEmpty).dum (start queueEmpty).stall :=
    ⟨fun _ => by simp [start], fun _ => by simp [start], by simp [start]⟩
  exact runs_invariant (I := fun s => Agrees s.dum s.stall) (fun _ _ _ hs h => hs.step h) hstart ht

/-- In every run, the flags of all endpoints are those of their halts, and `GET_STATUS` of an
endpoint answers whether it is halted. -/
theorem halts_reported (queueEmpty : EpIdx → Bool) (es : List Event) :
    Always step (fun s => Agrees s.dum s.stall ∧
        ∀ usb3 setup len ep, setup.bRequest = usbReqGetStatus →
          setup.bRequestType = epInRequest → 0 < len → s.dum.indexed setup = some ep →
          (s.dum.control usb3 setup len).retVal = 0 ∧ (s.dum.control usb3 setup len).buf =
            [if ep ≠ 0 ∧ s.stall ep ≠ .running then 1 else 0, 0].take len)
      (start queueEmpty) es := by
  rw [always_iff]
  intro pre t _ ht
  have hagrees : Agrees t.dum t.stall := agrees_of_runs ht
  exact ⟨hagrees, fun usb3 setup len ep hrequest htype hlen hep =>
    getStatus_endpoint hagrees usb3 hrequest htype hlen hep⟩

/-- The driver lets the endpoint run again. -/
def Event.Resumes (ep : EpIdx) : Event → Prop
  | .setHalt q value => q = ep ∧ value = false
  | .enable q _ => q = ep
  | _ => False

theorem wedged_step {s t : State} {e : Event} {ep : EpIdx} (hep : ep ≠ 0)
    (hs : s.stall ep = .wedged) (he : ¬e.Resumes ep) (h : step s e = some t) :
    t.stall ep = .wedged := by
  obtain rfl := Option.some.inj h
  have hupdate (stall : EpIdx → Stall) (q : EpIdx) (st : Stall) (hstall : stall ep = .wedged)
      (hst : q = ep → st = .wedged) : Function.update stall q st ep = .wedged := by
    by_cases hq : ep = q
    · rw [hq, Function.update_self, hst hq.symm]
    · rwa [Function.update_of_ne hq]
  cases e with
  | control usb3 setup len =>
    have hzero := hupdate s.stall 0 .running hs fun heq => absurd heq.symm hep
    simp only [nextStall]
    cases s.dum.indexed setup with
    | none => exact hzero
    | some q =>
      dsimp only
      split_ifs
      · exact hzero
      · exact hupdate _ q _ hzero fun heq => by rw [heq, hzero, Stall.halt]
      · exact hupdate _ q _ hzero fun heq => by rw [heq, hzero, Stall.clear]
      · exact hzero
  | setHalt q value =>
    simp only [nextStall]
    split_ifs with hdriver hvalue hmay
    · exact hs
    · exact hupdate s.stall q _ hs fun heq => absurd ⟨heq, by simpa using hvalue⟩ he
    · exact hupdate s.stall q _ hs fun heq => by rw [heq, hs, Stall.halt]
    · exact hs
  | setWedge q =>
    simp only [nextStall]
    split_ifs
    · exact hupdate s.stall q _ hs fun _ => rfl
    · exact hs
  | enable q address =>
    simp only [nextStall]
    split_ifs
    · exact hupdate s.stall q _ hs fun heq => absurd heq he
    · exact hs
  | disable | setSelfpowered | portReset | udcStart | udcStop | queue | port => exact hs

theorem wedged_runs {s t : State} {es : List Event} {ep : EpIdx} (hep : ep ≠ 0)
    (hs : s.stall ep = .wedged) (hes : ∀ e ∈ es, ¬e.Resumes ep)
    (h : runs step s es = some t) : t.stall ep = .wedged := by
  induction es generalizing s with
  | nil => exact Option.some.inj h ▸ hs
  | cons e es ih =>
    obtain ⟨u, hu, ht⟩ := Option.bind_eq_some_iff.mp h
    obtain ⟨he, hes⟩ := List.forall_mem_cons.mp hes
    exact ih (wedged_step hep hs he hu) hes ht

/-- From every reachable state, an endpoint that is wedged stays halted, whatever the host and
the driver do, until the driver clears it or enables it again. -/
theorem wedged_stays {queueEmpty : EpIdx → Bool} {es phase : List Event} {s : State}
    (h : runs step (start queueEmpty) es = some s) {ep : EpIdx} (hep : s.dum.wedged ep = true)
    (hphase : ∀ e ∈ phase, ¬e.Resumes ep) :
    Always step (fun t => t.dum.halted ep = true) s phase := by
  have hagrees := fun es => always_iff.mp (halts_reported queueEmpty es)
  have hs := (hagrees es es s (List.prefix_refl _) h).1
  have hzero : ep ≠ 0 := by
    rintro rfl
    exact hs.ep0 ((hs.wedged 0).mp hep)
  rw [always_iff]
  intro pre t hpre ht
  have hrun : runs step (start queueEmpty) (es ++ pre) = some t := by
    rw [runs_append, h]
    exact ht
  have hwedged := wedged_runs hzero ((hs.wedged ep).mp hep)
    (fun e he => hphase e (hpre.subset he)) ht
  have ht' := (hagrees (es ++ pre) (es ++ pre) t (List.prefix_refl _) hrun).1
  rw [ht'.halted, hwedged]
  decide

/-! ## A run -/

def bulkIn : Event := .enable 1 0x81

def clearHalt : Event := .control false ⟨epRequest, usbReqClearFeature, 0, 0x81⟩ 0

/-- The driver wedges the endpoint, and the host clears its halt. -/
def wedgeAndClear : List Event :=
  [.port true, .udcStart, bulkIn, .setWedge 1, clearHalt]

def wedgedState : State :=
  (runs step (start fun _ => true) wedgeAndClear).getD (start fun _ => true)

theorem runs_wedgeAndClear :
    runs step (start fun _ => true) wedgeAndClear = some wedgedState := rfl

theorem wedged_stays_wedgedState :
    wedgedState.dum.indexed ⟨epRequest, usbReqClearFeature, 0, 0x81⟩ = some 1 ∧
      Always step (fun t => t.dum.halted 1 = true) wedgedState
        [clearHalt, .setHalt 1 true, .portReset, clearHalt] := by
  refine ⟨by decide +kernel, wedged_stays runs_wedgeAndClear (by decide +kernel) fun e he => ?_⟩
  simp only [List.mem_cons, List.not_mem_nil, or_false] at he
  rcases he with rfl | rfl | rfl | rfl <;> simp [clearHalt, Event.Resumes]

end FuzzUSB.DummyHcd.Ctrl
