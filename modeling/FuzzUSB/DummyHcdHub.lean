import FuzzUSB.DummyHcdTransfer

/-!
# The root hub of the emulated bus

The port of the root hub, as the requests to the hub, the pull-up of the gadget and the power
management of both sides see it. The lock is dropped for the callbacks of the gadget driver, so
that an operation can come to its end after others have begun.
-/

namespace FuzzUSB.DummyHcd
open Transition

/-! ## The port -/

def usbPortStatConnection : BitVec 32 := 0x0001
def usbPortStatEnable : BitVec 32 := 0x0002
def usbPortStatSuspend : BitVec 32 := 0x0004
def usbPortStatReset : BitVec 32 := 0x0010
def usbPortStatPower : BitVec 32 := 0x0100
def usbPortStatLowSpeed : BitVec 32 := 0x0200
def usbPortStatHighSpeed : BitVec 32 := 0x0400
def usbPortStatLinkState : BitVec 32 := 0x01e0
def usbSsPortStatPower : BitVec 32 := 0x0200

def usbPortStatCConnection : BitVec 32 := 0x0001
def usbPortStatCSuspend : BitVec 32 := 0x0004
def usbPortStatCReset : BitVec 32 := 0x0010

/-- Connection, enable, suspend, overcurrent and reset have changed. -/
def portCMask : BitVec 32 := 0x1f <<< 16

/-- `enum usb_device_speed` -/
inductive UsbSpeed
  | unknown | low | full | high | wireless | super | superPlus
  deriving DecidableEq

/-- `enum dummy_rh_state` -/
inductive RhState
  | reset | suspended | running
  deriving DecidableEq

/-- The callbacks of the gadget driver. -/
inductive Callback
  | reset | disconnect | suspend | resume
  deriving DecidableEq

/-- What is left of an operation after `set_link_state`: it returns, or looks at the port. -/
inductive Remainder
  | done (retval : ℤ)
  | portStatus (retval : ℤ)
  | changes

/-- What an operation writes to the buffer of its caller. -/
inductive HubBuf
  | none | hubDescriptor | ssHubDescriptor | bosDescriptor | zero
  | changes
  | portStatus (status : BitVec 32)

/-- `struct dummy_hcd` with what is read of its `usb_hcd` and `dummy`. Beside them: the
callbacks that are out, and the returned values. -/
structure RootHub where
  usb3 : Bool
  hwAccessible : Bool
  rhState : RhState
  portStatus : BitVec 32
  oldStatus : BitVec 32
  active : Bool
  oldActive : Bool
  resuming : Bool
  gadgetSpeed : UsbSpeed
  devstatus : BitVec 16
  intsEnabled : Bool
  udcSuspended : Bool
  pullup : Bool
  out : List (Callback × Remainder)
  returned : List (ℤ × HubBuf)

/-- After `dummy_start`. -/
def RootHub.start (usb3 : Bool) (gadgetSpeed : UsbSpeed) : RootHub :=
  ⟨usb3, true, .running, 0, 0, false, false, false, gadgetSpeed, 0, false, false, false, [], []⟩

def RootHub.setStatus (s : RootHub) (mask : BitVec 32) : RootHub :=
  { s with portStatus := s.portStatus ||| mask }

def RootHub.clearStatus (s : RootHub) (mask : BitVec 32) : RootHub :=
  { s with portStatus := s.portStatus &&& ~~~mask }

def RootHub.has (s : RootHub) (mask : BitVec 32) : Bool := s.portStatus &&& mask ≠ 0

/-! ## `set_link_state` -/

def RootHub.setLinkStateBySpeed (s : RootHub) : RootHub :=
  if s.usb3 then
    if !s.has usbSsPortStatPower then { s with portStatus := 0 }
    else if !s.pullup ∨ s.udcSuspended then
      let s := s.clearStatus (usbPortStatConnection ||| usbPortStatEnable)
      if s.oldStatus &&& usbPortStatConnection ≠ 0 then
        s.setStatus (usbPortStatCConnection <<< 16)
      else s
    else
      let s := s.setStatus usbPortStatConnection
      let s :=
        if s.oldStatus &&& usbPortStatConnection = 0 then
          s.setStatus (usbPortStatCConnection <<< 16)
        else s
      if s.has usbPortStatEnable ∧ s.portStatus &&& usbPortStatLinkState = 0 ∧
          s.rhState ≠ .suspended then
        { s with active := true }
      else s
  else
    if !s.has usbPortStatPower then { s with portStatus := 0 }
    else if !s.pullup ∨ s.udcSuspended then
      let s := s.clearStatus (usbPortStatConnection ||| usbPortStatEnable |||
        usbPortStatLowSpeed ||| usbPortStatHighSpeed ||| usbPortStatSuspend)
      if s.oldStatus &&& usbPortStatConnection ≠ 0 then
        s.setStatus (usbPortStatCConnection <<< 16)
      else s
    else
      let s := s.setStatus usbPortStatConnection
      let s :=
        if s.oldStatus &&& usbPortStatConnection = 0 then
          s.setStatus (usbPortStatCConnection <<< 16)
        else s
      if !s.has usbPortStatEnable then s.clearStatus usbPortStatSuspend
      else if !s.has usbPortStatSuspend ∧ s.rhState ≠ .suspended then { s with active := true }
      else s

def RootHub.powerBit (s : RootHub) : BitVec 32 :=
  if s.usb3 then usbSsPortStatPower else usbPortStatPower

/-- The callback that reports the change to the gadget driver. -/
def RootHub.callback (s : RootHub) : Option Callback :=
  if !s.has s.powerBit ∨ s.has usbPortStatReset then
    let disconnect := s.powerBit &&& s.oldStatus &&& ~~~s.portStatus
    let reset := usbPortStatReset &&& ~~~s.oldStatus &&& s.portStatus
    if s.intsEnabled ∧ (disconnect ≠ 0 ∨ reset ≠ 0) then
      some (if reset ≠ 0 then .reset else .disconnect)
    else none
  else if s.active ≠ s.oldActive ∧ s.intsEnabled then
    some (if s.oldActive then .suspend else .resume)
  else none

/-- The end of `set_link_state`. -/
def RootHub.latch (s : RootHub) : RootHub :=
  { s with oldStatus := s.portStatus, oldActive := s.active }

/-- The end of an operation. -/
def RootHub.finish (s : RootHub) : Remainder → RootHub
  | .done retval => { s with returned := s.returned ++ [(retval, .none)] }
  | .portStatus retval => { s with returned := s.returned ++ [(retval, .portStatus s.portStatus)] }
  | .changes =>
    { s with
      returned := s.returned ++ [if s.has portCMask then (1, .changes) else (0, .none)] }

/-- `set_link_state` for an operation of which `r` is left, up to the callback if there is one:
then the lock is dropped. -/
def RootHub.setLinkState (s : RootHub) (r : Remainder) : RootHub :=
  let s := { s with active := false }
  if s.pullup ∧ ((s.usb3 ∧ s.gadgetSpeed ≠ .super) ∨ (!s.usb3 ∧ s.gadgetSpeed = .super)) then
    s.finish r
  else
    let s := s.setLinkStateBySpeed
    let s := if !s.has usbPortStatEnable ∨ s.active then { s with resuming := false } else s
    match s.callback with
    | some c => { s with out := s.out ++ [(c, r)] }
    | none => s.latch.finish r

/-! ## The operations -/

def eTimedOut : ℤ := 110
def eNoLink : ℤ := 67
def eIo : ℤ := 5

def usbPortFeatSuspend : BitVec 16 := 2
def usbPortFeatReset : BitVec 16 := 4
def usbPortFeatLinkState : BitVec 16 := 5
def usbPortFeatPower : BitVec 16 := 8
def usbPortFeatU1Timeout : BitVec 16 := 23
def usbPortFeatU2Timeout : BitVec 16 := 24
def usbPortFeatBhPortReset : BitVec 16 := 28

/-- The cases of `typeReq`. -/
inductive TypeReq
  | clearHubFeature | clearPortFeature | getHubDescriptor | getDescriptor | getHubStatus
  | getPortStatus | setHubFeature | setPortFeature | getPortErrorCount | setHubDepth | other

/-- `1 << wValue`, where `wide` is what comes out of a shift by more than the width. -/
def featureBit (wide : BitVec 16 → BitVec 32) (wValue : BitVec 16) : BitVec 32 :=
  if wValue < 32 then 1#32 <<< wValue.toNat else wide wValue

def RootHub.reply (s : RootHub) (retval : ℤ) (buf : HubBuf) : RootHub :=
  { s with returned := s.returned ++ [(retval, buf)] }

def RootHub.clearPortFeature (s : RootHub) (wide : BitVec 16 → BitVec 32) (wValue : BitVec 16) :
    RootHub :=
  if wValue = usbPortFeatSuspend then
    if s.usb3 then s.reply (-ePipe) .none
    else if s.has usbPortStatSuspend then { s with resuming := true }.reply 0 .none
    else s.reply 0 .none
  else if wValue = usbPortFeatPower then
    (s.clearStatus s.powerBit).setLinkState (.done 0)
  else (s.clearStatus (featureBit wide wValue)).setLinkState (.done 0)

/-- The end of the resume signalling. -/
def RootHub.resumed (s : RootHub) : RootHub :=
  (s.setStatus (usbPortStatCSuspend <<< 16)).clearStatus usbPortStatSuspend

/-- `resumeDue` and `resetDue`: `re_timeout` is over at the two places that look at it. -/
def RootHub.getPortStatus (s : RootHub) (wIndex : BitVec 16) (resumeDue resetDue : Bool) :
    RootHub :=
  let retval := if wIndex ≠ 1 then -ePipe else 0
  let s := if s.resuming ∧ resumeDue then s.resumed else s
  let s :=
    if s.has usbPortStatReset ∧ resetDue then
      let s := (s.setStatus (usbPortStatCReset <<< 16)).clearStatus usbPortStatReset
      if s.pullup then
        let s := s.setStatus usbPortStatEnable
        if s.usb3 then s
        else
          match s.gadgetSpeed with
          | .high => s.setStatus usbPortStatHighSpeed
          | .low => s.setStatus usbPortStatLowSpeed
          | _ => s
      else s
    else s
  s.setLinkState (.portStatus retval)

/-- The default case of `SetPortFeature`. -/
def RootHub.setFeatureBit (s : RootHub) (wide : BitVec 16 → BitVec 32) (wValue : BitVec 16) :
    RootHub :=
  let s := if s.has s.powerBit then s.setStatus (featureBit wide wValue) else s
  s.setLinkState (.done 0)

def RootHub.resetPort (s : RootHub) : RootHub :=
  let s :=
    if s.usb3 then
      { s with portStatus := usbSsPortStatPower ||| usbPortStatConnection ||| usbPortStatReset }
    else s.clearStatus (usbPortStatEnable ||| usbPortStatLowSpeed ||| usbPortStatHighSpeed)
  -- The self powered feature is bit 0.
  { s with devstatus := s.devstatus &&& 1 }

def RootHub.setPortFeature (s : RootHub) (wide : BitVec 16 → BitVec 32) (wValue : BitVec 16) :
    RootHub :=
  if wValue = usbPortFeatLinkState ∨ wValue = usbPortFeatU1Timeout ∨
      wValue = usbPortFeatU2Timeout then
    if s.usb3 then s.reply 0 .none else s.reply (-ePipe) .none
  else if wValue = usbPortFeatSuspend then
    if s.usb3 then s.reply (-ePipe) .none
    else if s.active then (s.setStatus usbPortStatSuspend).setLinkState (.done 0)
    else s.reply 0 .none
  else if wValue = usbPortFeatPower then
    (s.setStatus s.powerBit).setLinkState (.done 0)
  else if wValue = usbPortFeatBhPortReset then
    if s.usb3 then s.resetPort.setFeatureBit wide wValue else s.reply (-ePipe) .none
  else if wValue = usbPortFeatReset then s.resetPort.setFeatureBit wide wValue
  else s.setFeatureBit wide wValue

/-- `USB_DT_SS_HUB` and `USB_DT_SS_HUB_SIZE`, and `USB_DT_BOS`. -/
def usbDtSsHub : BitVec 16 := 0x2a
def usbDtSsHubSize : BitVec 16 := 12
def usbDtBos : BitVec 16 := 0x0f
def sizeofUsb3BosDesc : ℤ := 15

def RootHub.dummyHubControl (s : RootHub) (wide : BitVec 16 → BitVec 32) (typeReq : TypeReq)
    (wValue wIndex wLength : BitVec 16) (resumeDue resetDue : Bool) : RootHub :=
  if !s.hwAccessible then s.reply (-eTimedOut) .none
  else
    match typeReq with
    | .clearHubFeature => s.reply 0 .none
    | .clearPortFeature => s.clearPortFeature wide wValue
    | .getHubDescriptor =>
      if s.usb3 then
        if wLength < usbDtSsHubSize ∨ wValue ≠ usbDtSsHub <<< 8 then s.reply (-ePipe) .none
        else s.reply 0 .ssHubDescriptor
      else s.reply 0 .hubDescriptor
    | .getDescriptor =>
      if s.usb3 ∧ wValue >>> 8 = usbDtBos then s.reply sizeofUsb3BosDesc .bosDescriptor
      else s.reply (-ePipe) .none
    | .getHubStatus => s.reply 0 .zero
    | .getPortStatus => s.getPortStatus wIndex resumeDue resetDue
    | .setHubFeature => s.reply (-ePipe) .none
    | .setPortFeature => s.setPortFeature wide wValue
    | .getPortErrorCount => if s.usb3 then s.reply 0 .zero else s.reply (-ePipe) .none
    | .setHubDepth => if s.usb3 then s.reply 0 .none else s.reply (-ePipe) .none
    | .other => s.reply (-ePipe) .none

def RootHub.dummyHubStatus (s : RootHub) (resumeDue : Bool) : RootHub :=
  if !s.hwAccessible then s.reply 0 .none
  else if s.resuming ∧ resumeDue then s.resumed.setLinkState .changes
  else s.finish .changes

/-- `USB_DEVICE_REMOTE_WAKEUP` and `USB_DEVICE_B_HNP_ENABLE` -/
def wakeupFeatures : BitVec 16 := 0x000a

/-- The gadget asks for a resume. -/
def RootHub.dummyWakeup (s : RootHub) : RootHub :=
  if s.devstatus &&& wakeupFeatures = 0 then s.reply (-eInval) .none
  else if !s.has usbPortStatConnection then s.reply (-eNoLink) .none
  else if !s.has usbPortStatSuspend ∧ s.rhState ≠ .suspended then s.reply (-eIo) .none
  else { s with resuming := true }.reply 0 .none

def RootHub.dummyPullup (s : RootHub) (value : ℤ) : RootHub :=
  { s with pullup := value ≠ 0 }.setLinkState (.done 0)

def RootHub.dummyUdcPm (s : RootHub) (suspend : Bool) : RootHub :=
  { s with udcSuspended := suspend }.setLinkState (.done 0)

def RootHub.dummyBusSuspend (s : RootHub) : RootHub :=
  { s with rhState := .suspended }.setLinkState (.done 0)

def RootHub.dummyBusResume (s : RootHub) : RootHub :=
  if !s.hwAccessible then s.reply (-eShutdown) .none
  else { s with rhState := .running }.setLinkState (.done 0)

/-- What can happen at the hub. A driver is bound and unbound, control requests set the device
status, the hardware flag is set and cleared, and the callbacks return in any order. -/
inductive HubEvent
  | control (typeReq : TypeReq) (wValue wIndex wLength : BitVec 16) (resumeDue resetDue : Bool)
  | status (resumeDue : Bool)
  | pullup (value : ℤ)
  | udcPm (suspend : Bool)
  | busSuspend
  | busResume
  | wakeup
  | devstatus (bits : BitVec 16)
  | udcStart
  | udcStop
  | accessible (flag : Bool)
  | callbackReturns (k : ℕ)

def hubStep (wide : BitVec 16 → BitVec 32) (s : RootHub) : HubEvent → Option RootHub
  | .control typeReq wValue wIndex wLength resumeDue resetDue =>
    some (s.dummyHubControl wide typeReq wValue wIndex wLength resumeDue resetDue)
  | .status resumeDue => some (s.dummyHubStatus resumeDue)
  | .pullup value => some (s.dummyPullup value)
  | .udcPm suspend => some (s.dummyUdcPm suspend)
  | .busSuspend => some s.dummyBusSuspend
  | .busResume => some s.dummyBusResume
  | .wakeup => some s.dummyWakeup
  | .devstatus bits => some { s with devstatus := bits }
  | .udcStart => some { s with devstatus := 0, intsEnabled := true }
  | .udcStop => some { s with intsEnabled := false }
  | .accessible flag => some { s with hwAccessible := flag }
  | .callbackReturns k =>
    (s.out[k]?).map fun c => ({ s with out := s.out.eraseIdx k }.latch).finish c.2

/-! ## The property -/

/-- `active` says that the port is powered, enabled and not suspended, with the pull-up on and
neither the UDC nor the root hub suspended. A port without power has no status. -/
structure NotStale (s : RootHub) : Prop where
  active_iff : s.active ↔ s.has usbPortStatPower ∧ s.has usbPortStatEnable ∧
    ¬s.has usbPortStatSuspend ∧ s.pullup ∧ ¬s.udcSuspended ∧ s.rhState ≠ .suspended
  unpowered : ¬s.has usbPortStatPower → s.portStatus = 0

/-! ## Status bits -/

section

variable {s : RootHub} {m k : BitVec 32}

theorem and_not_of_disjoint (x : BitVec 32) (h : m &&& k = 0) : x &&& ~~~m &&& k = x &&& k := by
  ext i hi
  have hbit : (m &&& k)[i] = false := by simp [h]
  simp only [BitVec.getElem_and, BitVec.getElem_not] at hbit ⊢
  cases hm : m[i] <;> simp_all

theorem or_and_of_disjoint (x : BitVec 32) (h : m &&& k = 0) : (x ||| m) &&& k = x &&& k := by
  ext i hi
  have hbit : (m &&& k)[i] = false := by simp [h]
  simp only [BitVec.getElem_and, BitVec.getElem_or] at hbit ⊢
  cases hm : m[i] <;> simp_all

theorem RootHub.has_setStatus (s : RootHub) (h : m &&& k = 0) :
    (s.setStatus m).has k = s.has k := by
  rw [RootHub.has, RootHub.setStatus, or_and_of_disjoint s.portStatus h, RootHub.has]

theorem RootHub.has_clearStatus (s : RootHub) (h : m &&& k = 0) :
    (s.clearStatus m).has k = s.has k := by
  rw [RootHub.has, RootHub.clearStatus, and_not_of_disjoint s.portStatus h, RootHub.has]

end

/-! ## The link state -/

section

variable {s : RootHub}

theorem notStale_of_off (hactive : s.active = false) (hstatus : s.portStatus = 0) : NotStale s where
  active_iff := by simp [hactive, RootHub.has, hstatus]
  unpowered _ := hstatus

theorem notStale_of_down (hactive : s.active = false) (hpower : s.has usbPortStatPower = true)
    (hdown : s.pullup = false ∨ s.udcSuspended = true) : NotStale s where
  active_iff := by
    rcases hdown with hdown | hdown <;> simp [hactive, hdown]
  unpowered hoff := absurd hpower hoff

theorem notStale_of_up (hpower : s.has usbPortStatPower = true) (hpullup : s.pullup = true)
    (hudc : s.udcSuspended = false) (hactive : s.active ↔ s.has usbPortStatEnable ∧
      ¬s.has usbPortStatSuspend ∧ s.rhState ≠ .suspended) : NotStale s where
  active_iff := by simp [hactive, hpower, hpullup, hudc]
  unpowered hoff := absurd hpower hoff

/-- The change of the connection is no bit that the link state depends on. -/
theorem has_connection_change (c : Prop) [Decidable c] {k : BitVec 32}
    (hk : usbPortStatCConnection <<< 16 &&& k = 0) :
    (if c then s.setStatus (usbPortStatCConnection <<< 16) else s).has k = s.has k := by
  split
  · exact s.has_setStatus hk
  · rfl

/-- The connected port: active if it is enabled and not suspended. -/
theorem RootHub.notStale_connected (s : RootHub) (hactive : s.active = false)
    (hpower : s.has usbPortStatPower = true) (hpullup : s.pullup = true)
    (hudc : s.udcSuspended = false) :
    NotStale (if !s.has usbPortStatEnable then s.clearStatus usbPortStatSuspend
      else if !s.has usbPortStatSuspend ∧ s.rhState ≠ .suspended then { s with active := true }
      else s) := by
  split_ifs with hen hsusp
  · have hpower' := s.has_clearStatus (m := usbPortStatSuspend) (k := usbPortStatPower) (by decide)
    have hen' := s.has_clearStatus (m := usbPortStatSuspend) (k := usbPortStatEnable) (by decide)
    refine notStale_of_up (hpower'.trans hpower) hpullup hudc ?_
    rw [hen', show (s.clearStatus usbPortStatSuspend).active = false from hactive]
    simp_all
  · have hen' : s.has usbPortStatEnable = true := by simpa using hen
    have hsusp' : s.has usbPortStatSuspend = false := by simpa using hsusp.1
    have hnot : ¬s.has usbPortStatSuspend = true := by simp [hsusp']
    exact notStale_of_up hpower hpullup hudc (iff_of_true rfl ⟨hen', hnot, hsusp.2⟩)
  · refine notStale_of_up hpower hpullup hudc (iff_of_false (by simp [hactive]) ?_)
    rintro ⟨-, hnot, hrh⟩
    exact hsusp ⟨by simpa using hnot, hrh⟩

/-- The link state of a high-speed port is not stale when it has been computed. -/
theorem RootHub.notStale_bySpeed (s : RootHub) (hs : s.usb3 = false) (hactive : s.active = false) :
    NotStale s.setLinkStateBySpeed := by
  simp only [RootHub.setLinkStateBySpeed, hs, Bool.false_eq_true, if_false]
  by_cases hpower : s.has usbPortStatPower = true
  · rw [if_neg (by simp [hpower])]
    by_cases hdown : s.pullup = false ∨ s.udcSuspended = true
    · rw [if_pos (by simpa using hdown)]
      have hpower' := (has_connection_change (s := s.clearStatus (usbPortStatConnection |||
        usbPortStatEnable ||| usbPortStatLowSpeed ||| usbPortStatHighSpeed |||
        usbPortStatSuspend)) (s.oldStatus &&& usbPortStatConnection ≠ 0)
        (k := usbPortStatPower) (by decide)).trans (s.has_clearStatus (by decide))
      refine notStale_of_down ?_ (hpower'.trans hpower) ?_
      · split <;> exact hactive
      · split <;> exact hdown
    · rw [if_neg (by simpa using hdown)]
      simp only [not_or, Bool.not_eq_false, Bool.not_eq_true] at hdown
      have hpower' := (has_connection_change (s := s.setStatus usbPortStatConnection)
        (s.oldStatus &&& usbPortStatConnection = 0) (k := usbPortStatPower) (by decide)).trans
        (s.has_setStatus (by decide))
      refine RootHub.notStale_connected _ ?_ (hpower'.trans hpower) ?_ ?_
      · split <;> exact hactive
      · split <;> exact hdown.1
      · split <;> exact hdown.2
  · rw [if_pos (by simpa using hpower)]
    exact notStale_of_off hactive rfl

/-- The root hub is a high-speed one, of a gadget that is not at super speed. -/
structure HighSpeed (s : RootHub) : Prop where
  usb3 : s.usb3 = false
  gadget : s.gadgetSpeed ≠ .super

/-- What every operation keeps. -/
def Fresh (s : RootHub) : Prop := HighSpeed s ∧ NotStale s

theorem NotStale.finish (h : NotStale s) (r : Remainder) : NotStale (s.finish r) := by
  cases r <;> exact ⟨h.active_iff, h.unpowered⟩

theorem HighSpeed.finish (h : HighSpeed s) (r : Remainder) : HighSpeed (s.finish r) := by
  cases r <;> exact ⟨h.usb3, h.gadget⟩

theorem HighSpeed.bySpeed (h : HighSpeed s) : HighSpeed s.setLinkStateBySpeed := by
  have hkept : s.setLinkStateBySpeed.usb3 = s.usb3 ∧
      s.setLinkStateBySpeed.gadgetSpeed = s.gadgetSpeed := by
    simp only [RootHub.setLinkStateBySpeed]
    split_ifs <;> exact ⟨rfl, rfl⟩
  exact ⟨hkept.1.trans h.usb3, fun hsuper => h.gadget (hkept.2.symm.trans hsuper)⟩

/-- Whatever was written to the port and the flags before, `set_link_state` makes it good. -/
theorem HighSpeed.setLinkState (h : HighSpeed s) (r : Remainder) :
    Fresh (s.setLinkState r) := by
  have hspeed : ¬(s.pullup = true ∧ ((s.usb3 = true ∧ s.gadgetSpeed ≠ .super) ∨
      ((!s.usb3) = true ∧ s.gadgetSpeed = .super))) := by
    simp [h.usb3, h.gadget]
  simp only [RootHub.setLinkState, if_neg hspeed]
  have hset : HighSpeed { s with active := false } := ⟨h.usb3, h.gadget⟩
  have hhigh := hset.bySpeed
  have hnot := RootHub.notStale_bySpeed { s with active := false } h.usb3 rfl
  generalize RootHub.setLinkStateBySpeed { s with active := false } = t at hhigh hnot
  have hresuming : HighSpeed (if !t.has usbPortStatEnable ∨ t.active then
        { t with resuming := false } else t) ∧
      NotStale (if !t.has usbPortStatEnable ∨ t.active then
        { t with resuming := false } else t) := by
    split
    · exact ⟨⟨hhigh.usb3, hhigh.gadget⟩, ⟨hnot.active_iff, hnot.unpowered⟩⟩
    · exact ⟨hhigh, hnot⟩
  generalize (if !t.has usbPortStatEnable ∨ t.active then { t with resuming := false } else t) = u
    at hresuming
  obtain ⟨hhigh, hnot⟩ := hresuming
  split
  · exact ⟨⟨hhigh.usb3, hhigh.gadget⟩, ⟨hnot.active_iff, hnot.unpowered⟩⟩
  · have hlatch : HighSpeed u.latch ∧ NotStale u.latch :=
      ⟨⟨hhigh.usb3, hhigh.gadget⟩, ⟨hnot.active_iff, hnot.unpowered⟩⟩
    exact ⟨hlatch.1.finish r, hlatch.2.finish r⟩

/-! ## The operations keep it -/

theorem Fresh.reply (h : Fresh s) (retval : ℤ) (buf : HubBuf) : Fresh (s.reply retval buf) :=
  ⟨⟨h.1.usb3, h.1.gadget⟩, ⟨h.2.active_iff, h.2.unpowered⟩⟩

theorem Fresh.clearPortFeature (h : Fresh s) (wide : BitVec 16 → BitVec 32) (wValue : BitVec 16) :
    Fresh (s.clearPortFeature wide wValue) := by
  have hhigh (mask : BitVec 32) : HighSpeed (s.clearStatus mask) := ⟨h.1.usb3, h.1.gadget⟩
  simp only [RootHub.clearPortFeature]
  split_ifs
  · exact h.reply _ _
  · refine Fresh.reply ?_ _ _
    exact ⟨⟨h.1.usb3, h.1.gadget⟩, ⟨h.2.active_iff, h.2.unpowered⟩⟩
  · exact h.reply _ _
  · exact (hhigh _).setLinkState _
  · exact (hhigh _).setLinkState _

theorem HighSpeed.getPortStatus (h : HighSpeed s) (wIndex : BitVec 16)
    (resumeDue resetDue : Bool) : Fresh (s.getPortStatus wIndex resumeDue resetDue) := by
  have hresumed : HighSpeed (if s.resuming ∧ resumeDue then s.resumed else s) := by
    split
    · exact ⟨h.usb3, h.gadget⟩
    · exact h
  simp only [RootHub.getPortStatus]
  generalize (if s.resuming ∧ resumeDue then s.resumed else s) = t at hresumed
  refine HighSpeed.setLinkState ?_ _
  split_ifs
  · exact ⟨hresumed.usb3, hresumed.gadget⟩
  · split <;> exact ⟨hresumed.usb3, hresumed.gadget⟩
  · exact ⟨hresumed.usb3, hresumed.gadget⟩
  · exact hresumed

theorem HighSpeed.setFeatureBit (h : HighSpeed s) (wide : BitVec 16 → BitVec 32)
    (wValue : BitVec 16) : Fresh (s.setFeatureBit wide wValue) := by
  refine HighSpeed.setLinkState ?_ _
  split
  · exact ⟨h.usb3, h.gadget⟩
  · exact h

theorem HighSpeed.resetPort (h : HighSpeed s) : HighSpeed s.resetPort := by
  simp only [RootHub.resetPort]
  split <;> exact ⟨h.usb3, h.gadget⟩

theorem Fresh.setPortFeature (h : Fresh s) (wide : BitVec 16 → BitVec 32) (wValue : BitVec 16) :
    Fresh (s.setPortFeature wide wValue) := by
  have hhigh (mask : BitVec 32) : HighSpeed (s.setStatus mask) := ⟨h.1.usb3, h.1.gadget⟩
  simp only [RootHub.setPortFeature]
  split_ifs
  · exact h.reply _ _
  · exact h.reply _ _
  · exact h.reply _ _
  · exact (hhigh _).setLinkState _
  · exact h.reply _ _
  · exact (hhigh _).setLinkState _
  · exact h.1.resetPort.setFeatureBit wide wValue
  · exact h.reply _ _
  · exact h.1.resetPort.setFeatureBit wide wValue
  · exact h.1.setFeatureBit wide wValue

theorem Fresh.dummyHubControl (h : Fresh s) (wide : BitVec 16 → BitVec 32) (typeReq : TypeReq)
    (wValue wIndex wLength : BitVec 16) (resumeDue resetDue : Bool) :
    Fresh (s.dummyHubControl wide typeReq wValue wIndex wLength resumeDue resetDue) := by
  simp only [RootHub.dummyHubControl]
  split
  · exact h.reply _ _
  · cases typeReq with
    | clearPortFeature => exact h.clearPortFeature wide wValue
    | getPortStatus => exact h.1.getPortStatus wIndex resumeDue resetDue
    | setPortFeature => exact h.setPortFeature wide wValue
    | _ => dsimp only; (try split_ifs) <;> exact h.reply _ _

theorem Fresh.dummyHubStatus (h : Fresh s) (resumeDue : Bool) :
    Fresh (s.dummyHubStatus resumeDue) := by
  simp only [RootHub.dummyHubStatus]
  split_ifs
  · exact h.reply _ _
  · refine HighSpeed.setLinkState ?_ _
    exact ⟨h.1.usb3, h.1.gadget⟩
  · exact ⟨h.1.finish _, h.2.finish _⟩

theorem Fresh.dummyWakeup (h : Fresh s) : Fresh s.dummyWakeup := by
  simp only [RootHub.dummyWakeup]
  split_ifs
  · exact h.reply _ _
  · exact h.reply _ _
  · exact h.reply _ _
  · refine Fresh.reply ?_ _ _
    exact ⟨⟨h.1.usb3, h.1.gadget⟩, ⟨h.2.active_iff, h.2.unpowered⟩⟩

theorem Fresh.dummyBusResume (h : Fresh s) : Fresh s.dummyBusResume := by
  simp only [RootHub.dummyBusResume]
  split
  · exact h.reply _ _
  · refine HighSpeed.setLinkState ?_ _
    exact ⟨h.1.usb3, h.1.gadget⟩

/-- The step lemma. -/
theorem Fresh.step {wide : BitVec 16 → BitVec 32} {e : HubEvent} {t : RootHub} (h : Fresh s)
    (ht : hubStep wide s e = some t) : Fresh t := by
  have hsame : HighSpeed s ∧ NotStale s := h
  obtain ⟨hhigh, hnot⟩ := hsame
  cases e with
  | control typeReq wValue wIndex wLength resumeDue resetDue =>
    obtain rfl := Option.some.inj ht
    exact h.dummyHubControl wide typeReq wValue wIndex wLength resumeDue resetDue
  | status resumeDue =>
    obtain rfl := Option.some.inj ht
    exact h.dummyHubStatus resumeDue
  | pullup value =>
    obtain rfl := Option.some.inj ht
    refine HighSpeed.setLinkState ?_ _
    exact ⟨hhigh.usb3, hhigh.gadget⟩
  | udcPm suspend =>
    obtain rfl := Option.some.inj ht
    refine HighSpeed.setLinkState ?_ _
    exact ⟨hhigh.usb3, hhigh.gadget⟩
  | busSuspend =>
    obtain rfl := Option.some.inj ht
    refine HighSpeed.setLinkState ?_ _
    exact ⟨hhigh.usb3, hhigh.gadget⟩
  | busResume =>
    obtain rfl := Option.some.inj ht
    exact h.dummyBusResume
  | wakeup =>
    obtain rfl := Option.some.inj ht
    exact h.dummyWakeup
  | callbackReturns k =>
    obtain ⟨c, -, rfl⟩ := Option.map_eq_some_iff.mp ht
    constructor
    · refine HighSpeed.finish ?_ _
      exact ⟨hhigh.usb3, hhigh.gadget⟩
    · refine NotStale.finish ?_ _
      exact ⟨hnot.active_iff, hnot.unpowered⟩
  | _ =>
    obtain rfl := Option.some.inj ht
    exact ⟨⟨hhigh.usb3, hhigh.gadget⟩, ⟨hnot.active_iff, hnot.unpowered⟩⟩

end

/-- For every sequence of operations, whatever callbacks of the gadget driver they are waiting
for, the port is not stale after any of them. -/
theorem rootHub_notStale (wide : BitVec 16 → BitVec 32) (speed : UsbSpeed) (hspeed : speed ≠ .super)
    (es : List HubEvent) : Always (hubStep wide) NotStale (.start false speed) es := by
  have hstart : Fresh (.start false speed) := ⟨⟨rfl, hspeed⟩, notStale_of_off rfl rfl⟩
  refine always_iff.mpr fun pre t _ ht => ?_
  exact (runs_invariant (fun _ _ _ => Fresh.step) hstart ht).2

/-- The port is powered, the gadget connects, and the port is reset and enabled: active. -/
def enablePort : List HubEvent :=
  [.control .setPortFeature usbPortFeatPower 1 0 false false, .pullup 1,
    .control .setPortFeature usbPortFeatReset 1 0 false false,
    .control .getPortStatus 0 1 4 true true]

theorem rootHub_notStale_enablePort :
    Always (hubStep fun _ => 0) NotStale (.start false .high) enablePort ∧
      ∃ t, runs (hubStep fun _ => 0) (.start false .high) enablePort = some t ∧ t.active = true :=
  ⟨rootHub_notStale (fun _ => 0) .high (by decide) enablePort, _, rfl, by decide +kernel⟩

end FuzzUSB.DummyHcd
