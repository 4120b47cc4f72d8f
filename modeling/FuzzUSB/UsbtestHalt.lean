import FuzzUSB.DummyHcdControl
import Mathlib.Data.PNat.Basic

/-!
# The halt test against the emulated controller

The host's half is `halt_simple` of the usbtest driver, the device's is what `dummy_hcd` makes of
the requests and transfers that it sends. What comes of the calls of the core in between is a
parameter.
-/

namespace FuzzUSB.Usbtest.Halt
open CLayout Transition DummyHcd.Ctrl
open DummyHcd (eIo)
open DummyHcd.Udc (EpIdx)

def ENOMEM : ℤ := 12
def EINVAL : ℤ := 22
def EPIPE : ℤ := 32
def EPROTO : ℤ := 71

/-- `USB_ENDPOINT_HALT` -/
def usbEndpointHalt : BitVec 16 := 0

/-! ## The wire -/

structure Reply where
  status : ℤ
  data : List Byte
  dum : Dummy

/-- A control transfer to a device of `dummy_hcd`: the number of bytes, or an error. The driver
of the gadget is not asked, see `request_decided`. -/
def exchange (usb3 : Bool) (setup : UsbCtrlrequest) (len : ℕ) (d : Dummy) : Reply :=
  match d.findEndpoint 0 with
  | none => ⟨-EPROTO, [], d⟩
  | some _ =>
    let o := d.control usb3 setup len
    if o.retVal < 0 then ⟨-EPIPE, [], o.dum⟩ else ⟨o.buf.length, o.buf, o.dum⟩

/-- What comes of a call of the core that makes a control transfer. -/
inductive Call
  /-- The call tells what the device answers. -/
  | answered
  /-- The call fails on the host, say for memory or for time. The device may have seen the
  request all the same. -/
  | failed (errno : ℕ+) (seen : Bool)

def usbControlMsg (c : Call) (usb3 : Bool) (setup : UsbCtrlrequest) (len : ℕ) (d : Dummy) : Reply :=
  match c with
  | .answered => exchange usb3 setup len d
  | .failed errno seen => ⟨-(errno : ℕ), [], if seen then (exchange usb3 setup len d).dum else d⟩

/-- What comes of a transfer of the test besides the halt: the status of its submission, and the
one it ends with where the endpoint is not halted. -/
structure Transfer where
  submit : ℤ
  served : ℤ

/-- `simple_io` for one iteration: the URB as `dummy_timer` gives it back. -/
def simpleIo (t : Transfer) (address : Byte) (d : Dummy) : ℤ :=
  if t.submit ≠ 0 then t.submit
  else match d.findEndpoint address with
    | none => -EPROTO
    | some ep => if d.halted ep then -EPIPE else t.served

/-! ## `halt_simple` -/

section

variable (usb3 : Bool) (address : Byte)

def getStatusOf : UsbCtrlrequest := ⟨epInRequest, usbReqGetStatus, 0, address.setWidth 16⟩

def setHaltOf : UsbCtrlrequest :=
  ⟨epRequest, usbReqSetFeature, usbEndpointHalt, address.setWidth 16⟩

def clearHaltOf : UsbCtrlrequest :=
  ⟨epRequest, usbReqClearFeature, usbEndpointHalt, address.setWidth 16⟩

/-- `usb_get_std_status` of an endpoint: the status of the call, and what the device said. -/
def usbGetStdStatus (c : Call) (d : Dummy) : ℤ × ℕ × Dummy :=
  let r := usbControlMsg c usb3 (getStatusOf address) 2 d
  match r.data with
  | [low, high] => (0, low.toNat + 256 * high.toNat, r.dum)
  | _ => (-eIo, 0, r.dum)

def usbClearHalt (c : Call) (d : Dummy) : ℤ × Dummy :=
  let r := usbControlMsg c usb3 (clearHaltOf address) 0 d
  (if r.status < 0 then r.status else 0, r.dum)

def verifyNotHalted (c : Call) (t : Transfer) (d : Dummy) : ℤ × Dummy :=
  let (retval, status, d) := usbGetStdStatus usb3 address c d
  if retval < 0 then (retval, d)
  else if status ≠ 0 then (-EINVAL, d)
  else if simpleIo t address d ≠ 0 then (-EINVAL, d)
  else (0, d)

def verifyHalted (c : Call) (t still : Transfer) (d : Dummy) : ℤ × Dummy :=
  let (retval, status, d) := usbGetStdStatus usb3 address c d
  if retval < 0 then (retval, d)
  else if status ≠ 1 then (-EINVAL, d)
  else if simpleIo t address d ≠ -EPIPE then (-EINVAL, d)
  else if simpleIo still address d ≠ -EPIPE then (-EINVAL, d)
  else (0, d)

/-- What comes of the five calls of the core and of the four transfers of `test_halt`. -/
structure Trial where
  call : ℕ → Call
  io : ℕ → Transfer

def testHalt (t : Trial) (d : Dummy) : ℤ × Dummy :=
  let (retval, d) := verifyNotHalted usb3 address (t.call 0) (t.io 0) d
  if retval < 0 then (retval, d)
  else
    let r := usbControlMsg (t.call 1) usb3 (setHaltOf address) 0 d
    if r.status < 0 then (r.status, r.dum)
    else
      let (retval, d) := verifyHalted usb3 address (t.call 2) (t.io 1) (t.io 2) r.dum
      -- A halt that does not show is cleared anyway.
      if retval < 0 then (retval, (usbClearHalt usb3 address (t.call 3) d).2)
      else
        let (retval, d) := usbClearHalt usb3 address (t.call 3) d
        if retval < 0 then (retval, d)
        else
          let (retval, d) := verifyNotHalted usb3 address (t.call 4) (t.io 3) d
          if retval < 0 then (retval, d) else (0, d)

end

/-- The pipes of the device that is bound. -/
structure Pipes where
  inPipe : Option Byte
  outPipe : Option Byte

/-- What comes of the allocation and of the two tests in one round. -/
structure Round where
  allocated : Bool
  inTrial : Trial
  outTrial : Trial

def testPipe (usb3 : Bool) (pipe : Option Byte) (t : Trial) (d : Dummy) : ℤ × Dummy :=
  match pipe with
  | none => (0, d)
  | some address => testHalt usb3 address t d

def haltSimple (usb3 : Bool) (p : Pipes) (r : Round) (d : Dummy) : ℤ × Dummy :=
  if !r.allocated then (-ENOMEM, d)
  else
    let (retval, d) := testPipe usb3 p.inPipe r.inTrial d
    if retval < 0 then (retval, d) else testPipe usb3 p.outPipe r.outTrial d

/-- The loop of test 13. -/
def haltRounds (usb3 : Bool) (p : Pipes) : List Round → Dummy → ℤ × Dummy
  | [], d => (0, d)
  | r :: rs, d =>
    let (retval, d) := haltSimple usb3 p r d
    if retval = 0 then haltRounds usb3 p rs d else (retval, d)

/-- Test 13 -/
def haltTests (usb3 : Bool) (p : Pipes) (rs : List Round) (d : Dummy) : ℤ × Dummy :=
  if p.outPipe = none ∧ p.inPipe = none then (-eOpNotSupp, d) else haltRounds usb3 p rs d

/-! ## States that differ in the halt of endpoint 0 -/

/-- The same state, but for a halt of endpoint 0, which any control request ends. -/
def Same (d' d : Dummy) : Prop := d'.setHalted 0 false = d.setHalted 0 false

theorem setHalted_self {d : Dummy} {ep : EpIdx} {value : Bool} (h : d.halted ep = value) :
    d.setHalted ep value = d := by
  have hupdate : Function.update d.halted ep value = d.halted := by
    rw [← h, Function.update_eq_self]
  rw [Dummy.setHalted, hupdate]

theorem setHalted_idem (d : Dummy) (ep : EpIdx) (value value' : Bool) :
    (d.setHalted ep value).setHalted ep value' = d.setHalted ep value' := by
  simp only [Dummy.setHalted, Function.update_idem]

theorem setHalted_comm {ep ep' : EpIdx} (hne : ep ≠ ep') (d : Dummy) (value value' : Bool) :
    (d.setHalted ep value).setHalted ep' value' = (d.setHalted ep' value').setHalted ep value := by
  simp only [Dummy.setHalted, Function.update_comm hne]

namespace Same

variable {d d' d'' : Dummy} {ep : EpIdx}

theorem refl (d : Dummy) : Same d d := rfl

theorem trans (h : Same d'' d') (h' : Same d' d) : Same d'' d := Eq.trans h h'

theorem settled (d : Dummy) : Same (d.setHalted 0 false) d := setHalted_idem d 0 false false

theorem findEndpoint (h : Same d' d) (address : Byte) :
    d'.findEndpoint address = d.findEndpoint address := congrArg (·.findEndpoint address) h

theorem wedged (h : Same d' d) : d'.wedged = d.wedged :=
  show (d'.setHalted 0 false).wedged = (d.setHalted 0 false).wedged by rw [h]

theorem halted (h : Same d' d) (hne : ep ≠ 0) : d'.halted ep = d.halted ep := by
  have hsame := congrArg (fun d : Dummy => d.halted ep) h
  simpa [Dummy.setHalted, hne] using hsame

theorem setHalted (h : Same d' d) (ep : EpIdx) (value : Bool) :
    Same (d'.setHalted ep value) (d.setHalted ep value) := by
  unfold Same
  by_cases hzero : ep = 0
  · rw [hzero, setHalted_idem, setHalted_idem, h]
  · rw [setHalted_comm hzero, h, setHalted_comm hzero]

/-- A halt that is set and cleared. -/
theorem cleared (h : Same d' (d.setHalted ep true)) (hrun : d.halted ep = false) :
    Same (d'.setHalted ep false) d := by
  have hback := h.setHalted ep false
  rwa [setHalted_idem, setHalted_self hrun] at hback

end Same

/-! ## The requests -/

theorem findEndpoint_zero {d : Dummy} {address : Byte} {ep : EpIdx}
    (hep : d.findEndpoint address = some ep) : d.findEndpoint 0 = some 0 := by
  unfold Dummy.findEndpoint at hep ⊢
  split_ifs at hep ⊢ with hactive hints
  all_goals first | rfl | simp_all

/-- The endpoint is halted, as the test finds it: a request before has ended a halt of
endpoint 0. -/
def LooksHalted (d : Dummy) (ep : EpIdx) : Prop := (d.setHalted 0 false).halted ep = true

theorem looksHalted_iff {d : Dummy} {ep : EpIdx} (hne : ep ≠ 0) :
    LooksHalted d ep ↔ d.halted ep = true := by
  rw [LooksHalted, (Same.settled d).halted hne]

section

variable {usb3 : Bool} {address : Byte} {ep : EpIdx} {d : Dummy}

theorem wIndex_address (address : Byte) : (address.setWidth 16).setWidth 8 = address := by
  simp

theorem control_getStatus (hep : d.findEndpoint address = some ep) :
    d.control usb3 (getStatusOf address) 2 =
      (d.setHalted 0 false).answer (if (d.setHalted 0 false).halted ep then 1 else 0) 2 := by
  have hindexed : (d.setHalted 0 false).indexed (getStatusOf address) = some ep := by
    rw [Dummy.indexed, getStatusOf, wIndex_address]
    exact hep
  rw [Dummy.control, Dummy.handleControlRequest, Dummy.getStatus, hindexed]
  rfl

theorem control_setHalt (hep : d.findEndpoint address = some ep) :
    d.control usb3 (setHaltOf address) 0 = if ep = 0 then (d.setHalted 0 false).unsupported
      else ((d.setHalted 0 false).setHalted ep true).handled := by
  have hindexed : (d.setHalted 0 false).indexed (setHaltOf address) = some ep := by
    rw [Dummy.indexed, setHaltOf, wIndex_address]
    exact hep
  have hrequest : d.control usb3 (setHaltOf address) 0 =
      (d.setHalted 0 false).setEpHalt (setHaltOf address) := rfl
  rw [hrequest, Dummy.setEpHalt, hindexed]

theorem control_clearHalt (hep : d.findEndpoint address = some ep) :
    d.control usb3 (clearHaltOf address) 0 =
      if (d.setHalted 0 false).wedged ep then (d.setHalted 0 false).handled
      else ((d.setHalted 0 false).setHalted ep false).handled := by
  have hindexed : (d.setHalted 0 false).indexed (clearHaltOf address) = some ep := by
    rw [Dummy.indexed, clearHaltOf, wIndex_address]
    exact hep
  have hrequest : d.control usb3 (clearHaltOf address) 0 =
      (d.setHalted 0 false).clearEpHalt (clearHaltOf address) := rfl
  rw [hrequest, Dummy.clearEpHalt, hindexed]

/-- `handle_control_request` leaves none of the requests to the driver of the gadget. -/
theorem request_decided (usb3 : Bool) (hep : d.findEndpoint address = some ep) :
    (d.control usb3 (getStatusOf address) 2).retVal ≤ 0 ∧
      (d.control usb3 (setHaltOf address) 0).retVal ≤ 0 ∧
      (d.control usb3 (clearHaltOf address) 0).retVal ≤ 0 := by
  rw [control_getStatus hep, control_setHalt hep, control_clearHalt hep]
  refine ⟨le_rfl, ?_, ?_⟩
  · split <;> simp [Dummy.unsupported, Dummy.handled, eOpNotSupp]
  · split <;> exact le_rfl

theorem exchange_getStatus (hep : d.findEndpoint address = some ep) :
    exchange usb3 (getStatusOf address) 2 d =
      ⟨2, [if (d.setHalted 0 false).halted ep then 1 else 0, 0], d.setHalted 0 false⟩ := by
  simp only [exchange, findEndpoint_zero hep, control_getStatus hep]
  rfl

theorem exchange_getStatus_none (usb3 : Bool) (hep : d.findEndpoint address = none) :
    (exchange usb3 (getStatusOf address) 2 d).data = [] ∧
      Same (exchange usb3 (getStatusOf address) 2 d).dum d := by
  have hindexed : (d.setHalted 0 false).indexed (getStatusOf address) = none := by
    rw [Dummy.indexed, getStatusOf, wIndex_address]
    exact hep
  have hrequest : d.control usb3 (getStatusOf address) 2 = (d.setHalted 0 false).unsupported := by
    rw [Dummy.control, Dummy.handleControlRequest, Dummy.getStatus, hindexed]
    rfl
  cases hzero : d.findEndpoint 0 with
  | none =>
    simp only [exchange, hzero]
    exact ⟨trivial, Same.refl d⟩
  | some ep0 =>
    simp only [exchange, hzero, hrequest]
    exact ⟨rfl, Same.settled d⟩

theorem exchange_getStatus_same (usb3 : Bool) (address : Byte) (d : Dummy) :
    Same (exchange usb3 (getStatusOf address) 2 d).dum d := by
  cases hep : d.findEndpoint address with
  | none => exact (exchange_getStatus_none usb3 hep).2
  | some ep =>
    rw [exchange_getStatus hep]
    exact Same.settled d

theorem exchange_setHalt (hep : d.findEndpoint address = some ep) (hne : ep ≠ 0) :
    exchange usb3 (setHaltOf address) 0 d =
      ⟨0, [], (d.setHalted 0 false).setHalted ep true⟩ := by
  simp only [exchange, findEndpoint_zero hep, control_setHalt hep, if_neg hne]
  rfl

theorem exchange_setHalt_zero (hep : d.findEndpoint address = some 0) :
    exchange usb3 (setHaltOf address) 0 d = ⟨-EPIPE, [], d.setHalted 0 false⟩ := by
  simp only [exchange, findEndpoint_zero hep, control_setHalt hep, if_true]
  rfl

theorem exchange_clearHalt (hep : d.findEndpoint address = some ep)
    (hwedged : d.wedged ep = false) : exchange usb3 (clearHaltOf address) 0 d =
    ⟨0, [], (d.setHalted 0 false).setHalted ep false⟩ := by
  have hwedged' : (d.setHalted 0 false).wedged ep = false := hwedged
  simp only [exchange, findEndpoint_zero hep, control_clearHalt hep, hwedged',
    Bool.false_eq_true, if_false]
  rfl

/-! ## The calls -/

theorem neg_errno (errno : ℕ+) : -((errno : ℕ) : ℤ) < 0 := by
  have hpos := errno.pos
  omega

theorem usbGetStdStatus_answered (hep : d.findEndpoint address = some ep) :
    usbGetStdStatus usb3 address .answered d =
      (0, if (d.setHalted 0 false).halted ep then 1 else 0, d.setHalted 0 false) := by
  simp only [usbGetStdStatus, usbControlMsg, exchange_getStatus hep]
  cases (d.setHalted 0 false).halted ep <;> rfl

/-- The call fails, on the host or where there is no such endpoint. -/
theorem usbGetStdStatus_fails (usb3 : Bool) {c : Call}
    (h : c ≠ .answered ∨ d.findEndpoint address = none) :
    ∃ d', usbGetStdStatus usb3 address c d = (-eIo, 0, d') ∧ Same d' d := by
  cases c with
  | answered =>
    have hep : d.findEndpoint address = none := h.resolve_left (not_not.mpr rfl)
    obtain ⟨hdata, hsame⟩ := exchange_getStatus_none usb3 hep
    refine ⟨_, ?_, hsame⟩
    simp only [usbGetStdStatus, usbControlMsg, hdata]
  | failed errno seen =>
    refine ⟨_, rfl, ?_⟩
    cases seen with
    | false => exact Same.refl d
    | true => exact exchange_getStatus_same usb3 address d

/-- The halt is set and the call succeeds, or it fails and leaves the endpoint halted, or it
fails and changes nothing. -/
theorem setHalt_cases (c : Call) (usb3 : Bool) (hep : d.findEndpoint address = some ep) :
    let r := usbControlMsg c usb3 (setHaltOf address) 0 d
    (r.status = 0 ∧ c = .answered ∧ ep ≠ 0 ∧ Same r.dum (d.setHalted ep true)) ∨
      (r.status < 0 ∧ (∃ errno, c = .failed errno true) ∧ ep ≠ 0 ∧
        Same r.dum (d.setHalted ep true)) ∨
      (r.status < 0 ∧ (c = .answered → ep = 0) ∧ Same r.dum d) := by
  by_cases hzero : ep = 0
  · obtain rfl := hzero
    refine .inr (.inr ?_)
    cases c with
    | answered =>
      simp only [usbControlMsg, exchange_setHalt_zero hep]
      exact ⟨by decide, fun _ => trivial, Same.settled d⟩
    | failed errno seen =>
      refine ⟨neg_errno errno, fun _ => rfl, ?_⟩
      cases seen with
      | false => exact Same.refl d
      | true =>
        simp only [usbControlMsg, exchange_setHalt_zero hep]
        exact Same.settled d
  · have hset : Same ((d.setHalted 0 false).setHalted ep true) (d.setHalted ep true) :=
      (Same.settled d).setHalted ep true
    cases c with
    | answered =>
      simp only [usbControlMsg, exchange_setHalt hep hzero]
      exact .inl ⟨trivial, trivial, hzero, hset⟩
    | failed errno seen =>
      cases seen with
      | false => exact .inr (.inr ⟨neg_errno errno, (nomatch ·), Same.refl d⟩)
      | true =>
        simp only [usbControlMsg, exchange_setHalt hep hzero]
        exact .inr (.inl ⟨neg_errno errno, ⟨errno, rfl⟩, hzero, hset⟩)

/-- The halt is cleared, unless the call fails and the device has not seen the request. -/
theorem usbClearHalt_cases (c : Call) (usb3 : Bool) (hep : d.findEndpoint address = some ep)
    (hwedged : d.wedged ep = false) :
    let r := usbClearHalt usb3 address c d
    r.1 ≤ 0 ∧ (r.1 = 0 ↔ c = .answered) ∧ (Same r.2 (d.setHalted ep false) ∨
      r.1 < 0 ∧ (∃ errno, c = .failed errno false) ∧ r.2 = d) := by
  have hcleared : Same ((d.setHalted 0 false).setHalted ep false) (d.setHalted ep false) :=
    (Same.settled d).setHalted ep false
  cases c with
  | answered =>
    simp only [usbClearHalt, usbControlMsg, exchange_clearHalt hep hwedged]
    exact ⟨le_rfl, by simp, .inl hcleared⟩
  | failed errno seen =>
    have hneg := neg_errno errno
    have hresult : (usbClearHalt usb3 address (.failed errno seen) d).1 = -((errno : ℕ) : ℤ) :=
      if_pos hneg
    refine ⟨hresult ▸ hneg.le, iff_of_false (hresult ▸ hneg.ne) (nomatch ·), ?_⟩
    cases seen with
    | false => exact .inr ⟨hresult ▸ hneg, ⟨errno, rfl⟩, rfl⟩
    | true =>
      simp only [usbClearHalt, usbControlMsg, exchange_clearHalt hep hwedged]
      exact .inl hcleared

/-! ## What is verified -/

/-- The transfer succeeds where the endpoint is not halted. -/
def Transfer.Served (t : Transfer) : Prop := t.submit = 0 ∧ t.served = 0

/-- The transfer is taken for one that a halt stopped. -/
def Transfer.Stalls (t : Transfer) : Prop := t.submit = 0 ∨ t.submit = -EPIPE

theorem simpleIo_running {t : Transfer} (hep : d.findEndpoint address = some ep)
    (h : d.halted ep = false) : simpleIo t address d = 0 ↔ t.Served := by
  unfold simpleIo Transfer.Served
  simp only [hep, h, Bool.false_eq_true, if_false]
  by_cases hsubmit : t.submit = 0
  · simp [hsubmit]
  · simp [hsubmit]

theorem simpleIo_halted {t : Transfer} (hep : d.findEndpoint address = some ep)
    (h : d.halted ep = true) : simpleIo t address d = -EPIPE ↔ t.Stalls := by
  unfold simpleIo Transfer.Stalls
  simp only [hep, h, if_true]
  by_cases hsubmit : t.submit = 0
  · simp [hsubmit]
  · simp [hsubmit]

/-- The call fails, or there is no such endpoint. -/
theorem not_answered {c : Call} (h : ¬∃ ep, c = .answered ∧ d.findEndpoint address = some ep) :
    c ≠ .answered ∨ d.findEndpoint address = none := by
  by_cases hc : c = .answered
  · right
    cases hep : d.findEndpoint address with
    | none => rfl
    | some ep => exact absurd ⟨ep, hc, hep⟩ h
  · exact .inl hc

theorem verifyNotHalted_spec (usb3 : Bool) (address : Byte) (c : Call) (t : Transfer) (d : Dummy) :
    let r := verifyNotHalted usb3 address c t d
    Same r.2 d ∧ r.1 ≤ 0 ∧ (r.1 = 0 ↔ ∃ ep, (c = .answered ∧ d.findEndpoint address = some ep) ∧
      ¬LooksHalted d ep ∧ t.Served) := by
  by_cases hanswered : ∃ ep, c = .answered ∧ d.findEndpoint address = some ep
  · obtain ⟨ep, rfl, hep⟩ := hanswered
    have hep' : (d.setHalted 0 false).findEndpoint address = some ep := hep
    simp only [verifyNotHalted, usbGetStdStatus_answered hep, hep, Option.some.injEq, true_and,
      exists_eq_left', lt_irrefl, if_false, LooksHalted]
    cases hhalted : (d.setHalted 0 false).halted ep with
    | true => exact ⟨Same.settled d, by simp [EINVAL], by simp [EINVAL]⟩
    | false =>
      have hio : simpleIo t address (d.setHalted 0 false) = 0 ↔ t.Served :=
        simpleIo_running hep' hhalted
      by_cases hserved : t.Served
      · simp [hio.mpr hserved, hserved, Same.settled]
      · simp [mt hio.mp hserved, hserved, Same.settled, EINVAL]
  · obtain ⟨d', hstatus, hsame⟩ := usbGetStdStatus_fails usb3 (not_answered hanswered)
    have hneg : -eIo < 0 := by decide
    simp only [verifyNotHalted, hstatus, if_pos hneg]
    exact ⟨hsame, hneg.le, iff_of_false hneg.ne fun ⟨ep, h, _⟩ => hanswered ⟨ep, h⟩⟩

theorem verifyHalted_spec (usb3 : Bool) (address : Byte) (c : Call) (t still : Transfer)
    (d : Dummy) :
    let r := verifyHalted usb3 address c t still d
    Same r.2 d ∧ r.1 ≤ 0 ∧ (r.1 = 0 ↔ ∃ ep, (c = .answered ∧ d.findEndpoint address = some ep) ∧
      LooksHalted d ep ∧ t.Stalls ∧ still.Stalls) := by
  by_cases hanswered : ∃ ep, c = .answered ∧ d.findEndpoint address = some ep
  · obtain ⟨ep, rfl, hep⟩ := hanswered
    have hep' : (d.setHalted 0 false).findEndpoint address = some ep := hep
    simp only [verifyHalted, usbGetStdStatus_answered hep, hep, Option.some.injEq, true_and,
      exists_eq_left', lt_irrefl, if_false, LooksHalted]
    cases hhalted : (d.setHalted 0 false).halted ep with
    | false => exact ⟨Same.settled d, by simp [EINVAL], by simp [EINVAL]⟩
    | true =>
      have hfirst : simpleIo t address (d.setHalted 0 false) = -EPIPE ↔ t.Stalls :=
        simpleIo_halted hep' hhalted
      have hsecond : simpleIo still address (d.setHalted 0 false) = -EPIPE ↔ still.Stalls :=
        simpleIo_halted hep' hhalted
      by_cases ht : t.Stalls
      · by_cases hs : still.Stalls
        · simp [hfirst.mpr ht, hsecond.mpr hs, ht, hs, Same.settled]
        · simp [hfirst.mpr ht, mt hsecond.mp hs, hs, Same.settled, EINVAL]
      · simp [mt hfirst.mp ht, ht, Same.settled, EINVAL]
  · obtain ⟨d', hstatus, hsame⟩ := usbGetStdStatus_fails usb3 (not_answered hanswered)
    have hneg : -eIo < 0 := by decide
    simp only [verifyHalted, hstatus, if_pos hneg]
    exact ⟨hsame, hneg.le, iff_of_false hneg.ne fun ⟨ep, h, _⟩ => hanswered ⟨ep, h⟩⟩

theorem verifyNotHalted_iff (usb3 : Bool) (c : Call) (t : Transfer)
    (hep : d.findEndpoint address = some ep) (hrun : ¬LooksHalted d ep) :
    (verifyNotHalted usb3 address c t d).1 = 0 ↔ c = .answered ∧ t.Served := by
  simp only [(verifyNotHalted_spec usb3 address c t d).2.2, hep, Option.some.injEq, and_assoc,
    exists_and_left, exists_eq_left', hrun, not_false_eq_true, true_and]

theorem verifyHalted_iff (usb3 : Bool) (c : Call) (t still : Transfer)
    (hep : d.findEndpoint address = some ep) (hlooks : LooksHalted d ep) :
    (verifyHalted usb3 address c t still d).1 = 0 ↔
      c = .answered ∧ t.Stalls ∧ still.Stalls := by
  simp only [(verifyHalted_spec usb3 address c t still d).2.2, hep, Option.some.injEq, and_assoc,
    exists_and_left, exists_eq_left', hlooks, true_and]

/-! ## The test of one endpoint -/

/-- The calls are answered, and the transfers are as the test wants them. -/
structure Trial.Good (t : Trial) : Prop where
  answered : ∀ i < 5, t.call i = .answered
  first : (t.io 0).Served
  stalled : (t.io 1).Stalls
  still : (t.io 2).Stalls
  last : (t.io 3).Served

/-- The call that sets the halt fails although the device has seen it, or the one that clears it
fails and the device has not. -/
def Trial.Strands (t : Trial) : Prop :=
  (∃ errno, t.call 1 = .failed errno true) ∨ ∃ errno, t.call 3 = .failed errno false

/-- The endpoint at the address, other than endpoint 0, is enabled and runs. -/
def Runs (d : Dummy) (address : Byte) (ep : EpIdx) : Prop :=
  ep ≠ 0 ∧ d.findEndpoint address = some ep ∧ d.halted ep = false

/-- A wedged endpoint is halted, and endpoint 0 is not wedged. -/
def WedgesHalt (d : Dummy) : Prop := ∀ ep, d.wedged ep = true → ep ≠ 0 ∧ d.halted ep = true

/-- What a test says, and that it leaves the device as it was, or fails and leaves an endpoint
halted that it may strand. -/
structure Tested (d : Dummy) (passes : Prop) (strands : EpIdx → Prop) (r : ℤ × Dummy) : Prop where
  nonpos : r.1 ≤ 0
  passes_iff : r.1 = 0 ↔ passes
  left : Same r.2 d ∨ r.1 < 0 ∧ ∃ ep, strands ep ∧ Same r.2 (d.setHalted ep true)

/-- A test that passes leaves the device as it was. -/
theorem Tested.restored {passes : Prop} {strands : EpIdx → Prop} {r : ℤ × Dummy}
    (h : Tested d passes strands r) (hpass : r.1 = 0) : Same r.2 d :=
  h.left.resolve_right fun hleft => hleft.1.ne hpass

theorem Tested.mono {passes : Prop} {strands strands' : EpIdx → Prop} {r : ℤ × Dummy}
    (h : Tested d passes strands r) (himp : ∀ ep, strands ep → strands' ep) :
    Tested d passes strands' r :=
  ⟨h.nonpos, h.passes_iff, h.left.imp_right fun ⟨hneg, ep, hep, hsame⟩ =>
    ⟨hneg, ep, himp ep hep, hsame⟩⟩

/-- A test that fails. -/
theorem Tested.of_neg {passes : Prop} {strands : EpIdx → Prop} {r : ℤ × Dummy} (hneg : r.1 < 0)
    (hpass : ¬passes)
    (hleft : Same r.2 d ∨ ∃ ep, strands ep ∧ Same r.2 (d.setHalted ep true)) :
    Tested d passes strands r :=
  ⟨hneg.le, iff_of_false hneg.ne hpass, hleft.imp_right fun h => ⟨hneg, h⟩⟩

/-- `test_halt` from the halt on. -/
def afterHalt (usb3 : Bool) (address : Byte) (t : Trial) (d : Dummy) : ℤ × Dummy :=
  let shown := verifyHalted usb3 address (t.call 2) (t.io 1) (t.io 2) d
  let cleared := usbClearHalt usb3 address (t.call 3) shown.2
  if shown.1 < 0 then (shown.1, cleared.2)
  else if cleared.1 < 0 then cleared
  else
    let last := verifyNotHalted usb3 address (t.call 4) (t.io 3) cleared.2
    if last.1 < 0 then last else (0, last.2)

theorem testHalt_eq (usb3 : Bool) (address : Byte) (t : Trial) (d : Dummy) :
    testHalt usb3 address t d =
      let first := verifyNotHalted usb3 address (t.call 0) (t.io 0) d
      let r := usbControlMsg (t.call 1) usb3 (setHaltOf address) 0 first.2
      if first.1 < 0 then first
      else if r.status < 0 then (r.status, r.dum) else afterHalt usb3 address t r.dum := rfl

/-- The halt is verified and cleared, and the endpoint runs as before. -/
theorem afterHalt_tested (usb3 : Bool) (t : Trial) {d' : Dummy} (hruns : Runs d address ep)
    (hunwedged : d.wedged ep = false) (hset : Same d' (d.setHalted ep true)) :
    Tested d (t.call 2 = .answered ∧ ((t.io 1).Stalls ∧ (t.io 2).Stalls) ∧ t.call 3 = .answered ∧
      t.call 4 = .answered ∧ (t.io 3).Served)
      (fun ep' => Runs d address ep' ∧ ∃ errno, t.call 3 = .failed errno false)
      (afterHalt usb3 address t d') := by
  obtain ⟨hne, hep, hrun⟩ := id hruns
  have hep' : d'.findEndpoint address = some ep := (hset.findEndpoint address).trans hep
  have hlooks : LooksHalted d' ep := by
    rw [looksHalted_iff hne, hset.halted hne]
    simp [Dummy.setHalted]
  have hverified := verifyHalted_iff usb3 (t.call 2) (t.io 1) (t.io 2) hep' hlooks
  obtain ⟨hsame, hle, -⟩ := verifyHalted_spec usb3 address (t.call 2) (t.io 1) (t.io 2) d'
  simp only [afterHalt]
  generalize verifyHalted usb3 address (t.call 2) (t.io 1) (t.io 2) d' = shown at *
  have hshown : Same shown.2 (d.setHalted ep true) := hsame.trans hset
  obtain ⟨hle₂, hzero₂, hleft₂⟩ := usbClearHalt_cases (t.call 3) usb3
    ((hshown.findEndpoint address).trans hep) ((congrFun hshown.wedged ep).trans hunwedged)
  generalize usbClearHalt usb3 address (t.call 3) shown.2 = cleared at *
  have hleft : Same cleared.2 d ∨ cleared.1 < 0 ∧ (∃ errno, t.call 3 = .failed errno false) ∧
      Same cleared.2 (d.setHalted ep true) := by
    refine hleft₂.imp (fun hclear => hclear.trans (hshown.cleared hrun)) fun hkept => ?_
    exact ⟨hkept.1, hkept.2.1, hkept.2.2 ▸ hshown⟩
  have hstranded : Same cleared.2 d ∨ ∃ ep', (Runs d address ep' ∧
      ∃ errno, t.call 3 = .failed errno false) ∧ Same cleared.2 (d.setHalted ep' true) :=
    hleft.imp_right fun h => ⟨ep, ⟨hruns, h.2.1⟩, h.2.2⟩
  by_cases hv : shown.1 = 0
  · rw [if_neg hv.not_lt]
    by_cases hw : cleared.1 = 0
    · have hclear : Same cleared.2 d := hleft.resolve_right fun h => h.1.ne hw
      have hrun₂ : ¬LooksHalted cleared.2 ep := by
        rw [looksHalted_iff hne, hclear.halted hne, hrun]
        decide
      have hep₂ : cleared.2.findEndpoint address = some ep :=
        (hclear.findEndpoint address).trans hep
      have hfine := verifyNotHalted_iff usb3 (t.call 4) (t.io 3) hep₂ hrun₂
      obtain ⟨hlast, hle₃, -⟩ := verifyNotHalted_spec usb3 address (t.call 4) (t.io 3) cleared.2
      generalize verifyNotHalted usb3 address (t.call 4) (t.io 3) cleared.2 = last at *
      rw [if_neg hw.not_lt]
      by_cases hu : last.1 = 0
      · rw [if_neg hu.not_lt]
        obtain ⟨hcall, hstalls⟩ := hverified.mp hv
        exact ⟨le_rfl, iff_of_true rfl ⟨hcall, hstalls, hzero₂.mp hw, hfine.mp hu⟩,
          .inl (hlast.trans hclear)⟩
      · have hneg : last.1 < 0 := lt_of_le_of_ne hle₃ hu
        rw [if_pos hneg]
        exact .of_neg hneg (fun h => hu (hfine.mpr h.2.2.2)) (.inl (hlast.trans hclear))
    · have hneg : cleared.1 < 0 := lt_of_le_of_ne hle₂ hw
      rw [if_pos hneg]
      exact .of_neg hneg (fun h => hw (hzero₂.mpr h.2.2.1)) hstranded
  · have hneg : shown.1 < 0 := lt_of_le_of_ne hle hv
    rw [if_pos hneg]
    exact .of_neg hneg (fun h => hv (hverified.mpr ⟨h.1, h.2.1⟩)) hstranded

/-- The endpoint runs, and the trial is as the test wants it. -/
def Passes (d : Dummy) (address : Byte) (t : Trial) : Prop :=
  (∃ ep, Runs d address ep) ∧ t.Good

theorem Runs.eq_of_find {ep' : EpIdx} (h : Runs d address ep')
    (hep : d.findEndpoint address = some ep) : ep' = ep :=
  Option.some.inj (h.2.1.symm.trans hep)

theorem testHalt_tested (usb3 : Bool) (address : Byte) (t : Trial) (hwedged : WedgesHalt d) :
    Tested d (Passes d address t) (fun ep => Runs d address ep ∧ t.Strands)
      (testHalt usb3 address t d) := by
  obtain ⟨hsame, hle, hzero⟩ := verifyNotHalted_spec usb3 address (t.call 0) (t.io 0) d
  rw [testHalt_eq]
  generalize verifyNotHalted usb3 address (t.call 0) (t.io 0) d = first at *
  by_cases hv : first.1 = 0
  · obtain ⟨ep, ⟨hcall, hep⟩, hrun, hserved⟩ := hzero.mp hv
    have hep' : first.2.findEndpoint address = some ep := (hsame.findEndpoint address).trans hep
    have hset := setHalt_cases (t.call 1) usb3 hep'
    simp only [if_neg hv.not_lt]
    generalize usbControlMsg (t.call 1) usb3 (setHaltOf address) 0 first.2 = r at *
    have hruns (hne : ep ≠ 0) : Runs d address ep :=
      ⟨hne, hep, Bool.eq_false_iff.mpr (mt (looksHalted_iff hne).mpr hrun)⟩
    rcases hset with ⟨hstatus, hcall₁, hne, hhalted⟩ | ⟨hneg, hseen, hne, hhalted⟩ |
      ⟨hneg, hzero₁, hkept⟩
    · have hunwedged : d.wedged ep = false := Bool.eq_false_iff.mpr fun hw =>
        hrun ((looksHalted_iff hne).mpr (hwedged ep hw).2)
      have hafter := afterHalt_tested usb3 t (hruns hne) hunwedged
        (hhalted.trans (hsame.setHalted ep true))
      rw [if_neg hstatus.not_lt]
      refine Tested.mono ⟨hafter.nonpos, hafter.passes_iff.trans ?_, hafter.left⟩
        fun ep' h => ⟨h.1, .inr h.2⟩
      constructor
      · rintro ⟨h2, hstalls, h3, h4, hlast⟩
        refine ⟨⟨ep, hruns hne⟩, fun i hi => ?_, hserved, hstalls.1, hstalls.2, hlast⟩
        obtain rfl | rfl | rfl | rfl | rfl : i = 0 ∨ i = 1 ∨ i = 2 ∨ i = 3 ∨ i = 4 := by omega
        · exact hcall
        · exact hcall₁
        · exact h2
        · exact h3
        · exact h4
      · rintro ⟨-, hgood⟩
        have hall := hgood.answered
        exact ⟨hall 2 (by decide), ⟨hgood.stalled, hgood.still⟩, hall 3 (by decide),
          hall 4 (by decide), hgood.last⟩
    · rw [if_pos hneg]
      obtain ⟨errno, hfailed⟩ := hseen
      refine .of_neg hneg (fun h => ?_) (.inr ⟨ep, ⟨hruns hne, .inl ⟨errno, hfailed⟩⟩,
        hhalted.trans (hsame.setHalted ep true)⟩)
      cases (h.2.answered 1 (by decide)).symm.trans hfailed
    · rw [if_pos hneg]
      refine .of_neg hneg (fun h => ?_) (.inl (hkept.trans hsame))
      obtain ⟨⟨ep', hruns'⟩, hgood⟩ := h
      exact hruns'.1 ((hruns'.eq_of_find hep).trans (hzero₁ (hgood.answered 1 (by decide))))
  · have hneg : first.1 < 0 := lt_of_le_of_ne hle hv
    simp only [if_pos hneg]
    refine .of_neg hneg (fun h => hv (hzero.mpr ?_)) (.inl hsame)
    obtain ⟨⟨ep, hne, hep, hrun⟩, hgood⟩ := h
    refine ⟨ep, ⟨hgood.answered 0 (by decide), hep⟩, ?_, hgood.first⟩
    rw [looksHalted_iff hne, hrun]
    decide

/-! ## All rounds -/

section

variable {d' : Dummy} (h : Same d' d)

include h

theorem Same.runs : Runs d' address ep ↔ Runs d address ep := by
  unfold Runs
  rw [h.findEndpoint]
  exact and_congr_right fun hne => by rw [h.halted hne]

theorem Same.passes {t : Trial} : Passes d' address t ↔ Passes d address t := by
  simp only [Passes, h.runs]

theorem WedgesHalt.congr (hwedged : WedgesHalt d) : WedgesHalt d' := by
  intro ep hep
  obtain ⟨hne, hhalted⟩ := hwedged ep ((congrFun h.wedged ep).symm.trans hep)
  exact ⟨hne, (h.halted hne).trans hhalted⟩

/-- A test after one that has passed. -/
theorem Tested.after {passes : Prop} {strands : EpIdx → Prop} {r : ℤ × Dummy}
    (htest : Tested d' passes strands r) : Tested d passes strands r :=
  ⟨htest.nonpos, htest.passes_iff, htest.left.imp (·.trans h) fun ⟨hneg, ep, hep, hsame⟩ =>
    ⟨hneg, ep, hep, hsame.trans (h.setHalted ep true)⟩⟩

end

/-- The pipe, if there is one, is tested. -/
def PipePasses (d : Dummy) (pipe : Option Byte) (t : Trial) : Prop :=
  ∀ a, pipe = some a → Passes d a t

/-- The test of the pipe may leave the endpoint halted. -/
def PipeStrands (d : Dummy) (pipe : Option Byte) (t : Trial) (ep : EpIdx) : Prop :=
  ∃ a, pipe = some a ∧ Runs d a ep ∧ t.Strands

theorem testPipe_tested (hwedged : WedgesHalt d) (usb3 : Bool) (pipe : Option Byte) (t : Trial) :
    Tested d (PipePasses d pipe t) (PipeStrands d pipe t) (testPipe usb3 pipe t d) := by
  cases pipe with
  | none => exact ⟨le_rfl, iff_of_true rfl (fun a ha => by cases ha), .inl (Same.refl d)⟩
  | some address =>
    have htest := testHalt_tested usb3 address t hwedged
    refine Tested.mono ⟨htest.nonpos, htest.passes_iff.trans ?_, htest.left⟩
      fun ep h => ⟨address, rfl, h⟩
    simp [PipePasses]

/-- Every pipe that is there passes. -/
def Round.Passes (r : Round) (p : Pipes) (d : Dummy) : Prop :=
  r.allocated = true ∧ PipePasses d p.inPipe r.inTrial ∧ PipePasses d p.outPipe r.outTrial

def Round.Strands (r : Round) (p : Pipes) (d : Dummy) (ep : EpIdx) : Prop :=
  PipeStrands d p.inPipe r.inTrial ep ∨ PipeStrands d p.outPipe r.outTrial ep

theorem Same.pipePasses {d' : Dummy} (h : Same d' d) {pipe : Option Byte} {t : Trial} :
    PipePasses d' pipe t ↔ PipePasses d pipe t := by
  simp only [PipePasses, h.passes]

theorem Same.pipeStrands {d' : Dummy} (h : Same d' d) {pipe : Option Byte} {t : Trial} :
    PipeStrands d' pipe t ep ↔ PipeStrands d pipe t ep := by
  simp only [PipeStrands, h.runs]

theorem haltSimple_tested (hwedged : WedgesHalt d) (usb3 : Bool) (p : Pipes) (r : Round) :
    Tested d (r.Passes p d) (r.Strands p d) (haltSimple usb3 p r d) := by
  unfold haltSimple Round.Passes
  cases r.allocated with
  | false => exact .of_neg (by simp [ENOMEM]) (by simp) (.inl (Same.refl d))
  | true =>
    have hin := testPipe_tested hwedged usb3 p.inPipe r.inTrial
    rcases hpipe : testPipe usb3 p.inPipe r.inTrial d with ⟨v, d'⟩
    rw [hpipe] at hin
    simp only [Bool.not_true, Bool.false_eq_true, if_false, true_and]
    by_cases hv : v = 0
    · obtain rfl := hv
      have hsame : Same d' d := hin.restored rfl
      have hout :=
        (testPipe_tested (hwedged.congr hsame) usb3 p.outPipe r.outTrial).after hsame
      rw [if_neg (lt_irrefl 0)]
      refine Tested.mono ⟨hout.nonpos, hout.passes_iff.trans ?_, hout.left⟩
        fun ep h => .inr (hsame.pipeStrands.mp h)
      rw [and_iff_right (hin.passes_iff.mp rfl), hsame.pipePasses]
    · have hneg : v < 0 := lt_of_le_of_ne hin.nonpos hv
      rw [if_pos hneg]
      exact Tested.mono ⟨hin.nonpos, iff_of_false hv fun h => hv (hin.passes_iff.mpr h.1),
        hin.left⟩ fun ep h => .inl h

theorem haltRounds_tested (hwedged : WedgesHalt d) (usb3 : Bool) (p : Pipes) (rs : List Round) :
    Tested d (∀ r ∈ rs, r.Passes p d) (fun ep => ∃ r ∈ rs, r.Strands p d ep)
      (haltRounds usb3 p rs d) := by
  induction rs generalizing d with
  | nil => exact ⟨le_rfl, by simp [haltRounds], .inl (Same.refl d)⟩
  | cons r rs ih =>
    have hround := haltSimple_tested hwedged usb3 p r
    rw [haltRounds]
    rcases hfirst : haltSimple usb3 p r d with ⟨v, d'⟩
    rw [hfirst] at hround
    rw [List.forall_mem_cons]
    by_cases hv : v = 0
    · obtain rfl := hv
      have hsame : Same d' d := hround.restored rfl
      have hrest := (ih (hwedged.congr hsame)).after hsame
      simp only [if_true]
      refine Tested.mono ⟨hrest.nonpos, hrest.passes_iff.trans ?_, hrest.left⟩ ?_
      · rw [and_iff_right (hround.passes_iff.mp rfl)]
        simp only [Round.Passes, hsame.pipePasses]
      · rintro ep ⟨r', hr', hstrands⟩
        simp only [Round.Strands, hsame.pipeStrands] at hstrands
        exact ⟨r', List.mem_cons_of_mem r hr', hstrands⟩
    · simp only [if_neg hv]
      exact Tested.mono ⟨hround.nonpos, iff_of_false hv fun h => hv (hround.passes_iff.mpr h.1),
        hround.left⟩ fun ep h => ⟨r, List.mem_cons_self, h⟩

/-- The device has a pipe. -/
def Pipes.Any (p : Pipes) : Prop := p.outPipe ≠ none ∨ p.inPipe ≠ none

theorem haltTests_tested (hwedged : WedgesHalt d) (usb3 : Bool) (p : Pipes) (rs : List Round) :
    Tested d (p.Any ∧ ∀ r ∈ rs, r.Passes p d) (fun ep => ∃ r ∈ rs, r.Strands p d ep)
      (haltTests usb3 p rs d) := by
  have hany : p.Any ↔ ¬(p.outPipe = none ∧ p.inPipe = none) := not_and_or.symm
  unfold haltTests
  by_cases hnone : p.outPipe = none ∧ p.inPipe = none
  · rw [if_pos hnone]
    exact .of_neg (by simp [eOpNotSupp]) (fun h => hany.mp h.1 hnone) (.inl (Same.refl d))
  · rw [if_neg hnone, and_iff_right (hany.mpr hnone)]
    exact haltRounds_tested hwedged usb3 p rs

end

/-! ## In every run of the device -/

theorem wedgesHalt_of_agrees {d : Dummy} {stall : EpIdx → Stall} (h : Agrees d stall) :
    WedgesHalt d := by
  intro ep hep
  have hstall : stall ep = .wedged := (h.wedged ep).mp hep
  refine ⟨fun hzero => h.ep0 (hzero ▸ hstall), (h.halted ep).mpr ?_⟩
  rw [hstall]
  decide

/-- The pipe leads to the endpoint, which is enabled and runs. -/
def Ready (s : State) (address : Byte) (ep : EpIdx) : Prop :=
  ep ≠ 0 ∧ s.dum.findEndpoint address = some ep ∧ s.stall ep = .running

theorem runs_iff_ready {s : State} (h : Agrees s.dum s.stall) {address : Byte} {ep : EpIdx} :
    Runs s.dum address ep ↔ Ready s address ep := by
  have hrun : s.dum.halted ep = false ↔ s.stall ep = .running := by
    rw [← Bool.not_eq_true, h.halted, not_not]
  rw [Runs, Ready, hrun]

/-- The pipes of the device with what a round makes of them. -/
def Round.trials (r : Round) (p : Pipes) : List (Option Byte × Trial) :=
  [(p.inPipe, r.inTrial), (p.outPipe, r.outTrial)]

/-- Test 13 passes exactly if there is a pipe, and in every round every pipe is ready and its trial
is good. -/
theorem haltTests_pass_iff (queueEmpty : EpIdx → Bool) (es : List Event) (usb3 : Bool)
    (p : Pipes) (rs : List Round) :
    Always step (fun s => (haltTests usb3 p rs s.dum).1 = 0 ↔
      p.Any ∧ ∀ r ∈ rs, r.allocated = true ∧ ∀ a t, (some a, t) ∈ r.trials p →
        (∃ ep, Ready s a ep) ∧ t.Good)
      (start queueEmpty) es := by
  rw [always_iff]
  intro pre s _ hs
  have hagrees : Agrees s.dum s.stall := agrees_of_runs hs
  have htests := haltTests_tested (wedgesHalt_of_agrees hagrees) usb3 p rs
  rw [htests.passes_iff]
  refine and_congr_right fun _ => forall₂_congr fun r _ => and_congr_right fun _ => ?_
  simp only [PipePasses, Passes, runs_iff_ready hagrees, Round.trials, List.mem_cons,
    Prod.mk.injEq, List.not_mem_nil, or_false]
  constructor
  · rintro ⟨hin, hout⟩ a t (⟨hpipe, rfl⟩ | ⟨hpipe, rfl⟩)
    · exact hin a hpipe.symm
    · exact hout a hpipe.symm
  · intro h
    exact ⟨fun a hpipe => h a _ (.inl ⟨hpipe.symm, rfl⟩),
      fun a hpipe => h a _ (.inr ⟨hpipe.symm, rfl⟩)⟩

end FuzzUSB.Usbtest.Halt
