import FuzzUSB.UsbRawReplies

/-!
# Interfaces of an emulated device

`set_interface` disables the endpoints of the current interface and enables those of
another. `configure_device` selects the first interface, and `syz_usb_control_io` selects
the one that a request names.
-/

namespace FuzzUSB.UsbRaw
open Transition CLayout

/-- `USB_REQ_SET_INTERFACE` -/
def usbReqSetInterface : Byte := 11

/-- The endpoints that are enabled, by handle. -/
abbrev Handles := ℕ → Option (List Byte)

/-- How raw-gadget answers: the handle that `EP_ENABLE` gives to the endpoint number `ep` of
an interface, and whether `EP_DISABLE` disables a handle. -/
structure RawGadget where
  epEnable : Handles → ℕ → Option ℕ
  epDisable : Handles → ℕ → Bool

/-- A device with its index, the interface it is on, and its endpoints. -/
structure Device where
  index : UsbDeviceIndex
  ifaceCur : ℤ
  enabled : Handles

/-- A device whose descriptors have been parsed. -/
def Device.start (index : UsbDeviceIndex) : Device := ⟨index, -1, fun _ => none⟩

/-- `ifaces[n]`, if `n >= 0 && n < ifaces_num`. -/
def UsbDeviceIndex.iface (index : UsbDeviceIndex) (n : ℤ) : Option UsbIfaceIndex :=
  if 0 ≤ n then index.ifaces[n.toNat]? else none

/-- `lookup_interface` -/
def lookupInterface (index : UsbDeviceIndex) (bInterfaceNumber bAlternateSetting : Byte) : ℤ :=
  match index.ifaces.findIdx? fun iface =>
    iface.bInterfaceNumber = bInterfaceNumber ∧ iface.bAlternateSetting = bAlternateSetting with
  | some i => i
  | none => -1

/-- The first loop of `set_interface`, which disables by the number in the list. -/
def disableEps (raw : RawGadget) (epsNum : ℕ) (g : Handles) : Handles :=
  (List.range epsNum).foldl
    (fun g ep => if raw.epDisable g ep then Function.update g ep none else g) g

/-- The second loop, from the endpoint number `ep` on. -/
def enableEps (raw : RawGadget) : ℕ → List (List Byte) → Handles → Handles
  | _, [], g => g
  | ep, desc :: descs, g =>
    match raw.epEnable g ep with
    | some h => enableEps raw (ep + 1) descs (Function.update g h (some desc))
    | none => enableEps raw (ep + 1) descs g

/-- The endpoints of the current interface. -/
def Device.currentEps (dev : Device) : List (List Byte) :=
  match dev.index.iface dev.ifaceCur with
  | some iface => iface.eps
  | none => []

/-- `set_interface` -/
def setInterface (raw : RawGadget) (n : ℤ) (dev : Device) : Device :=
  let enabled := disableEps raw dev.currentEps.length dev.enabled
  match dev.index.iface n with
  | some iface => { dev with enabled := enableEps raw 0 iface.eps enabled, ifaceCur := n }
  | none => { dev with enabled := enabled }

/-- `configure_device`, with the results of the two calls that it starts with. -/
def configureDevice (raw : RawGadget) (vbusDraw configure : ℤ) (dev : Device) : ℤ × Device :=
  if vbusDraw < 0 then (vbusDraw, dev)
  else if configure < 0 then (configure, dev)
  else (0, setInterface raw 0 dev)

/-- What `syz_usb_control_io` is called with, and what it meets: the result of the fetch, the
request if the event is one, and the result of the transfer on endpoint 0. -/
structure ControlIo where
  descs : Option VusbDescriptors
  resps : Option VusbResponses
  fetch : ℤ
  event : Option CtrlRequest
  ep0 : ℤ

/-- What a request that is not answered with data does to the interface. -/
def selectInterface (raw : RawGadget) (ctrl : CtrlRequest) (dev : Device) : Device :=
  if ctrl.bRequestType &&& usbTypeMask = usbTypeStandard ∨
      ctrl.bRequest = usbReqSetInterface then
    -- The two parameters of `lookup_interface` are `uint8`.
    let ifaceIndex :=
      lookupInterface dev.index (ctrl.wIndex.setWidth 8) (ctrl.wValue.setWidth 8)
    if ifaceIndex < 0 then dev else setInterface raw ifaceIndex dev
  else dev

/-- `syz_usb_control_io`; the reply itself is `outcome`. -/
def syzUsbControlIo (raw : RawGadget) (io : ControlIo) (dev : Device) : ℤ × Device :=
  if io.fetch < 0 then (io.fetch, dev)
  else
    match io.event with
    | none => (-1, dev)
    | some ctrl =>
      let rv := if io.ep0 < 0 then io.ep0 else 0
      if ctrl.bRequestType &&& usbDirIn ≠ 0 ∧ ctrl.wLength ≠ 0 then
        match lookupControlResponse io.descs io.resps ctrl with
        | .found _ _ => (rv, dev)
        | _ => (-1, dev)
      else (rv, selectInterface raw ctrl dev)

/-! ## Which requests switch -/

/-- The interface and alternate setting that the request names are recorded in the index. -/
def CtrlRequest.Names (ctrl : CtrlRequest) (index : UsbDeviceIndex) : Prop :=
  ∃ iface ∈ index.ifaces, iface.bInterfaceNumber.toNat = ctrl.wIndex.toNat ∧
    iface.bAlternateSetting.toNat = ctrl.wValue.toNat

/-- A standard `SET_INTERFACE` for an interface of the index. -/
def CtrlRequest.SetsInterface (ctrl : CtrlRequest) (index : UsbDeviceIndex) : Prop :=
  ctrl.bRequestType &&& usbTypeMask = usbTypeStandard ∧ ctrl.bRequest = usbReqSetInterface ∧
    ctrl.Names index

/-- Whatever raw-gadget answers, the call leaves the interface and the endpoints as they are,
unless its request is a `SET_INTERFACE` for an interface of the index. -/
def FrameKept (dev : Device) (io : ControlIo) : Prop :=
  (∃ ctrl, io.event = some ctrl ∧ ctrl.SetsInterface dev.index) ∨
    ∀ raw, (syzUsbControlIo raw io dev).2.ifaceCur = dev.ifaceCur ∧
      (syzUsbControlIo raw io dev).2.enabled = dev.enabled

/-- The request gets past the guards in front of the lookup. -/
def Passes (io : ControlIo) (ctrl : CtrlRequest) : Prop :=
  0 ≤ io.fetch ∧ io.event = some ctrl ∧
    ¬(ctrl.bRequestType &&& usbDirIn ≠ 0 ∧ ctrl.wLength ≠ 0) ∧
    (ctrl.bRequestType &&& usbTypeMask = usbTypeStandard ∨ ctrl.bRequest = usbReqSetInterface)

/-- What the low bytes of `wIndex` and `wValue` lead to. -/
def CtrlRequest.target (ctrl : CtrlRequest) (index : UsbDeviceIndex) : ℤ :=
  lookupInterface index (ctrl.wIndex.setWidth 8) (ctrl.wValue.setWidth 8)

theorem CtrlRequest.target_cases (ctrl : CtrlRequest) (index : UsbDeviceIndex) :
    ctrl.target index < 0 ∨ ∃ iface, index.iface (ctrl.target index) = some iface := by
  unfold CtrlRequest.target lookupInterface
  split
  · next i hi =>
    obtain ⟨hlt, -⟩ := List.findIdx?_eq_some_iff_getElem.mp hi
    exact .inr ⟨index.ifaces[i], by simp [UsbDeviceIndex.iface, hlt]⟩
  · exact .inl (by decide)

/-- A call whose request does not get past the guards changes nothing. -/
theorem syzUsbControlIo_of_not_passes {io : ControlIo} (h : ∀ ctrl, ¬Passes io ctrl)
    (raw : RawGadget) (dev : Device) : (syzUsbControlIo raw io dev).2 = dev := by
  unfold syzUsbControlIo
  by_cases hfetch : io.fetch < 0
  · rw [if_pos hfetch]
  · rw [if_neg hfetch]
    cases hevent : io.event with
    | none => rfl
    | some ctrl =>
      dsimp only
      by_cases hin : ctrl.bRequestType &&& usbDirIn ≠ 0 ∧ ctrl.wLength ≠ 0
      · rw [if_pos hin]
        split <;> rfl
      · have hor := fun hor => h ctrl ⟨by omega, hevent, hin, hor⟩
        rw [if_neg hin, selectInterface, if_neg hor]

theorem syzUsbControlIo_of_passes {io : ControlIo} {ctrl : CtrlRequest} (h : Passes io ctrl)
    (raw : RawGadget) (dev : Device) :
    (syzUsbControlIo raw io dev).2 =
      if ctrl.target dev.index < 0 then dev else setInterface raw (ctrl.target dev.index) dev := by
  obtain ⟨hfetch, hevent, hin, hor⟩ := h
  unfold syzUsbControlIo
  rw [if_neg (by omega : ¬io.fetch < 0), hevent]
  dsimp only
  rw [if_neg hin, selectInterface, if_pos hor]
  rfl

theorem setInterface_of_iface {index : UsbDeviceIndex} {iface : UsbIfaceIndex} {n : ℤ}
    (h : index.iface n = some iface) (raw : RawGadget) (cur : ℤ) (g : Handles) :
    setInterface raw n ⟨index, cur, g⟩ = ⟨index, n,
      enableEps raw 0 iface.eps (disableEps raw (Device.currentEps ⟨index, cur, g⟩).length g)⟩ := by
  simp [setInterface, h]

theorem disableEps_succ (raw : RawGadget) (n : ℕ) (g : Handles) :
    disableEps raw (n + 1) g =
      if raw.epDisable (disableEps raw n g) n then Function.update (disableEps raw n g) n none
      else disableEps raw n g := by
  rw [disableEps, List.range_succ, List.foldl_concat]
  rfl

/-- Where every handle can be disabled, those of the list are. -/
theorem disableEps_apply {raw : RawGadget} (hfrees : ∀ g h, raw.epDisable g h = (g h).isSome)
    (n : ℕ) (g : Handles) (h : ℕ) : disableEps raw n g h = if h < n then none else g h := by
  induction n generalizing h with
  | zero => rfl
  | succ n ih =>
    rw [disableEps_succ, hfrees]
    by_cases hh : h = n
    · subst hh
      rw [if_pos (Nat.lt_succ_self h)]
      split
      · exact Function.update_self ..
      · next hnone => simpa using hnone
    · have hlt : h < n + 1 ↔ h < n := by omega
      simp only [hlt]
      split
      · rw [Function.update_of_ne hh, ih]
      · exact ih h

/-- A raw gadget that disables what is enabled, and enables nothing. -/
def refusing : RawGadget := ⟨fun _ _ => none, fun g h => (g h).isSome⟩

/-- A raw gadget that enables only the first endpoint of an interface, and on handle 0. -/
def enablingFirst : RawGadget where
  epEnable g ep := if ep = 0 ∧ (g 0).isNone then some 0 else none
  epDisable g h := (g h).isSome

theorem enableEps_refusing (ep : ℕ) (eps : List (List Byte)) (g : Handles) :
    enableEps refusing ep eps g = g := by
  induction eps generalizing ep with
  | nil => rfl
  | cons desc eps ih => exact ih (ep + 1)

theorem enableEps_enablingFirst_succ (ep : ℕ) (eps : List (List Byte)) (g : Handles) :
    enableEps enablingFirst (ep + 1) eps g = g := by
  induction eps generalizing ep with
  | nil => rfl
  | cons desc eps ih =>
    rw [enableEps]
    exact ih (ep + 1)

theorem enableEps_enablingFirst {g : Handles} (h : g 0 = none) (desc : List Byte)
    (eps : List (List Byte)) :
    enableEps enablingFirst 0 (desc :: eps) g = Function.update g 0 (some desc) := by
  have hzero : enablingFirst.epEnable g 0 = some 0 := by
    simp [enablingFirst, h]
  rw [enableEps, hzero]
  exact enableEps_enablingFirst_succ 0 eps _

/-- Selecting the current interface again can change what is enabled, if it has endpoints. -/
theorem exists_enabled_ne {index : UsbDeviceIndex} {iface : UsbIfaceIndex} {n : ℤ}
    (h : index.iface n = some iface) (heps : iface.eps ≠ []) (g : Handles) :
    ∃ raw, (setInterface raw n ⟨index, n, g⟩).enabled ≠ g := by
  have hcur : Device.currentEps ⟨index, n, g⟩ = iface.eps := by
    simp [Device.currentEps, h]
  have hpos := List.length_pos_iff.mpr heps
  by_cases hnone : ∀ j < iface.eps.length, g j = none
  · -- Nothing of the interface is enabled; its first endpoint may be this time.
    refine ⟨enablingFirst, fun heq => ?_⟩
    obtain ⟨desc, eps, hcons⟩ := List.exists_cons_of_ne_nil heps
    have hdis : disableEps enablingFirst iface.eps.length g 0 = none := by
      rw [disableEps_apply (fun _ _ => rfl), if_pos hpos]
    rw [setInterface_of_iface h, hcur, hcons, enableEps_enablingFirst (hcons ▸ hdis)] at heq
    have hzero := congrFun heq 0
    dsimp only at hzero
    rw [Function.update_self, hnone 0 hpos] at hzero
    cases hzero
  · -- One of its handles is in use; the endpoints may not be enabled again.
    simp only [not_forall] at hnone
    obtain ⟨j, hj, hne⟩ := hnone
    refine ⟨refusing, fun heq => hne ?_⟩
    rw [setInterface_of_iface h, hcur, enableEps_refusing] at heq
    have hjth := congrFun heq j
    dsimp only at hjth
    rw [disableEps_apply (fun _ _ => rfl), if_pos hj] at hjth
    exact hjth.symm

/-- Selecting an interface changes nothing, whatever raw-gadget answers, only if it is the
current one and has no endpoints. -/
theorem setInterface_frame_iff {dev : Device} {iface : UsbIfaceIndex} {n : ℤ}
    (h : dev.index.iface n = some iface) :
    (∀ raw, (setInterface raw n dev).ifaceCur = dev.ifaceCur ∧
      (setInterface raw n dev).enabled = dev.enabled) ↔
    n = dev.ifaceCur ∧ dev.currentEps = [] := by
  obtain ⟨index, cur, g⟩ := dev
  dsimp only at h ⊢
  simp only [setInterface_of_iface h]
  constructor
  · intro hframe
    obtain rfl : n = cur := (hframe refusing).1
    refine ⟨rfl, ?_⟩
    have hcur : Device.currentEps ⟨index, n, g⟩ = iface.eps := by
      simp [Device.currentEps, h]
    rw [hcur]
    by_contra heps
    obtain ⟨raw, hne⟩ := exists_enabled_ne h heps g
    rw [setInterface_of_iface h] at hne
    exact hne (hframe raw).2
  · rintro ⟨rfl, heps⟩ raw
    have hcur : iface.eps = [] := by
      simpa [Device.currentEps, h] using heps
    rw [heps, hcur]
    exact ⟨rfl, rfl⟩

/-- A call changes the interface or the endpoints only for a `SET_INTERFACE` of an interface
in the index exactly when a request that gets past the guards is one, or leads to no
interface, or to the current one, and that has no endpoints. -/
theorem frameKept_iff (dev : Device) (io : ControlIo) :
    FrameKept dev io ↔ ∀ ctrl, Passes io ctrl → ctrl.SetsInterface dev.index ∨
      ctrl.target dev.index < 0 ∨ (ctrl.target dev.index = dev.ifaceCur ∧ dev.currentEps = []) := by
  by_cases hpass : ∃ ctrl, Passes io ctrl
  · obtain ⟨ctrl, hpass⟩ := hpass
    have honly : ∀ ctrl', io.event = some ctrl' → ctrl' = ctrl := fun ctrl' hevent =>
      Option.some.inj (hevent.symm.trans hpass.2.1)
    have hall : (∀ raw, (syzUsbControlIo raw io dev).2.ifaceCur = dev.ifaceCur ∧
        (syzUsbControlIo raw io dev).2.enabled = dev.enabled) ↔ ctrl.target dev.index < 0 ∨
        (ctrl.target dev.index = dev.ifaceCur ∧ dev.currentEps = []) := by
      simp only [syzUsbControlIo_of_passes hpass]
      by_cases hneg : ctrl.target dev.index < 0
      · simp [hneg]
      · obtain ⟨iface, hiface⟩ := (ctrl.target_cases dev.index).resolve_left hneg
        simp only [hneg, if_false, false_or]
        exact setInterface_frame_iff hiface
    rw [FrameKept, hall]
    constructor
    · rintro (⟨ctrl', hevent, hsets⟩ | h) ctrl'' hpass''
      · rw [honly ctrl'' hpass''.2.1, ← honly ctrl' hevent]
        exact .inl hsets
      · rw [honly ctrl'' hpass''.2.1]
        exact .inr h
    · intro h
      exact (h ctrl hpass).imp_left fun hsets => ⟨ctrl, hpass.2.1, hsets⟩
  · have hno : ∀ ctrl, ¬Passes io ctrl := not_exists.mp hpass
    refine iff_of_true (.inr fun raw => ?_) fun ctrl h => absurd h (hno ctrl)
    rw [syzUsbControlIo_of_not_passes hno]
    exact ⟨rfl, rfl⟩

/-- The descriptors of a device with two interfaces without endpoints. -/
def twoInterfaceBytes : List Byte :=
  [18, 1, 0, 2, 0, 0, 0, 64, 0x6b, 0x1d, 1, 1, 0, 1, 0, 0, 0, 1] ++
  [9, 2, 27, 0, 2, 1, 0, 0x80, 50] ++
  [9, 4, 0, 0, 0, 255, 0, 0, 0] ++ [9, 4, 1, 0, 0, 255, 0, 0, 0]

/-- What they parse to. -/
def twoInterfaces : UsbDeviceIndex where
  dev := fun i => twoInterfaceBytes[i]?
  bMaxPower := 50
  configLength := 27
  ifaces := [⟨27, 0, 0, []⟩, ⟨36, 1, 0, []⟩]

/-- `CLEAR_FEATURE(ENDPOINT_HALT)` for endpoint 1. -/
def clearHalt : ControlIo where
  descs := none
  resps := none
  fetch := 0
  event := some ⟨0x02, 0x01, 0, 1, 0⟩
  ep0 := 0

/-- Clearing a halt selects the interface with the number of the endpoint. -/
theorem clear_halt_switches : ¬FrameKept ⟨twoInterfaces, 0, fun _ => none⟩ clearHalt := by
  rintro (⟨ctrl, hevent, -, hreq, -⟩ | h)
  · obtain rfl := Option.some.inj hevent
    exact absurd hreq (by decide)
  · exact absurd (h refusing).1 (by decide)

/-! ## What is enabled -/

/-- The first `k` handles are enabled, for endpoints of the list, and no others. -/
def Segment (k : ℕ) (eps : List (List Byte)) (g : Handles) : Prop :=
  (∀ h < k, ∃ desc ∈ eps, g h = some desc) ∧ ∀ h, k ≤ h → g h = none

/-- The enabled handles are an initial segment no longer than the list of endpoints of the
current interface, and the endpoints are of that list. -/
def Aligned (dev : Device) : Prop :=
  ∃ k ≤ dev.currentEps.length, Segment k dev.currentEps dev.enabled

/-- A raw gadget that takes the lowest free handle if `EP_ENABLE` does not fail, and fails to
disable only a handle that is free. -/
structure LowestFree extends RawGadget where
  lowest : ∀ g ep h, epEnable g ep = some h → g h = none ∧ ∀ h' < h, g h' ≠ none
  frees : ∀ g h, epDisable g h = (g h).isSome

/-- The `USB_RAW_EPS_NUM_MAX` handles of raw-gadget, the lowest free one of which is taken unless
`EP_ENABLE` fails for the endpoint number. -/
def takingLowest (fails : ℕ → Bool) : LowestFree where
  epEnable g ep := if fails ep then none else (List.range 30).find? fun h => (g h).isNone
  epDisable g h := (g h).isSome
  lowest g ep h hh := by
    split at hh
    · cases hh
    · obtain ⟨hfree, -, hbelow⟩ := List.find?_range_eq_some.mp hh
      refine ⟨Option.isNone_iff_eq_none.mp hfree, fun j hj => ?_⟩
      exact Option.isSome_iff_ne_none.mp (by simpa using hbelow j hj)
  frees _ _ := rfl

/-- The calls that select an interface. Each meets its own failures. -/
inductive Switch
  | setInterface (n : ℤ)
  | configureDevice (vbusDraw configure : ℤ)
  | syzUsbControlIo (io : ControlIo)

def switchStep (dev : Device) : LowestFree × Switch → Option Device
  | (raw, .setInterface n) => some (setInterface raw.toRawGadget n dev)
  | (raw, .configureDevice vbusDraw configure) =>
    some (configureDevice raw.toRawGadget vbusDraw configure dev).2
  | (raw, .syzUsbControlIo io) => some (syzUsbControlIo raw.toRawGadget io dev).2

variable {raw : LowestFree} {k : ℕ} {eps : List (List Byte)} {g : Handles}

/-- The next handle after a segment is the lowest free one. -/
theorem Segment.lowest (hk : Segment k eps g) {ep h : ℕ} (hh : raw.epEnable g ep = some h) :
    h = k := by
  obtain ⟨hfree, hbelow⟩ := raw.lowest g ep h hh
  rcases Nat.lt_trichotomy h k with hlt | heq | hgt
  · obtain ⟨desc, -, hdesc⟩ := hk.1 h hlt
    rw [hdesc] at hfree
    cases hfree
  · exact heq
  · exact absurd (hk.2 k (Nat.le_refl k)) (hbelow k hgt)

/-- One more endpoint of the list is enabled on the next handle. -/
theorem Segment.enable (hk : Segment k eps g) {desc : List Byte} (hdesc : desc ∈ eps) :
    Segment (k + 1) eps (Function.update g k (some desc)) := by
  constructor
  · intro h hh
    by_cases heq : h = k
    · subst heq
      exact ⟨desc, hdesc, Function.update_self ..⟩
    · rw [Function.update_of_ne heq]
      exact hk.1 h (by omega)
  · intro h hh
    rw [Function.update_of_ne (by omega)]
    exact hk.2 h (by omega)

theorem Segment.enableEps (raw : LowestFree) (hk : Segment k eps g) {descs : List (List Byte)}
    (hsub : descs ⊆ eps) (ep : ℕ) :
    ∃ k' ≤ k + descs.length, Segment k' eps (enableEps raw.toRawGadget ep descs g) := by
  induction descs generalizing k g ep with
  | nil => exact ⟨k, Nat.le_refl k, hk⟩
  | cons desc descs ih =>
    obtain ⟨hdesc, hsub⟩ := List.cons_subset.mp hsub
    rw [UsbRaw.enableEps]
    split
    · next h hh =>
      obtain rfl := hk.lowest hh
      obtain ⟨k', hle, hk'⟩ := ih (hk.enable hdesc) hsub (ep + 1)
      exact ⟨k', by rw [List.length_cons]; omega, hk'⟩
    · obtain ⟨k', hle, hk'⟩ := ih hk hsub (ep + 1)
      exact ⟨k', by rw [List.length_cons]; omega, hk'⟩

/-- Disabling by the numbers in the list disables everything, as the handles are a segment no
longer than that. -/
theorem Aligned.disableEps {dev : Device} (h : Aligned dev) :
    disableEps raw.toRawGadget dev.currentEps.length dev.enabled = fun _ => none := by
  obtain ⟨k, hle, hk⟩ := h
  funext j
  rw [disableEps_apply raw.frees]
  split
  · rfl
  · exact hk.2 j (by omega)

theorem Aligned.setInterface {dev : Device} (h : Aligned dev) (n : ℤ) :
    Aligned (setInterface raw.toRawGadget n dev) := by
  have hnone : ∀ eps, Segment 0 eps fun _ => none := fun eps => ⟨nofun, fun _ _ => rfl⟩
  unfold UsbRaw.setInterface
  rw [h.disableEps]
  dsimp only
  split
  · next iface hiface =>
    obtain ⟨k, hle, hk⟩ := (hnone iface.eps).enableEps raw (List.Subset.refl iface.eps) 0
    rw [Nat.zero_add] at hle
    exact ⟨k, by simpa [Device.currentEps, hiface] using hle,
      by simpa [Device.currentEps, hiface] using hk⟩
  · exact ⟨0, Nat.zero_le _, hnone _⟩

theorem Aligned.step {dev dev' : Device} {e : LowestFree × Switch} (h : Aligned dev)
    (hstep : switchStep dev e = some dev') : Aligned dev' := by
  obtain ⟨raw, call⟩ := e
  cases call with
  | setInterface n =>
    obtain rfl := Option.some.inj hstep
    exact h.setInterface n
  | configureDevice vbusDraw configure =>
    obtain rfl := Option.some.inj hstep
    unfold configureDevice
    split_ifs
    · exact h
    · exact h
    · exact h.setInterface 0
  | syzUsbControlIo io =>
    obtain rfl := Option.some.inj hstep
    by_cases hpass : ∃ ctrl, Passes io ctrl
    · obtain ⟨ctrl, hpass⟩ := hpass
      rw [syzUsbControlIo_of_passes hpass]
      split
      · exact h
      · exact h.setInterface _
    · rw [syzUsbControlIo_of_not_passes (not_exists.mp hpass)]
      exact h

/-- After every call of a run, what is enabled belongs to the current interface. -/
theorem always_aligned (index : UsbDeviceIndex) (calls : List (LowestFree × Switch)) :
    Always switchStep Aligned (.start index) calls := by
  rw [always_iff]
  intro pre dev _ hdev
  have hstart : Aligned (.start index) := ⟨0, Nat.zero_le _, nofun, fun _ _ => rfl⟩
  exact runs_invariant (fun _ _ _ h hstep => h.step hstep) hstart hdev

def bulkEndpoint (bEndpointAddress : Byte) : List Byte :=
  [9, 5, bEndpointAddress, 2, 0, 2, 0, 0, 0]

/-- The descriptors of a device with three endpoints on one interface and two on the other. -/
def fiveEndpointBytes : List Byte :=
  [18, 1, 0, 2, 0, 0, 0, 64, 0x6b, 0x1d, 1, 1, 0, 1, 0, 0, 0, 1] ++
  [9, 2, 72, 0, 2, 1, 0, 0x80, 50] ++
  [9, 4, 0, 0, 3, 255, 0, 0, 0] ++ bulkEndpoint 0x81 ++ bulkEndpoint 0x02 ++ bulkEndpoint 0x83 ++
  [9, 4, 1, 0, 2, 255, 0, 0, 0] ++ bulkEndpoint 0x81 ++ bulkEndpoint 0x02

def fiveEndpoints : UsbDeviceIndex where
  dev := fun i => fiveEndpointBytes[i]?
  bMaxPower := 50
  configLength := 72
  ifaces := [⟨27, 0, 0, [bulkEndpoint 0x81, bulkEndpoint 0x02, bulkEndpoint 0x83]⟩,
    ⟨63, 1, 0, [bulkEndpoint 0x81, bulkEndpoint 0x02]⟩]

/-- One endpoint is not enabled, then an interface is selected that there is not, then again one
is not enabled. -/
def partialSwitches : List (LowestFree × Switch) :=
  [(takingLowest fun _ => false, .configureDevice 0 0), (takingLowest (· = 0), .setInterface 1),
    (takingLowest fun _ => false, .setInterface 7), (takingLowest (· = 1), .setInterface 0)]

theorem always_aligned_partialSwitches :
    Always switchStep Aligned (.start fiveEndpoints) partialSwitches ∧
      (runs switchStep (.start fiveEndpoints) partialSwitches).map
        (fun dev => (dev.ifaceCur, (List.range 4).map dev.enabled)) =
      some (0, [some (bulkEndpoint 0x81), some (bulkEndpoint 0x83), none, none]) :=
  ⟨always_aligned fiveEndpoints partialSwitches, by decide⟩

end FuzzUSB.UsbRaw
