import FuzzUSB.Transition
import FuzzUSB.UsbtestEndpoints

/-!
# Devices that share an endpoint record

`usbtest_probe` binds an interface and records its endpoints in the static `usbtest_info` of
the table entry that matched. All interfaces matched to an entry share that record, and
`usbtest_disconnect` leaves it as it is. `fz_ioctl` takes its pipes and descriptors from it.
-/

namespace FuzzUSB.Usbtest
open Transition

/-- The static `usbtest_info` records, as they are configured. -/
inductive InfoId
  | ez1 | ez2 | fw | gz | genericFz | ecmFz | uac2Fz | ssFz | prtFz | phonetFz | audiosrcFz
  | hidFz | acmFz | um | um2 | generic
  deriving DecidableEq

/-- A record with fixed altsettings for the interfaces 0 to 2. -/
def fixAltInfo (name : String) (fixAltIntf0 fixAltIntf1 fixAltIntf2 : ℤ) : UsbtestInfo :=
  { name := name, needFixAlt := 1, fixAltIntf0 := fixAltIntf0, fixAltIntf1 := fixAltIntf1
    fixAltIntf2 := fixAltIntf2 }

def InfoId.info : InfoId → UsbtestInfo
  | ez1 => { name := "EZ-USB device", epIn := 2, epOut := 2 }
  | ez2 => { name := "FX2 device", epIn := 6, epOut := 2 }
  | fw => { name := "usb test device", epIn := 2, epOut := 2, autoconf := true, ctrlOut := true
            iso := true }
  | gz => { name := "Linux gadget zero", autoconf := true, ctrlOut := true, iso := true
            intr := true }
  | genericFz => { name := "generic" }
  | ecmFz => { name := "ecm/ncm/phonet", epIn := 2, epOut := 2 }
  | uac2Fz => { fixAltInfo "uac2/uac/" (-1) 1 1 with iso := true }
  | ssFz => { fixAltInfo "ss/" 1 (-1) (-1) with iso := true }
  | prtFz => fixAltInfo "prt/lb/serial" 0 (-1) (-1)
  | phonetFz => fixAltInfo "phonet" (-1) 1 (-1)
  | audiosrcFz => { fixAltInfo "audiosrc" (-1) 1 (-1) with iso := true }
  | hidFz => { fixAltInfo "hid" 0 (-1) (-1) with intr := true }
  | acmFz => fixAltInfo "acm/rndis/midi" (-1) 0 (-1)
  | um => { name := "Linux user mode test driver", autoconf := true }
  | um2 => { name := "Linux user mode ISO test driver", autoconf := true, iso := true }
  | generic => { name := "Generic USB device" }

/-- `struct usb_device_id`. -/
structure UsbDeviceId where
  matchFlags : BitVec 16
  idVendor : BitVec 16
  idProduct : BitVec 16
  driverInfo : InfoId
  deriving DecidableEq

/-- `USB_DEVICE`, which matches vendor and product. -/
def usbDevice (vend prod : BitVec 16) (driverInfo : InfoId) : UsbDeviceId :=
  ⟨3, vend, prod, driverInfo⟩

def idTable : List UsbDeviceId :=
  [usbDevice 0x0547 0x2235 .ez1, usbDevice 0x0547 0x0080 .ez1, usbDevice 0x04b4 0x8613 .ez2,
   usbDevice 0xfff0 0xfff0 .fw, usbDevice 0x0525 0xa4a0 .gz, usbDevice 0x0525 0xa411 .genericFz,
   usbDevice 0x0525 0xa412 .hidFz, usbDevice 0x0525 0xa414 .uac2Fz, usbDevice 0x0525 0xa413 .ecmFz,
   usbDevice 0x0525 0xa415 .ssFz, usbDevice 0x0525 0xa416 .prtFz, usbDevice 0x0525 0xa417 .phonetFz,
   usbDevice 0x0525 0xa418 .acmFz, usbDevice 0x0525 0xa419 .audiosrcFz, usbDevice 0x0525 0xa4a4 .um,
   usbDevice 0x0525 0xa4a3 .um2, ⟨0, 0, 0, .generic⟩]

/-- What the driver reads of a `struct usb_device`. -/
structure UsbDevice where
  idVendor : BitVec 16
  idProduct : BitVec 16
  lowSpeed : Bool

/-- The interfaces `ι` of the devices `δ`, the pipe macros, and the module parameters that
are fixed when the module is loaded. -/
structure Bus (ι δ : Type*) where
  device : ι → δ
  interface : ι → UsbInterface
  udev : δ → UsbDevice
  pipe : δ → Slot → BitVec 8 → U32
  forceInterrupt : Bool
  vendor : BitVec 16
  product : BitVec 16

/-- The outcomes of the calls of `usbtest_probe`, and `override_alt` at that time. -/
structure ProbeEnv where
  allocDev : Bool
  allocBuf : Bool
  setInterface : ℤ
  overrideAlt : ℤ

/-- The altsetting that `info` fixes for an interface number. -/
def fixAlt (info : UsbtestInfo) (intfNum : ℕ) : Option ℤ :=
  if -1 < info.fixAltIntf0 ∧ intfNum = 0 then some info.fixAltIntf0
  else if -1 < info.fixAltIntf1 ∧ intfNum = 1 then some info.fixAltIntf1
  else if -1 < info.fixAltIntf2 ∧ intfNum = 2 then some info.fixAltIntf2
  else none

/-- `in_pipe` and `out_pipe` from `ep_in` and `ep_out`, with the pipe macros of two slots. -/
def fixedPipes (pipe : Slot → BitVec 8 → U32) (rcv snd : Slot) (info : UsbtestInfo) :
    Endpoints where
  pipe slot :=
    if slot = .inBulk ∧ info.epIn ≠ 0 then pipe rcv info.epIn
    else if slot = .outBulk ∧ info.epOut ≠ 0 then pipe snd info.epOut
    else 0
  desc _ := none

/-- What a probe leaves: the endpoints of `dev`, and those also recorded in `dev->info`. -/
structure Probed where
  eps : Endpoints
  found : Found

section

variable {ι δ : Type*} (bus : Bus ι δ)

/-- `bInterfaceNumber` of the first altsetting. -/
def Bus.intfNum (intf : ι) : ℕ :=
  ((bus.interface intf).altsetting.head (bus.interface intf).nonempty).bInterfaceNumber.toNat

/-- The probe uses the interrupt pipes of the entry. -/
def Bus.interrupts (intf : ι) : Bool :=
  bus.forceInterrupt || (bus.udev (bus.device intf)).lowSpeed

def usbtestProbe (intf : ι) (id : UsbDeviceId) (env : ProbeEnv) : Except ℤ Probed :=
  let udev := bus.udev (bus.device intf)
  let pipe := bus.pipe (bus.device intf)
  let info := id.driverInfo.info
  if id.matchFlags = 0 ∧ (bus.vendor = 0 ∨ udev.idVendor ≠ bus.vendor) then .error (-ENODEV)
  else if id.matchFlags = 0 ∧ bus.product ≠ 0 ∧ udev.idProduct ≠ bus.product then .error (-ENODEV)
  else if env.allocDev = false then .error (-ENOMEM)
  else if env.allocBuf = false then .error (-ENOMEM)
  else if bus.interrupts intf then .ok ⟨fixedPipes pipe .inInt .outInt info, fun _ => none⟩
  else if info.needFixAlt ≠ 0 then
    match fixAlt info (bus.intfNum intf) with
    | some alt =>
      (fzGetEndpoints info env.setInterface (bus.interface intf) alt).map fun found =>
        ⟨record pipe found .zero, found⟩
    -- Bound all the same, with no endpoints.
    | none => .ok ⟨.zero, fun _ => none⟩
  else if 0 ≤ env.overrideAlt ∨ info.autoconf = true then
    (getEndpoints info env.setInterface env.overrideAlt (bus.interface intf)).map fun found =>
      ⟨record pipe found .zero, fun _ => none⟩
  else .ok ⟨fixedPipes pipe .inBulk .outBulk info, fun _ => none⟩

end

/-- `struct usbtest_dev`. -/
structure UsbtestDev where
  info : InfoId
  eps : Endpoints

/-- What `usb_get_intfdata` returns, and the endpoints in the static records. `owner` is
the interface for which an endpoint was recorded, as long as it stays bound. -/
structure DriverState (ι : Type*) where
  intfdata : ι → Option UsbtestDev
  infos : InfoId → Endpoints
  owner : InfoId → Slot → Option ι

def DriverState.start {ι : Type*} : DriverState ι :=
  ⟨fun _ => none, fun _ => .zero, fun _ _ => none⟩

/-- What happens to the driver: the USB core matches an interface to an entry of the table or
unbinds it, or an `is_fz` request is issued on it. -/
inductive BusEvent (ι : Type*)
  | probe (intf : ι) (id : UsbDeviceId) (env : ProbeEnv)
  | disconnect (intf : ι)
  | fuzz (intf : ι) (param : UsbtestParam32)

section

variable {ι δ : Type*} [DecidableEq ι] (bus : Bus ι δ)

/-- `usb_set_intfdata` and the assignments to `dev->info` of a probe that succeeds. -/
def DriverState.bind (s : DriverState ι) (intf : ι) (info : InfoId) (p : Probed) :
    DriverState ι where
  intfdata := Function.update s.intfdata intf (some ⟨info, p.eps⟩)
  infos := Function.update s.infos info
    (record (bus.pipe (bus.device intf)) p.found (s.infos info))
  owner := Function.update s.owner info fun slot =>
    if (p.found slot).isSome then some intf else s.owner info slot

/-- `usbtest_disconnect`. -/
def usbtestDisconnect (s : DriverState ι) (intf : ι) : DriverState ι :=
  { s with
    intfdata := Function.update s.intfdata intf none
    owner := fun info slot =>
      if s.owner info slot = some intf then none else s.owner info slot }

def busStep (s : DriverState ι) : BusEvent ι → Option (DriverState ι)
  | .probe intf id env =>
    if (s.intfdata intf).isNone ∧ id ∈ idTable then
      match usbtestProbe bus intf id env with
      | .ok p => some (s.bind bus intf id.driverInfo p)
      | .error _ => some s
    else none
  | .disconnect intf => if (s.intfdata intf).isSome then some (usbtestDisconnect s intf) else none
  | .fuzz intf param => if (s.intfdata intf).isSome ∧ param.isFz ≠ 0 then some s else none

end

/-! ## What is recorded for an interface -/

/-- The endpoints of the altsetting that `id` fixes for an interface, if it is usable. -/
def fixedFound {ι δ : Type*} (bus : Bus ι δ) (id : InfoId) (intf : ι) : Found :=
  if bus.interrupts intf = false ∧ id.info.needFixAlt ≠ 0 then
    match (fixAlt id.info (bus.intfNum intf)).bind fun alt =>
        (bus.interface intf).altsetting[alt.toNat]? with
    | some alt => if usable (offered id.info alt) then offered id.info alt else fun _ => none
    | none => fun _ => none
  else fun _ => none

section

variable {ι δ : Type*} {bus : Bus ι δ}

theorem fixAlt_nonneg {info : UsbtestInfo} {intfNum : ℕ} {alt : ℤ}
    (h : fixAlt info intfNum = some alt) : 0 ≤ alt := by
  unfold fixAlt at h
  split at h
  · obtain rfl := Option.some.inj h
    omega
  · split at h
    · obtain rfl := Option.some.inj h
      omega
    · split at h
      · obtain rfl := Option.some.inj h
        omega
      · cases h

theorem fzGetEndpoints_ok {info : UsbtestInfo} {setInterface fixAlt : ℤ} {intf : UsbInterface}
    {found : Found} (hfix : 0 ≤ fixAlt)
    (h : fzGetEndpoints info setInterface intf fixAlt = .ok found) :
    found = match intf.altsetting[fixAlt.toNat]? with
      | some alt => if usable (offered info alt) then offered info alt else fun _ => none
      | none => fun _ => none := by
  rw [fzGetEndpoints, fzSearch_zero, if_pos hfix] at h
  cases halt : intf.altsetting[fixAlt.toNat]? with
  | none =>
    rw [halt] at h
    exact (Except.ok.inj h).symm
  | some alt =>
    rw [halt, Option.bind_some] at h
    by_cases hu : usable (offered info alt) = true
    · rw [if_pos hu, selected] at h
      split at h
      · cases h
      · rw [← Except.ok.inj h]
        exact (if_pos hu).symm
    · rw [if_neg hu] at h
      rw [← Except.ok.inj h]
      exact (if_neg hu).symm

/-- A probe that succeeds records in `dev->info` what its entry fixes for the interface. -/
theorem found_of_probe {intf : ι} {id : UsbDeviceId} {env : ProbeEnv} {p : Probed}
    (h : usbtestProbe bus intf id env = .ok p) : p.found = fixedFound bus id.driverInfo intf := by
  unfold usbtestProbe at h
  unfold fixedFound
  dsimp only at h
  split_ifs at h with _ _ _ _ hint hfix
  · obtain rfl := Except.ok.inj h
    rw [if_neg (by simp [hint])]
  · rw [if_pos ⟨by simpa using hint, hfix⟩]
    cases halt : fixAlt id.driverInfo.info (bus.intfNum intf) with
    | none =>
      rw [halt] at h
      rw [← Except.ok.inj h]
      rfl
    | some alt =>
      simp only [halt] at h
      cases hget : fzGetEndpoints id.driverInfo.info env.setInterface (bus.interface intf) alt with
      | error e => simp [hget, Except.map] at h
      | ok found =>
        rw [hget] at h
        rw [← Except.ok.inj h, Option.bind_some]
        exact fzGetEndpoints_ok (fixAlt_nonneg halt) hget
  · rw [if_neg (by simp [hfix])]
    cases hget : getEndpoints id.driverInfo.info env.setInterface env.overrideAlt
        (bus.interface intf) with
    | error e => simp [hget, Except.map] at h
    | ok found =>
      rw [hget] at h
      rw [← Except.ok.inj h]
  · rw [← Except.ok.inj h, if_neg (by simp [hfix])]

end

/-! ## The endpoints of a fuzzing request -/

/-- The endpoints that `fz_ioctl` hands on for a request. -/
def fzSlots (param : UsbtestParam32) : List Slot :=
  if param.isSetAlt ≠ 0 ∨ param.isCtrl ≠ 0 then []
  else
    (if param.isBulk ≠ 0 then [if param.isDirOut ≠ 0 then .outBulk else .inBulk] else []) ++
    (if param.isInt ≠ 0 then [if param.isDirOut ≠ 0 then .outInt else .inInt] else []) ++
    (if param.isIso ≠ 0 then [if param.isDirOut ≠ 0 then .outIso else .inIso] else [])

/-- The call that hands on an endpoint of the record `info`. -/
def fzCall (info : Endpoints) (param : UsbtestParam32) (slot : Slot) : Op :=
  match slot with
  | .outBulk => .hostFuzz param.iterations (hostData param) (info.pipe slot) "test17"
  | .inBulk => .hostFuzz param.iterations (hostData param) (info.pipe slot) "test18"
  | .outInt => .hostFuzzInt param.iterations param.length (info.pipe slot) 0 "test25"
  | .inInt => .hostFuzzInt param.iterations param.length (info.pipe slot) 0 "test26"
  | .outIso => hostFuzzIso param (info.pipe slot) (info.desc slot)
  | .inIso => hostFuzzIso param (info.pipe slot) (info.desc slot)

theorem directed_eq_map (kind dirOut : U32) (call : Slot → Op) (out inward : Slot) :
    (if kind ≠ 0 ∧ dirOut ≠ 0 then [call out] else []) ++
        (if kind ≠ 0 ∧ dirOut = 0 then [call inward] else []) =
      (if kind ≠ 0 then [if dirOut ≠ 0 then out else inward] else []).map call := by
  by_cases hkind : kind = 0#32 <;> by_cases hout : dirOut = 0#32 <;> simp [hkind, hout]

/-- The calls of `fz_ioctl` that hand on endpoints are those of `fzSlots`. -/
theorem fzCalls_eq_map {param : UsbtestParam32} (hset : param.isSetAlt = 0)
    (hctrl : param.isCtrl = 0) (info : Endpoints) :
    fzCalls info param = (fzSlots param).map (fzCall info param) := by
  have hno : ¬(param.isSetAlt ≠ 0 ∨ param.isCtrl ≠ 0) := fun h => h.elim (· hset) (· hctrl)
  rw [fzCalls, fzSlots, if_neg (not_not.mpr hset), if_neg (not_not.mpr hctrl), if_neg hno,
    List.map_append, List.map_append,
    ← directed_eq_map, ← directed_eq_map, ← directed_eq_map]
  simp only [List.append_assoc]
  rfl

section

variable {ι δ : Type*} {bus : Bus ι δ}

/-- The endpoint of `id` for a slot was recorded for an interface that is still bound and
belongs to the device of `intf`, and the record holds the endpoint that this interface
offers. -/
def OwnEndpoint (bus : Bus ι δ) (s : DriverState ι) (intf : ι) (id : InfoId) (slot : Slot) : Prop :=
  ∃ i dev e, s.owner id slot = some i ∧ s.intfdata i = some dev ∧ dev.info = id ∧
    bus.device i = bus.device intf ∧ fixedFound bus id i slot = some e ∧
    (s.infos id).pipe slot = bus.pipe (bus.device intf) slot (e.bEndpointAddress &&& 0x0f) ∧
    (slot.keepsDesc → (s.infos id).desc slot = some e)

/-- If the event is a fuzzing request, every endpoint it hands on is of the device it is
issued on. -/
def HandsOwnEndpoints (bus : Bus ι δ) (s : DriverState ι) (e : BusEvent ι) : Prop :=
  ∀ intf param dev, e = .fuzz intf param → s.intfdata intf = some dev →
    ∀ slot ∈ fzSlots param, OwnEndpoint bus s intf dev.info slot

/-- The event is a successful probe of `i`, matched to the entry of `id`, and the altsetting
fixed for `i` offers the slot. -/
def Records (bus : Bus ι δ) (e : BusEvent ι) (id : InfoId) (slot : Slot) (i : ι) : Prop :=
  ∃ uid env p, e = .probe i uid env ∧ uid.driverInfo = id ∧
    usbtestProbe bus i uid env = .ok p ∧ (fixedFound bus id i slot).isSome

/-- The history's last recording of a slot of `id` is for `i`, and `i` was not disconnected
since. -/
def LastRecord (bus : Bus ι δ) (past : List (BusEvent ι)) (id : InfoId) (slot : Slot) (i : ι) :
    Prop :=
  ∃ before e since, past = before ++ e :: since ∧ Records bus e id slot i ∧
    .disconnect i ∉ since ∧ ∀ e' ∈ since, ∀ j, ¬Records bus e' id slot j

theorem lastRecord_concat {past : List (BusEvent ι)} {e : BusEvent ι} {id : InfoId} {slot : Slot}
    {i : ι} : LastRecord bus (past ++ [e]) id slot i ↔ Records bus e id slot i ∨
      (LastRecord bus past id slot i ∧ e ≠ .disconnect i ∧ ∀ j, ¬Records bus e id slot j) := by
  constructor
  · rintro ⟨before, e', since, hsplit, hrec, hbound, hlast⟩
    rcases concat_eq_split.mp hsplit with ⟨since', rfl, rfl⟩ | ⟨rfl, rfl, rfl⟩
    · refine .inr ⟨⟨before, e', since', rfl, hrec, fun h => hbound (by simp [h]),
        fun e'' he'' => hlast e'' (by simp [he''])⟩, ?_, hlast e (by simp)⟩
      rintro rfl
      exact hbound (by simp)
    · exact .inl hrec
  · rintro (hrec | ⟨⟨before, e', since, rfl, hrec, hbound, hlast⟩, hne, hnot⟩)
    · exact ⟨past, e, [], rfl, hrec, by simp, by simp⟩
    · refine ⟨before, e', since ++ [e], by simp, hrec, by simpa using ⟨hbound, hne.symm⟩, ?_⟩
      intro e'' he''
      rcases List.mem_append.mp he'' with h | h
      · exact hlast e'' h
      · rw [List.mem_singleton.mp h]
        exact hnot

theorem records_probe_iff {i j : ι} {uid : UsbDeviceId} {env : ProbeEnv} {p : Probed} {id : InfoId}
    {slot : Slot} (hprobe : usbtestProbe bus i uid env = .ok p) :
    Records bus (.probe i uid env) id slot j ↔
      j = i ∧ id = uid.driverInfo ∧ (p.found slot).isSome := by
  constructor
  · rintro ⟨uid', env', p', heq, rfl, hok, hsome⟩
    obtain ⟨rfl, rfl, rfl⟩ := BusEvent.probe.inj heq
    exact ⟨rfl, rfl, by rwa [found_of_probe hprobe]⟩
  · rintro ⟨rfl, rfl, hsome⟩
    exact ⟨uid, env, p, rfl, rfl, hprobe, by rwa [← found_of_probe hprobe]⟩

variable [DecidableEq ι]

/-- What an event does to the driver. -/
theorem busStep_cases {s t : DriverState ι} {e : BusEvent ι} (h : busStep bus s e = some t) :
    (∃ i uid env p, e = .probe i uid env ∧ s.intfdata i = none ∧
      usbtestProbe bus i uid env = .ok p ∧ t = s.bind bus i uid.driverInfo p) ∨
    (∃ i, e = .disconnect i ∧ t = usbtestDisconnect s i) ∨
    (t = s ∧ (∀ i, e ≠ .disconnect i) ∧ ∀ id slot i, ¬Records bus e id slot i) := by
  cases e with
  | probe i uid env =>
    simp only [busStep, Option.ite_none_right_eq_some] at h
    obtain ⟨⟨hfree, -⟩, h⟩ := h
    cases hprobe : usbtestProbe bus i uid env with
    | ok p =>
      simp only [hprobe, Option.some.injEq] at h
      exact .inl ⟨i, uid, env, p, rfl, Option.isNone_iff_eq_none.mp hfree, hprobe, h.symm⟩
    | error err =>
      simp only [hprobe, Option.some.injEq] at h
      refine .inr (.inr ⟨h.symm, by simp, ?_⟩)
      rintro id slot j ⟨uid', env', p, heq, -, hok, -⟩
      obtain ⟨rfl, rfl, rfl⟩ := BusEvent.probe.inj heq
      simp [hprobe] at hok
  | disconnect i =>
    simp only [busStep, Option.ite_none_right_eq_some, Option.some.injEq] at h
    exact .inr (.inl ⟨i, rfl, h.2.symm⟩)
  | fuzz i param =>
    simp only [busStep, Option.ite_none_right_eq_some, Option.some.injEq] at h
    exact .inr (.inr ⟨h.2.symm, by simp, by rintro id slot j ⟨uid, env, p, heq, -⟩; cases heq⟩)

theorem owner_step {s t : DriverState ι} {e : BusEvent ι} (h : busStep bus s e = some t)
    (id : InfoId) (slot : Slot) (i : ι) :
    t.owner id slot = some i ↔ Records bus e id slot i ∨
      (s.owner id slot = some i ∧ e ≠ .disconnect i ∧ ∀ j, ¬Records bus e id slot j) := by
  rcases busStep_cases h with ⟨k, uid, env, p, rfl, -, hprobe, rfl⟩ | ⟨k, rfl, rfl⟩ | ⟨rfl, hd, hr⟩
  · simp only [records_probe_iff hprobe, DriverState.bind, Function.update_apply]
    by_cases hid : id = uid.driverInfo <;> by_cases hfound : (p.found slot).isSome <;>
      simp [hid, hfound, eq_comm]
  · have hno : ∀ j, ¬Records bus (.disconnect k) id slot j := by
      rintro j ⟨uid, env, p, heq, -⟩
      cases heq
    by_cases hk : s.owner id slot = some k
    · simp only [usbtestDisconnect, hk]
      simp [hno, eq_comm]
    · simp only [usbtestDisconnect, hk, if_false, hno, false_or, ne_eq, BusEvent.disconnect.injEq,
        not_false_eq_true, implies_true, and_true]
      refine ⟨fun hi => ⟨hi, fun hki => hk (hki ▸ hi)⟩, And.left⟩
  · simp [hd, hr]

/-- The owner of a recorded endpoint can be read off the history. -/
theorem owner_iff_lastRecord {past : List (BusEvent ι)} {s : DriverState ι}
    (h : runs (busStep bus) .start past = some s) (id : InfoId) (slot : Slot) (i : ι) :
    s.owner id slot = some i ↔ LastRecord bus past id slot i := by
  induction past using List.reverseRecOn generalizing s i with
  | nil =>
    obtain rfl := Option.some.inj h
    simp [DriverState.start, LastRecord]
  | append_singleton past e ih =>
    rw [runs_concat] at h
    obtain ⟨u, hu, hs⟩ := Option.bind_eq_some_iff.mp h
    rw [owner_step hs, lastRecord_concat, ih hu]

/-- A slot with an owner holds the endpoint that its owner offers, and the owner is bound. -/
def Recorded (bus : Bus ι δ) (s : DriverState ι) : Prop :=
  ∀ id slot i, s.owner id slot = some i → ∃ dev e, s.intfdata i = some dev ∧ dev.info = id ∧
    fixedFound bus id i slot = some e ∧
    (s.infos id).pipe slot = bus.pipe (bus.device i) slot (e.bEndpointAddress &&& 0x0f) ∧
    (slot.keepsDesc → (s.infos id).desc slot = some e)

theorem Recorded.step {s t : DriverState ι} {e : BusEvent ι} (hs : Recorded bus s)
    (h : busStep bus s e = some t) : Recorded bus t := by
  intro id slot i hi
  rcases busStep_cases h with ⟨k, uid, env, p, rfl, hfree, hprobe, rfl⟩ | ⟨k, rfl, rfl⟩ | ⟨rfl, -⟩
  -- A probe writes the slots it found, in the record of its entry.
  · by_cases hnew : id = uid.driverInfo ∧ (p.found slot).isSome
    · obtain ⟨rfl, hsome⟩ := hnew
      obtain ⟨e, he⟩ := Option.isSome_iff_exists.mp hsome
      obtain rfl : k = i := by simpa [DriverState.bind, he] using hi
      refine ⟨⟨uid.driverInfo, p.eps⟩, e, ?_, rfl, by rw [← found_of_probe hprobe, he], ?_⟩
      · simp [DriverState.bind]
      · simpa [DriverState.bind] using record_of_found he _
    · -- An older recording: its owner is bound, so it is not the interface probed now.
      have hold : s.owner id slot = some i := by
        by_cases hid : id = uid.driverInfo
        · subst hid
          have hnone : (p.found slot).isSome = false := by simpa using hnew
          simpa [DriverState.bind, hnone] using hi
        · simpa [DriverState.bind, hid] using hi
      obtain ⟨dev, e, hdev, hinfo, hfound, hpipe, hdesc⟩ := hs id slot i hold
      have hik : i ≠ k := by
        rintro rfl
        simp [hfree] at hdev
      refine ⟨dev, e, by simpa [DriverState.bind, hik] using hdev, hinfo, hfound, ?_⟩
      by_cases hid : id = uid.driverInfo
      · subst hid
        have hnone : p.found slot = none := by simpa using hnew
        obtain ⟨hp, hd⟩ := record_of_not_found (bus.pipe (bus.device k)) hnone
          (s.infos uid.driverInfo)
        simp only [DriverState.bind, Function.update_self, hp, hd]
        exact ⟨hpipe, hdesc⟩
      · simpa [DriverState.bind, hid] using ⟨hpipe, hdesc⟩
  · have hne : s.owner id slot ≠ some k := by
      intro hk
      simp [usbtestDisconnect, hk] at hi
    have hold : s.owner id slot = some i := by simpa [usbtestDisconnect, hne] using hi
    have hik : i ≠ k := fun hik => hne (hik ▸ hold)
    obtain ⟨dev, e, hdev, hrest⟩ := hs id slot i hold
    exact ⟨dev, e, by simpa [usbtestDisconnect, hik] using hdev, hrest⟩
  · exact hs id slot i hi

theorem recorded_of_runs {past : List (BusEvent ι)} {s : DriverState ι}
    (h : runs (busStep bus) .start past = some s) : Recorded bus s :=
  runs_invariant (fun _ _ _ hs hstep => hs.step hstep)
    (fun _ _ _ hi => by simp [DriverState.start] at hi) h

theorem ownEndpoint_iff {past : List (BusEvent ι)} {s : DriverState ι}
    (h : runs (busStep bus) .start past = some s) (intf : ι) (id : InfoId) (slot : Slot) :
    OwnEndpoint bus s intf id slot ↔
      ∃ i, LastRecord bus past id slot i ∧ bus.device i = bus.device intf := by
  constructor
  · rintro ⟨i, dev, e, howner, -, -, hdev, -⟩
    exact ⟨i, (owner_iff_lastRecord h id slot i).mp howner, hdev⟩
  · rintro ⟨i, hlast, hdev⟩
    have howner := (owner_iff_lastRecord h id slot i).mpr hlast
    obtain ⟨dev, e, hbound, hinfo, hfound, hpipe, hdesc⟩ := recorded_of_runs h id slot i howner
    exact ⟨i, dev, e, howner, hbound, hinfo, hdev, hfound, hdev ▸ hpipe, hdesc⟩

/-- In a run of probes, disconnects and fuzzing requests, every endpoint handed on belongs to
a bound interface of the same device exactly when, at each request, every endpoint it uses was
last recorded in the record of its table entry for an interface of that device which was not
disconnected since. -/
theorem handsOwnEndpoints_iff (bus : Bus ι δ) (es : List (BusEvent ι)) :
    AlwaysStep (busStep bus) (HandsOwnEndpoints bus) .start es ↔
      ∀ past intf param s dev, past ++ [.fuzz intf param] <+: es → param.isFz ≠ 0 →
        runs (busStep bus) .start past = some s → s.intfdata intf = some dev →
          ∀ slot ∈ fzSlots param, ∃ i, LastRecord bus past dev.info slot i ∧
            bus.device i = bus.device intf := by
  rw [alwaysStep_iff]
  constructor
  · intro h past intf param s dev hpre hfz hs hdev slot hslot
    have hstep : busStep bus s (.fuzz intf param) = some s := if_pos ⟨by simp [hdev], hfz⟩
    exact (ownEndpoint_iff hs intf dev.info slot).mp
      (h past _ s s hpre hs hstep intf param dev rfl hdev slot hslot)
  · rintro h past _ s t hpre hs hstep intf param dev rfl hdev slot hslot
    have hfz : param.isFz ≠ 0 := by
      simp only [busStep, Option.ite_none_right_eq_some] at hstep
      exact hstep.1.2
    exact (ownEndpoint_iff hs intf dev.info slot).mpr
      (h past intf param s dev hpre hfz hs hdev slot hslot)

end

/-- Two gadgets of the vendor and product that the table gives to printers, each with one
interface that has a bulk endpoint in each direction. -/
def twoPrinters : Bus Bool Bool where
  device i := i
  interface _ := ⟨[⟨0, 0, [⟨0x81, 2, 512, 0⟩, ⟨0x01, 2, 512, 0⟩]⟩], by decide⟩
  udev _ := ⟨0x0525, 0xa416, false⟩
  pipe d _ ep := (if d then 0x100 else 0x200) ||| ep.setWidth 32
  forceInterrupt := false
  vendor := 0
  product := 0

/-- Both are bound, and the first is fuzzed. -/
def fuzzFirst : List (BusEvent Bool) :=
  [.probe false (usbDevice 0x0525 0xa416 .prtFz) ⟨true, true, 0, -1⟩,
   .probe true (usbDevice 0x0525 0xa416 .prtFz) ⟨true, true, 0, -1⟩,
   .fuzz false
     { zeroTemp with isFz := 1, isBulk := 1, isDirOut := 1, iterations := 1, length := 64 }]

/-- The first gadget is fuzzed through the pipe of the second. -/
theorem fuzzFirst_hands_other_device :
    ¬AlwaysStep (busStep twoPrinters) (HandsOwnEndpoints twoPrinters) .start fuzzFirst := by
  intro h
  obtain ⟨s, dev, hs, hdev, howner⟩ : ∃ s dev,
      runs (busStep twoPrinters) .start (fuzzFirst.take 2) = some s ∧
        s.intfdata false = some dev ∧ s.owner dev.info .outBulk = some true :=
    ⟨_, _, rfl, rfl, by decide⟩
  have hpre : fuzzFirst.take 2 ++ [fuzzFirst[2]] <+: fuzzFirst := by simp [fuzzFirst]
  obtain ⟨i, -, -, hi, -, -, hsame, -⟩ := alwaysStep_iff.mp h _ _ s s hpre hs
    (if_pos ⟨by simp [hdev], by decide⟩) false _ dev rfl hdev .outBulk (by decide)
  obtain rfl := Option.some.inj (howner.symm.trans hi)
  exact absurd hsame (by decide)

end FuzzUSB.Usbtest
