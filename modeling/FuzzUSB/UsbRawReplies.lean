import FuzzUSB.UsbRawIndex

/-!
# Replies to control IN requests

`lookup_connect_response` and `lookup_control_response` choose the descriptor that answers a
request, and `syz_usb_connect` and `syz_usb_control_io` clip it and write it to endpoint 0.
-/

namespace FuzzUSB.UsbRaw
open CLayout

/-! ## Requests and tables -/

/-- `struct usb_ctrlrequest` -/
structure CtrlRequest where
  bRequestType : Byte
  bRequest : Byte
  wValue : BitVec 16
  wIndex : BitVec 16
  wLength : BitVec 16

/-- `USB_DIR_IN` -/
def usbDirIn : Byte := 0x80
def usbTypeMask : Byte := 0x60
def usbTypeStandard : Byte := 0
def usbReqGetDescriptor : Byte := 6

def usbDtDevice : ℕ := 1
def usbDtConfig : ℕ := 2
def usbDtString : ℕ := 3
def usbDtDeviceQualifier : ℕ := 6
def usbDtBos : ℕ := 15

def usbMaxPacketSize : ℕ := 1024

/-- `ctrl->wValue >> 8` -/
def CtrlRequest.descType (ctrl : CtrlRequest) : ℕ := ctrl.wValue.toNat / 256

/-- `(uint8)ctrl->wValue` -/
def CtrlRequest.descIndex (ctrl : CtrlRequest) : ℕ := ctrl.wValue.toNat % 256

/-- A control IN request that asks for something. -/
structure InRequest extends CtrlRequest where
  dirIn : bRequestType &&& usbDirIn ≠ 0
  wants : wLength ≠ 0

/-- A pointer to readable memory and a length beside it. The pointer may be null. -/
structure Blob where
  data : Option (ℕ → Byte)
  len : BitVec 32

/-- `struct vusb_connect_descriptors` -/
structure VusbConnectDescriptors where
  qualLen : BitVec 32
  qual : Option (ℕ → Byte)
  bosLen : BitVec 32
  bos : Option (ℕ → Byte)
  strsLen : BitVec 32
  strs : ℕ → Blob

/-- A pointer to a `struct vusb_descriptor` leads to one of these. -/
structure VusbDescriptor where
  reqType : Byte
  descType : Byte
  len : BitVec 32
  data : ℕ → Byte

structure VusbDescriptors where
  len : BitVec 32
  generic : Option VusbDescriptor
  descs : ℕ → Option VusbDescriptor

structure VusbResponse where
  type : Byte
  req : Byte
  len : BitVec 32
  data : ℕ → Byte

structure VusbResponses where
  len : BitVec 32
  generic : Option VusbResponse
  resps : ℕ → Option VusbResponse

/-! ## The two lookups -/

/-- What becomes of `*response_data`. -/
inductive ResponseData
  | null
  | bytes (data : ℕ → Byte)
  /-- The pointer itself was overwritten with these bytes. -/
  | overwritten (bytes : List Byte)

inductive Lookup
  | found (data : ResponseData) (len : BitVec 32)
  /-- `return false` -/
  | unknown
  /-- `fail(…)`, which ends the executor. -/
  | fails
  /-- A read through a table that is absent. -/
  | faults

def ResponseData.ofPointer : Option (ℕ → Byte) → ResponseData
  | some data => .bytes data
  | none => .null

/-- The byte of the device's blob at `offset + i`. -/
def UsbDeviceIndex.at (index : UsbDeviceIndex) (offset i : ℕ) : Byte :=
  (index.dev (offset + i)).getD 0

def defaultString : List Byte := [8, 3, 0x73, 0, 0x79, 0, 0x7a, 0]

def defaultLangId : List Byte := [4, 3, 0x09, 0x04]

def byteAt (bytes : List Byte) (i : ℕ) : Byte := bytes.getD i 0

/-- The `struct usb_qualifier_descriptor` that is filled in from the device descriptor. -/
def qualifierOf (index : UsbDeviceIndex) : List Byte :=
  [10, 6, index.at 0 2, index.at 0 3, index.at 0 4, index.at 0 5, index.at 0 6, index.at 0 7,
   index.at 0 17, 0]

/-- `lookup_connect_response`, with what `lookup_usb_index` finds. -/
def lookupConnectResponse (index : Option UsbDeviceIndex) (descs : Option VusbConnectDescriptors)
    (ctrl : CtrlRequest) : Lookup :=
  match index with
  | none => .unknown
  | some index =>
    if ctrl.bRequestType &&& usbTypeMask ≠ usbTypeStandard then .fails
    else if ctrl.bRequest ≠ usbReqGetDescriptor then .fails
    else if ctrl.descType = usbDtDevice then .found (.bytes (index.at 0)) 18
    else if ctrl.descType = usbDtConfig then
      .found (.bytes (index.at deviceDescSize)) index.configLength
    else if ctrl.descType = usbDtString then
      match descs.filter fun d => ctrl.descIndex < d.strsLen.toNat with
      | some d =>
        .found (.ofPointer (d.strs ctrl.descIndex).data) (d.strs ctrl.descIndex).len
      | none =>
        if ctrl.descIndex = 0 then .found (.bytes (byteAt defaultLangId)) 4
        else .found (.bytes (byteAt defaultString)) 8
    else if ctrl.descType = usbDtBos then
      match descs with
      | some d => .found (.ofPointer d.bos) d.bosLen
      | none => .faults
    else if ctrl.descType = usbDtDeviceQualifier then
      match descs with
      | some d =>
        match d.qual with
        -- The cast is applied to `response_data`, the address of the caller's pointer.
        | none => .found (.overwritten (qualifierOf index)) 10
        | some qual => .found (.bytes qual) d.qualLen
      | none => .faults
    else .fails

/-- `(len - offsetof(…)) / sizeof(…)`, computed as `size_t` and kept in an `int`. -/
def entriesNum (len : BitVec 32) : ℤ :=
  (((len.setWidth 64 - 12) / 8).setWidth 32).toInt

/-- The loop over the entries of a table, null pointers skipped. -/
def firstMatch {α : Type} (entries : ℕ → Option α) (p : α → Bool) (num : ℤ) : Option α :=
  (List.range num.toNat).findSome? fun i => (entries i).filter p

/-- `&data[0]`, or null for a length of 0. -/
def ResponseData.ofEntry (data : ℕ → Byte) (len : BitVec 32) : ResponseData :=
  if len ≠ 0 then .bytes data else .null

/-- The first entry that fits, or else the generic one. -/
def lookupEntry {α : Type} (entries : ℕ → Option α) (p : α → Bool) (num : ℤ) (generic : Option α)
    (data : α → ℕ → Byte) (len : α → BitVec 32) : Lookup :=
  match firstMatch entries p num with
  | some a => .found (.ofEntry (data a) (len a)) (len a)
  | none =>
    match generic with
    | some a => .found (.bytes (data a)) (len a)
    | none => .unknown

def lookupControlResponse (descs : Option VusbDescriptors) (resps : Option VusbResponses)
    (ctrl : CtrlRequest) : Lookup :=
  let reqType := ctrl.bRequestType &&& usbTypeMask
  if ctrl.bRequest = usbReqGetDescriptor then
    match descs with
    | none => .unknown
    | some t =>
      lookupEntry t.descs (fun d => d.reqType = reqType ∧ d.descType.toNat = ctrl.descType)
        (entriesNum t.len) t.generic VusbDescriptor.data VusbDescriptor.len
  else
    match resps with
    | none => .unknown
    | some t =>
      lookupEntry t.resps (fun r => r.type = reqType ∧ r.req = ctrl.bRequest)
        (entriesNum t.len) t.generic VusbResponse.data VusbResponse.len

/-! ## The replies -/

/-- What the two callers make of a request. -/
inductive Outcome
  | reply (bytes : List Byte)
  | rejected
  | fails
  /-- More was written over the pointer than it has room for, and bytes are copied from where
  it leads then. -/
  | undefined

/-- The `memcpy` or `memset` into the reply. -/
def ResponseData.copy : ResponseData → ℕ → Option (List Byte)
  | .null, n => some (List.replicate n 0)
  | .bytes data, n => some ((List.range n).map data)
  | .overwritten _, _ => none

/-- The two clamps of the length. -/
def clampLength (wLength : BitVec 16) (responseLength : BitVec 32) : ℕ :=
  let responseLength :=
    if responseLength.toNat > usbMaxPacketSize then 0 else responseLength.toNat
  if wLength.toNat < responseLength then wLength.toNat else responseLength

/-- What `syz_usb_connect` and `syz_usb_control_io` do with an IN request after the lookup.
`NONFAILING` makes a rejection of a fault. -/
def outcome (wLength : BitVec 16) : Lookup → Outcome
  | .found data len =>
    match data.copy (clampLength wLength len) with
    | some bytes => .reply bytes
    | none => .undefined
  | .unknown => .rejected
  | .faults => .rejected
  | .fails => .fails

/-! ## The requested descriptor -/

/-- The bytes of a device, in memory that may go on behind them, and what they parse to. -/
structure RegisteredDevice where
  bytes : List Byte
  mem : Buffer
  index : UsbDeviceIndex
  holds : ∀ i (h : i < bytes.length), mem i = some bytes[i]
  parsed : parseUsbDescriptor mem bytes.length = some index

/-- `len` bytes behind a pointer; there are zeros behind a null pointer. -/
def bytesOf (data : Option (ℕ → Byte)) (len : BitVec 32) : List Byte :=
  (List.range len.toNat).map (data.getD fun _ => 0)

/-- A standard `GET_DESCRIPTOR` for this type. -/
def CtrlRequest.Gets (ctrl : CtrlRequest) (descType : ℕ) : Prop :=
  ctrl.bRequestType &&& usbTypeMask = usbTypeStandard ∧ ctrl.bRequest = usbReqGetDescriptor ∧
    ctrl.descType = descType

/-- The descriptor that a request to a device being connected is for. -/
inductive ConnectSelects (dev : RegisteredDevice) (ctrl : CtrlRequest) :
    Option VusbConnectDescriptors → List Byte → Prop
  | device {descs} (h : ctrl.Gets usbDtDevice) :
      ConnectSelects dev ctrl descs (dev.bytes.take deviceDescSize)
  | config {descs} (h : ctrl.Gets usbDtConfig) :
      ConnectSelects dev ctrl descs
        ((dev.bytes.drop deviceDescSize).take dev.index.configLength.toNat)
  | userString {d} (h : ctrl.Gets usbDtString) (hidx : ctrl.descIndex < d.strsLen.toNat) :
      ConnectSelects dev ctrl (some d)
        (bytesOf (d.strs ctrl.descIndex).data (d.strs ctrl.descIndex).len)
  | langId {descs} (h : ctrl.Gets usbDtString) (hidx : ctrl.descIndex = 0)
      (hno : ∀ d, descs = some d → d.strsLen.toNat ≤ ctrl.descIndex) :
      ConnectSelects dev ctrl descs defaultLangId
  | defaultString {descs} (h : ctrl.Gets usbDtString) (hidx : ctrl.descIndex ≠ 0)
      (hno : ∀ d, descs = some d → d.strsLen.toNat ≤ ctrl.descIndex) :
      ConnectSelects dev ctrl descs defaultString
  | bos {d} (h : ctrl.Gets usbDtBos) : ConnectSelects dev ctrl (some d) (bytesOf d.bos d.bosLen)
  | userQualifier {d qual} (h : ctrl.Gets usbDtDeviceQualifier) (hqual : d.qual = some qual) :
      ConnectSelects dev ctrl (some d) (bytesOf (some qual) d.qualLen)
  | derivedQualifier {d} (h : ctrl.Gets usbDtDeviceQualifier) (hqual : d.qual = none) :
      ConnectSelects dev ctrl (some d) (qualifierOf dev.index)

/-- The first entry that fits, or else the generic one. -/
inductive TableSelects {α : Type} (entries : ℕ → Option α) (fits : α → Bool) (num : ℤ)
    (generic : Option α) : α → Prop
  | entry {i : ℕ} {a : α} (hi : i < num) (ha : entries i = some a) (hfits : fits a)
      (hfirst : ∀ j < i, ∀ b, entries j = some b → ¬fits b) :
      TableSelects entries fits num generic a
  | generic {a : α} (ha : generic = some a)
      (hnone : ∀ i : ℕ, i < num → ∀ b, entries i = some b → ¬fits b) :
      TableSelects entries fits num generic a

/-- The descriptor or response that a request to a configured device is for. -/
def ControlSelects (descs : Option VusbDescriptors) (resps : Option VusbResponses)
    (ctrl : CtrlRequest) (bytes : List Byte) : Prop :=
  let reqType := ctrl.bRequestType &&& usbTypeMask
  if ctrl.bRequest = usbReqGetDescriptor then
    ∃ t d, descs = some t ∧ bytes = bytesOf (some d.data) d.len ∧
      TableSelects t.descs (fun d => d.reqType = reqType ∧ d.descType.toNat = ctrl.descType)
        (entriesNum t.len) t.generic d
  else
    ∃ t r, resps = some t ∧ bytes = bytesOf (some r.data) r.len ∧
      TableSelects t.resps (fun r => r.type = reqType ∧ r.req = ctrl.bRequest)
        (entriesNum t.len) t.generic r

/-- `syz_usb_connect` and `syz_usb_control_io`, with what they are called with. -/
inductive Caller
  | connect (dev : RegisteredDevice) (descs : Option VusbConnectDescriptors)
  | controlIo (descs : Option VusbDescriptors) (resps : Option VusbResponses)

def Caller.lookup : Caller → CtrlRequest → Lookup
  | .connect dev descs, ctrl => lookupConnectResponse (some dev.index) descs ctrl
  | .controlIo descs resps, ctrl => lookupControlResponse descs resps ctrl

def Caller.Selects : Caller → CtrlRequest → List Byte → Prop
  | .connect dev descs, ctrl => ConnectSelects dev ctrl descs
  | .controlIo descs resps, ctrl => ControlSelects descs resps ctrl

/-- No absent table is read. Whatever is found is the requested descriptor, and the reply is
as much of it as was asked for, if the endpoint has room for that. -/
structure Answers (c : Caller) (ctrl : InRequest) : Prop where
  present : c.lookup ctrl.toCtrlRequest ≠ .faults
  selected : ∀ data len, c.lookup ctrl.toCtrlRequest = .found data len →
    ∃ desc, c.Selects ctrl.toCtrlRequest desc
  clipped : ∀ desc, c.Selects ctrl.toCtrlRequest desc →
    min ctrl.wLength.toNat desc.length ≤ usbMaxPacketSize →
    outcome ctrl.wLength (c.lookup ctrl.toCtrlRequest) =
      .reply (desc.take (min ctrl.wLength.toNat desc.length))

/-- The tables have what a request needs. -/
def Caller.Equipped : Caller → CtrlRequest → Prop
  | .connect _ descs, ctrl => (ctrl.Gets usbDtBos → descs.isSome) ∧
      (ctrl.Gets usbDtDeviceQualifier → ∃ d, descs = some d ∧ d.qual.isSome)
  | .controlIo _ _, _ => True

/-- The table that is needed is there, no qualifier has to be derived, and a descriptor longer
than a packet is asked for by more than a packet. -/
structure Servable (c : Caller) (ctrl : InRequest) : Prop where
  equipped : c.Equipped ctrl.toCtrlRequest
  fits : ∀ desc, c.Selects ctrl.toCtrlRequest desc →
    desc.length ≤ usbMaxPacketSize ∨ usbMaxPacketSize < ctrl.wLength.toNat

/-! ## Clipping -/

/-- The lookup finds these bytes, and nothing else. -/
def Lookup.Gives (l : Lookup) (desc : List Byte) : Prop :=
  ∃ data len, l = .found data len ∧ data.copy len.toNat = some desc

theorem clampLength_eq (wLength : BitVec 16) (len : BitVec 32) :
    clampLength wLength len =
      if len.toNat ≤ usbMaxPacketSize then min wLength.toNat len.toNat else 0 := by
  simp only [clampLength]
  split
  · next hlong => rw [if_neg (Nat.not_le.mpr hlong), if_neg (Nat.not_lt_zero _)]
  · next hfits =>
    rw [if_pos (Nat.le_of_not_lt hfits)]
    split <;> omega

theorem ResponseData.length_copy {data : ResponseData} {n : ℕ} {desc : List Byte}
    (h : data.copy n = some desc) : desc.length = n := by
  cases data with
  | null => simp [← Option.some.inj h]
  | bytes f => simp [← Option.some.inj h]
  | overwritten l => cases h

/-- A shorter copy is the start of a longer one. -/
theorem ResponseData.copy_take {data : ResponseData} {n m : ℕ} {desc : List Byte}
    (h : data.copy n = some desc) (hm : m ≤ n) : data.copy m = some (desc.take m) := by
  cases data with
  | null =>
    rw [← Option.some.inj h, List.take_replicate, min_eq_left hm]
    rfl
  | bytes f =>
    rw [← Option.some.inj h, ← List.map_take, List.take_range, min_eq_left hm]
    rfl
  | overwritten l => cases h

section

variable {l : Lookup} {desc : List Byte}

/-- What is found is copied up to the clamped length. -/
theorem Lookup.Gives.outcome_eq (h : l.Gives desc) (wLength : BitVec 16) :
    outcome wLength l = .reply (desc.take
      (if desc.length ≤ usbMaxPacketSize then min wLength.toNat desc.length else 0)) := by
  obtain ⟨data, len, rfl, hcopy⟩ := h
  have hlen := data.length_copy hcopy
  have hclamp : clampLength wLength len ≤ len.toNat := by
    rw [clampLength_eq]
    split <;> omega
  rw [outcome, data.copy_take hcopy hclamp, clampLength_eq, hlen]

/-- A nonempty part of a descriptor that is too long is the only one that gets lost. -/
theorem Lookup.Gives.clipped_iff (h : l.Gives desc) {wLength : BitVec 16} (hw : wLength ≠ 0) :
    (min wLength.toNat desc.length ≤ usbMaxPacketSize →
      outcome wLength l = .reply (desc.take (min wLength.toNat desc.length))) ↔
    desc.length ≤ usbMaxPacketSize ∨ usbMaxPacketSize < wLength.toNat := by
  rw [h.outcome_eq]
  constructor
  · intro hreply
    by_contra hno
    rw [not_or, not_le, not_lt] at hno
    obtain ⟨hlong, hshort⟩ := hno
    have hmin : min wLength.toNat desc.length = wLength.toNat := by omega
    rw [hmin, if_neg (Nat.not_le.mpr hlong)] at hreply
    have htake := congrArg List.length (Outcome.reply.inj (hreply hshort))
    have hpos : wLength.toNat ≠ 0 := fun h0 => hw (BitVec.eq_of_toNat_eq h0)
    simp only [List.take_zero, List.length_nil, List.length_take] at htake
    omega
  · rintro (hfits | hlarge) hmin
    · rw [if_pos hfits]
    · rw [if_pos (by omega)]

end

/-! ## `lookup_connect_response` -/

theorem bytesOf_eq_copy (data : Option (ℕ → Byte)) (len : BitVec 32) :
    (ResponseData.ofPointer data).copy len.toNat = some (bytesOf data len) := by
  cases data with
  | none => simp [ResponseData.ofPointer, ResponseData.copy, bytesOf]
  | some f => rfl

theorem gives_ofPointer (data : Option (ℕ → Byte)) (len : BitVec 32) :
    (Lookup.found (.ofPointer data) len).Gives (bytesOf data len) :=
  ⟨_, _, rfl, bytesOf_eq_copy data len⟩

theorem parseUsbDescriptor_eq {mem : Buffer} {length : ℕ} {index : UsbDeviceIndex}
    (h : parseUsbDescriptor mem length = some index) :
    deviceDescSize + configDescSize ≤ length ∧ index.dev = mem ∧
      index.configLength = BitVec.ofNat 32 (length - deviceDescSize) := by
  unfold parseUsbDescriptor at h
  split at h
  · cases h
  · next hlen =>
    simp only [Option.bind_eq_bind, Option.bind_eq_some_iff] at h
    obtain ⟨_, -, _, -, hindex⟩ := h
    obtain rfl := Option.some.inj hindex
    exact ⟨Nat.le_of_not_lt hlen, rfl, rfl⟩

/-- The index leads to the bytes of its device. -/
theorem RegisteredDevice.map_at (dev : RegisteredDevice) {offset n : ℕ}
    (h : offset + n ≤ dev.bytes.length) :
    (List.range n).map (dev.index.at offset) = (dev.bytes.drop offset).take n := by
  obtain ⟨-, hdev, -⟩ := parseUsbDescriptor_eq dev.parsed
  apply List.ext_getElem
  · simp
    omega
  · intro i hi _
    rw [List.length_map, List.length_range] at hi
    simp [UsbDeviceIndex.at, hdev, dev.holds (offset + i) (by omega)]

theorem RegisteredDevice.configLength_le (dev : RegisteredDevice) :
    deviceDescSize + dev.index.configLength.toNat ≤ dev.bytes.length := by
  obtain ⟨hlen, -, hconfig⟩ := parseUsbDescriptor_eq dev.parsed
  have hmod := Nat.mod_le (dev.bytes.length - deviceDescSize) (2 ^ 32)
  rw [hconfig, BitVec.toNat_ofNat]
  omega

section

variable {index : UsbDeviceIndex} {descs : Option VusbConnectDescriptors} {ctrl : CtrlRequest}

theorem lookup_device (h : ctrl.Gets usbDtDevice) :
    lookupConnectResponse (some index) descs ctrl = .found (.bytes (index.at 0)) 18 := by
  simp [lookupConnectResponse, h.1, h.2.1, h.2.2]

theorem lookup_config (h : ctrl.Gets usbDtConfig) :
    lookupConnectResponse (some index) descs ctrl =
      .found (.bytes (index.at deviceDescSize)) index.configLength := by
  simp [lookupConnectResponse, h.1, h.2.1, h.2.2, usbDtDevice, usbDtConfig]

theorem lookup_string (h : ctrl.Gets usbDtString) :
    lookupConnectResponse (some index) descs ctrl =
      match descs.filter fun d => ctrl.descIndex < d.strsLen.toNat with
      | some d =>
        .found (.ofPointer (d.strs ctrl.descIndex).data) (d.strs ctrl.descIndex).len
      | none =>
        if ctrl.descIndex = 0 then .found (.bytes (byteAt defaultLangId)) 4
        else .found (.bytes (byteAt defaultString)) 8 := by
  simp [lookupConnectResponse, h.1, h.2.1, h.2.2, usbDtDevice, usbDtConfig, usbDtString]

theorem lookup_bos (h : ctrl.Gets usbDtBos) :
    lookupConnectResponse (some index) descs ctrl =
      match descs with
      | some d => .found (.ofPointer d.bos) d.bosLen
      | none => .faults := by
  simp [lookupConnectResponse, h.1, h.2.1, h.2.2, usbDtDevice, usbDtConfig, usbDtString, usbDtBos]

theorem lookup_qualifier (h : ctrl.Gets usbDtDeviceQualifier) :
    lookupConnectResponse (some index) descs ctrl =
      match descs with
      | some d =>
        match d.qual with
        | none => .found (.overwritten (qualifierOf index)) 10
        | some qual => .found (.bytes qual) d.qualLen
      | none => .faults := by
  simp [lookupConnectResponse, h.1, h.2.1, h.2.2, usbDtDevice, usbDtConfig, usbDtString, usbDtBos,
    usbDtDeviceQualifier]

/-- Every other request ends the executor. -/
theorem lookup_fails_or_gets (index : UsbDeviceIndex) (descs : Option VusbConnectDescriptors)
    (ctrl : CtrlRequest) :
    lookupConnectResponse (some index) descs ctrl = .fails ∨
      ctrl.Gets usbDtDevice ∨ ctrl.Gets usbDtConfig ∨ ctrl.Gets usbDtString ∨
      ctrl.Gets usbDtBos ∨ ctrl.Gets usbDtDeviceQualifier := by
  by_cases hstd : ctrl.bRequestType &&& usbTypeMask = usbTypeStandard ∧
      ctrl.bRequest = usbReqGetDescriptor
  · by_cases hdesc : ctrl.descType ∈
        [usbDtDevice, usbDtConfig, usbDtString, usbDtBos, usbDtDeviceQualifier]
    · right
      simpa [CtrlRequest.Gets, hstd.1, hstd.2] using hdesc
    · left
      simp only [List.mem_cons, List.not_mem_nil, or_false, not_or] at hdesc
      simp [lookupConnectResponse, hstd.1, hstd.2, hdesc]
  · left
    rw [not_and_or] at hstd
    rcases hstd with htype | hreq
    · simp [lookupConnectResponse, htype]
    · simp [lookupConnectResponse, hreq]

/-- Only the two cases that do not look at the pointer read through it when it is null. -/
theorem lookup_faults_iff :
    lookupConnectResponse (some index) descs ctrl = .faults ↔
      descs = none ∧ (ctrl.Gets usbDtBos ∨ ctrl.Gets usbDtDeviceQualifier) := by
  constructor
  · intro h
    rcases lookup_fails_or_gets index descs ctrl with hfails | hget | hget | hget | hget | hget
    · rw [hfails] at h
      cases h
    · rw [lookup_device hget] at h
      cases h
    · rw [lookup_config hget] at h
      cases h
    · rw [lookup_string hget] at h
      repeat' split at h
      all_goals cases h
    · rw [lookup_bos hget] at h
      split at h
      · cases h
      · exact ⟨rfl, .inl hget⟩
    · rw [lookup_qualifier hget] at h
      repeat' split at h
      · cases h
      · cases h
      · exact ⟨rfl, .inr hget⟩
  · rintro ⟨rfl, hbos | hqual⟩
    · rw [lookup_bos hbos]
    · rw [lookup_qualifier hqual]

end

section

variable {dev : RegisteredDevice} {descs : Option VusbConnectDescriptors} {ctrl : CtrlRequest}
  {desc : List Byte}

/-- No user string has the index that is asked for. -/
theorem filter_strs_eq_none
    (hno : ∀ d, descs = some d → d.strsLen.toNat ≤ ctrl.descIndex) :
    (descs.filter fun d => ctrl.descIndex < d.strsLen.toNat) = none := by
  rw [Option.filter_eq_none_iff]
  intro d hd
  simpa using hno d hd

/-- Whatever is asked for is found, but for a qualifier that has to be derived. -/
theorem ConnectSelects.gives (h : ConnectSelects dev ctrl descs desc)
    (hequipped : (Caller.connect dev descs).Equipped ctrl) :
    (lookupConnectResponse (some dev.index) descs ctrl).Gives desc := by
  have hconfig := dev.configLength_le
  cases h with
  | device h =>
    have hdev : deviceDescSize ≤ dev.bytes.length := (Nat.le_add_right _ _).trans hconfig
    rw [lookup_device h]
    exact ⟨_, _, rfl, congrArg some (dev.map_at (show 0 + deviceDescSize ≤ _ by omega))⟩
  | config h =>
    rw [lookup_config h]
    exact ⟨_, _, rfl, congrArg some (dev.map_at hconfig)⟩
  | @userString d h hidx =>
    rw [lookup_string h, Option.filter_some_pos (by simpa using hidx)]
    exact gives_ofPointer _ _
  | langId h hidx hno =>
    rw [lookup_string h, filter_strs_eq_none hno, if_pos hidx]
    exact ⟨_, _, rfl, rfl⟩
  | defaultString h hidx hno =>
    rw [lookup_string h, filter_strs_eq_none hno, if_neg hidx]
    exact ⟨_, _, rfl, rfl⟩
  | @bos d h =>
    rw [lookup_bos h]
    exact gives_ofPointer _ _
  | @userQualifier d qual h hqual =>
    simp only [lookup_qualifier h, hqual]
    exact gives_ofPointer (some qual) _
  | @derivedQualifier d h hqual =>
    obtain ⟨d', hd', hsome⟩ := hequipped.2 h
    rw [← Option.some.inj hd', hqual] at hsome
    cases hsome

/-- A request is answered only with what it needs. -/
theorem Answers.equipped {ctrl : InRequest} (h : Answers (.connect dev descs) ctrl) :
    (Caller.connect dev descs).Equipped ctrl.toCtrlRequest := by
  have hpresent := h.present
  rw [Caller.lookup, ne_eq, lookup_faults_iff, not_and] at hpresent
  constructor
  · intro hbos
    rw [Option.isSome_iff_ne_none]
    exact fun hnone => hpresent hnone (.inl hbos)
  · intro hqual
    obtain ⟨d, rfl⟩ := Option.ne_none_iff_exists'.mp fun hnone => hpresent hnone (.inr hqual)
    refine ⟨d, rfl, ?_⟩
    rw [Option.isSome_iff_ne_none]
    intro hnone
    -- The derived qualifier is ten bytes, so it is asked for in full or in part.
    have hreply := h.clipped _ (.derivedQualifier hqual hnone)
      (by simp [qualifierOf, usbMaxPacketSize])
    simp [Caller.lookup, lookup_qualifier hqual, hnone, outcome, ResponseData.copy] at hreply

end

/-! ## `lookup_control_response` -/

theorem firstMatch_eq_some {α : Type} {entries : ℕ → Option α} {p : α → Bool} {num : ℤ} {a : α} :
    firstMatch entries p num = some a ↔ ∃ i : ℕ, i < num ∧ entries i = some a ∧ p a ∧
      ∀ j < i, ∀ b, entries j = some b → ¬p b := by
  simp only [firstMatch, List.findSome?_eq_some_iff, List.range_eq_range',
    List.range'_eq_append_iff, Option.filter_eq_some_iff]
  constructor
  · rintro ⟨_, i, rest, ⟨k, hk, rfl, hrest⟩, ⟨ha, hp⟩, hfirst⟩
    obtain ⟨rfl, hpos, -⟩ := List.range'_eq_cons_iff.mp hrest.symm
    refine ⟨_, by omega, ha, hp, fun j hj b hb => ?_⟩
    exact Option.filter_eq_none_iff.mp (hfirst j (by simpa using hj)) b hb
  · rintro ⟨i, hi, ha, hp, hfirst⟩
    refine ⟨List.range' 0 i, i, List.range' (i + 1) (num.toNat - i - 1),
      ⟨i, by omega, rfl, ?_⟩, ⟨ha, hp⟩, fun j hj => ?_⟩
    · exact (List.range'_eq_cons_iff.mpr ⟨by omega, by omega, rfl⟩).symm
    · exact Option.filter_eq_none_iff.mpr (hfirst j (by simpa using hj))

theorem firstMatch_eq_none {α : Type} {entries : ℕ → Option α} {p : α → Bool} {num : ℤ} :
    firstMatch entries p num = none ↔ ∀ i : ℕ, i < num → ∀ b, entries i = some b → ¬p b := by
  simp only [firstMatch, List.findSome?_eq_none_iff, List.mem_range, Option.filter_eq_none_iff]
  exact forall_congr' fun i => imp_congr_left (by omega)

section

variable {α : Type} {entries : ℕ → Option α} {p : α → Bool} {num : ℤ} {generic : Option α}
  {data : α → ℕ → Byte} {len : α → BitVec 32} {a : α}

/-- The loop, and the look at the generic entry behind it, select from the table. -/
theorem tableSelects_iff :
    TableSelects entries p num generic a ↔ (firstMatch entries p num).or generic = some a := by
  rw [Option.or_eq_some_iff, firstMatch_eq_some, firstMatch_eq_none]
  constructor
  · rintro (⟨hi, ha, hfits, hfirst⟩ | ⟨ha, hnone⟩)
    · exact .inl ⟨_, hi, ha, hfits, hfirst⟩
    · exact .inr ⟨hnone, ha⟩
  · rintro (⟨i, hi, ha, hfits, hfirst⟩ | ⟨hnone, ha⟩)
    · exact .entry hi ha hfits hfirst
    · exact .generic ha hnone

theorem gives_ofEntry (data : ℕ → Byte) (len : BitVec 32) :
    (Lookup.found (.ofEntry data len) len).Gives (bytesOf (some data) len) := by
  refine ⟨_, _, rfl, ?_⟩
  by_cases hlen : len = 0
  · subst hlen
    rfl
  · rw [ResponseData.ofEntry, if_pos hlen]
    rfl

theorem TableSelects.gives (h : TableSelects entries p num generic a) :
    (lookupEntry entries p num generic data len).Gives (bytesOf (some (data a)) (len a)) := by
  rcases Option.or_eq_some_iff.mp (tableSelects_iff.mp h) with hfirst | ⟨hnone, hgeneric⟩
  · simp only [lookupEntry, hfirst]
    exact gives_ofEntry _ _
  · simp only [lookupEntry, hnone, hgeneric]
    exact gives_ofPointer (some (data a)) _

theorem lookupEntry_cases (entries : ℕ → Option α) (p : α → Bool) (num : ℤ) (generic : Option α)
    (data : α → ℕ → Byte) (len : α → BitVec 32) :
    lookupEntry entries p num generic data len = .unknown ∨
      ∃ a, TableSelects entries p num generic a := by
  cases hor : (firstMatch entries p num).or generic with
  | none =>
    left
    rw [Option.or_eq_none_iff] at hor
    simp only [lookupEntry, hor.1, hor.2]
  | some a => exact .inr ⟨a, tableSelects_iff.mpr hor⟩

end

section

variable {descs : Option VusbDescriptors} {resps : Option VusbResponses} {ctrl : CtrlRequest}
  {desc : List Byte}

theorem ControlSelects.gives (h : ControlSelects descs resps ctrl desc) :
    (lookupControlResponse descs resps ctrl).Gives desc := by
  simp only [ControlSelects] at h
  simp only [lookupControlResponse]
  split at h
  · next hget =>
    obtain ⟨t, d, rfl, rfl, hsel⟩ := h
    rw [if_pos hget]
    exact hsel.gives
  · next hget =>
    obtain ⟨t, r, rfl, rfl, hsel⟩ := h
    rw [if_neg hget]
    exact hsel.gives

/-- A request is for something, or unknown. -/
theorem lookupControlResponse_cases (descs : Option VusbDescriptors)
    (resps : Option VusbResponses) (ctrl : CtrlRequest) :
    lookupControlResponse descs resps ctrl = .unknown ∨
      ∃ desc, ControlSelects descs resps ctrl desc := by
  simp only [lookupControlResponse, ControlSelects]
  by_cases hget : ctrl.bRequest = usbReqGetDescriptor
  · simp only [if_pos hget]
    cases descs with
    | none => exact .inl rfl
    | some t =>
      apply (lookupEntry_cases _ _ _ _ _ _).imp_right
      rintro ⟨d, hsel⟩
      exact ⟨_, t, d, rfl, rfl, hsel⟩
  · simp only [if_neg hget]
    cases resps with
    | none => exact .inl rfl
    | some t =>
      apply (lookupEntry_cases _ _ _ _ _ _).imp_right
      rintro ⟨r, hsel⟩
      exact ⟨_, t, r, rfl, rfl, hsel⟩

end

/-! ## Exactly which requests are answered -/

/-- Every response that is found has been asked for. -/
theorem ConnectSelects.of_found {dev : RegisteredDevice} {descs : Option VusbConnectDescriptors}
    {ctrl : CtrlRequest} {data : ResponseData} {len : BitVec 32}
    (h : lookupConnectResponse (some dev.index) descs ctrl = .found data len) :
    ∃ desc, ConnectSelects dev ctrl descs desc := by
  rcases lookup_fails_or_gets dev.index descs ctrl with hfails | hget | hget | hget | hget | hget
  · rw [hfails] at h
    cases h
  · exact ⟨_, .device hget⟩
  · exact ⟨_, .config hget⟩
  · by_cases huser : ∃ d, descs = some d ∧ ctrl.descIndex < d.strsLen.toNat
    · obtain ⟨d, rfl, hidx⟩ := huser
      exact ⟨_, .userString hget hidx⟩
    · have hno : ∀ d, descs = some d → d.strsLen.toNat ≤ ctrl.descIndex := fun d hd =>
        Nat.le_of_not_lt fun hidx => huser ⟨d, hd, hidx⟩
      by_cases hidx : ctrl.descIndex = 0
      · exact ⟨_, .langId hget hidx hno⟩
      · exact ⟨_, .defaultString hget hidx hno⟩
  · rw [lookup_bos hget] at h
    split at h
    · exact ⟨_, .bos hget⟩
    · cases h
  · rw [lookup_qualifier hget] at h
    split at h
    · next d =>
      cases hqual : d.qual with
      | none => exact ⟨_, .derivedQualifier hget hqual⟩
      | some qual => exact ⟨_, .userQualifier hget hqual⟩
    · cases h

/-- With the tables for it, whatever is asked for is found. -/
theorem Caller.gives (c : Caller) {ctrl : CtrlRequest} {desc : List Byte}
    (h : c.Selects ctrl desc) (hequipped : c.Equipped ctrl) : (c.lookup ctrl).Gives desc := by
  cases c with
  | connect dev descs => exact ConnectSelects.gives h hequipped
  | controlIo descs resps => exact ControlSelects.gives h

theorem Caller.selects_of_found (c : Caller) {ctrl : CtrlRequest} {data : ResponseData}
    {len : BitVec 32} (h : c.lookup ctrl = .found data len) : ∃ desc, c.Selects ctrl desc := by
  cases c with
  | connect dev descs => exact ConnectSelects.of_found h
  | controlIo descs resps =>
    rcases lookupControlResponse_cases descs resps ctrl with hunknown | hselects
    · cases hunknown.symm.trans h
    · exact hselects

theorem Caller.lookup_ne_faults (c : Caller) {ctrl : CtrlRequest} (h : c.Equipped ctrl) :
    c.lookup ctrl ≠ .faults := by
  cases c with
  | connect dev descs =>
    rw [Caller.lookup, ne_eq, lookup_faults_iff]
    rintro ⟨rfl, hbos | hqual⟩
    · cases h.1 hbos
    · obtain ⟨d, hd, -⟩ := h.2 hqual
      cases hd
  | controlIo descs resps =>
    rcases lookupControlResponse_cases descs resps ctrl with hunknown | ⟨desc, hselects⟩
    · rw [Caller.lookup, hunknown]
      exact nofun
    · obtain ⟨data, len, hfound, -⟩ := hselects.gives
      rw [Caller.lookup, hfound]
      exact nofun

theorem equipped_of_answers {c : Caller} {ctrl : InRequest} (h : Answers c ctrl) :
    c.Equipped ctrl.toCtrlRequest := by
  cases c with
  | connect dev descs => exact h.equipped
  | controlIo descs resps => exact trivial

/-- A request is answered as it should be exactly if it can be served. -/
theorem answers_iff_servable (c : Caller) (ctrl : InRequest) :
    Answers c ctrl ↔ Servable c ctrl := by
  constructor
  · intro h
    have hequipped := equipped_of_answers h
    refine ⟨hequipped, fun desc hsel => ?_⟩
    exact ((c.gives hsel hequipped).clipped_iff ctrl.wants).mp (h.clipped desc hsel)
  · intro h
    refine ⟨c.lookup_ne_faults h.equipped, fun data len => c.selects_of_found, fun desc hsel => ?_⟩
    exact ((c.gives hsel h.equipped).clipped_iff ctrl.wants).mpr (h.fits desc hsel)

/-- A device of 27 zeros. -/
def zeroDevice : RegisteredDevice where
  bytes := List.replicate 27 0
  mem := fun _ => some 0
  index := ⟨fun _ => some 0, 0, 9, []⟩
  holds i h := by rw [List.getElem_replicate]
  parsed := by simp [parseUsbDescriptor, parseDescriptors, deviceDescSize, configDescSize]

/-- A standard `GET_DESCRIPTOR` that asks for 64 bytes. -/
def getDescriptor (wValue : BitVec 16) : InRequest where
  toCtrlRequest := ⟨usbDirIn, usbReqGetDescriptor, wValue, 0, 64⟩
  dirIn := show usbDirIn &&& usbDirIn ≠ 0 by decide
  wants := show (64 : BitVec 16) ≠ 0 by decide

/-- A table whose only entry is a generic descriptor of 2000 bytes. -/
def longGeneric : VusbDescriptors := ⟨12, some ⟨0, 0, 2000, fun _ => 0⟩, fun _ => none⟩

/-- A qualifier that has to be derived, a BOS without a table, and the start of a descriptor
that is longer than a packet. -/
theorem three_requests_unanswered :
    ¬Answers (.connect zeroDevice (some ⟨0, none, 0, none, 0, fun _ => ⟨none, 0⟩⟩))
        (getDescriptor 0x0600) ∧
      ¬Answers (.connect zeroDevice none) (getDescriptor 0x0f00) ∧
      ¬Answers (.controlIo (some longGeneric) none) (getDescriptor 0x0200) := by
  refine ⟨fun h => ?_, fun h => ?_, fun h => ?_⟩
  · obtain ⟨d, hd, hqual⟩ := h.equipped.2 ⟨rfl, rfl, rfl⟩
    rw [← Option.some.inj hd] at hqual
    cases hqual
  · cases h.equipped.1 ⟨rfl, rfl, rfl⟩
  · have hsel : ControlSelects (some longGeneric) none (getDescriptor 0x0200).toCtrlRequest
        (bytesOf (some fun _ => 0) 2000) :=
      ⟨longGeneric, ⟨0, 0, 2000, fun _ => 0⟩, rfl, rfl, .generic rfl nofun⟩
    have hlen : (bytesOf (some fun _ => 0) 2000).length = 2000 := by
      rw [bytesOf, List.length_map, List.length_range]
      rfl
    rcases (hsel.gives.clipped_iff (getDescriptor 0x0200).wants).mp (h.clipped _ hsel)
      with hfits | hlarge
    · rw [hlen, usbMaxPacketSize] at hfits
      omega
    · exact absurd hlarge (by decide)

end FuzzUSB.UsbRaw
