import FuzzUSB.CLayout
import FuzzUSB.RecordWalk
import Mathlib.Data.BitVec

/-!
# The standard requests in the usbtest driver

`ch9_postconfig` makes the standard requests of a configured device and looks at the descriptors
that come back, all in one buffer of 256 bytes. The core and the device are code outside, which
answers each request in a state of its own.
-/

namespace FuzzUSB.Usbtest.Ch9
open CLayout RecordWalk

def EPIPE : ℤ := 32
def EDOM : ℤ := 33
def ERANGE : ℤ := 34
def EINVAL : ℤ := 22

/-- `TBUF_SIZE` -/
def tbufSize : ℕ := 256

def dtDevice : ℕ := 1
def dtConfig : ℕ := 2
def dtDeviceQualifier : ℕ := 6
def dtOtherSpeedConfig : ℕ := 7
def dtBos : ℕ := 15
def dtDeviceCapability : ℕ := 16

/-- What the host knows of the device and of the interface that the test is bound to. -/
structure Host where
  realworld : Bool
  highSpeed : Bool
  bcdUSB : BitVec 16
  bNumConfigurations : Byte
  bConfigurationValue : Byte
  bInterfaceNumber : Byte
  /-- `bAlternateSetting` of each altsetting. -/
  altsetting : List Byte

inductive Request
  | setInterface (interface alternate : ℕ)
  | getInterface (interface : Byte)
  | getConfiguration
  | getDescriptor (type index size : ℕ)
  | getDeviceStatus
  | getInterfaceStatus (interface : Byte)

/-- The status of a request, and what was written to the buffer. -/
structure Reply where
  status : ℤ
  data : List Byte

/-- The core and the device, in a state of type `σ`. -/
abbrev Bus (σ : Type) := σ → Request → Reply × σ

/-- The device and `dev->buf`. -/
structure Session (σ : Type) where
  dev : σ
  buf : Memory

/-- Bytes at the start of the buffer. -/
def overlay (data : List Byte) (buf : Memory) : Memory := fun i => data[i]?.getD (buf i)

/-- A 16-bit field in little endian. -/
def le16 (buf : Memory) (pos : ℕ) : ℕ := (buf pos).toNat + 256 * (buf (pos + 1)).toNat

/-! ## Descriptors -/

section

variable (realworld : Bool) (buf : Memory)

/-- `is_good_config`. A negative `len` is compared as an unsigned number, and so is large. -/
def isGoodConfig (len : ℤ) : Bool :=
  if 0 ≤ len ∧ len < 9 then false
  else if (buf 1).toNat = dtConfig ∨ (buf 1).toNat = dtOtherSpeedConfig then
    if (buf 0).toNat ≠ 9 then false
    else if !realworld && (buf 7 &&& 0x80) = 0 then false
    else if buf 7 &&& 0x1f ≠ 0 then false
    else if (le16 buf 2 : ℤ) = len then true
    else decide (tbufSize ≤ le16 buf 2)
  else false

def isGoodExt (pos : ℕ) : Bool :=
  if (buf pos).toNat ≠ 7 then false
  else
    let attr := buf (pos + 6) ++ buf (pos + 5) ++ buf (pos + 4) ++ buf (pos + 3)
    if attr &&& ~~~0xfffe#32 ≠ 0 then false else true

def isGoodSsCap (pos : ℕ) : Bool :=
  if (buf pos).toNat ≠ 10 then false
  else if buf (pos + 3) &&& ~~~0x02 ≠ 0 then false
  else if (buf (pos + 5) ++ buf (pos + 4)) &&& ~~~0x0f#16 ≠ 0 then false
  else true

def isGoodConId (pos : ℕ) : Bool :=
  if (buf pos).toNat ≠ 20 then false
  else if buf (pos + 3) ≠ 0 then false
  else true

/-- What the loop of `ch9_postconfig` makes of the capability at `pos`. -/
def capability (total pos : ℕ) : Bool :=
  if (buf (pos + 1)).toNat ≠ dtDeviceCapability then true
  else match (buf (pos + 2)).toNat with
    | 2 => pos + 7 ≤ total && isGoodExt buf pos
    | 3 => pos + 10 ≤ total && isGoodSsCap buf pos
    | 4 => pos + 20 ≤ total && isGoodConId buf pos
    | _ => true

/-- The loop over the capabilities, `todo` of which are left, the next one at `pos`. -/
def capabilities (total : ℕ) : ℕ → ℕ → Bool
  | 0, _ => true
  | todo + 1, pos =>
    if total < pos + 3 then true
    else if !capability buf total pos then false
    else capabilities total todo (pos + (buf pos).toNat)

end

/-! ## `ch9_postconfig` -/

section

variable {σ : Type} (bus : Bus σ) (host : Host)

def ask (r : Request) (s : Session σ) : ℤ × Session σ :=
  ((bus s.dev r).1.status, ⟨(bus s.dev r).2, overlay (bus s.dev r).1.data s.buf⟩)

/-- A part of the test goes on, or returns a status early and leaves a session. -/
abbrev Outcome (σ : Type) := Except (ℤ × Session σ)

/-- `(retval < 0) ? retval : -EDOM` -/
def orEdom (retval : ℤ) : ℤ := if retval < 0 then retval else -EDOM

def getAltsetting (s : Session σ) : ℤ × Session σ :=
  let r := ask bus (.getInterface host.bInterfaceNumber) s
  (if r.1 = 1 then ((r.2.buf 0).toNat : ℤ) else if r.1 = 0 then -ERANGE else r.1, r.2)

def setAltsetting (alternate : ℤ) (s : Session σ) : ℤ × Session σ :=
  if alternate < 0 ∨ 256 ≤ alternate then (-EINVAL, s)
  else ask bus (.setInterface host.bInterfaceNumber.toNat alternate.toNat) s

/-- The loop over the altsettings. -/
def altsettings : List Byte → Session σ → Outcome σ (Session σ)
  | [], s => .ok s
  | alt :: alts, s =>
    if host.realworld && decide (host.altsetting.length = 1) then altsettings alts s
    else
      let r := setAltsetting bus host alt.toNat s
      if r.1 ≠ 0 then .error r
      else
        let r := getAltsetting bus host r.2
        if r.1 ≠ alt.toNat then .error (orEdom r.1, r.2) else altsettings alts r.2

def configuration (s : Session σ) : Outcome σ (Session σ) :=
  if !host.realworld || decide (host.bNumConfigurations ≠ 1) then
    let r := ask bus .getConfiguration s
    if r.1 ≠ 1 ∨ r.2.buf 0 ≠ host.bConfigurationValue then .error (orEdom r.1, r.2) else .ok r.2
  else .ok s

def deviceDescriptor (s : Session σ) : Outcome σ (Session σ) :=
  let r := ask bus (.getDescriptor dtDevice 0 18) s
  if r.1 ≠ 18 then .error (orEdom r.1, r.2) else .ok r.2

def bos (s : Session σ) : Outcome σ (Session σ) :=
  if 0x0210 ≤ host.bcdUSB.toNat then
    let r := ask bus (.getDescriptor dtBos 0 5) s
    if r.1 ≠ 5 then .error (orEdom r.1, r.2)
    else
      let total := min (le16 r.2.buf 2) tbufSize
      let num := (r.2.buf 4).toNat
      let r := ask bus (.getDescriptor dtBos 0 total) r.2
      if r.1 ≠ total then .error (orEdom r.1, r.2)
      else if capabilities r.2.buf total num 5 then .ok r.2
      else .error (-EDOM, r.2)
  else .ok s

/-- The loop that reads the configurations, or those of the other speed, from `i` on. -/
def configs (type : ℕ) : ℕ → ℕ → Session σ → Outcome σ (Session σ)
  | 0, _, s => .ok s
  | todo + 1, i, s =>
    let r := ask bus (.getDescriptor type i tbufSize) s
    if !isGoodConfig host.realworld r.2.buf r.1 then .error (orEdom r.1, r.2)
    else configs type todo (i + 1) r.2

def qualifier (s : Session σ) : Outcome σ (Session σ) :=
  if host.bcdUSB.toNat = 0x0200 then
    let r := ask bus (.getDescriptor dtDeviceQualifier 0 10) s
    if r.1 = -EPIPE then
      if host.highSpeed then .error r else .ok r.2
    else if r.1 ≠ 10 then .error (orEdom r.1, r.2)
    else configs bus host dtOtherSpeedConfig (r.2.buf 8).toNat 0 r.2
  else .ok s

def statuses (s : Session σ) : Outcome σ (Session σ) :=
  let r := ask bus .getDeviceStatus s
  if r.1 ≠ 0 then .error r
  else
    let r := ask bus (.getInterfaceStatus host.bInterfaceNumber) r.2
    if r.1 ≠ 0 then .error r else .ok r.2

/-- `ch9_postconfig`, which returns 0 where it does not return early. -/
def ch9Postconfig (s : Session σ) : Outcome σ (Session σ) := do
  let s ← altsettings bus host host.altsetting s
  let s ← configuration bus host s
  let s ← deviceDescriptor bus s
  let s ← bos bus host s
  let s ← configs bus host dtConfig host.bNumConfigurations.toNat 0 s
  let s ← qualifier bus host s
  statuses bus host s

end

/-! ## A device that answers from its descriptors -/

/-- A descriptor of a type. -/
structure Descriptor (type : ℕ) where
  bytes : List Byte
  typed : 1 < bytes.length → bytes[1]? = some (BitVec.ofNat 8 type)

/-- A device capability; its first byte is its length. -/
structure Capability where
  bytes : List Byte
  three_le : 3 ≤ bytes.length
  length_lt : bytes.length < 256
  head : bytes[0]? = some (BitVec.ofNat 8 bytes.length)

/-- A BOS descriptor with its capabilities. -/
structure Bos where
  caps : List Capability
  num_lt : caps.length < 256
  total_lt : 5 + (caps.map Capability.bytes).flatten.length < 65536

structure Device where
  altsettings : List Byte
  configuration : Byte
  device : Descriptor dtDevice
  bos : Option Bos
  configs : List (Descriptor dtConfig)
  qualifier : Option (Descriptor dtDeviceQualifier)
  otherSpeed : List (Descriptor dtOtherSpeedConfig)

def Bos.records (b : Bos) : List (List Byte) := b.caps.map Capability.bytes

def Bos.bytes (b : Bos) : List Byte :=
  let total := 5 + b.records.flatten.length
  [5, 15, BitVec.ofNat 8 total, BitVec.ofNat 8 (total / 256), BitVec.ofNat 8 b.caps.length] ++
    b.records.flatten

namespace Device

variable (d : Device)

/-- What the device has for a type of descriptor and an index. -/
def blob (type index : ℕ) : Option (List Byte) :=
  if type = dtDevice then some d.device.bytes
  else if type = dtBos then d.bos.map Bos.bytes
  else if type = dtConfig then d.configs[index]?.map Descriptor.bytes
  else if type = dtDeviceQualifier then d.qualifier.map Descriptor.bytes
  else if type = dtOtherSpeedConfig then d.otherSpeed[index]?.map Descriptor.bytes
  else none

/-- The bytes, cut or filled up with zeros: the core clears the buffer first. -/
def filled (bytes : List Byte) (size : ℕ) : List Byte :=
  bytes.take size ++ List.replicate (size - bytes.length) 0

/-- What is read of a descriptor. What the device does not have it stalls. -/
def reply (blob : Option (List Byte)) (size : ℕ) : Reply :=
  match blob with
  | none => ⟨-EPIPE, filled [] size⟩
  | some bytes => ⟨(min bytes.length size : ℕ), filled bytes size⟩

end Device

/-- What the core and the device do with the requests of the test, `selected` being the altsetting
that the device uses. None of them fails but for a stall. -/
structure Answers {σ : Type} (host : Host) (d : Device) (selected : σ → Byte) (bus : Bus σ) :
    Prop where
  setInterface (s : σ) {alt : Byte} (hmem : alt ∈ d.altsettings) :
    let r := bus s (.setInterface host.bInterfaceNumber.toNat alt.toNat)
    r.1.status = 0 ∧ selected r.2 = alt
  /-- `usb_set_interface` takes a stall for success where there is one altsetting only. -/
  stalls (s : σ) {alt : Byte} (hmem : alt ∉ d.altsettings) :
    let r := bus s (.setInterface host.bInterfaceNumber.toNat alt.toNat)
    if host.altsetting.length = 1 then r.1.status = 0 ∧ selected r.2 = selected s
    else r.1.status = -EPIPE
  getInterface (s : σ) : (bus s (.getInterface host.bInterfaceNumber)).1 = ⟨1, [selected s]⟩
  getConfiguration (s : σ) : (bus s .getConfiguration).1 = ⟨1, [d.configuration]⟩
  getDescriptor (s : σ) (type index size : ℕ) :
    (bus s (.getDescriptor type index size)).1 = Device.reply (d.blob type index) size
  getDeviceStatus (s : σ) : (bus s .getDeviceStatus).1.status = 0
  getInterfaceStatus (s : σ) :
    (bus s (.getInterfaceStatus host.bInterfaceNumber)).1.status = 0

/-- The core and a device whose state is the altsetting that it uses. -/
def Device.bus (host : Host) (d : Device) : Bus Byte := fun alt r =>
  match r with
  | .setInterface _ alternate =>
    if BitVec.ofNat 8 alternate ∈ d.altsettings then (⟨0, []⟩, BitVec.ofNat 8 alternate)
    else if host.altsetting.length = 1 then (⟨0, []⟩, alt)
    else (⟨-EPIPE, []⟩, alt)
  | .getInterface _ => (⟨1, [alt]⟩, alt)
  | .getConfiguration => (⟨1, [d.configuration]⟩, alt)
  | .getDescriptor type index size => (reply (d.blob type index) size, alt)
  | .getDeviceStatus => (⟨0, [0, 0]⟩, alt)
  | .getInterfaceStatus _ => (⟨0, [0, 0]⟩, alt)

theorem Device.bus_answers (host : Host) (d : Device) : Answers host d id (d.bus host) where
  setInterface s alt hmem := by simp [Device.bus, hmem]
  stalls s alt hmem := by
    by_cases hone : host.altsetting.length = 1
    · simp [Device.bus, hmem, hone]
    · simp [Device.bus, hmem, hone]
  getInterface _ := rfl
  getConfiguration _ := rfl
  getDescriptor _ _ _ _ := rfl
  getDeviceStatus _ := rfl
  getInterfaceStatus _ := rfl

/-! ## What passes -/

/-- A list of bytes as a memory. -/
def memoryOf (bytes : List Byte) : Memory := fun i => bytes[i]?.getD 0

/-- A configuration descriptor, with all that is read along with it. -/
structure GoodConfig (realworld : Bool) (bytes : List Byte) : Prop where
  complete : 9 ≤ bytes.length
  bLength : (memoryOf bytes 0).toNat = 9
  high : realworld = true ∨ memoryOf bytes 7 &&& 0x80 ≠ 0
  reserved : memoryOf bytes 7 &&& 0x1f = 0
  wTotalLength : le16 (memoryOf bytes) 2 = min bytes.length tbufSize ∨
    tbufSize ≤ le16 (memoryOf bytes) 2

/-- A capability that is good by itself. -/
def Capability.Good (c : Capability) : Prop :=
  capability (memoryOf c.bytes) c.bytes.length 0 = true

/-- A kind of capability that is looked at. -/
def Capability.Known (c : Capability) : Prop :=
  (memoryOf c.bytes 1).toNat = dtDeviceCapability ∧
    ((memoryOf c.bytes 2).toNat = 2 ∨ (memoryOf c.bytes 2).toNat = 3 ∨
      (memoryOf c.bytes 2).toNat = 4)

/-- Every capability whose head is in the buffer is good, and is in the buffer if it is known. -/
def Bos.Good (b : Bos) : Prop :=
  ∀ k c, b.caps[k]? = some c → start b.records 5 k + 3 ≤ tbufSize →
    c.Good ∧ (c.Known → start b.records 5 k + c.bytes.length ≤ tbufSize)

/-- Every index below `num` has a good configuration. -/
def GoodConfigs {type : ℕ} (realworld : Bool) (configs : List (Descriptor type)) (num : ℕ) : Prop :=
  ∀ i < num, ∃ c, configs[i]? = some c ∧ GoodConfig realworld c.bytes

/-- Every altsetting can be set. One that is the only one need not be if it is in use, and is not
looked at if `realworld` is set. -/
def HasAltsettings (host : Host) (d : Device) (used : Byte) : Prop :=
  host.altsetting.length = 1 ∧ (host.realworld = true ∨ host.altsetting = [used]) ∨
    ∀ alt ∈ host.altsetting, alt ∈ d.altsettings

/-- The device, which uses the altsetting `used`, is as the host knows it, and its descriptors are
good. -/
structure Conforms (host : Host) (d : Device) (used : Byte) : Prop where
  altsettings : HasAltsettings host d used
  configuration : host.realworld = true ∧ host.bNumConfigurations = 1 ∨
    d.configuration = host.bConfigurationValue
  device : 18 ≤ d.device.bytes.length
  bos : 0x0210 ≤ host.bcdUSB.toNat → ∃ b, d.bos = some b ∧ b.Good
  configs : GoodConfigs host.realworld d.configs host.bNumConfigurations.toNat
  qualifier : host.bcdUSB.toNat = 0x0200 →
    match d.qualifier with
    | none => host.highSpeed = false
    | some q => 10 ≤ q.bytes.length ∧
        GoodConfigs host.realworld d.otherSpeed (memoryOf q.bytes 8).toNat

/-! ## The buffer -/

theorem overlay_filled (bytes : List Byte) {size i : ℕ} (buf : Memory) (hi : i < size) :
    overlay (Device.filled bytes size) buf i = memoryOf bytes i := by
  have htake : (bytes.take size).length = min size bytes.length := List.length_take
  unfold overlay memoryOf Device.filled
  by_cases hb : i < bytes.length
  · rw [List.getElem?_append_left (by omega), List.getElem?_take_of_lt hi,
      List.getElem?_eq_getElem hb]
    rfl
  · have hzero : (List.replicate (size - bytes.length) (0 : Byte))[i - (bytes.take size).length]? =
        some 0 := List.getElem?_replicate_of_lt (by omega)
    rw [List.getElem?_append_right (by omega), hzero, List.getElem?_eq_none (by omega)]
    rfl

section

variable {σ : Type} {host : Host} {d : Device} {selected : σ → Byte} {bus : Bus σ}
variable (h : Answers host d selected bus)

include h

/-- A descriptor is read as far as it fits, and what is not there as zeros. -/
theorem ask_buf (s : Session σ) (type index : ℕ) {size i : ℕ} (hi : i < size) :
    (ask bus (.getDescriptor type index size) s).2.buf i =
      memoryOf ((d.blob type index).getD []) i := by
  simp only [ask, h.getDescriptor]
  cases d.blob type index with
  | none => exact overlay_filled [] s.buf hi
  | some bytes => exact overlay_filled bytes s.buf hi

theorem ask_status (s : Session σ) (type index size : ℕ) :
    (ask bus (.getDescriptor type index size) s).1 =
      (d.blob type index).elim (-EPIPE) fun bytes => ((min bytes.length size : ℕ) : ℤ) := by
  simp only [ask, h.getDescriptor]
  cases d.blob type index <;> rfl

end

/-! ## The parts -/

section

variable {σ : Type}

/-- A part of the test passes or fails whatever was done before. -/
def Decides (f : Session σ → Outcome σ (Session σ)) (p : Prop) : Prop :=
  ∀ s, (∃ t, f s = .ok t) ↔ p

theorem ok_iff {s : Session σ} : (∃ t, (Except.ok s : Outcome σ (Session σ)) = .ok t) ↔ True :=
  iff_of_true ⟨s, rfl⟩ trivial

theorem error_iff {r : ℤ × Session σ} :
    (∃ t, (Except.error r : Outcome σ (Session σ)) = .ok t) ↔ False :=
  iff_of_false (fun ⟨_, h⟩ => by cases h) id

theorem bind_passes_iff {f g : Session σ → Outcome σ (Session σ)} {s : Session σ} {p q : Prop}
    (hf : (∃ t, f s = .ok t) ↔ p) (hg : Decides g q) : (∃ t, (f s >>= g) = .ok t) ↔ p ∧ q := by
  cases hfs : f s with
  | error e =>
    have hstop : ((.error e : Outcome σ (Session σ)) >>= g) = .error e := rfl
    have hp : ¬p := fun hp => by
      obtain ⟨t, ht⟩ := hf.mpr hp
      rw [hfs] at ht
      cases ht
    rw [hstop, error_iff, false_iff]
    exact fun h => hp h.1
  | ok t =>
    have hp : p := hf.mp ⟨t, hfs⟩
    rw [and_iff_right hp]
    exact hg t

theorem Decides.bind {f g : Session σ → Outcome σ (Session σ)} {p q : Prop} (hf : Decides f p)
    (hg : Decides g q) : Decides (fun s => f s >>= g) (p ∧ q) :=
  fun s => bind_passes_iff (hf s) hg

end

section

variable {σ : Type} {host : Host} {d : Device} {selected : σ → Byte} {bus : Bus σ}
variable (h : Answers host d selected bus)

theorem setAltsetting_byte (bus : Bus σ) (host : Host) (alt : Byte) (s : Session σ) :
    setAltsetting bus host alt.toNat s =
      ask bus (.setInterface host.bInterfaceNumber.toNat alt.toNat) s := by
  have hlt := alt.isLt
  rw [setAltsetting, if_neg (by omega), Int.toNat_natCast]

include h

theorem getAltsetting_answer (s : Session σ) :
    (getAltsetting bus host s).1 = (selected s.dev).toNat := by
  simp [getAltsetting, ask, h.getInterface, overlay]

/-- An altsetting passes that is used after the request for it. -/
theorem altsettings_cons (hset : ¬(host.realworld = true ∧ host.altsetting.length = 1))
    {alt : Byte} (alts : List Byte) (s : Session σ) :
    (∃ t, altsettings bus host (alt :: alts) s = .ok t) ↔
      ((setAltsetting bus host alt.toNat s).1 = 0 ∧
        selected (setAltsetting bus host alt.toNat s).2.dev = alt) ∧
      ∃ t, altsettings bus host alts
        (getAltsetting bus host (setAltsetting bus host alt.toNat s).2).2 = .ok t := by
  have hskip : (host.realworld && decide (host.altsetting.length = 1)) = false := by
    simpa using hset
  simp only [altsettings, hskip, getAltsetting_answer h]
  generalize setAltsetting bus host alt.toNat s = r
  by_cases hstatus : r.1 = 0
  · by_cases hused : selected r.2.dev = alt
    · simp [hstatus, hused]
    · have hne : (selected r.2.dev).toNat ≠ alt.toNat := fun he => hused (BitVec.eq_of_toNat_eq he)
      simp [hstatus, hused, hne]
  · simp [hstatus]

/-- Where there are several altsettings, each has to be set. -/
theorem altsettings_decides (hmany : host.altsetting.length ≠ 1) (alts : List Byte) :
    Decides (altsettings bus host alts) (∀ alt ∈ alts, alt ∈ d.altsettings) := by
  induction alts with
  | nil => exact fun s => ok_iff.trans (by simp)
  | cons alt alts ih =>
    intro s
    rw [altsettings_cons h fun hone => hmany hone.2, ih, List.forall_mem_cons, setAltsetting_byte]
    refine and_congr_left fun _ => ?_
    by_cases hmem : alt ∈ d.altsettings
    · exact iff_of_true (h.setInterface s.dev hmem) hmem
    · have hstall := h.stalls s.dev hmem
      rw [if_neg hmany] at hstall
      refine iff_of_false (fun hset => ?_) hmem
      have hzero : (0 : ℤ) = -EPIPE := hset.1.symm.trans hstall
      exact absurd hzero (by decide)

theorem altsettings_pass_iff (s : Session σ) :
    (∃ t, altsettings bus host host.altsetting s = .ok t) ↔
      HasAltsettings host d (selected s.dev) := by
  unfold HasAltsettings
  by_cases hmany : host.altsetting.length = 1
  · obtain ⟨alt, halt⟩ := List.length_eq_one_iff.mp hmany
    by_cases hreal : host.realworld = true
    · have hskip : altsettings bus host host.altsetting s = .ok s := by
        simp [halt, altsettings, hreal]
      rw [hskip]
      exact iff_of_true ⟨s, rfl⟩ (.inl ⟨hmany, .inl hreal⟩)
    · have hsingle : (∃ t, altsettings bus host host.altsetting s = .ok t) ↔
          alt ∈ d.altsettings ∨ selected s.dev = alt := by
        rw [halt, altsettings_cons h fun hone => hreal hone.1, altsettings, setAltsetting_byte,
          and_iff_left ⟨_, rfl⟩]
        by_cases hmem : alt ∈ d.altsettings
        · exact iff_of_true (h.setInterface s.dev hmem) (.inl hmem)
        · have hkept := h.stalls s.dev hmem
          rw [if_pos hmany] at hkept
          rw [or_iff_right hmem, ← hkept.2]
          exact and_iff_right hkept.1
      rw [hsingle]
      simp [halt, hreal, or_comm, eq_comm]
  · rw [altsettings_decides h hmany host.altsetting s, or_iff_right fun hone => hmany hone.1]

theorem configuration_decides :
    Decides (configuration bus host) (host.realworld = true ∧ host.bNumConfigurations = 1 ∨
      d.configuration = host.bConfigurationValue) := by
  intro s
  by_cases hone : host.realworld = true ∧ host.bNumConfigurations = 1
  · simp [configuration, hone]
  · have hget : (!host.realworld || decide (host.bNumConfigurations ≠ 1)) = true := by
      simpa [or_iff_not_imp_left] using hone
    simp only [configuration, if_pos hget, ask, h.getConfiguration, overlay, or_iff_right hone]
    by_cases hvalue : d.configuration = host.bConfigurationValue
    · simp [hvalue]
    · simp [hvalue]

end

theorem blob_device (d : Device) : d.blob dtDevice 0 = some d.device.bytes := rfl

theorem blob_bos (d : Device) : d.blob dtBos 0 = d.bos.map Bos.bytes := rfl

theorem blob_config (d : Device) (i : ℕ) :
    d.blob dtConfig i = d.configs[i]?.map Descriptor.bytes := rfl

theorem blob_qualifier (d : Device) :
    d.blob dtDeviceQualifier 0 = d.qualifier.map Descriptor.bytes := rfl

theorem blob_otherSpeed (d : Device) (i : ℕ) :
    d.blob dtOtherSpeedConfig i = d.otherSpeed[i]?.map Descriptor.bytes := rfl

section

variable {σ : Type} {host : Host} {d : Device} {selected : σ → Byte} {bus : Bus σ}
variable (h : Answers host d selected bus)

include h

theorem deviceDescriptor_decides :
    Decides (deviceDescriptor bus) (18 ≤ d.device.bytes.length) := by
  intro s
  have hstatus := ask_status h s dtDevice 0 18
  rw [blob_device, Option.elim] at hstatus
  simp only [deviceDescriptor, hstatus]
  by_cases hlen : 18 ≤ d.device.bytes.length
  · rw [if_neg (by omega), ok_iff, iff_true_left trivial]
    exact hlen
  · rw [if_pos (by omega), error_iff, false_iff]
    exact hlen

theorem statuses_decides : Decides (statuses bus host) True := by
  intro s
  simp [statuses, ask, h.getDeviceStatus, h.getInterfaceStatus]

end

/-! ## Configurations -/

theorem isGoodConfig_iff {realworld : Bool} {type : ℕ} {buf : Memory}
    (htype : type = dtConfig ∨ type = dtOtherSpeedConfig) (c : Descriptor type)
    (hbuf : ∀ i < tbufSize, buf i = memoryOf c.bytes i) :
    isGoodConfig realworld buf ((min c.bytes.length tbufSize : ℕ) : ℤ) = true ↔
      GoodConfig realworld c.bytes := by
  have hle16 : le16 buf 2 = le16 (memoryOf c.bytes) 2 := by
    rw [le16, le16, hbuf 2 (by decide), hbuf (2 + 1) (by decide)]
  have hsize : tbufSize = 256 := rfl
  unfold isGoodConfig
  rw [hle16, hbuf 0 (by decide), hbuf 1 (by decide), hbuf 7 (by decide)]
  by_cases hlen : 9 ≤ c.bytes.length
  · have hone : (memoryOf c.bytes 1).toNat = type := by
      rw [memoryOf, c.typed (by omega)]
      rcases htype with rfl | rfl <;> rfl
    rw [if_neg (by omega), if_pos (hone.symm ▸ htype)]
    have hset (h : ¬(!realworld && decide (memoryOf c.bytes 7 &&& 0x80 = 0)) = true) :
        realworld = true ∨ memoryOf c.bytes 7 &&& 0x80 ≠ 0 := by
      simpa [or_iff_not_imp_left] using h
    split_ifs with hlength hhigh hreserved hread
    · exact iff_of_false (by simp) fun h => hlength h.bLength
    · refine iff_of_false (by simp) fun h => ?_
      simp only [Bool.and_eq_true, Bool.not_eq_true', decide_eq_true_eq] at hhigh
      exact h.high.elim (by simp [hhigh.1]) (· hhigh.2)
    · exact iff_of_false (by simp) fun h => hreserved h.reserved
    · exact iff_of_true rfl ⟨hlen, not_ne_iff.mp hlength, hset hhigh, not_ne_iff.mp hreserved,
        .inl (Int.ofNat_inj.mp hread)⟩
    · rw [decide_eq_true_iff]
      exact ⟨fun hpart => ⟨hlen, not_ne_iff.mp hlength, hset hhigh, not_ne_iff.mp hreserved,
        .inr hpart⟩, fun h => h.wTotalLength.resolve_left fun he => hread (congrArg _ he)⟩
  · rw [if_pos (by omega)]
    exact iff_of_false (by simp) fun h => hlen h.complete

section

variable {σ : Type} {host : Host} {d : Device} {selected : σ → Byte} {bus : Bus σ}
variable (h : Answers host d selected bus)

include h

theorem configs_decides {type : ℕ}
    (htype : type = dtConfig ∨ type = dtOtherSpeedConfig) {l : List (Descriptor type)}
    (hblob : ∀ i, d.blob type i = l[i]?.map Descriptor.bytes)
    (todo i : ℕ) : Decides (configs bus host type todo i)
      (∀ k < todo, ∃ c, l[i + k]? = some c ∧ GoodConfig host.realworld c.bytes) := by
  induction todo generalizing i with
  | zero => exact fun s => ok_iff.trans (by simp)
  | succ todo ih =>
    intro s
    have hsplit : (∀ k < todo + 1, ∃ c, l[i + k]? = some c ∧ GoodConfig host.realworld c.bytes) ↔
        (∃ c, l[i]? = some c ∧ GoodConfig host.realworld c.bytes) ∧
          ∀ k < todo, ∃ c, l[i + 1 + k]? = some c ∧ GoodConfig host.realworld c.bytes := by
      rw [Nat.forall_lt_succ_left]
      simp only [Nat.add_zero, Nat.add_assoc, Nat.add_comm 1]
    rw [hsplit]
    have hstatus := ask_status h s type i tbufSize
    have hbuf (k : ℕ) (hk : k < tbufSize) := ask_buf h s type i hk
    rw [hblob i] at hstatus
    simp only [hblob i] at hbuf
    rw [configs]
    cases hc : l[i]? with
    | none =>
      rw [hc] at hstatus hbuf
      have hbad : isGoodConfig host.realworld
          (ask bus (.getDescriptor type i tbufSize) s).2.buf
          (ask bus (.getDescriptor type i tbufSize) s).1 = false := by
        rw [hstatus]
        simp [isGoodConfig, hbuf 1 (by decide), memoryOf, dtConfig, dtOtherSpeedConfig, EPIPE]
      simp only [hbad, Bool.not_false, if_true, error_iff, false_iff]
      rintro ⟨⟨c, hnone, _⟩, _⟩
      cases hnone
    | some c =>
      rw [hc] at hstatus hbuf
      have hread : (ask bus (.getDescriptor type i tbufSize) s).1 =
        ((min c.bytes.length tbufSize : ℕ) : ℤ) := hstatus
      have hgood : _ ↔ GoodConfig host.realworld c.bytes := isGoodConfig_iff htype c hbuf
      rw [← hread] at hgood
      by_cases hg : GoodConfig host.realworld c.bytes
      · simp only [hgood.mpr hg, Bool.not_true, Bool.false_eq_true, if_false]
        rw [ih (i + 1)]
        simp [hg]
      · have hbad := Bool.eq_false_iff.mpr (mt hgood.mp hg)
        simp only [hbad, Bool.not_false, if_true, error_iff, false_iff]
        rintro ⟨⟨c', hsome, hgood'⟩, _⟩
        obtain rfl := Option.some.inj hsome
        exact hg hgood'

theorem qualifier_decides :
    Decides (qualifier bus host) (host.bcdUSB.toNat = 0x0200 →
      match d.qualifier with
      | none => host.highSpeed = false
      | some q => 10 ≤ q.bytes.length ∧
          GoodConfigs host.realworld d.otherSpeed (memoryOf q.bytes 8).toNat) := by
  intro s
  unfold qualifier
  by_cases husb : host.bcdUSB.toNat = 0x0200
  · rw [if_pos husb, forall_prop_of_true husb]
    have hstatus := ask_status h s dtDeviceQualifier 0 10
    have hbuf := ask_buf h s dtDeviceQualifier 0 (by decide : 8 < 10)
    rw [blob_qualifier] at hstatus hbuf
    cases hq : d.qualifier with
    | none =>
      rw [hq] at hstatus
      have hstall : (ask bus (.getDescriptor dtDeviceQualifier 0 10) s).1 = -EPIPE := hstatus
      simp only [hstall, if_true]
      cases host.highSpeed with
      | false => simp
      | true => simp
    | some q =>
      rw [hq] at hstatus hbuf
      have hread : (ask bus (.getDescriptor dtDeviceQualifier 0 10) s).1 =
        ((min q.bytes.length 10 : ℕ) : ℤ) := hstatus
      have hnum : (ask bus (.getDescriptor dtDeviceQualifier 0 10) s).2.buf 8 =
        memoryOf q.bytes 8 := hbuf
      have hnostall : ((min q.bytes.length 10 : ℕ) : ℤ) ≠ -EPIPE := by
        rw [EPIPE]
        omega
      simp only [hread, if_neg hnostall]
      by_cases hlen : 10 ≤ q.bytes.length
      · have hall : ((min q.bytes.length 10 : ℕ) : ℤ) = 10 := by omega
        simp only [hall, ne_eq, not_true_eq_false, if_false, hnum]
        rw [configs_decides h (.inr rfl) (blob_otherSpeed d), and_iff_right hlen]
        simp only [Nat.zero_add]
        exact Iff.rfl
      · have hshort : ((min q.bytes.length 10 : ℕ) : ℤ) ≠ 10 := by omega
        rw [if_pos hshort, error_iff, false_iff]
        exact fun h => hlen h.1
  · rw [if_neg husb]
    exact iff_of_true ⟨s, rfl⟩ fun he => absurd he husb

end

/-! ## Capabilities -/

theorem capabilities_eq_walk (buf : Memory) (total todo pos : ℕ) :
    capabilities buf total todo pos =
      walk (fun p => (buf p).toNat) (capability buf total) 3 total todo pos := by
  induction todo generalizing pos with
  | zero => rfl
  | succ todo ih =>
    rw [capabilities, walk, ih]
    cases capability buf total pos <;> rfl

theorem isGoodExt_length {buf : Memory} {pos : ℕ} (h : isGoodExt buf pos = true) :
    (buf pos).toNat = 7 := by
  by_contra hne
  simp [isGoodExt, hne] at h

theorem isGoodSsCap_length {buf : Memory} {pos : ℕ} (h : isGoodSsCap buf pos = true) :
    (buf pos).toNat = 10 := by
  by_contra hne
  simp [isGoodSsCap, hne] at h

theorem isGoodConId_length {buf : Memory} {pos : ℕ} (h : isGoodConId buf pos = true) :
    (buf pos).toNat = 20 := by
  by_contra hne
  simp [isGoodConId, hne] at h

section

variable {buf buf' : Memory} {pos pos' : ℕ}

theorem isGoodExt_congr (h : ∀ j < 7, buf (pos + j) = buf' (pos' + j)) :
    isGoodExt buf pos = isGoodExt buf' pos' := by
  have hhead : buf pos = buf' pos' := h 0 (by decide)
  simp only [isGoodExt, hhead, h 3 (by decide), h 4 (by decide), h 5 (by decide), h 6 (by decide)]

theorem isGoodSsCap_congr (h : ∀ j < 10, buf (pos + j) = buf' (pos' + j)) :
    isGoodSsCap buf pos = isGoodSsCap buf' pos' := by
  have hhead : buf pos = buf' pos' := h 0 (by decide)
  simp only [isGoodSsCap, hhead, h 3 (by decide), h 4 (by decide), h 5 (by decide)]

theorem isGoodConId_congr (h : ∀ j < 20, buf (pos + j) = buf' (pos' + j)) :
    isGoodConId buf pos = isGoodConId buf' pos' := by
  have hhead : buf pos = buf' pos' := h 0 (by decide)
  simp only [isGoodConId, hhead, h 3 (by decide)]

end

theorem Capability.memoryOf_zero (c : Capability) :
    (memoryOf c.bytes 0).toNat = c.bytes.length := by
  have hlt := c.length_lt
  rw [memoryOf, c.head]
  simpa using Nat.mod_eq_of_lt hlt

/-- A check that fixes the length, of a capability in a longer buffer and of the same one alone. -/
theorem inBuffer_iff_alone {buf : Memory} {total pos size : ℕ} {check : Memory → ℕ → Bool}
    {c : Capability} (hbuf : ∀ j < c.bytes.length, pos + j < total →
      buf (pos + j) = memoryOf c.bytes (0 + j)) (hpos : pos < total)
    (hlength : ∀ {m p}, check m p = true → (m p).toNat = size)
    (hcongr : ∀ {m m' p p'}, (∀ j < size, m (p + j) = m' (p' + j)) → check m p = check m' p') :
    (decide (pos + size ≤ total) && check buf pos) = true ↔
      (decide (0 + size ≤ c.bytes.length) && check (memoryOf c.bytes) 0) = true ∧
        pos + c.bytes.length ≤ total := by
  have hthree := c.three_le
  have hhead : (buf pos).toNat = c.bytes.length := by
    have hzero : buf pos = memoryOf c.bytes 0 := hbuf 0 (by omega) hpos
    rw [hzero, c.memoryOf_zero]
  simp only [Bool.and_eq_true, decide_eq_true_eq]
  constructor
  · rintro ⟨hfit, hgood⟩
    obtain rfl : c.bytes.length = size := hhead.symm.trans (hlength hgood)
    refine ⟨⟨by omega, ?_⟩, hfit⟩
    rw [← hcongr fun j hj => hbuf j hj (by omega)]
    exact hgood
  · rintro ⟨⟨_, hgood⟩, hfit⟩
    obtain rfl : c.bytes.length = size := c.memoryOf_zero.symm.trans (hlength hgood)
    refine ⟨hfit, ?_⟩
    rw [hcongr fun j hj => hbuf j hj (by omega)]
    exact hgood

/-- The loop finds a capability good if it is good by itself and, where it is a known one, whole. -/
theorem capability_iff {buf : Memory} {total pos : ℕ} {c : Capability}
    (hbuf : ∀ j < c.bytes.length, pos + j < total → buf (pos + j) = memoryOf c.bytes (0 + j))
    (hpos : pos + 3 ≤ total) : capability buf total pos = true ↔
      c.Good ∧ (c.Known → pos + c.bytes.length ≤ total) := by
  have hthree := c.three_le
  have hone : buf (pos + 1) = memoryOf c.bytes 1 := hbuf 1 (by omega) (by omega)
  have htwo : buf (pos + 2) = memoryOf c.bytes 2 := hbuf 2 (by omega) (by omega)
  unfold Capability.Good Capability.Known capability
  simp only [hone, htwo, Nat.zero_add]
  by_cases htype : (memoryOf c.bytes 1).toNat = dtDeviceCapability
  · simp only [htype, ne_eq, not_true_eq_false, if_false, true_and]
    split
    · next hkind =>
      rw [inBuffer_iff_alone hbuf (by omega) isGoodExt_length isGoodExt_congr]
      simp [hkind]
    · next hkind =>
      rw [inBuffer_iff_alone hbuf (by omega) isGoodSsCap_length isGoodSsCap_congr]
      simp [hkind]
    · next hkind =>
      rw [inBuffer_iff_alone hbuf (by omega) isGoodConId_length isGoodConId_congr]
      simp [hkind]
    · next hext hss hcon =>
      exact iff_of_true rfl ⟨rfl, fun hkind => (hkind.elim hext (·.elim hss hcon)).elim⟩
  · simp [htype]

/-! ## The BOS descriptor -/

namespace Bos

variable (b : Bos)

theorem length_bytes : b.bytes.length = 5 + b.records.flatten.length := by
  rw [Bos.bytes, List.length_append]
  rfl

theorem getElem?_bytes (i : ℕ) : b.bytes[5 + i]? = b.records.flatten[i]? := by
  rw [Bos.bytes, List.getElem?_append_right (by simp)]
  simp

theorem getElem?_records (k : ℕ) : b.records[k]? = b.caps[k]?.map Capability.bytes := by
  rw [Bos.records, List.getElem?_map]

theorem wTotalLength : le16 (memoryOf b.bytes) 2 = b.bytes.length := by
  have hlt : b.bytes.length < 65536 := b.length_bytes ▸ b.total_lt
  rw [b.length_bytes] at hlt ⊢
  simp only [le16, memoryOf, Bos.bytes, List.cons_append, List.getElem?_cons_succ,
    List.getElem?_cons_zero, Option.getD_some, BitVec.toNat_ofNat]
  omega

theorem bNumDeviceCaps : (memoryOf b.bytes 4).toNat = b.caps.length := by
  simpa [memoryOf, Bos.bytes] using Nat.mod_eq_of_lt b.num_lt

variable {b} {k : ℕ} {c : Capability}

theorem start_add_length_le (hc : b.caps[k]? = some c) :
    start b.records 5 k + c.bytes.length ≤ b.bytes.length := by
  have hrecord : b.records[k]? = some c.bytes := by rw [b.getElem?_records, hc, Option.map_some]
  have hle := start_add_le hrecord
  rw [start_eq_add, b.length_bytes]
  omega

theorem memoryOf_start (hc : b.caps[k]? = some c) {j : ℕ} (hj : j < c.bytes.length) :
    memoryOf b.bytes (start b.records 5 k + j) = memoryOf c.bytes j := by
  have hrecord : b.records[k]? = some c.bytes := by rw [b.getElem?_records, hc, Option.map_some]
  rw [memoryOf, memoryOf, start_eq_add, Nat.add_assoc, b.getElem?_bytes,
    getElem?_flatten hrecord hj]

end Bos

/-- The loop over the capabilities accepts exactly the good BOS descriptors. -/
theorem capabilities_iff {b : Bos} {buf : Memory} {total : ℕ}
    (htotal : total = min b.bytes.length tbufSize)
    (hbuf : ∀ i < total, buf i = memoryOf b.bytes i) :
    capabilities buf total b.caps.length 5 = true ↔ b.Good := by
  have hread {k j : ℕ} {c : Capability} (hc : b.caps[k]? = some c) (hj : j < c.bytes.length)
      (hin : start b.records 5 k + j < total) :
      buf (start b.records 5 k + j) = memoryOf c.bytes (0 + j) := by
    rw [hbuf _ hin, Bos.memoryOf_start hc hj, Nat.zero_add]
  have hcap {k : ℕ} {c : Capability} (hc : b.caps[k]? = some c)
      (hfit : start b.records 5 k + 3 ≤ total) :=
    capability_iff (fun j hj hin => hread hc hj hin) hfit
  have hpos (k : ℕ) (hk : k < b.caps.length)
      (hfit : position (fun p => (buf p).toNat) 5 k + 3 ≤ total ∨
        start b.records 5 k + 3 ≤ total) :
      position (fun p => (buf p).toNat) 5 k = start b.records 5 k := by
    refine position_eq_start (fun j r hr hin => ?_) ?_ hfit
    · rw [b.getElem?_records] at hr
      obtain ⟨c, hc, rfl⟩ := Option.map_eq_some_iff.mp hr
      have hthree := c.three_le
      have hhead : buf (start b.records 5 j) = memoryOf c.bytes 0 :=
        hread hc (by omega : 0 < c.bytes.length) (by omega)
      rw [hhead, c.memoryOf_zero]
    · rw [Bos.records, List.length_map]
      omega
  rw [capabilities_eq_walk, walk_eq_true_iff]
  constructor
  · intro h k c hc hfit
    have hk : k < b.caps.length := (List.getElem?_eq_some_iff.mp hc).1
    have hin := Bos.start_add_length_le hc
    have hthree := c.three_le
    have hfit' : start b.records 5 k + 3 ≤ total := by omega
    have heq := hpos k hk (.inr hfit')
    have hgood := h k hk (heq ▸ hfit')
    rw [heq, hcap hc hfit'] at hgood
    exact ⟨hgood.1, fun hknown => (hgood.2 hknown).trans (htotal ▸ Nat.min_le_right _ _)⟩
  · intro h k hk hfit
    have heq := hpos k hk (.inl hfit)
    have hc : b.caps[k]? = some b.caps[k] := List.getElem?_eq_getElem hk
    have hin := Bos.start_add_length_le hc
    rw [heq] at hfit ⊢
    rw [hcap hc hfit]
    obtain ⟨hgood, hwhole⟩ := h k _ hc (by omega)
    exact ⟨hgood, fun hknown => htotal ▸ Nat.le_min.mpr ⟨hin, hwhole hknown⟩⟩

theorem bos_decides {σ : Type} {host : Host} {d : Device} {selected : σ → Byte} {bus : Bus σ}
    (h : Answers host d selected bus) :
    Decides (bos bus host) (0x0210 ≤ host.bcdUSB.toNat → ∃ b, d.bos = some b ∧ b.Good) := by
  intro s
  unfold bos
  by_cases husb : 0x0210 ≤ host.bcdUSB.toNat
  · rw [if_pos husb, forall_prop_of_true husb]
    have hstatus := ask_status h s dtBos 0 5
    have hbuf (i : ℕ) (hi : i < 5) := ask_buf h s dtBos 0 hi
    rw [blob_bos] at hstatus
    simp only [blob_bos] at hbuf
    cases hb : d.bos with
    | none =>
      rw [hb] at hstatus
      have hstall : (ask bus (.getDescriptor dtBos 0 5) s).1 = -EPIPE := hstatus
      simp [hstall, EPIPE]
    | some b =>
      rw [hb] at hstatus hbuf
      have hfive : ((min b.bytes.length 5 : ℕ) : ℤ) = 5 := by
        rw [b.length_bytes]
        omega
      have hhead : (ask bus (.getDescriptor dtBos 0 5) s).1 = 5 := hstatus.trans hfive
      have htotal : le16 (ask bus (.getDescriptor dtBos 0 5) s).2.buf 2 = b.bytes.length := by
        rw [← b.wTotalLength, le16, le16, hbuf 2 (by decide), hbuf (2 + 1) (by decide)]
        rfl
      have hnum : ((ask bus (.getDescriptor dtBos 0 5) s).2.buf 4).toNat = b.caps.length := by
        rw [← b.bNumDeviceCaps, hbuf 4 (by decide)]
        rfl
      simp only [hhead, ne_eq, not_true_eq_false, if_false, htotal, hnum]
      generalize (ask bus (.getDescriptor dtBos 0 5) s).2 = t
      have hstatus := ask_status h t dtBos 0 (min b.bytes.length tbufSize)
      have hbuf (i : ℕ) (hi : i < min b.bytes.length tbufSize) := ask_buf h t dtBos 0 hi
      rw [blob_bos, hb] at hstatus
      simp only [blob_bos, hb] at hbuf
      have hall : (ask bus (.getDescriptor dtBos 0 (min b.bytes.length tbufSize)) t).1 =
          ((min b.bytes.length tbufSize : ℕ) : ℤ) := hstatus.trans <| by
        simp only [Option.map_some, Option.elim]
        omega
      have hgood := capabilities_iff rfl hbuf
      simp only [hall, not_true_eq_false, if_false]
      by_cases hg : b.Good
      · rw [if_pos (hgood.mpr hg)]
        exact iff_of_true ⟨_, rfl⟩ ⟨b, rfl, hg⟩
      · rw [if_neg (mt hgood.mp hg), error_iff, false_iff]
        rintro ⟨b', hsome, hg'⟩
        obtain rfl := Option.some.inj hsome
        exact hg hg'
  · rw [if_neg husb]
    exact iff_of_true ⟨s, rfl⟩ fun he => absurd he husb

/-! ## The test -/

/-- Against a device that answers from its descriptors the test passes exactly if they conform. -/
theorem ch9Postconfig_passes_iff {σ : Type} {host : Host} {d : Device} {selected : σ → Byte}
    {bus : Bus σ} (h : Answers host d selected bus) (s : Session σ) :
    (∃ t, ch9Postconfig bus host s = .ok t) ↔ Conforms host d (selected s.dev) := by
  have hparts := bind_passes_iff (altsettings_pass_iff h s) <|
    (configuration_decides h).bind <| (deviceDescriptor_decides h).bind <|
    (bos_decides h).bind <|
    (configs_decides h (.inl rfl) (blob_config d) host.bNumConfigurations.toNat 0).bind <|
    (qualifier_decides h).bind (statuses_decides h)
  refine hparts.trans ?_
  simp only [Nat.zero_add]
  constructor
  · rintro ⟨halt, hconf, hdevice, hbos, hconfigs, hqualifier, -⟩
    exact ⟨halt, hconf, hdevice, hbos, hconfigs, hqualifier⟩
  · intro hall
    exact ⟨hall.altsettings, hall.configuration, hall.device, hall.bos, hall.configs,
      hall.qualifier, trivial⟩

/-- A host that finds a device of USB 2.1 with two altsettings. -/
def lpmHost : Host := ⟨false, true, 0x0210, 1, 1, 0, [0, 1]⟩

/-- A device with a USB 2.0 extension, the first byte of whose attributes is given. -/
def lpmDevice (attributes : Byte) : Device where
  altsettings := [0, 1]
  configuration := 1
  device := ⟨[18, 1, 0x10, 2, 0, 0, 0, 64, 0x25, 5, 0xa0, 0xa4, 0, 1, 0, 0, 0, 1], fun _ => rfl⟩
  bos := some ⟨[⟨[7, 16, 2, attributes, 0, 0, 0], by simp, by simp, rfl⟩], by simp, by simp⟩
  configs := [⟨[9, 2, 9, 0, 1, 1, 0, 0xc0, 1], fun _ => rfl⟩]
  qualifier := none
  otherSpeed := []

theorem lpmDevice_conforms : Conforms lpmHost (lpmDevice 2) 0 where
  altsettings := .inr (by decide)
  configuration := .inr rfl
  device := by decide
  bos _ := by
    refine ⟨_, rfl, fun k c hc _ => ?_⟩
    cases k with
    | zero =>
      obtain rfl := Option.some.inj hc
      exact ⟨by unfold Capability.Good; decide, fun _ => by decide⟩
    | succ k => cases hc
  configs i hi := by
    obtain rfl : i = 0 := Nat.lt_one_iff.mp hi
    exact ⟨_, rfl, by decide, by decide, .inr (by decide), by decide, .inl (by decide)⟩
  qualifier husb := absurd husb (by decide)

/-- Bit 0 of the attributes is reserved. -/
theorem ch9Postconfig_passes_iff_lpmDevice :
    (∃ t, ch9Postconfig ((lpmDevice 2).bus lpmHost) lpmHost ⟨0, fun _ => 0⟩ = .ok t) ∧
      ¬∃ t, ch9Postconfig ((lpmDevice 1).bus lpmHost) lpmHost ⟨0, fun _ => 0⟩ = .ok t := by
  refine ⟨(ch9Postconfig_passes_iff (Device.bus_answers _ _) _).mpr lpmDevice_conforms,
    fun hpass => ?_⟩
  have hconforms := (ch9Postconfig_passes_iff (Device.bus_answers _ _) _).mp hpass
  obtain ⟨b, hb, hgood⟩ := hconforms.bos (by decide)
  obtain rfl := Option.some.inj hb
  have hext := (hgood 0 _ rfl (by decide)).1
  unfold Capability.Good at hext
  exact absurd hext (by decide)

/-! ## Any device: what lies behind the buffer -/

/-- Two sessions that differ only behind the 256 bytes of the buffer. As the state of the device
may hold the requests that it got, these are the same. -/
structure Agree {σ : Type} (s t : Session σ) : Prop where
  dev : s.dev = t.dev
  buf : ∀ i < tbufSize, s.buf i = t.buf i

/-- The test goes on in both, or returns the same status, with sessions that agree. -/
def SameEnd {σ : Type} : Outcome σ (Session σ) → Outcome σ (Session σ) → Prop
  | .error (e, s), .error (e', t) => e = e' ∧ Agree s t
  | .ok s, .ok t => Agree s t
  | _, _ => False

/-- A part of the test does not depend on what lies behind the buffer. -/
def ReadsInside {σ : Type} (f : Session σ → Outcome σ (Session σ)) : Prop :=
  ∀ s t, Agree s t → SameEnd (f s) (f t)

section

variable {σ : Type} {bus : Bus σ} {host : Host} {s t : Session σ}

theorem ReadsInside.bind {f g : Session σ → Outcome σ (Session σ)} (hf : ReadsInside f)
    (hg : ReadsInside g) : ReadsInside (fun s => f s >>= g) := by
  intro s t h
  have hend := hf s t h
  show SameEnd (f s >>= g) (f t >>= g)
  cases hfs : f s with
  | error e =>
    cases hft : f t with
    | error e' =>
      rw [hfs, hft] at hend
      exact hend
    | ok t' =>
      rw [hfs, hft] at hend
      exact hend.elim
  | ok s' =>
    cases hft : f t with
    | error e' =>
      rw [hfs, hft] at hend
      exact hend.elim
    | ok t' =>
      rw [hfs, hft] at hend
      exact hg s' t' hend

/-- The device gets the same request in the same state, and writes the same. -/
theorem Agree.ask (bus : Bus σ) (h : Agree s t) (r : Request) :
    (ask bus r s).1 = (ask bus r t).1 ∧ Agree (ask bus r s).2 (ask bus r t).2 := by
  have hreply : bus s.dev r = bus t.dev r := by rw [h.dev]
  refine ⟨congrArg (·.1.status) hreply, ⟨congrArg (·.2) hreply, fun i hi => ?_⟩⟩
  show overlay (bus s.dev r).1.data s.buf i = overlay (bus t.dev r).1.data t.buf i
  rw [overlay, overlay, hreply, h.buf i hi]

theorem le16_congr {buf buf' : Memory} {pos : ℕ} (h : ∀ i < tbufSize, buf i = buf' i)
    (hpos : pos + 1 < tbufSize) : le16 buf pos = le16 buf' pos := by
  rw [le16, le16, h pos (by omega), h (pos + 1) hpos]

theorem isGoodConfig_congr {buf buf' : Memory} {realworld : Bool} {len : ℤ}
    (h : ∀ i < tbufSize, buf i = buf' i) :
    isGoodConfig realworld buf len = isGoodConfig realworld buf' len := by
  simp only [isGoodConfig, h 0 (by decide), h 1 (by decide), h 7 (by decide),
    le16_congr h (by decide : 2 + 1 < tbufSize)]

theorem decide_and_congr {p : Prop} [Decidable p] {a b : Bool} (h : p → a = b) :
    (decide p && a) = (decide p && b) := by
  by_cases hp : p
  · rw [h hp]
  · rw [decide_eq_false hp, Bool.false_and, Bool.false_and]

theorem capability_congr {buf buf' : Memory} {total pos : ℕ} (h : ∀ i < total, buf i = buf' i)
    (hpos : pos + 3 ≤ total) : capability buf total pos = capability buf' total pos := by
  have hext : (decide (pos + 7 ≤ total) && isGoodExt buf pos) =
      (decide (pos + 7 ≤ total) && isGoodExt buf' pos) :=
    decide_and_congr fun hfit => isGoodExt_congr fun j hj => h _ (by omega)
  have hss : (decide (pos + 10 ≤ total) && isGoodSsCap buf pos) =
      (decide (pos + 10 ≤ total) && isGoodSsCap buf' pos) :=
    decide_and_congr fun hfit => isGoodSsCap_congr fun j hj => h _ (by omega)
  have hcon : (decide (pos + 20 ≤ total) && isGoodConId buf pos) =
      (decide (pos + 20 ≤ total) && isGoodConId buf' pos) :=
    decide_and_congr fun hfit => isGoodConId_congr fun j hj => h _ (by omega)
  simp only [capability, h (pos + 1) (by omega), h (pos + 2) (by omega), hext, hss, hcon]

/-- The lengths that a device gives its capabilities lead the loop nowhere behind `total`. -/
theorem capabilities_congr {buf buf' : Memory} {total todo pos : ℕ}
    (h : ∀ i < total, buf i = buf' i) :
    capabilities buf total todo pos = capabilities buf' total todo pos := by
  rw [capabilities_eq_walk, capabilities_eq_walk]
  exact walk_congr (fun p hp => by rw [h p (by omega)]) fun p hp => capability_congr h hp

theorem Agree.getAltsetting (bus : Bus σ) (host : Host) (h : Agree s t) :
    (getAltsetting bus host s).1 = (getAltsetting bus host t).1 ∧
      Agree (getAltsetting bus host s).2 (getAltsetting bus host t).2 := by
  obtain ⟨hget, hgot⟩ := h.ask bus (.getInterface host.bInterfaceNumber)
  refine ⟨?_, hgot⟩
  simp only [Ch9.getAltsetting, hget, hgot.buf 0 (by decide)]

theorem Agree.setAltsetting (bus : Bus σ) (host : Host) (h : Agree s t) (alternate : ℤ) :
    (setAltsetting bus host alternate s).1 = (setAltsetting bus host alternate t).1 ∧
      Agree (setAltsetting bus host alternate s).2 (setAltsetting bus host alternate t).2 := by
  unfold Ch9.setAltsetting
  split
  · exact ⟨rfl, h⟩
  · exact h.ask bus _

theorem altsettings_readsInside (alts : List Byte) : ReadsInside (altsettings bus host alts) := by
  induction alts with
  | nil => exact fun s t h => h
  | cons alt alts ih =>
    intro s t h
    obtain ⟨hset, hafter⟩ := h.setAltsetting bus host alt.toNat
    obtain ⟨hget, hgot⟩ := hafter.getAltsetting bus host
    simp only [altsettings, hset, hget]
    split
    · exact ih s t h
    · split
      · exact ⟨hset, hafter⟩
      · split
        · exact ⟨rfl, hgot⟩
        · exact ih _ _ hgot

theorem configuration_readsInside : ReadsInside (configuration bus host) := by
  intro s t h
  obtain ⟨hget, hgot⟩ := h.ask bus .getConfiguration
  simp only [configuration, hget, hgot.buf 0 (by decide)]
  split
  · split
    · exact ⟨rfl, hgot⟩
    · exact hgot
  · exact h

theorem deviceDescriptor_readsInside : ReadsInside (deviceDescriptor bus) := by
  intro s t h
  obtain ⟨hget, hgot⟩ := h.ask bus (.getDescriptor dtDevice 0 18)
  simp only [deviceDescriptor, hget]
  split
  · exact ⟨rfl, hgot⟩
  · exact hgot

theorem bos_readsInside : ReadsInside (bos bus host) := by
  intro s t h
  obtain ⟨hget, hgot⟩ := h.ask bus (.getDescriptor dtBos 0 5)
  simp only [bos, hget, le16_congr hgot.buf (by decide : 2 + 1 < tbufSize),
    hgot.buf 4 (by decide)]
  obtain ⟨hall, hread⟩ := hgot.ask bus (.getDescriptor dtBos 0
    (min (le16 (ask bus (.getDescriptor dtBos 0 5) t).2.buf 2) tbufSize))
  rw [hall, capabilities_congr fun i hi =>
    hread.buf i (Nat.lt_of_lt_of_le hi (Nat.min_le_right _ _))]
  split
  · split
    · exact ⟨rfl, hgot⟩
    · split
      · exact ⟨rfl, hread⟩
      · split
        · exact hread
        · exact ⟨rfl, hread⟩
  · exact h

theorem configs_readsInside (type todo i : ℕ) : ReadsInside (configs bus host type todo i) := by
  induction todo generalizing i with
  | zero => exact fun s t h => h
  | succ todo ih =>
    intro s t h
    obtain ⟨hget, hgot⟩ := h.ask bus (.getDescriptor type i tbufSize)
    simp only [configs, hget, isGoodConfig_congr hgot.buf]
    split
    · exact ⟨rfl, hgot⟩
    · exact ih (i + 1) _ _ hgot

theorem qualifier_readsInside : ReadsInside (qualifier bus host) := by
  intro s t h
  obtain ⟨hget, hgot⟩ := h.ask bus (.getDescriptor dtDeviceQualifier 0 10)
  simp only [qualifier, hget, hgot.buf 8 (by decide)]
  split
  · split
    · split
      · exact ⟨hget, hgot⟩
      · exact hgot
    · split
      · exact ⟨rfl, hgot⟩
      · exact configs_readsInside _ _ _ _ _ hgot
  · exact h

theorem statuses_readsInside : ReadsInside (statuses bus host) := by
  intro s t h
  obtain ⟨hget, hgot⟩ := h.ask bus .getDeviceStatus
  obtain ⟨hget', hgot'⟩ := hgot.ask bus (.getInterfaceStatus host.bInterfaceNumber)
  simp only [statuses, hget, hget']
  split
  · exact ⟨hget, hgot⟩
  · split
    · exact ⟨hget', hgot'⟩
    · exact hgot'

end

/-- Whatever the device answers, the test looks at nothing behind the buffer. -/
theorem ch9Postconfig_reads_inside {σ : Type} (bus : Bus σ) (host : Host) :
    ReadsInside (ch9Postconfig bus host) :=
  (altsettings_readsInside host.altsetting).bind <| configuration_readsInside.bind <|
    deviceDescriptor_readsInside.bind <| bos_readsInside.bind <|
    (configs_readsInside dtConfig host.bNumConfigurations.toNat 0).bind <|
    qualifier_readsInside.bind statuses_readsInside

end FuzzUSB.Usbtest.Ch9
