import FuzzUSB.Grouping
import FuzzUSB.UsbRawInterfaces

/-!
# The descriptors of an emulated device

`parse_usb_descriptor` walks over the descriptors of a blob by the lengths that they
announce, and reads interface and endpoint descriptors as C structs.
-/

namespace FuzzUSB.UsbRaw
open CLayout Grouping

/-- A descriptor that the walk visits. -/
structure Descriptor where
  offset : ℕ
  length : ℕ
  type : ℕ
  deriving DecidableEq

/-- The descriptors that the loop visits from an offset on, in at most `fuel` rounds. -/
def walkFrom (mem : Memory) (length : ℕ) : ℕ → ℕ → List Descriptor
  | 0, _ => []
  | fuel + 1, offset =>
    if offset + 1 ≥ length then []
    else if (mem offset).toNat ≤ 2 ∨ offset + (mem offset).toNat > length then []
    else ⟨offset, (mem offset).toNat, (mem (offset + 1)).toNat⟩ ::
      walkFrom mem length fuel (offset + (mem offset).toNat)

def walk (mem : Memory) (length : ℕ) : List Descriptor := walkFrom mem length length 0

def Descriptor.isInterface (d : Descriptor) : Bool := d.type = usbDtInterface

def Descriptor.isEndpoint (d : Descriptor) : Bool := d.type = usbDtEndpoint

/-- The interface descriptors, each with the endpoint descriptors behind it. -/
def blocks (ds : List Descriptor) : List (Descriptor × List Descriptor) :=
  groups Descriptor.isInterface Descriptor.isEndpoint ds

/-- `sizeof(struct usb_endpoint_descriptor)` bytes from the descriptor on. -/
def Descriptor.bytes (mem : Memory) (d : Descriptor) : List Byte :=
  load mem d.offset endpointDescSize

/-- An interface with its endpoints, as the index records it. -/
def toIface (mem : Memory) (b : Descriptor × List Descriptor) : UsbIfaceIndex where
  iface := b.1.offset
  bInterfaceNumber := mem (b.1.offset + 2)
  bAlternateSetting := mem (b.1.offset + 3)
  eps := (b.2.take usbMaxEpNum).map (Descriptor.bytes mem)

/-- The interfaces that the code records for a sequence of descriptors. -/
def recorded (ds : List Descriptor) : List (Descriptor × List Descriptor) :=
  gather usbMaxIfaceNum (blocks ds)

/-! ## One descriptor -/

/-- An endpoint descriptor behind these descriptors finds room in an interface. -/
def Room (pre : List Descriptor) : Prop :=
  ∃ b ∈ (recorded pre).getLast?, b.2.length < usbMaxEpNum

instance (pre : List Descriptor) : Decidable (Room pre) :=
  inferInstanceAs (Decidable (∃ b ∈ (recorded pre).getLast?, b.2.length < usbMaxEpNum))

/-- The bytes that are read for a descriptor behind others, its first two apart. -/
def reads (pre : List Descriptor) (d : Descriptor) : List ℕ :=
  if d.isInterface ∧ (blocks pre).length < usbMaxIfaceNum then [d.offset + 2, d.offset + 3]
  else if d.isEndpoint ∧ Room pre then touched d.offset endpointDescSize
  else []

/-- What is read for some descriptors behind others can be read. -/
def AllRead (p : ℕ → Prop) : List Descriptor → List Descriptor → Prop
  | _, [] => True
  | pre, d :: ds => (∀ a ∈ reads pre d, p a) ∧ AllRead p (pre ++ [d]) ds

theorem allRead_iff {p : ℕ → Prop} {pre ds : List Descriptor} :
    AllRead p pre ds ↔
      ∀ pre' d suf, ds = pre' ++ d :: suf → ∀ a ∈ reads (pre ++ pre') d, p a := by
  induction ds generalizing pre with
  | nil => simp [AllRead]
  | cons d ds ih =>
    rw [AllRead, ih]
    constructor
    · rintro ⟨hd, hds⟩ pre' d' suf heq
      cases pre' with
      | nil =>
        obtain ⟨rfl, rfl⟩ := List.cons.inj heq
        rw [List.append_nil]
        exact hd
      | cons x pre' =>
        obtain ⟨rfl, htail⟩ := List.cons.inj heq
        rw [← List.singleton_append, ← List.append_assoc]
        exact hds pre' d' suf htail
    · intro h
      refine ⟨?_, fun pre' d' suf heq => ?_⟩
      · have hd := h [] d ds rfl
        rwa [List.append_nil] at hd
      · rw [List.append_assoc]
        exact h (d :: pre') d' suf (by rw [heq]; rfl)

/-- Memory of which the addresses in `p` can be read. -/
def readable (p : ℕ → Prop) [DecidablePred p] (mem : Memory) : Buffer :=
  fun i => if p i then some (mem i) else none

section

variable {p : ℕ → Prop} {mem : Memory}

/-- Where nothing is read, the interfaces stay as they are. -/
theorem some_eq_some_of_no_reads {ifaces r : List UsbIfaceIndex} :
    some ifaces = some r ↔ (∀ a ∈ ([] : List ℕ), p a) ∧ r = ifaces := by
  rw [Option.some.injEq, and_iff_right (by simp)]
  exact eq_comm

/-- The end of the loop. -/
theorem some_eq_some_of_walk_nil (pre : List Descriptor) {r : List UsbIfaceIndex} :
    some ((recorded pre).map (toIface mem)) = some r ↔
      AllRead p pre [] ∧ r = (recorded (pre ++ [])).map (toIface mem) := by
  rw [Option.some.injEq, List.append_nil, AllRead, true_and]
  exact eq_comm

variable [DecidablePred p]

theorem readable_eq_some {i : ℕ} {b : Byte} :
    readable p mem i = some b ↔ p i ∧ b = mem i := by
  unfold readable
  split
  · next hp => simp [hp, eq_comm]
  · next hp => simp [hp]

theorem readBytes_eq_some {offset n : ℕ} {bytes : List Byte} :
    readBytes (readable p mem) offset n = some bytes ↔
      (∀ a ∈ touched offset n, p a) ∧ bytes = load mem offset n := by
  have hmap : ∀ (is : List ℕ) (bytes : List Byte),
      is.mapM (fun i => readable p mem (offset + i)) = some bytes ↔
        (∀ i ∈ is, p (offset + i)) ∧ bytes = is.map fun i => mem (offset + i) := by
    intro is
    induction is with
    | nil => simp [eq_comm]
    | cons i is ih =>
      intro bytes
      simp only [List.mapM_cons, bind, pure, Option.bind_eq_some_iff, readable_eq_some, ih,
        Option.some.injEq, List.mem_cons, forall_eq_or_imp, List.map_cons]
      constructor
      · rintro ⟨_, ⟨hp, rfl⟩, _, ⟨hps, rfl⟩, rfl⟩
        exact ⟨⟨hp, hps⟩, rfl⟩
      · rintro ⟨⟨hp, hps⟩, rfl⟩
        exact ⟨_, ⟨hp, rfl⟩, _, ⟨hps, rfl⟩, rfl⟩
  rw [readBytes, hmap]
  simp [touched, load]

theorem length_toIface_eps (b : Descriptor × List Descriptor) :
    (toIface mem b).eps.length < usbMaxEpNum ↔ b.2.length < usbMaxEpNum := by
  simp only [toIface, List.length_map, List.length_take]
  omega

theorem length_recorded (ds : List Descriptor) :
    (recorded ds).length < usbMaxIfaceNum ↔ (blocks ds).length < usbMaxIfaceNum := by
  rw [recorded, length_gather]
  omega

/-- An endpoint goes to the last interface that is recorded. -/
theorem recorded_concat_endpoint (pre : List Descriptor) {d : Descriptor}
    (hd : d.isEndpoint = true) : recorded (pre ++ [d]) = addItem (recorded pre) d := by
  have hiface : d.isInterface = false := by
    have htype : d.type = usbDtEndpoint := of_decide_eq_true hd
    simp [Descriptor.isInterface, htype, usbDtEndpoint, usbDtInterface]
  rw [recorded, blocks, groups_concat_item pre hiface hd]
  exact gather_addItem (by decide) _ d

theorem recorded_concat_interface (pre : List Descriptor) {d : Descriptor}
    (hd : d.isInterface = true) : recorded (pre ++ [d]) =
      if (blocks pre).length < usbMaxIfaceNum then recorded pre ++ [(d, [])] else recorded pre := by
  rw [recorded, blocks, groups_concat_head pre hd]
  exact gather_concat_head _ _ d

theorem recorded_concat_other (pre : List Descriptor) {d : Descriptor}
    (hiface : d.isInterface = false) (hep : d.isEndpoint = false) :
    recorded (pre ++ [d]) = recorded pre := by
  rw [recorded, blocks, groups_concat_other pre hiface hep]
  rfl

/-- The effect of an endpoint descriptor. -/
theorem parseEndpoint_eq_some (pre : List Descriptor) {d : Descriptor}
    (hd : d.isEndpoint = true) {r : List UsbIfaceIndex} :
    parseEndpoint (readable p mem) d.offset ((recorded pre).map (toIface mem)) = some r ↔
      (∀ a ∈ reads pre d, p a) ∧ r = (recorded (pre ++ [d])).map (toIface mem) := by
  have hiface : d.isInterface = false := by
    have htype : d.type = usbDtEndpoint := of_decide_eq_true hd
    simp [Descriptor.isInterface, htype, usbDtEndpoint, usbDtInterface]
  rw [recorded_concat_endpoint pre hd]
  cases hlast : (recorded pre).getLast? with
  | none =>
    have hreads : reads pre d = [] := by
      simp [reads, Room, hiface, hlast]
    rw [hreads, addItem, hlast, parseEndpoint, List.getLast?_map, hlast]
    exact some_eq_some_of_no_reads
  | some b =>
    by_cases hroom : b.2.length < usbMaxEpNum
    · have htake : (b.2 ++ [d]).take usbMaxEpNum = b.2.take usbMaxEpNum ++ [d] := by
        rw [List.take_of_length_le (by simpa using Nat.succ_le_of_lt hroom),
          List.take_of_length_le (by omega)]
      have hreads : reads pre d = touched d.offset endpointDescSize := by
        simp [reads, Room, hiface, hd, hlast, hroom]
      rw [hreads]
      simp only [parseEndpoint, List.getLast?_map, hlast, Option.map_some, length_toIface_eps,
        hroom, if_true, bind, pure, Option.bind_eq_some_iff, readBytes_eq_some, Option.some.injEq]
      constructor
      · rintro ⟨_, ⟨hp, rfl⟩, rfl⟩
        exact ⟨hp, by simp [addItem, hlast, toIface, htake, Descriptor.bytes]⟩
      · rintro ⟨hp, rfl⟩
        exact ⟨_, ⟨hp, rfl⟩, by simp [addItem, hlast, toIface, htake, Descriptor.bytes]⟩
    · have htake : (b.2 ++ [d]).take usbMaxEpNum = b.2.take usbMaxEpNum :=
        List.take_append_of_le_length (by omega)
      have hinit : (recorded pre).dropLast ++ [b] = recorded pre :=
        List.dropLast_append_getLast? b hlast
      have hsame : (addItem (recorded pre) d).map (toIface mem) =
          (recorded pre).map (toIface mem) := by
        conv_rhs => rw [← hinit]
        simp [addItem, hlast, toIface, htake]
      have hreads : reads pre d = [] := by
        simp [reads, Room, hiface, hlast, hroom]
      have hfull : ¬(toIface mem b).eps.length < usbMaxEpNum :=
        (length_toIface_eps b).not.mpr hroom
      rw [hsame, hreads, parseEndpoint, List.getLast?_map, hlast]
      dsimp only [Option.map_some]
      rw [if_neg hfull]
      exact some_eq_some_of_no_reads

/-- The effect of one descriptor, with what is read for it. -/
theorem parseDescriptor_eq_some (pre : List Descriptor) (d : Descriptor)
    {r : List UsbIfaceIndex} :
    parseDescriptor (readable p mem) d.offset d.type ((recorded pre).map (toIface mem)) = some r ↔
      (∀ a ∈ reads pre d, p a) ∧ r = (recorded (pre ++ [d])).map (toIface mem) := by
  have hlen : ((recorded pre).map (toIface mem)).length < usbMaxIfaceNum ↔
      (blocks pre).length < usbMaxIfaceNum := by
    rw [List.length_map, length_recorded]
  unfold parseDescriptor
  simp only [hlen]
  cases hiface : d.isInterface with
  | true =>
    have htype : d.type = usbDtInterface := of_decide_eq_true hiface
    rw [recorded_concat_interface pre hiface]
    by_cases hroom : (blocks pre).length < usbMaxIfaceNum
    · have hreads : reads pre d = [d.offset + 2, d.offset + 3] := by
        rw [reads, if_pos ⟨hiface, hroom⟩]
      rw [if_pos ⟨htype, hroom⟩, if_pos hroom, hreads]
      simp only [bind, pure, Option.bind_eq_some_iff, readable_eq_some, Option.some.injEq]
      constructor
      · rintro ⟨_, ⟨hp, rfl⟩, _, ⟨hp', rfl⟩, rfl⟩
        exact ⟨by simp [hp, hp'], by simp [toIface]⟩
      · rintro ⟨hp, rfl⟩
        exact ⟨_, ⟨hp _ (by simp), rfl⟩, _, ⟨hp _ (by simp), rfl⟩, by simp [toIface]⟩
    · have hep : d.isEndpoint = false := by
        simp [Descriptor.isEndpoint, htype, usbDtEndpoint, usbDtInterface]
      have hne : d.type ≠ usbDtEndpoint := of_decide_eq_false hep
      have hreads : reads pre d = [] := by
        simp [reads, hroom, hep]
      rw [if_neg fun h => hroom h.2, if_neg hne, if_neg hroom, hreads]
      exact some_eq_some_of_no_reads
  | false =>
    have hne : d.type ≠ usbDtInterface := of_decide_eq_false hiface
    rw [if_neg fun h => hne h.1]
    cases hep : d.isEndpoint with
    | true =>
      have htype : d.type = usbDtEndpoint := of_decide_eq_true hep
      rw [if_pos htype]
      exact parseEndpoint_eq_some pre hep
    | false =>
      have hne' : d.type ≠ usbDtEndpoint := of_decide_eq_false hep
      have hreads : reads pre d = [] := by
        simp [reads, hiface, hep]
      rw [if_neg hne', recorded_concat_other pre hiface hep, hreads]
      exact some_eq_some_of_no_reads

/-- The loop records the descriptors of the walk. -/
theorem parseDescriptors_eq_some {length : ℕ} (hp : ∀ i < length, p i) (fuel offset : ℕ)
    (hfuel : length ≤ offset + fuel) (pre : List Descriptor) (r : List UsbIfaceIndex) :
    parseDescriptors (readable p mem) length offset ((recorded pre).map (toIface mem)) = some r ↔
      AllRead p pre (walkFrom mem length fuel offset) ∧
        r = (recorded (pre ++ walkFrom mem length fuel offset)).map (toIface mem) := by
  induction fuel generalizing offset pre with
  | zero =>
    rw [parseDescriptors, if_pos (by omega)]
    exact some_eq_some_of_walk_nil pre
  | succ fuel ih =>
    rw [parseDescriptors, walkFrom]
    by_cases hend : offset + 1 ≥ length
    · rw [if_pos hend, if_pos hend]
      exact some_eq_some_of_walk_nil pre
    · have hlen : readable p mem offset = some (mem offset) := if_pos (hp _ (by omega))
      have htype : readable p mem (offset + 1) = some (mem (offset + 1)) :=
        if_pos (hp _ (by omega))
      rw [if_neg hend, if_neg hend, hlen, htype]
      dsimp only
      by_cases hstop : (mem offset).toNat ≤ 2 ∨ offset + (mem offset).toNat > length
      · rw [dif_pos hstop, if_pos hstop]
        exact some_eq_some_of_walk_nil pre
      · rw [dif_neg hstop, if_neg hstop]
        let d : Descriptor := ⟨offset, (mem offset).toNat, (mem (offset + 1)).toNat⟩
        have hstep (r : List UsbIfaceIndex) : parseDescriptor (readable p mem) d.offset d.type
            ((recorded pre).map (toIface mem)) = some r ↔ _ := parseDescriptor_eq_some pre d
        have hrest := ih (offset + (mem offset).toNat) (by omega) (pre ++ [d])
        have hcons : pre ++ d :: walkFrom mem length fuel (offset + (mem offset).toNat) =
            pre ++ [d] ++ walkFrom mem length fuel (offset + (mem offset).toNat) :=
          List.append_cons ..
        rw [AllRead, and_assoc, hcons]
        cases hcur : parseDescriptor (readable p mem) offset (mem (offset + 1)).toNat
            ((recorded pre).map (toIface mem)) with
        | none =>
          refine iff_of_false nofun fun h => ?_
          have hsome := (hstep _).mpr ⟨h.1, rfl⟩
          rw [hcur] at hsome
          cases hsome
        | some ifaces =>
          obtain ⟨hread, rfl⟩ := (hstep _).mp hcur
          rw [and_iff_right hread]
          exact hrest

/-- `parse_usb_descriptor` fails for a length below 27 only. Otherwise it faults, or records
the descriptors of the walk. -/
theorem parseUsbDescriptor_eq_some {length : ℕ} (hp : ∀ i < length, p i)
    (index : UsbDeviceIndex) :
    parseUsbDescriptor (readable p mem) length = some index ↔
      deviceDescSize + configDescSize ≤ length ∧ AllRead p [] (walk mem length) ∧
        index = ⟨readable p mem, mem (deviceDescSize + 8),
          BitVec.ofNat 32 (length - deviceDescSize),
          (recorded (walk mem length)).map (toIface mem)⟩ := by
  unfold parseUsbDescriptor
  by_cases hlen : length < deviceDescSize + configDescSize
  · rw [if_pos hlen]
    exact iff_of_false nofun fun h => by omega
  · have hpower : readable p mem (deviceDescSize + 8) = some (mem (deviceDescSize + 8)) :=
      if_pos (hp _ (by simp only [deviceDescSize, configDescSize] at hlen ⊢; omega))
    have hloop (r : List UsbIfaceIndex) : parseDescriptors (readable p mem) length 0
        ((recorded []).map (toIface mem)) = some r ↔ _ :=
      parseDescriptors_eq_some hp length 0 (by omega) [] r
    rw [if_neg hlen, hpower]
    simp only [bind, pure, Option.bind_some, Option.bind_eq_some_iff, Option.some.injEq]
    constructor
    · rintro ⟨ifaces, hifaces, rfl⟩
      obtain ⟨hread, rfl⟩ := (hloop ifaces).mp hifaces
      exact ⟨by omega, hread, rfl⟩
    · rintro ⟨-, hread, rfl⟩
      exact ⟨_, (hloop _).mpr ⟨hread, rfl⟩, rfl⟩

end

/-! ## Which reads are in bounds -/

/-- The loop goes forward, at most `length` rounds, and with only the buffer itself readable
the parse does not fault. The tables are not exceeded. -/
structure SafeParse (mem : Memory) (length : ℕ) : Prop where
  terminates : ∀ fuel ≥ length, walkFrom mem length fuel 0 = walk mem length
  reads : deviceDescSize + configDescSize ≤ length →
    (parseUsbDescriptor (readable (· < length) mem) length).isSome
  bounded : ∀ index, parseUsbDescriptor (fun i => some (mem i)) length = some index →
    index.ifaces.length ≤ usbMaxIfaceNum ∧
      ∀ iface ∈ index.ifaces, iface.eps.length ≤ usbMaxEpNum

theorem walkFrom_fuel {mem : Memory} {length fuel fuel' offset : ℕ} (h : length ≤ offset + fuel)
    (h' : length ≤ offset + fuel') :
    walkFrom mem length fuel offset = walkFrom mem length fuel' offset := by
  induction fuel generalizing fuel' offset with
  | zero =>
    cases fuel' with
    | zero => rfl
    | succ fuel' => rw [walkFrom, walkFrom, if_pos (by omega)]
  | succ fuel ih =>
    cases fuel' with
    | zero => rw [walkFrom, walkFrom, if_pos (by omega)]
    | succ fuel' =>
      rw [walkFrom, walkFrom]
      split
      · rfl
      · split
        · rfl
        · exact congrArg _ (ih (by omega) (by omega))

theorem isEndpoint_of_isInterface {d : Descriptor} (h : d.isInterface = true) :
    d.isEndpoint = false := by
  have htype : d.type = usbDtInterface := of_decide_eq_true h
  simp [Descriptor.isEndpoint, htype, usbDtEndpoint, usbDtInterface]

/-- What is read for a descriptor lies before the end. -/
theorem reads_lt_iff (pre : List Descriptor) (d : Descriptor) (length : ℕ) :
    (∀ a ∈ reads pre d, a < length) ↔
      (d.isInterface → (blocks pre).length < usbMaxIfaceNum → d.offset + 4 ≤ length) ∧
      (d.isEndpoint → Room pre → d.offset + endpointDescSize ≤ length) := by
  by_cases hiface : d.isInterface = true ∧ (blocks pre).length < usbMaxIfaceNum
  · have hep := isEndpoint_of_isInterface hiface.1
    rw [reads, if_pos hiface]
    simp only [List.mem_cons, List.not_mem_nil, or_false, forall_eq_or_imp, forall_eq, hiface.1,
      hiface.2, hep, true_imp_iff, Bool.false_eq_true, false_imp_iff, and_true]
    omega
  · have hfirst : d.isInterface = true → (blocks pre).length < usbMaxIfaceNum →
        d.offset + 4 ≤ length := fun h h' => absurd ⟨h, h'⟩ hiface
    rw [reads, if_neg hiface, and_iff_right hfirst]
    by_cases hep : d.isEndpoint = true ∧ Room pre
    · have hlast : d.offset + 8 ∈ touched d.offset endpointDescSize :=
        mem_touched.mpr (by simp [endpointDescSize])
      rw [if_pos hep]
      constructor
      · intro h _ _
        have := h _ hlast
        simp only [endpointDescSize]
        omega
      · intro h a ha
        have hend := h hep.1 hep.2
        have := mem_touched.mp ha
        omega
    · rw [if_neg hep]
      exact iff_of_true nofun fun h h' => absurd ⟨h, h'⟩ hep

/-- What parses from a memory without bounds. -/
theorem parseUsbDescriptor_unbounded (mem : Memory) (length : ℕ) (index : UsbDeviceIndex) :
    parseUsbDescriptor (fun i => some (mem i)) length = some index ↔
      deviceDescSize + configDescSize ≤ length ∧
        index = ⟨fun i => some (mem i), mem (deviceDescSize + 8),
          BitVec.ofNat 32 (length - deviceDescSize),
          (recorded (walk mem length)).map (toIface mem)⟩ := by
  have hread : AllRead (fun _ => True) [] (walk mem length) :=
    allRead_iff.mpr fun _ _ _ _ _ _ => trivial
  have h : parseUsbDescriptor (readable (fun _ => True) mem) length = some index ↔ _ :=
    parseUsbDescriptor_eq_some (fun _ _ => trivial) index
  rw [and_iff_right hread] at h
  exact h

theorem bounded_of_parse {mem : Memory} {length : ℕ} {index : UsbDeviceIndex}
    (h : parseUsbDescriptor (fun i => some (mem i)) length = some index) :
    index.ifaces.length ≤ usbMaxIfaceNum ∧
      ∀ iface ∈ index.ifaces, iface.eps.length ≤ usbMaxEpNum := by
  obtain ⟨-, rfl⟩ := (parseUsbDescriptor_unbounded mem length index).mp h
  constructor
  · rw [List.length_map, recorded, length_gather]
    exact Nat.min_le_left _ _
  · intro iface hiface
    obtain ⟨b, -, rfl⟩ := List.mem_map.mp hiface
    rw [toIface, List.length_map, List.length_take]
    exact Nat.min_le_left _ _

/-- A buffer is parsed safely exactly if every interface descriptor that is recorded has its
first four bytes, and every endpoint descriptor that is has nine, before the end. -/
theorem safeParse_iff (mem : Memory) (length : ℕ) :
    SafeParse mem length ↔ (deviceDescSize + configDescSize ≤ length →
      ∀ pre d suf, walk mem length = pre ++ d :: suf →
        (d.isInterface → (blocks pre).length < usbMaxIfaceNum → d.offset + 4 ≤ length) ∧
        (d.isEndpoint → Room pre → d.offset + endpointDescSize ≤ length)) := by
  have hparse : (deviceDescSize + configDescSize ≤ length →
      (parseUsbDescriptor (readable (· < length) mem) length).isSome) ↔
      (deviceDescSize + configDescSize ≤ length → AllRead (· < length) [] (walk mem length)) := by
    refine forall_congr' fun hlen => ?_
    rw [Option.isSome_iff_exists]
    constructor
    · rintro ⟨index, hindex⟩
      exact ((parseUsbDescriptor_eq_some (fun _ => id) index).mp hindex).2.1
    · exact fun h => ⟨_, (parseUsbDescriptor_eq_some (fun _ => id) _).mpr ⟨hlen, h, rfl⟩⟩
  simp only [allRead_iff, List.nil_append, reads_lt_iff] at hparse
  rw [← hparse]
  refine ⟨fun h => h.reads, fun h => ⟨fun fuel hfuel => ?_, h, fun index => bounded_of_parse⟩⟩
  exact walkFrom_fuel (by omega) (by omega)

/-- A device with an endpoint descriptor of the usual seven bytes, at the end. -/
def shortEndpointBytes : List Byte :=
  [18, 1, 0, 2, 0, 0, 0, 64, 0x6b, 0x1d, 1, 1, 0, 1, 0, 0, 0, 1] ++
  [9, 2, 25, 0, 1, 1, 0, 0x80, 50] ++ [9, 4, 0, 0, 1, 255, 0, 0, 0] ++ [7, 5, 0x81, 2, 0, 2, 0]

def memoryOf (bytes : List Byte) : Memory := fun i => bytes[i]?.getD 0

/-- Two bytes behind the buffer are copied. -/
theorem short_endpoint_unsafe : ¬SafeParse (memoryOf shortEndpointBytes) 43 := by
  intro h
  obtain ⟨index, hindex⟩ := Option.isSome_iff_exists.mp (h.reads (by decide))
  have hread := ((parseUsbDescriptor_eq_some (fun _ => id) index).mp hindex).2.1
  rw [allRead_iff] at hread
  have hlt := hread [⟨0, 18, 1⟩, ⟨18, 9, 2⟩, ⟨27, 9, 4⟩] ⟨36, 7, 5⟩ [] (by decide) 44 (by decide)
  exact absurd hlt (by decide)

/-! ## Whose endpoints are recorded -/

/-- The block is of the interface and alternate setting with these numbers. -/
def IsOf (mem : Memory) (number setting : Byte) (b : Descriptor × List Descriptor) : Prop :=
  mem (b.1.offset + 2) = number ∧ mem (b.1.offset + 3) = setting

/-- The first interfaces are recorded, each with the endpoints up to the next one. Looking up
an interface and selecting it enables none but endpoints of that interface. -/
def Attributed (mem : Memory) (length : ℕ) : Prop :=
  ∀ index, parseUsbDescriptor (fun i => some (mem i)) length = some index →
    index.ifaces = ((blocks (walk mem length)).take usbMaxIfaceNum).map (toIface mem) ∧
    ∀ raw number setting cur g h desc, 0 ≤ lookupInterface index number setting →
      (setInterface raw (lookupInterface index number setting) ⟨index, cur, g⟩).enabled h =
        some desc →
      g h = some desc ∨ ∃ b ∈ blocks (walk mem length), IsOf mem number setting b ∧
        ∃ d ∈ b.2, desc = d.bytes mem

theorem lookupInterface_spec {index : UsbDeviceIndex} {number setting : Byte}
    (h : 0 ≤ lookupInterface index number setting) :
    ∃ iface ∈ index.ifaces, index.iface (lookupInterface index number setting) = some iface ∧
      iface.bInterfaceNumber = number ∧ iface.bAlternateSetting = setting := by
  unfold lookupInterface at h ⊢
  split
  · next i hi =>
    obtain ⟨hlt, hmatch, -⟩ := List.findIdx?_eq_some_iff_getElem.mp hi
    refine ⟨index.ifaces[i], List.getElem_mem hlt, ?_, by simpa using hmatch⟩
    simp [UsbDeviceIndex.iface, hlt]
  · next hi =>
    rw [hi] at h
    exact absurd h (by decide)

theorem disableEps_eq_some {raw : RawGadget} {n h : ℕ} {g : Handles} {desc : List Byte}
    (heq : disableEps raw n g h = some desc) : g h = some desc := by
  induction n with
  | zero => exact heq
  | succ n ih =>
    rw [disableEps_succ] at heq
    split at heq
    · by_cases hh : h = n
      · subst hh
        rw [Function.update_self] at heq
        cases heq
      · rw [Function.update_of_ne hh] at heq
        exact ih heq
    · exact ih heq

theorem enableEps_eq_some {raw : RawGadget} {ep h : ℕ} {eps : List (List Byte)} {g : Handles}
    {desc : List Byte} (heq : enableEps raw ep eps g h = some desc) :
    g h = some desc ∨ desc ∈ eps := by
  induction eps generalizing ep g with
  | nil => exact .inl heq
  | cons d eps ih =>
    rw [enableEps] at heq
    cases hgiven : raw.epEnable g ep with
    | none =>
      rw [hgiven] at heq
      exact (ih heq).imp_right (List.mem_cons_of_mem d)
    | some h' =>
      rw [hgiven] at heq
      rcases ih heq with hold | hmem
      · by_cases hh : h = h'
        · subst hh
          rw [Function.update_self] at hold
          exact .inr (Option.some.inj hold ▸ List.mem_cons_self)
        · rw [Function.update_of_ne hh] at hold
          exact .inl hold
      · exact .inr (List.mem_cons_of_mem d hmem)

/-- Every endpoint that is enabled was so before, or is of the interface selected. -/
theorem setInterface_eq_some {raw : RawGadget} {index : UsbDeviceIndex} {iface : UsbIfaceIndex}
    {n cur : ℤ} {g : Handles} {h : ℕ} {desc : List Byte} (hiface : index.iface n = some iface)
    (heq : (setInterface raw n ⟨index, cur, g⟩).enabled h = some desc) :
    g h = some desc ∨ desc ∈ iface.eps := by
  rw [setInterface_of_iface hiface] at heq
  exact (enableEps_eq_some heq).imp_left disableEps_eq_some

/-- Endpoints are attributed to their own interface exactly when no endpoint stands behind a
fifth interface descriptor, or the fourth interface has filled its table by itself. -/
theorem attributed_iff (mem : Memory) (length : ℕ) :
    Attributed mem length ↔ (deviceDescSize + configDescSize ≤ length →
      (∀ b ∈ (blocks (walk mem length)).drop usbMaxIfaceNum, b.2 = []) ∨
      ∃ b, (blocks (walk mem length))[usbMaxIfaceNum - 1]? = some b ∧
        usbMaxEpNum ≤ b.2.length) := by
  have hrecorded : (recorded (walk mem length)).map (toIface mem) =
      ((blocks (walk mem length)).take usbMaxIfaceNum).map (toIface mem) ↔
      (∀ b ∈ (blocks (walk mem length)).drop usbMaxIfaceNum, b.2 = []) ∨
      ∃ b, (blocks (walk mem length))[usbMaxIfaceNum - 1]? = some b ∧
        usbMaxEpNum ≤ b.2.length := by
    refine gather_map_iff (fun a as => ?_) (fun a as bs h => ?_) 3 _
    · simp [toIface, List.take_take]
    · have hlen := congrArg (fun iface => iface.eps.length) h
      simpa [toIface] using hlen
  rw [← hrecorded]
  constructor
  · intro h hlen
    exact (h _ ((parseUsbDescriptor_unbounded mem length _).mpr ⟨hlen, rfl⟩)).1
  · intro h index hindex
    obtain ⟨hlen, rfl⟩ := (parseUsbDescriptor_unbounded mem length index).mp hindex
    refine ⟨h hlen, fun raw number setting cur g j desc hfound henabled => ?_⟩
    obtain ⟨iface, hmem, hiface, hnumber, hsetting⟩ := lookupInterface_spec hfound
    refine (setInterface_eq_some hiface henabled).imp_right fun hdesc => ?_
    rw [h hlen] at hmem
    obtain ⟨b, hb, rfl⟩ := List.mem_map.mp hmem
    obtain ⟨d, hd, rfl⟩ := List.mem_map.mp hdesc
    exact ⟨b, List.mem_of_mem_take hb, ⟨hnumber, hsetting⟩, d, List.mem_of_mem_take hd, rfl⟩

/-- A device with five interfaces, the last of them with an endpoint. -/
def fiveInterfaceBytes : List Byte :=
  [18, 1, 0, 2, 0, 0, 0, 64, 0x6b, 0x1d, 1, 1, 0, 1, 0, 0, 0, 1] ++
  [9, 2, 61, 0, 5, 1, 0, 0x80, 50] ++ [9, 4, 0, 0, 0, 255, 0, 0, 0] ++
  [9, 4, 1, 0, 0, 255, 0, 0, 0] ++ [9, 4, 2, 0, 0, 255, 0, 0, 0] ++
  [9, 4, 3, 0, 0, 255, 0, 0, 0] ++ [9, 4, 4, 0, 1, 255, 0, 0, 0] ++ [7, 5, 0x81, 2, 0, 2, 0]

/-- The endpoint of the fifth interface is recorded for the fourth. -/
theorem fifth_interface_misattributed : ¬Attributed (memoryOf fiveInterfaceBytes) 79 := by
  intro h
  obtain ⟨hifaces, -⟩ := h _ ((parseUsbDescriptor_unbounded _ _ _).mpr ⟨by decide, rfl⟩)
  have hlen := congrArg (List.map fun iface : UsbIfaceIndex => iface.eps.length) hifaces
  exact absurd hlen (by decide)

end FuzzUSB.UsbRaw
