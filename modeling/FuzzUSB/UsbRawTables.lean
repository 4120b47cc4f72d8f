import FuzzUSB.UsbRawReplies

/-!
# The entries that a control lookup reads

`lookup_control_response` works out from the `len` of a table how many entries it has. That
is done in `size_t`, which is as wide as a pointer, and kept in an `int`.
-/

namespace FuzzUSB.UsbRaw
open CLayout

/-! ## The lookup for both pointer sizes -/

/-- The sizes of a pointer, and of `size_t`, in the executor's builds. -/
inductive PointerSize
  | four | eight
  deriving DecidableEq

def PointerSize.bytes : PointerSize → ℕ
  | four => 4
  | eight => 8

/-- `offsetof(struct vusb_descriptors, descs)`, and the same for `vusb_responses`: the structs
are packed, and have a length and a pointer in front of the entries. -/
def PointerSize.header (ptr : PointerSize) : ℕ := (offsets packed 0 [4, ptr.bytes, 0]).getD 2 0

/-- `(len - offsetof(…)) / sizeof(…)`, kept in an `int`. -/
def PointerSize.entriesNum (ptr : PointerSize) (len : BitVec 32) : ℤ :=
  (((len.setWidth (8 * ptr.bytes) - BitVec.ofNat _ ptr.header) / BitVec.ofNat _ ptr.bytes).setWidth
    32).toInt

/-- The loop over the entries from number `i` on, with the numbers of those that are read. -/
def scanEntries {α : Type} (entries : ℕ → Option α) (fits : α → Bool) :
    ℕ → ℕ → List ℕ × Option α
  | 0, _ => ([], none)
  | todo + 1, i =>
    match (entries i).filter fits with
    | some a => ([i], some a)
    | none =>
      let rest := scanEntries entries fits todo (i + 1)
      (i :: rest.1, rest.2)

/-- What a lookup returns, and the entries of the table that it has read by then. -/
structure ControlLookup where
  reads : List ℕ
  result : Lookup

/-- A table with the functions that read the fields of its entries. -/
structure ControlTable (α : Type) where
  len : BitVec 32
  generic : Option α
  entries : ℕ → Option α
  dataOf : α → ℕ → Byte
  lenOf : α → BitVec 32

def VusbDescriptors.table (t : VusbDescriptors) : ControlTable VusbDescriptor :=
  ⟨t.len, t.generic, t.descs, VusbDescriptor.data, VusbDescriptor.len⟩

def VusbResponses.table (t : VusbResponses) : ControlTable VusbResponse :=
  ⟨t.len, t.generic, t.resps, VusbResponse.data, VusbResponse.len⟩

/-- One of the two branches of `lookup_control_response`. A table that is absent has no
entries. -/
def PointerSize.lookupTable (ptr : PointerSize) {α : Type} (table : Option (ControlTable α))
    (fits : α → Bool) : ControlLookup :=
  match table with
  | none => ⟨[], .unknown⟩
  | some t =>
    let scan := scanEntries t.entries fits (ptr.entriesNum t.len).toNat 0
    { reads := scan.1
      result :=
        match scan.2 with
        | some a => .found (.ofEntry (t.dataOf a) (t.lenOf a)) (t.lenOf a)
        | none =>
          match t.generic with
          | some a => .found (.bytes (t.dataOf a)) (t.lenOf a)
          | none => .unknown }

/-- The comparison of a descriptor with a request. -/
def VusbDescriptor.fits (ctrl : CtrlRequest) (d : VusbDescriptor) : Bool :=
  d.reqType = ctrl.bRequestType &&& usbTypeMask ∧ d.descType.toNat = ctrl.descType

/-- The comparison of a response with a request. -/
def VusbResponse.fits (ctrl : CtrlRequest) (r : VusbResponse) : Bool :=
  r.type = ctrl.bRequestType &&& usbTypeMask ∧ r.req = ctrl.bRequest

/-- `lookup_control_response` -/
def PointerSize.lookupControlResponse (ptr : PointerSize) (descs : Option VusbDescriptors)
    (resps : Option VusbResponses) (ctrl : CtrlRequest) : ControlLookup :=
  if ctrl.bRequest = usbReqGetDescriptor then
    ptr.lookupTable (descs.map VusbDescriptors.table) (VusbDescriptor.fits ctrl)
  else ptr.lookupTable (resps.map VusbResponses.table) (VusbResponse.fits ctrl)

/-! ## The specification -/

/-- Entry `i` lies completely in the `len` bytes of its table. -/
def PointerSize.Inside (ptr : PointerSize) (len : BitVec 32) (i : ℕ) : Prop :=
  ptr.header + ptr.bytes * i + ptr.bytes ≤ len.toNat

/-- What is to be returned: the first entry inside of the table that fits, or else the generic
one, or else nothing. -/
inductive Chosen {α : Type} (t : ControlTable α) (fits : α → Bool) (inside : ℕ → Prop) :
    Lookup → Prop
  | entry {i : ℕ} {a : α} (hi : inside i) (ha : t.entries i = some a) (hfits : fits a)
      (hfirst : ∀ j < i, ∀ b, t.entries j = some b → ¬fits b) :
      Chosen t fits inside (.found (.ofEntry (t.dataOf a) (t.lenOf a)) (t.lenOf a))
  | generic {a : α} (hnone : ∀ i, inside i → ∀ b, t.entries i = some b → ¬fits b)
      (ha : t.generic = some a) : Chosen t fits inside (.found (.bytes (t.dataOf a)) (t.lenOf a))
  | unknown (hnone : ∀ i, inside i → ∀ b, t.entries i = some b → ¬fits b)
      (ha : t.generic = none) : Chosen t fits inside .unknown

/-- Only entries inside of the table are read, and the right one is returned. There is no
response from a table that is absent. -/
def LooksInside (ptr : PointerSize) {α : Type} (table : Option (ControlTable α)) (fits : α → Bool)
    (c : ControlLookup) : Prop :=
  match table with
  | none => c = ⟨[], .unknown⟩
  | some t => (∀ i ∈ c.reads, ptr.Inside t.len i) ∧ Chosen t fits (ptr.Inside t.len) c.result

/-- A `GET_DESCRIPTOR` is looked up in `descs` and every other request in `resps`. -/
def SelectsInside (ptr : PointerSize) (descs : Option VusbDescriptors)
    (resps : Option VusbResponses) (ctrl : CtrlRequest) (c : ControlLookup) : Prop :=
  if ctrl.bRequest = usbReqGetDescriptor then
    LooksInside ptr (descs.map VusbDescriptors.table) (VusbDescriptor.fits ctrl) c
  else LooksInside ptr (resps.map VusbResponses.table) (VusbResponse.fits ctrl) c

/-- The `len` of the table that a request is looked up in. -/
def CtrlRequest.tableLen (ctrl : CtrlRequest) (descs : Option VusbDescriptors)
    (resps : Option VusbResponses) : Option (BitVec 32) :=
  if ctrl.bRequest = usbReqGetDescriptor then descs.map VusbDescriptors.len
  else resps.map VusbResponses.len

/-! ## The number of entries -/

@[simp] theorem PointerSize.header_eq (ptr : PointerSize) : ptr.header = 4 + ptr.bytes := by
  simp [header, offsets, packed]

theorem PointerSize.entriesNum_four (len : BitVec 32) :
    PointerSize.four.entriesNum len = (((len.setWidth 32 - 8) / 4).setWidth 32).toInt := rfl

theorem PointerSize.entriesNum_eight (len : BitVec 32) :
    PointerSize.eight.entriesNum len = UsbRaw.entriesNum len := rfl

/-- A negative count is as good as none. -/
theorem toNat_toInt (x : BitVec 32) : x.toInt.toNat = if x.toNat < 2 ^ 31 then x.toNat else 0 := by
  rw [BitVec.toInt_eq_toNat_cond]
  split <;> split <;> omega

section

variable {ptr : PointerSize} {len : BitVec 32} {i : ℕ}

/-- With four bytes the count is never negative, also if the difference wraps. -/
theorem toNat_entriesNum_four (len : BitVec 32) :
    (PointerSize.four.entriesNum len).toNat = (2 ^ 32 - 8 + len.toNat) % 2 ^ 32 / 4 := by
  rw [PointerSize.entriesNum_four, toNat_toInt]
  simp only [BitVec.toNat_setWidth, BitVec.toNat_udiv, BitVec.toNat_sub, BitVec.ofNat_eq_ofNat,
    BitVec.toNat_ofNat, Nat.reducePow, Nat.reduceMod, Nat.reduceSub]
  split <;> omega

/-- With eight bytes a difference that wraps leaves a negative `int`. -/
theorem toNat_entriesNum_eight (len : BitVec 32) :
    (PointerSize.eight.entriesNum len).toNat = (len.toNat - 12) / 8 := by
  rw [PointerSize.entriesNum_eight, entriesNum, toNat_toInt]
  simp only [BitVec.toNat_setWidth, BitVec.toNat_udiv, BitVec.toNat_sub, BitVec.ofNat_eq_ofNat,
    BitVec.toNat_ofNat, Nat.reducePow, Nat.reduceMod, Nat.reduceSub]
  split <;> omega

/-- The count is right unless four-byte pointers come with a table shorter than its header. -/
theorem lt_entriesNum_iff (h : ptr = .four → 8 ≤ len.toNat) :
    i < (ptr.entriesNum len).toNat ↔ ptr.Inside len i := by
  have hlen := len.isLt
  unfold PointerSize.Inside
  rw [PointerSize.header_eq]
  cases ptr with
  | four =>
    have hheader := h rfl
    rw [toNat_entriesNum_four, PointerSize.bytes]
    omega
  | eight =>
    rw [toNat_entriesNum_eight, PointerSize.bytes]
    omega

theorem entriesNum_four_pos (h : len.toNat < 8) : 0 < (PointerSize.four.entriesNum len).toNat := by
  rw [toNat_entriesNum_four]
  omega

theorem not_inside_four (h : len.toNat < 8) : ¬PointerSize.four.Inside len i := by
  unfold PointerSize.Inside
  rw [PointerSize.header_eq, PointerSize.bytes]
  omega

end

/-! ## The loop -/

section

variable {α : Type} {entries : ℕ → Option α} {fits : α → Bool} {todo i j : ℕ}

theorem scanEntries_snd (entries : ℕ → Option α) (fits : α → Bool) (todo i : ℕ) :
    (scanEntries entries fits todo i).2 =
      (List.range' i todo).findSome? fun j => (entries j).filter fits := by
  induction todo generalizing i with
  | zero => rfl
  | succ todo ih =>
    rw [scanEntries, List.range'_succ, List.findSome?_cons]
    cases (entries i).filter fits with
    | some a => rfl
    | none => exact ih (i + 1)

/-- The loop stops where `firstMatch` does. -/
theorem scanEntries_eq_firstMatch (entries : ℕ → Option α) (fits : α → Bool) (num : ℤ) :
    (scanEntries entries fits num.toNat 0).2 = firstMatch entries fits num := by
  rw [scanEntries_snd, firstMatch, List.range_eq_range']

theorem lt_of_mem_scanEntries (h : j ∈ (scanEntries entries fits todo i).1) : j < i + todo := by
  induction todo generalizing i with
  | zero => cases h
  | succ todo ih =>
    rw [scanEntries] at h
    cases hi : (entries i).filter fits with
    | some a =>
      rw [hi] at h
      rw [List.mem_singleton.mp h]
      omega
    | none =>
      rw [hi] at h
      rcases List.mem_cons.mp h with rfl | h
      · omega
      · have hj := ih h
        omega

/-- Whatever there is to read, the first entry is read. -/
theorem mem_scanEntries (entries : ℕ → Option α) (fits : α → Bool) (h : 0 < todo) :
    i ∈ (scanEntries entries fits todo i).1 := by
  obtain ⟨todo, rfl⟩ := Nat.exists_eq_succ_of_ne_zero h.ne'
  rw [scanEntries]
  cases (entries i).filter fits with
  | some a => exact List.mem_cons_self
  | none => exact List.mem_cons_self

end

/-! ## Exactly which tables are looked up inside -/

section

variable {ptr : PointerSize} {α : Type} {t : ControlTable α} {fits : α → Bool}

theorem lookupTable_chosen (h : ptr = .four → 8 ≤ t.len.toNat) :
    Chosen t fits (ptr.Inside t.len) (ptr.lookupTable (some t) fits).result := by
  have hinside (i : ℕ) : (i : ℤ) < ptr.entriesNum t.len ↔ ptr.Inside t.len i := by
    rw [← lt_entriesNum_iff h]
    omega
  simp only [PointerSize.lookupTable, scanEntries_eq_firstMatch]
  cases hfirst : firstMatch t.entries fits (ptr.entriesNum t.len) with
  | some a =>
    obtain ⟨i, hi, ha, hfits, hbefore⟩ := firstMatch_eq_some.mp hfirst
    exact .entry ((hinside i).mp hi) ha hfits hbefore
  | none =>
    have hnone : ∀ i, ptr.Inside t.len i → ∀ b, t.entries i = some b → ¬fits b := fun i hi =>
      firstMatch_eq_none.mp hfirst i ((hinside i).mpr hi)
    cases hgeneric : t.generic with
    | some a => exact .generic hnone hgeneric
    | none => exact .unknown hnone hgeneric

theorem lookupTable_looksInside_iff (table : Option (ControlTable α)) :
    LooksInside ptr table fits (ptr.lookupTable table fits) ↔
      ∀ t, table = some t → ptr = .four → 8 ≤ t.len.toNat := by
  cases table with
  | none => exact ⟨fun _ _ ht => (Option.some_ne_none _ ht.symm).elim, fun _ => rfl⟩
  | some t =>
    constructor
    · rintro ⟨hreads, -⟩ u hu rfl
      obtain rfl := Option.some.inj hu
      by_contra hshort
      have hlt : t.len.toNat < 8 := by omega
      exact not_inside_four hlt (hreads 0 (mem_scanEntries _ _ (entriesNum_four_pos hlt)))
    · intro h
      have h := h t rfl
      refine ⟨fun i hi => ?_, lookupTable_chosen h⟩
      rw [← lt_entriesNum_iff h, ← Nat.zero_add (ptr.entriesNum t.len).toNat]
      exact lt_of_mem_scanEntries hi

end

theorem lookupTable_eight {α : Type} (t : ControlTable α) (fits : α → Bool) :
    (PointerSize.eight.lookupTable (some t) fits).result =
      lookupEntry t.entries fits (entriesNum t.len) t.generic t.dataOf t.lenOf := by
  simp only [PointerSize.lookupTable, scanEntries_eq_firstMatch]
  rfl

/-- With eight-byte pointers the lookup is that of the replies. -/
theorem lookupControlResponse_eight (descs : Option VusbDescriptors)
    (resps : Option VusbResponses) (ctrl : CtrlRequest) :
    (PointerSize.eight.lookupControlResponse descs resps ctrl).result =
      lookupControlResponse descs resps ctrl := by
  unfold PointerSize.lookupControlResponse lookupControlResponse
  by_cases hget : ctrl.bRequest = usbReqGetDescriptor
  · simp only [if_pos hget]
    cases descs with
    | none => rfl
    | some t => exact lookupTable_eight t.table _
  · simp only [if_neg hget]
    cases resps with
    | none => rfl
    | some t => exact lookupTable_eight t.table _

/-- A control request is looked up inside of its table exactly if there is no table, pointers
have eight bytes, or the table is long enough for the header that four-byte pointers give it. -/
theorem selectsInside_iff (ptr : PointerSize) (descs : Option VusbDescriptors)
    (resps : Option VusbResponses) (ctrl : CtrlRequest) :
    SelectsInside ptr descs resps ctrl (ptr.lookupControlResponse descs resps ctrl) ↔
      ∀ len, ctrl.tableLen descs resps = some len → ptr = .four → 8 ≤ len.toNat := by
  unfold SelectsInside PointerSize.lookupControlResponse CtrlRequest.tableLen
  by_cases hget : ctrl.bRequest = usbReqGetDescriptor
  · simp only [if_pos hget]
    rw [lookupTable_looksInside_iff]
    simp [VusbDescriptors.table]
  · simp only [if_neg hget]
    rw [lookupTable_looksInside_iff]
    simp [VusbResponses.table]

/-- A table of four bytes. Behind it is a pointer to a device descriptor, where the first entry
would be. -/
def shortTable : VusbDescriptors :=
  ⟨4, none, fun i => if i = 0 then some ⟨0, 1, 18, fun _ => 0⟩ else none⟩

/-- The first entry behind the short table is read, and it is returned. -/
theorem shortTable_read_outside :
    ¬SelectsInside .four (some shortTable) none (getDescriptor 0x0100).toCtrlRequest
      (PointerSize.four.lookupControlResponse (some shortTable) none
        (getDescriptor 0x0100).toCtrlRequest) := by
  rintro ⟨hreads, -⟩
  exact not_inside_four (by decide)
    (hreads 0 (mem_scanEntries _ _ (entriesNum_four_pos (by decide))))

end FuzzUSB.UsbRaw
