import FuzzUSB.CLayout
import Mathlib.Data.Nat.Digits.Defs

/-!
# The attributes of a gadget

The fuzzer encodes a `configfs_attr` as its description prescribes, in order and packed. The
executor reads it through a C struct and writes the fields to files of the gadget.
-/

namespace FuzzUSB.Gadget
open CLayout

structure ConfigfsAttr where
  bcdUSB : BitVec 16
  bDeviceClass : BitVec 8
  idVendor : BitVec 16
  idProduct : BitVec 16
  bcdDevice : BitVec 16
  deriving DecidableEq

/-- `sprintf(b, "0x%x", …)`. -/
def hexText (value : ℕ) : List Char := ['0', 'x'] ++ Nat.toDigits 16 value

/-- The writes of `configfs_set_descs`, each to a file that it opens and closes. -/
def setDescsWrites (a : ConfigfsAttr) : List (String × List Char) :=
  (if a.bDeviceClass ≠ 0 then [("bDeviceClass", hexText a.bDeviceClass.toNat)] else []) ++
    [("idVendor", hexText a.idVendor.toNat), ("idProduct", hexText a.idProduct.toNat),
     ("bcdUSB", hexText a.bcdUSB.toNat), ("bcdDevice", hexText a.bcdDevice.toNat)]

/-! ## The encoding and the struct -/

/-- The fields with their sizes, the same in the description and in the struct. -/
def attrValues (a : ConfigfsAttr) : List (ℕ × ℕ) :=
  [(2, a.bcdUSB.toNat), (1, a.bDeviceClass.toNat), (2, a.idVendor.toNat), (2, a.idProduct.toNat),
   (2, a.bcdDevice.toNat)]

def attrSizes : List ℕ := [2, 1, 2, 2, 2]

/-- The bytes that the description prescribes. -/
def encodeAttr (a : ConfigfsAttr) : List Byte := encode (attrValues a)

/-- The struct at `base`, with its fields aligned by `align`. -/
def readAttr (align : ℕ → ℕ) (mem : Memory) (base : ℕ) : ConfigfsAttr :=
  let v := readFields align mem base 0 attrSizes
  { bcdUSB := BitVec.ofNat 16 (v.getD 0 0)
    bDeviceClass := BitVec.ofNat 8 (v.getD 1 0)
    idVendor := BitVec.ofNat 16 (v.getD 2 0)
    idProduct := BitVec.ofNat 16 (v.getD 3 0)
    bcdDevice := BitVec.ofNat 16 (v.getD 4 0) }

/-- The files whose contents are compared with what was encoded. -/
def describedWrites (a : ConfigfsAttr) : List (String × List Char) :=
  (setDescsWrites a).filter fun w => w.1 ∈ ["bDeviceClass", "idVendor", "idProduct", "bcdDevice"]

/-- The executor, with a struct aligned by `align`, writes the values that were encoded at
`base`. It reads every field of the struct, and nothing outside the encoded object. -/
def Agrees (align : ℕ → ℕ) (mem : Memory) (base : ℕ) (a : ConfigfsAttr) : Prop :=
  describedWrites (readAttr align (store mem base (encodeAttr a)) base) = describedWrites a ∧
    ∀ addr ∈ touchedFields align base 0 attrSizes,
      base ≤ addr ∧ addr < base + (encodeAttr a).length

/-- Through a packed struct the executor agrees with the description. -/
theorem agrees_packed (mem : Memory) (base : ℕ) (a : ConfigfsAttr) : Agrees packed mem base a := by
  have hfit : ∀ v ∈ attrValues a, v.2 < 256 ^ v.1 := by
    simp only [attrValues, List.mem_cons, List.not_mem_nil, or_false]
    rintro v (rfl | rfl | rfl | rfl | rfl) <;> exact BitVec.isLt _
  have hread : readFields packed (store mem base (encodeAttr a)) base 0 attrSizes =
      (attrValues a).map Prod.snd := readFields_packed mem base [] (attrValues a) hfit
  have hattr : readAttr packed (store mem base (encodeAttr a)) base = a := by
    simp [readAttr, hread, attrValues]
  exact ⟨by rw [hattr], fun addr h => touchedFields_packed base 0 (attrValues a) h⟩

/-- The struct as it is declared has a byte of padding after `bDeviceClass`. From `idVendor`
on, each field is read as the high byte of what was encoded for it and the low byte of what
comes next. -/
theorem readAttr_natural (mem : Memory) (base : ℕ) (a : ConfigfsAttr) :
    readAttr natural (store mem base (encodeAttr a)) base =
      { a with
        idVendor := a.idProduct.extractLsb' 0 8 ++ a.idVendor.extractLsb' 8 8
        idProduct := a.bcdDevice.extractLsb' 0 8 ++ a.idProduct.extractLsb' 8 8
        bcdDevice := mem (base + 9) ++ a.bcdDevice.extractLsb' 8 8 } := by
  have hbytes : encodeAttr a =
      [a.bcdUSB.extractLsb' 0 8, a.bcdUSB.extractLsb' 8 8, a.bDeviceClass,
       a.idVendor.extractLsb' 0 8, a.idVendor.extractLsb' 8 8,
       a.idProduct.extractLsb' 0 8, a.idProduct.extractLsb' 8 8,
       a.bcdDevice.extractLsb' 0 8, a.bcdDevice.extractLsb' 8 8] := by
    simp only [encodeAttr, encode, attrValues, List.flatMap_cons, List.flatMap_nil, leBytes_word,
      leBytes_byte, List.cons_append, List.nil_append]
  have hclass : load (store mem base (encodeAttr a)) (base + 2) 1 = [a.bDeviceClass] := by
    rw [hbytes]
    exact congrArg (· :: []) (store_add mem base 2 _)
  -- A byte behind the encoded object is what the memory held there before.
  have hword (off : ℕ) : load (store mem base (encodeAttr a)) (base + off) 2 =
      [(encodeAttr a)[off]?.getD (mem (base + off)),
       (encodeAttr a)[off + 1]?.getD (mem (base + (off + 1)))] := by
    rw [load_word, store_add, store_add]
  have hfields : fields natural 0 attrSizes = [(0, 2), (2, 1), (4, 2), (6, 2), (8, 2)] := rfl
  have hcat : a.bcdUSB.extractLsb' 8 8 ++ a.bcdUSB.extractLsb' 0 8 = a.bcdUSB :=
    (BitVec.extractLsb'_append_extractLsb'_eq_extractLsb' rfl).trans BitVec.extractLsb'_eq_self
  simp only [readAttr, readFields, hfields, List.map_cons, List.map_nil, hword, hclass,
    List.getD_cons_zero, List.getD_cons_succ, ofNat_leValue_word]
  simp [hbytes, hcat, leValue]

/-- The struct as it is declared ends one byte after the encoded object, and its last field
is always read. -/
theorem not_agrees_natural (mem : Memory) (base : ℕ) (a : ConfigfsAttr) :
    ¬Agrees natural mem base a := by
  rintro ⟨-, h⟩
  have hlen : (encodeAttr a).length = 9 := by simp [encodeAttr, encode, attrValues]
  have hread : base + 9 ∈ touchedFields natural base 0 attrSizes := by
    simp [touchedFields, attrSizes, fields_cons, natural, alignUp, mem_touched]
  have := (h _ hread).2
  omega

/-- A gadget that the description allows: its vendor `0x1d6b` is written as `0x41d`. -/
theorem hid_attr_disagrees : ¬Agrees natural (fun _ => 0) 0 ⟨0x200, 0, 0x1d6b, 0x104, 0x100⟩ := by
  rintro ⟨h, -⟩
  exact absurd h (by decide)

end FuzzUSB.Gadget
