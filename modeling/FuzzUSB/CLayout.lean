import Mathlib.Tactic.Common
import Mathlib.Tactic.Ring

/-!
# Struct layouts and little-endian bytes

The offsets of the fields of a C struct, with the alignment of each field or packed, and
values as bytes of a memory.
-/

namespace FuzzUSB.CLayout

abbrev Byte := BitVec 8

/-- A memory; an address that is not part of an object has contents too. -/
abbrev Memory := ℕ → Byte

/-! ## Offsets -/

def alignUp (n align : ℕ) : ℕ := (n + align - 1) / align * align

/-- A scalar is aligned to its size. -/
def natural (size : ℕ) : ℕ := size

/-- `__attribute__((packed))`. -/
def packed (_ : ℕ) : ℕ := 1

/-- The offsets of fields of the given sizes from position `pos` on. -/
def offsets (align : ℕ → ℕ) : ℕ → List ℕ → List ℕ
  | _, [] => []
  | pos, size :: sizes =>
    alignUp pos (align size) :: offsets align (alignUp pos (align size) + size) sizes

/-- The offset and size of each field of a struct. -/
def fields (align : ℕ → ℕ) (pos : ℕ) (sizes : List ℕ) : List (ℕ × ℕ) :=
  (offsets align pos sizes).zip sizes

@[simp] theorem alignUp_one (n : ℕ) : alignUp n 1 = n := by simp [alignUp]

@[simp] theorem fields_cons (align : ℕ → ℕ) (pos size : ℕ) (sizes : List ℕ) :
    fields align pos (size :: sizes) = (alignUp pos (align size), size) ::
      fields align (alignUp pos (align size) + size) sizes := rfl

/-! ## Bytes -/

/-- The bytes of a value, the least significant first. -/
def leBytes : ℕ → ℕ → List Byte
  | 0, _ => []
  | size + 1, value => BitVec.ofNat 8 value :: leBytes size (value / 256)

def leValue (bytes : List Byte) : ℕ := bytes.foldr (fun b value => b.toNat + 256 * value) 0

/-- Values of given sizes one after another. -/
def encode (values : List (ℕ × ℕ)) : List Byte := values.flatMap fun v => leBytes v.1 v.2

@[simp] theorem leBytes_length (size value : ℕ) : (leBytes size value).length = size := by
  induction size generalizing value with
  | zero => rfl
  | succ size ih => simp [leBytes, ih]

theorem leValue_leBytes {size value : ℕ} (h : value < 256 ^ size) :
    leValue (leBytes size value) = value := by
  induction size generalizing value with
  | zero => exact (Nat.lt_one_iff.mp h).symm
  | succ size ih =>
    have hdiv : value / 256 < 256 ^ size := by
      rw [Nat.div_lt_iff_lt_mul (by decide)]
      exact h.trans_eq (pow_succ 256 size)
    calc leValue (leBytes (size + 1) value)
        = value % 256 + 256 * leValue (leBytes size (value / 256)) := by
          simp [leValue, leBytes]
      _ = value % 256 + 256 * (value / 256) := by rw [ih hdiv]
      _ = value := Nat.mod_add_div value 256

theorem leBytes_word (w : BitVec 16) :
    leBytes 2 w.toNat = [w.extractLsb' 0 8, w.extractLsb' 8 8] := by
  simp only [leBytes, List.cons.injEq, and_true]
  constructor <;> apply BitVec.eq_of_toNat_eq <;> simp [Nat.shiftRight_eq_div_pow]

theorem leBytes_byte (b : Byte) : leBytes 1 b.toNat = [b] := by simp [leBytes]

theorem ofNat_leValue_word (lo hi : Byte) : BitVec.ofNat 16 (leValue [lo, hi]) = hi ++ lo := by
  apply BitVec.eq_of_toNat_eq
  have hlo := lo.isLt
  have hhi := hi.isLt
  rw [BitVec.toNat_append, Nat.shiftLeft_eq, Nat.mul_comm, ← Nat.two_pow_add_eq_or_of_lt hlo,
    BitVec.toNat_ofNat]
  simp only [leValue, List.foldr_cons, List.foldr_nil]
  omega

/-! ## Memory -/

/-- The memory with an object written at `base`. -/
def store (mem : Memory) (base : ℕ) (bytes : List Byte) : Memory := fun addr =>
  if base ≤ addr then bytes[addr - base]?.getD (mem addr) else mem addr

theorem store_add (mem : Memory) (base i : ℕ) (bytes : List Byte) :
    store mem base bytes (base + i) = bytes[i]?.getD (mem (base + i)) := by
  simp [store]

/-- The bytes read by an access of `size` bytes. -/
def load (mem : Memory) (addr size : ℕ) : List Byte :=
  (List.range size).map fun i => mem (addr + i)

theorem load_word (mem : Memory) (base off : ℕ) :
    load mem (base + off) 2 = [mem (base + off), mem (base + (off + 1))] := rfl

/-- The addresses that such an access touches. -/
def touched (addr size : ℕ) : List ℕ := (List.range size).map (addr + ·)

/-- The values of the fields of a struct at `base`. -/
def readFields (align : ℕ → ℕ) (mem : Memory) (base pos : ℕ) (sizes : List ℕ) : List ℕ :=
  (fields align pos sizes).map fun f => leValue (load mem (base + f.1) f.2)

/-- The addresses that reading every field touches. -/
def touchedFields (align : ℕ → ℕ) (base pos : ℕ) (sizes : List ℕ) : List ℕ :=
  (fields align pos sizes).flatMap fun f => touched (base + f.1) f.2

theorem mem_touched {addr size a : ℕ} : a ∈ touched addr size ↔ addr ≤ a ∧ a < addr + size := by
  simp only [touched, List.mem_map, List.mem_range]
  constructor
  · rintro ⟨i, hi, rfl⟩
    omega
  · exact fun h => ⟨a - addr, by omega, by omega⟩

/-- An access within the object reads the bytes that were written there. -/
theorem load_store (mem : Memory) (base : ℕ) (before bytes after : List Byte) :
    load (store mem base (before ++ (bytes ++ after))) (base + before.length) bytes.length =
      bytes := by
  apply List.ext_getElem (by simp [load])
  intro i hi hi'
  simp only [load, List.getElem_map, List.getElem_range, Nat.add_assoc, store_add]
  rw [List.getElem?_append_right (by omega), Nat.add_sub_cancel_left,
    List.getElem?_append_left hi', List.getElem?_eq_getElem hi', Option.getD_some]

/-- A packed struct reads back the values encoded one after another. -/
theorem readFields_packed (mem : Memory) (base : ℕ) (before : List Byte) (values : List (ℕ × ℕ))
    (hfit : ∀ v ∈ values, v.2 < 256 ^ v.1) :
    readFields packed (store mem base (before ++ encode values)) base before.length
      (values.map Prod.fst) = values.map Prod.snd := by
  induction values generalizing before with
  | nil => rfl
  | cons v values ih =>
    obtain ⟨size, value⟩ := v
    have hload := load_store mem base before (leBytes size value) (encode values)
    have hrest := ih (before ++ leBytes size value) fun v hv => hfit v (by simp [hv])
    rw [leBytes_length] at hload
    rw [List.append_assoc, List.length_append, leBytes_length] at hrest
    simp only [readFields, packed, List.map_cons, fields_cons, alignUp_one, encode,
      List.flatMap_cons] at hload hrest ⊢
    rw [hload, leValue_leBytes (hfit (size, value) (by simp)), hrest]

/-- It touches nothing but the encoded object. -/
theorem touchedFields_packed (base pos : ℕ) (values : List (ℕ × ℕ)) {addr : ℕ}
    (h : addr ∈ touchedFields packed base pos (values.map Prod.fst)) :
    base + pos ≤ addr ∧ addr < base + pos + (encode values).length := by
  induction values generalizing pos with
  | nil => cases h
  | cons v values ih =>
    simp only [touchedFields, packed, List.map_cons, fields_cons, alignUp_one, List.flatMap_cons,
      List.mem_append, mem_touched] at h
    simp only [encode, List.flatMap_cons, List.length_append, leBytes_length]
    rcases h with h | h
    · omega
    · have := ih (pos + v.1) h
      simp only [encode] at this
      omega

end FuzzUSB.CLayout
