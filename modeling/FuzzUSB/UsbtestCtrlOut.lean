import FuzzUSB.CLayout
import Mathlib.Data.BitVec

/-!
# The control write test

`ctrl_out` writes a pattern to the device and reads it back, in every round a longer one, up to a
length where it begins anew.
-/

namespace FuzzUSB.Usbtest.CtrlOut
open CLayout

def ENOMEM : ℤ := 12
def EINVAL : ℤ := 22
def EPIPE : ℤ := 32
def EBADMSG : ℤ := 74

/-- A device with the two vendor requests of the test, as `usb_control_msg` shows it. -/
structure VendorDevice (σ : Type) where
  /-- Request `0x5b`. -/
  write : σ → List Byte → ℤ × σ
  /-- Request `0x5c`: what it returns, and what it leaves in the buffer. -/
  read : σ → ℕ → ℤ × List Byte × σ
  length_read : ∀ s n, 0 ≤ (read s n).1 → ((read s n).2.1.length : ℤ) = (read s n).1

/-- `buf[j] = (u8)(i + j)` -/
def pattern (i len : ℕ) : List Byte := (List.range len).map fun j => BitVec.ofNat 8 (i + j)

/-- The buffer when `data` came in over what was written. -/
def received (data written : List Byte) : List Byte := data ++ written.drop data.length

/-- A length that is not the expected one becomes an error. -/
def badLength (retval : ℤ) : ℤ := if 0 ≤ retval then -EBADMSG else retval

section

variable {σ : Type} (dev : VendorDevice σ) (realworld : Bool) (length vary : ℕ)

def nextLen (len : ℕ) : ℕ :=
  if length < len + vary then (if realworld then 1 else 0) else len + vary

/-- The loop of `ctrl_out`: `todo` rounds, the next of which is round `i`. -/
def ctrlOutLoop : ℕ → ℕ → ℕ → ℤ → σ → ℤ × σ
  | 0, _, _, retval, s => (retval, s)
  | todo + 1, i, len, _, s =>
    let w := dev.write s (pattern i len)
    if w.1 ≠ len then (badLength w.1, w.2)
    else
      let r := dev.read w.2 len
      if r.1 ≠ len then (badLength r.1, r.2.2)
      else if received r.2.1 (pattern i len) ≠ pattern i len then (-EBADMSG, r.2.2)
      else ctrlOutLoop todo (i + 1) (nextLen realworld length vary len) r.1 r.2.2

/-- `ctrl_out` -/
def ctrlOut (allocated : Bool) (count : ℕ) (s : σ) : ℤ × σ :=
  if length < 1 ∨ 0xffff < length ∨ length ≤ vary then (-EINVAL, s)
  else if !allocated then (-ENOMEM, s)
  else ctrlOutLoop dev realworld length vary count 0 length 0 s

/-! ## The rounds -/

/-- The length of round `k`, counted from one of length `len`. -/
def lenAt (len : ℕ) : ℕ → ℕ
  | 0 => len
  | k + 1 => lenAt (nextLen realworld length vary len) k

/-- The device after a round. -/
def afterRound (i len : ℕ) (s : σ) : σ := (dev.read (dev.write s (pattern i len)).2 len).2.2

/-- The device before round `k`, counted from round `i`. -/
def stateAt (i len : ℕ) (s : σ) : ℕ → σ
  | 0 => s
  | k + 1 => stateAt (i + 1) (nextLen realworld length vary len) (afterRound dev i len s) k

/-- The device takes the whole text, and gives it back. -/
def Echoes (s : σ) (text : List Byte) : Prop :=
  (dev.write s text).1 = text.length ∧
    (dev.read (dev.write s text).2 text.length).1 = text.length ∧
    (dev.read (dev.write s text).2 text.length).2.1 = text

end

variable {σ : Type} {dev : VendorDevice σ} {realworld : Bool} {length vary len i : ℕ} {s : σ}

theorem length_pattern (i len : ℕ) : (pattern i len).length = len := by
  simp [pattern]

/-- No round is longer than the buffer. -/
theorem lenAt_le (hlength : 1 ≤ length) (hlen : len ≤ length) (k : ℕ) :
    lenAt realworld length vary len k ≤ length := by
  induction k generalizing len with
  | zero => exact hlen
  | succ k ih =>
    refine ih ?_
    unfold nextLen
    split
    · split <;> omega
    · omega

theorem badLength_neg (retval : ℤ) : badLength retval < 0 := by
  unfold badLength
  split
  · decide
  · omega

theorem received_self {data written : List Byte} (h : data.length = written.length) :
    received data written = data := by
  rw [received, h, List.drop_length, List.append_nil]

theorem ctrlOutLoop_echo (h : Echoes dev s (pattern i len)) (todo : ℕ) (retval : ℤ) :
    ctrlOutLoop dev realworld length vary (todo + 1) i len retval s =
      ctrlOutLoop dev realworld length vary todo (i + 1) (nextLen realworld length vary len) len
        (afterRound dev i len s) := by
  obtain ⟨hwrite, hread, htext⟩ := h
  rw [length_pattern] at hwrite hread htext
  have hself : received (pattern i len) (pattern i len) = pattern i len := received_self rfl
  rw [ctrlOutLoop]
  simp only [hwrite, hread, htext, hself, ne_eq, not_true_eq_false, if_false]
  rfl

/-- A round without its echo is the last one. -/
theorem ctrlOutLoop_no_echo (h : ¬Echoes dev s (pattern i len)) (todo : ℕ) (retval : ℤ) :
    (ctrlOutLoop dev realworld length vary (todo + 1) i len retval s).1 < 0 := by
  rw [Echoes, length_pattern] at h
  rw [ctrlOutLoop]
  by_cases hwrite : (dev.write s (pattern i len)).1 = len
  · by_cases hread : (dev.read (dev.write s (pattern i len)).2 len).1 = len
    · have hlen := dev.length_read (dev.write s (pattern i len)).2 len (by omega)
      have hself :
          received (dev.read (dev.write s (pattern i len)).2 len).2.1 (pattern i len) = _ :=
        received_self (by rw [length_pattern]; omega)
      have htext : (dev.read (dev.write s (pattern i len)).2 len).2.1 ≠ pattern i len :=
        fun htext => h ⟨hwrite, hread, htext⟩
      simp only [hwrite, hread, hself, ne_eq, not_true_eq_false, if_false, if_pos htext]
      simp [EBADMSG]
    · simp only [hwrite, hread, ne_eq, not_true_eq_false, not_false_eq_true, if_false, if_true]
      exact badLength_neg _
  · simp only [hwrite, ne_eq, not_false_eq_true, if_true]
    exact badLength_neg _

/-- The loop ends without an error exactly if the device echoes every pattern. -/
theorem ctrlOutLoop_nonneg_iff (todo : ℕ) {retval : ℤ} (hretval : 0 ≤ retval) :
    0 ≤ (ctrlOutLoop dev realworld length vary todo i len retval s).1 ↔
      ∀ k < todo, Echoes dev (stateAt dev realworld length vary i len s k)
        (pattern (i + k) (lenAt realworld length vary len k)) := by
  induction todo generalizing i len retval s with
  | zero => simpa [ctrlOutLoop] using hretval
  | succ todo ih =>
    rw [Nat.forall_lt_succ_left]
    by_cases hecho : Echoes dev s (pattern i len)
    · rw [ctrlOutLoop_echo hecho, ih (Int.natCast_nonneg len)]
      simp only [stateAt, lenAt, Nat.add_zero, hecho, true_and, Nat.add_assoc, Nat.add_comm 1]
    · refine iff_of_false (not_le.mpr (ctrlOutLoop_no_echo hecho todo retval)) fun h => hecho ?_
      simpa [stateAt, lenAt] using h.1

/-- What `ctrl_out` itself checks. -/
theorem ctrlOut_nonneg_iff (allocated : Bool) (count : ℕ) :
    0 ≤ (ctrlOut dev realworld length vary allocated count s).1 ↔
      1 ≤ length ∧ length ≤ 0xffff ∧ vary < length ∧ allocated = true ∧
        0 ≤ (ctrlOutLoop dev realworld length vary count 0 length 0 s).1 := by
  unfold ctrlOut
  by_cases hbad : length < 1 ∨ 0xffff < length ∨ length ≤ vary
  · rw [if_pos hbad]
    exact iff_of_false (by simp [EINVAL]) fun h => by omega
  · rw [if_neg hbad]
    cases allocated with
    | false => exact iff_of_false (by simp [ENOMEM]) fun h => by simp at h
    | true =>
      constructor
      · intro h
        exact ⟨by omega, by omega, by omega, rfl, h⟩
      · intro h
        exact h.2.2.2.2

/-- Against any device `ctrl_out` ends without an error exactly if its parameters are right, it
has its buffer, and the device echoes the pattern of every round. -/
theorem ctrlOut_passes_iff {σ : Type} (dev : VendorDevice σ) (realworld : Bool)
    (length vary count : ℕ) (allocated : Bool) (s : σ) :
    0 ≤ (ctrlOut dev realworld length vary allocated count s).1 ↔
      1 ≤ length ∧ length ≤ 0xffff ∧ vary < length ∧ allocated = true ∧
        ∀ k < count, Echoes dev (stateAt dev realworld length vary 0 length s k)
          (pattern k (lenAt realworld length vary length k)) := by
  rw [ctrlOut_nonneg_iff, ctrlOutLoop_nonneg_iff count le_rfl]
  simp only [Nat.zero_add]

/-! ## A device with a memory -/

/-- A device that keeps the last text that it had room for. -/
def memoryDevice (room : ℕ) : VendorDevice (List Byte) where
  write kept text := if text.length ≤ room then (text.length, text) else (-EPIPE, kept)
  read kept n := ((min n kept.length : ℕ), kept.take n, kept)
  length_read kept n _ := by simp

theorem echoes_memory_iff {room : ℕ} {kept text : List Byte} :
    Echoes (memoryDevice room) kept text ↔ text.length ≤ room := by
  unfold Echoes memoryDevice
  by_cases hroom : text.length ≤ room
  · simp [hroom]
  · simp only [hroom, if_false, iff_false]
    rintro ⟨h, -⟩
    rw [EPIPE] at h
    omega

/-- Against such a device `ctrl_out` ends without an error exactly if its parameters are right, it
has its buffer, and there is room for the first round. -/
theorem ctrlOut_memory_iff (room : ℕ) (realworld : Bool) (length vary count : ℕ)
    (allocated : Bool) (kept : List Byte) :
    0 ≤ (ctrlOut (memoryDevice room) realworld length vary allocated count kept).1 ↔
      1 ≤ length ∧ length ≤ 0xffff ∧ vary < length ∧ allocated = true ∧
        (0 < count → length ≤ room) := by
  rw [ctrlOut_nonneg_iff, ctrlOutLoop_nonneg_iff count le_rfl]
  simp only [echoes_memory_iff, length_pattern]
  refine and_congr_right fun hlength => ?_
  refine and_congr_right fun _ => and_congr_right fun _ => and_congr_right fun _ => ?_
  constructor
  · intro h hcount
    exact h 0 hcount
  · intro h k hk
    have hle : lenAt realworld length vary length k ≤ length := lenAt_le hlength le_rfl k
    exact hle.trans (h (by omega))

end FuzzUSB.Usbtest.CtrlOut
