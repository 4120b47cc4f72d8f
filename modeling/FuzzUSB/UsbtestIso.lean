import FuzzUSB.Tiling
import FuzzUSB.UsbtestQueue

/-!
# The packets of an isochronous URB

`iso_alloc_urb` splits its transfer into packets: how many there are comes from a division
that rounds up, their lengths from what is left, and their offsets from a product.
-/

namespace FuzzUSB.Usbtest
open Tiling

/-- The packets of a transfer of `length` bytes, of `maxp` bytes each but for the last. -/
structure PacketsTile (maxp length : ℕ) (frames : List IsoFrameDesc) : Prop where
  sum : (frames.map (·.length.toNat)).sum = length
  bounds : ∀ f ∈ frames, 1 ≤ f.length.toNat ∧ f.length.toNat ≤ maxp
  full : ∀ f ∈ frames.dropLast, f.length.toNat = maxp
  first : ∀ f ∈ frames.head?, f.offset.toNat = 0
  consecutive : frames.IsChain fun f g => g.offset.toNat = f.offset.toNat + f.length.toNat
  disjoint : frames.Pairwise fun f g => f.offset.toNat + f.length.toNat ≤ g.offset.toNat
  cover : ∀ i, i < length ↔
    ∃ f ∈ frames, f.offset.toNat ≤ i ∧ i < f.offset.toNat + f.length.toNat
  inside : ∀ f ∈ frames, f.offset.toNat + f.length.toNat ≤ length

/-- The loop over `iso_frame_desc` as it is written, with `bytes` a `long` that is cast to
`unsigned` for each packet. -/
def isoFramesLong (maxp : U32) : ℕ → ℕ → ℤ → List IsoFrameDesc
  | 0, _, _ => []
  | packets + 1, i, bytes =>
    let length := if BitVec.ofInt 32 bytes < maxp then BitVec.ofInt 32 bytes else maxp
    ⟨length, maxp * BitVec.ofNat 32 i⟩ :: isoFramesLong maxp packets (i + 1) (bytes - length.toNat)

/-- The cast loses nothing, and what is subtracted is there. -/
theorem isoFramesLong_eq (maxp : U32) (packets i : ℕ) {bytes : ℕ} (hlt : bytes < 2 ^ 32) :
    isoFramesLong maxp packets i bytes = isoFrames maxp packets i bytes := by
  induction packets generalizing i bytes with
  | zero => rfl
  | succ packets ih =>
    have hcast : (BitVec.ofInt 32 bytes).toNat = bytes := by
      rw [BitVec.ofInt_natCast, BitVec.toNat_ofNat, Nat.mod_eq_of_lt hlt]
    have hlength : (if BitVec.ofInt 32 bytes < maxp then BitVec.ofInt 32 bytes else maxp) =
        BitVec.ofNat 32 (min bytes maxp.toNat) := by
      apply BitVec.eq_of_toNat_eq
      rw [BitVec.toNat_ofNat, Nat.mod_eq_of_lt (by omega)]
      split
      · next h =>
        rw [BitVec.lt_def, hcast] at h
        omega
      · next h =>
        rw [BitVec.lt_def, hcast] at h
        omega
    have hrest : (bytes : ℤ) - (BitVec.ofNat 32 (min bytes maxp.toNat)).toNat =
        (bytes - min bytes maxp.toNat : ℕ) := by
      rw [BitVec.toNat_ofNat, Nat.mod_eq_of_lt (by omega)]
      omega
    simp only [isoFramesLong, isoFrames, hlength, hrest]
    rw [ih (i + 1) (by omega)]

/-- What the loop of `iso_alloc_urb` fills from the offset `start` on, with `bytes` left. -/
structure FramesLeft (maxp start bytes : ℕ) (frames : List IsoFrameDesc) : Prop where
  tiles : Tiles (fun f : IsoFrameDesc => f.offset.toNat) (fun f => f.length.toNat) start
    (start + bytes) frames
  bounds : ∀ f ∈ frames, 1 ≤ f.length.toNat ∧ f.length.toNat ≤ maxp
  full : ∀ f ∈ frames.dropLast, f.length.toNat = maxp

theorem FramesLeft.nil {maxp start : ℕ} : FramesLeft maxp start 0 [] :=
  ⟨rfl, by simp, by simp⟩

/-- A packet that takes what it can leaves the others the rest. -/
theorem FramesLeft.cons {maxp start bytes : ℕ} {f : IsoFrameDesc} {frames : List IsoFrameDesc}
    (h : FramesLeft maxp (start + maxp) (bytes - maxp) frames)
    (hframes : bytes ≤ maxp ↔ frames = []) (hmaxp : 0 < maxp) (hbytes : 0 < bytes)
    (hlength : f.length.toNat = min bytes maxp) (hoffset : f.offset.toNat = start) :
    FramesLeft maxp start bytes (f :: frames) := by
  have hbounds : 1 ≤ f.length.toNat ∧ f.length.toNat ≤ maxp := by omega
  refine ⟨⟨hoffset, ?_⟩, List.forall_mem_cons.mpr ⟨hbounds, h.bounds⟩, ?_⟩
  · show Tiles _ _ (start + f.length.toNat) (start + bytes) frames
    rw [hlength]
    by_cases hle : bytes ≤ maxp
    · rw [hframes.mp hle, Nat.min_eq_left hle]
      exact tiles_nil.mpr rfl
    · have htiles := h.tiles
      rw [show start + maxp + (bytes - maxp) = start + bytes by omega] at htiles
      rw [Nat.min_eq_right (Nat.le_of_not_le hle)]
      exact htiles
  · by_cases hle : bytes ≤ maxp
    · rw [hframes.mp hle]
      simp
    · have hne : frames ≠ [] := fun h => hle (hframes.mpr h)
      rw [List.dropLast_cons_of_ne_nil hne]
      exact List.forall_mem_cons.mpr ⟨by omega, h.full⟩

variable {maxp : U32} {packets i bytes : ℕ}

theorem length_isoFrames : (isoFrames maxp packets i bytes).length = packets := by
  induction packets generalizing i bytes with
  | zero => rfl
  | succ packets ih => rw [isoFrames, List.length_cons, ih]

/-- The offset of packet `i` does not wrap as long as it lies in the buffer. -/
theorem toNat_mul_ofNat (hmaxp : 0 < maxp.toNat) (hlt : maxp.toNat * i < 2 ^ 32) :
    (maxp * BitVec.ofNat 32 i).toNat = maxp.toNat * i := by
  have hi : i < 2 ^ 32 := Nat.lt_of_le_of_lt (Nat.le_mul_of_pos_left i hmaxp) hlt
  rw [BitVec.toNat_mul, BitVec.toNat_ofNat, Nat.mod_eq_of_lt hi, Nat.mod_eq_of_lt hlt]

/-- One packet less is what the bytes behind the first packet need. -/
theorem packets_rest {maxp bytes packets : ℕ} (hmaxp : 0 < maxp)
    (hpackets : packets + 1 = (bytes + maxp - 1) / maxp) :
    0 < bytes ∧ packets = (bytes - maxp + maxp - 1) / maxp := by
  have hbytes : 0 < bytes := by
    by_contra hzero
    rw [Nat.div_eq_of_lt (by omega)] at hpackets
    omega
  refine ⟨hbytes, ?_⟩
  by_cases hle : maxp ≤ bytes
  · rw [show bytes + maxp - 1 = bytes - 1 + maxp by omega, Nat.add_div_right _ hmaxp] at hpackets
    rw [Nat.sub_add_cancel hle]
    exact Nat.succ.inj hpackets
  · rw [show bytes + maxp - 1 = bytes - 1 + maxp by omega, Nat.add_div_right _ hmaxp,
      Nat.div_eq_of_lt (by omega)] at hpackets
    rw [Nat.div_eq_of_lt (by omega)]
    exact Nat.succ.inj hpackets

theorem isoFrames_left (hmaxp : 0 < maxp.toNat)
    (hpackets : packets = (bytes + maxp.toNat - 1) / maxp.toNat)
    (hlt : maxp.toNat * i + bytes < 2 ^ 32) :
    FramesLeft maxp.toNat (maxp.toNat * i) bytes (isoFrames maxp packets i bytes) := by
  -- The offset stays what the packets so far have taken, as these are full.
  induction packets generalizing i bytes with
  | zero =>
    have hzero : bytes + maxp.toNat - 1 < maxp.toNat :=
      (Nat.div_eq_zero_iff_lt hmaxp).mp hpackets.symm
    obtain rfl : bytes = 0 := by omega
    exact .nil
  | succ packets ih =>
    obtain ⟨hbytes, hrest⟩ := packets_rest hmaxp hpackets
    have hmin : bytes - min bytes maxp.toNat = bytes - maxp.toNat := by omega
    rw [isoFrames, hmin]
    apply FramesLeft.cons
    · by_cases hle : maxp.toNat ≤ bytes
      · rw [← Nat.mul_succ]
        apply ih hrest
        rw [Nat.mul_succ]
        omega
      · have hnone : packets = 0 := by
          rw [hrest]
          exact Nat.div_eq_of_lt (by omega)
        rw [hnone, Nat.sub_eq_zero_of_le (Nat.le_of_not_le hle)]
        exact .nil
    · rw [← List.length_eq_zero_iff, length_isoFrames, hrest, Nat.div_eq_zero_iff_lt hmaxp]
      omega
    · exact hmaxp
    · exact hbytes
    · rw [BitVec.toNat_ofNat, Nat.mod_eq_of_lt (by omega)]
    · exact toNat_mul_ofNat hmaxp (by omega)

theorem FramesLeft.packetsTile {maxp bytes : ℕ} {frames : List IsoFrameDesc}
    (h : FramesLeft maxp 0 bytes frames) : PacketsTile maxp bytes frames where
  sum := by simpa using h.tiles.sum
  bounds := h.bounds
  full := h.full
  first f hf := by
    obtain ⟨rest, rfl⟩ := List.head?_eq_some_iff.mp hf
    exact h.tiles.1
  consecutive := h.tiles.isChain
  disjoint := h.tiles.pairwise
  cover i := by
    rw [← h.tiles.cover]
    omega
  inside f hf := by simpa using (h.tiles.inside hf).2

theorem isoAllocUrb_ok {host : QueueHost} {desc : EndpointDescriptor} {bytes : U32}
    {offset slot : ℕ} {urb : Urb} (hok : isoAllocUrb host desc bytes offset slot = .ok (some urb))
    (hmaxp : isoMaxp host desc = .ok maxp) :
    0 < maxp.toNat ∧
      urb = ⟨BitVec.ofNat 32 ((bytes.toNat + maxp.toNat - 1) / maxp.toNat), bytes,
        isoFrames maxp ((bytes.toNat + maxp.toNat - 1) / maxp.toNat) 0 bytes.toNat⟩ := by
  simp only [isoAllocUrb, hmaxp] at hok
  split at hok
  · cases hok
  · next hne =>
    have hne' : maxp.toNat ≠ 0 := fun h => hne (BitVec.eq_of_toNat_eq h)
    simp only [Except.ok.injEq, Option.ite_none_right_eq_some, Option.some.injEq] at hok
    exact ⟨Nat.pos_of_ne_zero hne', hok.2.symm⟩

/-- A packet has a byte at least. -/
theorem packets_lt {maxp bytes : ℕ} (hmaxp : 0 < maxp) (hbytes : bytes < 2 ^ 32) :
    (bytes + maxp - 1) / maxp < 2 ^ 32 := by
  rw [Nat.div_lt_iff_lt_mul hmaxp]
  omega

/-- The packets of an URB that `iso_alloc_urb` returns tile its transfer buffer. -/
theorem isoAllocUrb_packetsTile (host : QueueHost) (desc : EndpointDescriptor) (bytes : U32)
    (offset slot : ℕ) (urb : Urb)
    (hok : isoAllocUrb host desc bytes offset slot = .ok (some urb)) :
    ∃ maxp, isoMaxp host desc = .ok maxp ∧
      urb.isoFrameDesc = isoFramesLong maxp urb.numberOfPackets.toNat 0 bytes.toNat ∧
      PacketsTile maxp.toNat bytes.toNat urb.isoFrameDesc ∧
      urb.numberOfPackets.toNat = urb.isoFrameDesc.length ∧ urb.transferBufferLength = bytes := by
  cases hmaxp : isoMaxp host desc with
  | error f => simp [isoAllocUrb, hmaxp] at hok
  | ok maxp =>
    obtain ⟨hpos, rfl⟩ := isoAllocUrb_ok hok hmaxp
    have hpackets : (BitVec.ofNat 32 ((bytes.toNat + maxp.toNat - 1) / maxp.toNat)).toNat =
        (bytes.toNat + maxp.toNat - 1) / maxp.toNat := by
      rw [BitVec.toNat_ofNat, Nat.mod_eq_of_lt (packets_lt hpos bytes.isLt)]
    refine ⟨maxp, rfl, ?_, ?_, ?_, rfl⟩
    · rw [hpackets, isoFramesLong_eq maxp _ 0 bytes.isLt]
    · have hleft := isoFrames_left (i := 0) hpos rfl (by omega : maxp.toNat * 0 + bytes.toNat < _)
      rw [Nat.mul_zero] at hleft
      exact hleft.packetsTile
    · rw [hpackets, length_isoFrames]

/-- 300 bytes for an endpoint with two transactions of 64 bytes in a microframe. -/
theorem isoAllocUrb_packetsTile_highBandwidth :
    ∃ maxp, isoMaxp willingHost ⟨0x81, 1, 0x0840, 1⟩ = .ok maxp ∧
      [(⟨128, 0⟩ : IsoFrameDesc), ⟨128, 128⟩, ⟨44, 256⟩] =
        isoFramesLong maxp (3 : U32).toNat 0 (300 : U32).toNat ∧
      PacketsTile maxp.toNat 300 [⟨128, 0⟩, ⟨128, 128⟩, ⟨44, 256⟩] ∧
      (3 : U32).toNat = [(⟨128, 0⟩ : IsoFrameDesc), ⟨128, 128⟩, ⟨44, 256⟩].length ∧
      (300 : U32) = 300 :=
  isoAllocUrb_packetsTile willingHost ⟨0x81, 1, 0x0840, 1⟩ 300 1 0
    ⟨3, 300, [⟨128, 0⟩, ⟨128, 128⟩, ⟨44, 256⟩]⟩ rfl

end FuzzUSB.Usbtest
