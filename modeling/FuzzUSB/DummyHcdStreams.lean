import FuzzUSB.DummyHcdTransfer

/-!
# Streams of the emulated bus

The host controller keeps the maximal stream of each bulk endpoint in a nibble of `num_stream`.
-/

namespace FuzzUSB.DummyHcd
open Transition CLayout

/-! ## The code -/

/-- A pipe has the direction in bit 7 and the number of the endpoint from bit 15 on. -/
def usbPipeendpoint (pipe : BitVec 32) : BitVec 32 := pipe >>> 15 &&& 0xf

def usbPipeout (pipe : BitVec 32) : Bool := pipe &&& 0x80 = 0

/-- `usb_endpoint_num` -/
def usbEndpointNum (bEndpointAddress : Byte) : BitVec 32 := (bEndpointAddress &&& 0x0f).setWidth 32

/-- The descriptor of a bulk endpoint and the `bmAttributes` of its companion. -/
structure StreamEndpoint where
  bEndpointAddress : Byte
  ssBmAttributes : Byte

def StreamEndpoint.idx (ep : StreamEndpoint) : ℕ := dummyGetEpIdx ep.bEndpointAddress

/-- `usb_ss_max_streams` -/
def StreamEndpoint.usbSsMaxStreams (ep : StreamEndpoint) : BitVec 32 :=
  if ep.ssBmAttributes &&& 0x1f = 0 then 0 else 1#32 <<< (ep.ssBmAttributes &&& 0x1f).toNat

/-- What `struct dummy_hcd` has on streams. Beside it: the number of streams that the last
allocation for each endpoint returned, and the indices at which `num_stream` was written. -/
structure Streams where
  streamEnEp : BitVec 32
  numStream : ℕ → Byte
  granted : ℕ → ℤ
  indexed : List ℕ

def Streams.start : Streams := ⟨0, fun _ => 0, fun _ => 0, []⟩

def getMaxStreamsForPipe (numStream : ℕ → Byte) (pipe : BitVec 32) : ℕ :=
  let maxStreams := numStream (usbPipeendpoint pipe).toNat
  (if usbPipeout pipe then maxStreams >>> 4 else maxStreams &&& 0xf).toNat + 1

def Streams.setMaxStreamsForPipe (s : Streams) (pipe streams : BitVec 32) : Streams :=
  let streams := streams - 1
  let i := (usbPipeendpoint pipe).toNat
  let maxStreams := (s.numStream i).setWidth 32
  let maxStreams :=
    if usbPipeout pipe then maxStreams &&& 0xf ||| streams <<< 4
    else maxStreams &&& 0xf0 ||| streams
  { s with
    numStream := Function.update s.numStream i (maxStreams.setWidth 8)
    indexed := s.indexed ++ [i] }

/-- What `dummy_validate_stream` comes to. -/
inductive Validated
  | ok | eInval | bug
  deriving DecidableEq

def Streams.dummyValidateStream (s : Streams) (urb : Urb) (pipe : BitVec 32) : Validated :=
  if urb.streamId = 0 then if dummyEpStreamEn s.streamEnEp urb then .eInval else .ok
  else if !dummyEpStreamEn s.streamEnEp urb then .eInval
  else if getMaxStreamsForPipe s.numStream (usbPipeendpoint pipe) < urb.streamId then .bug
  else .ok

/-- The first loop of `dummy_alloc_streams`. `none` is `-EINVAL`. -/
def allocLimit (streamEnEp : BitVec 32) : List StreamEndpoint → BitVec 32 → Option (BitVec 32)
  | [], retStreams => some retStreams
  | ep :: eps, retStreams =>
    if streamEnEp.getLsbD ep.idx then none
    else if ep.usbSsMaxStreams = 0 then none
    else if ep.usbSsMaxStreams.slt retStreams then allocLimit streamEnEp eps ep.usbSsMaxStreams
    else allocLimit streamEnEp eps retStreams

def Streams.enable (s : Streams) (retStreams : BitVec 32) (ep : StreamEndpoint) : Streams :=
  Streams.setMaxStreamsForPipe
    { s with
      streamEnEp := s.streamEnEp ||| 1#32 <<< ep.idx
      granted := Function.update s.granted ep.idx retStreams.toInt }
    (usbEndpointNum ep.bEndpointAddress) retStreams

def Streams.disable (s : Streams) (ep : StreamEndpoint) : Streams :=
  Streams.setMaxStreamsForPipe { s with streamEnEp := s.streamEnEp &&& ~~~(1#32 <<< ep.idx) }
    (usbEndpointNum ep.bEndpointAddress) 0

def Streams.dummyAllocStreams (s : Streams) (eps : List StreamEndpoint) (numStreams : BitVec 32) :
    ℤ × Streams :=
  if eps = [] then (-eInval, s)
  else
    match allocLimit s.streamEnEp eps numStreams with
    | none => (-eInval, s)
    | some retStreams => (retStreams.toInt, eps.foldl (fun s => s.enable retStreams) s)

def Streams.dummyFreeStreams (s : Streams) (eps : List StreamEndpoint) : ℤ × Streams :=
  if eps.all fun ep => s.streamEnEp.getLsbD ep.idx then (0, eps.foldl Streams.disable s)
  else (-eInval, s)

inductive StreamCall
  | alloc (eps : List StreamEndpoint) (numStreams : BitVec 32)
  | free (eps : List StreamEndpoint)

def streamStep (s : Streams) : StreamCall → Option Streams
  | .alloc eps numStreams => some (s.dummyAllocStreams eps numStreams).2
  | .free eps => some (s.dummyFreeStreams eps).2

/-! ## The property -/

/-- The limits are those of the allocations, and `num_stream` is used within its entries. -/
structure LimitsKept (s : Streams) : Prop where
  /-- The maximum that is applied is the number of streams that was returned, so that no URB
  within it is rejected. -/
  maximum : ∀ (urb : Urb) (pipe : BitVec 32), dummyEpStreamEn s.streamEnEp urb →
    (getMaxStreamsForPipe s.numStream (usbPipeendpoint pipe) : ℤ) =
        s.granted (dummyGetEpIdx urb.bEndpointAddress) ∧
      (0 < urb.streamId → urb.streamId ≤ s.granted (dummyGetEpIdx urb.bEndpointAddress) →
        s.dummyValidateStream urb pipe = .ok)
  indices : (∀ i ∈ s.indexed, i < 15) ∧
    ∀ pipe : BitVec 32, (usbPipeendpoint (usbPipeendpoint pipe)).toNat < 15

/-- Every endpoint of the group can be given streams. -/
def Allocatable (streamEnEp : BitVec 32) (eps : List StreamEndpoint) : Prop :=
  ∀ ep ∈ eps, ¬streamEnEp.getLsbD ep.idx ∧ ep.usbSsMaxStreams ≠ 0

/-- What a group can have together. -/
def groupLimit (eps : List StreamEndpoint) (numStreams : BitVec 32) : ℤ :=
  eps.foldl (fun m ep => min m ep.usbSsMaxStreams.toInt) numStreams.toInt

/-- A call after which there is one limit for all endpoints with streams, from 1 to 16: an
allocation gives what all the others have, and where one is freed, the others have 16. -/
def Uniform (s : Streams) : StreamCall → Prop
  | .alloc eps numStreams =>
    eps ≠ [] → Allocatable s.streamEnEp eps →
      (1 ≤ groupLimit eps numStreams ∧ groupLimit eps numStreams ≤ 16) ∧
        ∀ ep : StreamEndpoint, s.streamEnEp.getLsbD ep.idx →
          s.granted ep.idx = groupLimit eps numStreams
  | .free eps =>
    eps ≠ [] → (∀ ep ∈ eps, s.streamEnEp.getLsbD ep.idx) →
      ∀ ep : StreamEndpoint, s.streamEnEp.getLsbD ep.idx → (∀ ep' ∈ eps, ep'.idx ≠ ep.idx) →
        s.granted ep.idx = 16

/-! ## The one nibble -/

/-- The number of an endpoint, taken for a pipe, is of endpoint 0 and goes out. -/
theorem pipe_of_num {x : BitVec 32} (hx : x.toNat < 16) :
    (usbPipeendpoint x).toNat = 0 ∧ usbPipeout x = true := by
  have hall : ∀ n < 16, (usbPipeendpoint (BitVec.ofNat 32 n)).toNat = 0 ∧
      usbPipeout (BitVec.ofNat 32 n) = true := by decide
  simpa using hall x.toNat hx

theorem usbPipeendpoint_lt (pipe : BitVec 32) : (usbPipeendpoint pipe).toNat < 16 := by
  rw [usbPipeendpoint, BitVec.toNat_and]
  exact Nat.and_lt_two_pow _ (by decide : (0xf : BitVec 32).toNat < 2 ^ 4)

theorem usbEndpointNum_lt (b : Byte) : (usbEndpointNum b).toNat < 16 := by
  rw [usbEndpointNum, BitVec.toNat_setWidth_of_le (by decide), BitVec.toNat_and]
  exact Nat.and_lt_two_pow _ (by decide : (0x0f : Byte).toNat < 2 ^ 4)

/-- The high nibble of the first entry, which is used for every endpoint. -/
def Streams.limit (s : Streams) : ℕ := (s.numStream 0 >>> 4).toNat + 1

theorem Streams.getMaxStreamsForPipe_eq (s : Streams) (pipe : BitVec 32) :
    getMaxStreamsForPipe s.numStream (usbPipeendpoint pipe) = s.limit := by
  obtain ⟨hnum, hout⟩ := pipe_of_num (usbPipeendpoint_lt pipe)
  rw [getMaxStreamsForPipe, hnum, hout]
  rfl

/-- What is packed into the high nibble is read back from it. -/
theorem packed_nibble (b : Byte) (streams : BitVec 32) :
    ((b.setWidth 32 &&& 0xf ||| streams <<< 4).setWidth 8 >>> 4).toNat = streams.toNat % 16 := by
  have hbits : (b.setWidth 32 &&& 0xf ||| streams <<< 4).setWidth 8 >>> 4 =
      (streams.setWidth 4).setWidth 8 := by
    ext i hi
    have hcases : i = 0 ∨ i = 1 ∨ i = 2 ∨ i = 3 ∨ 4 ≤ i := by omega
    rcases hcases with rfl | rfl | rfl | rfl | h
    case inr.inr.inr.inr =>
      have hb : b.getLsbD (4 + i) = false := BitVec.getLsbD_of_ge _ _ (by omega)
      simp [hb, show ¬i < 4 by omega, show ¬4 + i < 8 by omega]
    all_goals simp
  rw [hbits, BitVec.toNat_setWidth_of_le (by decide), BitVec.toNat_setWidth]

theorem Streams.setMaxStreamsForPipe_spec (s : Streams) (bEndpointAddress : Byte)
    (streams : BitVec 32) :
    let t := s.setMaxStreamsForPipe (usbEndpointNum bEndpointAddress) streams
    t.streamEnEp = s.streamEnEp ∧ t.granted = s.granted ∧ t.indexed = s.indexed ++ [0] ∧
      t.limit = (streams - 1).toNat % 16 + 1 := by
  obtain ⟨hnum, hout⟩ := pipe_of_num (usbEndpointNum_lt bEndpointAddress)
  simp only [Streams.setMaxStreamsForPipe, Streams.limit, hnum, hout, if_true]
  refine ⟨trivial, trivial, trivial, ?_⟩
  rw [Function.update_self, packed_nibble]

/-- One limit is not the limits of all. -/
theorem limit_eq_iff {r : BitVec 32} :
    (((r - 1).toNat % 16 + 1 : ℕ) : ℤ) = r.toInt ↔ 1 ≤ r.toInt ∧ r.toInt ≤ 16 := by
  have hlt := r.isLt
  have hsub : (r - 1).toNat = (r.toNat + 4294967295) % 4294967296 := by
    rw [BitVec.toNat_sub, Nat.add_comm]
    rfl
  rw [BitVec.toInt_eq_toNat_cond, hsub]
  split <;> omega

theorem dummyGetEpIdx_lt (b : Byte) : dummyGetEpIdx b < 32 := by
  have hnum : (b &&& 0x0f).toNat < 16 := by
    rw [BitVec.toNat_and]
    exact Nat.and_lt_two_pow _ (by decide : (0x0f : Byte).toNat < 2 ^ 4)
  rw [dummyGetEpIdx]
  split <;> omega

theorem getLsbD_set_bit (m : BitVec 32) {i : ℕ} (hi : i < 32) (k : ℕ) :
    (m ||| 1#32 <<< i).getLsbD k ↔ m.getLsbD k ∨ i = k := by
  change (m ||| BitVec.twoPow 32 i).getLsbD k ↔ _
  simp [BitVec.getLsbD_twoPow, hi]

theorem getLsbD_clear_bit (m : BitVec 32) {i : ℕ} (hi : i < 32) (k : ℕ) :
    (m &&& ~~~(1#32 <<< i)).getLsbD k ↔ m.getLsbD k ∧ i ≠ k := by
  change (m &&& ~~~(BitVec.twoPow 32 i)).getLsbD k ↔ _
  simp [BitVec.getLsbD_twoPow, hi]
  intro h hk
  exact BitVec.lt_of_getLsbD h

/-! ## The calls -/

section

variable {s t : Streams} {eps : List StreamEndpoint} {r n : BitVec 32} {k : ℕ}

theorem StreamEndpoint.idx_lt (ep : StreamEndpoint) : ep.idx < 32 :=
  dummyGetEpIdx_lt ep.bEndpointAddress

theorem Streams.enable_spec (s : Streams) (r : BitVec 32) (ep : StreamEndpoint) :
    (∀ k, (s.enable r ep).streamEnEp.getLsbD k ↔ s.streamEnEp.getLsbD k ∨ ep.idx = k) ∧
      (s.enable r ep).granted = Function.update s.granted ep.idx r.toInt ∧
      (s.enable r ep).limit = (r - 1).toNat % 16 + 1 ∧
      (s.enable r ep).indexed = s.indexed ++ [0] := by
  obtain ⟨hbits, hgranted, hindexed, hlimit⟩ := Streams.setMaxStreamsForPipe_spec
    { s with
      streamEnEp := s.streamEnEp ||| 1#32 <<< ep.idx
      granted := Function.update s.granted ep.idx r.toInt } ep.bEndpointAddress r
  refine ⟨fun k => ?_, hgranted, hlimit, hindexed⟩
  rw [Streams.enable, hbits]
  exact getLsbD_set_bit _ ep.idx_lt k

theorem Streams.disable_spec (s : Streams) (ep : StreamEndpoint) :
    (∀ k, (s.disable ep).streamEnEp.getLsbD k ↔ s.streamEnEp.getLsbD k ∧ ep.idx ≠ k) ∧
      (s.disable ep).granted = s.granted ∧ (s.disable ep).limit = 16 ∧
      (s.disable ep).indexed = s.indexed ++ [0] := by
  obtain ⟨hbits, hgranted, hindexed, hlimit⟩ := Streams.setMaxStreamsForPipe_spec
    { s with streamEnEp := s.streamEnEp &&& ~~~(1#32 <<< ep.idx) } ep.bEndpointAddress 0
  refine ⟨fun k => ?_, hgranted, hlimit, hindexed⟩
  rw [Streams.disable, hbits]
  exact getLsbD_clear_bit _ ep.idx_lt k

/-- What the second loop of `dummy_alloc_streams` does: the group has one grant and one limit. -/
theorem Streams.foldl_enable (r : BitVec 32) (s : Streams) (eps : List StreamEndpoint) :
    let t := eps.foldl (fun s => s.enable r) s
    (∀ k, t.streamEnEp.getLsbD k ↔ s.streamEnEp.getLsbD k ∨ ∃ ep ∈ eps, ep.idx = k) ∧
      (∀ k, t.granted k = if ∃ ep ∈ eps, ep.idx = k then r.toInt else s.granted k) ∧
      (s.limit = (r - 1).toNat % 16 + 1 ∨ eps ≠ [] → t.limit = (r - 1).toNat % 16 + 1) ∧
      ∀ i ∈ t.indexed, i ∈ s.indexed ∨ i = 0 := by
  induction eps generalizing s with
  | nil => simpa using fun i hi => Or.inl hi
  | cons ep eps ih =>
    obtain ⟨hbits, hgranted, hlimit, hindexed⟩ := s.enable_spec r ep
    obtain ⟨ihbits, ihgranted, ihlimit, ihindexed⟩ := ih (s.enable r ep)
    refine ⟨fun k => ?_, fun k => ?_, fun _ => ihlimit (.inl hlimit), fun i hi => ?_⟩
    · rw [List.foldl_cons, ihbits, hbits, List.exists_mem_cons_iff, or_assoc]
    · rw [List.foldl_cons, ihgranted, hgranted]
      by_cases hk : ep.idx = k
      · simp [hk]
      · simp [hk, Ne.symm hk]
    · have := ihindexed i hi
      simp only [hindexed, List.mem_append, List.mem_singleton] at this
      tauto

/-- What the second loop of `dummy_free_streams` does. -/
theorem Streams.foldl_disable (s : Streams) (eps : List StreamEndpoint) :
    let t := eps.foldl Streams.disable s
    (∀ k, t.streamEnEp.getLsbD k ↔ s.streamEnEp.getLsbD k ∧ ∀ ep ∈ eps, ep.idx ≠ k) ∧
      t.granted = s.granted ∧ (s.limit = 16 ∨ eps ≠ [] → t.limit = 16) ∧
      ∀ i ∈ t.indexed, i ∈ s.indexed ∨ i = 0 := by
  induction eps generalizing s with
  | nil => simpa using fun i hi => Or.inl hi
  | cons ep eps ih =>
    obtain ⟨hbits, hgranted, hlimit, hindexed⟩ := s.disable_spec ep
    obtain ⟨ihbits, ihgranted, ihlimit, ihindexed⟩ := ih (s.disable ep)
    refine ⟨fun k => ?_, ihgranted.trans hgranted, fun _ => ihlimit (.inl hlimit), fun i hi => ?_⟩
    · rw [List.foldl_cons, ihbits, hbits, List.forall_mem_cons, and_assoc]
    · have := ihindexed i hi
      simp only [hindexed, List.mem_append, List.mem_singleton] at this
      tauto

theorem groupLimit_cons (ep : StreamEndpoint) (eps : List StreamEndpoint) (n : BitVec 32) :
    groupLimit (ep :: eps) n =
      groupLimit eps (if ep.usbSsMaxStreams.slt n then ep.usbSsMaxStreams else n) := by
  have hmin : min n.toInt ep.usbSsMaxStreams.toInt =
      (if ep.usbSsMaxStreams.slt n then ep.usbSsMaxStreams else n).toInt := by
    split
    · next h => exact min_eq_right (BitVec.slt_iff_toInt_lt.mp h).le
    · next h => exact min_eq_left (not_lt.mp fun hlt => h (BitVec.slt_iff_toInt_lt.mpr hlt))
  rw [groupLimit, List.foldl_cons, hmin, groupLimit]

/-- The first loop of `dummy_alloc_streams` finds what the group can have together. -/
theorem allocLimit_spec (streamEnEp : BitVec 32) (eps : List StreamEndpoint) (n : BitVec 32) :
    (Allocatable streamEnEp eps →
        ∃ r, allocLimit streamEnEp eps n = some r ∧ r.toInt = groupLimit eps n) ∧
      (¬Allocatable streamEnEp eps → allocLimit streamEnEp eps n = none) := by
  induction eps generalizing n with
  | nil => exact ⟨fun _ => ⟨n, rfl, rfl⟩, fun h => absurd (by simp [Allocatable]) h⟩
  | cons ep eps ih =>
    rw [Allocatable, List.forall_mem_cons, groupLimit_cons]
    by_cases hep : ¬streamEnEp.getLsbD ep.idx ∧ ep.usbSsMaxStreams ≠ 0
    · have hloop : allocLimit streamEnEp (ep :: eps) n = allocLimit streamEnEp eps
          (if ep.usbSsMaxStreams.slt n then ep.usbSsMaxStreams else n) := by
        rw [allocLimit, if_neg hep.1, if_neg hep.2]
        split <;> rfl
      rw [hloop]
      obtain ⟨hsome, hnone⟩ := ih (if ep.usbSsMaxStreams.slt n then ep.usbSsMaxStreams else n)
      exact ⟨fun h => hsome h.2, fun h => hnone fun heps => h ⟨hep, heps⟩⟩
    · refine ⟨fun h => absurd h.1 hep, fun _ => ?_⟩
      rw [allocLimit]
      split_ifs with hen hmax
      · rfl
      · rfl
      · exact absurd ⟨hen, hmax⟩ hep
      · exact absurd ⟨hen, hmax⟩ hep

/-! ## Runs -/

/-- The indices that were used are all the same. -/
def OneIndex (s : Streams) : Prop := ∀ i ∈ s.indexed, i = 0

theorem OneIndex.step {c : StreamCall} (h : OneIndex s) (ht : streamStep s c = some t) :
    OneIndex t := by
  cases c with
  | alloc eps n =>
    obtain rfl := Option.some.inj ht
    rw [Streams.dummyAllocStreams]
    split
    · exact h
    · split
      · exact h
      · next r _ =>
        exact fun i hi => ((s.foldl_enable r eps).2.2.2 i hi).elim (h i) id
  | free eps =>
    obtain rfl := Option.some.inj ht
    rw [Streams.dummyFreeStreams]
    split
    · exact fun i hi => ((s.foldl_disable eps).2.2.2 i hi).elim (h i) id
    · exact h

/-- The limits are kept exactly if everything that was granted is the one limit. -/
theorem OneIndex.limitsKept_iff (h : OneIndex s) :
    LimitsKept s ↔ ∀ ep : StreamEndpoint, s.streamEnEp.getLsbD ep.idx →
      s.granted ep.idx = s.limit := by
  constructor
  · intro hkept ep hep
    have hurb := hkept.maximum ⟨ep.bEndpointAddress, 0x02, 0, 0, fun _ => 0, 0, 0⟩ 0 (by
      simpa [dummyEpStreamEn, StreamEndpoint.idx] using hep)
    rw [s.getMaxStreamsForPipe_eq] at hurb
    exact hurb.1.symm
  · intro hall
    refine ⟨fun urb pipe hen => ?_, fun i hi => ?_, fun pipe => ?_⟩
    · have hbit : s.streamEnEp.getLsbD (dummyGetEpIdx urb.bEndpointAddress) := by
        simp only [dummyEpStreamEn, Bool.and_eq_true] at hen
        exact hen.2
      have hlimit := hall ⟨urb.bEndpointAddress, 0⟩ hbit
      simp only [StreamEndpoint.idx] at hlimit
      rw [s.getMaxStreamsForPipe_eq, hlimit]
      refine ⟨rfl, fun hpos hle => ?_⟩
      rw [Streams.dummyValidateStream, s.getMaxStreamsForPipe_eq, hen, if_neg hpos.ne',
        if_neg (by decide), if_neg (by omega)]
    · rw [h i hi]
      decide
    · rw [(pipe_of_num (usbPipeendpoint_lt pipe)).1]
      decide

/-- The step lemma: a call keeps the limits exactly if it makes no difference between the
endpoints. -/
theorem OneIndex.limitsKept_step {c : StreamCall} (h : OneIndex s) (hs : LimitsKept s)
    (ht : streamStep s c = some t) : LimitsKept t ↔ Uniform s c := by
  rw [(h.step ht).limitsKept_iff]
  rw [h.limitsKept_iff] at hs
  cases c with
  | alloc eps n =>
    obtain rfl := Option.some.inj ht
    rw [Streams.dummyAllocStreams, Uniform]
    obtain ⟨hsome, hnone⟩ := allocLimit_spec s.streamEnEp eps n
    split
    · next hnil => exact iff_of_true hs fun hne => absurd hnil hne
    · next hne =>
      by_cases hall : Allocatable s.streamEnEp eps
      · obtain ⟨r, hr, hlimit⟩ := hsome hall
        obtain ⟨hbits, hgranted, hone, -⟩ := s.foldl_enable r eps
        simp only [hr, hbits, hgranted, hone (.inr hne), ← hlimit]
        constructor
        · intro hkept
          obtain ⟨ep, eps', heps⟩ := List.exists_cons_of_ne_nil hne
          have hfirst := hkept ep (.inr ⟨ep, by simp [heps], rfl⟩)
          rw [if_pos ⟨ep, by simp [heps], rfl⟩] at hfirst
          refine fun _ _ => ⟨limit_eq_iff.mp hfirst.symm, fun ep' hep' => ?_⟩
          have hother : ¬∃ ep'' ∈ eps, ep''.idx = ep'.idx := by
            rintro ⟨ep'', hmem, heq⟩
            exact (hall ep'' hmem).1 (heq ▸ hep')
          have hkept' := hkept ep' (.inl hep')
          rw [if_neg hother] at hkept'
          exact hkept'.trans hfirst.symm
        · intro huniform ep hep
          obtain ⟨hbounds, hothers⟩ := huniform hne hall
          rw [limit_eq_iff.mpr hbounds]
          split
          · rfl
          · next hother => exact hothers ep (hep.resolve_right hother)
      · rw [hnone hall]
        exact iff_of_true hs fun _ hall' => absurd hall' hall
  | free eps =>
    obtain rfl := Option.some.inj ht
    rw [Streams.dummyFreeStreams, Uniform]
    split
    · next hall =>
      rw [List.all_eq_true] at hall
      obtain ⟨hbits, hgranted, hone, -⟩ := s.foldl_disable eps
      by_cases hne : eps = []
      · subst hne
        exact iff_of_true hs fun hne => absurd rfl hne
      · simp only [hbits, hgranted, hone (.inr hne)]
        exact ⟨fun hkept _ _ ep hep hother => hkept ep ⟨hep, hother⟩,
          fun huniform ep hep => huniform hne hall ep hep.1 hep.2⟩
    · next hall =>
      refine iff_of_true hs fun _ hall' => absurd ?_ hall
      rwa [List.all_eq_true]

/-- For every sequence of calls over any groups of endpoints: in every state the limits are
those of the allocations if and only if every call was uniform. -/
theorem limitsKept_iff_uniform (cs : List StreamCall) :
    Always streamStep LimitsKept .start cs ↔ AlwaysStep streamStep Uniform .start cs := by
  have hstart : OneIndex .start := by simp [OneIndex, Streams.start]
  refine always_iff_alwaysStep (fun _ _ _ => OneIndex.step)
    (fun _ _ _ h hs ht => h.limitsKept_step hs ht) hstart (hstart.limitsKept_iff.mpr ?_)
  intro ep hep
  simp [Streams.start] at hep

end

/-- Sixteen streams for an IN endpoint, then four for another endpoint. -/
def twoAllocs : List StreamCall := [.alloc [⟨0x81, 4⟩] 16, .alloc [⟨0x02, 2⟩] 16]

/-- Stream 10 of the first endpoint. -/
def streamTen : Urb := ⟨0x81, 2, 10, 0x200, fun _ => 0, 512, 0⟩

theorem second_alloc_lowers_limit :
    ∃ s, runs streamStep .start twoAllocs = some s ∧
      s.granted (dummyGetEpIdx streamTen.bEndpointAddress) = 16 ∧
      s.dummyValidateStream streamTen 0xc0008080 = .bug ∧
      ¬Always streamStep LimitsKept .start twoAllocs := by
  refine ⟨_, rfl, by decide +kernel, by decide +kernel, fun h => ?_⟩
  obtain ⟨-, h⟩ := h
  obtain ⟨-, h⟩ := h _ rfl
  have hkept := h _ rfl
  exact absurd (hkept.maximum streamTen 0xc0008080 (by decide +kernel)).1 (by decide +kernel)

end FuzzUSB.DummyHcd
