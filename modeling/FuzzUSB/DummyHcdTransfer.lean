import FuzzUSB.Transition
import FuzzUSB.ByteFlow
import FuzzUSB.CLayout
import Mathlib.Algebra.BigOperators.Ring.Finset
import Mathlib.Data.Prod.Lex

/-!
# Transfers of the emulated bus

`transfer` of `dummy_hcd.c` moves bytes between an URB of the host and the requests queued at
an endpoint of the gadget. The URB has one buffer, no scatter-gather list.
-/

namespace FuzzUSB.DummyHcd
open Transition ByteFlow CLayout

/-! ## URBs, requests and the queue -/

def eInProgress : ℤ := 115
def eOverflow : ℤ := 75
def eInval : ℤ := 22
def ePipe : ℤ := 32
def eShutdown : ℤ := 108

def urbZeroPacket : BitVec 32 := 0x40
def urbDirIn : BitVec 32 := 0x200

/-- `struct urb`, with what is read of the descriptor of its endpoint. -/
structure Urb where
  bEndpointAddress : Byte
  bmAttributes : Byte
  streamId : ℕ
  transferFlags : BitVec 32
  transferBuffer : ℕ → Byte
  transferBufferLength : ℕ
  actualLength : ℕ

/-- `struct usb_request` -/
structure Request where
  buf : ℕ → Byte
  length : ℕ
  streamId : ℕ
  zero : Bool
  status : ℤ
  actual : ℕ

/-- `struct usb_ep` -/
structure Endpoint where
  maxpacket : ℕ
  pos : 0 < maxpacket

/-- `usb_urb_dir_in` -/
def Urb.dirIn (urb : Urb) : Bool := urb.transferFlags &&& urbDirIn = urbDirIn

def Urb.hostLen (urb : Urb) : ℕ := urb.transferBufferLength - urb.actualLength

def Request.devLen (req : Request) : ℕ := req.length - req.actual

def dummyGetEpIdx (bEndpointAddress : Byte) : ℕ :=
  2 * (bEndpointAddress &&& 0x0f).toNat + if bEndpointAddress &&& 0x80 = 0 then 0 else 1

/-- `dummy_ep_stream_en` looks at the bit of a bulk endpoint in `stream_en_ep`. -/
def dummyEpStreamEn (streamEnEp : BitVec 32) (urb : Urb) : Bool :=
  urb.bmAttributes &&& 0x03 = 0x02 && streamEnEp.getLsbD (dummyGetEpIdx urb.bEndpointAddress)

/-- What happens while the lock is dropped for a completion callback: requests are unlinked
and others are queued. -/
structure Interlude where
  keep : ℕ → Bool
  arrivals : ℕ

/-- The locals and the objects of `transfer`. Requests have numbers in the order in which they
are queued, and one that is queued again has a new number. The queue is `before`, which the
loop is past, and `rest`. What was moved is kept beside them. -/
structure State where
  urb : Urb
  reqs : ℕ → Request
  arrived : ℕ
  before : List ℕ
  rest : List ℕ
  limit : ℤ
  sent : ℤ
  status : ℤ
  moved : List (ℕ × ℕ)

/-- `n` requests are in the queue at the start. -/
def State.start (urb : Urb) (reqs : ℕ → Request) (n : ℕ) (limit status : ℤ) : State :=
  ⟨urb, reqs, n, [], List.range n, limit, 0, status, []⟩

/-! ## One request -/

/-- The conversion of an `int` to `unsigned`. -/
def asUnsigned (n : ℤ) : ℕ := (BitVec.ofInt 32 n).toNat

/-- The conversion of an `unsigned` to `int`. -/
def asInt (n : ℕ) : ℤ := (BitVec.ofNat 32 n).toInt

def dummyPerformTransfer (urb : Urb) (req : Request) (len : ℕ) : Urb × Request × ℤ :=
  if urb.dirIn then
    ({ urb with
        transferBuffer := copy urb.transferBuffer urb.actualLength req.buf req.actual len },
      req, asInt len)
  else
    (urb, { req with buf := copy req.buf req.actual urb.transferBuffer urb.actualLength len },
      asInt len)

structure Portion where
  len : ℕ
  isShort : Bool
  rescan : Bool

/-- How much of `len` bytes is moved at once. Without enough bandwidth the loop is left. -/
def portion (maxpacket : ℕ) (limit : ℤ) (len : ℕ) : Option Portion :=
  if len = 0 then some ⟨0, true, false⟩
  else if limit < maxpacket ∧ asUnsigned limit < len then none
  else
    let len := min len (asUnsigned limit)
    if len = 0 then none
    -- A multiple of `maxpacket` first, then the remainder.
    else if maxpacket ≤ len then some ⟨len - len % maxpacket, false, len % maxpacket ≠ 0⟩
    else some ⟨len, true, false⟩

/-- The bytes are moved, and counted if there was no error. -/
def State.move (s : State) (i len : ℕ) : State :=
  match dummyPerformTransfer s.urb (s.reqs i) len with
  | (urb, req, ret) =>
    if ret < 0 then
      { s with urb := urb, reqs := Function.update s.reqs i { req with status := ret } }
    else { s with
      urb := { urb with actualLength := urb.actualLength + ret.toNat }
      reqs := Function.update s.reqs i { req with actual := req.actual + ret.toNat }
      limit := s.limit - ret
      sent := s.sent + ret
      moved := s.moved ++ span i req.actual ret.toNat }

def State.moveSome (s : State) (i len : ℕ) : State := if len = 0 then s else s.move i len

/-- The status of a request and of the URB after a short packet. -/
def shortStatus (toHost : Bool) (hostLen devLen : ℕ) : ℤ × ℤ :=
  if hostLen = devLen then (0, 0)
  else if toHost then (0, if devLen > hostLen then -eOverflow else 0)
  else (if hostLen > devLen then -eOverflow else 0, 0)

/-- Sets the statuses. The lengths are those before the bytes were moved. -/
def State.settle (s : State) (i hostLen devLen : ℕ) (isShort : Bool) : State :=
  let req := s.reqs i
  if isShort then
    let (reqStatus, status) := shortStatus s.urb.dirIn hostLen devLen
    { s with
      reqs := Function.update s.reqs i { req with status := reqStatus }
      status := status }
  else
    let reqStatus :=
      if req.length = req.actual ∧ ¬(req.zero ∧ s.urb.dirIn) then 0 else req.status
    let status :=
      if s.urb.transferBufferLength = s.urb.actualLength ∧
        ¬(s.urb.transferFlags &&& urbZeroPacket ≠ 0 ∧ ¬s.urb.dirIn) then 0 else s.status
    { s with
      reqs := Function.update s.reqs i { req with status := reqStatus }
      status := status }

/-- A zero-length packet is still to be sent. -/
def State.wantsZlp (s : State) (i : ℕ) : Bool :=
  ((s.reqs i).length = (s.reqs i).actual && (s.reqs i).zero && s.urb.dirIn) ||
    (s.urb.transferBufferLength = s.urb.actualLength &&
      s.urb.transferFlags &&& urbZeroPacket ≠ 0 && !s.urb.dirIn)

/-- The end of the body of the loop. A request that is done is taken from the queue and given
back, an URB that is done ends the loop, and a rescan starts from the head of the queue. -/
def State.conclude (s : State) (i : ℕ) (rest : List ℕ) (rescan : Bool) (e : Interlude) : State :=
  if (s.reqs i).status ≠ -eInProgress then
    let queue := (s.before ++ rest).filter e.keep ++ List.range' s.arrived e.arrivals
    let s := { s with arrived := s.arrived + e.arrivals }
    if s.status ≠ -eInProgress then { s with before := queue, rest := [] }
    else { s with before := [], rest := queue }
  else if s.status ≠ -eInProgress then { s with before := s.before ++ i :: rest, rest := [] }
  else if rescan then { s with before := [], rest := s.before ++ i :: rest }
  else { s with before := s.before ++ [i], rest := rest }

/-- The body of the loop. -/
def State.visit (streamEnEp : BitVec 32) (ep : Endpoint) (s : State) (i : ℕ) (rest : List ℕ)
    (e : Interlude) : State :=
  if dummyEpStreamEn streamEnEp s.urb ∧ s.urb.streamId ≠ (s.reqs i).streamId then
    { s with before := s.before ++ [i], rest := rest }
  else
    let hostLen := s.urb.hostLen
    let devLen := (s.reqs i).devLen
    match portion ep.maxpacket s.limit (min hostLen devLen) with
    | none => { s with before := s.before ++ i :: rest, rest := [] }
    | some p =>
      let s := s.moveSome i p.len
      let rescan := p.rescan || (!p.isShort && s.wantsZlp i)
      (s.settle i hostLen devLen p.isShort).conclude i rest rescan e

/-- One round of the loop, until it is left with no request ahead. -/
def step (streamEnEp : BitVec 32) (ep : Endpoint) (s : State) (e : Interlude) : Option State :=
  match s.rest with
  | [] => none
  | i :: rest => some (s.visit streamEnEp ep i rest e)

/-- `transfer` after some rounds of its loop. -/
def transfer (streamEnEp : BitVec 32) (ep : Endpoint) (urb : Urb) (reqs : ℕ → Request) (n : ℕ)
    (limit : BitVec 32) (status : ℤ) (es : List Interlude) : Option State :=
  runs (step streamEnEp ep) (.start urb reqs n limit.toInt status) es

/-! ## The property -/

/-- What was sent is what the URB and the requests have advanced by, no more than the limit,
and consists of the same bytes in the same order on both sides. -/
structure Conserves (urb : Urb) (reqs : ℕ → Request) (limit : ℤ) (t : State) : Prop where
  urb_le : t.urb.actualLength ≤ t.urb.transferBufferLength
  req_le : ∀ i, (t.reqs i).actual ≤ (t.reqs i).length
  lengths : t.urb.transferBufferLength = urb.transferBufferLength ∧
    ∀ i, (t.reqs i).length = (reqs i).length
  sent_eq : t.sent = t.urb.actualLength - urb.actualLength
  sum_eq : t.sent = ∑ i ∈ Finset.range t.arrived, (((t.reqs i).actual : ℤ) - (reqs i).actual)
  sent_le : t.sent ≤ limit
  /-- The ledger has an entry for every byte sent, and for each request its new positions in
  order. -/
  ledger : t.sent = t.moved.length ∧
    Records (fun i => (reqs i).actual) (fun i => (t.reqs i).actual) t.moved
  carried : Carried t.urb.transferBuffer urb.actualLength (fun i => (t.reqs i).buf) t.moved
  /-- The buffers that are sent from stay as they were, and so do the others outside of the
  positions that were written. -/
  toHost : urb.dirIn → (∀ i, (t.reqs i).buf = (reqs i).buf) ∧
    ∀ p, p < urb.actualLength ∨ t.urb.actualLength ≤ p →
      t.urb.transferBuffer p = urb.transferBuffer p
  fromHost : ¬urb.dirIn → t.urb.transferBuffer = urb.transferBuffer ∧
    ∀ i p, p < (reqs i).actual ∨ (t.reqs i).actual ≤ p → (t.reqs i).buf p = (reqs i).buf p

/-! ## What a round does to the bytes -/

/-- The two states differ in the queue and in statuses only. -/
structure SameBytes (s t : State) : Prop where
  urb : t.urb = s.urb
  limit : t.limit = s.limit
  sent : t.sent = s.sent
  moved : t.moved = s.moved
  buf : ∀ i, (t.reqs i).buf = (s.reqs i).buf
  length : ∀ i, (t.reqs i).length = (s.reqs i).length
  actual : ∀ i, (t.reqs i).actual = (s.reqs i).actual

theorem SameBytes.trans {s t u : State} (h : SameBytes s t) (h' : SameBytes t u) :
    SameBytes s u where
  urb := h'.urb.trans h.urb
  limit := h'.limit.trans h.limit
  sent := h'.sent.trans h.sent
  moved := h'.moved.trans h.moved
  buf i := (h'.buf i).trans (h.buf i)
  length i := (h'.length i).trans (h.length i)
  actual i := (h'.actual i).trans (h.actual i)

section

variable {urb : Urb} {reqs : ℕ → Request} {s : State} {i : ℕ}

theorem buf_update (reqs : ℕ → Request) (i : ℕ) (req : Request) :
    (fun j => (Function.update reqs i req j).buf) =
      Function.update (fun j => (reqs j).buf) i req.buf :=
  Function.comp_update Request.buf reqs i req

theorem actual_update (reqs : ℕ → Request) (i : ℕ) (req : Request) :
    (fun j => (Function.update reqs i req j).actual) =
      Function.update (fun j => (reqs j).actual) i req.actual :=
  Function.comp_update Request.actual reqs i req

theorem State.settle_same (s : State) (i hostLen devLen : ℕ) (isShort : Bool) :
    SameBytes s (s.settle i hostLen devLen isShort) := by
  have hreqs : ∃ status, (s.settle i hostLen devLen isShort).reqs =
      Function.update s.reqs i { s.reqs i with status := status } := by
    cases isShort <;> exact ⟨_, rfl⟩
  obtain ⟨status, hreqs⟩ := hreqs
  constructor
  case buf =>
    rw [hreqs]
    exact (Function.forall_update_iff s.reqs fun j req => req.buf = (s.reqs j).buf).mpr
      ⟨rfl, fun _ _ => rfl⟩
  case length =>
    rw [hreqs]
    exact (Function.forall_update_iff s.reqs fun j req => req.length = (s.reqs j).length).mpr
      ⟨rfl, fun _ _ => rfl⟩
  case actual =>
    rw [hreqs]
    exact (Function.forall_update_iff s.reqs fun j req => req.actual = (s.reqs j).actual).mpr
      ⟨rfl, fun _ _ => rfl⟩
  all_goals cases isShort <;> rfl

theorem State.conclude_same (s : State) (i : ℕ) (rest : List ℕ) (rescan : Bool) (e : Interlude) :
    SameBytes s (s.conclude i rest rescan e) := by
  simp only [State.conclude]
  split_ifs <;> exact ⟨rfl, rfl, rfl, rfl, fun _ => rfl, fun _ => rfl, fun _ => rfl⟩

/-- A queue that lost some requests and got new ones holds requests that have arrived. -/
theorem lt_refill {queue : List ℕ} {arrived : ℕ} (h : ∀ i ∈ queue, i < arrived)
    (keep : ℕ → Bool) (arrivals : ℕ) :
    ∀ i ∈ queue.filter keep ++ List.range' arrived arrivals, i < arrived + arrivals := by
  intro i hi
  rcases List.mem_append.mp hi with hold | hnew
  · exact (h i (List.mem_of_mem_filter hold)).trans_le (Nat.le_add_right _ _)
  · exact (List.mem_range'_1.mp hnew).2

/-- The queue holds requests that have arrived. -/
def State.Queued (s : State) : Prop := ∀ i ∈ s.before ++ s.rest, i < s.arrived

theorem State.Queued.conclude {rest : List ℕ} (h : s.Queued) (hs : s.rest = i :: rest)
    (rescan : Bool) (e : Interlude) :
    s.arrived ≤ (s.conclude i rest rescan e).arrived ∧ (s.conclude i rest rescan e).Queued := by
  rw [State.Queued, hs] at h
  have hlt : ∀ j ∈ s.before ++ rest, j < s.arrived := fun j hj =>
    h j (((List.sublist_cons_self i rest).append_left s.before).mem hj)
  have hqueue := lt_refill hlt e.keep e.arrivals
  simp only [State.conclude, State.Queued]
  split_ifs
  · exact ⟨Nat.le_add_right _ _, by simpa using hqueue⟩
  · exact ⟨Nat.le_add_right _ _, by simpa using hqueue⟩
  · exact ⟨Nat.le_refl _, by simpa using h⟩
  · exact ⟨Nat.le_refl _, by simpa using h⟩
  · exact ⟨Nat.le_refl _, by simpa using h⟩

end

/-! ## Moving bytes -/

theorem asInt_eq {n : ℕ} (h : n < 2147483648) : asInt n = n := by
  have hnat : (BitVec.ofNat 32 n).toNat = n := by
    rw [BitVec.toNat_ofNat]
    omega
  rw [asInt, BitVec.toInt_eq_toNat_of_lt (by omega), hnat]

theorem asUnsigned_eq {n : ℤ} (h0 : 0 ≤ n) (h : n < 2147483648) : (asUnsigned n : ℤ) = n := by
  rw [asUnsigned, BitVec.toNat_ofInt]
  omega

/-- A portion is no more than what there is on both sides, and no more than the limit. One
that is not short is not empty. -/
theorem portion_spec {maxpacket len : ℕ} {limit : ℤ} {p : Portion} (hpos : 0 < maxpacket)
    (h0 : 0 ≤ limit) (hlimit : limit < 2147483648) (h : portion maxpacket limit len = some p) :
    p.len ≤ len ∧ p.len ≤ limit ∧ (p.isShort = false → 0 < p.len) := by
  have hunsigned := asUnsigned_eq h0 hlimit
  simp only [portion] at h
  split_ifs at h with hzero hband hnone hlong
  · obtain rfl := Option.some.inj h
    exact ⟨Nat.zero_le _, h0, nofun⟩
  · obtain rfl := Option.some.inj h
    have hmod := Nat.mod_lt (min len (asUnsigned limit)) hpos
    refine ⟨by simp only; omega, by simp only; omega, fun _ => by simp only; omega⟩
  · obtain rfl := Option.some.inj h
    exact ⟨by simp only; omega, by simp only; omega, nofun⟩

/-- Without an error, both sides advance. -/
theorem State.move_eq (s : State) (i : ℕ) {len : ℕ} (hlen : len < 2147483648) :
    s.move i len = { s with
      urb := { s.urb with
        transferBuffer :=
          if s.urb.dirIn then
            copy s.urb.transferBuffer s.urb.actualLength (s.reqs i).buf (s.reqs i).actual len
          else s.urb.transferBuffer
        actualLength := s.urb.actualLength + len }
      reqs := Function.update s.reqs i { s.reqs i with
        buf :=
          if s.urb.dirIn then (s.reqs i).buf
          else copy (s.reqs i).buf (s.reqs i).actual s.urb.transferBuffer s.urb.actualLength len
        actual := (s.reqs i).actual + len }
      limit := s.limit - len
      sent := s.sent + len
      moved := s.moved ++ span i (s.reqs i).actual len } := by
  have hret := asInt_eq hlen
  cases hdir : s.urb.dirIn <;> simp [State.move, dummyPerformTransfer, hdir, hret]

/-! ## The invariant -/

/-- What holds between the rounds, for what `transfer` was called with. -/
structure Inv (urb : Urb) (reqs : ℕ → Request) (limit : ℤ) (s : State) : Prop where
  flags : s.urb.transferFlags = urb.transferFlags
  urbLength : s.urb.transferBufferLength = urb.transferBufferLength
  reqLength : ∀ i, (s.reqs i).length = (reqs i).length
  urb_le : s.urb.actualLength ≤ s.urb.transferBufferLength
  req_le : ∀ i, (s.reqs i).actual ≤ (s.reqs i).length
  urbActual : s.urb.actualLength = urb.actualLength + s.moved.length
  sent : s.sent = s.moved.length
  left : s.limit + s.moved.length = limit
  nonneg : 0 ≤ s.limit
  queued : s.Queued
  known : ∀ x ∈ s.moved, x.1 < s.arrived
  records : Records (fun i => (reqs i).actual) (fun i => (s.reqs i).actual) s.moved
  carried : Carried s.urb.transferBuffer urb.actualLength (fun i => (s.reqs i).buf) s.moved
  toHost : urb.dirIn → (∀ i, (s.reqs i).buf = (reqs i).buf) ∧
    ∀ p, p < urb.actualLength ∨ s.urb.actualLength ≤ p →
      s.urb.transferBuffer p = urb.transferBuffer p
  fromHost : ¬urb.dirIn → s.urb.transferBuffer = urb.transferBuffer ∧
    ∀ i p, p < (reqs i).actual ∨ (s.reqs i).actual ≤ p → (s.reqs i).buf p = (reqs i).buf p

section

variable {urb : Urb} {reqs : ℕ → Request} {limit : ℤ} {s t : State} {i : ℕ}

theorem Inv.dirIn_eq (h : Inv urb reqs limit s) : s.urb.dirIn = urb.dirIn := by
  rw [Urb.dirIn, Urb.dirIn, h.flags]

theorem Inv.start (hurb : urb.actualLength ≤ urb.transferBufferLength)
    (hreqs : ∀ i, (reqs i).actual ≤ (reqs i).length) (hlimit : 0 ≤ limit) (n : ℕ) (status : ℤ) :
    Inv urb reqs limit (.start urb reqs n limit status) where
  flags := rfl
  urbLength := rfl
  reqLength _ := rfl
  urb_le := hurb
  req_le := hreqs
  urbActual := rfl
  sent := rfl
  left := by simp [State.start]
  nonneg := hlimit
  queued i hi := List.mem_range.mp hi
  known := nofun
  records := .nil
  carried := .nil
  toHost _ := ⟨fun _ => rfl, fun _ _ => rfl⟩
  fromHost _ := ⟨rfl, fun _ _ _ => rfl⟩

theorem Inv.of_same (h : Inv urb reqs limit s) (hsame : SameBytes s t) (hqueued : t.Queued)
    (harrived : s.arrived ≤ t.arrived) : Inv urb reqs limit t := by
  have hbuf : (fun i => (t.reqs i).buf) = fun i => (s.reqs i).buf := funext hsame.buf
  have hactual : (fun i => (t.reqs i).actual) = fun i => (s.reqs i).actual := funext hsame.actual
  constructor
  case queued => exact hqueued
  case flags => rw [hsame.urb]; exact h.flags
  case urbLength => rw [hsame.urb]; exact h.urbLength
  case reqLength => exact fun i => (hsame.length i).trans (h.reqLength i)
  case urb_le => rw [hsame.urb]; exact h.urb_le
  case req_le => exact fun i => hsame.actual i ▸ hsame.length i ▸ h.req_le i
  case urbActual => rw [hsame.urb, hsame.moved]; exact h.urbActual
  case sent => rw [hsame.sent, hsame.moved]; exact h.sent
  case left => rw [hsame.limit, hsame.moved]; exact h.left
  case nonneg => rw [hsame.limit]; exact h.nonneg
  case known =>
    rw [hsame.moved]
    exact fun x hx => (h.known x hx).trans_le harrived
  case records => rw [hactual, hsame.moved]; exact h.records
  case carried => rw [hbuf, hsame.urb, hsame.moved]; exact h.carried
  case toHost =>
    intro hdir
    rw [hsame.urb]
    exact ⟨fun i => (hsame.buf i).trans ((h.toHost hdir).1 i), (h.toHost hdir).2⟩
  case fromHost =>
    intro hdir
    rw [hsame.urb]
    refine ⟨(h.fromHost hdir).1, fun i p hp => ?_⟩
    rw [hsame.actual] at hp
    rw [hsame.buf]
    exact (h.fromHost hdir).2 i p hp

/-- The step of the invariant that moves bytes. -/
theorem Inv.move (h : Inv urb reqs limit s) (hlimit : limit < 2147483648) (hi : i < s.arrived)
    {len : ℕ} (hhost : len ≤ s.urb.hostLen) (hdev : len ≤ (s.reqs i).devLen)
    (hleft : len ≤ s.limit) : Inv urb reqs limit (s.move i len) := by
  have hlen : len < 2147483648 := by
    have := h.left
    omega
  rw [s.move_eq i hlen]
  have hurb := h.urb_le
  have hreq := h.req_le i
  rw [Urb.hostLen] at hhost
  rw [Request.devLen] at hdev
  constructor
  case flags => exact h.flags
  case urbLength => exact h.urbLength
  case reqLength =>
    exact (Function.forall_update_iff s.reqs fun j req => req.length = (reqs j).length).mpr
      ⟨h.reqLength i, fun j _ => h.reqLength j⟩
  case urb_le => simp only; omega
  case req_le =>
    exact (Function.forall_update_iff s.reqs fun _ req => req.actual ≤ req.length).mpr
      ⟨by simp only; omega, fun j _ => h.req_le j⟩
  case urbActual =>
    simp only [h.urbActual, List.length_append, length_span]
    omega
  case sent =>
    simp only [h.sent, List.length_append, length_span]
    omega
  case left =>
    have := h.left
    simp only [List.length_append, length_span]
    omega
  case nonneg => simp only; omega
  case queued => exact h.queued
  case known =>
    intro x hx
    rcases List.mem_append.mp hx with hold | hnew
    · exact h.known x hold
    · rw [(mem_span.mp hnew).1]
      exact hi
  case records =>
    simp only [actual_update]
    exact h.records.advance i len
  case carried =>
    simp only [buf_update]
    cases hdir : s.urb.dirIn with
    | true =>
      rw [if_pos rfl, if_pos rfl, Function.update_eq_self i fun j => (s.reqs j).buf, h.urbActual]
      exact h.carried.pull i _ len
    | false =>
      rw [if_neg Bool.false_ne_true, if_neg Bool.false_ne_true, h.urbActual]
      exact h.carried.push h.records i len
  case toHost =>
    intro hdir
    obtain ⟨hbuf, hnear⟩ := h.toHost hdir
    simp only [h.dirIn_eq, if_pos hdir]
    constructor
    · exact (Function.forall_update_iff s.reqs fun j req => req.buf = (reqs j).buf).mpr
        ⟨hbuf i, fun j _ => hbuf j⟩
    · intro p hp
      have hactual := h.urbActual
      rw [copy_outside (by omega), hnear p (by omega)]
  case fromHost =>
    intro hdir
    obtain ⟨hnear, hbuf⟩ := h.fromHost hdir
    simp only [h.dirIn_eq, if_neg hdir]
    refine ⟨hnear, fun j p hp => ?_⟩
    by_cases hj : j = i
    · subst hj
      simp only [Function.update_self] at hp ⊢
      have hle := h.records.le j
      rw [copy_outside (by omega), hbuf j p (by omega)]
    · simp only [Function.update_of_ne hj] at hp ⊢
      exact hbuf j p hp

end

/-! ## A round -/

section

variable {urb : Urb} {reqs : ℕ → Request} {limit : ℤ} {s t : State} {i : ℕ} {rest : List ℕ}

theorem State.moveSome_queue (s : State) (i len : ℕ) :
    (s.moveSome i len).before = s.before ∧ (s.moveSome i len).rest = s.rest ∧
      (s.moveSome i len).arrived = s.arrived := by
  simp only [State.moveSome, State.move]
  split_ifs <;> exact ⟨rfl, rfl, rfl⟩

theorem State.settle_queue (s : State) (i hostLen devLen : ℕ) (isShort : Bool) :
    (s.settle i hostLen devLen isShort).before = s.before ∧
      (s.settle i hostLen devLen isShort).rest = s.rest ∧
      (s.settle i hostLen devLen isShort).arrived = s.arrived := by
  cases isShort <;> exact ⟨rfl, rfl, rfl⟩

/-- A request is left in the queue, and the loop goes on behind some of it. -/
theorem Inv.walk (h : Inv urb reqs limit s) {before rest : List ℕ}
    (hq : before ++ rest = s.before ++ s.rest) :
    Inv urb reqs limit { s with before := before, rest := rest } := by
  refine h.of_same ⟨rfl, rfl, rfl, rfl, fun _ => rfl, fun _ => rfl, fun _ => rfl⟩ ?_ (Nat.le_refl _)
  intro j hj
  exact h.queued j (hq ▸ hj)

theorem Inv.moveSome (h : Inv urb reqs limit s) (hlimit : limit < 2147483648)
    (hi : i < s.arrived) {len : ℕ} (hhost : len ≤ s.urb.hostLen) (hdev : len ≤ (s.reqs i).devLen)
    (hleft : len ≤ s.limit) : Inv urb reqs limit (s.moveSome i len) := by
  rw [State.moveSome]
  split
  · exact h
  · exact h.move hlimit hi hhost hdev hleft

/-- The end of a round, where no bytes move. -/
theorem Inv.finish (h : Inv urb reqs limit s) (hs : s.rest = i :: rest) (hostLen devLen : ℕ)
    (isShort rescan : Bool) (e : Interlude) :
    Inv urb reqs limit ((s.settle i hostLen devLen isShort).conclude i rest rescan e) := by
  obtain ⟨hbefore, hrest, harrived⟩ := s.settle_queue i hostLen devLen isShort
  have hqueued : (s.settle i hostLen devLen isShort).Queued := by
    rw [State.Queued, hbefore, hrest, harrived]
    exact h.queued
  obtain ⟨hmore, hconcluded⟩ := hqueued.conclude (hrest.trans hs) rescan e
  have hsame := (s.settle_same i hostLen devLen isShort).trans
    (State.conclude_same _ i rest rescan e)
  exact h.of_same hsame hconcluded (harrived ▸ hmore)

/-- What a round does: it only walks along the queue, or it moves a portion that there is on
both sides and within the limit. -/
theorem Inv.visit_cases (h : Inv urb reqs limit s) (hlimit : limit < 2147483648)
    (hs : s.rest = i :: rest) (streamEnEp : BitVec 32) (ep : Endpoint) (e : Interlude) :
    (∃ before rest', before ++ rest' = s.before ++ s.rest ∧ rest'.length < s.rest.length ∧
      s.visit streamEnEp ep i rest e = { s with before := before, rest := rest' }) ∨
    ∃ (p : Portion) (rescan : Bool), p.len ≤ s.urb.hostLen ∧ p.len ≤ (s.reqs i).devLen ∧
      p.len ≤ s.limit ∧ (p.isShort = false → 0 < p.len) ∧
      s.visit streamEnEp ep i rest e =
        ((s.moveSome i p.len).settle i s.urb.hostLen (s.reqs i).devLen p.isShort).conclude
          i rest rescan e := by
  have hmax : s.limit < 2147483648 := by
    have := h.left
    omega
  simp only [State.visit]
  split
  · exact .inl ⟨_, _, by simp [hs], by simp [hs], rfl⟩
  · split
    · exact .inl ⟨_, _, by simp [hs], by simp [hs], rfl⟩
    · next p hp =>
      obtain ⟨hlen, hleft, hmoves⟩ := portion_spec ep.pos h.nonneg hmax hp
      exact .inr ⟨p, _, hlen.trans (min_le_left _ _), hlen.trans (min_le_right _ _), hleft,
        hmoves, rfl⟩

/-- The step lemma. -/
theorem Inv.visit (h : Inv urb reqs limit s) (hlimit : limit < 2147483648)
    (hs : s.rest = i :: rest) (streamEnEp : BitVec 32) (ep : Endpoint) (e : Interlude) :
    Inv urb reqs limit (s.visit streamEnEp ep i rest e) := by
  rcases h.visit_cases hlimit hs streamEnEp ep e with
    ⟨before, rest', hq, -, hvisit⟩ | ⟨p, rescan, hhost, hdev, hleft, -, hvisit⟩
  · rw [hvisit]
    exact h.walk hq
  · rw [hvisit]
    have hi : i < s.arrived := h.queued i (by simp [hs])
    obtain ⟨-, hrest, -⟩ := s.moveSome_queue i p.len
    exact (h.moveSome hlimit hi hhost hdev hleft).finish (hrest.trans hs) _ _ _ _ e

theorem shortStatus_ne (toHost : Bool) (hostLen devLen : ℕ) :
    (shortStatus toHost hostLen devLen).2 ≠ -eInProgress := by
  unfold shortStatus
  split_ifs
  all_goals simp [eInProgress, eOverflow]

/-- A short packet ends the loop, as it sets the status. -/
theorem rest_conclude_of_short (s : State) (i : ℕ) (rest : List ℕ) (hostLen devLen : ℕ)
    (rescan : Bool) (e : Interlude) :
    ((s.settle i hostLen devLen true).conclude i rest rescan e).rest = [] := by
  have hstatus : (s.settle i hostLen devLen true).status ≠ -eInProgress :=
    shortStatus_ne s.urb.dirIn hostLen devLen
  simp only [State.conclude, if_pos hstatus]
  split <;> rfl

theorem State.hostLen_moveSome (s : State) (i : ℕ) {len : ℕ} (hlen : len < 2147483648) :
    (s.moveSome i len).urb.hostLen = s.urb.hostLen - len := by
  rw [State.moveSome]
  split
  · next hzero => rw [hzero, Nat.sub_zero]
  · rw [s.move_eq i hlen, Urb.hostLen, Urb.hostLen]
    simp only
    omega

/-- Every round has less to move or fewer requests ahead. -/
theorem Inv.visit_lt (h : Inv urb reqs limit s) (hlimit : limit < 2147483648)
    (hs : s.rest = i :: rest) (streamEnEp : BitVec 32) (ep : Endpoint) (e : Interlude) :
    toLex ((s.visit streamEnEp ep i rest e).urb.hostLen,
        (s.visit streamEnEp ep i rest e).rest.length) <
      toLex (s.urb.hostLen, s.rest.length) := by
  rw [Prod.Lex.toLex_lt_toLex]
  rcases h.visit_cases hlimit hs streamEnEp ep e with
    ⟨before, rest', -, hless, hvisit⟩ | ⟨p, rescan, hhost, hdev, hleft, hmoves, hvisit⟩
  · rw [hvisit]
    exact .inr ⟨rfl, hless⟩
  · have hlen : p.len < 2147483648 := by
      have := h.left
      omega
    have hurb : (s.visit streamEnEp ep i rest e).urb = (s.moveSome i p.len).urb := by
      rw [hvisit]
      exact ((State.settle_same _ i _ _ _).trans (State.conclude_same _ i rest rescan e)).urb
    have hhostLen := s.hostLen_moveSome i hlen
    cases hshort : p.isShort with
    | false =>
      have hpos := hmoves hshort
      left
      simp only [hurb, hhostLen]
      omega
    | true =>
      have hrest : (s.visit streamEnEp ep i rest e).rest.length < s.rest.length := by
        rw [hvisit, hshort, rest_conclude_of_short, hs]
        exact Nat.succ_pos _
      rcases Nat.eq_zero_or_pos p.len with hzero | hpos
      · right
        simp only [hurb, hhostLen]
        exact ⟨by omega, hrest⟩
      · left
        simp only [hurb, hhostLen]
        omega

theorem step_eq_none {streamEnEp : BitVec 32} {ep : Endpoint} {e : Interlude} :
    step streamEnEp ep s e = none ↔ s.rest = [] := by
  unfold step
  split
  · next hrest => simp [hrest]
  · next hrest => simp [hrest]

/-- A round visits the request ahead. -/
theorem step_eq_some {streamEnEp : BitVec 32} {ep : Endpoint} {e : Interlude}
    (ht : step streamEnEp ep s e = some t) :
    ∃ i rest, s.rest = i :: rest ∧ t = s.visit streamEnEp ep i rest e := by
  unfold step at ht
  split at ht
  · cases ht
  · next i rest hs => exact ⟨i, rest, hs, (Option.some.inj ht).symm⟩

theorem Inv.step {streamEnEp : BitVec 32} {ep : Endpoint} {e : Interlude}
    (hlimit : limit < 2147483648) (h : Inv urb reqs limit s)
    (ht : DummyHcd.step streamEnEp ep s e = some t) : Inv urb reqs limit t := by
  obtain ⟨i, rest, hs, rfl⟩ := step_eq_some ht
  exact h.visit hlimit hs streamEnEp ep e

theorem Inv.step_lt {streamEnEp : BitVec 32} {ep : Endpoint} {e : Interlude}
    (hlimit : limit < 2147483648) (h : Inv urb reqs limit s)
    (ht : DummyHcd.step streamEnEp ep s e = some t) :
    toLex (t.urb.hostLen, t.rest.length) < toLex (s.urb.hostLen, s.rest.length) := by
  obtain ⟨i, rest, hs, rfl⟩ := step_eq_some ht
  exact h.visit_lt hlimit hs streamEnEp ep e

theorem Inv.conserves (h : Inv urb reqs limit s) : Conserves urb reqs limit s where
  urb_le := h.urb_le
  req_le := h.req_le
  lengths := ⟨h.urbLength, h.reqLength⟩
  sent_eq := by
    have hactual := h.urbActual
    have hsent := h.sent
    omega
  sum_eq := by
    have hsum := h.records.sum_eq fun x hx => Finset.mem_range.mpr (h.known x hx)
    rw [Finset.sum_sub_distrib, ← Nat.cast_sum, ← Nat.cast_sum, hsum, h.sent]
    omega
  sent_le := by
    have hleft := h.left
    have hsent := h.sent
    have hnonneg := h.nonneg
    omega
  ledger := ⟨h.sent, h.records⟩
  carried := h.carried
  toHost := h.toHost
  fromHost := h.fromHost

end

/-- The run lemma: the loop keeps the property in every run, and comes to its end. -/
theorem transfer_conserves (streamEnEp : BitVec 32) (ep : Endpoint) (urb : Urb)
    (hurb : urb.actualLength ≤ urb.transferBufferLength) (reqs : ℕ → Request)
    (hreqs : ∀ i, (reqs i).actual ≤ (reqs i).length) (n : ℕ) (limit : BitVec 32)
    (hlimit : 0 ≤ limit.toInt) (status : ℤ) :
    (∀ es t, transfer streamEnEp ep urb reqs n limit status es = some t →
      Conserves urb reqs limit.toInt t) ∧
    ∀ es : ℕ → Interlude, ∃ k t,
      transfer streamEnEp ep urb reqs n limit status ((List.range k).map es) = some t ∧
        t.rest = [] := by
  have hmax : limit.toInt < 2147483648 := by
    have hlt := limit.toInt_lt
    omega
  have hstart := Inv.start hurb hreqs hlimit n status
  constructor
  · intro es t ht
    exact (runs_invariant (fun s e t => Inv.step hmax) hstart ht).conserves
  · intro es
    obtain ⟨k, t, ht, hnone⟩ := runs_terminate wellFounded_lt
      (fun s : State => toLex (s.urb.hostLen, s.rest.length))
      (fun s e t => Inv.step hmax) (fun s e t => Inv.step_lt hmax) hstart es
    exact ⟨k, t, ht, step_eq_none.mp hnone⟩

/-- Five bytes of the host. -/
def fiveBytes : Urb := ⟨1, 2, 0, 0, fun p => BitVec.ofNat 8 p, 5, 0⟩

def threeWanted : Request := ⟨fun _ => 0, 3, 0, false, -eInProgress, 0⟩

theorem transfer_conserves_overflow :
    ∃ t, transfer 0 ⟨512, by decide⟩ fiveBytes (fun _ => threeWanted) 1 10 (-eInProgress)
        [⟨fun _ => true, 0⟩] = some t ∧ t.rest = [] ∧ t.sent = 3 ∧
      Conserves fiveBytes (fun _ => threeWanted) (10 : BitVec 32).toInt t := by
  have h := transfer_conserves 0 ⟨512, by decide⟩ fiveBytes (by decide) (fun _ => threeWanted)
    (fun _ => by decide) 1 10 (by decide) (-eInProgress)
  exact ⟨_, rfl, by decide +kernel, by decide +kernel, h.1 [⟨fun _ => true, 0⟩] _ rfl⟩

end FuzzUSB.DummyHcd
