import FuzzUSB.CLayout
import FuzzUSB.Ledger
import FuzzUSB.Transition
import FuzzUSB.UsbtestTypes

/-!
# Mutated payloads of the usbtest driver

`host_fuzz` decodes the hex text of a request into a buffer that `simple_io` finds through
`dev->host_data`. What `hex_to_bin` makes of a character is a parameter.
-/

namespace FuzzUSB.Usbtest.HostFuzz
open CLayout (Byte)
open Transition

def ENOENT : ℤ := 2
def ETIMEDOUT : ℤ := 110

def GUARD_BYTE : Byte := 0xA5

/-- `URB_SHORT_NOT_OK`, `URB_NO_TRANSFER_DMA_MAP` and `URB_ZERO_PACKET`. -/
def urbShortNotOk : U32 := 1
def urbZeroPacket : U32 := 0x40

/-- `usb_pipein`. -/
def usbPipein (pipe : U32) : Bool := pipe.getLsbD 7

/-- The buffer that the text is decoded into, as `dev->host_data` points to it. -/
structure HexBuffer where
  object : ℕ
  /-- What is read from it on, past its end too. -/
  bytes : ℕ → Byte

/-- The objects of the driver and `dev->host_data`. -/
structure Kernel where
  ledger : Ledger
  hostData : Option HexBuffer

/-- What `host_fuzz` uses of a `struct urb`. Its buffer is the one at `offset` in the object
`transferBuffer`, where there is one. -/
structure FuzzUrb where
  urb : ℕ
  pipe : U32
  transferFlags : U32
  transferBuffer : Option ℕ
  offset : ℕ
  transferBufferLength : U32
  contents : ℕ → Byte

/-- The bytes that are transferred from the buffer. -/
def FuzzUrb.payload (urb : FuzzUrb) : List Byte :=
  (List.range urb.transferBufferLength.toNat).map urb.contents

/-- How one transfer goes: what `usb_submit_urb` returns, whether the URB completes in time,
its status, and what `simple_check_buf` says of data that came in. -/
structure IoAnswer where
  submit : ℤ
  completed : Bool
  status : ℤ
  check : ℤ

/-- What one call of `host_fuzz` meets: whether each allocation succeeds, how many bytes
`copy_from_user` leaves, the text, the contents of fresh memory, the transfers, and the
pattern and packet size that `simple_fill_buf` reads. -/
structure Env where
  usbAllocUrb : Bool
  transferBuffer : Bool
  kernBuf : Bool
  copyFromUser : U32
  text : ℕ → Byte
  hex : Bool
  fresh : ℕ → Byte
  io : ℕ → IoAnswer
  pattern : U32
  maxpacket : ℕ

/-! ## Objects -/

/-- A call that creates an object, or returns `NULL`. -/
def kmalloc (ok : Bool) (k : Kernel) : Option ℕ × Kernel :=
  if ok then (some k.ledger.created, { k with ledger := k.ledger.create }) else (none, k)

def kfree (object : Option ℕ) (k : Kernel) : Kernel :=
  match object with
  | none => k
  | some object => { k with ledger := k.ledger.release object }

/-- `usbtest_alloc_urb`, for a bulk pipe. -/
def usbtestAllocUrb (env : Env) (pipe : U32) (bytes : ℕ) (transferFlags : U32) (offset : ℕ)
    (k : Kernel) : Option FuzzUrb × Kernel :=
  match kmalloc env.usbAllocUrb k with
  | (none, k) => (none, k)
  | (some urb, k) =>
    let flags := if usbPipein pipe then transferFlags ||| urbShortNotOk else transferFlags
    let urb : FuzzUrb := ⟨urb, pipe, flags, none, offset, BitVec.ofNat 32 bytes, env.fresh⟩
    if bytes + offset = 0 then (some urb, k)
    else
      -- `usb_alloc_coherent` with `URB_NO_TRANSFER_DMA_MAP`
      match kmalloc env.transferBuffer k with
      | (none, k) => (none, kfree (some urb.urb) k)
      | (some buffer, k) =>
        let fill := if usbPipein pipe then GUARD_BYTE else 0
        (some { urb with
          transferBuffer := some buffer
          contents := fun i => if i < bytes then fill else env.fresh i }, k)

/-- `simple_free_urb`. -/
def simpleFreeUrb (urb : FuzzUrb) (k : Kernel) : Kernel :=
  kfree (some urb.urb) (kfree urb.transferBuffer k)

/-! ## Transfers -/

/-- `fz_simple_fill_buf`. -/
def fzSimpleFillBuf (urb : FuzzUrb) (data : ℕ → Byte) : FuzzUrb :=
  { urb with contents := fun i =>
      if i < urb.transferBufferLength.toNat then data i else urb.contents i }

/-- `simple_fill_buf`, where the packet size is not 0. -/
def simpleFillBuf (env : Env) (urb : FuzzUrb) : FuzzUrb :=
  { urb with contents := fun i =>
      if i < urb.transferBufferLength.toNat then
        if env.pattern = 1 then BitVec.ofNat 8 (i % env.maxpacket % 63) else 0
      else urb.contents i }

/-- What an URB of `simple_io` carries when it is submitted. -/
def prepare (env : Env) (hostData : Option HexBuffer) (urb : FuzzUrb) : FuzzUrb :=
  if usbPipein urb.pipe then urb
  else
    let urb :=
      match hostData with
      | some hex => fzSimpleFillBuf urb hex.bytes
      | none => simpleFillBuf env urb
    { urb with transferFlags := urb.transferFlags ||| urbZeroPacket }

/-- The result of one transfer. -/
def transferResult (urb : FuzzUrb) (a : IoAnswer) : ℤ :=
  let retval :=
    if a.completed then a.status
    else if a.status = -ENOENT then -ETIMEDOUT else a.status
  if retval = 0 ∧ usbPipein urb.pipe then a.check else retval

/-- The length of the next transfer, in `int` arithmetic. -/
def nextLength (vary max len : U32) : U32 :=
  if vary = 0 then len
  else
    let len := (len + vary).srem max
    if len = 0 then if vary.slt max then vary else max else len

/-- The loop of `simple_io` with `n` iterations left: its result and the URBs as they were
submitted. -/
def simpleIoLoop (env : Env) (hostData : Option HexBuffer) (vary max : U32) :
    ℕ → ℕ → FuzzUrb → ℤ × List FuzzUrb
  | 0, _, _ => (0, [])
  | n + 1, i, urb =>
    let urb := prepare env hostData urb
    let a := env.io i
    if a.submit ≠ 0 then (a.submit, [urb])
    else
      let retval := transferResult urb a
      if retval ≠ 0 then (retval, [urb])
      else
        let next := { urb with
          transferBufferLength := nextLength vary max urb.transferBufferLength }
        let (retval, sent) := simpleIoLoop env hostData vary max n (i + 1) next
        (retval, urb :: sent)

/-- `simple_io`, with `iterations` as the `int` that its parameter is. -/
def simpleIo (env : Env) (urb : FuzzUrb) (iterations vary : U32) (k : Kernel) :
    ℤ × List FuzzUrb :=
  simpleIoLoop env k.hostData vary urb.transferBufferLength iterations.toInt.toNat 0 urb

/-! ## The payload -/

variable (hexToBin : Byte → Option (BitVec 4))

/-- The bytes that `hex2bin` writes: those of the first `count` pairs, up to the first
character that is no hex digit. -/
def hex2bin (src : ℕ → Byte) : ℕ → List Byte
  | 0 => []
  | count + 1 =>
    match hexToBin (src 0), hexToBin (src 1) with
    | some hi, some lo => (hi ++ lo) :: hex2bin (fun i => src (i + 2)) count
    | _, _ => []

/-- The kernel copy of the text. -/
def kernText (env : Env) (param : UsbtestParam32) : ℕ → Byte := fun i =>
  if i < param.dataSize.toNat then env.text i else 0

/-- What the text of the request decodes to. -/
def decoded (env : Env) (param : UsbtestParam32) : List Byte :=
  hex2bin hexToBin (kernText env param) (param.dataSize.toNat / 2)

/-- The decoding of the text: `none` where `host_fuzz` returns `-ENOMEM`. -/
def decodeText (env : Env) (param : UsbtestParam32) (k : Kernel) : Option HexBuffer × Kernel :=
  match kmalloc env.kernBuf k with
  | (none, k) => (none, k)
  | (some kernBuf, k) =>
    if env.copyFromUser ≠ 0 then (none, k)
    else
      match kmalloc env.hex k with
      | (none, k) => (none, kfree (some kernBuf) k)
      | (some hex, k) =>
        -- The result of `hex2bin` is not looked at.
        let bytes := decoded hexToBin env param
        (some ⟨hex, fun i => bytes[i]?.getD (env.fresh i)⟩, kfree (some kernBuf) k)

/-- What a call returns, submits and leaves behind. -/
structure Outcome where
  retval : ℤ
  sent : List FuzzUrb
  kernel : Kernel

/-- The end of `host_fuzz`, from `simple_io` on. -/
def transferAndFree (env : Env) (param : UsbtestParam32) (urb : FuzzUrb) (hex : Option HexBuffer)
    (k : Kernel) : Outcome :=
  let (retval, sent) := simpleIo env urb param.iterations 0 k
  let k := kfree (hex.map HexBuffer.object) (simpleFreeUrb urb k)
  ⟨retval, sent, { k with hostData := none }⟩

/-- The `bytes` of the URB; `data_size/2-1` is `unsigned`. -/
def urbBytes (param : UsbtestParam32) : U32 :=
  if param.dataSize ≠ 0 then param.dataSize / 2 - 1 else param.length

/-- `host_fuzz`. -/
def hostFuzz (env : Env) (param : UsbtestParam32) (pipe : U32) (k : Kernel) : Outcome :=
  match usbtestAllocUrb env pipe (urbBytes param).toNat 0 1 k with
  | (none, k) => ⟨-ENOMEM, [], k⟩
  | (some urb, k) =>
    if param.dataSize ≠ 0 then
      match decodeText hexToBin env param k with
      | (none, k) => ⟨-ENOMEM, [], k⟩
      | (some hex, k) => transferAndFree env param urb (some hex) { k with hostData := some hex }
    else transferAndFree env param urb none k

/-! ## What is transferred -/

variable {hexToBin} {env : Env} {param : UsbtestParam32} {pipe : U32}

theorem length_hex2bin_le (hexToBin : Byte → Option (BitVec 4)) (src : ℕ → Byte) (count : ℕ) :
    (hex2bin hexToBin src count).length ≤ count := by
  induction count generalizing src with
  | zero => exact Nat.le_refl 0
  | succ count ih =>
    unfold hex2bin
    split
    · exact Nat.succ_le_succ (ih _)
    · exact Nat.zero_le _

/-- A byte is written where every character up to its own is a hex digit. -/
theorem lt_length_hex2bin {src : ℕ → Byte} {count i : ℕ} :
    i < (hex2bin hexToBin src count).length ↔
      i < count ∧ ∀ j < 2 * (i + 1), (hexToBin (src j)).isSome := by
  induction count generalizing src i with
  | zero => simp [hex2bin]
  | succ count ih =>
    unfold hex2bin
    split
    case h_1 hi lo hhi hlo =>
      cases i with
      | zero =>
        simp only [List.length_cons, Nat.zero_lt_succ, true_and, true_iff]
        intro j hj
        obtain rfl | rfl : j = 0 ∨ j = 1 := by omega
        · simp [hhi]
        · simp [hlo]
      | succ i =>
        rw [List.length_cons, Nat.succ_lt_succ_iff, ih, Nat.succ_lt_succ_iff]
        refine and_congr_right fun _ => ⟨fun h j hj => ?_, fun h j hj => h (j + 2) (by omega)⟩
        match j with
        | 0 => simp [hhi]
        | 1 => simp [hlo]
        | j + 2 => exact h j (by omega)
    case h_2 hnone =>
      simp only [List.length_nil, Nat.not_lt_zero, false_iff, not_and]
      intro _ h
      obtain ⟨hi, hhi⟩ := Option.isSome_iff_exists.mp (h 0 (by omega))
      obtain ⟨lo, hlo⟩ := Option.isSome_iff_exists.mp (h 1 (by omega))
      exact hnone hi lo hhi hlo

theorem hex2bin_congr {src src' : ℕ → Byte} {count : ℕ} (h : ∀ i < 2 * count, src i = src' i) :
    hex2bin hexToBin src count = hex2bin hexToBin src' count := by
  induction count generalizing src src' with
  | zero => rfl
  | succ count ih =>
    have htail : hex2bin hexToBin (fun i => src (i + 2)) count =
        hex2bin hexToBin (fun i => src' (i + 2)) count := ih fun i hi => h (i + 2) (by omega)
    rw [hex2bin, hex2bin, h 0 (by omega), h 1 (by omega), htail]

/-- The NUL behind the kernel copy is not decoded. -/
theorem decoded_eq : decoded hexToBin env param =
    hex2bin hexToBin env.text (param.dataSize.toNat / 2) := by
  apply hex2bin_congr
  intro i hi
  exact if_pos (by omega)

@[simp] theorem prepare_pipe (hostData : Option HexBuffer) (urb : FuzzUrb) :
    (prepare env hostData urb).pipe = urb.pipe := by
  unfold prepare
  split
  · rfl
  · cases hostData <;> rfl

@[simp] theorem prepare_transferBufferLength (hostData : Option HexBuffer) (urb : FuzzUrb) :
    (prepare env hostData urb).transferBufferLength = urb.transferBufferLength := by
  unfold prepare
  split
  · rfl
  · cases hostData <;> rfl

theorem payload_prepare {hex : HexBuffer} {urb : FuzzUrb} (hout : usbPipein urb.pipe = false) :
    (prepare env (some hex) urb).payload =
      (List.range urb.transferBufferLength.toNat).map hex.bytes := by
  rw [FuzzUrb.payload, prepare_transferBufferLength]
  apply List.map_congr_left
  intro i hi
  have hi : i < urb.transferBufferLength.toNat := List.mem_range.mp hi
  simp [prepare, hout, fzSimpleFillBuf, hi]

/-- Every URB to an OUT endpoint carries what `dev->host_data` points to. -/
theorem mem_simpleIoLoop {hex : HexBuffer} {max : U32} {n i : ℕ} {urb u : FuzzUrb}
    (hout : usbPipein urb.pipe = false)
    (hu : u ∈ (simpleIoLoop env (some hex) 0 max n i urb).2) :
    u.transferBufferLength = urb.transferBufferLength ∧
      u.payload = (List.range urb.transferBufferLength.toNat).map hex.bytes := by
  induction n generalizing i urb with
  | zero => cases hu
  | succ n ih =>
    let next : FuzzUrb := { prepare env (some hex) urb with
      transferBufferLength := nextLength 0 max urb.transferBufferLength }
    have hcases : u = prepare env (some hex) urb ∨
        u ∈ (simpleIoLoop env (some hex) 0 max n (i + 1) next).2 := by
      unfold simpleIoLoop at hu
      dsimp only at hu
      split_ifs at hu
      · exact .inl (List.mem_singleton.mp hu)
      · exact .inl (List.mem_singleton.mp hu)
      · rw [prepare_transferBufferLength] at hu
        exact List.mem_cons.mp hu
    rcases hcases with rfl | hu
    · exact ⟨prepare_transferBufferLength _ _, payload_prepare hout⟩
    · have hpipe : usbPipein next.pipe = false := by
        rw [show next.pipe = urb.pipe from prepare_pipe _ _, hout]
      have hlen : next.transferBufferLength = urb.transferBufferLength := by
        simp [next, nextLength]
      have hrest := ih hpipe hu
      rw [hlen] at hrest
      exact hrest

theorem simpleIoLoop_ne_nil (env : Env) (hostData : Option HexBuffer) (vary max : U32) {n : ℕ}
    (i : ℕ) (urb : FuzzUrb) (hn : 0 < n) : (simpleIoLoop env hostData vary max n i urb).2 ≠ [] := by
  obtain ⟨n, rfl⟩ := Nat.exists_eq_succ_of_ne_zero hn.ne'
  unfold simpleIoLoop
  dsimp only
  split_ifs <;> simp

/-! ## The objects of a call -/

section

variable {live : List ℕ} {k : Kernel}

/-- An URB is allocated with its buffer, or not at all. -/
theorem usbtestAllocUrb_cases (env : Env) (pipe : U32) (bytes : ℕ) (flags : U32) (k : Kernel) :
    (env.usbAllocUrb = true ∧ env.transferBuffer = true ∧ ∃ urb buffer k',
      usbtestAllocUrb env pipe bytes flags 1 k = (some urb, k') ∧ urb.pipe = pipe ∧
      urb.transferBufferLength = BitVec.ofNat 32 bytes ∧ urb.transferBuffer = some buffer ∧
      k'.hostData = k.hostData ∧
      ∀ live, k.ledger.Holds live → k'.ledger.Holds (buffer :: urb.urb :: live)) ∨
    (¬(env.usbAllocUrb = true ∧ env.transferBuffer = true) ∧ ∃ k',
      usbtestAllocUrb env pipe bytes flags 1 k = (none, k') ∧ k'.hostData = k.hostData ∧
      ∀ live, k.ledger.Holds live → k'.ledger.Holds live) := by
  unfold usbtestAllocUrb kmalloc
  cases hurb : env.usbAllocUrb with
  | false => exact .inr ⟨by simp, k, rfl, rfl, fun _ => id⟩
  | true =>
    cases hbuffer : env.transferBuffer with
    | false => exact .inr ⟨by simp, _, rfl, rfl, fun live h => h.create.release⟩
    | true => exact .inl ⟨rfl, rfl, _, _, _, rfl, rfl, rfl, rfl, rfl, fun live h => h.create.create⟩

/-- The text is decoded, or the kernel copy of it stays allocated where it could not be
filled. -/
theorem decodeText_cases (hexToBin : Byte → Option (BitVec 4)) (env : Env)
    (param : UsbtestParam32) (k : Kernel) :
    (env.kernBuf = true ∧ env.copyFromUser = 0 ∧ env.hex = true ∧ ∃ hex k',
      decodeText hexToBin env param k = (some hex, k') ∧
      (∀ i, hex.bytes i = (decoded hexToBin env param)[i]?.getD (env.fresh i)) ∧
      ∀ live, k.ledger.Holds live → k'.ledger.Holds (hex.object :: live)) ∨
    (¬(env.kernBuf = true ∧ env.copyFromUser = 0 ∧ env.hex = true) ∧ ∃ k' lost,
      decodeText hexToBin env param k = (none, k') ∧ k'.hostData = k.hostData ∧
      ∀ live, k.ledger.Holds live → k'.ledger.Holds (lost ++ live)) := by
  unfold decodeText kmalloc
  cases hkern : env.kernBuf with
  | false => exact .inr ⟨by simp, k, [], rfl, rfl, fun _ => id⟩
  | true =>
    by_cases hcopy : env.copyFromUser = 0
    · cases hhex : env.hex with
      | false =>
        simp only [hcopy, ne_eq, not_true_eq_false, if_false]
        exact .inr ⟨by simp, _, [], rfl, rfl, fun live h => h.create.release⟩
      | true =>
        simp only [hcopy, ne_eq, not_true_eq_false, if_false]
        refine .inl ⟨trivial, trivial, trivial, _, _, rfl, fun i => rfl, fun live h => ?_⟩
        exact (h.create.create.perm (List.Perm.swap _ _ _)).release
    · simp only [ne_eq, hcopy, not_false_eq_true, if_true]
      exact .inr ⟨by simp, _, [_], rfl, rfl, fun live h => h.create⟩

/-- The end of `host_fuzz` releases what it is given. -/
theorem transferAndFree_holds {urb : FuzzUrb} {buffer : ℕ} {hex : Option HexBuffer}
    (hbuffer : urb.transferBuffer = some buffer)
    (h : k.ledger.Holds ((hex.map HexBuffer.object).toList ++ buffer :: urb.urb :: live)) :
    (transferAndFree env param urb hex k).kernel.ledger.Holds live := by
  cases hex with
  | none => simpa [transferAndFree, simpleFreeUrb, kfree, hbuffer] using h.release.release
  | some hex =>
    have hlast : ([buffer, urb.urb] ++ [hex.object]).Perm [hex.object, buffer, urb.urb] :=
      List.perm_append_comm
    have h := h.perm (hlast.append_right live)
    simpa [transferAndFree, simpleFreeUrb, kfree, hbuffer] using h.release.release.release
/-- The text reaches a buffer for it. -/
def Env.Decodes (env : Env) : Prop :=
  env.kernBuf = true ∧ env.copyFromUser = 0 ∧ env.hex = true

/-- The call runs up to its transfers. -/
def Env.Ready (env : Env) : Prop :=
  (env.usbAllocUrb = true ∧ env.transferBuffer = true) ∧ env.Decodes

instance (env : Env) : Decidable env.Decodes := inferInstanceAs (Decidable (_ ∧ _))

instance (env : Env) : Decidable env.Ready := inferInstanceAs (Decidable (_ ∧ _))

/-- The call has an URB, and is then left while it prepares the text. -/
def Leaks (env : Env) (param : UsbtestParam32) : Prop :=
  (env.usbAllocUrb = true ∧ env.transferBuffer = true) ∧ param.dataSize ≠ 0 ∧ ¬env.Decodes

instance : Decidable (Leaks env param) := inferInstanceAs (Decidable (_ ∧ _))

/-- What a call with hex text submits. -/
theorem hostFuzz_sent (hexToBin : Byte → Option (BitVec 4)) (env : Env)
    (hds : param.dataSize ≠ 0) (pipe : U32) (k : Kernel) :
    (env.Ready ∧ ∃ (urb : FuzzUrb) (hex : HexBuffer), urb.pipe = pipe ∧
      urb.transferBufferLength = urbBytes param ∧
      (∀ i, hex.bytes i = (decoded hexToBin env param)[i]?.getD (env.fresh i)) ∧
      (hostFuzz hexToBin env param pipe k).sent =
        (simpleIoLoop env (some hex) 0 (urbBytes param) param.iterations.toInt.toNat 0 urb).2) ∨
    (¬env.Ready ∧ (hostFuzz hexToBin env param pipe k).sent = []) := by
  unfold hostFuzz
  obtain ⟨hurb, hbuf, urb, buffer, k', heq, hpipe, hlen, -⟩ | ⟨hno, k', heq, -⟩ :=
    usbtestAllocUrb_cases env pipe (urbBytes param).toNat 0 k
  · rw [BitVec.ofNat_toNat, BitVec.setWidth_eq] at hlen
    rw [heq]
    dsimp only
    rw [if_pos hds]
    obtain ⟨hkern, hcopy, hhex, hex, k'', heq', hbytes, -⟩ | ⟨hno, k'', lost, heq', -⟩ :=
      decodeText_cases hexToBin env param k'
    · rw [heq']
      refine .inl ⟨⟨⟨hurb, hbuf⟩, hkern, hcopy, hhex⟩, urb, hex, hpipe, hlen, hbytes, ?_⟩
      rw [← hlen]
      rfl
    · rw [heq']
      exact .inr ⟨fun h => hno h.2, rfl⟩
  · rw [heq]
    exact .inr ⟨fun h => hno h.1, rfl⟩

/-- What a call leaves allocated: nothing, but for the calls that leak. -/
theorem hostFuzz_holds (hexToBin : Byte → Option (BitVec 4)) (env : Env)
    (param : UsbtestParam32) (pipe : U32) (hnone : k.hostData = none) :
    (hostFuzz hexToBin env param pipe k).kernel.hostData = none ∧
    ∃ lost, (lost = [] ↔ ¬Leaks env param) ∧
      ∀ live, k.ledger.Holds live →
        (hostFuzz hexToBin env param pipe k).kernel.ledger.Holds (lost ++ live) := by
  unfold hostFuzz
  obtain ⟨hurb, hbuf, urb, buffer, k', heq, -, -, hbuffer, hdata, hholds⟩ |
    ⟨hno, k', heq, hdata, hholds⟩ :=
    usbtestAllocUrb_cases env pipe (urbBytes param).toNat 0 k
  · rw [heq]
    dsimp only
    by_cases hds : param.dataSize ≠ 0
    · rw [if_pos hds]
      obtain ⟨hkern, hcopy, hhex, hex, k'', heq', -, hholds'⟩ |
        ⟨hfail, k'', lost, heq', hdata', hholds'⟩ :=
        decodeText_cases hexToBin env param k'
      · rw [heq']
        refine ⟨rfl, [], ?_, fun live h => ?_⟩
        · exact iff_of_true rfl fun hleak => hleak.2.2 ⟨hkern, hcopy, hhex⟩
        · exact transferAndFree_holds hbuffer (hholds' _ (hholds live h))
      · rw [heq']
        refine ⟨hdata'.trans (hdata.trans hnone), lost ++ [buffer, urb.urb], ?_, fun live h => ?_⟩
        · exact iff_of_false (by simp) (not_not.mpr ⟨⟨hurb, hbuf⟩, hds, hfail⟩)
        · rw [List.append_assoc]
          exact hholds' _ (hholds live h)
    · rw [if_neg hds]
      refine ⟨rfl, [], ?_, fun live h => ?_⟩
      · exact iff_of_true rfl fun hleak => hds hleak.2.1
      · exact transferAndFree_holds hbuffer (hholds live h)
  · rw [heq]
    refine ⟨hdata.trans hnone, [], ?_, hholds⟩
    exact iff_of_true rfl fun hleak => hno hleak.1

end

/-! ## The payload on the wire -/

/-- What the user's text decodes to. -/
def payloadOf (hexToBin : Byte → Option (BitVec 4)) (env : Env) (param : UsbtestParam32) :
    List Byte :=
  hex2bin hexToBin env.text (param.dataSize.toNat / 2)

/-- The length of the URB does not underflow, and every URB to an OUT endpoint stays within
the decoded buffer and has the length and the bytes of what the text decodes to, or, where the
text is not hexadecimal, nothing that is not decoded. -/
def PayloadKept (hexToBin : Byte → Option (BitVec 4)) (env : Env) (param : UsbtestParam32)
    (pipe : U32) (k : Kernel) : Prop :=
  (urbBytes param).toNat ≤ param.dataSize.toNat / 2 ∧
  (usbPipein pipe = false → ∀ urb ∈ (hostFuzz hexToBin env param pipe k).sent,
    urb.transferBufferLength.toNat ≤ param.dataSize.toNat / 2 ∧
    urb.payload <+: payloadOf hexToBin env param ∧
    ((payloadOf hexToBin env param).length = param.dataSize.toNat / 2 →
      urb.transferBufferLength.toNat = param.dataSize.toNat / 2 ∧
        urb.payload = payloadOf hexToBin env param))

/-- URBs are submitted to an OUT endpoint. -/
def Submits (env : Env) (param : UsbtestParam32) (pipe : U32) : Prop :=
  usbPipein pipe = false ∧ env.Ready ∧ 0 < param.iterations.toInt

instance {pipe : U32} : Decidable (Submits env param pipe) := inferInstanceAs (Decidable (_ ∧ _))

/-- The first `n` characters of the text are hexadecimal digits. -/
def HexUpTo (hexToBin : Byte → Option (BitVec 4)) (env : Env) (n : ℕ) : Prop :=
  ∀ i < n, (hexToBin (env.text i)).isSome

/-- The last of the pairs that are decoded is the only one with a character that is no
hexadecimal digit. -/
def LastPairBad (hexToBin : Byte → Option (BitVec 4)) (env : Env) (param : UsbtestParam32) :
    Prop :=
  HexUpTo hexToBin env (2 * (param.dataSize.toNat / 2 - 1)) ∧
    ¬HexUpTo hexToBin env (2 * (param.dataSize.toNat / 2))

theorem le_length_payloadOf {n : ℕ} (hn : n ≤ param.dataSize.toNat / 2) :
    n ≤ (payloadOf hexToBin env param).length ↔ HexUpTo hexToBin env (2 * n) := by
  cases n with
  | zero => simp [HexUpTo]
  | succ n => exact lt_length_hex2bin.trans (and_iff_right hn)

theorem lastPairBad_iff (hpos : 1 ≤ param.dataSize.toNat / 2) :
    LastPairBad hexToBin env param ↔
      (payloadOf hexToBin env param).length = param.dataSize.toNat / 2 - 1 := by
  rw [LastPairBad, ← le_length_payloadOf (Nat.sub_le _ 1), ← le_length_payloadOf (Nat.le_refl _)]
  omega

/-- What one URB carries, compared with what the text decodes to. -/
theorem payload_kept_iff {hex : HexBuffer} (len : U32)
    (hlen : len.toNat = param.dataSize.toNat / 2 - 1) (hpos : 1 ≤ param.dataSize.toNat / 2)
    (hbytes : ∀ i, hex.bytes i = (payloadOf hexToBin env param)[i]?.getD (env.fresh i)) :
    ((List.range len.toNat).map hex.bytes <+: payloadOf hexToBin env param ∧
      ((payloadOf hexToBin env param).length = param.dataSize.toNat / 2 →
        len.toNat = param.dataSize.toNat / 2 ∧
          (List.range len.toNat).map hex.bytes = payloadOf hexToBin env param)) ↔
    LastPairBad hexToBin env param := by
  rw [lastPairBad_iff hpos, hlen]
  have hle := length_hex2bin_le hexToBin env.text (param.dataSize.toNat / 2)
  rw [← payloadOf] at hle
  constructor
  · rintro ⟨hstart, hall⟩
    have hshort := hstart.length_le
    simp only [List.length_map, List.length_range] at hshort
    by_contra hne
    have heq := (hall (by omega)).1
    omega
  · intro h
    have heq : (List.range (param.dataSize.toNat / 2 - 1)).map hex.bytes =
        payloadOf hexToBin env param := by
      apply List.ext_getElem (by simp [h])
      intro i hi hi'
      rw [List.getElem_map, List.getElem_range, hbytes, List.getElem?_eq_getElem hi',
        Option.getD_some]
    exact ⟨heq ▸ List.prefix_refl _, fun hall => absurd hall (by omega)⟩

theorem urbBytes_toNat (hds : param.dataSize ≠ 0) :
    (urbBytes param).toNat = (2 ^ 32 - 1 + param.dataSize.toNat / 2) % 2 ^ 32 := by
  rw [urbBytes, if_pos hds, BitVec.toNat_sub, BitVec.toNat_udiv]
  rfl

/-- `data_size/2-1` wraps around where there is no pair of characters. -/
theorem urbBytes_le_iff (hds : param.dataSize ≠ 0) :
    (urbBytes param).toNat ≤ param.dataSize.toNat / 2 ↔ 2 ≤ param.dataSize.toNat := by
  have hlt := param.dataSize.isLt
  rw [urbBytes_toNat hds]
  omega

/-- The hex text of a request goes out as it is exactly when its size is at least 2 and
nothing is submitted, or only the last pair of characters is bad. -/
theorem payloadKept_iff (hexToBin : Byte → Option (BitVec 4)) (env : Env)
    (param : UsbtestParam32) (pipe : U32) (k : Kernel) (hds : param.dataSize ≠ 0) :
    PayloadKept hexToBin env param pipe k ↔
      2 ≤ param.dataSize.toNat ∧
        (Submits env param pipe → LastPairBad hexToBin env param) := by
  rw [PayloadKept, urbBytes_le_iff hds]
  refine and_congr_right fun hsize => ?_
  have hpos : 1 ≤ param.dataSize.toNat / 2 := by omega
  have hlen : (urbBytes param).toNat = param.dataSize.toNat / 2 - 1 := by
    have hlt := param.dataSize.isLt
    rw [urbBytes_toNat hds]
    omega
  obtain ⟨hready, urb, hex, hpipe, hurb, hbytes, hsent⟩ | ⟨hready, hsent⟩ :=
    hostFuzz_sent hexToBin env hds pipe k
  · rw [decoded_eq, ← payloadOf] at hbytes
    have hkept := payload_kept_iff (urbBytes param) hlen hpos hbytes
    rw [hsent]
    constructor
    · rintro h ⟨hout, -, hiter⟩
      have hn : 0 < param.iterations.toInt.toNat := by omega
      obtain ⟨u, hu⟩ := List.exists_mem_of_ne_nil _ (simpleIoLoop_ne_nil env
        (some hex) 0 (urbBytes param) 0 urb hn)
      obtain ⟨hulen, hpayload⟩ := mem_simpleIoLoop (hpipe ▸ hout) hu
      rw [hurb] at hulen hpayload
      have hu := (h hout u hu).2
      rw [hulen, hpayload] at hu
      exact hkept.mp hu
    · intro h hout u hu
      have hiter : 0 < param.iterations.toInt := by
        by_contra hneg
        have hzero : param.iterations.toInt.toNat = 0 := by omega
        rw [hzero] at hu
        cases hu
      obtain ⟨hulen, hpayload⟩ := mem_simpleIoLoop (hpipe ▸ hout) hu
      rw [hurb] at hulen hpayload
      rw [hulen, hpayload]
      exact ⟨by omega, hkept.mpr (h ⟨hout, hready, hiter⟩)⟩
  · rw [hsent]
    exact iff_of_true (fun _ _ hu => absurd hu List.not_mem_nil) fun h => absurd h.2.1 hready

/-- `hex_to_bin`. -/
def hexToBinAscii (ch : Byte) : Option (BitVec 4) :=
  let c := ch.toNat
  if 48 ≤ c ∧ c ≤ 57 then some (BitVec.ofNat 4 (c - 48))
  else if 65 ≤ c ∧ c ≤ 70 then some (BitVec.ofNat 4 (c - 55))
  else if 97 ≤ c ∧ c ≤ 102 then some (BitVec.ofNat 4 (c - 87))
  else none

/-- A call that meets no failure, on a text. -/
def quietCall (text : List Byte) : Env where
  usbAllocUrb := true
  transferBuffer := true
  kernBuf := true
  copyFromUser := 0
  text := fun i => text[i]?.getD 0
  hex := true
  fresh := fun _ => 0
  io := fun _ => ⟨0, true, 0, 0⟩
  pattern := 0
  maxpacket := 512

def hexParam (dataSize iterations : U32) : UsbtestParam32 where
  testNum := 0
  iterations := iterations
  length := 0
  vary := 0
  sglen := 0
  isFz := 1
  isCtrl := 0
  isBulk := 1
  isInt := 0
  isIso := 0
  isDirOut := 1
  ctrlOut := ⟨0, 0, 0, 0, 0⟩
  isSetAlt := 0
  dataSize := dataSize
  data := 0x1000
  durationSec := 0
  durationUsec := 0

/-- No objects and no data. -/
def freshKernel : Kernel := ⟨⟨0, []⟩, none⟩

/-- Of the text `abcx` one byte goes out. -/
theorem payloadKept_bad_pair :
    PayloadKept hexToBinAscii (quietCall [97, 98, 99, 120]) (hexParam 4 1) 0xC0000000
      freshKernel :=
  (payloadKept_iff hexToBinAscii _ (hexParam 4 1) _ freshKernel (by decide)).mpr
    ⟨by decide, fun _ => ⟨by unfold HexUpTo; decide, by unfold HexUpTo; decide⟩⟩

/-- Of the text `abcd` the last byte is missing. -/
theorem abcd_loses_last_byte :
    ¬PayloadKept hexToBinAscii (quietCall [97, 98, 99, 100]) (hexParam 4 1) 0xC0000000
      freshKernel := by
  intro h
  have hkept := h.2 (by decide)
  have hsent : ∃ urb ∈ (hostFuzz hexToBinAscii (quietCall [97, 98, 99, 100]) (hexParam 4 1)
      0xC0000000 freshKernel).sent, urb.payload = [0xAB] := by
    refine ⟨_, List.mem_cons_self, ?_⟩
    decide
  obtain ⟨urb, hurb, hpayload⟩ := hsent
  have hall := ((hkept urb hurb).2.2 (by decide)).2
  rw [hpayload] at hall
  exact absurd hall (by decide)

/-! ## Balance -/

/-- One `host_fuzz`: its request and pipe, and what it meets. -/
structure Call where
  env : Env
  param : UsbtestParam32
  pipe : U32

def fuzzStep (hexToBin : Byte → Option (BitVec 4)) (k : Kernel) (c : Call) : Option Kernel :=
  some (hostFuzz hexToBin c.env c.param c.pipe k).kernel

/-- Every object that was created has been released exactly once, and `dev->host_data` is
`NULL`. -/
def Restored (k : Kernel) : Prop := k.ledger.Balanced ∧ k.hostData = none

/-- A sequence of calls is balanced on every exit exactly when no call fails to prepare its
text once it has its URB. -/
theorem restored_iff (hexToBin : Byte → Option (BitVec 4)) (k : Kernel) (calls : List Call)
    (hk : Restored k) :
    Always (fuzzStep hexToBin) Restored k calls ↔
      AlwaysStep (fuzzStep hexToBin) (fun _ c => ¬Leaks c.env c.param) k calls := by
  apply always_iff_alwaysStep (J := fun _ => True) (fun _ _ _ _ _ => trivial) _ trivial hk
  intro s c t _ hs ht
  obtain rfl := Option.some.inj ht
  obtain ⟨hnone, lost, hlost, hholds⟩ :=
    hostFuzz_holds hexToBin c.env c.param c.pipe hs.2
  have hlive := hholds [] (Ledger.holds_nil_iff.mpr hs.1)
  rw [List.append_nil] at hlive
  rw [Restored, and_iff_left hnone, hlive.balanced_iff, hlost]

/-- A call that cannot copy the text. -/
def failingCopy : Call := ⟨{ quietCall [] with copyFromUser := 4 }, hexParam 4 1, 0xC0000000⟩

theorem restored_quiet :
    Always (fuzzStep hexToBinAscii) Restored freshKernel
      [⟨quietCall [97, 98, 99, 100], hexParam 4 1, 0xC0000000⟩] :=
  (restored_iff hexToBinAscii freshKernel _ ⟨by decide, rfl⟩).mpr
    fun _ _ => ⟨by decide, trivial⟩

/-- When `copy_from_user` fails, the URB, its buffer and the kernel copy stay allocated. -/
theorem failing_copy_leaks :
    ¬Always (fuzzStep hexToBinAscii) Restored freshKernel [failingCopy] := by
  rintro ⟨-, h⟩
  have hbal := (h _ rfl).1
  exact absurd hbal (by decide)

end FuzzUSB.Usbtest.HostFuzz
