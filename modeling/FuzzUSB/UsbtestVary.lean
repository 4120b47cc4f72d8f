import FuzzUSB.UsbtestHostFuzz
import FuzzUSB.UsbtestIoctl

/-!
# Transfers of varying sizes

Tests 3 and 4 let `simple_io` change the length of its URB behind each transfer, and tests 7
and 8 let `alloc_sglist` change the size of its entries. The first reduces in `int` arithmetic,
the second in `unsigned` arithmetic.
-/

namespace FuzzUSB.Usbtest.Vary
open Program Transition
open CLayout (Byte)
open HostFuzz (Env HexBuffer FuzzUrb IoAnswer prepare prepare_pipe
  prepare_transferBufferLength transferResult nextLength)

/-! ## `simple_io` -/

/-- `urb->transfer_buffer_length` behind a transfer, unless there is a division by zero. -/
def varyLength (vary max len : U32) : Option U32 :=
  if vary ≠ 0 ∧ max = 0 then none else some (nextLength vary max len)

/-- Where a call of `simple_io` is: at the loop test, in the handler of a division by zero,
or back in its caller. -/
inductive IoState
  | loop (urb : FuzzUrb) (iterations retval : ℤ)
  | divideError
  | returned (urb : FuzzUrb) (retval : ℤ)

/-- One round of the loop of `simple_io`, in which the transfer goes as `a` says. -/
def ioStep (env : Env) (hostData : Option HexBuffer) (vary max : U32) :
    IoState → IoAnswer → Option IoState
  | .loop urb iterations retval, a =>
    if retval = 0 ∧ 0 < iterations then
      let urb := prepare env hostData urb
      if a.submit ≠ 0 then some (.returned { urb with transferBufferLength := max } a.submit)
      else
        match varyLength vary max urb.transferBufferLength with
        | none => some .divideError
        | some len => some (.loop { urb with transferBufferLength := len } (iterations - 1)
            (transferResult urb a))
    else some (.returned { urb with transferBufferLength := max } retval)
  | .divideError, _ => none
  | .returned _ _, _ => none

/-- `simple_io` on entry. `iterations` is an `int` there. -/
def ioStart (urb : FuzzUrb) (iterations : U32) : IoState := .loop urb iterations.toInt 0

/-! ## `alloc_sglist` -/

/-- An entry of a scatterlist. -/
structure SgEntry where
  size : U32
  contents : ℕ → Byte

/-- `size` behind an entry. -/
def varySize (vary max size : U32) : U32 :=
  if vary = 0 then size
  else
    let size := (size + vary) % max
    if size = 0 then if vary.slt max then vary else max else size

/-- Where a call of `alloc_sglist` is. -/
inductive SgState
  | start
  | loop (entries : List SgEntry) (size nSize : U32)
  | returned (sg : Option (List SgEntry))

/-- One allocation of `alloc_sglist`, which succeeds if `ok` says so. -/
def sgStep (pattern : U32) (maxpacket : ℕ) (nents max vary : U32) :
    SgState → Bool → Option SgState
  | .start, ok =>
    if max = 0 then some (.returned none)
    else if ok then some (.loop [] max 0)
    else some (.returned none)
  | .loop entries size nSize, ok =>
    if entries.length < nents.toNat then
      if ok then
        let entry : SgEntry := ⟨size, fun j =>
          if pattern = 1 then BitVec.ofNat 8 ((j + nSize.toNat) % 2 ^ 32 % maxpacket % 63) else 0⟩
        some (.loop (entries ++ [entry]) (varySize vary max size)
          (if pattern = 1 then nSize + size else nSize))
      else some (.returned none)
    else some (.returned (some entries))
  | .returned _, _ => none

/-! ## The property -/

/-- The buffer has `max` bytes. -/
def InBuffer (max len : U32) : Prop :=
  if max = 0 then len = 0 else 1 ≤ len.toNat ∧ len.toNat ≤ max.toNat

/-- The next transfer is in the buffer, there was no division by zero, and the length is
restored. -/
def IoState.Bounded (max : U32) : IoState → Prop
  | .loop urb iterations retval =>
    retval = 0 → 0 < iterations → InBuffer max urb.transferBufferLength
  | .divideError => False
  | .returned urb _ => urb.transferBufferLength = max

/-- Every entry is in bounds, also the one that is to be allocated next. -/
def SgState.Bounded (nents max : U32) : SgState → Prop
  | .start => True
  | .loop entries size _ =>
    (∀ e ∈ entries, InBuffer max e.size) ∧ (entries.length < nents.toNat → InBuffer max size)
  | .returned sg => ∀ entries ∈ sg, ∀ e ∈ entries, InBuffer max e.size

/-- A length that comes out as zero is replaced by one that is in the buffer. -/
def ZeroOk (vary max : U32) : Prop := 0 < vary.toInt ∨ max.toInt < 0

/-- The sum is not negative, or the reduction makes zero of it. -/
def LengthOk (vary max len : U32) : Prop :=
  if max.toInt ∣ (len + vary).toInt then ZeroOk vary max else 0 ≤ (len + vary).toInt

def SizeOk (vary max size : U32) : Prop :=
  max.toNat ∣ (size + vary).toNat → ZeroOk vary max

/-- A transfer that is made reduces modulo a length that is not zero, and if another one
follows, the reduction goes well. -/
def IoState.VaryOk (vary max : U32) : IoState → IoAnswer → Prop
  | .loop urb iterations retval, a =>
    retval = 0 → 0 < iterations → a.submit = 0 →
      max ≠ 0 ∧ (transferResult urb a = 0 → 1 < iterations →
        LengthOk vary max urb.transferBufferLength)
  | _, _ => True

/-- If another entry follows one that is allocated, the reduction goes well. -/
def SgState.VaryOk (nents max vary : U32) : SgState → Bool → Prop
  | .loop entries size _, ok => ok → entries.length + 1 < nents.toNat → SizeOk vary max size
  | _, _ => True

/-! ## The reductions -/

variable {vary max len size : U32}

theorem inBuffer_iff (hmax : max ≠ 0) :
    InBuffer max len ↔ 1 ≤ len.toNat ∧ len.toNat ≤ max.toNat := by
  rw [InBuffer, if_neg hmax]

theorem inBuffer_self (max : U32) : InBuffer max max := by
  unfold InBuffer
  split
  · assumption
  · next hmax =>
    have hpos : max.toNat ≠ 0 := fun h => hmax (BitVec.eq_of_toNat_eq h)
    omega

/-- Where the reduction comes out as zero. -/
theorem inBuffer_zero_iff (hvary : vary ≠ 0) (hmax : max ≠ 0) :
    InBuffer max (if vary.slt max then vary else max) ↔ ZeroOk vary max := by
  have hne : vary.toNat ≠ 0 := fun h => hvary (BitVec.eq_of_toNat_eq h)
  have hpos : max.toNat ≠ 0 := fun h => hmax (BitVec.eq_of_toNat_eq h)
  have hv := BitVec.toInt_eq_toNat_cond vary
  have hm := BitVec.toInt_eq_toNat_cond max
  have hvlt := vary.isLt
  have hmlt := max.isLt
  rw [inBuffer_iff hmax, ZeroOk]
  by_cases hslt : vary.slt max
  · rw [if_pos hslt]
    rw [BitVec.slt_iff_toInt_lt] at hslt
    split at hv <;> split at hm <;> omega
  · rw [if_neg hslt]
    rw [BitVec.slt_iff_toInt_lt] at hslt
    split at hv <;> split at hm <;> omega

theorem inBuffer_nextLength_iff (hvary : vary ≠ 0) (hmax : max ≠ 0) :
    InBuffer max (nextLength vary max len) ↔ LengthOk vary max len := by
  have hrem := BitVec.toInt_srem (len + vary) max
  have hzero : (len + vary).srem max = 0 ↔ max.toInt ∣ (len + vary).toInt := by
    rw [Int.dvd_iff_tmod_eq_zero, ← hrem, ← BitVec.toInt_inj]
    rfl
  have hpos : max.toInt ≠ 0 := fun h => hmax (BitVec.eq_of_toInt_eq h)
  rw [nextLength, if_neg hvary, LengthOk]
  dsimp only
  by_cases hdvd : max.toInt ∣ (len + vary).toInt
  · rw [if_pos (hzero.mpr hdvd), if_pos hdvd]
    exact inBuffer_zero_iff hvary hmax
  · rw [if_neg (mt hzero.mp hdvd), if_neg hdvd, inBuffer_iff hmax]
    have hlt : ((len + vary).srem max).toInt.natAbs < max.toInt.natAbs := by
      rw [hrem, Int.natAbs_tmod]
      exact Nat.mod_lt _ (Int.natAbs_pos.mpr hpos)
    have hne : ((len + vary).srem max).toInt ≠ 0 :=
      fun h => hdvd (hzero.mp (BitVec.eq_of_toInt_eq h))
    -- The remainder has the sign of the sum.
    have hsign : 0 ≤ ((len + vary).srem max).toInt ↔ 0 ≤ (len + vary).toInt := by
      constructor
      · intro hr
        by_contra hneg
        have hneg' := Int.tmod_nonneg max.toInt (by omega : 0 ≤ -(len + vary).toInt)
        rw [Int.neg_tmod, ← hrem] at hneg'
        omega
      · intro hs
        rw [hrem]
        exact Int.tmod_nonneg _ hs
    have hr := BitVec.toInt_eq_toNat_cond ((len + vary).srem max)
    have hm := BitVec.toInt_eq_toNat_cond max
    have hrlt := ((len + vary).srem max).isLt
    have hmlt := max.isLt
    rw [← hsign]
    split at hr <;> split at hm <;> omega

theorem inBuffer_varySize_iff (hvary : vary ≠ 0) (hmax : max ≠ 0) :
    InBuffer max (varySize vary max size) ↔ SizeOk vary max size := by
  have hpos : max.toNat ≠ 0 := fun h => hmax (BitVec.eq_of_toNat_eq h)
  have hzero : (size + vary) % max = 0 ↔ max.toNat ∣ (size + vary).toNat := by
    rw [Nat.dvd_iff_mod_eq_zero, ← BitVec.toNat_umod, ← BitVec.toNat_inj]
    rfl
  rw [varySize, if_neg hvary, SizeOk, ← hzero]
  dsimp only
  split
  · next hz => rw [inBuffer_zero_iff hvary hmax, forall_prop_of_true hz]
  · next hz =>
    rw [inBuffer_iff hmax, forall_prop_of_false hz, iff_true]
    have hne : ((size + vary) % max).toNat ≠ 0 := fun h => hz (BitVec.eq_of_toNat_eq h)
    have hlt : ((size + vary) % max).toNat < max.toNat := by
      rw [BitVec.toNat_umod]
      exact Nat.mod_lt _ (Nat.pos_of_ne_zero hpos)
    omega

/-! ## Runs -/

variable {env : Env} {hostData : Option HexBuffer} {pattern nents : U32} {maxpacket : ℕ}

/-- A step of `simple_io` keeps the bounds if it varies the length well. -/
theorem ioStep_bounded_iff (hvary : vary ≠ 0) {s t : IoState} {a : IoAnswer}
    (hs : s.Bounded max) (h : ioStep env hostData vary max s a = some t) :
    t.Bounded max ↔ s.VaryOk vary max a := by
  cases s with
  | divideError => cases h
  | returned urb retval => cases h
  | loop urb iterations retval =>
    rw [ioStep] at h
    split at h
    case isFalse hexit =>
      obtain rfl := Option.some.inj h
      exact iff_of_true rfl fun hretval hpos => absurd ⟨hretval, hpos⟩ hexit
    case isTrue hround =>
      obtain ⟨rfl, hpos⟩ := hround
      dsimp only at h
      split at h
      case isTrue hsubmit =>
        obtain rfl := Option.some.inj h
        exact iff_of_true rfl fun _ _ hok => absurd hok hsubmit
      case isFalse hsubmit =>
        have hsubmit := not_not.mp hsubmit
        rw [prepare_transferBufferLength, varyLength] at h
        by_cases hmax : max = 0
        · rw [if_pos ⟨hvary, hmax⟩] at h
          obtain rfl := Option.some.inj h
          exact iff_of_false id fun hok => (hok rfl hpos hsubmit).1 hmax
        · rw [if_neg fun hzero => hmax hzero.2] at h
          obtain rfl := Option.some.inj h
          have hresult : transferResult (prepare env hostData urb) a = transferResult urb a := by
            rw [transferResult, transferResult, prepare_pipe]
          have hnext : InBuffer max (nextLength vary max urb.transferBufferLength) ↔ _ :=
            inBuffer_nextLength_iff hvary hmax
          constructor
          · intro ht _ _ _
            refine ⟨hmax, fun hres hmore => hnext.mp (ht (hresult.trans hres) ?_)⟩
            exact sub_pos.mpr hmore
          · intro hok hres hmore
            exact hnext.mpr ((hok rfl hpos hsubmit).2 (hresult.symm.trans hres)
              (sub_pos.mp hmore))

theorem ioStart_bounded (urb : FuzzUrb) (iterations : U32) :
    (ioStart urb iterations).Bounded urb.transferBufferLength := fun _ _ => inBuffer_self _

/-- The loop of `alloc_sglist` is not reached with a `max` of zero. -/
def SgState.MaxOk (max : U32) : SgState → Prop
  | .loop .. => max ≠ 0
  | _ => True

theorem sgStep_maxOk {s : SgState} {ok : Bool} {t : SgState} (hs : s.MaxOk max)
    (h : sgStep pattern maxpacket nents max vary s ok = some t) : t.MaxOk max := by
  cases s with
  | returned sg => cases h
  | start =>
    rw [sgStep] at h
    split at h
    · obtain rfl := Option.some.inj h
      trivial
    · next hmax =>
      split at h <;> obtain rfl := Option.some.inj h
      · exact hmax
      · trivial
  | loop entries size nSize =>
    rw [sgStep] at h
    split at h
    · split at h <;> obtain rfl := Option.some.inj h
      · exact hs
      · trivial
    · obtain rfl := Option.some.inj h
      trivial

/-- A step of `alloc_sglist` keeps the bounds if it varies the size well. -/
theorem sgStep_bounded_iff (hvary : vary ≠ 0) {s t : SgState} {ok : Bool}
    (hmax : s.MaxOk max) (hs : s.Bounded nents max)
    (h : sgStep pattern maxpacket nents max vary s ok = some t) :
    t.Bounded nents max ↔ s.VaryOk nents max vary ok := by
  cases s with
  | returned sg => cases h
  | start =>
    refine iff_of_true ?_ trivial
    rw [sgStep] at h
    split at h
    · obtain rfl := Option.some.inj h
      exact nofun
    · split at h
      · obtain rfl := Option.some.inj h
        exact ⟨nofun, fun _ => inBuffer_self max⟩
      · obtain rfl := Option.some.inj h
        exact nofun
  | loop entries size nSize =>
    rw [sgStep] at h
    split at h
    case isFalse hdone =>
      obtain rfl := Option.some.inj h
      refine iff_of_true ?_ fun _ hmore => absurd (by omega) hdone
      rintro _ ⟨rfl⟩
      exact hs.1
    case isTrue hmore =>
      split at h
      case isFalse hok =>
        obtain rfl := Option.some.inj h
        exact iff_of_true nofun fun hok' => absurd hok' hok
      case isTrue hok =>
        obtain rfl := Option.some.inj h
        have hentries : ∀ e ∈ entries ++ [(⟨size, fun j => if pattern = 1 then
            BitVec.ofNat 8 ((j + nSize.toNat) % 2 ^ 32 % maxpacket % 63) else 0⟩ : SgEntry)],
            InBuffer max e.size := by
          rw [List.forall_mem_append, List.forall_mem_singleton]
          exact ⟨hs.1, hs.2 hmore⟩
        rw [SgState.Bounded, SgState.VaryOk, and_iff_right hentries, forall_prop_of_true hok,
          List.length_append, List.length_singleton, inBuffer_varySize_iff hvary hmax]

theorem simpleIo_bounded_iff (hvary : vary ≠ 0) (urb : FuzzUrb) (iterations : U32)
    (answers : List IoAnswer) :
    Always (ioStep env hostData vary urb.transferBufferLength)
        (IoState.Bounded urb.transferBufferLength) (ioStart urb iterations) answers ↔
      AlwaysStep (ioStep env hostData vary urb.transferBufferLength)
        (IoState.VaryOk vary urb.transferBufferLength) (ioStart urb iterations) answers :=
  always_iff_alwaysStep (J := fun _ => True) (fun _ _ _ _ _ => trivial)
    (fun _ _ _ _ hs h => ioStep_bounded_iff hvary hs h) trivial (ioStart_bounded urb iterations)

theorem allocSglist_bounded_iff (hvary : vary ≠ 0) (allocs : List Bool) :
    Always (sgStep pattern maxpacket nents max vary) (SgState.Bounded nents max) .start allocs ↔
      AlwaysStep (sgStep pattern maxpacket nents max vary) (SgState.VaryOk nents max vary) .start
        allocs :=
  always_iff_alwaysStep (J := SgState.MaxOk max) (fun _ _ _ hs h => sgStep_maxOk hs h)
    (fun _ _ _ hmax hs h => sgStep_bounded_iff hvary hmax hs h) trivial trivial

/-! ## Lengths whose sums are in range -/

/-- The sums do not come near the sign. -/
theorem lengthOk_of_lt (hvary : vary ≠ 0) (hlt : max.toNat + vary.toNat < 2 ^ 31)
    (hlen : len.toNat ≤ max.toNat) :
    LengthOk vary max len ∧ SizeOk vary max len := by
  have hzero : ZeroOk vary max := by
    have hpos : vary.toNat ≠ 0 := fun h => hvary (BitVec.eq_of_toNat_eq h)
    have hv := BitVec.toInt_eq_toNat_cond vary
    rw [if_pos (by omega)] at hv
    exact .inl (by omega)
  refine ⟨?_, fun _ => hzero⟩
  unfold LengthOk
  split
  · exact hzero
  · have hsum : (len + vary).toNat = len.toNat + vary.toNat := by
      rw [BitVec.toNat_add]
      exact Nat.mod_eq_of_lt (by omega)
    have hs := BitVec.toInt_eq_toNat_cond (len + vary)
    rw [if_pos (by omega)] at hs
    omega

theorem simpleIo_bounded_of_lt (hvary : vary ≠ 0) {urb : FuzzUrb}
    (hmax : urb.transferBufferLength ≠ 0)
    (hlt : urb.transferBufferLength.toNat + vary.toNat < 2 ^ 31) (iterations : U32)
    (answers : List IoAnswer) :
    Always (ioStep env hostData vary urb.transferBufferLength)
      (IoState.Bounded urb.transferBufferLength) (ioStart urb iterations) answers := by
  refine always_iff.mpr fun pre t _ hrun =>
    runs_invariant (fun s a t hs h => ?_) (ioStart_bounded urb iterations) hrun
  refine (ioStep_bounded_iff hvary hs h).mpr ?_
  cases s with
  | divideError | returned => trivial
  | loop u left retval =>
    intro hretval hpos _
    refine ⟨hmax, fun _ _ => (lengthOk_of_lt hvary hlt ?_).1⟩
    exact ((inBuffer_iff hmax).mp (hs hretval hpos)).2

theorem allocSglist_bounded_of_lt (hvary : vary ≠ 0) (hlt : max.toNat + vary.toNat < 2 ^ 31)
    (allocs : List Bool) :
    Always (sgStep pattern maxpacket nents max vary) (SgState.Bounded nents max) .start
      allocs := by
  refine always_iff.mpr fun pre t _ hrun => ?_
  have hinv := runs_invariant (I := fun s => s.MaxOk max ∧ s.Bounded nents max)
    (fun s ok t hs h => ⟨sgStep_maxOk hs.1 h, (sgStep_bounded_iff hvary hs.1 hs.2 h).mpr ?_⟩)
    ⟨trivial, trivial⟩ hrun
  · exact hinv.2
  · cases s with
    | start | returned => trivial
    | loop entries size nSize =>
      intro _ hmore
      refine (lengthOk_of_lt hvary hlt ?_).2
      exact ((inBuffer_iff hs.1).mp (hs.2.2 (by omega))).2

/-! ## The requests -/

/-- An operation that allocates, or that varies lengths, has the fields of the request. -/
def FromRequest (param : UsbtestParam32) : Op → Prop
  | .simpleAllocUrb _ bytes _ => bytes = param.length
  | .simpleIo iterations vary _ => iterations = param.iterations ∧ (vary = 0 ∨ vary = param.vary)
  | .allocSglist nents max vary _ =>
    nents = param.sglen ∧ max = param.length ∧ (vary = 0 ∨ vary = param.vary)
  | _ => True

section

variable {param : UsbtestParam32}

theorem perform_fromRequest {c : Op} (h : FromRequest param c) :
    (perform c : Driver c.Result).AllCalls (FromRequest param) := by
  intro c' hc
  exact mayCall_perform c' c |>.mp hc ▸ h

theorem supported_fromRequest {p : Prop} [Decidable p] {test : Driver ℤ}
    (h : test.AllCalls (FromRequest param)) :
    (supported p test).AllCalls (FromRequest param) := by
  unfold supported
  split
  · exact h
  · exact allCalls_ret _

theorem repeatTest_fromRequest {test : Driver ℤ} (h : test.AllCalls (FromRequest param))
    (n : ℕ) : (repeatTest test n).AllCalls (FromRequest param) := by
  induction n with
  | zero => exact allCalls_ret _
  | succ n ih =>
    refine AllCalls.bind h fun retval => ?_
    split
    · exact ih
    · exact allCalls_ret _

theorem simpleTest_fromRequest {vary : U32} (hvary : vary = 0 ∨ vary = param.vary) (pipe : U32)
    (bInterval : Option (BitVec 8)) (label : String) :
    (simpleTest pipe bInterval param vary label).AllCalls (FromRequest param) := by
  refine AllCalls.bind (perform_fromRequest rfl) fun urb => ?_
  split
  · refine AllCalls.bind (perform_fromRequest ⟨rfl, hvary⟩) fun retval => ?_
    exact AllCalls.bind (perform_fromRequest trivial) fun _ => allCalls_ret _
  · exact allCalls_ret _

theorem sglistTest_fromRequest {vary : U32} (hvary : vary = 0 ∨ vary = param.vary) (pipe : U32) :
    (sglistTest pipe param vary).AllCalls (FromRequest param) := by
  refine AllCalls.bind (perform_fromRequest ⟨rfl, rfl, hvary⟩) fun sg => ?_
  split
  · refine AllCalls.bind (perform_fromRequest trivial) fun retval => ?_
    exact AllCalls.bind (perform_fromRequest trivial) fun _ => allCalls_ret _
  · exact allCalls_ret _

/-- The calls of `fz_ioctl` do not vary lengths. -/
theorem fzCalls_fromRequest (info : Endpoints) : ∀ c ∈ fzCalls info param, FromRequest param c := by
  have hone (p : Prop) [Decidable p] (c : Op) (hc : FromRequest param c) :
      ∀ c' ∈ (if p then [c] else []), FromRequest param c' := by
    split
    · exact List.forall_mem_singleton.mpr hc
    · exact List.forall_mem_nil _
  unfold fzCalls
  split
  · exact List.forall_mem_singleton.mpr trivial
  · split
    · exact List.forall_mem_singleton.mpr trivial
    · simp only [List.forall_mem_append]
      refine ⟨⟨⟨⟨⟨?_, ?_⟩, ?_⟩, ?_⟩, ?_⟩, ?_⟩ <;> exact hone _ _ trivial

end

theorem numberedTest_fromRequest (dev : Endpoints) (info : UsbtestInfo) (pattern : U32)
    (param : UsbtestParam32) :
    (numberedTest dev info pattern param).AllCalls (FromRequest param) := by
  unfold numberedTest
  dsimp only
  split
  case h_1 => exact allCalls_ret _
  all_goals first
    | exact supported_fromRequest (simpleTest_fromRequest (.inl rfl) _ _ _)
    | exact supported_fromRequest (simpleTest_fromRequest (.inr rfl) _ _ _)
    | exact supported_fromRequest (sglistTest_fromRequest (.inl rfl) _)
    | exact supported_fromRequest (sglistTest_fromRequest (.inr rfl) _)
    | exact supported_fromRequest (repeatTest_fromRequest (by exact perform_fromRequest trivial) _)
    | exact supported_fromRequest (perform_fromRequest trivial)
    | exact repeatTest_fromRequest (by exact perform_fromRequest trivial) _
    | exact perform_fromRequest trivial
    | exact allCalls_ret _

theorem usbtestDoIoctl_fromRequest (ctx : IoctlContext) (param : UsbtestParam32) :
    (usbtestDoIoctl ctx param).AllCalls (FromRequest param) := by
  unfold usbtestDoIoctl
  split
  · refine AllCalls.bind (fun c hc => ?_) fun _ => allCalls_ret _
    exact fzCalls_fromRequest _ c ((mayCall_performAll c _).mp hc)
  · split
    · exact allCalls_ret _
    · split
      · exact allCalls_ret _
      · exact numberedTest_fromRequest _ _ _ _

/-- The vary tests work with the fields of their request. A run of `simple_io` is in bounds
exactly when all its steps vary the length well, and so is a run of `alloc_sglist`. That is so
in every run where the greatest sum is in the range of an `int`. -/
theorem varying_bounded_iff (ctx : IoctlContext) (param : UsbtestParam32)
    (hvary : param.vary ≠ 0) :
    (usbtestDoIoctl ctx param).AllCalls (FromRequest param) ∧
      (∀ env hostData (urb : FuzzUrb) answers, urb.transferBufferLength = param.length →
        (Always (ioStep env hostData param.vary param.length) (IoState.Bounded param.length)
            (ioStart urb param.iterations) answers ↔
          AlwaysStep (ioStep env hostData param.vary param.length)
            (IoState.VaryOk param.vary param.length) (ioStart urb param.iterations) answers)) ∧
      (∀ pattern maxpacket allocs,
        (Always (sgStep pattern maxpacket param.sglen param.length param.vary)
            (SgState.Bounded param.sglen param.length) .start allocs ↔
          AlwaysStep (sgStep pattern maxpacket param.sglen param.length param.vary)
            (SgState.VaryOk param.sglen param.length param.vary) .start allocs)) ∧
      (param.length ≠ 0 → param.length.toNat + param.vary.toNat < 2 ^ 31 →
        (∀ env hostData (urb : FuzzUrb) answers, urb.transferBufferLength = param.length →
          Always (ioStep env hostData param.vary param.length) (IoState.Bounded param.length)
            (ioStart urb param.iterations) answers) ∧
        ∀ pattern maxpacket allocs,
          Always (sgStep pattern maxpacket param.sglen param.length param.vary)
            (SgState.Bounded param.sglen param.length) .start allocs) := by
  refine ⟨usbtestDoIoctl_fromRequest ctx param, ?_, ?_, fun hlen hlt => ⟨?_, ?_⟩⟩
  · rintro env hostData urb answers hurb
    rw [← hurb]
    exact simpleIo_bounded_iff hvary urb param.iterations answers
  · exact fun pattern maxpacket allocs => allocSglist_bounded_iff hvary allocs
  · rintro env hostData urb answers hurb
    rw [← hurb] at hlen hlt ⊢
    exact simpleIo_bounded_of_lt hvary hlen hlt param.iterations answers
  · exact fun pattern maxpacket allocs => allocSglist_bounded_of_lt hvary hlt allocs

/-! ## Two requests -/

def varyParam (length iterations vary : U32) : UsbtestParam32 :=
  { zeroTemp with testNum := 3, iterations := iterations, length := length, vary := vary }

def bulkOut : IoctlContext where
  dev := { Endpoints.zero with pipe := fun slot => if slot = .outBulk then 0xC0008200 else 0 }
  infoEps := .zero
  info := { name := "generic" }
  pattern := 0

def outUrb (length : U32) : FuzzUrb := ⟨0, 0xC0008200, 0, none, 0, length, fun _ => 0⟩

/-- The transfer goes well. -/
def goesWell : IoAnswer := ⟨0, true, 0, 0⟩

theorem varying_bounded_iff_512 :
    Always (ioStep (HostFuzz.quietCall []) none 256 512) (IoState.Bounded 512)
      (ioStart (outUrb 512) 3) [goesWell, goesWell, goesWell] :=
  ((varying_bounded_iff bulkOut (varyParam 512 3 256) (by decide)).2.2.2 (by decide)
    (by decide)).1 _ _ (outUrb 512) _ rfl

/-- Without any bytes the first transfer ends in a division by zero. With 512 bytes that are
varied by -512, the second transfer has more than 4 GB. -/
theorem varying_not_bounded :
    (((usbtestDoIoctl bulkOut (varyParam 0 1 1)).observe quietEnv).2 =
        [.simpleAllocUrb 0xC0008200 0 (some 0), .simpleIo 1 1 "test3", .simpleFreeUrb] ∧
      ¬Always (ioStep (HostFuzz.quietCall []) none 1 0) (IoState.Bounded 0)
        (ioStart (outUrb 0) 1) [goesWell]) ∧
    ((usbtestDoIoctl bulkOut (varyParam 512 2 (-512))).observe quietEnv).2 =
        [.simpleAllocUrb 0xC0008200 512 (some 0), .simpleIo 2 (-512) "test3", .simpleFreeUrb] ∧
      ¬Always (ioStep (HostFuzz.quietCall []) none (-512) 512) (IoState.Bounded 512)
        (ioStart (outUrb 512) 2) [goesWell] := by
  refine ⟨⟨by decide, fun h => ?_⟩, by decide, fun h => ?_⟩
  · exact always_iff.mp h [goesWell] .divideError (List.prefix_refl _) rfl
  · have hnext := always_iff.mp h [goesWell] (.loop _ 1 0) (List.prefix_refl _) rfl rfl
      (by decide)
    exact absurd ((inBuffer_iff (by decide)).mp hnext).2 (by decide)

end FuzzUSB.Usbtest.Vary
