import FuzzUSB.UsbtestTypes

/-!
# The ioctl of the usbtest driver

`usbtest_ioctl` takes requests in two layouts and converts the older one in a local
variable. `usbtest_do_ioctl` runs the fuzzing path or one of the numbered tests.
-/

namespace FuzzUSB.Usbtest
open Program

/-- A call whose result is not looked at. -/
def ignore (c : Op) : Driver Unit := performAll [c]

def hostData (param : UsbtestParam32) : HostData :=
  if param.dataSize ≠ 0 then .hex param.dataSize param.data else .length param.length

def queueRequest (param : UsbtestParam32) : QueueRequest :=
  ⟨param.iterations, param.sglen, param.length⟩

/-- `host_fuzz_iso` hands its request to `test_queue` at offset 1. -/
def hostFuzzIso (param : UsbtestParam32) (pipe : U32) (isoEp : Option EndpointDescriptor) : Op :=
  .testQueue (queueRequest param) pipe isoEp 1

/-- The calls of `fz_ioctl` on the record `info`, in order. None depends on the result of
another. -/
def fzCalls (info : Endpoints) (param : UsbtestParam32) : List Op :=
  if param.isSetAlt ≠ 0 then [.usbSetInterface param.iterations param.length]
  else if param.isCtrl ≠ 0 then [.hostCtrFuzz param.iterations param.ctrlOut]
  else
    (if param.isBulk ≠ 0 ∧ param.isDirOut ≠ 0 then
      [.hostFuzz param.iterations (hostData param) (info.pipe .outBulk) "test17"] else []) ++
    (if param.isBulk ≠ 0 ∧ param.isDirOut = 0 then
      [.hostFuzz param.iterations (hostData param) (info.pipe .inBulk) "test18"] else []) ++
    (if param.isInt ≠ 0 ∧ param.isDirOut ≠ 0 then
      [.hostFuzzInt param.iterations param.length (info.pipe .outInt) 0 "test25"] else []) ++
    (if param.isInt ≠ 0 ∧ param.isDirOut = 0 then
      [.hostFuzzInt param.iterations param.length (info.pipe .inInt) 0 "test26"] else []) ++
    (if param.isIso ≠ 0 ∧ param.isDirOut ≠ 0 then
      [hostFuzzIso param (info.pipe .outIso) (info.desc .outIso)] else []) ++
    (if param.isIso ≠ 0 ∧ param.isDirOut = 0 then
      [hostFuzzIso param (info.pipe .inIso) (info.desc .inIso)] else [])

def fzIoctl (info : Endpoints) (param : UsbtestParam32) : Driver Unit :=
  performAll (fzCalls info param)

/-! ## The numbered tests -/

/-- A test that breaks with `-EOPNOTSUPP` unless the device has what it needs. -/
def supported (p : Prop) [Decidable p] (test : Driver ℤ) : Driver ℤ :=
  if p then test else return -EOPNOTSUPP

/-- `for (i = iterations; retval == 0 && i--; ) retval = test`, from `retval = 0`. -/
def repeatTest (test : Driver ℤ) : ℕ → Driver ℤ
  | 0 => return 0
  | n + 1 => do
    let retval ← test
    if retval = 0 then repeatTest test n else return retval

/-- Tests 1 to 4, 25 and 26. -/
def simpleTest (pipe : U32) (bInterval : Option (BitVec 8)) (param : UsbtestParam32) (vary : U32)
    (label : String) : Driver ℤ := do
  let urb ← perform (Op.simpleAllocUrb pipe param.length bInterval)
  if urb then
    let retval ← perform (Op.simpleIo param.iterations vary label)
    ignore .simpleFreeUrb
    return retval
  else return -ENOMEM

/-- Tests 5 to 8. -/
def sglistTest (pipe : U32) (param : UsbtestParam32) (vary : U32) : Driver ℤ := do
  let sg ← perform (Op.allocSglist param.sglen param.length vary pipe)
  if sg then
    let retval ← perform (Op.performSglist param.iterations pipe param.sglen)
    ignore (.freeSglist param.sglen)
    return retval
  else return -ENOMEM

/-- The `switch` on `test_num`, with the endpoints of `dev`, its `info` and the module
parameter `pattern`. -/
def numberedTest (dev : Endpoints) (info : UsbtestInfo) (pattern : U32)
    (param : UsbtestParam32) : Driver ℤ :=
  let iterations := param.iterations
  let length := param.length
  let queue (slot : Slot) (offset : ℕ) : Driver ℤ :=
    perform (Op.testQueue (queueRequest param) (dev.pipe slot) (dev.desc slot) offset)
  let bulkQueue (slot : Slot) : Driver ℤ :=
    perform (Op.testQueue (queueRequest param) (dev.pipe slot) none 0)
  let bInterval (slot : Slot) := (dev.desc slot).map EndpointDescriptor.bInterval
  match param.testNum.toNat with
  | 0 => return 0
  | 1 => supported (dev.pipe .outBulk ≠ 0)
      (simpleTest (dev.pipe .outBulk) (some 0) param 0 "test1")
  | 2 => supported (dev.pipe .inBulk ≠ 0)
      (simpleTest (dev.pipe .inBulk) (some 0) param 0 "test2")
  | 3 => supported (dev.pipe .outBulk ≠ 0 ∧ param.vary ≠ 0)
      (simpleTest (dev.pipe .outBulk) (some 0) param param.vary "test3")
  | 4 => supported (dev.pipe .inBulk ≠ 0 ∧ param.vary ≠ 0)
      (simpleTest (dev.pipe .inBulk) (some 0) param param.vary "test4")
  | 5 => supported (dev.pipe .outBulk ≠ 0 ∧ param.sglen ≠ 0)
      (sglistTest (dev.pipe .outBulk) param 0)
  | 6 => supported (dev.pipe .inBulk ≠ 0 ∧ param.sglen ≠ 0)
      (sglistTest (dev.pipe .inBulk) param 0)
  | 7 => supported (dev.pipe .outBulk ≠ 0 ∧ param.sglen ≠ 0 ∧ param.vary ≠ 0)
      (sglistTest (dev.pipe .outBulk) param param.vary)
  | 8 => supported (dev.pipe .inBulk ≠ 0 ∧ param.sglen ≠ 0 ∧ param.vary ≠ 0)
      (sglistTest (dev.pipe .inBulk) param param.vary)
  | 9 => repeatTest (perform Op.ch9Postconfig) iterations.toNat
  | 10 => perform (Op.testCtrlQueue param.sglen iterations)
  | 11 => supported (dev.pipe .inBulk ≠ 0 ∧ length ≠ 0)
      (repeatTest (perform (Op.unlinkSimple (dev.pipe .inBulk) length)) iterations.toNat)
  | 12 => supported (dev.pipe .outBulk ≠ 0 ∧ length ≠ 0)
      (repeatTest (perform (Op.unlinkSimple (dev.pipe .outBulk) length)) iterations.toNat)
  | 13 => supported (dev.pipe .outBulk ≠ 0 ∨ dev.pipe .inBulk ≠ 0)
      (repeatTest (perform Op.haltSimple) iterations.toNat)
  | 14 => supported (info.ctrlOut = true)
      (perform (Op.ctrlOut iterations length param.vary 0))
  | 15 => supported (dev.pipe .outIso ≠ 0 ∧ param.sglen ≠ 0) (queue .outIso 0)
  | 16 => supported (dev.pipe .inIso ≠ 0 ∧ param.sglen ≠ 0) (queue .inIso 0)
  | 17 => supported (dev.pipe .outBulk ≠ 0)
      (perform (Op.testUnalignedBulk (dev.pipe .outBulk) length iterations false "test17"))
  | 18 => supported (dev.pipe .inBulk ≠ 0)
      (perform (Op.testUnalignedBulk (dev.pipe .inBulk) length iterations false "test18"))
  | 19 => supported (dev.pipe .outBulk ≠ 0)
      (perform (Op.testUnalignedBulk (dev.pipe .outBulk) length iterations true "test19"))
  | 20 => supported (dev.pipe .inBulk ≠ 0)
      (perform (Op.testUnalignedBulk (dev.pipe .inBulk) length iterations true "test20"))
  | 21 => supported (info.ctrlOut = true)
      (perform (Op.ctrlOut iterations length param.vary 1))
  | 22 => supported (dev.pipe .outIso ≠ 0 ∧ param.sglen ≠ 0) (queue .outIso 1)
  | 23 => supported (dev.pipe .inIso ≠ 0 ∧ param.sglen ≠ 0) (queue .inIso 1)
  | 24 => supported (dev.pipe .outBulk ≠ 0 ∧ length ≠ 0 ∧ 4 ≤ param.sglen.toNat)
      (repeatTest (perform (Op.unlinkQueued (dev.pipe .outBulk) param.sglen length))
        iterations.toNat)
  | 25 => supported (dev.pipe .outInt ≠ 0)
      (simpleTest (dev.pipe .outInt) (bInterval .outInt) param 0 "test25")
  | 26 => supported (dev.pipe .inInt ≠ 0)
      (simpleTest (dev.pipe .inInt) (bInterval .inInt) param 0 "test26")
  | 27 => supported (dev.pipe .outBulk ≠ 0 ∧ param.sglen ≠ 0 ∧ pattern = 0) (bulkQueue .outBulk)
  | 28 => supported (dev.pipe .inBulk ≠ 0 ∧ param.sglen ≠ 0 ∧ pattern = 0) (bulkQueue .inBulk)
  | 29 => supported (dev.pipe .outBulk ≠ 0)
      (repeatTest (perform Op.toggleSyncSimple) iterations.toNat)
  | _ => return -EOPNOTSUPP

/-- What an ioctl works with: the endpoints of `dev` and of its `info`, the other fields of
`info`, and the module parameter `pattern`. -/
structure IoctlContext where
  dev : Endpoints
  infoEps : Endpoints
  info : UsbtestInfo
  pattern : U32

def usbtestDoIoctl (ctx : IoctlContext) (param : UsbtestParam32) : Driver ℤ :=
  -- The fuzzing path returns before the request is checked.
  if param.isFz ≠ 0 then do
    fzIoctl ctx.infoEps param
    return 0
  else if param.iterations = 0 then return -EINVAL
  else if maxSglen < param.sglen.toNat then return -EINVAL
  else numberedTest ctx.dev ctx.info ctx.pattern param

/-! ## The two layouts -/

/-- The buffer of an ioctl, in the layout that its code names. -/
inductive Request
  | request64 (param : UsbtestParam64)
  | request32 (param : UsbtestParam32)
  | other
  deriving DecidableEq

/-- The conversion of a 64-bit request into the local variable `temp`. -/
def convert (temp : UsbtestParam32) (param : UsbtestParam64) : UsbtestParam32 :=
  { temp with
    testNum := param.testNum, iterations := param.iterations, length := param.length
    sglen := param.sglen, vary := param.vary }

/-- `usbtest_ioctl`, with the contents of `temp` on entry: its result and the buffer it
leaves. -/
def usbtestIoctl (ctx : IoctlContext) (temp : UsbtestParam32) (buf : Request) :
    Driver (ℤ × Request) := do
  let interrupted ← perform Op.mutexLockInterruptible
  if interrupted ≠ 0 then return (-ERESTARTSYS, buf)
  else
    match buf with
    | .other =>
      ignore .mutexUnlock
      return (-EOPNOTSUPP, buf)
    | .request64 param64 =>
      let (startSec, startNsec) ← perform Op.ktimeGetTs64
      -- `temp` is not cleared before the conversion.
      let retval ← usbtestDoIoctl ctx (convert temp param64)
      if retval < 0 then
        ignore .mutexUnlock
        return (retval, buf)
      else
        let (endSec, endNsec) ← perform Op.ktimeGetTs64
        let (sec, usec) := duration startSec startNsec endSec endNsec
        ignore .mutexUnlock
        return (retval, .request64 { param64 with
          durationSec := sec.signExtend 64, durationUsec := usec.signExtend 64 })
    | .request32 param32 =>
      let (startSec, startNsec) ← perform Op.ktimeGetTs64
      let retval ← usbtestDoIoctl ctx param32
      if retval < 0 then
        ignore .mutexUnlock
        return (retval, buf)
      else
        let (endSec, endNsec) ← perform Op.ktimeGetTs64
        let (sec, usec) := duration startSec startNsec endSec endNsec
        ignore .mutexUnlock
        return (retval, .request32 { param32 with durationSec := sec, durationUsec := usec })
where
  /-- `timespec64_sub`, in the two `__s32` fields. -/
  duration (startSec startNsec endSec endNsec : ℤ) : U32 × U32 :=
    let nsec := endNsec - startNsec
    let sec := endSec - startSec
    if nsec < 0 then (BitVec.ofInt 32 (sec - 1), BitVec.ofInt 32 ((nsec + 1000000000) / 1000))
    else (BitVec.ofInt 32 sec, BitVec.ofInt 32 (nsec / 1000))

/-! ## What the conversion leaves unset -/

/-- What the ioctl does with a 64-bit request is the same for any two contents of `temp`:
its result, and the operations with their parameters. -/
def IgnoresTemp (env : List Op → (c : Op) → c.Result) (ctx : IoctlContext)
    (param : UsbtestParam64) : Prop :=
  ∀ temp temp',
    ((usbtestIoctl ctx temp (.request64 param)).observe env).1.1 =
      ((usbtestIoctl ctx temp' (.request64 param)).observe env).1.1 ∧
    ((usbtestIoctl ctx temp (.request64 param)).observe env).2 =
      ((usbtestIoctl ctx temp' (.request64 param)).observe env).2

variable {env : List Op → (c : Op) → c.Result} {ctx : IoctlContext} {temp : UsbtestParam32}
  {param : UsbtestParam64}

theorem usbtestDoIoctl_of_fz {param : UsbtestParam32} (h : param.isFz ≠ 0) (ctx : IoctlContext) :
    usbtestDoIoctl ctx param = fzIoctl ctx.infoEps param >>= fun _ => .ret 0 := by
  exact if_pos h

/-- The operations of a fuzzing request are those of `fz_ioctl`, between the two readings of
the clock. -/
theorem observe_fuzz (hlock : env [] .mutexLockInterruptible = 0) (hfz : temp.isFz ≠ 0) :
    ((usbtestIoctl ctx temp (.request64 param)).observe env).2 =
      [.mutexLockInterruptible, .ktimeGetTs64] ++ fzCalls ctx.infoEps (convert temp param) ++
        [.ktimeGetTs64, .mutexUnlock] := by
  have hfz' : (convert temp param).isFz ≠ 0 := hfz
  simp [usbtestIoctl, observe, hlock, usbtestDoIoctl_of_fz hfz', fzIoctl, ignore,
    ← List.flatMap_def]

/-- A local variable of zeros. -/
def zeroTemp : UsbtestParam32 where
  testNum := 0
  iterations := 0
  length := 0
  vary := 0
  sglen := 0
  isFz := 0
  isCtrl := 0
  isBulk := 0
  isInt := 0
  isIso := 0
  isDirOut := 0
  ctrlOut := ⟨0, 0, 0, 0, 0⟩
  isSetAlt := 0
  dataSize := 0
  data := 0
  durationSec := 0
  durationUsec := 0

/-- While `is_fz` is zero, a converted request runs as it does in a `temp` of zeros. -/
theorem usbtestDoIoctl_convert (h : temp.isFz = 0) :
    usbtestDoIoctl ctx (convert temp param) = usbtestDoIoctl ctx (convert zeroTemp param) := by
  have hfz : (convert temp param).isFz = 0 := h
  rw [usbtestDoIoctl, if_neg (not_not.mpr hfz)]
  rfl

/-- Once the lock is taken, the contents of `temp` decide whether the altsetting is changed. -/
theorem not_ignoresTemp_of_locked (hlock : env [] .mutexLockInterruptible = 0) :
    ¬IgnoresTemp env ctx param := by
  intro h
  have htrace := (h { zeroTemp with isFz := 1 } { zeroTemp with isFz := 1, isSetAlt := 1 }).2
  rw [observe_fuzz hlock (by decide), observe_fuzz hlock (by decide)] at htrace
  simp [fzCalls, convert, zeroTemp] at htrace

/-- An ioctl on a 64-bit request is a function of the request and the device exactly when
it is interrupted while it waits for the lock. -/
theorem ignoresTemp_iff (env : List Op → (c : Op) → c.Result) (ctx : IoctlContext)
    (param : UsbtestParam64) :
    IgnoresTemp env ctx param ↔ env [] .mutexLockInterruptible ≠ 0 := by
  constructor
  · exact fun h hlock => not_ignoresTemp_of_locked hlock h
  · intro hlock temp temp'
    simp [usbtestIoctl, observe, hlock]

/-- The environment in which every call succeeds. -/
def quietEnv (_ : List Op) (c : Op) : c.Result := c.answer.success

/-- Test 0 in the older layout, on a device without endpoints. -/
theorem nop_depends_on_temp :
    ¬IgnoresTemp quietEnv
      ⟨.zero, .zero, ⟨"generic", 0, 0, false, false, false, false, 0, 0, 0, 0⟩, 0⟩
      ⟨0, 1, 0, 0, 0, 0, 0⟩ := by
  intro h
  exact absurd (h zeroTemp { zeroTemp with isFz := 1, isSetAlt := 1 }).2 (by decide)

end FuzzUSB.Usbtest
