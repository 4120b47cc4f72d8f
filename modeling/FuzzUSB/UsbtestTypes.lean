import FuzzUSB.Program
import Mathlib.Data.Int.Notation
import Mathlib.Logic.Function.Basic

/-!
# The data of the usbtest driver

Requests, endpoint records, and the calls that an ioctl makes. Outside the endpoint
search and the queues, what a test does to the bus is left to the environment that
answers the calls.
-/

namespace FuzzUSB.Usbtest

abbrev U32 := BitVec 32

def EINVAL : ℤ := 22
def ENOMEM : ℤ := 12
def ENODEV : ℤ := 19
def EACCES : ℤ := 13
def EIO : ℤ := 5
def EOPNOTSUPP : ℤ := 95
def ERESTARTSYS : ℤ := 512

/-- `MAX_SGLEN`. -/
def maxSglen : ℕ := 128

/-- `struct usb_ctrlrequest`. -/
structure CtrlRequest where
  bRequestType : BitVec 8
  bRequest : BitVec 8
  wValue : BitVec 16
  wIndex : BitVec 16
  wLength : BitVec 16
  deriving DecidableEq

/-- `struct usbtest_param_32`. -/
structure UsbtestParam32 where
  testNum : U32
  iterations : U32
  length : U32
  vary : U32
  sglen : U32
  isFz : U32
  isCtrl : U32
  isBulk : U32
  isInt : U32
  isIso : U32
  isDirOut : U32
  ctrlOut : CtrlRequest
  isSetAlt : U32
  dataSize : U32
  data : BitVec 64
  durationSec : U32
  durationUsec : U32
  deriving DecidableEq

/-- `struct usbtest_param_64`. -/
structure UsbtestParam64 where
  testNum : U32
  iterations : U32
  length : U32
  vary : U32
  sglen : U32
  durationSec : BitVec 64
  durationUsec : BitVec 64
  deriving DecidableEq

/-- The fields of `struct usb_endpoint_descriptor` that the driver reads. -/
structure EndpointDescriptor where
  bEndpointAddress : BitVec 8
  bmAttributes : BitVec 8
  wMaxPacketSize : BitVec 16
  bInterval : BitVec 8
  deriving DecidableEq

/-- The six endpoints that the driver tells apart: `in_pipe`, `out_pipe`, `in_iso_pipe`,
`out_iso_pipe`, `in_int_pipe` and `out_int_pipe`. -/
inductive Slot
  | inBulk | outBulk | inIso | outIso | inInt | outInt
  deriving DecidableEq

/-- The pipes and descriptor pointers that `usbtest_dev` and `usbtest_info` both have. A
pipe that is not set is 0 and a descriptor that is not set is `NULL`. -/
structure Endpoints where
  pipe : Slot → U32
  desc : Slot → Option EndpointDescriptor

/-- The endpoints of a record fresh from `kzalloc` or static storage. -/
def Endpoints.zero : Endpoints := ⟨fun _ => 0, fun _ => none⟩

/-- The fields of `struct usbtest_info` that are never assigned. -/
structure UsbtestInfo where
  name : String
  epIn : BitVec 8 := 0
  epOut : BitVec 8 := 0
  autoconf : Bool := false
  ctrlOut : Bool := false
  iso : Bool := false
  intr : Bool := false
  needFixAlt : ℤ := 0
  fixAltIntf0 : ℤ := 0
  fixAltIntf1 : ℤ := 0
  fixAltIntf2 : ℤ := 0

/-- What `host_fuzz` sends: `length` bytes of its own, or hex text from the user. -/
inductive HostData
  | length (bytes : U32)
  | hex (dataSize : U32) (data : BitVec 64)
  deriving DecidableEq

/-- The fields of a request that `test_queue` reads. -/
structure QueueRequest where
  iterations : U32
  sglen : U32
  length : U32
  deriving DecidableEq

/-- The calls that an ioctl makes, with what the callee reads of the request. The URBs
and scatterlists that `simple_io` to `free_sglist` work on are those allocated last. -/
inductive Op
  | mutexLockInterruptible
  | mutexUnlock
  | ktimeGetTs64
  | usbSetInterface (interface alternate : U32)
  | hostCtrFuzz (iterations : U32) (ctrlOut : CtrlRequest)
  | hostFuzz (iterations : U32) (data : HostData) (pipe : U32) (label : String)
  | hostFuzzInt (iterations length pipe : U32) (interval : ℕ) (label : String)
  | testQueue (req : QueueRequest) (pipe : U32) (desc : Option EndpointDescriptor) (offset : ℕ)
  /-- The interval is `none` when it is read through a `NULL` descriptor. -/
  | simpleAllocUrb (pipe bytes : U32) (bInterval : Option (BitVec 8))
  | simpleIo (iterations vary : U32) (label : String)
  | simpleFreeUrb
  | allocSglist (nents max vary pipe : U32)
  | performSglist (iterations pipe nents : U32)
  | freeSglist (nents : U32)
  | ch9Postconfig
  | testCtrlQueue (sglen iterations : U32)
  | unlinkSimple (pipe len : U32)
  | haltSimple
  | ctrlOut (count length vary : U32) (offset : ℕ)
  | testUnalignedBulk (pipe length iterations : U32) (noTransferDmaMap : Bool) (label : String)
  | unlinkQueued (pipe num size : U32)
  | toggleSyncSimple
  deriving DecidableEq

/-- What a call returns: whether there is an object, a `timespec64`, or an `int`. -/
inductive Answer
  | object | time | int

abbrev Answer.Result : Answer → Type
  | object => Bool
  | time => ℤ × ℤ
  | int => ℤ

/-- The answer when nothing goes wrong and the clock does not advance. -/
def Answer.success : (a : Answer) → a.Result
  | object => true
  | time => (0, 0)
  | int => (0 : ℤ)

abbrev Op.answer : Op → Answer
  | .simpleAllocUrb .. => .object
  | .allocSglist .. => .object
  | .ktimeGetTs64 => .time
  | _ => .int

abbrev Op.Result (c : Op) : Type := c.answer.Result

instance (c : Op) : Nonempty c.Result := ⟨c.answer.success⟩

/-- Driver code. -/
abbrev Driver := Program Op.Result

end FuzzUSB.Usbtest
