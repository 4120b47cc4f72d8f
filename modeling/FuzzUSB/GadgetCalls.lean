import FuzzUSB.ConfigfsAttr
import FuzzUSB.Configfs

/-!
# The gadget calls of the executor

`syz_usb_trans0_1` to `syz_usb_trans4_5` build a gadget step by step and
`syz_usb_trans5_4` to `syz_usb_trans1_0` take it apart. `syz_usb_configfs_hid` and
`syz_usb_configfs_hid2` each build one gadget at once. The contents of a `struct stat`
before `stat` is called are an argument, `stMode`.
-/

namespace FuzzUSB.Gadget
open Program

/-- Executor code. -/
abbrev Exec := Program Sys.Result

/-- `stat(path, &st)`: `st.st_mode` afterwards. -/
def statMode (stMode : ℕ) (p : Path) : Exec ℕ := do
  let mode ← perform (Sys.stat p)
  -- A `stat` that fails leaves the buffer as it was.
  return mode.getD stMode

/-- `fd = open(path, O_RDWR); write(fd, data); close(fd)`. -/
def writeFile (p : Path) (data : Data) : Exec Unit := do
  let fd ← perform (Sys.openFile p)
  let _ ← perform (Sys.write fd data)
  let _ ← perform (Sys.close fd)
  return ()

def writeFiles : List (Path × Data) → Exec Unit
  | [] => return ()
  | (p, data) :: rest => do
    writeFile p data
    writeFiles rest

/-- `configfs_set_descs`. -/
def configfsSetDescs (a : ConfigfsAttr) : Exec Unit :=
  writeFiles ((setDescsWrites a).map fun w => (.name w.1, .text w.2))

/-! ## Building -/

def syzUsbTrans0_1 (gname : String) (attrs : ConfigfsAttr) (stMode : ℕ) : Exec ℤ := do
  let ret ← perform (Sys.chdir .usbGadget)
  if ret < 0 then return ret
  else
    let mode ← statMode stMode (.name gname)
    if sIsDir mode then return -1
    else
      let ret ← perform (Sys.mkdir (.name gname))
      if ret < 0 then return ret
      else
        let ret ← perform (Sys.chdir (.name gname))
        if ret < 0 then return ret
        else
          configfsSetDescs attrs
          return 0

/-- `syz_usb_trans1_2` and `syz_usb_trans2_3`. -/
def mkdirIn (gname : String) (p : Path) : Exec ℤ := do
  let ret ← perform (Sys.chdir (.inUsbGadget gname))
  if ret < 0 then return ret
  else
    let ret ← perform (Sys.mkdir p)
    if ret < 0 then return ret
    else return 0

def syzUsbTrans1_2 (gname config : String) : Exec ℤ := mkdirIn gname (.config config)

def syzUsbTrans2_3 (gname func : String) : Exec ℤ := mkdirIn gname (.function func)

def syzUsbTrans3_4 (gname func config linkName : String) : Exec ℤ := do
  let ret ← perform (Sys.chdir (.inUsbGadget gname))
  if ret < 0 then return ret
  else
    let fdGadget ← perform Sys.openDot
    if fdGadget < 0 then return fdGadget
    else
      let ret ← perform (Sys.symlinkat (.function func) fdGadget (.link config linkName))
      -- The descriptor stays open.
      if ret < 0 then return ret
      else
        let _ ← perform (Sys.close fdGadget)
        return 0

def syzUsbTrans4_5 (gname dummy : String) : Exec ℤ := do
  let ret ← perform (Sys.chdir (.inUsbGadget gname))
  if ret < 0 then return ret
  else
    let fdGadget ← perform (Sys.openFile (.name "UDC"))
    if fdGadget < 0 then return fdGadget
    else
      let ret ← perform (Sys.write fdGadget (.text dummy.toList))
      if ret < 0 then return ret
      else
        let _ ← perform (Sys.close fdGadget)
        return 0

/-! ## Teardown -/

/-- What the teardown calls have in common: `body` in the gadget, if `st` says that there is
such a directory. A failing `chdir` is reported and otherwise ignored. -/
def inGadget (gName : String) (stMode : ℕ) (body : Exec Unit) : Exec Unit := do
  let _ ← perform (Sys.chdir .usbGadget)
  let mode ← statMode stMode (.name gName)
  if sIsDir mode then
    let _ ← perform (Sys.chdir (.name gName))
    body
  else return ()

def syzUsbTrans5_4 (gName : String) (stMode : ℕ) : Exec Unit :=
  inGadget gName stMode (writeFile (.name "UDC") (.text []))

/-- The link that `syz_usb_trans4_3` removes from a gadget. -/
def linkTable : List (String × String × String) :=
  [("hid", "c.1", "hid.0"), ("hid2", "c.2", "hid.1"), ("prt", "c.1", "printer.0"),
   ("mass", "c.1", "mass_storage.0"), ("ncm", "c.1", "ncm.0"), ("ecm", "c.1", "ecm.0"),
   ("eem", "c.1", "eem.0"), ("acm", "c.1", "acm.0"), ("rndis", "c.1", "rndis.0"),
   ("subset", "c.1", "geth.0"), ("midi", "c.1", "midi.0"), ("ss", "c.1", "SourceSink.0"),
   ("serial", "c.1", "gser.0"), ("lb", "c.1", "Loopback.0"), ("uac1", "c.1", "uac1.0"),
   ("uac2", "c.1", "uac2.0")]

def syzUsbTrans4_3 (gName : String) (stMode : ℕ) : Exec Unit :=
  inGadget gName stMode
    (match linkTable.lookup gName with
    | some (c, n) => do
      let _ ← perform (Sys.remove (.link c n))
      return ()
    | none => return ())

/-- The function that `syz_usb_trans3_2` removes from a gadget. -/
def functionTable : List (String × String) :=
  [("hid", "hid.0"), ("hid2", "hid.1"), ("prt", "printer.0"), ("mass", "mass_storage.0"),
   ("ncm", "ncm.0"), ("ecm", "ecm.0"), ("eem", "eem.0"), ("acm", "acm.0"), ("rndis", "rndis.0"),
   ("subset", "geth.0"), ("midi", "midi.0"), ("ss", "SourceSink.0"), ("serial", "gser.0"),
   ("lb", "Loopback.0"), ("uac1", "uac1.0"), ("uac2", "uac2.0")]

def syzUsbTrans3_2 (gName : String) (stMode : ℕ) : Exec Unit :=
  inGadget gName stMode
    (match functionTable.lookup gName with
    | some f => do
      let _ ← perform (Sys.rmdir (.function f))
      return ()
    | none => return ())

def syzUsbTrans2_1 (gName : String) (stMode : ℕ) : Exec Unit :=
  inGadget gName stMode do
    let _ ← perform (Sys.rmdir (.config "c.1"))
    return ()

def syzUsbTrans1_0 (gName : String) (stMode : ℕ) : Exec Unit := do
  let ret ← perform (Sys.chdir .usbGadget)
  if ret < 0 then return ()
  else
    let mode ← statMode stMode (.name gName)
    if sIsDir mode then
      let _ ← perform (Sys.rmdir (.name gName))
      return ()
    else return ()

/-! ## The two builders -/

/-- `syz_usb_configfs_hid` and `syz_usb_configfs_hid2`. -/
def configfsHid (gname config func dummy : String) (attrs : ConfigfsAttr) (stMode : ℕ) :
    Exec Unit := do
  let _ ← perform (Sys.chdir .usbGadget)
  let mode ← statMode stMode (.name gname)
  if sIsDir mode then return ()
  else
    let _ ← perform (Sys.mkdir (.name gname))
    let _ ← perform (Sys.chdir (.name gname))
    configfsSetDescs attrs
    let _ ← perform (Sys.mkdir (.config config))
    let _ ← perform (Sys.mkdir (.function func))
    writeFiles
      [(.functionFile func "subclass", .text ['1']), (.functionFile func "protocol", .text ['1']),
       (.functionFile func "report_length", .text ['8']),
       (.functionFile func "report_desc", .reportDescKeyboard)]
    let fdGadget ← perform Sys.openDot
    let _ ← perform (Sys.symlinkat (.function func) fdGadget (.link config func))
    let _ ← perform (Sys.close fdGadget)
    writeFile (.name "UDC") (.text dummy.toList)

def syzUsbConfigfsHid (attrs : ConfigfsAttr) (stMode : ℕ) : Exec Unit :=
  configfsHid "hid" "c.1" "hid.0" "dummy_udc.0" attrs stMode

def syzUsbConfigfsHid2 (attrs : ConfigfsAttr) (stMode : ℕ) : Exec Unit :=
  configfsHid "hid2" "c.2" "hid.1" "dummy_udc.1" attrs stMode

/-! ## The calls that the description allows -/

def gadgetNames : List String :=
  ["acm", "ecm", "ncm", "eem", "hid", "prt", "mass", "rndis", "subset", "midi", "serial", "ss",
   "lb", "uac1", "uac2"]

/-- The names `<f>` in `func_names` and `config_names`, which are `functions/<f>` and
`configs/c.1/<f>`. -/
def funcNames : List String :=
  ["acm.0", "ecm.0", "ncm.0", "eem.0", "hid.0", "printer.0", "mass_storage.0", "rndis.0",
   "geth.0", "midi.0", "gser.0", "SourceSink.0", "lb.0", "uac1.0", "uac2.0"]

def dummyNames : List String :=
  (List.range 20).map fun n => "dummy_udc." ++ toString n

abbrev GadgetName := { g : String // g ∈ gadgetNames }
abbrev FuncName := { f : String // f ∈ funcNames }
abbrev DummyName := { d : String // d ∈ dummyNames }

/-- A call with arguments from the description, and what its `struct stat` holds before. -/
inductive Call
  | configfsHid (attrs : ConfigfsAttr) (stMode : ℕ)
  | configfsHid2 (attrs : ConfigfsAttr) (stMode : ℕ)
  | trans0_1 (gname : GadgetName) (attrs : ConfigfsAttr) (stMode : ℕ)
  /-- The configuration is `configs/c.1`. -/
  | trans1_2 (gname : GadgetName)
  | trans2_3 (gname : GadgetName) (func : FuncName)
  | trans3_4 (gname : GadgetName) (func config : FuncName)
  | trans4_5 (gname : GadgetName) (dummy : DummyName)
  | trans5_4 (gname : GadgetName) (stMode : ℕ)
  | trans4_3 (gname : GadgetName) (stMode : ℕ)
  | trans3_2 (gname : GadgetName) (stMode : ℕ)
  | trans2_1 (gname : GadgetName) (stMode : ℕ)
  | trans1_0 (gname : GadgetName) (stMode : ℕ)

/-- Run a program for what it does. -/
def exec {α : Type} (k : Kernel) (p : Exec α) (s : Proc) : Proc := (p.run (Proc.handle k) s).2

def Call.exec (k : Kernel) : Call → Proc → Proc
  | .configfsHid attrs stMode => Gadget.exec k (syzUsbConfigfsHid attrs stMode)
  | .configfsHid2 attrs stMode => Gadget.exec k (syzUsbConfigfsHid2 attrs stMode)
  | .trans0_1 g attrs stMode => Gadget.exec k (syzUsbTrans0_1 g attrs stMode)
  | .trans1_2 g => Gadget.exec k (syzUsbTrans1_2 g "c.1")
  | .trans2_3 g func => Gadget.exec k (syzUsbTrans2_3 g func)
  | .trans3_4 g func config => Gadget.exec k (syzUsbTrans3_4 g func "c.1" config)
  | .trans4_5 g dummy => Gadget.exec k (syzUsbTrans4_5 g dummy)
  | .trans5_4 g stMode => Gadget.exec k (syzUsbTrans5_4 g stMode)
  | .trans4_3 g stMode => Gadget.exec k (syzUsbTrans4_3 g stMode)
  | .trans3_2 g stMode => Gadget.exec k (syzUsbTrans3_2 g stMode)
  | .trans2_1 g stMode => Gadget.exec k (syzUsbTrans2_1 g stMode)
  | .trans1_0 g stMode => Gadget.exec k (syzUsbTrans1_0 g stMode)

/-- A process before any call, on an empty tree. -/
def Proc.start : Proc := ⟨.empty, .elsewhere, []⟩

/-- The process after a sequence of calls. -/
def afterCalls (k : Kernel) (calls : List Call) : Proc :=
  calls.foldl (fun s c => c.exec k s) .start

end FuzzUSB.Gadget
