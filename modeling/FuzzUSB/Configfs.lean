import FuzzUSB.Program
import Mathlib.Data.Int.Notation
import Mathlib.Logic.Function.Basic

/-!
# Gadgets in configfs

The tree under `/sys/kernel/config/usb_gadget/`, as far as user programs create and remove
its entries, and the system calls of a process on it.
-/

namespace FuzzUSB.Gadget

/-- A symbolic link `configs/<config>/<name>` to `functions/<target>`. -/
structure Link where
  config : String
  name : String
  target : String
  deriving DecidableEq

/-- The directories and links that were created below a gadget. A link keeps its
configuration and its function alive. -/
structure GadgetDir where
  configs : List String
  functions : List String
  links : List Link
  link_config : ∀ l ∈ links, l.config ∈ configs
  link_target : ∀ l ∈ links, l.target ∈ functions

namespace GadgetDir

def empty : GadgetDir := ⟨[], [], [], by simp, by simp⟩

/-- `mkdir configs/<c>`. -/
def mkConfig (d : GadgetDir) (c : String) : Option GadgetDir :=
  if c ∈ d.configs then none
  else some { d with
    configs := c :: d.configs
    link_config := fun l hl => List.mem_cons_of_mem c (d.link_config l hl) }

/-- `mkdir functions/<f>`. -/
def mkFunction (d : GadgetDir) (f : String) : Option GadgetDir :=
  if f ∈ d.functions then none
  else some { d with
    functions := f :: d.functions
    link_target := fun l hl => List.mem_cons_of_mem f (d.link_target l hl) }

/-- `rmdir configs/<c>`, which fails while a link is left below. -/
def rmConfig (d : GadgetDir) (c : String) : Option GadgetDir :=
  if h : c ∈ d.configs ∧ ∀ l ∈ d.links, l.config ≠ c then
    some { d with
      configs := d.configs.filter (· ≠ c)
      link_config := fun l hl => List.mem_filter.mpr ⟨d.link_config l hl, by simpa using h.2 l hl⟩ }
  else none

/-- `rmdir functions/<f>`, which fails while a link leads there. -/
def rmFunction (d : GadgetDir) (f : String) : Option GadgetDir :=
  if h : f ∈ d.functions ∧ ∀ l ∈ d.links, l.target ≠ f then
    some { d with
      functions := d.functions.filter (· ≠ f)
      link_target := fun l hl => List.mem_filter.mpr ⟨d.link_target l hl, by simpa using h.2 l hl⟩ }
  else none

/-- `symlink functions/<l.target> configs/<l.config>/<l.name>`. A configuration takes a
name once, and a function once. -/
def addLink (d : GadgetDir) (l : Link) : Option GadgetDir :=
  if h : l.config ∈ d.configs ∧ l.target ∈ d.functions ∧
      ∀ l' ∈ d.links, l'.config = l.config → l'.name ≠ l.name ∧ l'.target ≠ l.target then
    some { d with
      links := l :: d.links
      link_config := by simpa using ⟨h.1, d.link_config⟩
      link_target := by simpa using ⟨h.2.1, d.link_target⟩ }
  else none

/-- `unlink configs/<c>/<name>`. -/
def unlink (d : GadgetDir) (c name : String) : Option GadgetDir :=
  if ∃ l ∈ d.links, l.config = c ∧ l.name = name then
    some { d with
      links := d.links.filter fun l => ¬(l.config = c ∧ l.name = name)
      link_config := fun l hl => d.link_config l ((List.mem_filter.mp hl).1)
      link_target := fun l hl => d.link_target l ((List.mem_filter.mp hl).1) }
  else none

/-- Nothing is left below the gadget. -/
def Bare (d : GadgetDir) : Prop := d.configs = [] ∧ d.functions = []

instance (d : GadgetDir) : Decidable d.Bare := inferInstanceAs (Decidable (_ ∧ _))

end GadgetDir

/-- The gadgets by name. -/
abbrev Tree := String → Option GadgetDir

def Tree.empty : Tree := fun _ => none

/-- The paths that the programs use. All but the first two are relative. -/
inductive Path
  /-- `/sys/kernel/config/usb_gadget/` -/
  | usbGadget
  /-- `/sys/kernel/config/usb_gadget/<g>` -/
  | inUsbGadget (g : String)
  | name (n : String)
  /-- `configs/<c>` -/
  | config (c : String)
  /-- `functions/<f>` -/
  | function (f : String)
  /-- `configs/<c>/<n>` -/
  | link (c n : String)
  /-- `functions/<f>/<n>` -/
  | functionFile (f n : String)
  deriving DecidableEq

/-- The working directory. -/
inductive Cwd
  | elsewhere | base
  | gadget (g : String)
  deriving DecidableEq

/-- Where a path leads. -/
inductive Place
  | base
  | gadget (g : String)
  | file (g n : String)
  | config (g c : String)
  | function (g f : String)
  | link (g c n : String)
  | functionFile (g f n : String)
  deriving DecidableEq

/-- Path lookup. In `usb_gadget/` itself only the names of gadgets lead anywhere: no gadget
has an entry for a configuration or a function but in its directories `configs` and
`functions`. -/
def resolve (cwd : Cwd) (p : Path) : Option Place :=
  match p, cwd with
  | .usbGadget, _ => some .base
  | .inUsbGadget g, _ => some (.gadget g)
  | .name n, .base => some (.gadget n)
  | .name n, .gadget g => some (.file g n)
  | .config c, .gadget g => some (.config g c)
  | .function f, .gadget g => some (.function g f)
  | .link c n, .gadget g => some (.link g c n)
  | .functionFile f n, .gadget g => some (.functionFile g f n)
  | _, _ => none

section

variable {cwd : Cwd} {p : Path} {g : String}

theorem resolve_config {c : String} (h : resolve cwd p = some (.config g c)) :
    cwd = .gadget g ∧ p = .config c := by
  cases p <;> cases cwd <;> cases h
  exact ⟨rfl, rfl⟩

theorem resolve_function {f : String} (h : resolve cwd p = some (.function g f)) :
    cwd = .gadget g ∧ p = .function f := by
  cases p <;> cases cwd <;> cases h
  exact ⟨rfl, rfl⟩

theorem resolve_link {c n : String} (h : resolve cwd p = some (.link g c n)) :
    cwd = .gadget g ∧ p = .link c n := by
  cases p <;> cases cwd <;> cases h
  exact ⟨rfl, rfl⟩

end

/-- The attributes of a gadget that the programs open. -/
def gadgetFiles : List String :=
  ["UDC", "bDeviceClass", "idVendor", "idProduct", "bcdUSB", "bcdDevice"]

/-- What is written to a file, without the NUL that ends a string. -/
inductive Data
  | text (chars : List Char)
  | reportDescKeyboard

/-- The rest of the kernel: the functions it can create, and what the store method of an
attribute returns. -/
structure Kernel where
  knows : String → Bool
  store : Place → Data → ℤ

namespace Tree

variable (t : Tree)

def isDir : Place → Bool
  | .base => true
  | .gadget g => (t g).isSome
  | .config g c => (t g).any fun d => c ∈ d.configs
  | .function g f => (t g).any fun d => f ∈ d.functions
  | _ => false

def isFile : Place → Bool
  | .file g n => (t g).isSome && n ∈ gadgetFiles
  | .functionFile g f _ => (t g).any fun d => f ∈ d.functions
  | _ => false

/-- Change one gadget, if the change succeeds. -/
def change (g : String) (f : GadgetDir → Option GadgetDir) : Option Tree :=
  ((t g).bind f).map fun d => Function.update t g (some d)

@[simp] theorem change_getD (g : String) (f : GadgetDir → Option GadgetDir) :
    ((t.change g f).getD t) g = (t g).map fun d => (f d).getD d := by
  unfold change
  cases h : t g with
  | none => simp [h]
  | some d => cases hf : f d <;> simp [h, hf]

def mkdir (k : Kernel) : Place → Option Tree
  | .gadget g => if (t g).isSome then none else some (Function.update t g (some .empty))
  | .config g c => t.change g (·.mkConfig c)
  | .function g f => if k.knows f then t.change g (·.mkFunction f) else none
  | _ => none

def rmdir : Place → Option Tree
  | .gadget g =>
    (t g).bind fun d => if d.Bare then some (Function.update t g none) else none
  | .config g c => t.change g (·.rmConfig c)
  | .function g f => t.change g (·.rmFunction f)
  | _ => none

/-- The `remove` of the C library: `unlink`, or `rmdir` on a directory. -/
def remove : Place → Option Tree
  | .link g c n => t.change g (·.unlink c n)
  | p => t.rmdir p

/-- A link in a configuration, from a function of the same gadget. -/
def symlink (target new : Place) : Option Tree :=
  match target, new with
  | .function g' f, .link g c n => if g' = g then t.change g (·.addLink ⟨c, n, f⟩) else none
  | _, _ => none

end Tree

/-- The system calls of the programs. -/
inductive Sys
  | chdir (p : Path)
  | stat (p : Path)
  | mkdir (p : Path)
  | rmdir (p : Path)
  | remove (p : Path)
  /-- `open(path, O_RDWR)` -/
  | openFile (p : Path)
  /-- `open(".", O_RDONLY | O_DIRECTORY)` -/
  | openDot
  | symlinkat (target : Path) (dirfd : ℤ) (linkpath : Path)
  | write (fd : ℤ) (data : Data)
  | close (fd : ℤ)

/-- A call returns an `int`, and `stat` the `st_mode` that it fills in when it succeeds. -/
abbrev Sys.Result : Sys → Type
  | .stat _ => Option ℕ
  | _ => ℤ

/-- A process: the tree, its working directory and the files it has opened. -/
structure Proc where
  tree : Tree
  cwd : Cwd
  fds : List (ℕ × Place)

/-- The lowest descriptor that is free, above the standard streams. -/
def Proc.lowestFree (s : Proc) : ℕ :=
  ((List.range' 3 (s.fds.length + 1)).find? fun n => n ∉ s.fds.map Prod.fst).getD 3

/-- `S_ISDIR`. -/
def sIsDir (mode : ℕ) : Bool := mode / 4096 % 16 = 4

def dirMode : ℕ := 16877
def fileMode : ℕ := 33188

namespace Proc

variable (s : Proc)

/-- A call that changes the tree and returns 0, or -1. -/
def attempt : Option Tree → ℤ × Proc
  | some t => (0, { s with tree := t })
  | none => (-1, s)

def openPlace (p : Option Place) : ℤ × Proc :=
  match p with
  | some p => (s.lowestFree, { s with fds := (s.lowestFree, p) :: s.fds })
  | none => (-1, s)

def cwdPlace : Option Place :=
  match s.cwd with
  | .elsewhere => none
  | .base => some .base
  | .gadget g => if (s.tree g).isSome then some (.gadget g) else none

/-- The place that a path leads to from a directory descriptor. -/
def resolveAt (dirfd : ℤ) (p : Path) : Option Place :=
  match s.fds.find? fun f => (f.1 : ℤ) = dirfd with
  | some (_, .base) => resolve .base p
  | some (_, .gadget g) => resolve (.gadget g) p
  | _ => none

def chdir (p : Path) : ℤ × Proc :=
  match resolve s.cwd p with
  | some .base => (0, { s with cwd := .base })
  | some (.gadget g) => if (s.tree g).isSome then (0, { s with cwd := .gadget g }) else (-1, s)
  | _ => (-1, s)

def stat (p : Path) : Option ℕ :=
  (resolve s.cwd p).bind fun p =>
    if s.tree.isDir p then some dirMode else if s.tree.isFile p then some fileMode else none

/-- What a system call returns and does. -/
def handle (k : Kernel) : (c : Sys) → Proc → c.Result × Proc
  | .chdir p, s => s.chdir p
  | .stat p, s => (s.stat p, s)
  | .mkdir p, s => s.attempt ((resolve s.cwd p).bind (s.tree.mkdir k))
  | .rmdir p, s => s.attempt ((resolve s.cwd p).bind s.tree.rmdir)
  | .remove p, s => s.attempt ((resolve s.cwd p).bind s.tree.remove)
  | .openFile p, s => s.openPlace ((resolve s.cwd p).filter s.tree.isFile)
  | .openDot, s => s.openPlace s.cwdPlace
  | .symlinkat target dirfd linkpath, s =>
    s.attempt ((resolve s.cwd target).bind fun target =>
      (s.resolveAt dirfd linkpath).bind (s.tree.symlink target))
  | .write fd data, s =>
    match s.fds.find? fun f => (f.1 : ℤ) = fd with
    | some (_, p) => (k.store p data, s)
    | none => (-1, s)
  | .close fd, s =>
    if s.fds.any fun f => (f.1 : ℤ) = fd then
      (0, { s with fds := s.fds.filter fun f => (f.1 : ℤ) ≠ fd })
    else (-1, s)

theorem resolveAt_eq_some {dirfd : ℤ} {p : Path} {pl : Place} (h : s.resolveAt dirfd p = some pl) :
    ∃ cwd, resolve cwd p = some pl := by
  unfold resolveAt at h
  split at h
  · exact ⟨_, h⟩
  · exact ⟨_, h⟩
  · cases h

@[simp] theorem attempt_tree (t : Option Tree) : (s.attempt t).2.tree = t.getD s.tree := by
  cases t <;> rfl

@[simp] theorem attempt_cwd (t : Option Tree) : (s.attempt t).2.cwd = s.cwd := by
  cases t <;> rfl

@[simp] theorem openPlace_tree (p : Option Place) : (s.openPlace p).2.tree = s.tree := by
  cases p <;> rfl

@[simp] theorem openPlace_cwd (p : Option Place) : (s.openPlace p).2.cwd = s.cwd := by
  cases p <;> rfl

section

variable (k : Kernel) (p : Path) (fd : ℤ)

@[simp] theorem handle_chdir : handle k (.chdir p) s = s.chdir p := rfl

@[simp] theorem handle_stat : handle k (.stat p) s = (s.stat p, s) := rfl

@[simp] theorem handle_mkdir :
    handle k (.mkdir p) s = s.attempt ((resolve s.cwd p).bind (s.tree.mkdir k)) := rfl

@[simp] theorem handle_rmdir :
    handle k (.rmdir p) s = s.attempt ((resolve s.cwd p).bind s.tree.rmdir) := rfl

@[simp] theorem handle_remove :
    handle k (.remove p) s = s.attempt ((resolve s.cwd p).bind s.tree.remove) := rfl

@[simp] theorem handle_openFile :
    handle k (.openFile p) s = s.openPlace ((resolve s.cwd p).filter s.tree.isFile) := rfl

@[simp] theorem handle_openDot : handle k .openDot s = s.openPlace s.cwdPlace := rfl

@[simp] theorem handle_write (data : Data) : (handle k (.write fd data) s).2 = s := by
  simp only [handle]
  split <;> rfl

@[simp] theorem handle_close_tree : (handle k (.close fd) s).2.tree = s.tree := by
  simp only [handle]
  split <;> rfl

@[simp] theorem handle_close_cwd : (handle k (.close fd) s).2.cwd = s.cwd := by
  simp only [handle]
  split <;> rfl

end

end Proc

end FuzzUSB.Gadget
