import Mathlib.Data.Fintype.Basic
import Mathlib.Logic.Function.Basic
import Xnd.Lib.Machine

/-!
# The descriptor table

`fd_table.c` keeps one `struct fd_source` for each open file or directory stream of
the process.  Descriptors that were dup'd from each other point at the same source.
`fd_table_save` writes into every source where the file stands, `fd_table_restore`
opens the files of an image again and seeks them there.

A process is its memory, with the table, the sources and the directory streams, and
what the kernel knows of its descriptors.  Sources and streams live in the heap, so
they come back with an image; the open files do not.  The heap hands out names in
order.  A freed name is not handed out again: the code never follows a pointer to it.
-/
namespace Xnd.Files
open Function (update)

/-- `MAXFILES` -/
abbrev maxFiles : Nat := 512

/-- The descriptors that `table[MAXFILES]` has an entry for. -/
abbrev Fd := Fin maxFiles

inductive FdType where
  | null | inherited | file | directory
  deriving DecidableEq, Repr

inductive FdState where
  | null | saved | restored
  deriving DecidableEq, Repr

structure FdSource where
  type : FdType
  state : FdState
  path : String
  flags : BitVec 32
  mode : Nat
  offset : Int
  ref : Int
  root : Fd
  dirp : Nat
  deriving DecidableEq, Repr

/-- A directory stream: `dirfd` and `telldir`. -/
structure Stream where
  fd : Fd
  tell : Int
  deriving DecidableEq, Repr

structure Memory where
  table : Fd → Option Nat
  source : Nat → Option FdSource
  stream : Nat → Option Stream
  /-- The next name of the heap. -/
  next : Nat

/-- An open file: one the process was started with, or one that it opened. -/
inductive OpenFile where
  | inherited (n : Nat)
  | opened (n : Nat)
  deriving DecidableEq, Repr

structure Kernel where
  desc : Fd → Option OpenFile
  /-- The file offset, when the file has one. -/
  offset : OpenFile → Option Int
  /-- How many files were opened. -/
  opened : Nat

/-! ## Flags -/

def oNonblock : BitVec 32 := 0x4
def oAppend : BitVec 32 := 0x8
def oTrunc : BitVec 32 := 0x400
def oExcl : BitVec 32 := 0x800
def oDirectory : BitVec 32 := 0x100000
def oCloexec : BitVec 32 := 0x1000000
def fdCloexec : BitVec 32 := 0x1

/-- The answers to the calls of `file_save` and `dir_save`: whether `lseek` or `telldir`
is answered, and what `F_GETFL` and `F_GETFD` return. -/
structure SaveAnswer where
  seek : Bool
  getfl : Option (BitVec 32)
  getfd : Option (BitVec 32)
  deriving DecidableEq, Repr

/-- `O_CLOEXEC` as the descriptor has it. -/
def cloexecFlags (flags getfd : BitVec 32) : BitVec 32 :=
  if flags &&& oCloexec ≠ 0 ∧ getfd &&& fdCloexec = 0 then flags &&& ~~~oCloexec
  else if getfd &&& fdCloexec ≠ 0 ∧ flags &&& oCloexec = 0 then flags ||| oCloexec
  else flags

namespace FdSource

/-- What `lseek(fd, 0, SEEK_CUR)` returns, -1 aside. -/
def seekCur (k : Kernel) (fd : Fd) : Option Int := (k.desc fd).bind k.offset

/-- What `telldir(src->dirp)` returns, -1 aside. -/
def telldir (stream : Nat → Option Stream) (src : FdSource) : Option Int :=
  (stream src.dirp).map Stream.tell

/-- `file_save`: whether it returns 0, and the source after it. -/
def fileSave (k : Kernel) (a : SaveAnswer) (fd : Fd) (src : FdSource) : Bool × FdSource :=
  match if a.seek then seekCur k fd else none with
  | none => (false, { src with offset := -1 })
  | some pos =>
      let src := { src with offset := pos }
      match a.getfl with
      | none => (false, src)
      | some fl =>
          let src := { src with flags := src.flags ||| (fl &&& (oAppend ||| oNonblock)) }
          match a.getfd with
          | none => (false, src)
          | some ret =>
              (true, { src with
                flags := cloexecFlags src.flags ret &&& ~~~oTrunc &&& ~~~oExcl
                state := .saved })

/-- `dir_save` -/
def dirSave (stream : Nat → Option Stream) (a : SaveAnswer) (src : FdSource) : Bool × FdSource :=
  match if a.seek then telldir stream src else none with
  | none => (false, src)
  | some tell =>
      let src := { src with offset := tell }
      match a.getfd with
      | none => (false, src)
      | some ret => (true, { src with flags := cloexecFlags src.flags ret, state := .saved })

/-- What the kernel reports as the position of a descriptor. -/
def reported (k : Kernel) (m : Memory) (fd : Fd) (src : FdSource) : Option Int :=
  match src.type with
  | .file => seekCur k fd
  | .directory => telldir m.stream src
  | _ => none

end FdSource

namespace Memory

def setSource (m : Memory) (s : Nat) (src : FdSource) : Memory :=
  { m with source := update m.source s (some src) }

@[simp] theorem setSource_table (m : Memory) (s : Nat) (src : FdSource) :
    (m.setSource s src).table = m.table := rfl

@[simp] theorem setSource_stream (m : Memory) (s : Nat) (src : FdSource) :
    (m.setSource s src).stream = m.stream := rfl

@[simp] theorem setSource_next (m : Memory) (s : Nat) (src : FdSource) :
    (m.setSource s src).next = m.next := rfl

@[simp] theorem setSource_source (m : Memory) (s : Nat) (src : FdSource) :
    (m.setSource s src).source = update m.source s (some src) := rfl

/-- A source that `malloc` gave to `table[fd]`. -/
def addSource (m : Memory) (fd : Fd) (src : FdSource) : Memory :=
  { m with
    table := update m.table fd (some m.next)
    source := update m.source m.next (some src)
    next := m.next + 1 }

@[simp] theorem addSource_table (m : Memory) (fd : Fd) (src : FdSource) :
    (m.addSource fd src).table = update m.table fd (some m.next) := rfl

@[simp] theorem addSource_source (m : Memory) (fd : Fd) (src : FdSource) :
    (m.addSource fd src).source = update m.source m.next (some src) := rfl

@[simp] theorem addSource_stream (m : Memory) (fd : Fd) (src : FdSource) :
    (m.addSource fd src).stream = m.stream := rfl

@[simp] theorem addSource_next (m : Memory) (fd : Fd) (src : FdSource) :
    (m.addSource fd src).next = m.next + 1 := rfl

end Memory

/-! ## `fd_table_init`, `fd_table_open`, `fd_table_opendir`, `fd_table_dup`, `fd_table_close` -/

/-- The source of a descriptor 0, 1 or 2 in `fd_table_init`. -/
def inheritedSource (fd : Fd) : FdSource :=
  { type := .inherited, state := .null, path := "", flags := 0, mode := 0, offset := 0, ref := 1
    root := fd, dirp := 0 }

theorem lt_maxFiles {n : Nat} (h : n < 3) : n < maxFiles := Nat.lt_trans h (by decide)

/-- `fd_table_init`: the sources 0, 1 and 2 are those of the descriptors. -/
def fdTableInit : Memory where
  table fd := if fd.val < 3 then some fd.val else none
  source s := if h : s < 3 then some (inheritedSource ⟨s, lt_maxFiles h⟩) else none
  stream _ := none
  next := 3

/-- `fd_table_open`.  The code leaves `offset`, `root` and `dirp` as
`malloc` returned them. -/
def fdTableOpen (m : Memory) (fd : Fd) (path : String) (flags : BitVec 32) (mode : Nat) : Memory :=
  m.addSource fd
    { type := .file, state := .null, path := path, flags := flags, mode := mode, offset := 0
      ref := 1, root := fd, dirp := 0 }

/-- `fd_table_opendir`, `fd` the `dirfd` of the stream.  No value stands for a pointer to
memory that was freed. -/
def fdTableOpendir (m : Memory) (dirp : Nat) (fd : Fd) (path : String) : Option Memory :=
  match m.table fd with
  | none => some (m.addSource fd
      { type := .directory, state := .null, path := path, flags := oDirectory, mode := 0
        offset := 0, ref := 1, root := fd, dirp := dirp })
  | some s => (m.source s).map fun src =>
      m.setSource s { src with type := .directory, dirp := dirp }

/-- `fd_table_dup` -/
def fdTableDup (m : Memory) (oldfd newfd : Fd) : Option Memory :=
  match m.table oldfd with
  | none => some m
  | some s => (m.source s).map fun src =>
      if src.type = .null then m
      else { m with
        table := update m.table newfd (some s)
        source := update m.source s (some { src with ref := src.ref + 1 }) }

/-- `ref--`, and `free` at 0. -/
def FdSource.release (src : FdSource) : Option FdSource :=
  if src.ref - 1 = 0 then none else some { src with ref := src.ref - 1 }

/-- `fd_table_close` -/
def fdTableClose (m : Memory) (fd : Fd) : Option Memory :=
  match m.table fd with
  | none => some m
  | some s => (m.source s).map fun src =>
      if src.type = .null then m
      else { m with
        table := update m.table fd none
        source := update m.source s src.release }

/-! ## `fd_table_save` -/

/-- `fd_ops[type].save(fd)`; there are no operations of the other two types. -/
def opsSave (k : Kernel) (m : Memory) (a : SaveAnswer) (fd : Fd) (src : FdSource) :
    Option (Bool × FdSource) :=
  match src.type with
  | .file => some (src.fileSave k a fd)
  | .directory => some (src.dirSave m.stream a)
  | _ => none

/-- One turn of the loop of `fd_table_save`: whether its system calls were successful. -/
def saveOne (k : Kernel) (a : SaveAnswer) (m : Memory) (fd : Fd) : Option (Bool × Memory) :=
  match m.table fd with
  | none => some (true, m)
  | some s => (m.source s).bind fun src =>
      if src.type = .inherited then some (true, m)
      else if src.state = .saved then some (true, m)
      else (opsSave k m a fd src).map fun r => (r.1, m.setSource s r.2)

/-- The loop of `fd_table_save` over the descriptors of a list. -/
def saveLoop (k : Kernel) (ans : Fd → SaveAnswer) : List Fd → Memory → Option (Bool × Memory)
  | [], m => some (true, m)
  | fd :: fds, m =>
      (saveOne k (ans fd) m fd).bind fun r =>
        (saveLoop k ans fds r.2).map fun r' => (r.1 && r'.1, r'.2)

/-- `fd_table_save`: whether all its system calls were successful, and the memory after it. -/
def fdTableSave (k : Kernel) (ans : Fd → SaveAnswer) (m : Memory) : Option (Bool × Memory) :=
  saveLoop k ans (List.finRange maxFiles) m

/-! ## `fd_table_restore` -/

/-- The answers to the calls of `fd_table_restore`: the process that restarts has its own
descriptors, and `open` returns a free one. -/
structure RestoreAnswer where
  desc : Fd → Option Nat
  offset : Nat → Option Int
  /-- The descriptor that `open` returns for a source restored at `fd`, -1 for none. -/
  openRet : Fd → Option Fd
  /-- Whether the file can be seeked. -/
  seekable : Fd → Bool

/-- The kernel side of a process that restarts. -/
def RestoreAnswer.kernel (r : RestoreAnswer) (opened : Nat) : Kernel where
  desc fd := (r.desc fd).map .inherited
  offset
    | .inherited n => r.offset n
    | .opened _ => none
  opened := opened

/-- `dup2`, of an open descriptor. -/
def Kernel.dup2 (k : Kernel) (oldfd newfd : Fd) : Option Kernel :=
  (k.desc oldfd).map fun f => { k with desc := update k.desc newfd (some f) }

/-- `open`, `dup2` to `fd` and `close` of what `open` returned. -/
def Kernel.openAt (k : Kernel) (ret fd : Fd) (pos : Option Int) : Option Kernel :=
  if k.desc ret ≠ none then none
  else some { k with
    desc := update k.desc fd (some (.opened k.opened))
    offset := update k.offset (.opened k.opened) pos
    opened := k.opened + 1 }

/-- `file_restore` -/
def fileRestore (r : RestoreAnswer) (k : Kernel) (m : Memory) (fd : Fd) (s : Nat) (src : FdSource) :
    Option (Kernel × Memory) :=
  if src.offset < 0 ∨ r.seekable fd = false then none
  else (r.openRet fd).bind fun ret =>
    (k.openAt ret fd (some src.offset)).map fun k =>
      (k, m.setSource s { src with root := fd, state := .restored })

/-- `dir_restore`.  The stream has to be there for `seekdir`. -/
def dirRestore (r : RestoreAnswer) (k : Kernel) (m : Memory) (fd : Fd) (s : Nat) (src : FdSource) :
    Option (Kernel × Memory) :=
  (m.stream src.dirp).bind fun d =>
    (r.openRet fd).bind fun ret =>
      (k.openAt ret fd none).map fun k =>
        (k, { m.setSource s { src with root := fd, state := .restored } with
          stream := update m.stream src.dirp (some { d with tell := src.offset }) })

/-- `fd_ops[type].restore(fd)` -/
def opsRestore (r : RestoreAnswer) (k : Kernel) (m : Memory) (fd : Fd) (s : Nat) (src : FdSource) :
    Option (Kernel × Memory) :=
  match src.type with
  | .file => fileRestore r k m fd s src
  | .directory => dirRestore r k m fd s src
  | _ => none

/-- One turn of the first loop, over the inherited descriptors. -/
def inheritOne (m : Memory) (k : Kernel) (fd : Fd) : Option Kernel :=
  match m.table fd with
  | none => some k
  | some s => (m.source s).bind fun src =>
      if src.type = .inherited ∧ fd ≠ src.root then k.dup2 src.root fd else some k

/-- One turn of the second loop. -/
def restoreOne (r : RestoreAnswer) (k : Kernel) (m : Memory) (fd : Fd) : Option (Kernel × Memory) :=
  match m.table fd with
  | none => some (k, m)
  | some s => (m.source s).bind fun src =>
      if src.type = .inherited then some (k, m)
      else if src.state = .restored then (k.dup2 src.root fd).map fun k => (k, m)
      else opsRestore r k m fd s src

def inheritLoop (m : Memory) : List Fd → Kernel → Option Kernel
  | [], k => some k
  | fd :: fds, k => (inheritOne m k fd).bind (inheritLoop m fds)

def restoreLoop (r : RestoreAnswer) : List Fd → Kernel → Memory → Option (Kernel × Memory)
  | [], k, m => some (k, m)
  | fd :: fds, k, m => (restoreOne r k m fd).bind fun x => restoreLoop r fds x.1 x.2

/-- The last loop: descriptors 0 to 2 that had been closed. -/
def closeUntracked (m : Memory) (k : Kernel) : Kernel :=
  { k with desc := fun fd => if fd.val < 3 ∧ m.table fd = none then none else k.desc fd }

/-- `fd_table_restore`, of the memory of an image.  There is no value when it aborts. -/
def fdTableRestore (r : RestoreAnswer) (opened : Nat) (m : Memory) : Option (Kernel × Memory) :=
  (inheritLoop m (List.finRange maxFiles) (r.kernel opened)).bind fun k =>
    (restoreLoop r (List.finRange maxFiles) k m).map fun x => (closeUntracked x.2 x.1, x.2)

/-! ## Runs -/

structure World where
  kernel : Kernel
  memory : Memory
  /-- The memories of the images, the last one first. -/
  images : List Memory

/-- A process at the end of `fd_table_init`, with the descriptors it was started with. -/
def World.init (desc : Fd → Option Nat) (offset : Nat → Option Int) : World where
  kernel :=
    { desc := fun fd => (desc fd).map .inherited
      offset := fun
        | .inherited n => offset n
        | .opened _ => none
      opened := 0 }
  memory := fdTableInit
  images := []

/-- What the program does with its descriptors, a checkpoint, and a restart. -/
inductive Action where
  /-- `open` and its relatives return `fd`; whether the file has an offset. -/
  | open (fd : Fd) (path : String) (flags : BitVec 32) (mode : Nat) (seekable : Bool)
  | opendir (fd : Fd) (path : String) (tell : Int)
  | fdopendir (fd : Fd) (path : String) (tell : Int)
  /-- `dup`, `F_DUPFD` and `dup2` -/
  | dup (oldfd newfd : Fd)
  | close (fd : Fd)
  | closedir (dirp : Nat)
  /-- A read, a write or a seek leaves the offset at `pos`. -/
  | move (fd : Fd) (pos : Int)
  /-- `readdir`, `seekdir` or `rewinddir` leaves the stream at `tell`. -/
  | walk (dirp : Nat) (tell : Int)
  | checkpoint (ans : Fd → SaveAnswer)
  /-- A restart from the image with this number. -/
  | restart (image : Nat) (r : RestoreAnswer)

/-- `fd_table_opendir` of a stream that the heap makes. -/
def World.addStream (w : World) (fd : Fd) (path : String) (tell : Int) (k : Kernel) :
    Option World :=
  (fdTableOpendir { w.memory with
      stream := update w.memory.stream w.memory.next (some ⟨fd, tell⟩)
      next := w.memory.next + 1 } w.memory.next fd path).map fun m =>
    { w with kernel := k, memory := m }

def Kernel.close (k : Kernel) (fd : Fd) : Kernel := { k with desc := update k.desc fd none }

/-- The calls on descriptors are those on tracked ones. -/
def step : Machine World Action
  | w, .open fd path flags mode seekable =>
      (w.kernel.openAt fd fd (if seekable then some 0 else none)).map fun k =>
        { w with kernel := k, memory := fdTableOpen w.memory fd path flags mode }
  | w, .opendir fd path tell =>
      (w.kernel.openAt fd fd none).bind fun k => w.addStream fd path tell k
  | w, .fdopendir fd path tell =>
      if w.kernel.desc fd = none ∨ w.memory.table fd = none then none
      else w.addStream fd path tell w.kernel
  | w, .dup oldfd newfd =>
      if w.memory.table oldfd = none then none
      else (w.kernel.dup2 oldfd newfd).bind fun k =>
        (fdTableDup w.memory oldfd newfd).map fun m => { w with kernel := k, memory := m }
  | w, .close fd =>
      if w.kernel.desc fd = none then none
      else (fdTableClose w.memory fd).map fun m =>
        { w with kernel := w.kernel.close fd, memory := m }
  | w, .closedir dirp => (w.memory.stream dirp).bind fun d =>
      if w.kernel.desc d.fd = none then none
      else (fdTableClose { w.memory with stream := update w.memory.stream dirp none } d.fd).map
        fun m => { w with kernel := w.kernel.close d.fd, memory := m }
  | w, .move fd pos => (w.kernel.desc fd).bind fun f =>
      if w.kernel.offset f = none then none
      else some { w with
        kernel := { w.kernel with offset := update w.kernel.offset f (some pos) } }
  | w, .walk dirp tell => (w.memory.stream dirp).map fun d =>
      { w with memory := { w.memory with
          stream := update w.memory.stream dirp (some { d with tell := tell }) } }
  | w, .checkpoint ans => (fdTableSave w.kernel ans w.memory).map fun r =>
      { w with memory := r.2, images := r.2 :: w.images }
  | w, .restart image r => (w.images[image]?).bind fun m =>
      (fdTableRestore r w.kernel.opened m).map fun x => { w with kernel := x.1, memory := x.2 }

end Xnd.Files
