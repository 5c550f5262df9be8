import Xnd.Files.Table

/-!
# The wrappers of the calls on files

`file_wrappers.c` makes a call and tells `fd_table.c` of it when it was successful.
`Os` is what the kernel has of the descriptors of the process: an open file description
carries the status flags and the offset and is shared by the descriptors that were
dup'd from each other, close-on-exec belongs to each descriptor.  A number that a call
returns is an argument of the call here.

A process also keeps the names that `malloc` and `free` were called with for a source.
-/
namespace Xnd.Files
open Function (update)

/-! ## The kernel -/

/-- What is open: a stream that the process was started with, or a path. -/
inductive Target where
  | stream (n : Nat)
  | path (path : String)
  deriving DecidableEq, Repr

/-- An open file description. -/
structure Description where
  target : Target
  /-- The flags of the call that opened it. -/
  flags : BitVec 32
  /-- `O_APPEND` and `O_NONBLOCK`, as `F_GETFL` reports them. -/
  status : BitVec 32
  offset : Int
  deriving DecidableEq, Repr

/-- A descriptor: its description, and `FD_CLOEXEC` as `F_GETFD` reports it. -/
structure Entry where
  file : Nat
  cloexec : Bool
  deriving DecidableEq, Repr

structure Os where
  desc : Nat → Option Entry
  file : Nat → Option Description
  /-- The name of the next description. -/
  next : Nat

/-- The flags that `F_GETFL` is asked for. -/
abbrev statusFlags : BitVec 32 := oAppend ||| oNonblock

namespace Os

/-- `open`, which returns `ret`. -/
def openFile (os : Os) (path : String) (flags : BitVec 32) (ret : Nat) : Option Os :=
  if os.desc ret ≠ none then none
  else some
    { desc := update os.desc ret (some ⟨os.next, flags &&& oCloexec ≠ 0⟩)
      file := update os.file os.next (some ⟨.path path, flags, flags &&& statusFlags, 0⟩)
      next := os.next + 1 }

def close (os : Os) (fd : Nat) : Option Os :=
  if os.desc fd = none then none else some { os with desc := update os.desc fd none }

/-- `dup2`, and `F_DUPFD_CLOEXEC` when the descriptor is to be closed on exec.  A
descriptor that is dup'd to itself stays as it is. -/
def dup2 (os : Os) (oldfd newfd : Nat) (cloexec : Bool) : Option Os :=
  (os.desc oldfd).map fun e =>
    if oldfd = newfd then os
    else { os with desc := update os.desc newfd (some ⟨e.file, cloexec⟩) }

/-- `dup`, `F_DUPFD` and `F_DUPFD_CLOEXEC`, which return `newfd`. -/
def dup (os : Os) (oldfd newfd : Nat) (cloexec : Bool) : Option Os :=
  if os.desc newfd ≠ none then none else os.dup2 oldfd newfd cloexec

/-- Changes the description of a descriptor. -/
def setFile (os : Os) (fd : Nat) (f : Description → Description) : Option Os :=
  (os.desc fd).bind fun e => (os.file e.file).map fun d =>
    { os with file := update os.file e.file (some (f d)) }

/-- `F_SETFL` -/
def setfl (os : Os) (fd : Nat) (flags : BitVec 32) : Option Os :=
  os.setFile fd fun d => { d with status := flags &&& statusFlags }

/-- `F_SETFD` -/
def setfd (os : Os) (fd : Nat) (cloexec : Bool) : Option Os :=
  (os.desc fd).map fun e => { os with desc := update os.desc fd (some { e with cloexec }) }

/-- `lseek`, or a read or a write, that leaves the offset at `pos`. -/
def seek (os : Os) (fd : Nat) (pos : Int) : Option Os :=
  os.setFile fd fun d => { d with offset := pos }

/-- `freopen`, whose stream had the descriptor `oldfd` and gets `newfd`. -/
def freopen (os : Os) (path : String) (oflag : BitVec 32) (oldfd newfd : Nat) : Option Os :=
  (os.close oldfd).bind fun os => os.openFile path oflag newfd

end Os

/-! ## The process -/

structure Process where
  os : Os
  memory : Memory
  /-- The sources that were allocated, the last one first. -/
  mallocs : List Nat
  /-- The sources that were freed. -/
  frees : List Nat

/-- A process at the end of `fd_table_init`. -/
def Process.init (os : Os) : Process where
  os := os
  memory := fdTableInit
  mallocs := [2, 1, 0]
  frees := []

/-- The sources that `fd_table_close` frees. -/
def Memory.freedBy (m : Memory) (fd : Fd) : List Nat :=
  match m.table fd with
  | none => []
  | some s =>
      if (m.source s).any (fun src => src.type ≠ .null ∧ src.release = none) then [s] else []

namespace Process

def tableOpen (w : Process) (fd : Fd) (path : String) (flags : BitVec 32) (mode : Nat) : Process :=
  { w with memory := fdTableOpen w.memory fd path flags mode, mallocs := w.memory.next :: w.mallocs }

/-- `fd_table_opendir`, of a stream that the heap makes. -/
def tableOpendir (w : Process) (fd : Fd) (path : String) (tell : Int) : Option Process :=
  let m := { w.memory with
    stream := update w.memory.stream w.memory.next (some ⟨fd, tell⟩)
    next := w.memory.next + 1 }
  (fdTableOpendir m w.memory.next fd path).map fun m' =>
    { w with memory := m', mallocs := if m.table fd = none then m.next :: w.mallocs else w.mallocs }

def tableDup (w : Process) (oldfd newfd : Fd) : Option Process :=
  (fdTableDup w.memory oldfd newfd).map fun m => { w with memory := m }

def tableClose (w : Process) (fd : Fd) : Option Process :=
  (fdTableClose w.memory fd).map fun m =>
    { w with memory := m, frees := w.memory.freedBy fd ++ w.frees }

/-- What `__freopen_hook` tells the table. -/
def tableFreopen (w : Process) (path : String) (oflag : BitVec 32) (oldfd newfd : Fd) :
    Option Process :=
  (if newfd ≠ oldfd then w.tableClose oldfd else some w).bind fun w =>
    (w.tableClose newfd).map fun w => w.tableOpen newfd path oflag 0x1b6

end Process

/-- The calls that are successful, on descriptors that the table has an entry for. -/
inductive Call where
  /-- `open`, `openat` and `creat` -/
  | openat (path : String) (flags : BitVec 32) (mode : Nat) (ret : Fd)
  | opendir (path : String) (tell : Int) (ret : Fd)
  /-- `fdopendir`, with what `F_GETPATH` says of the descriptor. -/
  | fdopendir (fd : Fd) (path : String) (tell : Int)
  | dup (oldfd newfd : Fd) (cloexec : Bool)
  | dup2 (oldfd newfd : Fd)
  | freopen (path : String) (oflag : BitVec 32) (oldfd newfd : Fd)
  | close (fd : Fd)
  | setfl (fd : Fd) (flags : BitVec 32)
  | setfd (fd : Fd) (cloexec : Bool)
  /-- A read, a write or a seek. -/
  | seek (fd : Fd) (pos : Int)
  /-- `readdir`, `seekdir` or `rewinddir` -/
  | walk (dirp : Nat) (tell : Int)
  deriving DecidableEq, Repr

namespace Call

/-- What the call does in the kernel. -/
def kernel (os : Os) : Call → Option Os
  | .openat path flags _ ret => os.openFile path flags ret
  | .opendir path _ ret => os.openFile path (oDirectory ||| oCloexec) ret
  | .fdopendir fd _ _ => if os.desc fd = none then none else some os
  | .dup oldfd newfd cloexec => os.dup oldfd newfd cloexec
  | .dup2 oldfd newfd => os.dup2 oldfd newfd false
  | .freopen path oflag oldfd newfd => os.freopen path oflag oldfd newfd
  | .close fd => os.close fd
  | .setfl fd flags => os.setfl fd flags
  | .setfd fd cloexec => os.setfd fd cloexec
  | .seek fd pos => os.seek fd pos
  | .walk _ _ => some os

/-- What its wrapper does then. -/
def wrapper (w : Process) : Call → Option Process
  | .openat path flags mode ret => some (w.tableOpen ret path flags mode)
  | .opendir path tell ret => w.tableOpendir ret path tell
  | .fdopendir fd path tell => w.tableOpendir fd path tell
  | .dup oldfd newfd _ => w.tableDup oldfd newfd
  | .dup2 oldfd newfd => w.tableDup oldfd newfd
  | .freopen path oflag oldfd newfd => w.tableFreopen path oflag oldfd newfd
  | .close fd => w.tableClose fd
  | .setfl _ _ | .setfd _ _ | .seek _ _ => some w
  | .walk dirp tell => (w.memory.stream dirp).map fun d =>
      { w with memory := { w.memory with
          stream := update w.memory.stream dirp (some { d with tell := tell }) } }

end Call

/-- A call that is successful.  There is no value when the wrapper reads a source that was
freed. -/
def Process.step : Machine Process Call := fun w c =>
  (c.kernel w.os).bind fun os => (c.wrapper w).map fun w' => { w' with os := os }

theorem Process.step_cases {w w' : Process} {c : Call} (h : w.step c = some w') :
    ∃ os w₁, c.kernel w.os = some os ∧ c.wrapper w = some w₁ ∧ w' = { w₁ with os := os } := by
  obtain ⟨os, hos, h⟩ := Option.bind_eq_some_iff.mp h
  obtain ⟨w₁, hw, rfl⟩ := Option.map_eq_some_iff.mp h
  exact ⟨os, w₁, hos, hw, rfl⟩

end Xnd.Files
