import Xnd.Lib.TwoRuns
import Xnd.Pid.Reap

/-!
# The wrappers that take and return process ids

`pid_wrappers.c`, as far as ids go: which real ids a wrapper passes to the system and to
the coordinator, and which virtual ones it returns.  The table is the state; the
system, the coordinator and the order of the table's iteration answer the calls.  The
mutex, the errno and the unsafe section are left out, and the library is set up.

Virtual and real ids are integers alike, as they are in the source.
-/
namespace Xnd.Pid
open Coord (PidTable)

inductive WaitStatus where
  | exited | signaled | stopped
  deriving DecidableEq, Repr

/-- What `wait4` returns and stores. -/
structure Wait4Answer where
  ret : Int
  status : WaitStatus
  deriving DecidableEq, Repr

/-- What a call of the `proc_list` family returns and leaves in the buffer; no buffer for
`NULL`. -/
structure ListAnswer where
  ret : Int
  buf : Option (List Int)
  deriving DecidableEq, Repr

inductive SysCall where
  | getpid | getppid | getpgrp
  | getpgid (pid : Int)
  | wait4 (pid : Int) (options : BitVec 32)
  | kill (pid sig : Int)
  | killpg (pgrp sig : Int)
  | procListpids (type typeinfo : Int)
  | procListpgrppids (pgrp : Int)
  | procListchildpids (ppid : Int)
  | procListallpids
  -- the coordinator
  | virtToRealFromCoord (virt : Int)
  | realToVirtFromCoord (real : Int)
  | notifyCoordOfExit (pid : Int)
  /-- Where the iteration of the table begins. -/
  | iteration
  deriving DecidableEq, Repr

abbrev SysCall.Answer : SysCall → Type
  | .wait4 _ _ => Wait4Answer
  | .procListpids _ _ | .procListpgrppids _ | .procListchildpids _ | .procListallpids => ListAnswer
  | .notifyCoordOfExit _ => Unit
  | .iteration => Nat
  | _ => Int

inductive Abort where
  /-- A failed `xnd_assert`. -/
  | assertion
  /-- A wait that goes on. -/
  | running
  deriving DecidableEq, Repr

abbrev PidM := Code SysCall.Answer PidTable Abort

/-- The ids a process has for itself and its parent, and the signal of `xnd`. -/
structure PidInfo where
  virtPid : Int
  virtPpid : Int
  realPid : Int
  realPpid : Int
  ckptSignal : Int
  deriving DecidableEq, Repr

structure HookResult where
  ret : Int
  status : Option WaitStatus
  buf : Option (List Int)
  deriving DecidableEq, Repr

def HookResult.of (ret : Int) : HookResult := ⟨ret, none, none⟩

/-- One call. -/
def ask (c : SysCall) : PidM c.Answer := Code.call c

namespace Wrappers

def virtualToRealPid (virt : Int) : PidM Int := do
  let t ← Code.get
  if t.virtualToReal virt ≠ -1 then
    return t.virtualToReal virt
  else
    ask (.virtToRealFromCoord virt)

def realToVirtualPid (real : Int) : PidM Int := do
  let i ← ask .iteration
  let t ← Code.get
  if t.realToVirtual i real ≠ -1 then
    return t.realToVirtual i real
  else
    ask (.realToVirtFromCoord real)

section Hooks
variable (info : PidInfo)

def getpidHook : PidM Int :=
  if info.virtPid ≠ -1 then pure info.virtPid else ask .getpid

def getppidHook : PidM Int :=
  if info.virtPpid ≠ -1 then pure info.virtPpid else ask .getppid

def getpgrpHook : PidM Int := do
  let realPgrp ← ask .getpgrp
  if realPgrp = info.realPid then
    return info.virtPid
  else if realPgrp = info.realPpid then
    return info.virtPpid
  else
    realToVirtualPid realPgrp

def getpgidHook (pid : Int) : PidM Int := do
  if pid = 0 ∨ pid = info.realPid then
    getpgrpHook info
  else
    let realPid ← virtualToRealPid pid
    if realPid = -1 then
      return -1
    else
      let realPgid ← ask (.getpgid realPid)
      realToVirtualPid realPgid

def wnohang : BitVec 32 := 1

/-- The first switch of `__wait4_hook`. -/
def wait4Target (pid : Int) : PidM Int := do
  if pid ≤ -2 then
    let realPid ← virtualToRealPid (-pid)
    if realPid = -1 then Code.halt .assertion else return -realPid
  else if pid = 0 ∨ pid = -1 then
    return pid
  else
    let realPid ← virtualToRealPid pid
    if realPid = -1 then Code.halt .assertion else return realPid

/-- What the second switch does for a child: the entry of one that is gone is erased. -/
def forgetChild (status : WaitStatus) (virtRet : Int) : PidM Unit :=
  if status = .exited then
    Code.modify fun t => t.erase virtRet
  else if status = .signaled then do
    let realPid ← virtualToRealPid virtRet
    ask (.notifyCoordOfExit realPid)
    Code.modify fun t => t.erase virtRet
  else
    pure ()

/-- The second switch, for a result other than -1. -/
def wait4Result (a : Wait4Answer) : PidM Int := do
  if a.ret = 0 then
    return 0
  else
    let virtRet ← realToVirtualPid a.ret
    forgetChild a.status virtRet
    return virtRet

def wait4Hook (pid : Int) (options : BitVec 32) : Nat → PidM HookResult
  | 0 => Code.halt .running
  | fuel + 1 => do
      let realPid ← wait4Target pid
      let a ← ask (.wait4 realPid (options ||| wnohang))
      if a.ret = -1 then
        return .of (-1)
      else
        let virtRet ← wait4Result a
        if options &&& wnohang ≠ 0 ∨ virtRet ≠ 0 then
          return ⟨virtRet, some a.status, none⟩
        else
          wait4Hook pid options fuel

def killpgHook (pgrp sig : Int) : PidM Int := do
  if sig = info.ckptSignal then
    return -1
  else if pgrp = 0 then
    ask (.killpg 0 sig)
  else
    let realPgrp ← virtualToRealPid pgrp
    if realPgrp = -1 then return -1 else ask (.killpg realPgrp sig)

def killHook (pid sig : Int) : PidM Int := do
  if sig = info.ckptSignal then
    return -1
  else if pid ≤ -2 then
    killpgHook info (-pid) sig
  else if pid = -1 then
    ask (.kill (-1) sig)
  else if pid = 0 then
    killpgHook info 0 sig
  else
    let realPid ← virtualToRealPid pid
    if realPid = -1 then return -1 else ask (.kill realPid sig)

end Hooks

/-! ## The `proc_list` family -/

/-- An entry with no virtual id is left as it is. -/
def pidListEntry (real : Int) : PidM Int := do
  if real = 0 then
    return real
  else
    let virt ← realToVirtualPid real
    return if virt ≠ -1 then virt else real

/-- `pid_list_real_to_virt`, of the first `count` entries. -/
def pidListRealToVirt : Nat → List Int → PidM (List Int)
  | count + 1, real :: list => do
      let virt ← pidListEntry real
      let rest ← pidListRealToVirt count list
      return virt :: rest
  | _, list => pure list

def sizeofPid : Int := 4

/-- The number of entries that the wrappers translate. -/
def ListAnswer.count (a : ListAnswer) : Nat := (a.ret / sizeofPid).toNat

/-- The end of a wrapper of the family. -/
def virtualizeList (a : ListAnswer) : PidM HookResult := do
  match a.buf with
  | none => return ⟨a.ret, none, none⟩
  | some list =>
      if a.ret > 0 then
        let list ← pidListRealToVirt (ListAnswer.count a) list
        return ⟨a.ret, none, some list⟩
      else
        return ⟨a.ret, none, some list⟩

/-- A wrapper of the family that takes an id and returns 0 when it has no real one. -/
def listOf (call : Int → PidM ListAnswer) (pid : Int) : PidM HookResult := do
  let real ← virtualToRealPid pid
  if real = -1 then
    return .of 0
  else
    let a ← call real
    virtualizeList a

def procListpgrppidsHook (pgrp : Int) : PidM HookResult :=
  listOf (fun real => ask (.procListpgrppids real)) pgrp

def procListchildpidsHook (ppid : Int) : PidM HookResult :=
  listOf (fun real => ask (.procListchildpids real)) ppid

def procPgrpOnly : Int := 2
def procPpidOnly : Int := 6

/-- `typeinfo` is an id only for two of the types. -/
def procListpidsHook (type typeinfo : Int) : PidM HookResult :=
  if type = procPgrpOnly ∨ type = procPpidOnly then
    listOf (fun real => ask (.procListpids type real)) typeinfo
  else do
    let a ← ask (.procListpids type typeinfo)
    virtualizeList a

def procListallpidsHook : PidM HookResult := do
  let a ← ask .procListallpids
  virtualizeList a

end Wrappers

/-! ## Sequences of calls -/

inductive HookCall where
  | getpid | getppid | getpgrp
  | getpgid (pid : Int)
  /-- `wait`, `waitpid`, `wait3` and `wait4`; how often it may look. -/
  | wait4 (pid : Int) (options : BitVec 32) (fuel : Nat)
  | kill (pid sig : Int)
  | killpg (pgrp sig : Int)
  | procListpids (type typeinfo : Int)
  | procListpgrppids (pgrp : Int)
  | procListchildpids (ppid : Int)
  | procListallpids
  deriving DecidableEq, Repr

open Wrappers in
def HookCall.code (info : PidInfo) : HookCall → PidM HookResult
  | .getpid => HookResult.of <$> getpidHook info
  | .getppid => HookResult.of <$> getppidHook info
  | .getpgrp => HookResult.of <$> getpgrpHook info
  | .getpgid pid => HookResult.of <$> getpgidHook info pid
  | .wait4 pid options fuel => wait4Hook pid options fuel
  | .kill pid sig => HookResult.of <$> killHook info pid sig
  | .killpg pgrp sig => HookResult.of <$> killpgHook info pgrp sig
  | .procListpids type typeinfo => procListpidsHook type typeinfo
  | .procListpgrppids pgrp => procListpgrppidsHook pgrp
  | .procListchildpids ppid => procListchildpidsHook ppid
  | .procListallpids => procListallpidsHook

/-- One call after the other. -/
def callAll (info : PidInfo) : List HookCall → PidM (List HookResult)
  | [] => pure []
  | c :: calls => do
      let r ← c.code info
      let rest ← callAll info calls
      return r :: rest

end Xnd.Pid
