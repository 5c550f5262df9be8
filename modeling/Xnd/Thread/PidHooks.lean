import Xnd.Thread.Hooks

/-!
# The wrappers of process ids

They translate between the virtual ids a program sees and the real ones.  A
translation first asks the process's own table and then the coordinator; both
answers are the environment's, and -1 is the failure of either.

The wrappers of `libproc.h` that take one id are one form, `translated`, which
fails with its own value when the id is unknown.  `fork` and the `wait` family
have bodies of their own.
-/
namespace Xnd.Thread

def pidTableAcquire : LibcM Unit := do let _ ← libc .pidTableAcquire []
def pidTableRelease : LibcM Unit := do let _ ← libc .pidTableRelease []

def virtualToRealPid (virt : Int) : LibcM Int := do
  pidTableAcquire
  let real ← libc .pidTableVirtualToReal [virt]
  let real ← if real ≠ -1 then pure real else libc .virtToRealPidFromCoord [virt]
  pidTableRelease
  return real

def realToVirtualPid (real : Int) : LibcM Int := do
  pidTableAcquire
  let virt ← libc .pidTableRealToVirtual [real]
  let virt ← if virt ≠ -1 then pure virt else libc .realToVirtPidFromCoord [real]
  pidTableRelease
  return virt

/-! ## Groups -/

def getpgrpHook : HookM Int := do
  unsafeEnter
  let realPgrp ← libc .getpgrp []
  let realPid ← libc .realPid []
  let realPpid ← libc .realPpid []
  let virtPgrp ←
    if realPgrp = realPid then libc .virtPid []
    else if realPgrp = realPpid then libc .virtPpid []
    else realToVirtualPid realPgrp
  unsafeExit
  return virtPgrp

def getpgidHook (pid : Int) : HookM Int := do
  let realPid ← libc .realPid []
  if pid = 0 ∨ pid = realPid then
    getpgrpHook
  else
    unsafeEnter
    let realPid ← virtualToRealPid pid
    if realPid = -1 then
      unsafeExit
      return -1
    else
      let realPgid ← libc .getpgid [realPid]
      let virtPgid ← realToVirtualPid realPgid
      unsafeExit
      return virtPgid

/-! ## `fork` -/

/-- The wrapped `fork`: in the child, the handler of the library runs before it
returns. -/
def forkWithHandlers : HookM Int := do
  let realRet ← libc .fork []
  if realRet = 0 then
    threadListAtforkChild
  return realRet

def forkHook : HookM Int := do
  unsafeEnter
  let _ ← libc .xndRegisterForkHandlers []
  let realRet ← forkWithHandlers
  let virtRet ←
    if realRet = -1 then do
      let _ ← libc .xndAtforkFailed []
      pure (-1)
    else if realRet = 0 then
      pure 0
    else do
      let virtRet ← libc .envGetPidInfo []
      pidTableAcquire
      let _ ← libc .pidTableUpdate [virtRet, realRet]
      pidTableRelease
      pure virtRet
  unsafeExit
  return virtRet

/-! ## `wait` -/

def wnohang : BitVec 32 := 1

def wstatus (x : Int) : Int := x % 128
def wifexited (x : Int) : Prop := wstatus x = 0
def wifsignaled (x : Int) : Prop := wstatus x ≠ 127 ∧ wstatus x ≠ 0

instance (x : Int) : Decidable (wifexited x) := inferInstanceAs (Decidable (_ = _))
instance (x : Int) : Decidable (wifsignaled x) := inferInstanceAs (Decidable (_ ∧ _))

/-- The first switch of `__wait4_hook`. -/
def wait4Target (pid : Int) : LibcM Int := do
  if pid ≤ -2 then
    let realPid ← virtualToRealPid (-pid)
    xndAssert (realPid ≠ -1)
    return -realPid
  else if pid = 0 ∨ pid = -1 then
    return pid
  else
    let realPid ← virtualToRealPid pid
    xndAssert (realPid ≠ -1)
    return realPid

def pidTableEraseLocked (virt : Int) : LibcM Unit := do
  pidTableAcquire
  let _ ← libc .pidTableErase [virt]
  pidTableRelease

/-- The second switch of `__wait4_hook`, for a result other than -1. -/
def wait4Result (status realRet : Int) : LibcM Int := do
  if realRet = 0 then
    return 0
  else
    let virtRet ← realToVirtualPid realRet
    let word ← libc .load [status]
    if wifexited word then
      pidTableEraseLocked virtRet
    else if wifsignaled word then
      let realPid ← virtualToRealPid virtRet
      let _ ← libc .notifyCoordOfExit [realPid]
      pidTableEraseLocked virtRet
    return virtRet

/-- The loop of `__wait4_hook`.  The branch for -1 leaves it through `goto fail`,
past `unsafe_exit`. -/
def wait4Loop (pid status : Int) (options : BitVec 32) (ru svErrno : Int) : Nat → HookM Int
  | 0 => Code.halt .running
  | fuel + 1 => do
      unsafeEnter
      let realPid ← wait4Target pid
      let realRet ← libc .wait4 [realPid, status, (options ||| wnohang).toInt, ru]
      if realRet = -1 then
        let svErrno ← libc .errno []
        let _ ← libc .setErrno [svErrno]
        return -1
      else
        let virtRet ← wait4Result status realRet
        unsafeExit
        if options &&& wnohang ≠ 0 ∨ virtRet ≠ 0 then
          let _ ← libc .setErrno [svErrno]
          return virtRet
        else
          let _ ← libc .nanosleepHook [0, 1000]
          wait4Loop pid status options ru svErrno fuel

def wait4Hook (fuel : Nat) (pid status : Int) (options : BitVec 32) (ru : Int) : HookM Int := do
  let svErrno ← libc .errno []
  let status ← if status = 0 then libc .addressOfLocal [] else pure status
  wait4Loop pid status options ru svErrno fuel

def waitHook (fuel : Nat) (status : Int) : HookM Int := wait4Hook fuel (-1) status 0 0
def waitpidHook (fuel : Nat) (pid status : Int) (options : BitVec 32) : HookM Int :=
  wait4Hook fuel pid status options 0
def wait3Hook (fuel : Nat) (status : Int) (options : BitVec 32) (rusage : Int) : HookM Int :=
  wait4Hook fuel (-1) status options rusage

/-! ## `kill` -/

def killpgHook (pgrp sig : Int) : HookM Int := do
  if sig = (← libc .envGetCkptSignal []) then
    return -1
  else
    unsafeEnter
    let retval ←
      if pgrp = 0 then libc .killpg [0, sig]
      else do
        let realPgrp ← virtualToRealPid pgrp
        if realPgrp = -1 then pure (-1) else libc .killpg [realPgrp, sig]
    unsafeExit
    return retval

def killHook (pid sig : Int) : HookM Int := do
  if sig = (← libc .envGetCkptSignal []) then
    return -1
  else if pid ≤ -2 then
    killpgHook (-pid) sig
  else if pid = -1 then
    unsafeEnter
    let retval ← libc .kill [-1, sig]
    unsafeExit
    return retval
  else if pid = 0 then
    killpgHook 0 sig
  else
    unsafeEnter
    let realPid ← virtualToRealPid pid
    let retval ← if realPid = -1 then pure (-1) else libc .kill [realPid, sig]
    unsafeExit
    return retval

/-! ## `libproc.h` -/

/-- Replaces the real id in a field by the virtual one, when it has one. -/
def fieldRealToVirt (p : Int) (f : Field) : LibcM Unit := do
  let virt ← realToVirtualPid (← libc (.field f) [p])
  if virt ≠ -1 then
    let _ ← libc (.setField f) [p, virt]

def bsdinfoRealToVirt (bsd : Int) : LibcM Unit :=
  [Field.pbiPid, .pbiPpid, .pbiPgid, .eTpgid].forM (fieldRealToVirt bsd)

def bsdshortinfoRealToVirt (bsd : Int) : LibcM Unit :=
  [Field.pbsiPid, .pbsiPpid, .pbsiPgid].forM (fieldRealToVirt bsd)

def sizeofPid : Int := 4

/-- One round of the loop of `pid_list_real_to_virt`. -/
def pidListEntryRealToVirt (list i : Int) : LibcM Unit := do
  let real ← libc .load [list + sizeofPid * i]
  if real ≠ 0 then
    let virt ← realToVirtualPid real
    if virt ≠ -1 then
      let _ ← libc .store [list + sizeofPid * i, virt]

def pidListRealToVirt (list count : Int) : LibcM Unit :=
  (List.range count.toNat).forM fun i => pidListEntryRealToVirt list i

/-- `if (ret > 0 && buf != NULL) pid_list_real_to_virt(buf, ret / sizeof(pid_t))`. -/
def virtualizeList (buf ret : Int) : LibcM Unit := do
  if ret > 0 ∧ buf ≠ 0 then
    pidListRealToVirt buf (ret / sizeofPid)

def procPidtaskallinfo : Int := 2
def procPidtbsdinfo : Int := 3
def procPidtShortbsdinfo : Int := 13
def sizeofProcBsdinfo : Int := 136
def sizeofProcTaskallinfo : Int := 232
def sizeofProcBsdshortinfo : Int := 64

/-- The switch of `__proc_pidinfo_hook`; `pbsd` is the first member of
`struct proc_taskallinfo`. -/
def virtualizeInfo (flavor buf ret : Int) : LibcM Unit := do
  if ret > 0 ∧ buf ≠ 0 then
    if flavor = procPidtbsdinfo then
      if ret ≥ sizeofProcBsdinfo then bsdinfoRealToVirt buf
    else if flavor = procPidtaskallinfo then
      if ret ≥ sizeofProcTaskallinfo then bsdinfoRealToVirt buf
    else if flavor = procPidtShortbsdinfo then
      if ret ≥ sizeofProcBsdshortinfo then bsdshortinfoRealToVirt buf

/-- A wrapper that takes one id.  It calls `fn` on the real id followed by `args`
and passes the result to `after`; `unknown` is its result for an id without a real
one. -/
def translated (fn : Fn) (pid : Int) (args : List Int) (unknown : Int)
    (after : Int → LibcM Unit) : HookM Int := do
  if ← xndSkipInterpose then
    libc fn (pid :: args)
  else
    unsafeEnter
    let realPid ← virtualToRealPid pid
    if realPid = -1 then
      unsafeExit
      let _ ← libc .setErrno [esrch]
      return unknown
    else
      let ret ← libc fn (realPid :: args)
      after ret
      unsafeExit
      return ret

/-- Such a wrapper that leaves the result as it is. -/
def translatedCall (fn : Fn) (pid : Int) (args : List Int) (unknown : Int) : HookM Int :=
  translated fn pid args unknown fun _ => pure ()

def procPidinfoHook (pid flavor arg buf bufsize : Int) : HookM Int :=
  translated .procPidinfo pid [flavor, arg, buf, bufsize] 0 (virtualizeInfo flavor buf)
def procPidfdinfoHook (pid fd flavor buf bufsize : Int) : HookM Int :=
  translatedCall .procPidfdinfo pid [fd, flavor, buf, bufsize] 0
def procPidfileportinfoHook (pid fileport flavor buf bufsize : Int) : HookM Int :=
  translatedCall .procPidfileportinfo pid [fileport, flavor, buf, bufsize] 0
def procNameHook (pid buf bufsize : Int) : HookM Int :=
  translatedCall .procName pid [buf, bufsize] 0
def procRegionfilenameHook (pid addr buf bufsize : Int) : HookM Int :=
  translatedCall .procRegionfilename pid [addr, buf, bufsize] 0
def procPidpathHook (pid buf bufsize : Int) : HookM Int :=
  translatedCall .procPidpath pid [buf, bufsize] 0
def procPidRusageHook (pid flavor buf : Int) : HookM Int :=
  translatedCall .procPidRusage pid [flavor, buf] (-1)
def procTrackDirtyHook (pid flags : Int) : HookM Int :=
  translatedCall .procTrackDirty pid [flags] (-1)
def procSetDirtyHook (pid dirty : Int) : HookM Int :=
  translatedCall .procSetDirty pid [dirty] (-1)
def procGetDirtyHook (pid flags : Int) : HookM Int :=
  translatedCall .procGetDirty pid [flags] (-1)
def procClearDirtyHook (pid flags : Int) : HookM Int :=
  translatedCall .procClearDirty pid [flags] (-1)
def procTerminateHook (pid sig : Int) : HookM Int :=
  translatedCall .procTerminate pid [sig] (-1)
def procUdataInfoHook (pid flavor buf bufsize : Int) : HookM Int :=
  translatedCall .procUdataInfo pid [flavor, buf, bufsize] 0
def procListpgrppidsHook (pgrp buf bufsize : Int) : HookM Int :=
  translated .procListpgrppids pgrp [buf, bufsize] 0 (virtualizeList buf)
def procListchildpidsHook (ppid buf bufsize : Int) : HookM Int :=
  translated .procListchildpids ppid [buf, bufsize] 0 (virtualizeList buf)

def procPgrpOnly : Int := 2
def procPpidOnly : Int := 6

/-- The id among the arguments is one only for two of the types. -/
def procListpidsHook (type typeinfo buf bufsize : Int) : HookM Int := do
  if ← xndSkipInterpose then
    libc .procListpids [type, typeinfo, buf, bufsize]
  else
    unsafeEnter
    let translates := type = procPgrpOnly ∨ type = procPpidOnly
    let realTypeinfo ← if translates then virtualToRealPid typeinfo else pure typeinfo
    if translates ∧ realTypeinfo = -1 then
      unsafeExit
      let _ ← libc .setErrno [esrch]
      return 0
    else
      let ret ← libc .procListpids [type, realTypeinfo, buf, bufsize]
      virtualizeList buf ret
      unsafeExit
      return ret

def procListallpidsHook (buf bufsize : Int) : HookM Int :=
  interposed (libc .procListallpids [buf, bufsize]) do
    let ret ← libc .procListallpids [buf, bufsize]
    virtualizeList buf ret
    return ret

end Xnd.Thread
