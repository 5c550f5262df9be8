import Xnd.Thread.Info

/-!
# The wrappers of files, memory and threads

Nearly all of them are one of two forms.  `interposed` calls the function itself
while the library is not set up, and otherwise calls it between `unsafe_enter`
and `unsafe_exit` and records the outcome.  `onThread` rejects a handle that the
library did not make and calls the function, inside the section, on the thread
the handle stands for.

Pointers and file descriptors are integers; a function that returns nothing
returns 0 here.
-/
namespace Xnd.Thread

/-- `XND_SKIP_INTERPOSE()`. -/
def xndSkipInterpose : LibcM Bool := do return (← libc .xndSkipInterpose []) ≠ 0

/-- A wrapper that runs `direct` while the library is not set up and `body` inside
the unsafe section otherwise. -/
def interposed (direct body : LibcM Int) : HookM Int := do
  if ← xndSkipInterpose then
    direct
  else
    unsafeEnter
    let ret ← body
    unsafeExit
    return ret

/-- A wrapper that calls its function with its own arguments and records
nothing. -/
def interposedCall (fn : Fn) (args : List Int) : HookM Int :=
  interposed (libc fn args) (libc fn args)

/-! ## `file_wrappers.c` -/

def oCreat : BitVec 32 := 0x200

/-- `mode`, which is the variadic argument when the file may be created. -/
def modeOf (flags : BitVec 32) (va : Int) : Int := if flags &&& oCreat ≠ 0 then va else 0

def openatHook (dirfd path : Int) (flags : BitVec 32) (va : Int) : HookM Int :=
  let args := [dirfd, path, flags.toInt, modeOf flags va]
  interposed (libc .openat args) do
    let retval ← libc .openat args
    if retval ≠ -1 then
      let _ ← libc .fdTableOpen [retval, path, flags.toInt, modeOf flags va]
    return retval

def atFdcwd : Int := -2
def oTrunc : BitVec 32 := 0x400
def oWronly : BitVec 32 := 0x1

def openHook (path : Int) (flags : BitVec 32) (va : Int) : HookM Int :=
  openatHook atFdcwd path flags (modeOf flags va)

def creatHook (path mode : Int) : HookM Int :=
  openatHook atFdcwd path (oCreat ||| oTrunc ||| oWronly) mode

def closeHook (fd : Int) : HookM Int :=
  interposed (libc .close [fd]) do
    let retval ← libc .close [fd]
    if retval ≠ -1 then
      let _ ← libc .fdTableClose [fd]
    return retval

def dupHook (oldfd : Int) : HookM Int :=
  interposed (libc .dup [oldfd]) do
    let newfd ← libc .dup [oldfd]
    if newfd ≠ -1 then
      let _ ← libc .fdTableDup [oldfd, newfd]
    return newfd

def dup2Hook (oldfd newfd : Int) : HookM Int :=
  interposed (libc .dup2 [oldfd, newfd]) do
    let retval ← libc .dup2 [oldfd, newfd]
    if retval ≠ -1 then
      xndAssert (retval = newfd)
      let _ ← libc .fdTableDup [oldfd, newfd]
    return retval

def fDupfd : Int := 0
def fDupfdCloexec : Int := 67
def fGetpath : Int := 50

def fcntlHook (fd cmd arg : Int) : HookM Int :=
  interposed (libc .fcntl [fd, cmd, arg]) do
    let ret ← libc .fcntl [fd, cmd, arg]
    if ret ≠ -1 ∧ (cmd = fDupfd ∨ cmd = fDupfdCloexec) then
      let _ ← libc .fdTableDup [fd, ret]
    return ret

def fopenHook (path mode : Int) : HookM Int :=
  interposed (libc .fopen [path, mode]) do
    let stream ← libc .fopen [path, mode]
    if stream ≠ 0 then
      let flags ← libc .modeToOflag [mode]
      let fd ← libc .fileno [stream]
      let _ ← libc .fdTableOpen [fd, path, flags, 0o666]
    return stream

def eof : Int := -1

def fcloseHook (stream : Int) : HookM Int :=
  interposed (libc .fclose [stream]) do
    let fd ← libc .fileno [stream]
    let ret ← libc .fclose [stream]
    if ret ≠ eof then
      let _ ← libc .fdTableClose [fd]
    return ret

/-- The path of `fd` by `fcntl(fd, F_GETPATH, buf)`, with `buf` a local array; 0
stands for the empty string. -/
def pathOf (fd : Int) : LibcM Int := do
  let buf ← libc .addressOfLocal []
  return if (← libc .fcntl [fd, fGetpath, buf]) = 0 then buf else 0

def freopenHook (path mode oldfp : Int) : HookM Int :=
  interposed (libc .freopen [path, mode, oldfp]) do
    let oldfd ← libc .fileno [oldfp]
    let path ← if path = 0 then pathOf oldfd else pure path
    let newfp ← libc .freopen [path, mode, oldfp]
    if newfp ≠ 0 then
      let newfd ← libc .fileno [newfp]
      let oflag ← libc .modeToOflag [mode]
      if newfd ≠ oldfd then
        let _ ← libc .fdTableClose [oldfd]
      let _ ← libc .fdTableClose [newfd]
      let _ ← libc .fdTableOpen [newfd, path, oflag, 0o666]
    return newfp

def opendirHook (path : Int) : HookM Int :=
  interposed (libc .opendir [path]) do
    let dirp ← libc .opendir [path]
    if dirp ≠ 0 then
      let _ ← libc .fdTableOpendir [dirp, path]
    return dirp

def fdopendirHook (fd : Int) : HookM Int := do
  if ← xndSkipInterpose then
    libc .fdopendir [fd]
  else
    let path ← pathOf fd
    unsafeEnter
    let dirp ← libc .fdopendir [fd]
    if dirp ≠ 0 then
      let _ ← libc .fdTableOpendir [dirp, path]
    unsafeExit
    return dirp

def closedirHook (dirp : Int) : HookM Int := do
  if ← xndSkipInterpose then
    libc .closedir [dirp]
  else
    let fd ← libc .dirfd [dirp]
    unsafeEnter
    let ret ← libc .closedir [dirp]
    if ret = 0 then
      let _ ← libc .fdTableClose [fd]
    unsafeExit
    return ret

def readdirHook (dirp : Int) : HookM Int := interposedCall .readdir [dirp]
def readdirRHook (dirp entry result : Int) : HookM Int :=
  interposedCall .readdirR [dirp, entry, result]
def telldirHook (dirp : Int) : HookM Int := interposedCall .telldir [dirp]
def seekdirHook (dirp loc : Int) : HookM Int := interposedCall .seekdir [dirp, loc]
def rewinddirHook (dirp : Int) : HookM Int := interposedCall .rewinddir [dirp]

/-! ## `stdlib_wrappers.c` -/

def callocHook (count size : Int) : HookM Int := interposedCall .calloc [count, size]
def freeHook (ptr : Int) : HookM Int := interposedCall .free [ptr]
def mallocHook (size : Int) : HookM Int := interposedCall .malloc [size]
def reallocHook (ptr size : Int) : HookM Int := interposedCall .realloc [ptr, size]
def reallocfHook (ptr size : Int) : HookM Int := interposedCall .reallocf [ptr, size]
def vallocHook (size : Int) : HookM Int := interposedCall .valloc [size]
def alignedAllocHook (align size : Int) : HookM Int := interposedCall .alignedAlloc [align, size]
def arc4randomHook : HookM Int := interposedCall .arc4random []
def arc4randomBufHook (buf nbyte : Int) : HookM Int := interposedCall .arc4randomBuf [buf, nbyte]
def arc4randomUniformHook (upper : Int) : HookM Int := interposedCall .arc4randomUniform [upper]

/-! ## `pthread_wrappers.c` -/

def pthreadMagic : BitVec 64 := 0x7770000000000000
def pthreadTagMask : BitVec 64 := 0xFFF0000000000000

def encodePthread (th : BitVec 64) : BitVec 64 := th ||| pthreadMagic
def decodePthread (p : BitVec 64) : BitVec 64 := p &&& ~~~pthreadTagMask
def validatePthread (p : BitVec 64) : Bool := pthreadTagMask &&& p == pthreadMagic

def esrch : Int := 3
def edeadlk : Int := 11
def einval : Int := 22
def eagain : Int := 35

/-- `while (t->f == value) pthread_cond_wait(&t->cond, &t->lock)`. -/
def condWaitWhile (t : Int) (f : Field) (value : Int) : Nat → LibcM Unit
  | 0 => Code.halt .running
  | fuel + 1 => do
      if (← libc (.field f) [t]) = value then
        let _ ← libc .pthreadCondWait [t]
        condWaitWhile t f value fuel

/-- The loop that waits for a flag of another thread, under its lock. -/
def awaitField (fuel : Nat) (t : Int) (f : Field) (value : Int) : LibcM Unit := do
  let _ ← libc .pthreadMutexLock [t]
  condWaitWhile t f value fuel
  let _ ← libc .pthreadMutexUnlock [t]

def pthreadCreateHook (fuel : Nat) (p attr startRoutine arg : Int) : HookM Int := do
  unsafeEnter
  let t ← libc .threadInit [startRoutine, arg]
  if t = 0 then
    unsafeExit
    return eagain
  else
    let err ← libc .pthreadCreate [p, attr, t]
    if err ≠ 0 then
      let _ ← libc .free [t]
      unsafeExit
      return err
    else
      -- ST_EMBRYO is 0.
      awaitField fuel t .state 0
      let _ ← libc .store [p, (encodePthread (BitVec.ofInt 64 t)).toInt]
      unsafeExit
      return err

def pthreadJoinHook (fuel : Nat) (p : BitVec 64) (valuePtr : Int) : HookM Int := do
  if !validatePthread p then
    return esrch
  else
    let t := (decodePthread p).toInt
    if t = (← libc .threadSelfOrNull []) then
      return edeadlk
    else
      awaitField fuel t .exiting 0
      unsafeEnter
      let self ← libc (.field .self) [t]
      let err ← libc .pthreadJoin [self, valuePtr]
      let _ ← libc (.setField .joined) [t, if err = 0 then 1 else 0]
      unsafeExit
      return err

/-- Calls `fn` inside the section, on the thread `th` describes. -/
def callOnThread (fn : Fn) (th : Int) (args : List Int) : HookM Int := do
  unsafeEnter
  let self ← libc (.field .self) [th]
  let err ← libc fn (self :: args)
  unsafeExit
  return err

/-- A wrapper that calls `fn` on the thread a handle stands for. -/
def onThread (fn : Fn) (p : BitVec 64) (args : List Int) : HookM Int := do
  if !validatePthread p then
    return esrch
  else
    callOnThread fn (decodePthread p).toInt args

def pthreadKillHook (p : BitVec 64) (sig : Int) : HookM Int := do
  if !validatePthread p then
    return esrch
  else if sig = (← libc .envGetCkptSignal []) then
    return einval
  else
    callOnThread .pthreadKill (decodePthread p).toInt [sig]

def pthreadDetachHook (p : BitVec 64) : HookM Int := onThread .pthreadDetach p []
def pthreadSetschedparamHook (p : BitVec 64) (policy param : Int) : HookM Int :=
  onThread .pthreadSetschedparam p [policy, param]
def pthreadGetschedparamHook (p : BitVec 64) (policy param : Int) : HookM Int :=
  onThread .pthreadGetschedparam p [policy, param]
def pthreadCancelHook (p : BitVec 64) : HookM Int := onThread .pthreadCancel p []

/-- A wrapper that asks about the stack of a thread; the calling thread and the
main thread need no section. -/
def onStack (fn : Fn) (p : BitVec 64) : HookM Int := do
  if !validatePthread p then
    return esrch
  else
    let th := (decodePthread p).toInt
    let own ← libc .threadSelfOrNull []
    let main ← if th = own then pure th else libc .mainThread []
    if th = own ∨ th = main then
      let self ← libc (.field .self) [th]
      libc fn [self]
    else
      callOnThread fn th []

def pthreadGetStackaddrNpHook (p : BitVec 64) : HookM Int := onStack .pthreadGetStackaddrNp p
def pthreadGetStacksizeNpHook (p : BitVec 64) : HookM Int := onStack .pthreadGetStacksizeNp p

end Xnd.Thread
