import Xnd.Lib.Prog
import Mathlib.Data.BitVec

/-!
# Thread descriptors and the unsafe section

Every user thread has a descriptor.  Two of its fields keep the checkpoint thread
away while the thread is inside a wrapped call: `state`, which `suspend_threads`
reads, and `wrapper_depth`, which counts nested wrappers so that only the
outermost one moves the state.  `unsafe_enter` and `unsafe_exit` are the two ends
of such a section.

The program here is one thread with the wrappers it runs.  Its state is what
`thread_self_or_null` answers, `none` before the thread-local variable is set up;
its environment are the wrapped library calls and the parts of the library that
leave the descriptor alone.  Those answer an integer: a result, a pointer or the
contents of a memory cell.
-/
namespace Xnd.Thread

/-- `enum thread_state`. -/
inductive ThreadState where
  | stEmbryo | stRunning | stSignaled | stSuspinprog | stSuspended | stCkptThread | stUnsafe
  deriving DecidableEq, Repr

/-- `struct thread_info`, as far as the wrappers of the thread itself go. -/
@[ext] structure ThreadInfo where
  state : ThreadState
  wrapperDepth : BitVec 32
  deriving DecidableEq, Repr

/-- Fields a wrapper reads or writes through a pointer. -/
inductive Field where
  -- struct proc_bsdinfo, struct proc_bsdshortinfo
  | pbiPid | pbiPpid | pbiPgid | eTpgid | pbsiPid | pbsiPpid | pbsiPgid
  -- struct thread_info of another thread
  | self | state | exiting | joined
  deriving DecidableEq, Repr

/-- The functions a wrapper calls, and the cells it reads and writes through a
pointer it was given. -/
inductive Fn where
  -- file_wrappers.c
  | openat | close | dup | dup2 | fcntl | fopen | fclose | freopen | fileno | modeToOflag
  | opendir | fdopendir | closedir | dirfd | readdir | readdirR | telldir | seekdir | rewinddir
  | fdTableOpen | fdTableClose | fdTableDup | fdTableOpendir
  -- stdlib_wrappers.c
  | calloc | free | malloc | realloc | reallocf | valloc | alignedAlloc
  | arc4random | arc4randomBuf | arc4randomUniform
  -- pthread_wrappers.c
  | threadInit | pthreadCreate | pthreadMutexLock | pthreadMutexUnlock | pthreadCondWait
  | pthreadJoin | pthreadKill | pthreadDetach | pthreadSetschedparam | pthreadGetschedparam
  | pthreadGetStackaddrNp | pthreadGetStacksizeNp | pthreadCancel
  | threadSelfOrNull | mainThread
  -- pid_wrappers.c
  | getpgrp | getpgid | fork | wait4 | kill | killpg | nanosleepHook
  | xndRegisterForkHandlers | xndAtforkFailed | ckptThreadInit
  | pidTableAcquire | pidTableRelease | pidTableVirtualToReal | pidTableRealToVirtual
  | pidTableUpdate | pidTableErase | virtToRealPidFromCoord | realToVirtPidFromCoord
  | notifyCoordOfExit | envGetPidInfo
  | procPidinfo | procPidfdinfo | procPidfileportinfo | procName | procRegionfilename
  | procPidpath | procPidRusage | procTrackDirty | procSetDirty | procGetDirty | procClearDirty
  | procTerminate | procUdataInfo | procListpgrppids | procListchildpids | procListpids
  | procListallpids
  -- variables and cells
  | xndSkipInterpose | envGetCkptSignal | errno | setErrno | virtPid | virtPpid | realPid | realPpid
  | addressOfLocal | load | store | field (f : Field) | setField (f : Field)
  deriving DecidableEq, Repr

/-- A call with its arguments. -/
structure Call where
  fn : Fn
  args : List Int
  deriving DecidableEq, Repr

/-- Why a wrapper does not return: a failed assertion aborts the process, a loop
is still running when the fuel is used up, and the loop of `unsafe_enter` never
ends when the state is not the one it expects. -/
inductive Stuck where
  | assertion | running | spinning
  deriving DecidableEq, Repr

/-- What `thread_self_or_null` answers. -/
abbrev Self := Option ThreadInfo

/-- Code of a wrapper. -/
abbrev HookM := Code (fun _ : Call => Int) Self Stuck

/-- Code that cannot reach the descriptor of the thread. -/
abbrev LibcM := Code (fun _ : Call => Int) Unit Stuck

/-- A run of calls with their results. -/
abbrev Calls := List (Event fun _ : Call => Int)

/-- The same program, run by a thread. -/
def lift {α : Type} (self : Self) : Prog (fun _ : Call => Int) Unit Stuck α →
    Prog (fun _ : Call => Int) Self Stuck α
  | .ret _ a => .ret self a
  | .call _ c k => .call self c fun r => lift self (k r)
  | .halt _ e => .halt self e

instance : MonadLift LibcM HookM where
  monadLift m := fun self => lift self (m ())

def libc (fn : Fn) (args : List Int) : LibcM Int := Code.call ⟨fn, args⟩

/-- `xnd_assert`. -/
def xndAssert (p : Prop) [Decidable p] : LibcM Unit :=
  if p then pure () else Code.halt .assertion

/-! ## The unsafe section -/

/-- The descriptor after `unsafe_enter`; `none` when the loop around
`thread_state_cas(self, ST_RUNNING, ST_UNSAFE)` does not end. -/
def ThreadInfo.enter (self : ThreadInfo) : Option ThreadInfo :=
  if self.wrapperDepth = 0 then
    if self.state = .stRunning then some ⟨.stUnsafe, self.wrapperDepth + 1⟩ else none
  else some { self with wrapperDepth := self.wrapperDepth + 1 }

/-- The descriptor after `unsafe_exit`; the result of its `thread_state_cas` is
not looked at. -/
def ThreadInfo.exit (self : ThreadInfo) : ThreadInfo :=
  if self.wrapperDepth - 1 = 0 ∧ self.state = .stUnsafe then ⟨.stRunning, 0⟩
  else { self with wrapperDepth := self.wrapperDepth - 1 }

/-- The threads without an unsafe section. -/
def ThreadInfo.isExempt (self : ThreadInfo) : Prop :=
  self.state = .stEmbryo ∨ self.state = .stCkptThread

instance (self : ThreadInfo) : Decidable self.isExempt := inferInstanceAs (Decidable (_ ∨ _))

def unsafeEnter : HookM Unit := fun self =>
  match self with
  | none => .ret none ()
  | some th =>
      if th.isExempt then .ret (some th) ()
      else
        match th.enter with
        | some th' => .ret (some th') ()
        | none => .halt (some th) .spinning

def unsafeExit : HookM Unit := Code.modify fun self =>
  match self with
  | none => none
  | some th => if th.isExempt then some th else some th.exit

/-- `enum xnd_state`. -/
inductive XndState where
  | xndUninitialized | xndRunning | xndCkptPending | xndSuspinprog | xndCkptinprog | xndAtfork
  | xndExiting
  deriving DecidableEq, Repr

/-- `thread_list_init`, for the calling thread: its descriptor is a new one. -/
def threadListInit (xndState : XndState) : HookM Unit := do
  let head ← libc .calloc [1]
  xndAssert (head ≠ 0)
  Code.modify fun _ =>
    some (if xndState = .xndAtfork then ⟨.stUnsafe, 1⟩ else ⟨.stRunning, 0⟩)
  let _ ← libc .ckptThreadInit []
  return ()

/-- `thread_list_atfork_child`, for the calling thread. -/
def threadListAtforkChild : HookM Unit := threadListInit .xndAtfork

/-! ## Entering and leaving -/

/-- The two ways a thread comes to a wrapper: from user code, or from inside
another wrapper. -/
def ThreadInfo.Calling (th : ThreadInfo) : Prop :=
  (th.state = .stRunning ∧ th.wrapperDepth = 0) ∨ (th.state = .stUnsafe ∧ th.wrapperDepth ≠ 0)

/-- The descriptor inside the section. -/
def ThreadInfo.entered (th : ThreadInfo) : ThreadInfo := ⟨.stUnsafe, th.wrapperDepth + 1⟩

namespace ThreadInfo.Calling
variable {th : ThreadInfo} (h : th.Calling)
include h

theorem not_isExempt : ¬ th.isExempt := by
  rcases h with ⟨hs, -⟩ | ⟨hs, -⟩ <;> simp [isExempt, hs]

theorem enter_eq : th.enter = some th.entered := by
  obtain ⟨state, depth⟩ := th
  rcases h with ⟨hs, hd⟩ | ⟨hs, hd⟩
  · simp_all [enter, entered]
  · simp_all [enter, entered]

/-- Leaving restores the descriptor, at any depth. -/
theorem exit_entered : th.entered.exit = th := by
  obtain ⟨state, depth⟩ := th
  have hdepth : depth + 1 - 1 = depth := by simp
  rcases h with ⟨hs, hd⟩ | ⟨hs, hd⟩
  · simp_all [exit, entered]
  · simp_all [exit, entered]

theorem unsafeEnter_apply : unsafeEnter (some th) = .ret (some th.entered) () := by
  simp [unsafeEnter, h.not_isExempt, h.enter_eq]

theorem unsafeExit_apply : unsafeExit (some th.entered) = .ret (some th) () := by
  have hx : ¬ th.entered.isExempt := by simp [isExempt, entered]
  simp [unsafeExit, hx, h.exit_entered]

omit h in
/-- Inside the section the descriptor differs. -/
theorem entered_ne : th.entered ≠ th := by
  intro he
  have := congrArg wrapperDepth he
  simp [entered] at this

end ThreadInfo.Calling

end Xnd.Thread
