import Xnd.Thread.Balance

/-!
# Sequences of wrapped calls

A thread makes one wrapped call after another.  Each is a wrapper with its
arguments, the calls it makes with their answers, and its result; `Runs` says
that they happen in this order, each from the descriptor the one before it left.
-/
namespace Xnd.Thread

/-- The interposed wrappers that enter the unsafe section, with their
arguments. -/
inductive Hook where
  -- file_wrappers.c
  | openat (dirfd path : Int) (flags : BitVec 32) (va : Int)
  | open (path : Int) (flags : BitVec 32) (va : Int)
  | creat (path mode : Int)
  | close (fd : Int)
  | dup (oldfd : Int)
  | dup2 (oldfd newfd : Int)
  | fcntl (fd cmd arg : Int)
  | fopen (path mode : Int)
  | fclose (stream : Int)
  | freopen (path mode oldfp : Int)
  | opendir (path : Int)
  | fdopendir (fd : Int)
  | closedir (dirp : Int)
  | readdir (dirp : Int)
  | readdirR (dirp entry result : Int)
  | telldir (dirp : Int)
  | seekdir (dirp loc : Int)
  | rewinddir (dirp : Int)
  -- stdlib_wrappers.c
  | calloc (count size : Int)
  | free (ptr : Int)
  | malloc (size : Int)
  | realloc (ptr size : Int)
  | reallocf (ptr size : Int)
  | valloc (size : Int)
  | alignedAlloc (align size : Int)
  | arc4random
  | arc4randomBuf (buf nbyte : Int)
  | arc4randomUniform (upper : Int)
  -- pthread_wrappers.c
  | pthreadCreate (p attr startRoutine arg : Int)
  | pthreadJoin (p : BitVec 64) (valuePtr : Int)
  | pthreadKill (p : BitVec 64) (sig : Int)
  | pthreadDetach (p : BitVec 64)
  | pthreadSetschedparam (p : BitVec 64) (policy param : Int)
  | pthreadGetschedparam (p : BitVec 64) (policy param : Int)
  | pthreadGetStackaddrNp (p : BitVec 64)
  | pthreadGetStacksizeNp (p : BitVec 64)
  | pthreadCancel (p : BitVec 64)
  -- pid_wrappers.c
  | getpgrp
  | getpgid (pid : Int)
  | fork
  | wait (status : Int)
  | waitpid (pid status : Int) (options : BitVec 32)
  | wait3 (status : Int) (options : BitVec 32) (rusage : Int)
  | wait4 (pid status : Int) (options : BitVec 32) (ru : Int)
  | kill (pid sig : Int)
  | killpg (pgrp sig : Int)
  | procPidinfo (pid flavor arg buf bufsize : Int)
  | procPidfdinfo (pid fd flavor buf bufsize : Int)
  | procPidfileportinfo (pid fileport flavor buf bufsize : Int)
  | procName (pid buf bufsize : Int)
  | procRegionfilename (pid addr buf bufsize : Int)
  | procPidpath (pid buf bufsize : Int)
  | procPidRusage (pid flavor buf : Int)
  | procTrackDirty (pid flags : Int)
  | procSetDirty (pid dirty : Int)
  | procGetDirty (pid flags : Int)
  | procClearDirty (pid flags : Int)
  | procTerminate (pid sig : Int)
  | procUdataInfo (pid flavor buf bufsize : Int)
  | procListpgrppids (pgrp buf bufsize : Int)
  | procListchildpids (ppid buf bufsize : Int)
  | procListpids (type typeinfo buf bufsize : Int)
  | procListallpids (buf bufsize : Int)

namespace Hook

/-- The wrapper of a call; loops of the source run on the fuel. -/
def code (fuel : Nat) : Hook → HookM Int
  | .openat dirfd path flags va => openatHook dirfd path flags va
  | .open path flags va => openHook path flags va
  | .creat path mode => creatHook path mode
  | .close fd => closeHook fd
  | .dup oldfd => dupHook oldfd
  | .dup2 oldfd newfd => dup2Hook oldfd newfd
  | .fcntl fd cmd arg => fcntlHook fd cmd arg
  | .fopen path mode => fopenHook path mode
  | .fclose stream => fcloseHook stream
  | .freopen path mode oldfp => freopenHook path mode oldfp
  | .opendir path => opendirHook path
  | .fdopendir fd => fdopendirHook fd
  | .closedir dirp => closedirHook dirp
  | .readdir dirp => readdirHook dirp
  | .readdirR dirp entry result => readdirRHook dirp entry result
  | .telldir dirp => telldirHook dirp
  | .seekdir dirp loc => seekdirHook dirp loc
  | .rewinddir dirp => rewinddirHook dirp
  | .calloc count size => callocHook count size
  | .free ptr => freeHook ptr
  | .malloc size => mallocHook size
  | .realloc ptr size => reallocHook ptr size
  | .reallocf ptr size => reallocfHook ptr size
  | .valloc size => vallocHook size
  | .alignedAlloc align size => alignedAllocHook align size
  | .arc4random => arc4randomHook
  | .arc4randomBuf buf nbyte => arc4randomBufHook buf nbyte
  | .arc4randomUniform upper => arc4randomUniformHook upper
  | .pthreadCreate p attr startRoutine arg => pthreadCreateHook fuel p attr startRoutine arg
  | .pthreadJoin p valuePtr => pthreadJoinHook fuel p valuePtr
  | .pthreadKill p sig => pthreadKillHook p sig
  | .pthreadDetach p => pthreadDetachHook p
  | .pthreadSetschedparam p policy param => pthreadSetschedparamHook p policy param
  | .pthreadGetschedparam p policy param => pthreadGetschedparamHook p policy param
  | .pthreadGetStackaddrNp p => pthreadGetStackaddrNpHook p
  | .pthreadGetStacksizeNp p => pthreadGetStacksizeNpHook p
  | .pthreadCancel p => pthreadCancelHook p
  | .getpgrp => getpgrpHook
  | .getpgid pid => getpgidHook pid
  | .fork => forkHook
  | .wait status => waitHook fuel status
  | .waitpid pid status options => waitpidHook fuel pid status options
  | .wait3 status options rusage => wait3Hook fuel status options rusage
  | .wait4 pid status options ru => wait4Hook fuel pid status options ru
  | .kill pid sig => killHook pid sig
  | .killpg pgrp sig => killpgHook pgrp sig
  | .procPidinfo pid flavor arg buf bufsize => procPidinfoHook pid flavor arg buf bufsize
  | .procPidfdinfo pid fd flavor buf bufsize => procPidfdinfoHook pid fd flavor buf bufsize
  | .procPidfileportinfo pid fileport flavor buf bufsize =>
      procPidfileportinfoHook pid fileport flavor buf bufsize
  | .procName pid buf bufsize => procNameHook pid buf bufsize
  | .procRegionfilename pid addr buf bufsize => procRegionfilenameHook pid addr buf bufsize
  | .procPidpath pid buf bufsize => procPidpathHook pid buf bufsize
  | .procPidRusage pid flavor buf => procPidRusageHook pid flavor buf
  | .procTrackDirty pid flags => procTrackDirtyHook pid flags
  | .procSetDirty pid dirty => procSetDirtyHook pid dirty
  | .procGetDirty pid flags => procGetDirtyHook pid flags
  | .procClearDirty pid flags => procClearDirtyHook pid flags
  | .procTerminate pid sig => procTerminateHook pid sig
  | .procUdataInfo pid flavor buf bufsize => procUdataInfoHook pid flavor buf bufsize
  | .procListpgrppids pgrp buf bufsize => procListpgrppidsHook pgrp buf bufsize
  | .procListchildpids ppid buf bufsize => procListchildpidsHook ppid buf bufsize
  | .procListpids type typeinfo buf bufsize => procListpidsHook type typeinfo buf bufsize
  | .procListallpids buf bufsize => procListallpidsHook buf bufsize

/-- The wrappers that end in `__wait4_hook`. -/
def waits : Hook → Bool
  | .wait .. | .waitpid .. | .wait3 .. | .wait4 .. => true
  | _ => false

def forks : Hook → Bool
  | .fork => true
  | _ => false

/-- Every wrapper but those restores the descriptor. -/
theorem leads {th : ThreadInfo} (h : th.Calling) (fuel : Nat) (hook : Hook)
    (hw : hook.waits = false) (hf : hook.forks = false) :
    Leads (hook.code fuel) (some th) (some th) := by
  cases hook with
  | fdopendir => exact leads_fdopendirHook h _
  | closedir => exact leads_closedirHook h _
  | pthreadCreate => exact leads_pthreadCreateHook h _ _ _ _ _
  | pthreadJoin => exact leads_pthreadJoinHook h _ _ _
  | pthreadKill => exact leads_pthreadKillHook h _ _
  | pthreadDetach | pthreadSetschedparam | pthreadGetschedparam | pthreadCancel =>
      exact leads_onThread h _ _ _
  | pthreadGetStackaddrNp | pthreadGetStacksizeNp => exact leads_onStack h _ _
  | getpgrp => exact leads_getpgrpHook h
  | getpgid => exact leads_getpgidHook h _
  | fork => cases hf
  | wait | waitpid | wait3 | wait4 => cases hw
  | kill => exact leads_killHook h _ _
  | killpg => exact leads_killpgHook h _ _
  | procPidinfo | procPidfdinfo | procPidfileportinfo | procName | procRegionfilename
  | procPidpath | procPidRusage | procTrackDirty | procSetDirty | procGetDirty | procClearDirty
  | procTerminate | procUdataInfo | procListpgrppids | procListchildpids =>
      exact leads_translated h _ _ _ _ _
  | procListpids => exact leads_procListpidsHook h _ _ _ _
  | _ => exact leads_interposed h _ _

/-- The `wait` family ends as `__wait4_hook` does. -/
theorem traces_waits {th : ThreadInfo} (h : th.Calling) (fuel : Nat) (hook : Hook)
    (hw : hook.waits = true) :
    Traces (hook.code fuel) (some th) fun t r _ => Outcome .wait4 (-1) th.entered th t r := by
  cases hook with
  | wait | waitpid | wait3 | wait4 => exact traces_wait4Hook h _ _ _ _ _
  | _ => cases hw

end Hook

/-! ## Sequences -/

/-- A wrapped call that has returned: its wrapper, run from `entry`, returns
`result` on exactly these calls and leaves `exit`. -/
structure WrappedCall where
  hook : Hook
  entry : ThreadInfo
  calls : Calls
  result : Int
  exit : ThreadInfo
  returns : ∃ fuel, ((hook.code fuel) (some entry)).exec calls = some (some exit, result)

namespace WrappedCall

/-- **The condition**: no `wait4` fails, and no thread forks from inside another
wrapper and returns in the child. -/
def Meets (c : WrappedCall) : Prop :=
  ¬ (c.hook.waits = true ∧ Answered .wait4 (-1) c.calls) ∧
    ¬ (c.hook.forks = true ∧ Answered .fork 0 c.calls ∧ c.entry.wrapperDepth ≠ 0)

instance (c : WrappedCall) : Decidable c.Meets := inferInstanceAs (Decidable (_ ∧ _))

/-- One call restores the descriptor exactly when it meets the condition. -/
theorem exit_eq_iff (c : WrappedCall) (h : c.entry.Calling) : c.exit = c.entry ↔ c.Meets := by
  obtain ⟨fuel, hrun⟩ := c.returns
  cases hw : c.hook.waits with
  | true =>
      have hf : c.hook.forks = false := by
        cases hh : c.hook <;> first | rfl | (rw [hh] at hw; cases hw)
      rcases Hook.traces_waits h fuel c.hook hw _ _ _ hrun with ⟨ha, he⟩ | ⟨ha, he⟩
      · rw [Option.some.inj he]
        simp [Meets, hw, ha, ThreadInfo.Calling.entered_ne]
      · simp [Meets, hf, ha, Option.some.inj he]
  | false =>
      cases hf : c.hook.forks with
      | false =>
          have he := Option.some.inj (Hook.leads h fuel c.hook hw hf _ _ _ hrun)
          simp [Meets, hw, hf, he]
      | true =>
          have hfork : c.hook = .fork := by
            cases hh : c.hook <;> first | rfl | (rw [hh] at hf; cases hf)
          rw [hfork] at hrun
          rcases traces_forkHook h _ _ _ hrun with ⟨ha, he⟩ | ⟨ha, he⟩
          · -- The child's descriptor is the one on entry only outside of wrappers.
            have hentry : (⟨.stRunning, 0⟩ : ThreadInfo) = c.entry ↔ c.entry.wrapperDepth = 0 := by
              rcases h with ⟨hs, hd⟩ | ⟨hs, hd⟩
              · exact ⟨fun _ => hd, fun _ => ThreadInfo.ext hs.symm hd.symm⟩
              · exact ⟨fun hx => by rw [← hx], fun hx => absurd hx hd⟩
            rw [Option.some.inj he, hentry]
            simp [Meets, hw, hf, ha]
          · simp [Meets, hw, ha, Option.some.inj he]

end WrappedCall

/-- A thread that starts as `th` makes these calls, one after another. -/
def Runs : ThreadInfo → List WrappedCall → Prop
  | _, [] => True
  | th, c :: cs => c.entry = th ∧ Runs c.exit cs

instance decidableRuns : ∀ (th : ThreadInfo) (cs : List WrappedCall), Decidable (Runs th cs)
  | _, [] => isTrue trivial
  | th, c :: cs =>
      haveI := decidableRuns c.exit cs
      inferInstanceAs (Decidable (c.entry = th ∧ Runs c.exit cs))

/-- **The wrappers are balanced exactly as far as `Meets` goes.**  In a sequence
of calls every one leaves the thread as it was at the beginning if and only if
each of them meets the condition. -/
theorem calls_balanced_iff {th : ThreadInfo} (h : th.Calling) {cs : List WrappedCall}
    (hr : Runs th cs) : (∀ c ∈ cs, c.exit = th) ↔ ∀ c ∈ cs, c.Meets := by
  induction cs with
  | nil => simp
  | cons c cs ih =>
      obtain ⟨rfl, hr⟩ := hr
      have hc := c.exit_eq_iff h
      simp only [List.forall_mem_cons]
      constructor
      · rintro ⟨he, hcs⟩
        rw [he] at hr
        exact ⟨hc.mp he, (ih hr).mp hcs⟩
      · rintro ⟨hm, hcs⟩
        have he := hc.mpr hm
        rw [he] at hr
        exact ⟨he, (ih hr).mpr hcs⟩

/-- An answered call. -/
def answered (fn : Fn) (args : List Int) (r : Int) : Event fun _ : Call => Int := ⟨⟨fn, args⟩, r⟩

/-- `malloc(16)` from user code. -/
def mallocReturns : WrappedCall where
  hook := .malloc 16
  entry := ⟨.stRunning, 0⟩
  calls := [answered .xndSkipInterpose [] 0, answered .malloc [16] 4096]
  result := 4096
  exit := ⟨.stRunning, 0⟩
  returns := ⟨0, by decide⟩

/-- `fork()` from user code, in the child. -/
def forkReturns : WrappedCall where
  hook := .fork
  entry := ⟨.stRunning, 0⟩
  calls := [answered .xndRegisterForkHandlers [] 0, answered .fork [] 0, answered .calloc [1] 4096,
    answered .ckptThreadInit [] 0]
  result := 0
  exit := ⟨.stRunning, 0⟩
  returns := ⟨0, by decide⟩

theorem malloc_fork_restore :
    Runs ⟨.stRunning, 0⟩ [mallocReturns, forkReturns, mallocReturns] ∧
      ∀ c ∈ [mallocReturns, forkReturns, mallocReturns], c.exit = ⟨.stRunning, 0⟩ :=
  ⟨by decide, (calls_balanced_iff (Or.inl ⟨rfl, rfl⟩) (by decide)).mpr (by decide)⟩

/-- `wait(&status)` without children, from user code: `wait4` fails with
`ECHILD`. -/
def waitFails : WrappedCall where
  hook := .wait 4096
  entry := ⟨.stRunning, 0⟩
  calls := [answered .errno [] 0, answered .wait4 [-1, 4096, 1, 0] (-1), answered .errno [] 10,
    answered .setErrno [10] 0]
  result := -1
  exit := ⟨.stUnsafe, 1⟩
  returns := ⟨1, by decide⟩

/-- The thread is back in user code and still in `ST_UNSAFE`, one level deep. -/
theorem wait_leaves_section_entered :
    waitFails.entry.Calling ∧ ¬ (waitFails.exit = waitFails.entry) :=
  ⟨Or.inl ⟨rfl, rfl⟩, by decide⟩

end Xnd.Thread
