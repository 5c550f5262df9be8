import Xnd.Lib.Versions
import Xnd.Resume.Signal
import Xnd.Thread.Info

/-!
# Threads that come back

A process is its memory, which an image holds, and what the kernel knows of it, which is lost with
the process: the threads with their masks, alternate stacks and the areas of thread-local storage
that `TPIDRRO_EL0` points to, and the dispositions.  A user thread saves its share in
`thread_sighandler`, the checkpoint thread its own in `ckpt_thread_work` and the dispositions in
`xnd_precheckpoint`.

A process that is started from an image runs the checkpoint thread only, from the second return of
`getcontext`: it installs the dispositions, takes back its thread-local storage, makes the user
threads (`restore_threads`), waits until they have come to the barrier of `thread_restart`, and
releases them.  Each returns from `thread_sighandler`, as after a checkpoint.

The area of a thread is an address that `pthread_create` chose; in a restarted process the checkpoint
thread has the area of the main thread of the restart program, which is not in use in the image.  The
scan of `suspend_threads` is one signal at a time and a last pass that finds all threads stopped;
`Xnd.Suspend` has its steps.
-/
namespace Xnd.Resume
open Thread (ThreadState XndState)

/-! ## The state -/

/-- `stack_t`. -/
structure Stack where
  sp : Nat
  size : Nat
  disabled : Bool
  onstack : Bool
  deriving DecidableEq, Repr

namespace Stack

/-- No alternate stack. -/
def none : Stack := ⟨0, 0, true, false⟩

/-- The stack that is used for signals. -/
def registered (ss : Stack) : Option (Nat × Nat) := if ss.disabled then .none else some (ss.sp, ss.size)

/-- A stack that is used has an address. -/
def Ok (ss : Stack) : Prop := ss.disabled = false → ss.sp ≠ 0

end Stack

/-- What the kernel writes to the stack of a thread that it interrupts: `uc_sigmask`, `uc_onstack`. -/
structure Frame where
  mask : SigSet
  onstack : Bool
  deriving DecidableEq, Repr

/-- `struct thread_info`, as far as it is restored from. -/
structure ThreadInfo where
  state : ThreadState
  /-- `tls`, zero when it was never saved. -/
  tls : Nat
  sigblocked : SigSet
  ss : Stack
  deriving DecidableEq, Repr

/-- The slots of thread-local storage that are saved. -/
def tsdStart : Nat := 20

def tsdEnd : Nat := 768

/-- The memory of a process. -/
structure Memory where
  /-- The words of an area. -/
  slot : Nat → Nat → Nat
  /-- `is_restart`, in the block of thread-local variables at an address. -/
  isRestart : Nat → Bool
  /-- The descriptors of the user threads. -/
  info : Nat → ThreadInfo
  /-- `thread_list`. -/
  threadList : List Nat
  /-- The signal frames on the stack of a thread, the last one first. -/
  frames : Nat → List Frame
  /-- `ckpt_thread`. -/
  ckptThread : ThreadInfo
  sigState : SigState
  xndState : XndState
  threadsArrived : Nat
  threadsExpected : Nat

/-- What the kernel knows of a thread. -/
structure KernelThread where
  /-- `TPIDRRO_EL0`. -/
  area : Nat
  mask : SigSet
  altstack : Stack
  deriving DecidableEq, Repr

/-- Where a user thread is. -/
inductive Pc where
  -- code of the program
  | run
  -- thread_sighandler, and the return from it
  | handler | saveSig | context | barrier | arrived | sigreturn
  -- thread_restart
  | restart | restartSig | restartBarrier | restartArrived
  /-- An assertion failed. -/
  | aborted
  deriving DecidableEq, Repr

/-- A user thread of which the kernel knows. -/
structure UserThread where
  kernel : KernelThread
  pc : Pc
  /-- The checkpoint signal was sent and did not arrive yet. -/
  pending : Bool
  deriving DecidableEq, Repr

/-- Where the checkpoint thread is. -/
inductive CkptPc where
  -- ckpt_thread_work, in the loop
  | wait | saveTls | saveSig | suspend | scan | arrival | arrivalWait | precheckpoint | checkpoint
  | release
  -- ckpt_thread_work, after a restart
  | restoreActions | restoreTls | restoreThreads | restartArrival | restartWait | restoreSig
  | restartRelease
  /-- `xnd_abort`. -/
  | aborted
  deriving DecidableEq, Repr

structure Process where
  mem : Memory
  threads : Nat → Option UserThread
  ckpt : KernelThread
  ckptPc : CkptPc
  dispositions : Dispositions
  /-- The images that were written, the first one first. -/
  images : List Memory

/-- What is fixed in a computation: the checkpoint signal, and the slot through which the thread-local
variables of the library are found. -/
structure Setup where
  ckptSig : Nat
  legal : ckptSig ∈ signals
  tlvKey : Nat
  low : tsdStart ≤ tlvKey
  high : tlvKey < tsdEnd

/-- One element of a family changes. -/
def put {α : Type} (f : Nat → α) (i : Nat) (x : α) : Nat → α := fun j => if j = i then x else f j

@[simp] theorem put_self {α : Type} (f : Nat → α) (i : Nat) (x : α) : put f i x i = x := if_pos rfl

theorem put_of_ne {α : Type} (f : Nat → α) {i j : Nat} (x : α) (h : j ≠ i) : put f i x j = f j := if_neg h

namespace Memory

/-- One word of an area. -/
def store (m : Memory) (area slot word : Nat) : Memory :=
  { m with slot := put m.slot area (put (m.slot area) slot word) }

/-- The loop that copies the slots of one area to another. -/
def copySlots (m : Memory) (src dst : Nat) : Memory :=
  (List.range' tsdStart (tsdEnd - tsdStart)).foldl (fun m slot => m.store dst slot (m.slot src slot)) m

def setInfo (m : Memory) (t : Nat) (f : ThreadInfo → ThreadInfo) : Memory :=
  { m with info := put m.info t (f (m.info t)) }

/-- `thread_save_tls`, for a user thread. -/
def threadSaveTls (m : Memory) (t area : Nat) : Memory := m.setInfo t fun th => { th with tls := area }

/-- `thread_save_tls`, for the checkpoint thread: from the second time on, the first area is kept up
to date. -/
def ckptSaveTls (m : Memory) (area : Nat) : Memory :=
  if m.ckptThread.tls = 0 then { m with ckptThread := { m.ckptThread with tls := area } }
  else m.copySlots area m.ckptThread.tls

/-- `thread_restore_tls`. -/
def threadRestoreTls (m : Memory) (th : ThreadInfo) (area : Nat) : Memory := m.copySlots th.tls area

end Memory

/-- `thread_save_sig_state`. -/
def threadSaveSigState (ckptSig : Nat) (isCkptThread : Bool) (k : KernelThread) (th : ThreadInfo) :
    ThreadInfo :=
  let blocked := pthreadSigmask .sigSetmask none k.mask
  { th with
    sigblocked :=
      if isCkptThread ∧ blocked.sigismember ckptSig = false then blocked.sigaddset ckptSig else blocked
    ss := k.altstack }

/-- `thread_restore_sig_state`. -/
def threadRestoreSigState (ckptSig : Nat) (isCkptThread : Bool) (th : ThreadInfo) (k : KernelThread) :
    KernelThread :=
  let blocked :=
    if isCkptThread ∧ th.sigblocked.sigismember ckptSig = false then th.sigblocked.sigaddset ckptSig
    else th.sigblocked
  { k with
    mask := pthreadSigmask .sigSetmask (some blocked) k.mask
    altstack := if th.ss.sp = 0 ∨ th.ss.disabled then k.altstack else { th.ss with onstack := false } }

/-- The areas of a thread, by what is saved and by what the kernel knows. -/
def areasOf (tls : Nat) : Option UserThread → List Nat
  | none => [tls]
  | some u => if u.pc = .restart then [tls, u.kernel.area] else [u.kernel.area]

/-! ## Code of the program -/

/-- What a thread of the program does that concerns its state, through the wrappers. -/
inductive Call where
  /-- A thread-local variable or `pthread_setspecific`. -/
  | setSlot (slot word : Nat)
  | sigmask (how : How) (set : Option SigSet)
  | sigaltstack (ss : Option (Nat × Nat))
  | sigaction (sig : Nat) (act : Option SigAction)
  | signal (sig : Nat) (handler : Handler)
  /-- A handler of the program begins. -/
  | deliver (sig : Nat)
  /-- It returns. -/
  | sigreturn
  deriving DecidableEq, Repr

/-- A signal is the program's. -/
def Setup.Free (c : Setup) (sig : Nat) : Prop := sig ∈ signals ∧ sig ≠ c.ckptSig

instance (c : Setup) (sig : Nat) : Decidable (c.Free sig) := inferInstanceAs (Decidable (_ ∧ _))

/-- A handler is a function of the program. -/
def Handler.isCode : Handler → Bool
  | .code _ => true
  | _ => false

namespace Process

def setThread (s : Process) (t : Nat) (u : UserThread) : Process :=
  { s with threads := put s.threads t (some u) }

/-- A thread comes to another place. -/
def goto (s : Process) (t : Nat) (u : UserThread) (pc : Pc) : Process := s.setThread t { u with pc }

/-- A call that changes the dispositions, or fails. -/
def install {α : Type} (s : Process) : Option (α × Dispositions) → Process
  | some r => { s with dispositions := r.2 }
  | none => s

/-- A call of a thread of the program. -/
def call (c : Setup) (t : Nat) (u : UserThread) (s : Process) : Call → Option Process
  | .setSlot slot word =>
      guarded (tsdStart ≤ slot ∧ slot < tsdEnd ∧ slot ≠ c.tlvKey)
        { s with mem := s.mem.store u.kernel.area slot word }
  | .sigmask how set =>
      some (s.setThread t { u with kernel := { u.kernel with
        mask := pthreadSigmaskHook c.ckptSig how set u.kernel.mask } })
  | .sigaltstack ss =>
      guarded (u.kernel.altstack.onstack = false ∧ ∀ x ∈ ss, x.1 ≠ 0)
        (s.setThread t { u with kernel := { u.kernel with
          altstack := match ss with
            | none => { u.kernel.altstack with disabled := true }
            | some x => ⟨x.1, x.2, false, false⟩ } })
  | .sigaction sig act =>
      some (s.install (sigactionHook c.ckptSig sig act s.dispositions))
  | .signal sig handler =>
      some (s.install (signalHook c.ckptSig sig handler s.dispositions))
  | .deliver sig =>
      let a := (s.dispositions sig).action
      guarded (c.Free sig ∧ a.handler.isCode = true ∧ u.kernel.mask.sigismember sig = false)
        ({ s with mem := { s.mem with
            frames := put s.mem.frames t (⟨u.kernel.mask, u.kernel.altstack.onstack⟩ :: s.mem.frames t) } }
          |>.setThread t { u with kernel := { u.kernel with
            mask := (u.kernel.mask ||| a.mask).sigaddset sig
            altstack := { u.kernel.altstack with
              onstack := u.kernel.altstack.onstack || (a.onStack && !u.kernel.altstack.disabled) } } })
  | .sigreturn =>
      match s.mem.frames t with
      | [] => none
      | f :: rest =>
          some ({ s with mem := { s.mem with frames := put s.mem.frames t rest } }
            |>.setThread t { u with kernel := { u.kernel with
              mask := f.mask
              altstack := { u.kernel.altstack with onstack := f.onstack } } })

/-! ## The user threads in the library -/

/-- A compare-and-swap that is asserted. -/
def cas (s : Process) (t : Nat) (u : UserThread) (expected desired : ThreadState)
    (f : Memory → Memory) (pc : Pc) : Process :=
  if (s.mem.info t).state = expected then
    { s with mem := f (s.mem.setInfo t fun th => { th with state := desired }) }.goto t u pc
  else s.goto t u .aborted

/-- The next step of a user thread. -/
def userStep (c : Setup) (t : Nat) (u : UserThread) (s : Process) : Option Process :=
  match u.pc with
  | .run =>
      -- The checkpoint signal arrives.
      guarded (u.pending = true ∧ u.kernel.mask.sigismember c.ckptSig = false)
        ({ s with mem := { s.mem with
            frames := put s.mem.frames t (⟨u.kernel.mask, u.kernel.altstack.onstack⟩ :: s.mem.frames t) } }
          |>.setThread t { u with
            kernel := { u.kernel with
              mask := (u.kernel.mask ||| (s.dispositions c.ckptSig).action.mask).sigaddset c.ckptSig }
            pc := .handler
            pending := false })
  | .handler =>
      some (s.cas t u .stSignaled .stSuspinprog
        (fun m => m.threadSaveTls t u.kernel.area) .saveSig)
  | .saveSig =>
      some ({ s with mem := s.mem.setInfo t (threadSaveSigState c.ckptSig false u.kernel) }.goto t u .context)
  | .context =>
      -- is_restart, which was cleared before getcontext, is set after its first return
      some (s.cas t u .stSuspinprog .stSuspended
        (fun m => { m with isRestart := put m.isRestart (m.slot u.kernel.area c.tlvKey) true }) .barrier)
  | .barrier =>
      guarded (s.mem.xndState ≠ .xndSuspinprog)
        ({ s with mem := { s.mem with threadsArrived := s.mem.threadsArrived + 1 } }.goto t u .arrived)
  | .arrived =>
      guarded (s.mem.xndState ≠ .xndCkptinprog) (s.cas t u .stSuspended .stRunning id .sigreturn)
  | .sigreturn =>
      match s.mem.frames t with
      | [] => none
      | f :: rest =>
          some ({ s with mem := { s.mem with frames := put s.mem.frames t rest } }
            |>.setThread t { u with
              kernel := { u.kernel with
                mask := f.mask
                altstack := { u.kernel.altstack with onstack := f.onstack } }
              pc := .run })
  | .restart =>
      some ({ s with
        mem := (s.mem.threadRestoreTls (s.mem.info t) u.kernel.area).setInfo t
          (fun th => { th with state := .stRunning }) }.goto t u .restartSig)
  | .restartSig =>
      some (s.setThread t { u with
        kernel := threadRestoreSigState c.ckptSig false (s.mem.info t) u.kernel
        pc := .restartBarrier })
  | .restartBarrier =>
      guarded (s.mem.xndState ≠ .xndSuspinprog)
        ({ s with mem := { s.mem with threadsArrived := s.mem.threadsArrived + 1 } }.goto t u .restartArrived)
  | .restartArrived =>
      -- thread_restore_context goes to the return of getcontext, where is_restart is read
      guarded (s.mem.xndState ≠ .xndCkptinprog)
        (s.goto t u (if s.mem.isRestart (s.mem.slot u.kernel.area c.tlvKey) then .sigreturn else .aborted))
  | .aborted => none

/-- A thread of which an assertion failed makes no step. -/
theorem userStep_aborted {c : Setup} {t : Nat} {u : UserThread} {s : Process} (h : u.pc = .aborted) :
    s.userStep c t u = none := by simp only [userStep, h]

/-! ## The checkpoint thread -/

/-- The last pass of `suspend_threads` found all threads on their way. -/
def Stopped (s : Process) : Prop :=
  ∀ t ∈ s.mem.threadList, (s.mem.info t).state = .stSuspended ∨ (s.mem.info t).state = .stSuspinprog

instance (s : Process) : Decidable s.Stopped := inferInstanceAs (Decidable (∀ t ∈ _, _))

def setXndState (s : Process) (st : XndState) : Process := { s with mem := { s.mem with xndState := st } }

/-- The next step of the checkpoint thread, but for `xnd_checkpoint` and `restore_threads`. -/
def ckptStep (c : Setup) (s : Process) : Option Process :=
  match s.ckptPc with
  | .wait => some { s.setXndState .xndCkptPending with ckptPc := .saveTls }
  | .saveTls => some { s with mem := s.mem.ckptSaveTls s.ckpt.area, ckptPc := .saveSig }
  | .saveSig =>
      some { s with
        mem := { s.mem with ckptThread := threadSaveSigState c.ckptSig true s.ckpt s.mem.ckptThread }
        ckptPc := .suspend }
  | .suspend =>
      some { s with
        mem := { s.mem with xndState := .xndSuspinprog, threadsArrived := 0 }
        ckptPc := .scan }
  | .scan =>
      guarded s.Stopped
        { s with
          mem := { s.mem with threadsExpected := s.mem.threadList.length }
          ckptPc := .arrival }
  | .arrival => some { s.setXndState .xndCkptinprog with ckptPc := .arrivalWait }
  | .arrivalWait =>
      guarded (s.mem.threadsExpected ≤ s.mem.threadsArrived) { s with ckptPc := .precheckpoint }
  | .precheckpoint =>
      match sigStateSave c.ckptSig s.dispositions s.mem.sigState with
      | some st => some { s with mem := { s.mem with sigState := st }, ckptPc := .checkpoint }
      | none => some { s with ckptPc := .aborted }
  | .release => some { s.setXndState .xndRunning with ckptPc := .wait }
  | .restoreActions =>
      match sigStateRestore c.ckptSig s.mem.sigState s.dispositions with
      | some d => some { s with dispositions := d, ckptPc := .restoreTls }
      | none => some { s with ckptPc := .aborted }
  | .restoreTls =>
      some { s with
        mem := s.mem.threadRestoreTls s.mem.ckptThread s.ckpt.area
        ckptPc := .restoreThreads }
  | .restartArrival => some { s.setXndState .xndCkptinprog with ckptPc := .restartWait }
  | .restartWait =>
      guarded (s.mem.threadsExpected ≤ s.mem.threadsArrived) { s with ckptPc := .restoreSig }
  | .restoreSig =>
      some { s with
        ckpt := threadRestoreSigState c.ckptSig true s.mem.ckptThread s.ckpt
        ckptPc := .restartRelease }
  | .restartRelease => some { s.setXndState .xndRunning with ckptPc := .wait }
  | .checkpoint | .restoreThreads | .aborted => none

/-- A process that aborted makes no step. -/
theorem ckptStep_aborted {c : Setup} {s : Process} (h : s.ckptPc = .aborted) : s.ckptStep c = none := by
  simp only [ckptStep, h]

/-- The areas that a thread has, or that it is to be made again from. -/
def areas (s : Process) (t : Nat) : List Nat := areasOf (s.mem.info t).tls (s.threads t)

/-- An area that a new thread can have. -/
def FreshArea (s : Process) (area : Nat) : Prop :=
  area ≠ s.ckpt.area ∧ area ≠ s.mem.ckptThread.tls ∧ ∀ t ∈ s.mem.threadList, area ∉ s.areas t

instance (s : Process) (area : Nat) : Decidable (s.FreshArea area) :=
  inferInstanceAs (Decidable (_ ∧ _ ∧ ∀ t ∈ _, _))

/-- `restore_threads`, with the areas that the calls of `pthread_create` come to. -/
def restoreThreads (s : Process) (area : Nat → Nat) : Process :=
  { s with
    mem := { s.mem with threadsArrived := 0, threadsExpected := s.mem.threadList.length }
    threads := fun t =>
      if t ∈ s.mem.threadList then some ⟨⟨area t, s.ckpt.mask, .none⟩, .restart, false⟩ else s.threads t
    ckptPc := .restartArrival }

/-- A process that is started from an image: `TPIDRRO_EL0`, the words it points to, the mask and the
dispositions are those of the restart program. -/
def resume (m : Memory) (images : List Memory) (area : Nat) (words : Nat → Nat) (mask : SigSet)
    (d : Dispositions) : Process :=
  { mem := { m with slot := put m.slot area words }
    threads := fun _ => none
    ckpt := ⟨area, mask, .none⟩
    ckptPc := .restoreActions
    dispositions := d
    images }

/-- A new thread, that inherits the mask of the one that makes it. -/
def create (c : Setup) (s : Process) (u : UserThread) (t' area block : Nat) : Process :=
  { s with
    mem := { s.mem with
      slot := put s.mem.slot area fun slot => if slot = c.tlvKey then block else 0
      info := put s.mem.info t' ⟨.stRunning, 0, 0, .none⟩
      threadList := t' :: s.mem.threadList
      frames := put s.mem.frames t' [] } }.setThread t' ⟨⟨area, u.kernel.mask, .none⟩, .run, false⟩

end Process

/-! ## Runs -/

inductive Act where
  /-- A call of a thread of the program. -/
  | call (t : Nat) (call : Call)
  /-- `pthread_create`: the new descriptor, its area and the block of its thread-local variables. -/
  | create (t t' area block : Nat)
  | exit (t : Nat)
  /-- A step of a user thread in the library. -/
  | user (t : Nat)
  /-- A step of the checkpoint thread. -/
  | ckpt
  /-- A thread-local variable of the checkpoint thread, while it waits for a request. -/
  | ckptSlot (slot word : Nat)
  /-- `suspend_threads` signals a thread. -/
  | signal (t : Nat)
  | checkpoint
  | restoreThreads (area : Nat → Nat)
  /-- The process ends, and another one is started from an image. -/
  | restart (n area : Nat) (words : Nat → Nat) (mask : SigSet) (d : Dispositions)

namespace Process

/-- A thread of the program that may leave its code or be joined by another. -/
def runs (s : Process) (t : Nat) : Option UserThread :=
  if t ∈ s.mem.threadList then (s.threads t).filter (·.pc = .run) else none

def step (c : Setup) (s : Process) : Act → Option Process
  | .call t call => (s.runs t).bind fun u => s.call c t u call
  | .create t t' area block =>
      (s.runs t).bind fun u =>
        guarded ((s.mem.info t).state = .stRunning ∧ t' ∉ s.mem.threadList ∧ s.FreshArea area)
          (s.create c u t' area block)
  | .exit t =>
      (s.runs t).bind fun _ =>
        guarded ((s.mem.info t).state = .stRunning)
          { s with
            mem := { s.mem with threadList := s.mem.threadList.erase t }
            threads := put s.threads t none }
  | .user t => if t ∈ s.mem.threadList then (s.threads t).bind fun u => s.userStep c t u else none
  | .ckpt => s.ckptStep c
  | .ckptSlot slot word =>
      guarded (s.ckptPc = .wait ∧ tsdStart ≤ slot ∧ slot < tsdEnd)
        { s with mem := s.mem.store s.ckpt.area slot word }
  | .signal t =>
      if s.ckptPc = .scan ∧ t ∈ s.mem.threadList ∧ (s.mem.info t).state = .stRunning then
        (s.threads t).map fun u =>
          { s with mem := s.mem.setInfo t (fun th => { th with state := .stSignaled }) }.setThread t
            { u with pending := true }
      else none
  | .checkpoint => guarded (s.ckptPc = .checkpoint) { s with images := s.images ++ [s.mem], ckptPc := .release }
  | .restoreThreads area =>
      if s.ckptPc = .restoreThreads ∧ (∀ t ∈ s.mem.threadList, s.FreshArea (area t)) ∧
          (s.mem.threadList.map area).Nodup then
        some (s.restoreThreads area)
      else none
  | .restart n area words mask d =>
      (s.images[n]?).bind fun m =>
        guarded (area ≠ m.ckptThread.tls ∧ ∀ t ∈ m.threadList, area ≠ (m.info t).tls)
          (resume m s.images area words mask d)

/-- A request comes only when all threads have left the barrier. -/
def Settled (s : Process) : Act → Prop
  | .ckpt => s.ckptPc = .wait → ∀ t ∈ s.mem.threadList, (s.mem.info t).state ≠ .stSuspended ∧
      ∀ u ∈ s.threads t, u.pc ≠ .restartArrived
  | _ => True

instance (s : Process) : (a : Act) → Decidable (s.Settled a)
  | .ckpt => inferInstanceAs (Decidable (_ → ∀ t ∈ _, _))
  | .call .. | .create .. | .exit _ | .user _ | .ckptSlot .. | .signal _ | .checkpoint
  | .restoreThreads _ | .restart .. => inferInstanceAs (Decidable True)

end Process

end Xnd.Resume
