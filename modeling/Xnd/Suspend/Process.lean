import Xnd.Lib.Machine
import Xnd.Thread.Info

/-!
# User threads and the checkpoint thread

A process is here its user threads, each at a place of the code that takes a lock or
moves a state, and the checkpoint thread in its loop: `suspend_threads`,
`wait_for_exiting_threads`, `barrier_arrival_wait`, the checkpoint, `barrier_release`.

The steps are atomic reads and writes, compare-and-swaps, and locks taken and given
back.  The sections of `ckpt_mtx` in `thread_barrier` and in the two functions of
the barrier are one step each, and a thread in `pthread_cond_wait` may wake at any
time and test again.  The checkpoint signal arrives at any step of a thread once it
was sent.

Descriptors are numbers in the order in which they are made, and are not used again.
Two fields are not in the source: `counted` are the threads that make up `suspended`
in a pass of the scan, `came` the ones that make up `threads_arrived`.
-/
namespace Xnd.Suspend
open Thread (ThreadState XndState)

/-- Who holds a lock. -/
inductive Owner where
  | ckpt
  | user (i : Nat)
  deriving DecidableEq, Repr

inductive Lock where
  /-- `lock` of a descriptor. -/
  | thread (i : Nat)
  /-- `thread_list.lock`. -/
  | threadList
  /-- `zombie_list.lock`. -/
  | zombieList
  | ckptMtx
  /-- `ckpt_thread.lock`. -/
  | ckptThread
  deriving DecidableEq, Repr

/-- The wrapped calls, as far as they differ in the locks they take. -/
inductive Wrapped where
  | other | create | join | fork
  deriving DecidableEq, Repr

/-- Where a user thread is in its own code. -/
inductive Pc where
  | unborn
  -- thread_start
  | addAcquire | addRelease | startLock | startRun | startUnlock
  -- code of the program
  | run
  -- a wrapped call: unsafe_enter, what is between, unsafe_exit
  | enter | body | exit
  -- __pthread_create_hook
  | createLock | createWait | createSleep | createUnlock
  -- __pthread_join_hook
  | joinLock | joinWait | joinSleep | joinUnlock
  -- thread_exit
  | exitLock | exitMark | exitUnlock | dying | dead
  -- thread_list_atfork_prepare, fork and thread_list_atfork_parent
  | forkList | forkZombie | forkCkpt | forkDone | forkUnlockZombie | forkUnlockList | forkUnlockMtx
  deriving DecidableEq, Repr

/-- Where a user thread is in `thread_sighandler`: at one of its compare-and-swaps, at
the lock of `thread_barrier`, or in one of the two waits there. -/
inductive HandlerPc where
  | out | signaled | suspinprog | barrier | held | arrived | released
  deriving DecidableEq, Repr

/-- A user thread. -/
structure UserThread where
  state : ThreadState
  exiting : Bool
  /-- The checkpoint signal was sent and did not arrive yet. -/
  pending : Bool
  pc : Pc
  call : Wrapped
  /-- `t`, in the hooks of create and join. -/
  target : Nat
  handler : HandlerPc
  deriving DecidableEq, Repr

namespace UserThread

/-- No thread yet. -/
def unborn : UserThread := ⟨.stEmbryo, false, false, .unborn, .other, 0, .out⟩

/-- A thread that was made by `pthread_create`. -/
def newborn : UserThread := { unborn with pc := .addAcquire }

/-- The main thread after `thread_list_init`. -/
def main : UserThread := { unborn with state := .stRunning, pc := .run }

end UserThread

/-- Where the checkpoint thread is. -/
inductive CkptPc where
  -- ckpt_thread_wait
  | wait
  -- suspend_threads
  | suspend | resetArrived | again | acquire | foreach | testJoined | lockThread
  | testRunning | casRunning | kill | testSignaled | probe
  | testSuspended | testSuspinprog | testUnsafe | testEmbryo | unlockThread
  | unlockMtx | release | setExpected
  -- wait_for_exiting_threads
  | reapAcquire | reap | reapProbe | reapRelease
  -- barrier_arrival_wait, xnd_checkpoint, barrier_release
  | arrival | arrivalSleep | checkpoint | barrierRelease
  deriving DecidableEq, Repr

/-- The checkpoint thread with its local variables. -/
structure CkptThread where
  pc : CkptPc
  /-- `th` and the threads that come after it. -/
  todo : List Nat
  suspended : Nat
  rescan : Bool
  exiting : Nat
  killed : Nat
  deriving DecidableEq, Repr

/-- The state of the process. -/
structure Process where
  xndState : XndState
  threads : Nat → UserThread
  /-- The number of the next descriptor. -/
  next : Nat
  threadList : List Nat
  zombieList : List Nat
  joined : Nat → Bool
  lock : Lock → Option Owner
  threadsExpected : Nat
  threadsArrived : Nat
  ckpt : CkptThread
  counted : List Nat
  came : List Nat

/-- One element of a family changes. -/
def put {ι α : Type} [DecidableEq ι] (f : ι → α) (i : ι) (a : α) : ι → α := fun j =>
  if j = i then a else f j

@[simp] theorem put_self {ι α : Type} [DecidableEq ι] (f : ι → α) (i : ι) (a : α) :
    put f i a i = a := if_pos rfl

@[simp] theorem put_of_ne {ι α : Type} [DecidableEq ι] (f : ι → α) {i j : ι} (h : j ≠ i) (a : α) :
    put f i a j = f j := if_neg h

namespace Process

/-- The process after `thread_list_init`. -/
def init : Process where
  xndState := .xndRunning
  threads i := if i = 0 then .main else .unborn
  next := 1
  threadList := [0]
  zombieList := []
  joined _ := false
  lock _ := none
  threadsExpected := 0
  threadsArrived := 0
  ckpt := ⟨.wait, [], 0, false, 0, 0⟩
  counted := []
  came := []

variable (s : Process) (i : Nat)

/-- Assigns to fields of a user thread. -/
def set (f : UserThread → UserThread) : Process :=
  { s with threads := put s.threads i (f (s.threads i)) }

/-- The user thread goes on at another place. -/
def goto (pc : Pc) : Process := s.set i fun t => { t with pc }

/-- `pthread_mutex_lock`, by a user thread. -/
def acquire (l : Lock) (pc : Pc) : Option Process :=
  guarded (s.lock l = none) { s.goto i pc with lock := put s.lock l (some (.user i)) }

/-- `pthread_mutex_unlock`, by a user thread. -/
def release (l : Lock) (pc : Pc) : Option Process :=
  some { s.goto i pc with lock := put s.lock l none }

/-! ## The code of a user thread -/

/-- `thread_init` and `pthread_create`. -/
def create : Process :=
  { s with
    threads :=
      put (put s.threads i { s.threads i with pc := .createLock, target := s.next }) s.next .newborn
    next := s.next + 1 }

/-- The body of a wrapped call; `ok` tells whether the call that is wrapped succeeds.
`pthread_join` returns when the thread is dead. -/
def body (ok : Bool) : Option Process :=
  let t := s.threads i
  match t.call with
  | .other => some (s.goto i .exit)
  | .create =>
      if ok = true then some (s.create i) else some (s.goto i .exit)
  | .join =>
      if ok = true then
        guarded ((s.threads t.target).pc = .dead)
          { s.goto i .exit with joined := put s.joined t.target true }
      else some { s.goto i .exit with joined := put s.joined t.target false }
  | .fork => s.acquire i .ckptMtx .forkList

/-- The next step of a thread in its own code. -/
def userStep (ok : Bool) : Option Process :=
  let t := s.threads i
  match t.pc with
  | .unborn | .run | .dead => none
  | .addAcquire =>
      (s.acquire i .threadList .addRelease).map fun s => { s with threadList := i :: s.threadList }
  | .addRelease => s.release i .threadList .startLock
  | .startLock => s.acquire i (.thread i) .startRun
  | .startRun => some (s.set i fun t => { t with pc := .startUnlock, state := .stRunning })
  | .startUnlock => s.release i (.thread i) .run
  | .enter =>
      if t.state = .stRunning then some (s.set i fun t => { t with pc := .body, state := .stUnsafe })
      else some s
  | .body => s.body i ok
  | .exit =>
      some (s.set i fun t =>
        { t with pc := .run, state := if t.state = .stUnsafe then .stRunning else t.state })
  | .createLock => s.acquire i (.thread t.target) .createWait
  | .createWait =>
      if (s.threads t.target).state = .stEmbryo then s.release i (.thread t.target) .createSleep
      else some (s.goto i .createUnlock)
  | .createSleep => s.acquire i (.thread t.target) .createWait
  | .createUnlock => s.release i (.thread t.target) .exit
  | .joinLock => s.acquire i (.thread t.target) .joinWait
  | .joinWait =>
      if (s.threads t.target).exiting = true then some (s.goto i .joinUnlock)
      else s.release i (.thread t.target) .joinSleep
  | .joinSleep => s.acquire i (.thread t.target) .joinWait
  | .joinUnlock => s.release i (.thread t.target) .enter
  | .exitLock => s.acquire i (.thread i) .exitMark
  | .exitMark => some (s.set i fun t => { t with pc := .exitUnlock, exiting := true })
  | .exitUnlock => s.release i (.thread i) .dying
  | .dying => some (s.goto i .dead)
  | .forkList => s.acquire i .threadList .forkZombie
  | .forkZombie => s.acquire i .zombieList .forkCkpt
  | .forkCkpt => s.acquire i .ckptThread .forkDone
  | .forkDone => s.release i .ckptThread .forkUnlockZombie
  | .forkUnlockZombie => s.release i .zombieList .forkUnlockList
  | .forkUnlockList => s.release i .threadList .forkUnlockMtx
  | .forkUnlockMtx => s.release i .ckptMtx .exit

/-! ## The handler of the checkpoint signal -/

/-- `thread_barrier` from one of its first tests on: until the first wait, or until the
second one. -/
def threadBarrier : Process :=
  if s.xndState = .xndSuspinprog then s.set i fun t => { t with handler := .held }
  else
    { (s.set i fun t =>
        { t with handler := if s.xndState = .xndCkptinprog then .arrived else .released }) with
      threadsArrived := s.threadsArrived + 1
      came := i :: s.came }

/-- The next step of a thread in `thread_sighandler`. -/
def handlerStep : Option Process :=
  let t := s.threads i
  match t.handler with
  | .out => none
  | .signaled =>
      guarded (t.state = .stSignaled)
        (s.set i fun t => { t with state := .stSuspinprog, handler := .suspinprog })
  | .suspinprog =>
      guarded (t.state = .stSuspinprog)
        (s.set i fun t => { t with state := .stSuspended, handler := .barrier })
  | .barrier | .held => guarded (s.lock .ckptMtx = none) (s.threadBarrier i)
  | .arrived =>
      guarded (s.lock .ckptMtx = none)
        (if s.xndState = .xndCkptinprog then s else s.set i fun t => { t with handler := .released })
  | .released =>
      guarded (t.state = .stSuspended)
        (s.set i fun t => { t with state := .stRunning, handler := .out })

/-! ## The checkpoint thread -/

/-- The checkpoint thread goes on at another place. -/
def ckptGoto (pc : CkptPc) : Process := { s with ckpt := { s.ckpt with pc } }

/-- The next turn of a `THREAD_FOREACH_SAFE`. -/
def nextTurn (pc : CkptPc) : Process :=
  { s with ckpt := { s.ckpt with pc, todo := s.ckpt.todo.tail } }

/-- `thread_list_remove`. -/
def threadListRemove (i : Nat) : Process :=
  { s with
    threadList := s.threadList.erase i
    zombieList := if s.joined i = true then s.zombieList else i :: s.zombieList }

/-- The thread is gone: its descriptor is unlocked and removed. -/
def dropThread (i : Nat) : Process :=
  ({ s with lock := put s.lock (.thread i) none }.threadListRemove i).nextTurn .foreach

/-- `rescan = true`, at the end of a turn. -/
def rescanLater : Process := { s with ckpt := { s.ckpt with pc := .unlockThread, rescan := true } }

/-- `suspended++`. -/
def count (i : Nat) : Process :=
  { s with
    ckpt := { s.ckpt with pc := .unlockThread, suspended := s.ckpt.suspended + 1 }
    counted := i :: s.counted }

/-- The turn of a thread in the scan of `suspend_threads`. -/
def scanStep (i : Nat) : Option Process :=
  let t := s.threads i
  match s.ckpt.pc with
  | .foreach =>
      if t.exiting = true then some (s.nextTurn .foreach) else some (s.ckptGoto .testJoined)
  | .testJoined =>
      if s.joined i = true then some ((s.threadListRemove i).nextTurn .foreach)
      else some (s.ckptGoto .lockThread)
  | .lockThread =>
      guarded (s.lock (.thread i) = none)
        { s.ckptGoto .testRunning with lock := put s.lock (.thread i) (some .ckpt) }
  | .testRunning =>
      some (s.ckptGoto (if t.state = .stRunning then .casRunning else .testSignaled))
  | .casRunning =>
      if t.state = .stRunning then
        some ((s.set i fun t => { t with state := .stSignaled }).ckptGoto .kill)
      else some (s.ckptGoto .testSignaled)
  | .kill =>
      if t.pc = .dead then guarded (s.joined i = true ∨ s.lock .zombieList = none) (s.dropThread i)
      else some (s.set i fun t => { t with pending := true }).rescanLater
  | .testSignaled =>
      some (s.ckptGoto (if t.state = .stSignaled then .probe else .testSuspended))
  | .probe =>
      if t.pc = .dead then guarded (s.joined i = true ∨ s.lock .zombieList = none) (s.dropThread i)
      else some s.rescanLater
  | .testSuspended =>
      if t.state = .stSuspended then some (s.count i) else some (s.ckptGoto .testSuspinprog)
  | .testSuspinprog =>
      if t.state = .stSuspinprog then some (s.count i) else some (s.ckptGoto .testUnsafe)
  | .testUnsafe => if t.state = .stUnsafe then some s.rescanLater else some (s.ckptGoto .testEmbryo)
  | .testEmbryo =>
      if t.state = .stEmbryo then some s.rescanLater else some (s.ckptGoto .unlockThread)
  | .unlockThread => some ({ s with lock := put s.lock (.thread i) none }.nextTurn .foreach)
  | _ => none

/-- The turn of a thread in `wait_for_exiting_threads`.  A failed assertion ends the
process. -/
def reapStep (i : Nat) : Option Process :=
  let t := s.threads i
  match s.ckpt.pc with
  | .reap =>
      if s.joined i = true then some ((s.threadListRemove i).nextTurn .reap)
      else if t.exiting = true then
        some { s with ckpt := { s.ckpt with pc := .reapProbe, exiting := s.ckpt.exiting + 1 } }
      else guarded (t.state = .stSuspended ∨ t.state = .stSuspinprog) (s.nextTurn .reap)
  | .reapProbe =>
      if t.pc = .dead then
        guarded (s.joined i = true ∨ s.lock .zombieList = none)
          { s.threadListRemove i with
            ckpt := { s.ckpt with
              pc := .reap, todo := s.ckpt.todo.tail, killed := s.ckpt.killed + 1 } }
      else some (s.nextTurn .reap)
  | _ => none

/-- The test of `barrier_arrival_wait`. -/
def arrivalTest : Process :=
  s.ckptGoto (if s.threadsArrived < s.threadsExpected then .arrivalSleep else .checkpoint)

/-- The next step of the checkpoint thread. -/
def ckptStep : Option Process :=
  match s.ckpt.pc with
  | .wait => some { s.ckptGoto .suspend with xndState := .xndCkptPending }
  | .suspend => some { s.ckptGoto .resetArrived with xndState := .xndSuspinprog }
  | .resetArrived => some { s.ckptGoto .again with threadsArrived := 0, came := [] }
  | .again => guarded (s.lock .ckptMtx = none) { s.ckptGoto .acquire with lock := put s.lock .ckptMtx (some .ckpt) }
  | .acquire =>
      guarded (s.lock .threadList = none)
        { s with
          lock := put s.lock .threadList (some .ckpt)
          ckpt := { s.ckpt with pc := .foreach, todo := s.threadList, suspended := 0, rescan := false }
          counted := [] }
  | .unlockMtx => some { s.ckptGoto .release with lock := put s.lock .ckptMtx none }
  | .release =>
      some { s.ckptGoto (if s.ckpt.rescan = true then .again else .setExpected) with
        lock := put s.lock .threadList none }
  | .setExpected => some { s.ckptGoto .reapAcquire with threadsExpected := s.ckpt.suspended }
  | .reapAcquire =>
      guarded (s.lock .threadList = none)
        { s with
          lock := put s.lock .threadList (some .ckpt)
          ckpt := { s.ckpt with pc := .reap, todo := s.threadList, exiting := 0, killed := 0 } }
  | .reapRelease =>
      some { s.ckptGoto (if s.ckpt.exiting = s.ckpt.killed then .arrival else .reapAcquire) with
        lock := put s.lock .threadList none }
  | .arrival => guarded (s.lock .ckptMtx = none) { s with xndState := .xndCkptinprog }.arrivalTest
  | .arrivalSleep => guarded (s.lock .ckptMtx = none) s.arrivalTest
  | .checkpoint => some (s.ckptGoto .barrierRelease)
  | .barrierRelease =>
      guarded (s.lock .ckptMtx = none) { s.ckptGoto .wait with xndState := .xndRunning }
  | .foreach =>
      match s.ckpt.todo with
      | [] => some (s.ckptGoto .unlockMtx)
      | i :: _ => s.scanStep i
  | .reap =>
      match s.ckpt.todo with
      | [] => some (s.ckptGoto .reapRelease)
      | i :: _ => s.reapStep i
  | .reapProbe => s.ckpt.todo.head?.bind s.reapStep
  | _ => s.ckpt.todo.head?.bind s.scanStep

end Process

/-! ## Interleavings -/

/-- Whose turn it is. -/
inductive Turn where
  /-- The thread goes on in its own code; `ok` is what the wrapped call returns. -/
  | user (i : Nat) (ok : Bool)
  /-- The program calls a wrapper. -/
  | call (i : Nat) (w : Wrapped)
  /-- The program joins a thread. -/
  | join (i t : Nat)
  /-- The program ends a thread. -/
  | exit (i : Nat)
  /-- The checkpoint signal arrives. -/
  | deliver (i : Nat)
  /-- The thread goes on in `thread_sighandler`. -/
  | handler (i : Nat)
  /-- The checkpoint thread goes on. -/
  | ckpt
  deriving DecidableEq, Repr

/-- Code of the program, where a thread may do anything. -/
def Process.Free (s : Process) (i : Nat) : Prop :=
  (s.threads i).handler = .out ∧ (s.threads i).pc = .run

instance (s : Process) (i : Nat) : Decidable (s.Free i) := inferInstanceAs (Decidable (_ ∧ _))

/-- One step. -/
def step (s : Process) : Turn → Option Process
  | .user i ok => if (s.threads i).handler = .out then s.userStep i ok else none
  | .call i w => guarded (s.Free i ∧ w ≠ .join) (s.set i fun t => { t with pc := .enter, call := w })
  | .join i t =>
      guarded (s.Free i ∧ t ≠ i ∧ t < s.next)
        (s.set i fun th => { th with pc := .joinLock, call := .join, target := t })
  | .exit i => guarded (s.Free i) (s.goto i .exitLock)
  | .deliver i =>
      guarded ((s.threads i).pending = true ∧ (s.threads i).handler = .out ∧ (s.threads i).pc ≠ .dead)
        (s.set i fun t => { t with pending := false, handler := .signaled })
  | .handler i => s.handlerStep i
  | .ckpt => s.ckptStep

/-- The first pass of the scan over the main thread alone, until the signal is sent. -/
def firstPass : List Turn := List.replicate 12 .ckpt

end Xnd.Suspend
