import Xnd.Coord.Server
import Xnd.Lib.Asserting
import Xnd.Pid.LockOrder
import Xnd.Thread.Info

/-!
# The text of a client

The functions of a client process that assert something or call one that does: the
translations and the other parts of `xnd_coord_client.c`, the pid table, the checkpoint
thread and the handler of the checkpoint signal of `thread_info.c`.  A mutex is taken,
a message of the kernel is sent and the state of a thread is moved inside `xnd_assert` in
some of them and in plain code in others.

The threads of a process share its variables, so that every read and every write of one
is a call, as are those of the system and of `libpthread`.  The reads and `getpid` are
silent: they leave everything as it is.  Locals whose value the source has not set are 0.
-/
namespace Xnd.Client
open Coord (XndMsg XndMsghdr BarrierType)
open Pid (Mutex)
open Thread (ThreadState XndState)

inductive Lock where
  | mutex (m : Mutex)
  /-- `lock` of a descriptor. -/
  | thread (th : Nat)
  deriving DecidableEq, Repr

inductive Cond where
  | arrived | released
  deriving DecidableEq, Repr

/-- Variables of the process. -/
inductive Global where
  | coordFd | oobFd | xndPid | xndPpid | xndPgid | xndUuid | virtPid | virtPpid | realPid | realPpid
  | epoch | numPeers | isRootOfTree | ckptInterval | threadsArrived | threadsExpected
  deriving DecidableEq, Repr

/-- What a thread of a client asks of its environment. -/
inductive ClientCall where
  | lock (l : Lock)
  | unlock (l : Lock)
  /-- `pthread_cond_wait` with `ckpt_mtx`. -/
  | condWait (c : Cond)
  | condSignal (c : Cond)
  | condBroadcast (c : Cond)
  | connectToCoord
  | send (fd : Int) (msg : XndMsg)
  | recv (fd : Int)
  | shutdown (fd : Int)
  | close (fd : Int)
  | dup2 (old desired : Int)
  | getpid
  | getppid
  | usleep (us : Nat)
  | load (v : Global)
  | store (v : Global) (n : Int)
  | xndState
  | setXndState (x : XndState)
  | state (th : Nat)
  | cas (th : Nat) (expected desired : ThreadState)
  | exiting (th : Nat)
  | joined (th : Nat)
  /-- Whether `pthread_kill` answers `ESRCH`. -/
  | threadKill (th : Nat) (sig : Int)
  | listHead
  | listNext (th : Nat)
  | listPrev (th : Nat)
  | listUnlink (th : Nat)
  | threadReap (th : Nat)
  | zombieLink (th : Nat)
  | tableVirtualToReal (virt : Int)
  | tableRealToVirtual (real : Int)
  | tableUpdate (virt real : Int)
  | tableErase (virt : Int)
  | tableEntries
  /-- `getcontext`: whether it is left by the `setcontext` of a restart. -/
  | getcontext
  /-- A call of which nothing else is said. -/
  | other (n : Nat)
  deriving DecidableEq, Repr

/-- The answers. -/
def ClientCall.Answer : ClientCall → Type
  | .send _ _ | .cas _ _ _ | .exiting _ | .joined _ | .threadKill _ _ | .getcontext => Bool
  | .recv _ => Option XndMsg
  | .xndState => XndState
  | .state _ => ThreadState
  | .listHead | .listNext _ | .listPrev _ => Option Nat
  | .tableEntries => List Int
  | .lock _ | .unlock _ | .connectToCoord | .shutdown _ | .close _ | .dup2 _ _ | .getpid | .getppid
  | .load _ | .tableVirtualToReal _ | .tableRealToVirtual _ | .other _ => Int
  | _ => Unit

/-- The calls that only read. -/
def silent : ClientCall → Bool
  | .getpid | .getppid | .load _ | .xndState | .state _ | .exiting _ | .joined _ | .listHead
  | .listNext _ | .listPrev _ | .tableVirtualToReal _ | .tableRealToVirtual _
  | .tableEntries => true
  | _ => false

/-- How a thread ends other than by returning. -/
inductive ClientStop where
  | abort | assertion | exit | running
  deriving DecidableEq, Repr

/-- The thread stops in a failed assertion. -/
def ClientStop.Failed (e : ClientStop) : Prop := e = .assertion

/-- Code of a client without assertions. -/
abbrev ClientCode := Code ClientCall.Answer Unit ClientStop

/-- Code of a client. -/
abbrev ClientM := SourceCode ClientCall.Answer silent ClientStop.Failed Unit

abbrev plain {α : Type} (m : ClientCode α) : ClientM α := SourceCode.plain m
abbrev halt {α : Type} (e : ClientStop) : ClientM α := plain (Code.halt e)

def lock (l : Lock) : ClientCode Int := Code.call (ClientCall.lock l)
def unlock (l : Lock) : ClientCode Int := Code.call (ClientCall.unlock l)
def condWait (c : Cond) : ClientCode Unit := Code.call (ClientCall.condWait c)
def condSignal (c : Cond) : ClientCode Unit := Code.call (ClientCall.condSignal c)
def condBroadcast (c : Cond) : ClientCode Unit := Code.call (ClientCall.condBroadcast c)
def connectToCoord : ClientCode Int := Code.call ClientCall.connectToCoord
def sendMsgToCoord (fd : Int) (msg : XndMsg) : ClientCode Bool := Code.call (ClientCall.send fd msg)
def recvMsgFromCoord (fd : Int) : ClientCode (Option XndMsg) := Code.call (ClientCall.recv fd)
def shutdown (fd : Int) : ClientCode Int := Code.call (ClientCall.shutdown fd)
def close (fd : Int) : ClientCode Int := Code.call (ClientCall.close fd)
def dup2 (old desired : Int) : ClientCode Int := Code.call (ClientCall.dup2 old desired)
def realGetpid : ClientCode Int := Code.call ClientCall.getpid
def realGetppid : ClientCode Int := Code.call ClientCall.getppid
def usleep (us : Nat) : ClientCode Unit := Code.call (ClientCall.usleep us)
def load (v : Global) : ClientCode Int := Code.call (ClientCall.load v)
def store (v : Global) (n : Int) : ClientCode Unit := Code.call (ClientCall.store v n)
def getXndState : ClientCode XndState := Code.call ClientCall.xndState
def setXndState (x : XndState) : ClientCode Unit := Code.call (ClientCall.setXndState x)
def state (th : Nat) : ClientCode ThreadState := Code.call (ClientCall.state th)
def threadStateCas (th : Nat) (expected desired : ThreadState) : ClientCode Bool :=
  Code.call (ClientCall.cas th expected desired)
def exiting (th : Nat) : ClientCode Bool := Code.call (ClientCall.exiting th)
def joined (th : Nat) : ClientCode Bool := Code.call (ClientCall.joined th)
def threadKill (th : Nat) (sig : Int) : ClientCode Bool := Code.call (ClientCall.threadKill th sig)
def listHead : ClientCode (Option Nat) := Code.call ClientCall.listHead
def listNext (th : Nat) : ClientCode (Option Nat) := Code.call (ClientCall.listNext th)
def listPrev (th : Nat) : ClientCode (Option Nat) := Code.call (ClientCall.listPrev th)
def getcontext : ClientCode Bool := Code.call ClientCall.getcontext
def tableUpdate (virt real : Int) : ClientCode Unit := Code.call (ClientCall.tableUpdate virt real)

/-- Another call. -/
def other (n : Nat) : ClientCode Unit := do
  let _ ← (Code.call (ClientCall.other n) : ClientCode Int)
  pure ()

/-! ## Asserted calls -/

/-- `xnd_assert` of the result of a call that is not silent. -/
def assertDone (c : ClientCall) (ok : c.Answer → Bool) (hc : silent c = false) : ClientM Unit :=
  .assertExpr (Code.call c >>= fun r => pure (ok r))
    (fun _ hsilent => absurd (hc.symm.trans hsilent) Bool.false_ne_true) .assertion rfl

/-- `xnd_assert(pthread_mutex_lock(l) == 0)` -/
def assertLocked (l : Lock) : ClientM Unit := assertDone (.lock l) (fun err : Int => err = 0) rfl

/-- `xnd_assert(pthread_mutex_unlock(l) == 0)` -/
def assertUnlocked (l : Lock) : ClientM Unit :=
  assertDone (.unlock l) (fun err : Int => err = 0) rfl

/-- `xnd_assert(thread_state_cas(th, expected, desired))` -/
def assertCas (th : Nat) (expected desired : ThreadState) : ClientM Unit :=
  assertDone (.cas th expected desired) (fun won : Bool => won) rfl

/-- `xnd_assert` of a test of a variable that is read. -/
def assertState (th : Nat) (ok : ThreadState → Bool) : ClientM Unit :=
  .assertExpr (state th >>= fun x => pure (ok x)) (fun _ _ _ => rfl) .assertion rfl

/-! ## Connections -/

/-- `xnd_fd_change`. -/
def xndFdChange (old desired : Int) : ClientM Int := do
  if old ≠ desired then do
    assertDone (.dup2 old desired) (fun fd : Int => fd = desired) rfl
    let _ ← plain (close old)
    pure desired
  else pure desired

/-- The message of `send_recv_coord_handshake`. -/
def handshakeMsg (hdr : XndMsghdr) : ClientCode XndMsg := do
  let pid ← realGetpid
  let ppid ← realGetppid
  let msg : XndMsg := { hdr, realPid := pid, realPpid := ppid }
  if hdr = .connectRestart then do
    let virtPid ← load .virtPid
    let virtPpid ← load .virtPpid
    let xndPid ← load .xndPid
    let xndPpid ← load .xndPpid
    let xndPgid ← load .xndPgid
    let xndUuid ← load .xndUuid
    let ckptInterval ← load .ckptInterval
    let epoch ← load .epoch
    let numPeers ← load .numPeers
    pure { msg with virtPid, virtPpid, ckptInterval, xndPid := xndPid.toNat,
                    xndPpid := xndPpid.toNat, xndPgid := xndPgid.toNat, xndUuid := xndUuid.toNat,
                    epoch := epoch.toNat, numPeers := numPeers.toNat }
  else pure msg

/-- `send_recv_coord_handshake`. -/
def sendRecvCoordHandshake (hdr : XndMsghdr) : ClientCode Unit := do
  let msg ← handshakeMsg hdr
  let sent ← sendMsgToCoord (← load .coordFd) msg
  if sent = false then Code.halt .abort
  else
    match ← recvMsgFromCoord (← load .coordFd) with
    | none => Code.halt .abort
    | some msg =>
        if msg.hdr ≠ .coordAck ∨ msg.ret ≠ .success then Code.halt .abort
        else if hdr = .connectLaunch ∨ hdr = .atforkChild then do
          store .virtPid msg.virtPid
          store .virtPpid msg.virtPpid
          store .xndPid msg.xndPid
          store .xndPpid msg.xndPpid
          store .xndPgid msg.xndPgid
          store .xndUuid msg.xndUuid
        else pure ()

/-- A connection on `XND_COORD_FD`. -/
def registerWithCoord (xndCoordFd : Int) (hdr : XndMsghdr) : ClientM Unit := do
  let fd ← plain connectToCoord
  if fd < 0 then halt .abort
  else do
    let fd ← xndFdChange fd xndCoordFd
    plain (store .coordFd fd)
    .assertExpr (load .coordFd >>= fun fd => pure (fd = xndCoordFd)) (fun _ _ _ => rfl)
      .assertion rfl
    plain (sendRecvCoordHandshake hdr)

/-- `connect_to_coord_on_launch`. -/
def connectToCoordOnLaunch (xndCoordFd : Int) : ClientM Unit :=
  registerWithCoord xndCoordFd .connectLaunch

/-- `connect_to_coord_on_restart`. -/
def connectToCoordOnRestart (xndCoordFd : Int) : ClientM Unit := do
  registerWithCoord xndCoordFd .connectRestart
  plain (store .oobFd (-1))

/-- Connects `oob_fd` if it is not connected, and says in the message who connects. -/
def connectOob (msg : XndMsg) : ClientCode (Option XndMsg) := do
  let fd ← load .oobFd
  if fd = -1 then do
    let fd ← connectToCoord
    store .oobFd fd
    if fd < 0 then pure none
    else do
      let xndPid ← load .xndPid
      pure (some { msg with xndPid := xndPid.toNat })
  else pure (some msg)

/-- `notify_coord_of_exit`. -/
def notifyCoordOfExit (pid : Int) : ClientCode Unit := do
  let _ ← lock (.mutex .oobMutex)
  match ← connectOob { hdr := .exit, realPid := pid } with
  | none => do
      let _ ← unlock (.mutex .oobMutex)
      pure ()
  | some msg => do
      let _ ← sendMsgToCoord (← load .oobFd) msg
      let _ ← unlock (.mutex .oobMutex)
      pure ()

/-- `disconnect_from_coord`. -/
def disconnectFromCoord : ClientM Unit := do
  let realPid ← plain (load .realPid)
  .assertExpr (do
    let realPid ← load .realPid
    let pid ← realGetpid
    pure (realPid = pid)) (fun _ _ _ _ _ => rfl) .assertion rfl
  let msg : XndMsg := { hdr := .exit, realPid }
  let _ ← plain (do sendMsgToCoord (← load .coordFd) msg)
  let _ ← plain (do sendMsgToCoord (← load .coordFd) msg)
  .assertExpr (do
    let err ← shutdown (← load .coordFd)
    pure (err = 0)) (fun _ _ _ => nofun) .assertion rfl
  plain do
    let fd ← load .coordFd
    store .coordFd (-1)
    let _ ← close fd
    let fd ← load .oobFd
    if fd ≠ -1 then do
      store .oobFd (-1)
      let _ ← close fd
    else pure ()

/-- What `virt_to_real_pid_from_coord` and `real_to_virt_pid_from_coord` do under
`oob_mutex`. -/
def exchangeOob (msg : XndMsg) : ClientCode (Option XndMsg) := do
  match ← connectOob msg with
  | none => pure none
  | some msg => do
      let sent ← sendMsgToCoord (← load .oobFd) msg
      if sent = false then pure none
      else
        match ← recvMsgFromCoord (← load .oobFd) with
        | none => pure none
        | some msg => pure (if msg.hdr = .coordAck ∧ msg.ret = .success then some msg else none)

def askCoord (msg : XndMsg) (field : XndMsg → Int) : ClientM Int := do
  assertLocked (.mutex .oobMutex)
  let answer ← plain (exchangeOob msg)
  assertUnlocked (.mutex .oobMutex)
  pure ((answer.map field).getD (-1))

/-- `virt_to_real_pid_from_coord`. -/
def virtToRealPidFromCoord (virt : Int) : ClientM Int :=
  askCoord { hdr := .virtToReal, virtPid := virt } (·.realPid)

/-- `real_to_virt_pid_from_coord`. -/
def realToVirtPidFromCoord (real : Int) : ClientM Int :=
  askCoord { hdr := .realToVirt, realPid := real } (·.virtPid)

/-- `wait_for_ckpt_request_from_coord`: whether the request came. -/
def waitForCkptRequestFromCoord : ClientCode Bool := do
  match ← recvMsgFromCoord (← load .coordFd) with
  | none => do
      let fd ← load .coordFd
      if fd = -1 then do
        usleep 1000
        pure false
      else pure false
  | some msg => pure (msg.hdr = .ckptRequest)

/-- What a client says when it comes to a barrier, and what it waits for. -/
def barrierHdrs : BarrierType → Option XndMsghdr × XndMsghdr
  | .preckpt => (some .ckptReady, .ckptStart)
  | .postckpt => (some .ckptDone, .resumeAfterCkpt)
  | .postrestart => (none, .resumeAfterRestart)

/-- `enter_coord_barrier`. -/
def enterCoordBarrier (type : BarrierType) : ClientCode Unit := do
  let sent ← match (barrierHdrs type).1 with
    | some hdr => do sendMsgToCoord (← load .coordFd) { hdr }
    | none => pure true
  if sent = false then Code.halt .abort
  else
    match ← recvMsgFromCoord (← load .coordFd) with
    | none => Code.halt .abort
    | some msg =>
        if msg.hdr ≠ (barrierHdrs type).2 then Code.halt .abort
        else if type = .preckpt then do
          store .numPeers msg.numPeers
          store .isRootOfTree (if msg.isRootOfTree = true then 1 else 0)
        else pure ()

/-! ## The pid table -/

/-- `virtual_id_table::acquire`. -/
def tableAcquire : ClientM Unit := assertLocked (.mutex .pidTable)

/-- `virtual_id_table::release`. -/
def tableRelease : ClientM Unit := assertUnlocked (.mutex .pidTable)

/-- `virtual_to_real_pid` and `real_to_virtual_pid`. -/
def translatePid (lookup : ClientCode Int) (ask : ClientM Int) : ClientM Int := do
  tableAcquire
  let found ← plain lookup
  let pid ← if found ≠ -1 then pure found else ask
  tableRelease
  pure pid

/-- `virtual_to_real_pid`. -/
def virtualToRealPid (virt : Int) : ClientM Int :=
  translatePid (Code.call (ClientCall.tableVirtualToReal virt)) (virtToRealPidFromCoord virt)

/-- `real_to_virtual_pid`. -/
def realToVirtualPid (real : Int) : ClientM Int :=
  translatePid (Code.call (ClientCall.tableRealToVirtual real)) (realToVirtPidFromCoord real)

/-- `xnd_assert(_virt_pid != -1 && _virt_ppid != -1)` -/
def assertVirtPids : ClientM Unit :=
  .assertExpr (do
    let virtPid ← load .virtPid
    let virtPpid ← load .virtPpid
    pure (virtPid ≠ -1 ∧ virtPpid ≠ -1)) (fun _ _ _ _ _ => rfl) .assertion rfl

def storeRealPids : ClientCode Unit := do
  let pid ← realGetpid
  store .realPid pid
  let ppid ← realGetppid
  store .realPpid ppid

def updateOwnPids : ClientCode Unit := do
  tableUpdate (← load .virtPid) (← load .realPid)
  tableUpdate (← load .virtPpid) (← load .realPpid)

/-- `pid_table_init_pid_info`. -/
def pidTableInitPidInfo : ClientM Unit := do
  assertVirtPids
  plain storeRealPids
  tableAcquire
  plain updateOwnPids
  tableRelease

/-- The entries of the table that a restart finds, translated anew. -/
def translateEntries : List Int → ClientM (List Int)
  | [] => pure []
  | virt :: rest => do
      let virtPid ← plain (load .virtPid)
      let virtPpid ← plain (load .virtPpid)
      if virt = virtPid ∨ virt = virtPpid then translateEntries rest
      else do
        let real ← virtToRealPidFromCoord virt
        if real = -1 then do
          let erased ← translateEntries rest
          pure (virt :: erased)
        else do
          plain (tableUpdate virt real)
          translateEntries rest

def eraseEntries : List Int → ClientCode Unit
  | [] => pure ()
  | virt :: rest => do
      Code.call (ClientCall.tableErase virt)
      eraseEntries rest

/-- `pid_table_postrestart`. -/
def pidTablePostrestart : ClientM Unit := do
  plain storeRealPids
  tableAcquire
  assertVirtPids
  plain updateOwnPids
  let entries ← plain (Code.call ClientCall.tableEntries)
  let erased ← translateEntries entries
  plain (eraseEntries erased)
  tableRelease

/-! ## Threads -/

/-- A lock or an unlock that aborts when it fails: `thread_list_acquire`,
`thread_list_release`, `zombie_list_acquire`, `zombie_list_release`. -/
def orAbort (m : ClientCode Int) : ClientCode Unit := do
  let err ← m
  if err ≠ 0 then Code.halt .abort else pure ()

/-- `zombie_list_add`. -/
def zombieListAdd (th : Nat) : ClientCode Unit := do
  if ← joined th then Code.call (ClientCall.threadReap th)
  else do
    orAbort (lock (.mutex .zombieList))
    Code.call (ClientCall.zombieLink th)
    orAbort (unlock (.mutex .zombieList))

/-- `thread_list_remove`. -/
def threadListRemove (th : Nat) : ClientM Unit := do
  match ← plain (listPrev th) with
  | some _ => pure ()
  | none =>
      .assertExpr (listHead >>= fun head => pure (head = some th)) (fun _ _ _ => rfl) .assertion rfl
  plain do
    Code.call (ClientCall.listUnlink th)
    if ← joined th then Code.call (ClientCall.threadReap th) else zombieListAdd th

section Traversal
variable {β : Type}

/-- `THREAD_FOREACH_SAFE`, from a thread on. -/
def threadForeachSafe (body : Nat → β → ClientM β) : Nat → Option Nat → β → ClientM β
  | 0, _, _ => halt .running
  | _ + 1, none, b => pure b
  | fuel + 1, some th, b => do
      let next ← plain (listNext th)
      let b ← body th b
      threadForeachSafe body fuel next b

end Traversal

/-- Whether the thread is in one of the states; it is read for each of them. -/
def stateIn (th : Nat) : List ThreadState → ClientCode Bool
  | [] => pure false
  | x :: rest => do
      let now ← state th
      if now = x then pure true else stateIn th rest

theorem quiet_stateIn (th : Nat) (l : List ThreadState) (u : Unit) :
    (stateIn th l u).Quiet silent ClientStop.Failed u := by
  induction l with
  | nil => exact rfl
  | cons x rest ih =>
      intro _ (now : ThreadState)
      show Prog.Quiet silent ClientStop.Failed u
        ((if now = x then pure true else stateIn th rest : ClientCode Bool) u)
      split
      · exact rfl
      · exact ih

/-- A pass of `suspend_threads`. -/
structure Pass where
  suspended : Nat
  rescan : Bool
  deriving DecidableEq, Repr

/-- Signals a thread; one that is gone is removed. -/
def signalThread (th : Nat) (sig : Int) (pass : Pass) : ClientM Pass := do
  let gone ← plain (threadKill th sig)
  let _ ← plain (unlock (.thread th))
  if gone = true then do
    threadListRemove th
    pure pass
  else pure { pass with rescan := true }

/-- The body of the loop of `suspend_threads`. -/
def suspendThread (sig : Int) (th : Nat) (pass : Pass) : ClientM Pass := do
  assertState th fun x => x ≠ .stCkptThread
  if ← plain (exiting th) then pure pass
  else if ← plain (joined th) then do
    threadListRemove th
    pure pass
  else do
    let _ ← plain (lock (.thread th))
    let won ← plain do
      let running ← stateIn th [.stRunning]
      if running = true then threadStateCas th .stRunning .stSignaled else pure false
    if won = true then signalThread th sig pass
    else if ← plain (stateIn th [.stSignaled]) then signalThread th 0 pass
    else plain do
      let pass ← do
        if ← stateIn th [.stSuspended, .stSuspinprog] then
          pure { pass with suspended := pass.suspended + 1 }
        else if ← stateIn th [.stUnsafe, .stEmbryo] then pure { pass with rescan := true }
        else pure pass
      let _ ← unlock (.thread th)
      pure pass

/-- The passes of `suspend_threads`. -/
def suspendPasses (sig : Int) : Nat → ClientM Unit
  | 0 => halt .running
  | fuel + 1 => do
      let _ ← plain (lock (.mutex .ckptMtx))
      plain (orAbort (lock (.mutex .threadList)))
      let head ← plain listHead
      let pass ← threadForeachSafe (suspendThread sig) fuel head ⟨0, false⟩
      let _ ← plain (unlock (.mutex .ckptMtx))
      plain (orAbort (unlock (.mutex .threadList)))
      if pass.rescan = true then do
        plain (usleep 50)
        suspendPasses sig fuel
      else plain (store .threadsExpected pass.suspended)

/-- `suspend_threads`. -/
def suspendThreads (sig : Int) (fuel : Nat) : ClientM Unit := do
  plain (setXndState .xndSuspinprog)
  plain (store .threadsArrived 0)
  suspendPasses sig fuel

/-- The body of the loop of `wait_for_exiting_threads`; it counts the threads that are
exiting and the ones among them that are gone. -/
def awaitExit (th : Nat) (n : Nat × Nat) : ClientM (Nat × Nat) := do
  let leaving ← plain do
    if ← joined th then pure true else exiting th
  if leaving = false then do
    .assertExpr (stateIn th [.stSuspended, .stSuspinprog]) (quiet_stateIn th _) .assertion rfl
    pure n
  else if ← plain (joined th) then do
    threadListRemove th
    pure n
  else if ← plain (exiting th) then do
    let gone ← plain (threadKill th 0)
    if gone = true then do
      threadListRemove th
      pure (n.1 + 1, n.2 + 1)
    else pure (n.1 + 1, n.2)
  else pure n

/-- `wait_for_exiting_threads`. -/
def waitForExitingThreads : Nat → ClientM Unit
  | 0 => halt .running
  | fuel + 1 => do
      plain (orAbort (lock (.mutex .threadList)))
      let head ← plain listHead
      let n ← threadForeachSafe awaitExit fuel head (0, 0)
      plain (orAbort (unlock (.mutex .threadList)))
      if n.1 ≠ n.2 then do
        plain (usleep 50)
        waitForExitingThreads fuel
      else pure ()

def arrivalLoop : Nat → ClientCode Unit
  | 0 => Code.halt .running
  | fuel + 1 => do
      let arrived ← load .threadsArrived
      let expected ← load .threadsExpected
      if arrived < expected then do
        condWait .arrived
        arrivalLoop fuel
      else pure ()

/-- `barrier_arrival_wait`. -/
def barrierArrivalWait (fuel : Nat) : ClientCode Unit := do
  let _ ← lock (.mutex .ckptMtx)
  setXndState .xndCkptinprog
  condBroadcast .released
  arrivalLoop fuel
  let _ ← unlock (.mutex .ckptMtx)
  pure ()

/-- `barrier_release`. -/
def barrierRelease : ClientCode Unit := do
  let _ ← lock (.mutex .ckptMtx)
  setXndState .xndRunning
  condBroadcast .released
  let _ ← unlock (.mutex .ckptMtx)
  pure ()

/-- Waits for `cond_released` as long as the process is in a state. -/
def waitWhile (x : XndState) : Nat → ClientCode Unit
  | 0 => Code.halt .running
  | fuel + 1 => do
      let now ← getXndState
      if now = x then do
        condWait .released
        waitWhile x fuel
      else pure ()

/-- `thread_barrier`. -/
def threadBarrier (fuel : Nat) : ClientM Unit := do
  assertLocked (.mutex .ckptMtx)
  plain do
    waitWhile .xndSuspinprog fuel
    store .threadsArrived ((← load .threadsArrived) + 1)
    let arrived ← load .threadsArrived
    let expected ← load .threadsExpected
    if arrived = expected then condSignal .arrived else pure ()
    waitWhile .xndCkptinprog fuel
  assertUnlocked (.mutex .ckptMtx)

/-- `thread_sighandler`, in the thread `me`. -/
def threadSighandler (me : Nat) (fuel : Nat) : ClientM Unit := do
  let now ← plain (state me)
  if now = .stCkptThread then pure ()
  else do
    assertCas me .stSignaled .stSuspinprog
    let restart ← plain getcontext
    if restart = true then pure ()
    else do
      assertCas me .stSuspinprog .stSuspended
      threadBarrier fuel
      assertCas me .stSuspended .stRunning

/-! ## The checkpoint thread -/

/-- What `xnd_postrestart_early`, `xnd_postrestart_late` and `ckpt_thread_work` do after a
restart; `restore` is `restore_threads`. -/
def postrestart (xndCoordFd : Int) (restore fuel : Nat) : ClientM Unit := do
  plain (do store .epoch ((← load .epoch) + 1))
  connectToCoordOnRestart xndCoordFd
  plain (enterCoordBarrier .postrestart)
  pidTablePostrestart
  plain do
    other restore
    barrierArrivalWait fuel
    barrierRelease

/-- The loop of `ckpt_thread_work`; `checkpoint` is `xnd_checkpoint`. -/
def ckptLoop (sig : Int) (checkpoint : Nat) : Nat → ClientM Unit
  | 0 => halt .running
  | fuel + 1 => do
      let requested ← plain waitForCkptRequestFromCoord
      if requested = false then halt .exit
      else do
        plain (setXndState .xndCkptPending)
        plain (enterCoordBarrier .preckpt)
        suspendThreads sig fuel
        waitForExitingThreads fuel
        plain do
          barrierArrivalWait fuel
          other checkpoint
          enterCoordBarrier .postckpt
          store .epoch ((← load .epoch) + 1)
          barrierRelease
        ckptLoop sig checkpoint fuel

/-- `ckpt_thread_work`, after it has set itself up. -/
def ckptThreadWork (xndCoordFd sig : Int) (restore checkpoint fuel : Nat) : ClientM Unit := do
  let restart ← plain getcontext
  if restart = true then postrestart xndCoordFd restore fuel else pure ()
  ckptLoop sig checkpoint fuel

end Xnd.Client
