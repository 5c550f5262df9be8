import Mathlib.Algebra.Group.Int.Defs
import Mathlib.Algebra.Group.Nat.Defs
import Xnd.Coord.State

/-!
# The coordinator

The functions of `xnd_coord.c`, over the sequence of listed processes.  Loops of the
source that wait for the world (`do` loops over `select`, `coord_work`) run on fuel.

The path of an exit through `coord_wait_for_msg` reads memory of a process that has
just been freed (`p->oob_fd`); what it finds there is an answer of the environment
(`staleField`), so that runs do not end there.  A second removal of a freed process,
and a step of a traversal onto one, do end them (`.fault`).
-/
namespace Xnd.Coord

/-! ## Ids -/

/-- A `pid_t` counter after `++`. -/
def wrap32 (n : Int) : Int := (n + 2 ^ 31) % 2 ^ 32 - 2 ^ 31

/-- `coord_next_virt_pid`. -/
def coordNextVirtPid : InfoM Int := do
  let next := (← Code.get).nextVirtPid
  Code.modify fun s => { s with nextVirtPid := wrap32 (next + 1) }
  if (← Code.get).table.virtualIdExists next = true then
    Code.halt (.exitFailure .virtPidExists)
  else pure next

/-- `coord_next_xnd_pid`. -/
def coordNextXndPid : InfoM Nat := do
  let next := (← Code.get).nextXndPid
  Code.modify fun s => { s with nextXndPid := (next + 1) % 2 ^ 32 }
  pure next

/-! ## Rounds -/

/-- `enum coord_barrier_type`. -/
inductive BarrierType where
  | preckpt | postckpt | postrestart
  deriving DecidableEq, Repr

namespace BarrierType

def hdr : BarrierType → XndMsghdr
  | .preckpt => .ckptStart
  | .postckpt => .resumeAfterCkpt
  | .postrestart => .resumeAfterRestart

def expected : BarrierType → ProcState
  | .preckpt => .readyForCkpt
  | .postckpt => .ckptComplete
  | .postrestart => .restartInProgress

def next : BarrierType → ProcState
  | .preckpt => .ckptInProgress
  | .postckpt => .running
  | .postrestart => .running

end BarrierType

def releaseMsg (type : BarrierType) (numPeers : Nat) (a : Proc) : XndMsg :=
  if type = .preckpt then { hdr := type.hdr, numPeers, isRootOfTree := a.isRootOfTree }
  else { hdr := type.hdr }

/-- The loop of `coord_release_barrier`. -/
def releaseLoop (type : BarrierType) : List Nat → InfoM Bool
  | [] => pure true
  | p :: rest => do
      let a ← listProc p
      xndAssert .procState (a.state = type.expected)
      let s ← Code.get
      let sent ← coordSendMsg a.fd (releaseMsg type s.numPeers a)
      if sent = true then do
        Code.modify fun s => s.setProc p fun a => { a with state := type.next }
        releaseLoop type rest
      else pure false

/-- `coord_release_barrier`: whether every process was sent its message. -/
def coordReleaseBarrier (type : BarrierType) : InfoM Bool := do
  releaseLoop type ((← Code.get).procs.map Prod.fst)

/-- `enum coord_comm_type`. -/
inductive CommType where
  | broadcast | reduce
  deriving DecidableEq, Repr

def selectFor : CommType → List Int → InfoM (Option (List Int))
  | .broadcast, set => sysSelectWrite set
  | .reduce, set => sysSelect set

/-- A turn of the liveness sweep in `coord_collective_prepare`. -/
def prepareTurn (p : Nat) (n : Nat × List Int) : InfoM (Nat × List Int) := do
  let a ← listProc p
  let gone ← sysProbe a.realPid
  if gone = true then do
    listRemove p
    pure n
  else pure (n.1 + 1, n.2 ++ [a.fd])

/-- `coord_collective_prepare`. -/
def coordCollectivePrepare (type : CommType) : Nat → InfoM Nat
  | 0 => Code.halt .running
  | fuel + 1 => do
      let (total, set) ← seqForeachSafe (0, []) prepareTurn
      match ← selectFor type set with
      | none => Code.halt (.exitFailure .select)
      | some ready =>
          if ready.length = total then pure total else coordCollectivePrepare type fuel

/-- The `switch` of `coord_suspend_processes`: 1 when the process counts as ready. -/
def requestReady (p : Nat) (a : Proc) : InfoM Nat :=
  match a.state with
  | .running => do
      let sent ← coordSendMsg a.fd { hdr := .ckptRequest }
      if sent = true then do
        Code.modify fun s => s.setProc p fun a => { a with state := .recvCkptRequest }
        pure 0
      else pure 0
  | .recvCkptRequest => do
      match ← coordRecvMsg a.fd with
      | some resp =>
          if resp.hdr = .ckptReady then do
            Code.modify fun s => s.setProc p fun a => { a with state := .readyForCkpt }
            pure 1
          else pure 0
      | none => pure 0
  | .readyForCkpt => pure 1
  | _ => pure 0

/-- A turn of `coord_suspend_processes`, with its counts `total` and `ready`. -/
def suspendTurn (p : Nat) (n : Nat × Nat) : InfoM (Nat × Nat) := do
  let a ← listProc p
  let ready ← requestReady p a
  let gone ← sysProbe a.realPid
  if gone = true then do
    listRemove p
    pure (n.1, n.2 + ready)
  else pure (n.1 + 1, n.2 + ready)

/-- `coord_suspend_processes`. -/
def coordSuspendProcesses : Nat → InfoM Unit
  | 0 => Code.halt .running
  | fuel + 1 => do
      let (total, ready) ← seqForeachSafe (0, 0) suspendTurn
      if ready = total then pure ()
      else do
        sysUsleep
        coordSuspendProcesses fuel

/-- A turn of the loop of `coord_wait_for_ckpt_completions`. -/
def completionTurn (p : Nat) (a : Proc) (total : Nat) : InfoM Nat := do
  xndAssert .procState (a.state = .ckptInProgress)
  match ← coordRecvMsg a.fd with
  | some msg =>
      if msg.hdr = .ckptDone then do
        Code.modify fun s => s.setProc p fun a => { a with state := .ckptComplete }
        pure (total + 1)
      else pure total
  | none => pure total

/-- `coord_wait_for_ckpt_completions`. -/
def coordWaitForCkptCompletions (fuel : Nat) : InfoM Unit := do
  let expected := (← Code.get).numPeers
  let total ← coordCollectivePrepare .reduce fuel
  if total ≠ expected then Code.halt (.exitFailure .lessParticipants)
  else do
    let total ← seqForeach completionTurn ((← Code.get).procs.map Prod.fst) 0
    if total ≠ expected then Code.halt (.exitFailure .lessCompletions) else pure ()

/-- `XND_MANIFEST_ENTRY_MAX`, the slots of `struct xnd_manifest`. -/
def manifestEntryMax : Nat := 256

def uint32Max : Nat := 2 ^ 32 - 1

/-- The ids, of `n` from `id` on, for which there is a checkpoint file. -/
def scanCkptfiles (dirfd : Int) : Nat → Nat → InfoM (List Nat)
  | _, 0 => pure []
  | id, n + 1 => do
      let plain ← xndCkptfileExists dirfd id
      let found ← (if plain = true then pure true else xndCompressedCkptExists dirfd id : InfoM Bool)
      let rest ← scanCkptfiles dirfd (id + 1) n
      pure (if found = true then id :: rest else rest)

/-- `xnd_ckptfile_write_manifest`: whether it returns 0.  An id that is stored behind
the last slot is not in what is written; with the largest id the loop has no end. -/
def xndCkptfileWriteManifest (total minXndPid maxXndPid uuid epoch : Nat) : InfoM Bool := do
  match ← xndCkptdirOpen uuid epoch with
  | none => pure false
  | some dirfd =>
    match ← xndCkptfileCreateManifest dirfd with
    | none => do
        sysClose dirfd
        pure false
    | some fd => do
        let ids ← scanCkptfiles dirfd minXndPid (maxXndPid + 1 - minXndPid)
        if maxXndPid = uint32Max then Code.halt .running
        else do
          let written ← (if ids.length = total then
              writeManifest fd ids.length (ids.take manifestEntryMax)
            else pure false : InfoM Bool)
          sysClose dirfd
          sysClose fd
          pure written

/-- `coord_write_ckpt_manifest`. -/
def coordWriteCkptManifest : InfoM Unit := do
  let s ← Code.get
  let ids := s.procs.map (·.2.xndPid)
  let written ← xndCkptfileWriteManifest s.numPeers (ids.foldr min uint32Max) (ids.foldr max 0)
    s.xndUuid s.epoch
  if written = true then pure () else Code.halt (.exitFailure .manifest)

/-- `coord_determine_roots`. -/
def coordDetermineRoots : InfoM Unit :=
  Code.modify fun s => { s with
    procs := s.procs.map fun n =>
      (n.1, { n.2 with isRootOfTree := (s.find (·.realPid = n.2.realPpid)).isNone }) }

/-- The directory of the previous round is removed. -/
def unlinkPrevious (epoch : Nat) : InfoM Unit := do
  if epoch ≠ 0 then do
    let _ ← xndCkptdirUnlink (← Code.get).xndUuid (epoch - 1)
    pure ()
  else pure ()

/-- `coord_do_checkpoint`, from the creation of the directory to the label `out`. -/
def coordRunRound (epoch fuel : Nat) : InfoM Unit := do
  Code.modify fun s => { s with numPeers := s.procs.length }
  coordDetermineRoots
  let total ← coordCollectivePrepare .broadcast fuel
  xndAssert .allPrepared (total = (← Code.get).numPeers)
  let released ← coordReleaseBarrier .preckpt
  xndAssert .preckptReleased (released = true)
  coordWaitForCkptCompletions fuel
  coordWriteCkptManifest
  let resumed ← coordReleaseBarrier .postckpt
  xndAssert .postckptReleased (resumed = true)
  unlinkPrevious epoch
  Code.modify fun s => { s with epoch := s.epoch + 1 }

/-- `coord_do_checkpoint`, after every process is suspended. -/
def coordCheckpointSuspended (epoch fuel : Nat) : InfoM Unit := do
  let created ← xndCkptdirCreate (← Code.get).xndUuid epoch
  if created = true then coordRunRound epoch fuel
  else do
    let _ ← xndCkptdirUnlink (← Code.get).xndUuid epoch
    pure ()

/-- `coord_do_checkpoint`. -/
def coordDoCheckpoint (fuel : Nat) : InfoM Unit := do
  let epoch := (← Code.get).epoch
  sysSigprocmask true
  let total ← coordCollectivePrepare .broadcast fuel
  if total = 0 then sysSigprocmask false
  else do
    coordSuspendProcesses fuel
    coordCheckpointSuspended epoch fuel
    sysSigprocmask false

/-! ## Messages -/

/-- What a translation is answered with. -/
def coordSendVirtToReal (fd : Int) (msg : XndMsg) : InfoM Unit := do
  let s ← Code.get
  let real := s.table.virtualToReal msg.virtPid
  let real := if real ≠ -1 then real
    else ((s.find (·.virtPid = msg.virtPid)).map (·.2.realPid)).getD (-1)
  let sent ← coordSendMsg fd
    (if real ≠ -1 then { hdr := .coordAck, ret := .success, realPid := real }
     else { hdr := .coordAck, ret := .failure, realPid := -1 })
  xndAssert .replySent (sent = true)

/-- `coord_send_real_to_virt`. -/
def coordSendRealToVirt (fd : Int) (msg : XndMsg) : InfoM Unit := do
  let i ← iteration
  let s ← Code.get
  let virt := s.table.realToVirtual i msg.realPid
  let virt := if virt ≠ -1 then virt
    else ((s.find (·.realPid = msg.realPid)).map (·.2.virtPid)).getD (-1)
  let sent ← coordSendMsg fd
    (if virt ≠ -1 then { hdr := .coordAck, ret := .success, virtPid := virt }
     else { hdr := .coordAck, ret := .failure, virtPid := -1 })
  xndAssert .replySent (sent = true)

/-- `coord_handle_msg`. -/
def coordHandleMsg (fd : Int) (msg : XndMsg) : InfoM Unit :=
  match msg.hdr with
  | .exit => do
      match (← Code.get).find (·.realPid = msg.realPid) with
      | some (p, _) => listRemove p
      | none => pure ()
  | .virtToReal => coordSendVirtToReal fd msg
  | .realToVirt => coordSendRealToVirt fd msg
  | _ => Code.halt (.exitFailure .unexpectedMessage)

/-- `p->oob_fd`, which may be read when `p` has been freed. -/
def oobFdOf (p : Nat) : InfoM Int := do
  match (← Code.get).proc p with
  | some a => pure a.oobFd
  | none => staleField

def serveOobFd (ready : List Int) (p : Nat) : InfoM Unit := do
  let fd ← oobFdOf p
  if fd ≠ -1 ∧ fd ∈ ready then do
    match ← coordRecvMsg fd with
    | none => listRemove p
    | some msg => coordHandleMsg fd msg
  else pure ()

/-- The turn of a process in `coord_wait_for_msg`. -/
def serveProc (ready : List Int) (p : Nat) : InfoM Unit := do
  let a ← listProc p
  if a.fd ∈ ready then do
    match ← coordRecvMsg a.fd with
    | none => listRemove p
    | some msg => do
        coordHandleMsg a.fd msg
        serveOobFd ready p
  else serveOobFd ready p

/-- The descriptors of a process that are watched. -/
def watchedFds (a : Proc) : List Int := if a.oobFd ≠ -1 then [a.fd, a.oobFd] else [a.fd]

/-- `coord_wait_for_msg`. -/
def coordWaitForMsg : InfoM Unit := do
  let s ← Code.get
  match ← sysSelect (s.procs.flatMap fun n => watchedFds n.2) with
  | none => pure ()
  | some [] => pure ()
  | some ready => seqForeachSafe () fun p _ => serveProc ready p

/-! ## Registration -/

/-- `coord_send_handshake`. -/
def coordSendHandshake (a : Proc) : InfoM Unit := do
  let s ← Code.get
  let sent ← coordSendMsg a.fd
    { hdr := .coordAck, ret := .success, realPid := a.realPid, virtPid := a.virtPid,
      realPpid := a.realPpid, virtPpid := a.virtPpid, xndUuid := s.xndUuid, xndPid := a.xndPid,
      xndPpid := a.xndPpid, xndPgid := a.xndPgid }
  if sent = true then pure () else Code.halt (.exitFailure .handshake)

/-- The end of the three registrations of a new process: the handshake, its two
entries in the table, its node. -/
def registerProc (a : Proc) : InfoM Unit := do
  coordSendHandshake a
  Code.modify fun s =>
    { s with table := (s.table.update a.virtPid a.realPid).update a.virtPpid a.realPpid }
  Code.modify fun s => s.push a

/-- The ids of a process that is launched: below its parent, when the parent is known. -/
def launchIds (fd : Int) (msg : XndMsg) : InfoM Proc := do
  let s ← Code.get
  if s.table.realIdExists msg.realPpid = true then
    match s.find (·.realPid = msg.realPpid) with
    | none => Code.halt (.assertion .parentListed)
    | some (_, parent) => do
        let virtPid ← coordNextVirtPid
        let xndPid ← coordNextXndPid
        pure { fd, oobFd := -1, xndPid, xndPpid := parent.xndPid, xndPgid := parent.xndPgid, virtPid,
               realPid := msg.realPid, virtPpid := parent.virtPid, realPpid := msg.realPpid,
               isRootOfTree := false, state := .running }
  else do
    let virtPpid ← coordNextVirtPid
    let virtPid ← coordNextVirtPid
    let xndPpid ← coordNextXndPid
    let xndPid ← coordNextXndPid
    pure { fd, oobFd := -1, xndPid, xndPpid, xndPgid := xndPid, virtPid, realPid := msg.realPid,
           virtPpid, realPpid := msg.realPpid, isRootOfTree := false, state := .running }

/-- `coord_connect_with_process_on_launch`.  A real pid of the table that is not on
the list is a null pointer that is followed. -/
def coordConnectWithProcessOnLaunch (fd : Int) (msg : XndMsg) : InfoM Unit := do
  let s ← Code.get
  if s.table.realIdExists msg.realPid = true then
    match s.find (·.realPid = msg.realPid) with
    | none => Code.halt .fault
    | some (p, a) => do
        sysClose a.fd
        Code.modify fun s => s.setProc p fun a => { a with fd := fd }
        coordSendHandshake { a with fd := fd }
  else do
    xndAssert .initialStartup (s.epoch = 0)
    let a ← launchIds fd msg
    registerProc a

/-- `coord_connect_with_process_on_restart`. -/
def coordConnectWithProcessOnRestart (fd : Int) (msg : XndMsg) : InfoM Unit := do
  Code.modify fun s => { s with
    nextVirtPid := if msg.virtPid ≥ s.nextVirtPid then wrap32 (msg.virtPid + 1) else s.nextVirtPid
    nextXndPid := if msg.xndPid ≥ s.nextXndPid then (msg.xndPid + 1) % 2 ^ 32 else s.nextXndPid }
  registerProc
    { fd, oobFd := -1, xndPid := msg.xndPid, xndPpid := msg.xndPpid, xndPgid := msg.xndPgid,
      virtPid := msg.virtPid, realPid := msg.realPid, virtPpid := msg.virtPpid,
      realPpid := msg.realPpid, isRootOfTree := false, state := .restartInProgress }

/-- `coord_atfork`. -/
def coordAtfork (fd : Int) (parentMsg : XndMsg) : InfoM Unit := do
  let virtPid ← coordNextVirtPid
  let xndPid ← coordNextXndPid
  let sent ← coordSendMsg fd { hdr := .coordAck, ret := .success, virtPid := virtPid }
  if sent = true then do
    match (← Code.get).find (·.virtPid = parentMsg.virtPpid) with
    | none => Code.halt (.exitFailure .parentNotListed)
    | some (_, parent) =>
      match ← coordRecvMsg fd with
      | none => Code.halt (.exitFailure .childNotReceived)
      | some childMsg => do
          xndAssert .childConnected (childMsg.hdr = .atforkChild)
          xndAssert .childOfParent (childMsg.realPpid = parent.realPid)
          registerProc
            { fd, oobFd := -1, xndPid, xndPpid := parentMsg.xndPpid, xndPgid := parentMsg.xndPgid,
              virtPid, realPid := childMsg.realPid, virtPpid := parentMsg.virtPpid,
              realPpid := childMsg.realPpid, isRootOfTree := false, state := .running }
  else Code.halt (.exitFailure .virtPidNotSent)

/-- An out-of-band connection is given to the process that its first message names. -/
def connectOob (fd : Int) (msg : XndMsg) : InfoM Unit := do
  match (← Code.get).find (·.xndPid = msg.xndPid) with
  | none => Code.halt (.assertion .requesterListed)
  | some (p, _) => Code.modify fun s => s.setProc p fun a => { a with oobFd := fd }

/-- `coord_broadcast_kill`, with `SIGKILL`. -/
def coordBroadcastKill : InfoM Unit := do
  seqForeach (fun _ a _ => sysKill a.realPid 9) ((← Code.get).procs.map Prod.fst) ()
  Code.halt .exitSuccess

/-- The `switch` of `coord_handle_command`. -/
def runCommand (fuel : Nat) : XndCmd → InfoM Unit
  | .ckptCmd => coordDoCheckpoint fuel
  | .killCmd => coordBroadcastKill
  | _ => Code.halt (.exitFailure .invalidCommand)

/-- `coord_handle_command`. -/
def coordHandleCommand (fuel : Nat) (fd : Int) (msg : XndMsg) : InfoM Unit := do
  runCommand fuel msg.cmd
  let sent ← coordSendMsg fd { hdr := .coordAck, ret := .success }
  xndAssert .commandAcked (sent = true)

/-- The `switch` of `coord_wait_for_connection`. -/
def coordHandleConnection (fuel : Nat) (fd : Int) (msg : XndMsg) : InfoM Unit :=
  match msg.hdr with
  | .connectLaunch => coordConnectWithProcessOnLaunch fd msg
  | .connectRestart => do
      Code.modify fun s =>
        if s.procs.length = 0 then
          { s with epoch := msg.epoch, numPeers := msg.numPeers, ckptInterval := msg.ckptInterval,
                   xndUuid := msg.xndUuid }
        else s
      coordConnectWithProcessOnRestart fd msg
  | .atforkPrepare => coordAtfork fd msg
  | .command => do
      coordHandleCommand fuel fd msg
      sysClose fd
  | .realToVirt => do
      connectOob fd msg
      coordSendRealToVirt fd msg
  | .virtToReal => do
      connectOob fd msg
      coordSendVirtToReal fd msg
  | _ => Code.halt (.exitFailure .unexpectedConnection)

/-- `coord_wait_for_connection`. -/
def coordWaitForConnection (fuel : Nat) : InfoM Unit := do
  match ← sysSelect [(← Code.get).listenFd] with
  | none => pure ()
  | some [] => pure ()
  | some _ =>
    match ← sysAccept with
    | none => pure ()
    | some fd =>
      match ← coordRecvMsg fd with
      | none => Code.halt (.assertion .connectionReceived)
      | some msg => coordHandleConnection fuel fd msg

/-! ## The main program -/

/-- The first loop of `coord_work` and of `coord_do_restart`. -/
def awaitProcess (bailed : CoordError) (ppid : Int) : Nat → InfoM Unit
  | 0 => Code.halt .running
  | fuel + 1 => do
      coordWaitForConnection fuel
      if (← Code.get).procs.length ≠ 0 then pure ()
      else do
        let gone ← sysProbe ppid
        if gone = true then Code.halt (.exitFailure bailed) else awaitProcess bailed ppid fuel

/-- The second loop of `coord_do_restart`. -/
def awaitPeers (ppid : Int) : Nat → InfoM Unit
  | 0 => Code.halt .running
  | fuel + 1 => do
      let s ← Code.get
      if s.procs.length < s.numPeers then do
        coordWaitForConnection fuel
        let s ← Code.get
        if s.procs.length = s.numPeers then pure ()
        else do
          let gone ← sysProbe ppid
          if gone = true then Code.halt (.exitFailure .restartBailed) else awaitPeers ppid fuel
      else pure ()

/-- `getppid`, by a coordinator that must not be an orphan. -/
def parentPid : InfoM Int := do
  let ppid ← sysGetppid
  if ppid = 1 then Code.halt (.exitFailure .orphaned) else pure ppid

/-- `coord_do_restart`. -/
def coordDoRestart (fuel : Nat) : InfoM Unit := do
  let ppid ← parentPid
  awaitProcess .restartBailed ppid fuel
  awaitPeers ppid fuel
  let total ← coordCollectivePrepare .broadcast fuel
  if total ≠ (← Code.get).numPeers then Code.halt (.exitFailure .notAllPeers)
  else do
    let released ← coordReleaseBarrier .postrestart
    if released = true then pure () else Code.halt (.exitFailure .postRestartBarrier)

/-- `COORD_HEARTBEAT_INTERVAL`. -/
def heartbeatInterval : Nat := 16

/-- The checkpoint of the main loop, when the interval has passed. -/
def checkpointOnInterval (fuel : Nat) : InfoM Unit := do
  let s ← Code.get
  if s.ckptInterval ≠ 0 then do
    let elapsed ← sysElapsed
    if elapsed ≥ s.ckptInterval then coordDoCheckpoint fuel else pure ()
  else pure ()

/-- The main loop of `coord_work`. -/
def workLoop : Nat → Nat → InfoM Unit
  | 0, _ => Code.halt .running
  | fuel + 1, iter => do
      coordWaitForConnection fuel
      coordWaitForMsg
      checkpointOnInterval fuel
      if (← Code.get).procs.length = 0 then pure ()
      else if iter % heartbeatInterval = 0 then do
        listFilter
        if (← Code.get).procs.length = 0 then pure () else workLoop fuel (iter + 1)
      else workLoop fuel (iter + 1)

/-- `coord_work`. -/
def coordWork (fuel : Nat) : InfoM Unit := do
  let ppid ← parentPid
  awaitProcess .parentBailed ppid fuel
  workLoop fuel 0

/-- `main`, after `coord_init`. -/
def coordMain (restart : Bool) (fuel : Nat) : InfoM Unit := do
  if restart = true then coordDoRestart fuel else pure ()
  coordWork fuel

end Xnd.Coord
