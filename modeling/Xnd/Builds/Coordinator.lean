import Xnd.Coord.Server
import Xnd.Lib.Asserting

/-!
# The text of the coordinator

The functions of `xnd_coord.c` that assert something or call one that does, with their
assertions as they stand in the source: two releases of a barrier, the reception of the
first message of a connection, the answers to translations and commands are inside
`xnd_assert`.  What they do without the assertions of a release build is their expansion.

`development_coordMain` says that the expansion of the development build is the
coordinator of `Xnd.Coord.Server`.  In a release build a message that an assertion was to
receive is what was in the variable before (`unset`), and the null pointer that an
assertion was to find is followed.
-/
namespace Xnd.Coord

/-- The program stops in a failed assertion. -/
def CoordStop.Failed : CoordStop → Prop
  | .assertion _ => True
  | _ => False

instance (e : CoordStop) : Decidable e.Failed := by
  unfold CoordStop.Failed
  split
  · infer_instance
  · infer_instance

/-- No call of the coordinator only reads. -/
def silent (_ : CoordCall) : Bool := false

abbrev TextM := SourceCode CoordCall.Answer silent CoordStop.Failed CoordInfo

namespace Text

/-- Code of the coordinator without assertions. -/
abbrev plain {α : Type} (m : InfoM α) : TextM α := SourceCode.plain m

abbrev get : TextM CoordInfo := plain Code.get
abbrev modify (f : CoordInfo → CoordInfo) : TextM Unit := plain (Code.modify f)
abbrev halt {α : Type} (e : CoordStop) : TextM α := plain (Code.halt e)

/-- `xnd_assert` of an expression without effects. -/
def xndAssert (failed : CoordAssertion) (b : Prop) [Decidable b] : TextM Unit :=
  .assertPure (decide b) (.assertion failed) trivial

/-- `xnd_assert(coord_send_msg(fd, &msg) == 0)` -/
def assertSent (failed : CoordAssertion) (fd : Int) (msg : XndMsg) : TextM Unit :=
  .assertExpr (coordSendMsg fd msg) (fun _ => nofun) (.assertion failed) trivial

theorem listProc_front {s : CoordInfo} {n : Nat × Proc} {rest : List (Nat × Proc)}
    (h : s.procs = n :: rest) : listProc n.1 s = .ret s n.2 := by
  have hproc : s.proc n.1 = some n.2 := by
    rw [CoordInfo.proc, h, List.find?_cons_of_pos (by simp)]
    rfl
  have hget : ∀ f : CoordInfo → InfoM Proc, (Code.get >>= f) s = f s s := fun _ => rfl
  rw [listProc, hget, hproc]
  rfl

/-- The release of a barrier calls before it changes anything. -/
theorem quiet_coordReleaseBarrier (type : BarrierType) (s : CoordInfo) :
    (coordReleaseBarrier type s).Quiet silent CoordStop.Failed s := by
  show (releaseLoop type (s.procs.map Prod.fst) s).Quiet silent CoordStop.Failed s
  cases hs : s.procs with
  | nil => exact rfl
  | cons n rest =>
      show ((listProc n.1 s).bind fun a => _).Quiet silent CoordStop.Failed s
      rw [listProc_front hs]
      show (Prog.bind ((if _ then _ else _ : InfoM Unit) s) _).Quiet silent CoordStop.Failed s
      split
      · exact nofun
      · exact trivial

/-- `xnd_assert(coord_release_barrier(type) == 0)` -/
def assertReleased (failed : CoordAssertion) (type : BarrierType) : TextM Unit :=
  .assertExpr (coordReleaseBarrier type) (quiet_coordReleaseBarrier type) (.assertion failed)
    trivial

/-! ## Traversals -/

section Traversal
variable {β : Type}

def seqSafeLoop (body : Nat → β → TextM β) : Nat → Option Nat → β → TextM β
  | 0, _, _ => halt .running
  | _ + 1, none, b => pure b
  | fuel + 1, some p, b => do
      match (← get).next p with
      | none => halt .fault
      | some next =>
          let b ← body p b
          seqSafeLoop body fuel next b

/-- `proc_foreach_safe`. -/
def seqForeachSafe (b : β) (body : Nat → β → TextM β) : TextM β := do
  let s ← get
  seqSafeLoop body (s.procs.length + 1) (front s.procs) b

def seqForeach (body : Nat → Proc → β → TextM β) : List Nat → β → TextM β
  | [], b => pure b
  | p :: rest, b => do
      let a ← plain (listProc p)
      let b ← body p a b
      seqForeach body rest b

end Traversal

/-! ## Rounds -/

def releaseLoop (type : BarrierType) : List Nat → TextM Bool
  | [] => pure true
  | p :: rest => do
      let a ← plain (listProc p)
      xndAssert .procState (a.state = type.expected)
      let s ← get
      let sent ← plain (coordSendMsg a.fd (releaseMsg type s.numPeers a))
      if sent = true then do
        modify fun s => s.setProc p fun a => { a with state := type.next }
        releaseLoop type rest
      else pure false

/-- `coord_release_barrier`. -/
def coordReleaseBarrier (type : BarrierType) : TextM Bool := do
  releaseLoop type ((← get).procs.map Prod.fst)

def completionTurn (p : Nat) (a : Proc) (total : Nat) : TextM Nat := do
  xndAssert .procState (a.state = .ckptInProgress)
  match ← plain (coordRecvMsg a.fd) with
  | some msg =>
      if msg.hdr = .ckptDone then do
        modify fun s => s.setProc p fun a => { a with state := .ckptComplete }
        pure (total + 1)
      else pure total
  | none => pure total

/-- `coord_wait_for_ckpt_completions`. -/
def coordWaitForCkptCompletions (fuel : Nat) : TextM Unit := do
  let expected := (← get).numPeers
  let total ← plain (coordCollectivePrepare .reduce fuel)
  if total ≠ expected then halt (.exitFailure .lessParticipants)
  else do
    let total ← seqForeach completionTurn ((← get).procs.map Prod.fst) 0
    if total ≠ expected then halt (.exitFailure .lessCompletions) else pure ()

def coordRunRound (epoch fuel : Nat) : TextM Unit := do
  modify fun s => { s with numPeers := s.procs.length }
  plain coordDetermineRoots
  let total ← plain (coordCollectivePrepare .broadcast fuel)
  let s ← get
  xndAssert .allPrepared (total = s.numPeers)
  assertReleased .preckptReleased .preckpt
  coordWaitForCkptCompletions fuel
  plain coordWriteCkptManifest
  assertReleased .postckptReleased .postckpt
  plain (unlinkPrevious epoch)
  modify fun s => { s with epoch := s.epoch + 1 }

def coordCheckpointSuspended (epoch fuel : Nat) : TextM Unit := do
  let created ← plain (xndCkptdirCreate (← get).xndUuid epoch)
  if created = true then coordRunRound epoch fuel
  else do
    let _ ← plain (xndCkptdirUnlink (← get).xndUuid epoch)
    pure ()

/-- `coord_do_checkpoint`. -/
def coordDoCheckpoint (fuel : Nat) : TextM Unit := do
  let epoch := (← get).epoch
  plain (sysSigprocmask true)
  let total ← plain (coordCollectivePrepare .broadcast fuel)
  if total = 0 then plain (sysSigprocmask false)
  else do
    plain (coordSuspendProcesses fuel)
    coordCheckpointSuspended epoch fuel
    plain (sysSigprocmask false)

/-! ## Messages -/

/-- `coord_send_virt_to_real`. -/
def coordSendVirtToReal (fd : Int) (msg : XndMsg) : TextM Unit := do
  let s ← get
  let real := s.table.virtualToReal msg.virtPid
  let real := if real ≠ -1 then real
    else ((s.find (·.virtPid = msg.virtPid)).map (·.2.realPid)).getD (-1)
  assertSent .replySent fd
    (if real ≠ -1 then { hdr := .coordAck, ret := .success, realPid := real }
     else { hdr := .coordAck, ret := .failure, realPid := -1 })

/-- `coord_send_real_to_virt`. -/
def coordSendRealToVirt (fd : Int) (msg : XndMsg) : TextM Unit := do
  let i ← plain iteration
  let s ← get
  let virt := s.table.realToVirtual i msg.realPid
  let virt := if virt ≠ -1 then virt
    else ((s.find (·.realPid = msg.realPid)).map (·.2.virtPid)).getD (-1)
  assertSent .replySent fd
    (if virt ≠ -1 then { hdr := .coordAck, ret := .success, virtPid := virt }
     else { hdr := .coordAck, ret := .failure, virtPid := -1 })

/-- `coord_handle_msg`. -/
def coordHandleMsg (fd : Int) (msg : XndMsg) : TextM Unit :=
  match msg.hdr with
  | .exit => do
      match (← get).find (·.realPid = msg.realPid) with
      | some (p, _) => plain (listRemove p)
      | none => pure ()
  | .virtToReal => coordSendVirtToReal fd msg
  | .realToVirt => coordSendRealToVirt fd msg
  | _ => halt (.exitFailure .unexpectedMessage)

def serveOobFd (ready : List Int) (p : Nat) : TextM Unit := do
  let fd ← plain (oobFdOf p)
  if fd ≠ -1 ∧ fd ∈ ready then do
    match ← plain (coordRecvMsg fd) with
    | none => plain (listRemove p)
    | some msg => coordHandleMsg fd msg
  else pure ()

def serveProc (ready : List Int) (p : Nat) : TextM Unit := do
  let a ← plain (listProc p)
  if a.fd ∈ ready then do
    match ← plain (coordRecvMsg a.fd) with
    | none => plain (listRemove p)
    | some msg => do
        coordHandleMsg a.fd msg
        serveOobFd ready p
  else serveOobFd ready p

/-- `coord_wait_for_msg`. -/
def coordWaitForMsg : TextM Unit := do
  let s ← get
  match ← plain (sysSelect (s.procs.flatMap fun n => watchedFds n.2)) with
  | none => pure ()
  | some [] => pure ()
  | some ready => seqForeachSafe () fun p _ => serveProc ready p

/-! ## Registration -/

/-- The parent of a process that is launched is followed after it is asserted that there
is one. -/
def launchIds (fd : Int) (msg : XndMsg) : TextM Proc := do
  let s ← get
  if s.table.realIdExists msg.realPpid = true then do
    xndAssert .parentListed ((s.find (·.realPid = msg.realPpid)).isSome)
    match s.find (·.realPid = msg.realPpid) with
    | none => halt .fault
    | some (_, parent) => do
        let virtPid ← plain coordNextVirtPid
        let xndPid ← plain coordNextXndPid
        pure { fd, oobFd := -1, xndPid, xndPpid := parent.xndPid, xndPgid := parent.xndPgid,
               virtPid, realPid := msg.realPid, virtPpid := parent.virtPid, realPpid := msg.realPpid,
               isRootOfTree := false, state := .running }
  else do
    let virtPpid ← plain coordNextVirtPid
    let virtPid ← plain coordNextVirtPid
    let xndPpid ← plain coordNextXndPid
    let xndPid ← plain coordNextXndPid
    pure { fd, oobFd := -1, xndPid, xndPpid, xndPgid := xndPid, virtPid, realPid := msg.realPid,
           virtPpid, realPpid := msg.realPpid, isRootOfTree := false, state := .running }

/-- `coord_connect_with_process_on_launch`. -/
def coordConnectWithProcessOnLaunch (fd : Int) (msg : XndMsg) : TextM Unit := do
  let s ← get
  if s.table.realIdExists msg.realPid = true then
    match s.find (·.realPid = msg.realPid) with
    | none => halt .fault
    | some (p, a) => do
        plain (sysClose a.fd)
        modify fun s => s.setProc p fun a => { a with fd := fd }
        plain (coordSendHandshake { a with fd := fd })
  else do
    xndAssert .initialStartup (s.epoch = 0)
    let a ← launchIds fd msg
    plain (registerProc a)

/-- `coord_atfork`. -/
def coordAtfork (fd : Int) (parentMsg : XndMsg) : TextM Unit := do
  let virtPid ← plain coordNextVirtPid
  let xndPid ← plain coordNextXndPid
  let sent ← plain (coordSendMsg fd { hdr := .coordAck, ret := .success, virtPid := virtPid })
  if sent = true then do
    match (← get).find (·.virtPid = parentMsg.virtPpid) with
    | none => halt (.exitFailure .parentNotListed)
    | some (_, parent) =>
      match ← plain (coordRecvMsg fd) with
      | none => halt (.exitFailure .childNotReceived)
      | some childMsg => do
          xndAssert .childConnected (childMsg.hdr = .atforkChild)
          xndAssert .childOfParent (childMsg.realPpid = parent.realPid)
          plain (registerProc
            { fd, oobFd := -1, xndPid, xndPpid := parentMsg.xndPpid, xndPgid := parentMsg.xndPgid,
              virtPid, realPid := childMsg.realPid, virtPpid := parentMsg.virtPpid,
              realPpid := childMsg.realPpid, isRootOfTree := false, state := .running })
  else halt (.exitFailure .virtPidNotSent)

/-- The requester of an out-of-band connection is followed after it is asserted that there
is one. -/
def connectOob (fd : Int) (msg : XndMsg) : TextM Unit := do
  let s ← get
  xndAssert .requesterListed ((s.find (·.xndPid = msg.xndPid)).isSome)
  match s.find (·.xndPid = msg.xndPid) with
  | none => halt .fault
  | some (p, _) => modify fun s => s.setProc p fun a => { a with oobFd := fd }

def runCommand (fuel : Nat) : XndCmd → TextM Unit
  | .ckptCmd => coordDoCheckpoint fuel
  | .killCmd => plain coordBroadcastKill
  | _ => halt (.exitFailure .invalidCommand)

/-- `coord_handle_command`. -/
def coordHandleCommand (fuel : Nat) (fd : Int) (msg : XndMsg) : TextM Unit := do
  runCommand fuel msg.cmd
  assertSent .commandAcked fd { hdr := .coordAck, ret := .success }

def coordHandleConnection (fuel : Nat) (fd : Int) (msg : XndMsg) : TextM Unit :=
  match msg.hdr with
  | .connectLaunch => coordConnectWithProcessOnLaunch fd msg
  | .connectRestart => do
      modify fun s =>
        if s.procs.length = 0 then
          { s with epoch := msg.epoch, numPeers := msg.numPeers, ckptInterval := msg.ckptInterval,
                   xndUuid := msg.xndUuid }
        else s
      plain (coordConnectWithProcessOnRestart fd msg)
  | .atforkPrepare => coordAtfork fd msg
  | .command => do
      coordHandleCommand fuel fd msg
      plain (sysClose fd)
  | .realToVirt => do
      connectOob fd msg
      coordSendRealToVirt fd msg
  | .virtToReal => do
      connectOob fd msg
      coordSendVirtToReal fd msg
  | _ => halt (.exitFailure .unexpectedConnection)

section Main
variable (unset : CoordInfo → Int → XndMsg)

/-- `xnd_assert(coord_recv_msg(fd, &msg) == 0)`, and what is in `msg` then. -/
def assertReceived (fd : Int) : TextM (Option XndMsg) :=
  .assertCall (CoordCall.recv fd) rfl (Option.isSome (α := XndMsg)) (fun s => some (unset s fd))
    (.assertion .connectionReceived) trivial

/-- `coord_wait_for_connection`. -/
def coordWaitForConnection (fuel : Nat) : TextM Unit := do
  match ← plain (sysSelect [(← get).listenFd]) with
  | none => pure ()
  | some [] => pure ()
  | some _ =>
    match ← plain sysAccept with
    | none => pure ()
    | some fd =>
      match ← assertReceived unset fd with
      | none => halt (.assertion .connectionReceived)
      | some msg => coordHandleConnection fuel fd msg

/-! ## The main program -/

def awaitProcess (bailed : CoordError) (ppid : Int) : Nat → TextM Unit
  | 0 => halt .running
  | fuel + 1 => do
      coordWaitForConnection unset fuel
      if (← get).procs.length ≠ 0 then pure ()
      else do
        let gone ← plain (sysProbe ppid)
        if gone = true then halt (.exitFailure bailed) else awaitProcess bailed ppid fuel

def awaitPeers (ppid : Int) : Nat → TextM Unit
  | 0 => halt .running
  | fuel + 1 => do
      let s ← get
      if s.procs.length < s.numPeers then do
        coordWaitForConnection unset fuel
        let s ← get
        if s.procs.length = s.numPeers then pure ()
        else do
          let gone ← plain (sysProbe ppid)
          if gone = true then halt (.exitFailure .restartBailed) else awaitPeers ppid fuel
      else pure ()

/-- `coord_do_restart`. -/
def coordDoRestart (fuel : Nat) : TextM Unit := do
  let ppid ← plain parentPid
  awaitProcess unset .restartBailed ppid fuel
  awaitPeers unset ppid fuel
  let total ← plain (coordCollectivePrepare .broadcast fuel)
  let s ← get
  if total ≠ s.numPeers then halt (.exitFailure .notAllPeers)
  else do
    let released ← coordReleaseBarrier .postrestart
    if released = true then pure () else halt (.exitFailure .postRestartBarrier)

def checkpointOnInterval (fuel : Nat) : TextM Unit := do
  let s ← get
  if s.ckptInterval ≠ 0 then do
    let elapsed ← plain sysElapsed
    if elapsed ≥ s.ckptInterval then coordDoCheckpoint fuel else pure ()
  else pure ()

/-- The main loop of `coord_work`. -/
def workLoop : Nat → Nat → TextM Unit
  | 0, _ => halt .running
  | fuel + 1, iter => do
      coordWaitForConnection unset fuel
      coordWaitForMsg
      checkpointOnInterval fuel
      if (← get).procs.length = 0 then pure ()
      else if iter % heartbeatInterval = 0 then do
        plain listFilter
        if (← get).procs.length = 0 then pure () else workLoop fuel (iter + 1)
      else workLoop fuel (iter + 1)

/-- `coord_work`. -/
def coordWork (fuel : Nat) : TextM Unit := do
  let ppid ← plain parentPid
  awaitProcess unset .parentBailed ppid fuel
  workLoop unset fuel 0

/-- `main`, after `coord_init`. -/
def coordMain (restart : Bool) (fuel : Nat) : TextM Unit := do
  if restart = true then coordDoRestart unset fuel else pure ()
  coordWork unset fuel

end Main

/-! ## The development build -/

section Development
open SourceCode

@[simp] theorem development_xndAssert (failed : CoordAssertion) (b : Prop) [Decidable b] :
    (xndAssert failed b).development = Coord.xndAssert failed b := by
  have hassert : (xndAssert failed b).development =
      if decide b = true then pure () else Code.halt (.assertion failed) :=
    development_assertPure ..
  simpa only [Coord.xndAssert, decide_eq_true_eq] using hassert

@[simp] theorem development_assertSent (failed : CoordAssertion) (fd : Int) (msg : XndMsg) :
    (assertSent failed fd msg).development =
      coordSendMsg fd msg >>= fun sent => Coord.xndAssert failed (sent = true) :=
  development_assertExpr ..

@[simp] theorem development_assertReleased (failed : CoordAssertion) (type : BarrierType) :
    (assertReleased failed type).development =
      Coord.coordReleaseBarrier type >>= fun released =>
        Coord.xndAssert failed (released = true) :=
  development_assertExpr ..

theorem development_seqForeachSafe {β : Type} (b : β) (body : Nat → β → TextM β) :
    (seqForeachSafe b body).development =
      Coord.seqForeachSafe b fun p b => (body p b).development := by
  have loop : ∀ fuel p b, (seqSafeLoop body fuel p b).development =
      Coord.seqSafeLoop (fun p b => (body p b).development) fuel p b := by
    intro fuel
    induction fuel with
    | zero => exact fun p b => development_plain _
    | succ fuel ih =>
        intro p b
        cases p with
        | none => rfl
        | some p =>
            rw [seqSafeLoop, Coord.seqSafeLoop, development_bind, development_plain]
            refine bind_congr fun s => ?_
            cases s.next p with
            | none => exact development_plain _
            | some next => simp only [development_bind, ih]
  simp only [seqForeachSafe, Coord.seqForeachSafe, development_bind, development_plain, loop]

theorem development_seqForeach {β : Type} (body : Nat → Proc → β → TextM β) (l : List Nat)
    (b : β) :
    (seqForeach body l b).development =
      Coord.seqForeach (fun p a b => (body p a b).development) l b := by
  induction l generalizing b with
  | nil => rfl
  | cons p rest ih =>
      simp only [seqForeach, Coord.seqForeach, development_bind, development_plain, ih]

/-! ### Rounds -/

theorem development_coordReleaseBarrier (type : BarrierType) :
    (coordReleaseBarrier type).development = Coord.coordReleaseBarrier type := by
  have loop : ∀ l, (releaseLoop type l).development = Coord.releaseLoop type l := by
    intro l
    induction l with
    | nil => rfl
    | cons p rest ih =>
        simp only [releaseLoop, Coord.releaseLoop, development_bind, development_plain,
          development_xndAssert, development_ite, development_pure, ih]
  simp only [coordReleaseBarrier, Coord.coordReleaseBarrier, development_bind, development_plain,
    loop]

theorem development_completionTurn (p : Nat) (a : Proc) (total : Nat) :
    (completionTurn p a total).development = Coord.completionTurn p a total := by
  simp only [completionTurn, Coord.completionTurn, development_bind, development_plain,
    development_xndAssert]
  refine bind_congr fun _ => bind_congr fun msg => ?_
  cases msg with
  | none => rfl
  | some msg => simp only [development_ite, development_bind, development_plain, development_pure]

theorem development_coordWaitForCkptCompletions (fuel : Nat) :
    (coordWaitForCkptCompletions fuel).development = Coord.coordWaitForCkptCompletions fuel := by
  have turns : (fun p a b => (completionTurn p a b).development) = Coord.completionTurn :=
    funext fun p => funext fun a => funext fun b => development_completionTurn p a b
  simp only [coordWaitForCkptCompletions, Coord.coordWaitForCkptCompletions, development_bind,
    development_plain, development_ite, development_pure, development_seqForeach, turns]

theorem development_coordRunRound (epoch fuel : Nat) :
    (coordRunRound epoch fuel).development = Coord.coordRunRound epoch fuel := by
  simp only [coordRunRound, Coord.coordRunRound, development_bind, development_plain,
    development_xndAssert, development_assertReleased, development_coordWaitForCkptCompletions,
    bind_assoc]

theorem development_coordDoCheckpoint (fuel : Nat) :
    (coordDoCheckpoint fuel).development = Coord.coordDoCheckpoint fuel := by
  have suspended : ∀ epoch, (coordCheckpointSuspended epoch fuel).development =
      Coord.coordCheckpointSuspended epoch fuel := fun epoch => by
    simp only [coordCheckpointSuspended, Coord.coordCheckpointSuspended, development_bind,
      development_plain, development_ite, development_pure, development_coordRunRound]
  simp only [coordDoCheckpoint, Coord.coordDoCheckpoint, development_bind, development_plain,
    development_ite, suspended]

/-! ### Messages -/

theorem development_coordSendVirtToReal (fd : Int) (msg : XndMsg) :
    (coordSendVirtToReal fd msg).development = Coord.coordSendVirtToReal fd msg := by
  simp only [coordSendVirtToReal, Coord.coordSendVirtToReal, development_bind, development_plain,
    development_assertSent]

theorem development_coordSendRealToVirt (fd : Int) (msg : XndMsg) :
    (coordSendRealToVirt fd msg).development = Coord.coordSendRealToVirt fd msg := by
  simp only [coordSendRealToVirt, Coord.coordSendRealToVirt, development_bind, development_plain,
    development_assertSent]

theorem development_coordHandleMsg (fd : Int) (msg : XndMsg) :
    (coordHandleMsg fd msg).development = Coord.coordHandleMsg fd msg := by
  rw [coordHandleMsg, Coord.coordHandleMsg]
  cases msg.hdr with
  | exit =>
      simp only [development_bind, development_plain]
      refine bind_congr fun s => ?_
      cases s.find (·.realPid = msg.realPid) with
      | none => rfl
      | some n => exact development_plain _
  | virtToReal => exact development_coordSendVirtToReal fd msg
  | realToVirt => exact development_coordSendRealToVirt fd msg
  | _ => exact development_plain _

theorem development_serveOobFd (ready : List Int) (p : Nat) :
    (serveOobFd ready p).development = Coord.serveOobFd ready p := by
  simp only [serveOobFd, Coord.serveOobFd, development_bind, development_plain, development_ite,
    development_pure]
  refine bind_congr fun fd => ite_congr rfl (fun _ => bind_congr fun msg => ?_) fun _ => rfl
  cases msg with
  | none => exact development_plain _
  | some msg => exact development_coordHandleMsg fd msg

theorem development_serveProc (ready : List Int) (p : Nat) :
    (serveProc ready p).development = Coord.serveProc ready p := by
  simp only [serveProc, Coord.serveProc, development_bind, development_plain, development_ite,
    development_serveOobFd]
  refine bind_congr fun a => ite_congr rfl (fun _ => bind_congr fun msg => ?_) fun _ => rfl
  cases msg with
  | none => exact development_plain _
  | some msg => simp only [development_bind, development_coordHandleMsg, development_serveOobFd]

theorem development_coordWaitForMsg : coordWaitForMsg.development = Coord.coordWaitForMsg := by
  have turns : ∀ ready, (fun p (_ : Unit) => (serveProc ready p).development) =
      fun p _ => Coord.serveProc ready p :=
    fun ready => funext fun p => funext fun _ => development_serveProc ready p
  simp only [coordWaitForMsg, Coord.coordWaitForMsg, development_bind, development_plain]
  refine bind_congr fun s => bind_congr fun ready => ?_
  cases ready with
  | none => rfl
  | some ready =>
      cases ready with
      | nil => rfl
      | cons fd rest => simp only [development_seqForeachSafe, turns]

/-! ### Registration -/

theorem development_launchIds (fd : Int) (msg : XndMsg) :
    (launchIds fd msg).development = Coord.launchIds fd msg := by
  simp only [launchIds, Coord.launchIds, development_bind, development_plain, development_ite,
    development_xndAssert, development_pure]
  refine bind_congr fun s => ite_congr rfl (fun _ => ?_) fun _ => rfl
  cases s.find (·.realPid = msg.realPpid) with
  | none => rfl
  | some n => simp [Coord.xndAssert]

theorem development_coordConnectWithProcessOnLaunch (fd : Int) (msg : XndMsg) :
    (coordConnectWithProcessOnLaunch fd msg).development =
      Coord.coordConnectWithProcessOnLaunch fd msg := by
  simp only [coordConnectWithProcessOnLaunch, Coord.coordConnectWithProcessOnLaunch,
    development_bind, development_plain, development_ite, development_xndAssert,
    development_launchIds]
  refine bind_congr fun s => ite_congr rfl (fun _ => ?_) fun _ => rfl
  cases s.find (·.realPid = msg.realPid) with
  | none => exact development_plain _
  | some n => simp only [development_bind, development_plain]

theorem development_coordAtfork (fd : Int) (parentMsg : XndMsg) :
    (coordAtfork fd parentMsg).development = Coord.coordAtfork fd parentMsg := by
  simp only [coordAtfork, Coord.coordAtfork, development_bind, development_plain, development_ite]
  refine bind_congr fun virtPid => bind_congr fun xndPid => bind_congr fun sent => ?_
  refine ite_congr rfl (fun _ => bind_congr fun s => ?_) fun _ => rfl
  cases s.find (·.virtPid = parentMsg.virtPpid) with
  | none => exact development_plain _
  | some n =>
      simp only [development_bind, development_plain]
      refine bind_congr fun childMsg => ?_
      cases childMsg with
      | none => exact development_plain _
      | some childMsg => simp only [development_bind, development_plain, development_xndAssert]

theorem development_connectOob (fd : Int) (msg : XndMsg) :
    (connectOob fd msg).development = Coord.connectOob fd msg := by
  simp only [connectOob, Coord.connectOob, development_bind, development_plain,
    development_xndAssert]
  refine bind_congr fun s => ?_
  cases s.find (·.xndPid = msg.xndPid) with
  | none => rfl
  | some n => simp [Coord.xndAssert]

theorem development_coordHandleCommand (fuel : Nat) (fd : Int) (msg : XndMsg) :
    (coordHandleCommand fuel fd msg).development = Coord.coordHandleCommand fuel fd msg := by
  have run : ∀ cmd, (runCommand fuel cmd).development = Coord.runCommand fuel cmd := fun cmd => by
    cases cmd with
    | ckptCmd => exact development_coordDoCheckpoint fuel
    | _ => exact development_plain _
  simp only [coordHandleCommand, Coord.coordHandleCommand, development_bind, run,
    development_assertSent]

theorem development_coordHandleConnection (fuel : Nat) (fd : Int) (msg : XndMsg) :
    (coordHandleConnection fuel fd msg).development = Coord.coordHandleConnection fuel fd msg := by
  rw [coordHandleConnection, Coord.coordHandleConnection]
  cases msg.hdr with
  | connectLaunch => exact development_coordConnectWithProcessOnLaunch fd msg
  | connectRestart => simp only [development_bind, development_plain]
  | atforkPrepare => exact development_coordAtfork fd msg
  | command => simp only [development_bind, development_plain, development_coordHandleCommand]
  | realToVirt =>
      simp only [development_bind, development_connectOob, development_coordSendRealToVirt]
  | virtToReal =>
      simp only [development_bind, development_connectOob, development_coordSendVirtToReal]
  | _ => exact development_plain _

/-! ### The main program -/

variable (unset : CoordInfo → Int → XndMsg)

theorem development_assertReceived (fd : Int) :
    (assertReceived unset fd).development = coordRecvMsg fd >>= fun msg =>
      if msg.isSome = true then pure msg else Code.halt (.assertion .connectionReceived) :=
  development_assertCall ..

theorem development_coordWaitForConnection (fuel : Nat) :
    (coordWaitForConnection unset fuel).development = Coord.coordWaitForConnection fuel := by
  simp only [coordWaitForConnection, Coord.coordWaitForConnection, development_bind,
    development_plain]
  refine bind_congr fun s => bind_congr fun ready => ?_
  cases ready with
  | none => rfl
  | some ready =>
      cases ready with
      | nil => rfl
      | cons fd rest =>
          simp only [development_bind, development_plain]
          refine bind_congr fun fd => ?_
          cases fd with
          | none => rfl
          | some fd =>
              rw [development_bind, development_assertReceived, bind_assoc]
              refine bind_congr fun msg => ?_
              cases msg with
              | none => rfl
              | some msg => exact development_coordHandleConnection fuel fd msg

theorem development_awaitProcess (bailed : CoordError) (ppid : Int) (fuel : Nat) :
    (awaitProcess unset bailed ppid fuel).development = Coord.awaitProcess bailed ppid fuel := by
  induction fuel with
  | zero => exact development_plain _
  | succ fuel ih =>
      simp only [awaitProcess, Coord.awaitProcess, development_bind, development_plain,
        development_ite, development_pure, development_coordWaitForConnection, ih]

theorem development_awaitPeers (ppid : Int) (fuel : Nat) :
    (awaitPeers unset ppid fuel).development = Coord.awaitPeers ppid fuel := by
  induction fuel with
  | zero => exact development_plain _
  | succ fuel ih =>
      simp only [awaitPeers, Coord.awaitPeers, development_bind, development_plain,
        development_ite, development_pure, development_coordWaitForConnection, ih]

theorem development_workLoop (fuel iter : Nat) :
    (workLoop unset fuel iter).development = Coord.workLoop fuel iter := by
  have interval : ∀ fuel, (checkpointOnInterval fuel).development =
      Coord.checkpointOnInterval fuel := fun fuel => by
    simp only [checkpointOnInterval, Coord.checkpointOnInterval, development_bind,
      development_plain, development_ite, development_pure, development_coordDoCheckpoint]
  induction fuel generalizing iter with
  | zero => exact development_plain _
  | succ fuel ih =>
      simp only [workLoop, Coord.workLoop, development_bind, development_plain, development_ite,
        development_pure, development_coordWaitForConnection, development_coordWaitForMsg,
        interval, ih]

/-- The development build is the coordinator. -/
theorem development_coordMain (restart : Bool) (fuel : Nat) :
    (coordMain unset restart fuel).development = Coord.coordMain restart fuel := by
  simp only [coordMain, Coord.coordMain, coordDoRestart, Coord.coordDoRestart, coordWork,
    Coord.coordWork, development_bind, development_plain, development_ite, development_pure,
    development_awaitProcess, development_awaitPeers, development_coordReleaseBarrier,
    development_workLoop]

end Development

end Text

end Xnd.Coord
