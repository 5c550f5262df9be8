import Xnd.Coord.Routine

/-!
# What keeps an invariant of the coordinator

Most of the coordinator does little: it asks, answers, removes processes that are
gone and moves states.  `Calm` says of an invariant that it survives the asking and
the answering, `Turns` that it survives the turns of the loops over the list, and
the lemmas carry it through the functions that do nothing else, up to `coordMain`.
An invariant that survives every removal and every change of a state (`Upkeep`)
survives the turns.  Registration is left to each invariant, and so are rounds,
unless the invariant survives any call.
-/
namespace Xnd.Coord
open Code

/-- The calls that an invariant is expected to survive wherever they are made. -/
def CoordCall.neutral : CoordCall → Bool
  | .select _ | .selectWrite _ | .recv _ | .close _ | .probe _ | .kill _ _ | .usleep | .stale | .elapsed | .iteration => true
  | .send _ msg => msg.hdr = .coordAck ∨ msg.hdr = .ckptRequest ∨ msg.hdr = .resumeAfterRestart
  | _ => false

/-- The ways to stop that need no argument: everything but the exit of
`coord_next_virt_pid`. -/
def CoordStop.plain (e : CoordStop) : Prop := e ≠ .exitFailure .virtPidExists

/-- The invariant survives stops and the calls that are made anywhere. -/
structure Calm {W : Type} (𝒲 : World CoordCall.Answer CoordInfo W)
    (inv : CoordInfo → W → Prop) (ends : CoordInfo → CoordStop → W → Prop)
    (I : CoordInfo → W → Prop) : Prop where
  stop : ∀ s w e, I s w → e.plain → ends s e w
  call : ∀ c : CoordCall, c.neutral = true → Keeps (𝒲 := 𝒲) inv ends I (Code.call c)

namespace Calm
variable {W : Type} {𝒲 : World CoordCall.Answer CoordInfo W} {inv : CoordInfo → W → Prop}
  {ends : CoordInfo → CoordStop → W → Prop} {I : CoordInfo → W → Prop} (U : Calm 𝒲 inv ends I)

include U

/-- What survives any calls and stops survives the routine ones. -/
theorem routine : Routine 𝒲 inv ends I where
  stop s w e h he := U.stop s w e h (by rintro rfl; cases he)
  call c hc := U.call c (by cases c <;> first | rfl | cases hc)

theorem halt {α : Type} {e : CoordStop} (he : e.plain) :
    Keeps (𝒲 := 𝒲) inv ends I (Code.halt e : InfoM α) :=
  Keeps.halt fun s w h => U.stop s w e h he

theorem xndAssert (failed : CoordAssertion) (b : Prop) [Decidable b] :
    Keeps (𝒲 := 𝒲) inv ends I (xndAssert failed b) :=
  Keeps.ite (fun _ => Keeps.pure ()) fun _ => U.halt nofun

theorem listProc (p : Nat) : Keeps (𝒲 := 𝒲) inv ends I (listProc p) := U.routine.listProc p

theorem seqForeachSafe {β : Type} {b : β} {body : Nat → β → InfoM β}
    (h : ∀ p b, Keeps (𝒲 := 𝒲) inv ends I (body p b)) :
    Keeps (𝒲 := 𝒲) inv ends I (seqForeachSafe b body) := U.routine.seqForeachSafe h

omit U in
theorem seqForeach {β : Type} {body : Nat → Proc → β → InfoM β}
    (h : ∀ p b, Keeps (𝒲 := 𝒲) inv ends I (Coord.listProc p >>= fun a => body p a b))
    (l : List Nat) (b : β) : Keeps (𝒲 := 𝒲) inv ends I (seqForeach body l b) :=
  Routine.seqForeach h l b

theorem probe (pid : Int) : Keeps (𝒲 := 𝒲) inv ends I (sysProbe pid) := U.call (.probe pid) rfl

theorem recv (fd : Int) : Keeps (𝒲 := 𝒲) inv ends I (coordRecvMsg fd) := U.call (.recv fd) rfl

theorem ack {fd : Int} {msg : XndMsg} (h : msg.hdr = .coordAck) :
    Keeps (𝒲 := 𝒲) inv ends I (coordSendMsg fd msg) :=
  U.call (.send fd msg) (by simp [CoordCall.neutral, h])

theorem coordSendVirtToReal (fd : Int) (msg : XndMsg) :
    Keeps (𝒲 := 𝒲) inv ends I (coordSendVirtToReal fd msg) :=
  U.routine.coordSendVirtToReal (fun _ => U.ack) msg

theorem coordSendRealToVirt (fd : Int) (msg : XndMsg) :
    Keeps (𝒲 := 𝒲) inv ends I (coordSendRealToVirt fd msg) :=
  U.routine.coordSendRealToVirt (fun _ => U.ack) msg

theorem coordSendHandshake (a : Proc) : Keeps (𝒲 := 𝒲) inv ends I (coordSendHandshake a) :=
  U.routine.coordSendHandshake (fun _ => U.ack) rfl

theorem parentPid (hppid : Keeps (𝒲 := 𝒲) inv ends I (Code.call CoordCall.getppid)) :
    Keeps (𝒲 := 𝒲) inv ends I parentPid := U.routine.parentPid hppid

/-! ### New ids

An invariant that does not read the table or the counters survives what gives a new
process its ids. -/

section Ids
variable (hids : ∀ s s' w, I s w → s'.procs = s.procs → s'.brk = s.brk → s'.epoch = s.epoch →
    I s' w) (hends : ∀ s w e, I s w → ends s e w)

include hids

omit U in
theorem coordNextXndPid : Keeps (𝒲 := 𝒲) inv ends I coordNextXndPid := Routine.coordNextXndPid hids

include hends

omit U in
theorem coordNextVirtPid : Keeps (𝒲 := 𝒲) inv ends I coordNextVirtPid :=
  Routine.coordNextVirtPid hids fun s w => hends s w _

omit U in
theorem launchIds (fd : Int) (msg : XndMsg) : Keeps (𝒲 := 𝒲) inv ends I (launchIds fd msg) :=
  Routine.launchIds hids (fun s w => hends s w _) (fun s w => hends s w _) fd msg

end Ids

/-! ### Connections -/

/-- `coord_wait_for_connection`, from what is known of the descriptor that was accepted
and what each message does when it has arrived on it. -/
theorem coordWaitForConnection {B : Int → CoordInfo → W → Prop}
    {A : Int → XndMsg → CoordInfo → W → Prop}
    (haccept : ∀ s w, I s w → Wp 𝒲 inv ends sysAccept s w fun s' r w' =>
      I s' w' ∧ ∀ fd, r = some fd → B fd s' w')
    (hrecv : ∀ fd s w, I s w → B fd s w → Wp 𝒲 inv ends (coordRecvMsg fd) s w fun s' r w' =>
      I s' w' ∧ ∀ msg, r = some msg → A fd msg s' w') {fuel : Nat}
    (h : ∀ fd msg s w, I s w → A fd msg s w →
      Wp 𝒲 inv ends (coordHandleConnection fuel fd msg) s w fun s' _ w' => I s' w') :
    Keeps (𝒲 := 𝒲) inv ends I (coordWaitForConnection fuel) := by
  refine Keeps.bind Keeps.get fun s => Keeps.bind (U.call (.select _) rfl) fun ready => ?_
  match ready with
  | none => exact Keeps.pure ()
  | some [] => exact Keeps.pure ()
  | some (_ :: _) =>
      intro s w hI
      refine (haccept s w hI).bind ?_
      rintro s r w ⟨hI, haccepted⟩
      cases r with
      | none => exact Wp.pure hI
      | some fd =>
          refine (hrecv fd s w hI (haccepted fd rfl)).bind ?_
          rintro s r w ⟨hI, harrived⟩
          cases r with
          | none => exact Wp.halt (U.stop s w _ hI nofun)
          | some msg => exact h fd msg s w hI (harrived msg rfl)

/-! ### Turns

What a turn does besides asking is to remove a process and to change its state. -/

section Turn
variable (hremove : ∀ p, Keeps (𝒲 := 𝒲) inv ends I (listRemove p))
  (hasked : ∀ p st, st = .recvCkptRequest ∨ st = .readyForCkpt → Keeps (𝒲 := 𝒲) inv ends I
    (Code.modify fun s => s.setProc p fun a => { a with state := st }))
  (hstate : ∀ p st, Keeps (𝒲 := 𝒲) inv ends I
    (Code.modify fun s => s.setProc p fun a => { a with state := st }))

include hremove

theorem coordHandleMsg (fd : Int) (msg : XndMsg) :
    Keeps (𝒲 := 𝒲) inv ends I (coordHandleMsg fd msg) := by
  unfold Coord.coordHandleMsg
  split
  · refine Keeps.bind Keeps.get fun s => ?_
    cases s.find _ with
    | none => exact Keeps.pure ()
    | some n => exact hremove n.1
  · exact U.coordSendVirtToReal fd msg
  · exact U.coordSendRealToVirt fd msg
  · exact U.halt nofun

theorem serveOobFd (ready : List Int) (p : Nat) :
    Keeps (𝒲 := 𝒲) inv ends I (serveOobFd ready p) := by
  have hfd : Keeps (𝒲 := 𝒲) inv ends I (oobFdOf p) := by
    refine Keeps.bind Keeps.get fun s => ?_
    cases s.proc p with
    | none => exact U.call .stale rfl
    | some a => exact Keeps.pure _
  refine Keeps.bind hfd fun fd => Keeps.ite (fun _ => ?_) fun _ => Keeps.pure ()
  refine Keeps.bind (U.recv fd) fun msg => ?_
  cases msg with
  | none => exact hremove p
  | some msg => exact U.coordHandleMsg hremove fd msg

theorem serveProc (ready : List Int) (p : Nat) : Keeps (𝒲 := 𝒲) inv ends I (serveProc ready p) := by
  have oob : Keeps (𝒲 := 𝒲) inv ends I (Coord.serveOobFd ready p) := U.serveOobFd hremove ready p
  refine Keeps.bind (U.listProc p) fun a => Keeps.ite (fun _ => ?_) fun _ => oob
  refine Keeps.bind (U.recv a.fd) fun msg => ?_
  cases msg with
  | none => exact hremove p
  | some msg => exact Keeps.bind (U.coordHandleMsg hremove a.fd msg) fun _ => oob

include hasked

omit hremove in
/-- Suspension moves a process to two states. -/
theorem requestReady (p : Nat) (a : Proc) : Keeps (𝒲 := 𝒲) inv ends I (requestReady p a) := by
  unfold Coord.requestReady
  cases a.state with
  | running =>
      refine Keeps.bind (U.call (.send a.fd { hdr := .ckptRequest }) rfl) fun sent => ?_
      refine Keeps.ite (fun _ => Keeps.bind (hasked p _ (.inl rfl)) fun _ => Keeps.pure 0) fun _ => ?_
      exact Keeps.pure 0
  | recvCkptRequest =>
      refine Keeps.bind (U.recv a.fd) fun resp => ?_
      cases resp with
      | none => exact Keeps.pure 0
      | some resp =>
          refine Keeps.ite (fun _ => ?_) fun _ => Keeps.pure 0
          exact Keeps.bind (hasked p _ (.inr rfl)) fun _ => Keeps.pure 1
  | readyForCkpt => exact Keeps.pure 1
  | _ => exact Keeps.pure 0

theorem suspendTurn (p : Nat) (n : Nat × Nat) : Keeps (𝒲 := 𝒲) inv ends I (suspendTurn p n) := by
  refine Keeps.bind (U.listProc p) fun a => Keeps.bind (U.requestReady hasked p a) fun ready => ?_
  refine Keeps.bind (U.probe _) fun gone => ?_
  exact Keeps.ite (fun _ => Keeps.bind (hremove p) fun _ => Keeps.pure _) fun _ => Keeps.pure _

omit hasked

include hstate

omit hremove in
theorem completionTurn (p : Nat) (a : Proc) (total : Nat) :
    Keeps (𝒲 := 𝒲) inv ends I (completionTurn p a total) := by
  refine Keeps.bind (U.xndAssert _ _) fun _ => Keeps.bind (U.recv _) fun msg => ?_
  cases msg with
  | none => exact Keeps.pure total
  | some msg =>
      refine Keeps.ite (fun _ => ?_) fun _ => Keeps.pure total
      exact Keeps.bind (hstate p _) fun _ => Keeps.pure _

omit hremove in
/-- A barrier, when its message may be sent. -/
theorem coordReleaseBarrier {type : BarrierType}
    (h : ∀ fd n a, Keeps (𝒲 := 𝒲) inv ends I (coordSendMsg fd (releaseMsg type n a))) :
    Keeps (𝒲 := 𝒲) inv ends I (coordReleaseBarrier type) := by
  refine Keeps.bind Keeps.get fun s => ?_
  induction s.procs.map Prod.fst with
  | nil => exact Keeps.pure true
  | cons p rest ih =>
      refine Keeps.bind (U.listProc p) fun a => Keeps.bind (U.xndAssert _ _) fun _ => ?_
      refine Keeps.bind Keeps.get fun s => Keeps.bind (h _ _ _) fun sent => ?_
      exact Keeps.ite (fun _ => Keeps.bind (hstate p _) fun _ => ih) fun _ => Keeps.pure false

end Turn

end Calm

/-- The invariant survives the turns of the loops over the list that remove processes. -/
structure Sweeps {W : Type} (𝒲 : World CoordCall.Answer CoordInfo W)
    (inv : CoordInfo → W → Prop) (ends : CoordInfo → CoordStop → W → Prop)
    (I : CoordInfo → W → Prop) : Prop extends Calm 𝒲 inv ends I where
  prepare : ∀ p n, Keeps (𝒲 := 𝒲) inv ends I (prepareTurn p n)
  filter : ∀ p, Keeps (𝒲 := 𝒲) inv ends I (do
    let a ← listProc p
    let gone ← sysProbe a.realPid
    if gone then listRemove p else pure ())
  serve : ∀ ready p, Keeps (𝒲 := 𝒲) inv ends I (serveProc ready p)

/-- The invariant survives the turns of all loops over the list, whose processes may be
removed and change their states. -/
structure Turns {W : Type} (𝒲 : World CoordCall.Answer CoordInfo W)
    (inv : CoordInfo → W → Prop) (ends : CoordInfo → CoordStop → W → Prop)
    (I : CoordInfo → W → Prop) : Prop extends Sweeps 𝒲 inv ends I where
  suspend : ∀ p n, Keeps (𝒲 := 𝒲) inv ends I (suspendTurn p n)
  complete : ∀ p total, Keeps (𝒲 := 𝒲) inv ends I
    (listProc p >>= fun a => completionTurn p a total)
  resume : Keeps (𝒲 := 𝒲) inv ends I (coordReleaseBarrier .postrestart)

/-- The invariant survives whatever a turn does to a process. -/
structure Upkeep {W : Type} (𝒲 : World CoordCall.Answer CoordInfo W)
    (inv : CoordInfo → W → Prop) (ends : CoordInfo → CoordStop → W → Prop)
    (I : CoordInfo → W → Prop) : Prop extends Calm 𝒲 inv ends I where
  remove : ∀ p, Keeps (𝒲 := 𝒲) inv ends I (listRemove p)
  state : ∀ p st, Keeps (𝒲 := 𝒲) inv ends I
    (Code.modify fun s => s.setProc p fun a => { a with state := st })

theorem Calm.toSweeps {W : Type} {𝒲 : World CoordCall.Answer CoordInfo W}
    {inv : CoordInfo → W → Prop} {ends : CoordInfo → CoordStop → W → Prop}
    {I : CoordInfo → W → Prop} (U : Calm 𝒲 inv ends I)
    (hremove : ∀ p, Keeps (𝒲 := 𝒲) inv ends I (listRemove p)) : Sweeps 𝒲 inv ends I where
  toCalm := U
  prepare := U.routine.prepareTurn hremove
  filter := U.routine.filterTurn hremove
  serve := U.serveProc hremove

theorem Upkeep.toTurns {W : Type} {𝒲 : World CoordCall.Answer CoordInfo W}
    {inv : CoordInfo → W → Prop} {ends : CoordInfo → CoordStop → W → Prop}
    {I : CoordInfo → W → Prop} (U : Upkeep 𝒲 inv ends I) : Turns 𝒲 inv ends I where
  toSweeps := U.toCalm.toSweeps U.remove
  suspend := U.toCalm.suspendTurn U.remove fun p st _ => U.state p st
  complete p total := Keeps.bind (U.listProc p) fun a => U.toCalm.completionTurn U.state p a total
  resume := U.toCalm.coordReleaseBarrier U.state fun fd _ _ => U.call (.send fd _) rfl

namespace Sweeps
variable {W : Type} {𝒲 : World CoordCall.Answer CoordInfo W} {inv : CoordInfo → W → Prop}
  {ends : CoordInfo → CoordStop → W → Prop} {I : CoordInfo → W → Prop} (U : Sweeps 𝒲 inv ends I)

include U

theorem listFilter : Keeps (𝒲 := 𝒲) inv ends I listFilter := U.routine.listFilter U.filter

theorem coordCollectivePrepare (type : CommType) (fuel : Nat) :
    Keeps (𝒲 := 𝒲) inv ends I (coordCollectivePrepare type fuel) :=
  U.routine.coordCollectivePrepare U.prepare type fuel

/-! ### Messages -/

theorem coordWaitForMsg : Keeps (𝒲 := 𝒲) inv ends I coordWaitForMsg :=
  U.routine.coordWaitForMsg U.serve

/-- A command, from the round that it may ask for. -/
theorem coordHandleCommand {fuel : Nat} {msg : XndMsg} (hckpt : msg.cmd = .ckptCmd →
    Keeps (𝒲 := 𝒲) inv ends I (Coord.coordDoCheckpoint fuel)) (fd : Int) :
    Keeps (𝒲 := 𝒲) inv ends I (coordHandleCommand fuel fd msg) :=
  U.routine.coordHandleCommand hckpt fun _ => U.ack

/-! ### Connections

The three registrations are given for the messages that arrive, everything else
that a connection brings is given to the lemmas above. -/

theorem connectOob (hoob : ∀ p fd, Keeps (𝒲 := 𝒲) inv ends I
      (Code.modify fun s => s.setProc p fun a => { a with oobFd := fd })) (fd : Int) (msg : XndMsg) :
    Keeps (𝒲 := 𝒲) inv ends I (connectOob fd msg) := by
  refine Keeps.bind Keeps.get fun s => ?_
  cases s.find (·.xndPid = msg.xndPid) with
  | none => exact U.halt nofun
  | some n => exact hoob n.1 fd

/-- One connection, whose message is none of the three. -/
theorem coordHandleConnection {fuel : Nat} {fd : Int} {msg : XndMsg}
    (hckpt : msg.hdr = .command → msg.cmd = .ckptCmd →
      Keeps (𝒲 := 𝒲) inv ends I (Coord.coordDoCheckpoint fuel))
    (hoob : ∀ p fd, Keeps (𝒲 := 𝒲) inv ends I
      (Code.modify fun s => s.setProc p fun a => { a with oobFd := fd }))
    (h : msg.hdr ≠ .connectLaunch ∧ msg.hdr ≠ .connectRestart ∧ msg.hdr ≠ .atforkPrepare) :
    Keeps (𝒲 := 𝒲) inv ends I (coordHandleConnection fuel fd msg) := by
  obtain ⟨hlaunch, hrestart, hfork⟩ := h
  unfold Coord.coordHandleConnection
  split
  case h_1 hl => exact absurd hl hlaunch
  case h_2 hr => exact absurd hr hrestart
  case h_3 hf => exact absurd hf hfork
  case h_4 hc =>
    exact Keeps.bind (U.coordHandleCommand (hckpt hc) fd) fun _ => U.call (.close fd) rfl
  case h_5 => exact Keeps.bind (U.connectOob hoob fd msg) fun _ => U.coordSendRealToVirt fd msg
  case h_6 => exact Keeps.bind (U.connectOob hoob fd msg) fun _ => U.coordSendVirtToReal fd msg
  case h_7 => exact U.halt nofun

/-! ### The main program -/

section Main
variable (hconn : ∀ fuel, Keeps (𝒲 := 𝒲) inv ends I (coordWaitForConnection fuel))
  (hckpt : ∀ fuel, Keeps (𝒲 := 𝒲) inv ends I (Coord.coordDoCheckpoint fuel))

include hconn

theorem awaitProcess {bailed : CoordError} (hb : (CoordStop.exitFailure bailed).usual = true)
    (ppid : Int) (fuel : Nat) : Keeps (𝒲 := 𝒲) inv ends I (awaitProcess bailed ppid fuel) :=
  U.routine.awaitProcess hconn hb ppid fuel

theorem awaitPeers (ppid : Int) (fuel : Nat) : Keeps (𝒲 := 𝒲) inv ends I (awaitPeers ppid fuel) :=
  U.routine.awaitPeers hconn ppid fuel

include hckpt

theorem workLoop (fuel iter : Nat) : Keeps (𝒲 := 𝒲) inv ends I (workLoop fuel iter) :=
  U.routine.workLoop U.filter U.serve hconn hckpt fuel iter

theorem coordWork (hppid : Keeps (𝒲 := 𝒲) inv ends I (Code.call CoordCall.getppid)) (fuel : Nat) :
    Keeps (𝒲 := 𝒲) inv ends I (coordWork fuel) :=
  U.routine.coordWork U.filter U.serve hconn hckpt hppid fuel

end Main

end Sweeps

namespace Turns
variable {W : Type} {𝒲 : World CoordCall.Answer CoordInfo W} {inv : CoordInfo → W → Prop}
  {ends : CoordInfo → CoordStop → W → Prop} {I : CoordInfo → W → Prop} (U : Turns 𝒲 inv ends I)

include U

/-! ### Rounds -/

theorem coordSuspendProcesses (fuel : Nat) :
    Keeps (𝒲 := 𝒲) inv ends I (coordSuspendProcesses fuel) := by
  induction fuel with
  | zero => exact U.halt nofun
  | succ fuel ih =>
      refine Keeps.bind (U.seqForeachSafe U.suspend) fun n => ?_
      refine Keeps.ite (fun _ => Keeps.pure ()) fun _ => ?_
      exact Keeps.bind (U.call .usleep rfl) fun _ => ih

theorem coordWaitForCkptCompletions (fuel : Nat) :
    Keeps (𝒲 := 𝒲) inv ends I (coordWaitForCkptCompletions fuel) := by
  refine Keeps.bind Keeps.get fun s => ?_
  refine Keeps.bind (U.coordCollectivePrepare _ fuel) fun total => ?_
  refine Keeps.ite (fun _ => U.halt nofun) fun _ => Keeps.bind Keeps.get fun s => ?_
  refine Keeps.bind (Calm.seqForeach U.complete _ _) fun total => ?_
  exact Keeps.ite (fun _ => U.halt nofun) fun _ => Keeps.pure ()

section Files
variable (hfiles : ∀ c : CoordCall, c.file = true → Keeps (𝒲 := 𝒲) inv ends I (Code.call c))

include hfiles

theorem coordWriteCkptManifest : Keeps (𝒲 := 𝒲) inv ends I coordWriteCkptManifest :=
  U.routine.coordWriteCkptManifest hfiles

omit U in
theorem unlinkPrevious (epoch : Nat) : Keeps (𝒲 := 𝒲) inv ends I (unlinkPrevious epoch) :=
  Routine.unlinkPrevious hfiles epoch

/-- A round keeps the invariant, when what comes after the creation of the directory does. -/
theorem coordDoCheckpoint_of_round {fuel : Nat}
    (hmask : ∀ block, Keeps (𝒲 := 𝒲) inv ends I (Code.call (.sigprocmask block)))
    (hround : ∀ epoch, Keeps (𝒲 := 𝒲) inv ends I (coordRunRound epoch fuel)) :
    Keeps (𝒲 := 𝒲) inv ends I (coordDoCheckpoint fuel) := by
  have suspended : ∀ epoch, Keeps (𝒲 := 𝒲) inv ends I (coordCheckpointSuspended epoch fuel) := by
    intro epoch
    refine Keeps.bind Keeps.get fun s => Keeps.bind (hfiles _ rfl) fun created => ?_
    refine Keeps.ite (fun _ => hround epoch) fun _ => ?_
    exact Keeps.bind Keeps.get fun s => Keeps.bind (hfiles _ rfl) fun _ => Keeps.pure ()
  refine Keeps.bind Keeps.get fun s => Keeps.bind (hmask true) fun _ => ?_
  refine Keeps.bind (U.coordCollectivePrepare _ fuel) fun total => ?_
  refine Keeps.ite (fun _ => hmask false) fun _ => ?_
  refine Keeps.bind (U.coordSuspendProcesses fuel) fun _ => ?_
  exact Keeps.bind (suspended _) fun _ => hmask false

end Files

/-! ### Whole rounds

A round calls the environment, but accepts no connection, moves states and assigns to
fields of the coordinator; an invariant that survives all of that survives a round. -/

section Round
variable (hcalls : ∀ c : CoordCall, c ≠ .accept → Keeps (𝒲 := 𝒲) inv ends I (Code.call c))
  (hstate : ∀ p st, Keeps (𝒲 := 𝒲) inv ends I
    (Code.modify fun s => s.setProc p fun a => { a with state := st }))
  (hpeers : Keeps (𝒲 := 𝒲) inv ends I
    (Code.modify fun s => { s with numPeers := s.procs.length }))
  (hroots : Keeps (𝒲 := 𝒲) inv ends I coordDetermineRoots)
  (hepoch : Keeps (𝒲 := 𝒲) inv ends I (Code.modify fun s => { s with epoch := s.epoch + 1 }))

include hcalls hstate hpeers hroots hepoch

theorem coordRunRound (epoch fuel : Nat) :
    Keeps (𝒲 := 𝒲) inv ends I (coordRunRound epoch fuel) := by
  have hfiles : ∀ c : CoordCall, c.file = true → Keeps (𝒲 := 𝒲) inv ends I (Code.call c) :=
    fun c hc => hcalls c (by rintro rfl; cases hc)
  have release : ∀ type, Keeps (𝒲 := 𝒲) inv ends I (Coord.coordReleaseBarrier type) := fun type =>
    U.coordReleaseBarrier hstate fun fd n a => hcalls _ nofun
  refine Keeps.bind hpeers fun _ => Keeps.bind hroots fun _ => ?_
  refine Keeps.bind (U.coordCollectivePrepare _ fuel) fun total => ?_
  refine Keeps.bind Keeps.get fun s => Keeps.bind (U.xndAssert _ _) fun _ => ?_
  refine Keeps.bind (release _) fun _ => Keeps.bind (U.xndAssert _ _) fun _ => ?_
  refine Keeps.bind (U.coordWaitForCkptCompletions fuel) fun _ => ?_
  refine Keeps.bind (U.coordWriteCkptManifest hfiles) fun _ => ?_
  refine Keeps.bind (release _) fun _ => Keeps.bind (U.xndAssert _ _) fun _ => ?_
  exact Keeps.bind (Turns.unlinkPrevious hfiles epoch) fun _ => hepoch

theorem coordDoCheckpoint (fuel : Nat) : Keeps (𝒲 := 𝒲) inv ends I (coordDoCheckpoint fuel) :=
  U.coordDoCheckpoint_of_round (fun c hc => hcalls c (by rintro rfl; cases hc))
    (fun _ => hcalls _ nofun) fun epoch => U.coordRunRound hcalls hstate hpeers hroots hepoch epoch fuel

end Round

/-! ### The main program -/

section Main
variable (hconn : ∀ fuel, Keeps (𝒲 := 𝒲) inv ends I (coordWaitForConnection fuel))
  (hckpt : ∀ fuel, Keeps (𝒲 := 𝒲) inv ends I (Coord.coordDoCheckpoint fuel))
  (hppid : Keeps (𝒲 := 𝒲) inv ends I (Code.call CoordCall.getppid))

include hconn hppid

theorem coordDoRestart (fuel : Nat) : Keeps (𝒲 := 𝒲) inv ends I (coordDoRestart fuel) := by
  refine Keeps.bind (U.parentPid hppid) fun ppid => ?_
  refine Keeps.bind (U.awaitProcess hconn (by decide) ppid fuel) fun _ => ?_
  refine Keeps.bind (U.awaitPeers hconn ppid fuel) fun _ => ?_
  refine Keeps.bind (U.coordCollectivePrepare _ fuel) fun total => Keeps.bind Keeps.get fun s => ?_
  refine Keeps.ite (fun _ => U.halt nofun) fun _ => ?_
  refine Keeps.bind (U.resume) fun released => ?_
  exact Keeps.ite (fun _ => Keeps.pure ()) fun _ => U.halt nofun

include hckpt

/-- **The main program keeps the invariant**, when registration and rounds do. -/
theorem coordMain (restart : Bool) (fuel : Nat) :
    Keeps (𝒲 := 𝒲) inv ends I (coordMain restart fuel) := by
  refine Keeps.ite (fun _ => ?_) fun _ => U.coordWork hconn hckpt hppid fuel
  exact Keeps.bind (U.coordDoRestart hconn hppid fuel) fun _ => U.coordWork hconn hckpt hppid fuel

end Main

end Turns

/-- A round, when the invariant survives whatever a round does. -/
theorem Upkeep.coordDoCheckpoint {W : Type} {𝒲 : World CoordCall.Answer CoordInfo W}
    {inv : CoordInfo → W → Prop} {ends : CoordInfo → CoordStop → W → Prop}
    {I : CoordInfo → W → Prop} (U : Upkeep 𝒲 inv ends I)
    (hcalls : ∀ c : CoordCall, c ≠ .accept → Keeps (𝒲 := 𝒲) inv ends I (Code.call c))
    (hpeers : Keeps (𝒲 := 𝒲) inv ends I
      (Code.modify fun s => { s with numPeers := s.procs.length }))
    (hroots : Keeps (𝒲 := 𝒲) inv ends I coordDetermineRoots)
    (hepoch : Keeps (𝒲 := 𝒲) inv ends I (Code.modify fun s => { s with epoch := s.epoch + 1 }))
    (fuel : Nat) : Keeps (𝒲 := 𝒲) inv ends I (Coord.coordDoCheckpoint fuel) :=
  U.toTurns.coordDoCheckpoint hcalls U.state hpeers hroots hepoch fuel

/-! ### Invariants of the coordinator's memory

In a world that only chooses answers, an invariant of the memory survives every
call, and what a connection brings is known from the message. -/

section Memory
variable {ok : CoordInfo → (c : CoordCall) → c.Answer → Prop} {I : CoordInfo → Prop}
  {ends : CoordInfo → CoordStop → Unit → Prop}

theorem keeps_call_answering (c : CoordCall) :
    Keeps (𝒲 := .answering ok) (fun s _ => I s) ends (fun s _ => I s) (Code.call c) :=
  fun _ _ h => Prog.holds_call_answering h fun _ _ => h

theorem wp_closeIfOpen_answering {fd : Int} {s : CoordInfo} (h : I s) :
    Wp (.answering ok) (fun s _ => I s) ends (closeIfOpen fd) s () fun s' _ _ => s' = s :=
  Wp.ite (fun _ => Prog.holds_call_answering h fun _ _ => rfl) fun _ => Wp.pure rfl

theorem wp_coordSendHandshake_answering {s : CoordInfo} (h : I s)
    (hends : ends s (.exitFailure .handshake) ()) (a : Proc) :
    Wp (.answering ok) (fun s _ => I s) ends (coordSendHandshake a) s () fun s' _ _ => s' = s := by
  have send : ∀ msg, Wp (.answering ok) (fun s _ => I s) ends (coordSendMsg a.fd msg) s ()
      fun s' _ _ => s' = s := fun msg => Prog.holds_call_answering h fun _ _ => rfl
  refine Wp.get_bind ((send _).bind ?_)
  rintro _ _ _ rfl
  exact Wp.ite (fun _ => Wp.pure rfl) fun _ => Wp.halt hends

/-- `coord_wait_for_connection`, from what each message does. -/
theorem keeps_coordWaitForConnection {A : CoordInfo → XndMsg → Prop}
    (hok : ∀ s fd msg, ok s (.recv fd) (some msg) → A s msg)
    (hends : ∀ s, I s → ends s (.assertion .connectionReceived) ()) {fuel : Nat}
    (h : ∀ s fd msg, I s → A s msg → Wp (.answering ok) (fun s _ => I s) ends
      (coordHandleConnection fuel fd msg) s () fun s _ _ => I s) :
    Keeps (𝒲 := .answering ok) (fun s _ => I s) ends (fun s _ => I s)
      (coordWaitForConnection fuel) := by
  refine Keeps.bind Keeps.get fun s => Keeps.bind (keeps_call_answering _) fun ready => ?_
  match ready with
  | none => exact Keeps.pure ()
  | some [] => exact Keeps.pure ()
  | some (_ :: _) =>
      refine Keeps.bind (keeps_call_answering _) fun fd => ?_
      cases fd with
      | none => exact Keeps.pure ()
      | some fd =>
          intro s _ hI
          refine Wp.bind (M := fun s' r _ => s' = s ∧ ok s (.recv fd) r)
            (Prog.holds_call_answering hI fun r hr => ⟨rfl, hr⟩) ?_
          rintro _ msg _ ⟨rfl, hr⟩
          cases msg with
          | none => exact Wp.halt (hends _ hI)
          | some msg => exact h _ fd msg hI (hok _ fd msg hr)

end Memory

end Xnd.Coord
