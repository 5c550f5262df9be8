import Xnd.Coord.Server

/-!
# What keeps an invariant in any place

`Routine` says of an invariant that it survives the calls the coordinator makes in any
place, and that it allows the ordinary ways to stop: those that are left out are the
`switch`es that come to their default, an id that is there already and a process in the
wrong state.  The lemmas carry such an invariant through the functions that do nothing
else; what a message, an answer and a turn of a loop do is given to them.
-/
namespace Xnd.Coord
open Code

/-- The calls that are made in any place, and that bring and send no message. -/
def CoordCall.routine : CoordCall → Bool
  | .select _ | .selectWrite _ | .close _ | .probe _ | .kill _ _ | .usleep | .stale | .elapsed
  | .iteration => true
  | _ => false

/-- The calls on the directories of checkpoints. -/
def CoordCall.file : CoordCall → Bool
  | .ckptdirCreate _ _ | .ckptdirUnlink _ _ | .ckptdirOpen _ _
  | .createManifest _ | .ckptfileExists _ _ | .compressedCkptExists _ _
  | .writeManifest _ _ _ => true
  | _ => false

/-- The ordinary ways to stop. -/
def CoordStop.usual : CoordStop → Bool
  | .exitFailure .virtPidExists | .exitFailure .unexpectedMessage
  | .exitFailure .unexpectedConnection | .assertion .procState => false
  | _ => true

/-- The invariant survives the calls that are made in any place. -/
structure Routine {W : Type} (𝒲 : World CoordCall.Answer CoordInfo W)
    (inv : CoordInfo → W → Prop) (ends : CoordInfo → CoordStop → W → Prop)
    (I : CoordInfo → W → Prop) : Prop where
  stop : ∀ s w e, I s w → e.usual = true → ends s e w
  call : ∀ c : CoordCall, c.routine = true → Keeps (𝒲 := 𝒲) inv ends I (Code.call c)

namespace Routine
variable {W : Type} {𝒲 : World CoordCall.Answer CoordInfo W} {inv : CoordInfo → W → Prop}
  {ends : CoordInfo → CoordStop → W → Prop} {I : CoordInfo → W → Prop} (U : Routine 𝒲 inv ends I)

include U

theorem halt {α : Type} {e : CoordStop} (he : e.usual = true) :
    Keeps (𝒲 := 𝒲) inv ends I (Code.halt e : InfoM α) :=
  Keeps.halt fun s w h => U.stop s w e h he

theorem xndAssert {failed : CoordAssertion} (hf : (CoordStop.assertion failed).usual = true)
    (b : Prop) [Decidable b] : Keeps (𝒲 := 𝒲) inv ends I (xndAssert failed b) :=
  Keeps.ite (fun _ => Keeps.pure ()) fun _ => U.halt hf

theorem listProc (p : Nat) : Keeps (𝒲 := 𝒲) inv ends I (listProc p) := by
  refine Keeps.bind Keeps.get fun s => ?_
  cases s.proc p with
  | none => exact U.halt rfl
  | some a => exact Keeps.pure a

theorem seqForeachSafe {β : Type} {b : β} {body : Nat → β → InfoM β}
    (h : ∀ p b, Keeps (𝒲 := 𝒲) inv ends I (body p b)) :
    Keeps (𝒲 := 𝒲) inv ends I (seqForeachSafe b body) :=
  fun _ _ hI => wp_seqForeachSafe_keep
    (fun s w h => ⟨U.stop s w _ h rfl, U.stop s w _ h rfl⟩) (fun p b s w => h p b s w) hI

omit U in
theorem seqForeach {β : Type} {body : Nat → Proc → β → InfoM β}
    (h : ∀ p b, Keeps (𝒲 := 𝒲) inv ends I (Coord.listProc p >>= fun a => body p a b))
    (l : List Nat) (b : β) : Keeps (𝒲 := 𝒲) inv ends I (seqForeach body l b) := by
  induction l generalizing b with
  | nil => exact Keeps.pure b
  | cons p l ih =>
      have hturn := Keeps.bind (h p b) fun b => ih b
      rw [bind_assoc] at hturn
      exact hturn

theorem probe (pid : Int) : Keeps (𝒲 := 𝒲) inv ends I (sysProbe pid) := U.call (.probe pid) rfl

theorem close (fd : Int) : Keeps (𝒲 := 𝒲) inv ends I (sysClose fd) := U.call (.close fd) rfl

theorem selectFor (type : CommType) (set : List Int) :
    Keeps (𝒲 := 𝒲) inv ends I (selectFor type set) := by
  cases type with
  | broadcast => exact U.call (.selectWrite set) rfl
  | reduce => exact U.call (.select set) rfl

/-! ### Answers -/

section Answers
variable {fd : Int} (hack : ∀ msg : XndMsg, msg.hdr = .coordAck →
  Keeps (𝒲 := 𝒲) inv ends I (coordSendMsg fd msg))

include hack

theorem coordSendVirtToReal (msg : XndMsg) :
    Keeps (𝒲 := 𝒲) inv ends I (coordSendVirtToReal fd msg) := by
  refine Keeps.bind Keeps.get fun s => Keeps.bind (hack _ ?_) fun _ => U.xndAssert rfl _
  rw [apply_ite XndMsg.hdr]
  exact ite_self _

theorem coordSendRealToVirt (msg : XndMsg) :
    Keeps (𝒲 := 𝒲) inv ends I (coordSendRealToVirt fd msg) := by
  refine Keeps.bind (U.call .iteration rfl) fun i => ?_
  refine Keeps.bind Keeps.get fun s => Keeps.bind (hack _ ?_) fun _ => U.xndAssert rfl _
  rw [apply_ite XndMsg.hdr]
  exact ite_self _

theorem coordSendHandshake {a : Proc} (ha : a.fd = fd) :
    Keeps (𝒲 := 𝒲) inv ends I (coordSendHandshake a) := by
  subst ha
  refine Keeps.bind Keeps.get fun s => Keeps.bind (hack _ rfl) fun sent => ?_
  exact Keeps.ite (fun _ => Keeps.pure ()) fun _ => U.halt rfl

end Answers

theorem parentPid (hppid : Keeps (𝒲 := 𝒲) inv ends I (Code.call CoordCall.getppid)) :
    Keeps (𝒲 := 𝒲) inv ends I parentPid :=
  Keeps.bind hppid fun ppid =>
    Keeps.ite (fun _ => U.halt rfl) fun _ => Keeps.pure ppid

theorem coordBroadcastKill : Keeps (𝒲 := 𝒲) inv ends I coordBroadcastKill := by
  refine Keeps.bind Keeps.get fun s => ?_
  refine Keeps.bind (Routine.seqForeach (fun p _ => ?_) _ _) fun _ => U.halt rfl
  exact Keeps.bind (U.listProc p) fun a => U.call (.kill a.realPid 9) rfl

/-- A command, from the round that it may ask for. -/
theorem coordHandleCommand {fuel : Nat} {msg : XndMsg} {fd : Int}
    (hckpt : msg.cmd = .ckptCmd → Keeps (𝒲 := 𝒲) inv ends I (coordDoCheckpoint fuel))
    (hack : ∀ msg : XndMsg, msg.hdr = .coordAck → Keeps (𝒲 := 𝒲) inv ends I (coordSendMsg fd msg)) :
    Keeps (𝒲 := 𝒲) inv ends I (coordHandleCommand fuel fd msg) := by
  have hrun : Keeps (𝒲 := 𝒲) inv ends I (runCommand fuel msg.cmd) := by
    cases hcmd : msg.cmd with
    | ckptCmd => exact hckpt hcmd
    | killCmd => exact U.coordBroadcastKill
    | _ => exact U.halt rfl
  exact Keeps.bind hrun fun _ => Keeps.bind (hack _ rfl) fun sent => U.xndAssert rfl _

/-! ### New ids

An invariant that does not read the table or the counters survives what gives a new
process its ids. -/

section Ids
variable (hids : ∀ s s' w, I s w → s'.procs = s.procs → s'.brk = s.brk → s'.epoch = s.epoch →
    I s' w) (hvirt : ∀ s w, I s w → ends s (.exitFailure .virtPidExists) w)
  (hparent : ∀ s w, I s w → ends s (.assertion .parentListed) w)

include hids

omit U in
theorem coordNextXndPid : Keeps (𝒲 := 𝒲) inv ends I coordNextXndPid :=
  Keeps.bind Keeps.get fun _ => Keeps.bind (Keeps.modify fun s w h => hids s _ w h rfl rfl rfl)
    fun _ => Keeps.pure _

include hvirt

omit U in
theorem coordNextVirtPid : Keeps (𝒲 := 𝒲) inv ends I coordNextVirtPid := by
  refine Keeps.bind Keeps.get fun _ => Keeps.bind (Keeps.modify fun s w h => ?_) fun _ => ?_
  · exact hids s _ w h rfl rfl rfl
  · refine Keeps.bind Keeps.get fun _ => Keeps.ite (fun _ => ?_) fun _ => Keeps.pure _
    exact Keeps.halt hvirt

include hparent

omit U in
theorem launchIds (fd : Int) (msg : XndMsg) : Keeps (𝒲 := 𝒲) inv ends I (launchIds fd msg) := by
  have virt : Keeps (𝒲 := 𝒲) inv ends I Coord.coordNextVirtPid := coordNextVirtPid hids hvirt
  have xnd : Keeps (𝒲 := 𝒲) inv ends I Coord.coordNextXndPid := coordNextXndPid hids
  refine Keeps.bind Keeps.get fun s => Keeps.ite (fun _ => ?_) fun _ => ?_
  · cases s.find (·.realPid = msg.realPpid) with
    | none => exact Keeps.halt hparent
    | some n => exact Keeps.bind virt fun _ => Keeps.bind xnd fun _ => Keeps.pure _
  · exact Keeps.bind virt fun _ => Keeps.bind virt fun _ => Keeps.bind xnd fun _ =>
      Keeps.bind xnd fun _ => Keeps.pure _

end Ids

/-! ### Files -/

section Files
variable (hfiles : ∀ c : CoordCall, c.file = true → Keeps (𝒲 := 𝒲) inv ends I (Code.call c))

include hfiles

omit U in
theorem scanCkptfiles (dirfd : Int) (n id : Nat) :
    Keeps (𝒲 := 𝒲) inv ends I (scanCkptfiles dirfd id n) := by
  induction n generalizing id with
  | zero => exact Keeps.pure []
  | succ n ih =>
      refine Keeps.bind (hfiles _ rfl) fun plain => Keeps.bind ?_ fun found => ?_
      · exact Keeps.ite (fun _ => Keeps.pure true) fun _ => hfiles _ rfl
      · exact Keeps.bind (ih (id + 1)) fun rest => Keeps.pure _

theorem xndCkptfileWriteManifest (total minXndPid maxXndPid uuid epoch : Nat) :
    Keeps (𝒲 := 𝒲) inv ends I (xndCkptfileWriteManifest total minXndPid maxXndPid uuid epoch) := by
  refine Keeps.bind (hfiles _ rfl) fun dirfd => ?_
  cases dirfd with
  | none => exact Keeps.pure false
  | some dirfd =>
      refine Keeps.bind (hfiles _ rfl) fun fd => ?_
      cases fd with
      | none => exact Keeps.bind (U.close _) fun _ => Keeps.pure false
      | some fd =>
          refine Keeps.bind (scanCkptfiles hfiles _ _ _) fun ids => ?_
          refine Keeps.ite (fun _ => U.halt rfl) fun _ => Keeps.bind ?_ fun written => ?_
          · exact Keeps.ite (fun _ => hfiles _ rfl) fun _ => Keeps.pure false
          · exact Keeps.bind (U.close _) fun _ => Keeps.bind (U.close _) fun _ => Keeps.pure written

theorem coordWriteCkptManifest : Keeps (𝒲 := 𝒲) inv ends I coordWriteCkptManifest := by
  refine Keeps.bind Keeps.get fun s => ?_
  refine Keeps.bind (U.xndCkptfileWriteManifest hfiles _ _ _ _ _) fun written => ?_
  exact Keeps.ite (fun _ => Keeps.pure ()) fun _ => U.halt rfl

omit U in
theorem unlinkPrevious (epoch : Nat) : Keeps (𝒲 := 𝒲) inv ends I (unlinkPrevious epoch) := by
  refine Keeps.ite (fun _ => Keeps.bind Keeps.get fun s => ?_) fun _ => Keeps.pure ()
  exact Keeps.bind (hfiles _ rfl) fun _ => Keeps.pure ()

end Files

/-! ### Loops over the list -/

section Turns
variable (hprepare : ∀ p n, Keeps (𝒲 := 𝒲) inv ends I (Coord.prepareTurn p n))
  (hfilter : ∀ p, Keeps (𝒲 := 𝒲) inv ends I (do
    let a ← Coord.listProc p
    let gone ← sysProbe a.realPid
    if gone then listRemove p else pure ()))
  (hserve : ∀ ready p, Keeps (𝒲 := 𝒲) inv ends I (serveProc ready p))

section Remove
variable (hremove : ∀ p, Keeps (𝒲 := 𝒲) inv ends I (listRemove p))

include hremove

theorem prepareTurn (p : Nat) (n : Nat × List Int) : Keeps (𝒲 := 𝒲) inv ends I (prepareTurn p n) := by
  refine Keeps.bind (U.listProc p) fun a => Keeps.bind (U.probe _) fun gone => ?_
  exact Keeps.ite (fun _ => Keeps.bind (hremove p) fun _ => Keeps.pure n) fun _ => Keeps.pure _

theorem filterTurn (p : Nat) : Keeps (𝒲 := 𝒲) inv ends I (do
    let a ← Coord.listProc p
    let gone ← sysProbe a.realPid
    if gone then listRemove p else pure ()) := by
  refine Keeps.bind (U.listProc p) fun a => Keeps.bind (U.probe _) fun gone => ?_
  exact Keeps.ite (fun _ => hremove p) fun _ => Keeps.pure ()

end Remove

include hprepare in
theorem coordCollectivePrepare (type : CommType) (fuel : Nat) :
    Keeps (𝒲 := 𝒲) inv ends I (coordCollectivePrepare type fuel) := by
  induction fuel with
  | zero => exact U.halt rfl
  | succ fuel ih =>
      refine Keeps.bind (U.seqForeachSafe hprepare) fun n => ?_
      refine Keeps.bind (U.selectFor type n.2) fun ready => ?_
      cases ready with
      | none => exact U.halt rfl
      | some ready => exact Keeps.ite (fun _ => Keeps.pure _) fun _ => ih

include hfilter in
theorem listFilter : Keeps (𝒲 := 𝒲) inv ends I listFilter := U.seqForeachSafe fun p _ => hfilter p

include hserve in
theorem coordWaitForMsg : Keeps (𝒲 := 𝒲) inv ends I coordWaitForMsg := by
  refine Keeps.bind Keeps.get fun s => Keeps.bind (U.call (.select _) rfl) fun ready => ?_
  rcases ready with _ | _ | ⟨fd, ready⟩
  · exact Keeps.pure ()
  · exact Keeps.pure ()
  · exact U.seqForeachSafe fun p _ => hserve (fd :: ready) p

/-! ### The main program -/

section Main
variable (hconn : ∀ fuel, Keeps (𝒲 := 𝒲) inv ends I (coordWaitForConnection fuel))
  (hckpt : ∀ fuel, Keeps (𝒲 := 𝒲) inv ends I (coordDoCheckpoint fuel))
  (hppid : Keeps (𝒲 := 𝒲) inv ends I (Code.call CoordCall.getppid))

include hconn

theorem awaitProcess {bailed : CoordError} (hb : (CoordStop.exitFailure bailed).usual = true)
    (ppid : Int) (fuel : Nat) : Keeps (𝒲 := 𝒲) inv ends I (awaitProcess bailed ppid fuel) := by
  induction fuel with
  | zero => exact U.halt rfl
  | succ fuel ih =>
      refine Keeps.bind (hconn fuel) fun _ => Keeps.bind Keeps.get fun s => ?_
      refine Keeps.ite (fun _ => Keeps.pure ()) fun _ => Keeps.bind (U.probe ppid) fun gone => ?_
      exact Keeps.ite (fun _ => U.halt hb) fun _ => ih

theorem awaitPeers (ppid : Int) (fuel : Nat) : Keeps (𝒲 := 𝒲) inv ends I (awaitPeers ppid fuel) := by
  induction fuel with
  | zero => exact U.halt rfl
  | succ fuel ih =>
      refine Keeps.bind Keeps.get fun s => Keeps.ite (fun _ => ?_) fun _ => Keeps.pure ()
      refine Keeps.bind (hconn fuel) fun _ => Keeps.bind Keeps.get fun s => ?_
      refine Keeps.ite (fun _ => Keeps.pure ()) fun _ => Keeps.bind (U.probe ppid) fun gone => ?_
      exact Keeps.ite (fun _ => U.halt rfl) fun _ => ih

include hfilter hserve hckpt

theorem workLoop (fuel iter : Nat) : Keeps (𝒲 := 𝒲) inv ends I (workLoop fuel iter) := by
  induction fuel generalizing iter with
  | zero => exact U.halt rfl
  | succ fuel ih =>
      have checkpoint : Keeps (𝒲 := 𝒲) inv ends I (checkpointOnInterval fuel) := by
        refine Keeps.bind Keeps.get fun s => Keeps.ite (fun _ => ?_) fun _ => Keeps.pure ()
        refine Keeps.bind (U.call .elapsed rfl) fun elapsed => ?_
        exact Keeps.ite (fun _ => hckpt fuel) fun _ => Keeps.pure ()
      refine Keeps.bind (hconn fuel) fun _ => Keeps.bind (U.coordWaitForMsg hserve) fun _ => ?_
      refine Keeps.bind checkpoint fun _ => Keeps.bind Keeps.get fun s => ?_
      refine Keeps.ite (fun _ => Keeps.pure ()) fun _ => ?_
      refine Keeps.ite (fun _ => Keeps.bind (U.listFilter hfilter) fun _ => ?_) fun _ => ih _
      exact Keeps.bind Keeps.get fun s => Keeps.ite (fun _ => Keeps.pure ()) fun _ => ih _

include hppid

theorem coordWork (fuel : Nat) : Keeps (𝒲 := 𝒲) inv ends I (coordWork fuel) := by
  refine Keeps.bind (U.parentPid hppid) fun ppid => ?_
  refine Keeps.bind (U.awaitProcess hconn rfl ppid fuel) fun _ => ?_
  exact U.workLoop hfilter hserve hconn hckpt fuel 0

end Main

end Turns

end Routine

end Xnd.Coord
