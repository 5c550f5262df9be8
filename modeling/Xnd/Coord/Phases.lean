import Xnd.Coord.Frame
import Xnd.Coord.Ids
import Xnd.Lib.Env

/-!
# In which states rounds begin

A round suspends the processes that run and those that are suspended already; of a process
in another state `coord_suspend_processes` waits for nothing, and does not end.  The
restart keeps processes in such a state, `PROC_RESTART_IN_PROGRESS`, while it accepts
connections, and a connection may bring a command.

`Rounds` keeps account of how far the main program has come and of the states in which
rounds began.  When commands wait for the restart to end (`Orderly`), every round begins
with processes that it can suspend.  What an abandoned round leaves is part of this:
they are `PROC_READY_FOR_CKPT` if the round was abandoned with all of them ready.
-/
namespace Xnd.Coord
open Code

/-! ## The account -/

/-- How far the main program has come. -/
inductive Phase where
  | launching
  | restarting
  /-- `coord_do_restart`, after it has asked for its parent. -/
  | restoring
  /-- `coord_work`, after it has asked for its parent. -/
  | working
  deriving DecidableEq, Repr

/-- The phase that begins when the program asks for its parent. -/
def Phase.next : Phase → Phase
  | .restarting => .restoring
  | _ => .working

structure Rounds where
  phase : Phase
  /-- A connection is accepted, its first message is to come. -/
  accepted : Bool
  /-- A process of a restart has connected. -/
  restored : Bool
  /-- The states in which `coord_do_checkpoint` was entered. -/
  entered : List CoordInfo

namespace Rounds

def init (restart : Bool) : Rounds where
  phase := if restart = true then .restarting else .launching
  accepted := false
  restored := false
  entered := []

/-- The first message of a connection. -/
def first (w : Rounds) (msg : XndMsg) : Rounds :=
  { w with accepted := false, restored := w.restored || msg.hdr = .connectRestart }

/-- What an answer adds. -/
def follow (s : CoordInfo) (w : Rounds) : (c : CoordCall) → c.Answer → Rounds
  | .getppid, _ => { w with phase := w.phase.next }
  | .accept, (some _ : Option Int) => { w with accepted := true }
  | .recv _, (some msg : Option XndMsg) => if w.accepted = true then w.first msg else w
  | .sigprocmask true, _ => { w with entered := s :: w.entered }
  | _, _ => w

end Rounds

/-- Processes of a restart connect while the restart goes on, and after the first of them
no checkpoint is commanded until it has ended. -/
def Rounds.OrderlyFirst (w : Rounds) (msg : XndMsg) : Prop :=
  (msg.hdr = .connectRestart → w.phase = .restoring) ∧
    (msg.hdr = .command → msg.cmd = .ckptCmd → w.phase = .restoring → w.restored = false)

instance (w : Rounds) (msg : XndMsg) : Decidable (w.OrderlyFirst msg) :=
  inferInstanceAs (Decidable (_ ∧ _))

/-- Connections are orderly, and a round is abandoned only with every request answered. -/
def Orderly (s : CoordInfo) (w : Rounds) (c : CoordCall) (r : c.Answer) : Prop :=
  (∀ m ∈ c.received r, w.accepted = true → w.OrderlyFirst m.2) ∧
    match c, r with
    | .ckptdirCreate _ _, (false : Bool) => ∀ n ∈ s.procs, n.2.state ≠ .recvCkptRequest
    | _, _ => True

instance (s : CoordInfo) (w : Rounds) (c : CoordCall) (r : c.Answer) :
    Decidable (Orderly s w c r) := by
  unfold Orderly
  refine @instDecidableAnd _ _ inferInstance ?_
  split
  · exact inferInstance
  · exact inferInstance

abbrev roundsWorld : World CoordCall.Answer CoordInfo Rounds :=
  (Env.account Rounds.follow).world Orderly

/-- The states of the listed processes. -/
def InStates (P : ProcState → Prop) (s : CoordInfo) : Prop := ∀ n ∈ s.procs, P n.2.state

/-- The states from which a process can be suspended, when no round goes on. -/
def ProcState.Idle (st : ProcState) : Prop := st = .running ∨ st = .readyForCkpt

/-- The states while the processes are being suspended. -/
def ProcState.Asked (st : ProcState) : Prop := st.Idle ∨ st = .recvCkptRequest

/-- **Every round began with processes that can be suspended.** -/
def Rounds.Ok (w : Rounds) : Prop := ∀ s ∈ w.entered, InStates ProcState.Idle s

abbrev KeepsRounds (I : CoordInfo → Rounds → Prop) {α : Type} (m : InfoM α) : Prop :=
  Keeps (𝒲 := roundsWorld) (fun _ w => w.Ok) (fun _ _ w => w.Ok) I m

abbrev RoundsWp {α : Type} (m : InfoM α) (s : CoordInfo) (w : Rounds)
    (fin : CoordInfo → α → Rounds → Prop) : Prop :=
  Wp roundsWorld (fun _ w => w.Ok) (fun _ _ w => w.Ok) m s w fin

theorem InStates.mono {P Q : ProcState → Prop} {s : CoordInfo} (h : InStates P s)
    (hPQ : ∀ st, P st → Q st) : InStates Q s := fun n hn => hPQ _ (h n hn)

/-- A process is moved to one of the states. -/
theorem InStates.setState {P : ProcState → Prop} {s : CoordInfo} (h : InStates P s) (p : Nat)
    {st : ProcState} (hst : P st) : InStates P (s.setProc p fun a => { a with state := st }) := by
  intro n hn
  obtain ⟨m, hm, rfl⟩ := List.mem_map.mp hn
  split
  · exact hst
  · exact h m hm

/-- A process is given something else than a state. -/
theorem InStates.setProc {P : ProcState → Prop} {s : CoordInfo} (h : InStates P s) (p : Nat)
    {f : Proc → Proc} (hf : ∀ a, (f a).state = a.state) : InStates P (s.setProc p f) := by
  intro n hn
  obtain ⟨m, hm, rfl⟩ := List.mem_map.mp hn
  split
  · rw [hf]
    exact h m hm
  · exact h m hm

/-! ## Between two messages -/

section Steps
variable {s : CoordInfo} {w : Rounds}

/-- A call, with what its answer adds. -/
theorem roundsWp_call {c : CoordCall} (h : w.Ok) :
    RoundsWp (Code.call c) s w fun s' r w' => s' = s ∧ w' = w.follow s c r ∧ Orderly s w c r :=
  Env.wp_call_account h

/-- The calls that the account does not take note of between two connections. -/
def CoordCall.unnoted (c : CoordCall) : Prop :=
  c ≠ .accept ∧ c ≠ .getppid ∧ c ≠ .sigprocmask true

theorem Rounds.follow_unnoted (hw : w.accepted = false) {c : CoordCall} (hc : c.unnoted)
    (r : c.Answer) : w.follow s c r = w := by
  obtain ⟨haccept, hppid, hmask⟩ := hc
  unfold Rounds.follow
  split
  · exact absurd rfl hppid
  · exact absurd rfl haccept
  · rw [if_neg (by rw [hw]; exact Bool.false_ne_true)]
  · exact absurd rfl hmask
  · rfl

theorem CoordCall.unnoted_of_neutral {c : CoordCall} (hc : c.neutral = true) : c.unnoted := by
  refine ⟨?_, ?_, ?_⟩
  · rintro rfl; cases hc
  · rintro rfl; cases hc
  · rintro rfl; cases hc

/-- An invariant between two connections, which does not mind when processes leave. -/
structure Resting (I : CoordInfo → Rounds → Prop) : Prop where
  ok : ∀ s w, I s w → w.Ok
  accepted : ∀ s w, I s w → w.accepted = false
  subset : ∀ s s' w, I s w → s'.procs ⊆ s.procs → I s' w

variable {I : CoordInfo → Rounds → Prop}

theorem Resting.call (hI : Resting I) {c : CoordCall} (hc : c.unnoted) :
    KeepsRounds I (Code.call c) := by
  intro s w h
  refine (roundsWp_call (hI.ok s w h)).mono ?_
  rintro _ r _ ⟨rfl, rfl, -⟩
  rw [Rounds.follow_unnoted (hI.accepted _ w h) hc]
  exact h

theorem Resting.remove (hI : Resting I) (p : Nat) : KeepsRounds I (listRemove p) := by
  have close : ∀ fd, KeepsRounds I (closeIfOpen fd) := fun fd =>
    Keeps.ite (fun _ => hI.call ⟨nofun, nofun, nofun⟩) fun _ => Keeps.pure ()
  refine Keeps.bind (fun s w h => wp_listProc (fun _ => hI.ok s w h) fun _ _ => h) fun a => ?_
  refine Keeps.bind (Keeps.modify fun s w h => hI.subset s _ w h ?_) fun _ => ?_
  · exact List.filter_subset_self _
  refine Keeps.bind (close _) fun _ => Keeps.bind (close _) fun _ => ?_
  exact Keeps.modify fun s w h => hI.subset s _ w h (List.Subset.refl _)

theorem Resting.sweeps (hI : Resting I) :
    Sweeps roundsWorld (fun _ w => w.Ok) (fun _ _ w => w.Ok) I :=
  Calm.toSweeps ⟨fun s w _ h _ => hI.ok s w h, fun _ hc => hI.call (CoordCall.unnoted_of_neutral hc)⟩
    hI.remove

/-- The invariant of a phase, with the states that the listed processes are in. -/
structure Within (P : ProcState → Prop) (φ : Phase) (b : Bool) (s : CoordInfo) (w : Rounds) :
    Prop where
  ok : w.Ok
  accepted : w.accepted = false
  phase : w.phase = φ
  restored : w.restored = b
  states : InStates P s

variable {P : ProcState → Prop} {φ : Phase} {b : Bool}

theorem resting_within (P : ProcState → Prop) (φ : Phase) (b : Bool) : Resting (Within P φ b) where
  ok _ _ h := h.ok
  accepted _ _ h := h.accepted
  subset _ _ _ h hs := { h with states := fun n hn => h.states n (hs hn) }

theorem Within.mono {Q : ProcState → Prop} (h : Within P φ b s w) (hPQ : ∀ st, P st → Q st) :
    Within Q φ b s w := { h with states := h.states.mono hPQ }

theorem Within.congr (h : Within P φ b s w) {s' : CoordInfo} (hp : s'.procs = s.procs) :
    Within P φ b s' w := (resting_within P φ b).subset s s' w h (by rw [hp]; exact List.Subset.refl _)

/-- Nothing is known of the states. -/
abbrev Anything (φ : Phase) (b : Bool) : CoordInfo → Rounds → Prop := Within (fun _ => True) φ b

theorem Within.forget (h : Within P φ b s w) : Anything φ b s w := h.mono fun _ _ => trivial

theorem upkeep_anything (φ : Phase) (b : Bool) :
    Upkeep roundsWorld (fun _ w => w.Ok) (fun _ _ w => w.Ok) (Anything φ b) where
  toCalm := (resting_within _ φ b).sweeps.toCalm
  remove := (resting_within _ φ b).remove
  state _ _ := Keeps.modify fun _ _ h => { h with states := fun _ _ => trivial }

/-! ## Rounds -/

/-- A barrier that every process is sent leaves every process in the next state. -/
theorem roundsWp_releaseLoop {type : BarrierType} {s : CoordInfo} {w : Rounds} (l : List Nat)
    (h : Anything φ b s w) (hl : ∀ n ∈ s.procs, n.1 ∈ l ∨ n.2.state = type.next) :
    RoundsWp (releaseLoop type l) s w fun s' released w' => Anything φ b s' w' ∧
      (released = true → InStates (· = type.next) s') := by
  induction l generalizing s w with
  | nil =>
      refine Wp.pure ⟨h, fun _ n hn => (hl n hn).resolve_left List.not_mem_nil⟩
  | cons p rest ih =>
      refine Wp.bind (M := fun s' _ w' => s' = s ∧ w' = w)
        (wp_listProc (fun _ => h.ok) fun _ _ => ⟨rfl, rfl⟩) ?_
      rintro s a w ⟨rfl, rfl⟩
      refine Wp.bind (M := fun s' _ w' => s' = s ∧ w' = w)
        (Wp.ite (fun _ => Wp.pure ⟨rfl, rfl⟩) fun _ => Wp.halt h.ok) ?_
      rintro s _ w ⟨rfl, rfl⟩
      refine Wp.get_bind (Wp.bind (M := fun s' (_ : Bool) w' => s' = s ∧ w' = w) ?_ ?_)
      · refine (roundsWp_call h.ok).mono ?_
        rintro _ _ _ ⟨rfl, rfl, -⟩
        exact ⟨rfl, rfl⟩
      rintro s sent w ⟨rfl, rfl⟩
      refine Wp.ite (fun _ => Wp.modify_bind (ih { h with states := fun _ _ => trivial } ?_))
        fun _ => Wp.pure ⟨h, nofun⟩
      -- The process of the turn is in the next state; the others are as they were.
      intro n hn
      obtain ⟨m, hm, rfl⟩ := List.mem_map.mp hn
      by_cases hp : m.1 = p
      · rw [if_pos hp]
        exact .inr rfl
      · rw [if_neg hp]
        exact (hl m hm).imp_left fun hmem => (List.mem_cons.mp hmem).resolve_left hp

theorem roundsWp_coordReleaseBarrier (type : BarrierType) (h : Anything φ b s w) :
    RoundsWp (coordReleaseBarrier type) s w fun s' released w' => Anything φ b s' w' ∧
      (released = true → InStates (· = type.next) s') :=
  Wp.get_bind (roundsWp_releaseLoop _ h fun _ hn => .inl (List.mem_map_of_mem hn))

theorem CoordCall.unnoted_of_file {c : CoordCall} (hc : c.file = true) : c.unnoted := by
  refine ⟨?_, ?_, ?_⟩
  · rintro rfl; cases hc
  · rintro rfl; cases hc
  · rintro rfl; cases hc

/-- A barrier that has to be released to every process. -/
theorem roundsWp_released {type : BarrierType} {failed : CoordAssertion} {β : Type}
    {f : Unit → InfoM β} {fin : CoordInfo → β → Rounds → Prop} (h : Anything φ b s w)
    (hf : ∀ s' w', Within (· = type.next) φ b s' w' → RoundsWp (f ()) s' w' fin) :
    RoundsWp (coordReleaseBarrier type >>= fun released =>
      xndAssert failed (released = true) >>= f) s w fin := by
  refine (roundsWp_coordReleaseBarrier type h).bind ?_
  rintro s' released w' ⟨h, hall⟩
  refine Wp.bind (M := fun s'' _ w'' => s'' = s' ∧ w'' = w' ∧ released = true)
    (Wp.ite (fun hr => Wp.pure ⟨rfl, rfl, hr⟩) fun _ => Wp.halt h.ok) ?_
  rintro s' _ w' ⟨rfl, rfl, hr⟩
  exact hf s' w' { h with states := hall hr }

/-- A round that is completed leaves processes that run. -/
theorem roundsWp_coordRunRound (h : Anything φ b s w) (epoch fuel : Nat) :
    RoundsWp (coordRunRound epoch fuel) s w fun s' _ w' => Within (· = .running) φ b s' w' := by
  have U := (upkeep_anything φ b).toTurns
  have files : ∀ {I} (_ : Resting I) (c : CoordCall), c.file = true → KeepsRounds I (Code.call c) :=
    fun hI c hc => hI.call (CoordCall.unnoted_of_file hc)
  have running := resting_within (· = .running) φ b
  refine Wp.modify_bind (Wp.modify_bind ?_)
  refine (U.coordCollectivePrepare .broadcast fuel _ w { h with states := fun _ _ => trivial }).bind
    fun s total w h => Wp.get_bind ?_
  refine (U.xndAssert _ _ s w h).bind fun s _ w h => roundsWp_released h fun s w h => ?_
  refine (U.coordWaitForCkptCompletions fuel s w h.forget).bind fun s _ w h => ?_
  refine (U.coordWriteCkptManifest (files (resting_within _ φ b)) s w h).bind fun s _ w h => ?_
  refine roundsWp_released h fun s w h => ?_
  refine (Turns.unlinkPrevious (files running) epoch s w h).bind fun s _ w h => ?_
  exact Wp.modify (h.congr rfl)

/-- Suspension asks processes, and leaves others alone. -/
theorem keepsRounds_coordSuspendProcesses (fuel : Nat) :
    KeepsRounds (Within ProcState.Asked φ b) (coordSuspendProcesses fuel) := by
  have U := (resting_within ProcState.Asked φ b).sweeps
  have asked : ∀ p st, st = .recvCkptRequest ∨ st = .readyForCkpt →
      KeepsRounds (Within ProcState.Asked φ b)
        (Code.modify fun s => s.setProc p fun a => { a with state := st }) := fun p st hst =>
    Keeps.modify fun s w h => { h with states := h.states.setState p (hst.elim .inr (.inl ∘ .inr)) }
  have turn := U.suspendTurn (resting_within ProcState.Asked φ b).remove asked
  induction fuel with
  | zero => exact U.halt nofun
  | succ fuel ih =>
      refine Keeps.bind (U.seqForeachSafe turn) fun n => Keeps.ite (fun _ => Keeps.pure ()) fun _ => ?_
      exact Keeps.bind (U.call .usleep rfl) fun _ => ih

/-- What comes after every process is suspended; a round that is abandoned leaves them
ready. -/
theorem roundsWp_coordCheckpointSuspended (h : Within ProcState.Asked φ b s w) (epoch fuel : Nat) :
    RoundsWp (coordCheckpointSuspended epoch fuel) s w fun s' _ w' =>
      Within ProcState.Idle φ b s' w' := by
  refine Wp.get_bind ((roundsWp_call h.ok).bind ?_)
  rintro s (created : Bool) w ⟨rfl, rfl, -, hleft⟩
  cases created with
  | true =>
      refine (roundsWp_coordRunRound h.forget epoch fuel).mono fun s' _ w' h => ?_
      exact h.mono fun _ hst => .inl hst
  | false =>
      have idle : Within ProcState.Idle φ b s w :=
        { h with states := fun n hn => (h.states n hn).resolve_right (hleft n hn) }
      have unlink : KeepsRounds (Within ProcState.Idle φ b)
          (xndCkptdirUnlink s.xndUuid epoch : InfoM Bool) :=
        (resting_within ProcState.Idle φ b).call ⟨nofun, nofun, nofun⟩
      exact Wp.get_bind ((unlink s w idle).bind fun s _ w h => Wp.pure h)

/-- **A round** that begins with processes that can be suspended leaves such processes. -/
theorem keepsRounds_coordDoCheckpoint (fuel : Nat) :
    KeepsRounds (Within ProcState.Idle φ b) (coordDoCheckpoint fuel) := by
  have U := (resting_within ProcState.Idle φ b).sweeps
  have unmask : KeepsRounds (Within ProcState.Idle φ b) (sysSigprocmask false : InfoM Unit) :=
    (resting_within ProcState.Idle φ b).call ⟨nofun, nofun, nofun⟩
  intro s w h
  refine Wp.get_bind ((roundsWp_call h.ok).bind ?_)
  rintro s _ _ ⟨rfl, rfl, -⟩
  have h : Within ProcState.Idle φ b s { w with entered := s :: w.entered } :=
    { h with ok := List.forall_mem_cons.mpr ⟨h.states, h.ok⟩ }
  refine (U.coordCollectivePrepare .broadcast fuel s _ h).bind fun s total w h => ?_
  refine Wp.ite (fun _ => unmask s w h) fun _ => ?_
  refine (keepsRounds_coordSuspendProcesses fuel s w (h.mono fun _ => .inl)).bind fun s _ w h => ?_
  exact (roundsWp_coordCheckpointSuspended h _ fuel).bind fun s _ w h => unmask s w h

/-! ## Connections -/

/-- A new process in one of the states. -/
theorem keepsRounds_registerProc {a : Proc} (ha : P a.state) :
    KeepsRounds (Within P φ b) (registerProc a) := by
  refine Keeps.bind ((resting_within P φ b).sweeps.coordSendHandshake a) fun _ => ?_
  refine Keeps.bind (Keeps.modify fun s w h => h.congr rfl) fun _ => Keeps.modify fun s w h => ?_
  exact { h with states := List.forall_mem_cons.mpr ⟨ha, h.states⟩ }

theorem keepsRounds_coordConnectWithProcessOnLaunch (hrunning : P .running) (fd : Int)
    (msg : XndMsg) : KeepsRounds (Within P φ b) (coordConnectWithProcessOnLaunch fd msg) := by
  have U := (resting_within P φ b).sweeps
  have ids : KeepsRounds (Within P φ b) (launchIds fd msg) :=
    Calm.launchIds (fun _ _ _ h hp _ _ => h.congr hp) (fun _ _ _ h => h.ok) fd msg
  refine Keeps.bind Keeps.get fun s => Keeps.ite (fun _ => ?_) fun _ => ?_
  · cases s.find (·.realPid = msg.realPid) with
    | none => exact U.halt nofun
    | some n =>
        refine Keeps.bind (U.call (.close n.2.fd) rfl) fun _ => Keeps.bind ?_ fun _ => ?_
        · exact Keeps.modify fun s w h => { h with states := h.states.setProc n.1 fun _ => rfl }
        · exact U.coordSendHandshake _
  · refine Keeps.bind (U.xndAssert _ _) fun _ s w h => ?_
    refine ((ids s w h).and_rets (rets_launchIds s fd msg)).bind ?_
    rintro s a w ⟨h, -, -, -, ha⟩
    exact keepsRounds_registerProc (ha ▸ hrunning) s w h

theorem keepsRounds_coordAtfork (hrunning : P .running) (fd : Int) (msg : XndMsg) :
    KeepsRounds (Within P φ b) (coordAtfork fd msg) := by
  have U := (resting_within P φ b).sweeps
  have virt : KeepsRounds (Within P φ b) coordNextVirtPid :=
    Calm.coordNextVirtPid (fun _ _ _ h hp _ _ => h.congr hp) fun _ _ _ h => h.ok
  have xnd : KeepsRounds (Within P φ b) coordNextXndPid :=
    Calm.coordNextXndPid fun _ _ _ h hp _ _ => h.congr hp
  refine Keeps.bind virt fun virtPid => Keeps.bind xnd fun xndPid => ?_
  refine Keeps.bind (U.ack rfl) fun sent => Keeps.ite (fun _ => ?_) fun _ => U.halt nofun
  refine Keeps.bind Keeps.get fun s => ?_
  cases s.find (·.virtPid = msg.virtPpid) with
  | none => exact U.halt nofun
  | some n =>
      refine Keeps.bind (U.recv fd) fun childMsg => ?_
      cases childMsg with
      | none => exact U.halt nofun
      | some childMsg =>
          refine Keeps.bind (U.xndAssert _ _) fun _ => Keeps.bind (U.xndAssert _ _) fun _ => ?_
          exact keepsRounds_registerProc hrunning

/-- The states of the listed processes between two connections: while a restart goes on and
has brought a process, they may be any. -/
def Phase.States (φ : Phase) (b : Bool) (st : ProcState) : Prop :=
  st.Idle ∨ φ = .restoring ∧ b = true

theorem Phase.states_eq_idle (h : φ = .restoring → b = false) : φ.States b = ProcState.Idle := by
  funext st
  refine propext (or_iff_left ?_)
  rintro ⟨hφ, hb⟩
  exact Bool.false_ne_true ((h hφ).symm.trans hb)

/-- **Between two connections.** -/
def Steady (φ : Phase) (s : CoordInfo) (w : Rounds) : Prop := ∃ b, Within (φ.States b) φ b s w

theorem resting_steady (φ : Phase) : Resting (Steady φ) where
  ok _ _ := fun ⟨_, h⟩ => h.ok
  accepted _ _ := fun ⟨_, h⟩ => h.accepted
  subset s s' w := fun ⟨b, h⟩ hs => ⟨b, (resting_within _ φ b).subset s s' w h hs⟩

/-- A message that is not one of a restart. -/
theorem Within.first (h : Within P φ b s w) {msg : XndMsg} (hm : msg.hdr ≠ .connectRestart) :
    Within P φ b s (w.first msg) where
  ok := h.ok
  accepted := rfl
  phase := h.phase
  restored := by rw [Rounds.first, h.restored, decide_eq_false hm, Bool.or_false]
  states := h.states

theorem roundsWp_coordHandleConnection (h : Within (φ.States b) φ b s w) {msg : XndMsg}
    (hm : w.OrderlyFirst msg) (fuel : Nat) (fd : Int) :
    RoundsWp (coordHandleConnection fuel fd msg) s (w.first msg) fun s' _ w' => Steady φ s' w' := by
  have hrunning : φ.States b .running := .inl (.inl rfl)
  have steady : ∀ s' (_ : Unit) w', Within (φ.States b) φ b s' w' → Steady φ s' w' :=
    fun _ _ _ h => ⟨b, h⟩
  by_cases hr : msg.hdr = .connectRestart
  · have hφ : φ = .restoring := h.phase.symm.trans (hm.1 hr)
    have restored : ∀ st, φ.States true st := fun _ => .inr ⟨hφ, rfl⟩
    have h : Within (φ.States true) φ true s (w.first msg) :=
      ⟨h.ok, rfl, h.phase, by rw [Rounds.first, decide_eq_true hr, Bool.or_true],
        fun n _ => restored n.2.state⟩
    simp only [coordHandleConnection, hr]
    refine Wp.modify_bind (Wp.modify_bind ((keepsRounds_registerProc (restored _) _ _ ?_).mono
      fun s' _ w' h => ⟨true, h⟩))
    split
    · exact h.congr rfl
    · exact h.congr rfl
  have h' := h.first hr
  by_cases hl : msg.hdr = .connectLaunch
  · simp only [coordHandleConnection, hl]
    exact (keepsRounds_coordConnectWithProcessOnLaunch hrunning fd msg s _ h').mono steady
  by_cases hf : msg.hdr = .atforkPrepare
  · simp only [coordHandleConnection, hf]
    exact (keepsRounds_coordAtfork hrunning fd msg s _ h').mono steady
  refine ((resting_within _ φ b).sweeps.coordHandleConnection (fun hc hckpt => ?_)
    (fun p fd => Keeps.modify fun s w h => { h with states := h.states.setProc p fun _ => rfl })
    ⟨hl, hr, hf⟩ s _ h').mono steady
  -- A checkpoint is commanded when no process of the restart has come.
  rw [Phase.states_eq_idle fun hφ => h.restored.symm.trans (hm.2 hc hckpt (h.phase.trans hφ))]
  exact keepsRounds_coordDoCheckpoint fuel

theorem keepsRounds_coordWaitForConnection (fuel : Nat) :
    KeepsRounds (Steady φ) (coordWaitForConnection fuel) := by
  refine Keeps.bind Keeps.get fun s => ?_
  refine Keeps.bind ((resting_steady φ).sweeps.call (.select _) rfl) fun ready => ?_
  match ready with
  | none => exact Keeps.pure ()
  | some [] => exact Keeps.pure ()
  | some (_ :: _) =>
      rintro s w ⟨b, h⟩
      refine (roundsWp_call (c := .accept) h.ok).bind ?_
      rintro s (fd : Option Int) _ ⟨rfl, rfl, -⟩
      cases fd with
      | none => exact Wp.pure ⟨b, h⟩
      | some fd =>
          refine (roundsWp_call (w := { w with accepted := true }) (c := .recv fd) h.ok).bind ?_
          rintro s (msg : Option XndMsg) _ ⟨rfl, rfl, horderly, -⟩
          cases msg with
          | none => exact Wp.halt h.ok
          | some msg =>
              exact roundsWp_coordHandleConnection h (horderly (fd, msg) rfl rfl) fuel fd

/-! ## The main program -/

/-- The program asks for its parent, and a phase begins. -/
theorem roundsWp_parentPid (h : Within P φ b s w) :
    RoundsWp parentPid s w fun s' _ w' => Within P φ.next b s' w' := by
  refine (roundsWp_call h.ok).bind ?_
  rintro s (ppid : Int) _ ⟨rfl, rfl, -⟩
  refine Wp.ite (fun _ => Wp.halt h.ok) fun _ => Wp.pure ?_
  exact { h with phase := by rw [← h.phase]; rfl }

/-- After the restart every process runs. -/
theorem roundsWp_coordDoRestart (h : Within ProcState.Idle .restarting false s w) (fuel : Nat) :
    RoundsWp (coordDoRestart fuel) s w fun s' _ w' =>
      ∃ b, Within ProcState.Idle .restoring b s' w' := by
  have U := (resting_steady .restoring).sweeps
  have conn : ∀ fuel, KeepsRounds (Steady .restoring) (coordWaitForConnection fuel) :=
    fun fuel => keepsRounds_coordWaitForConnection fuel
  refine (roundsWp_parentPid h).bind fun s ppid w h => ?_
  have h : Steady .restoring s w := ⟨false, h.mono fun _ => .inl⟩
  refine (U.awaitProcess conn (by decide) ppid fuel s w h).bind fun s _ w h => ?_
  refine (U.awaitPeers conn ppid fuel s w h).bind fun s _ w h => ?_
  refine (U.coordCollectivePrepare .broadcast fuel s w h).bind fun s total w h => Wp.get_bind ?_
  obtain ⟨b, h⟩ := h
  refine Wp.ite (fun _ => Wp.halt h.ok) fun _ => ?_
  refine (roundsWp_coordReleaseBarrier .postrestart h.forget).bind fun s released w h => ?_
  refine Wp.ite (fun hr => Wp.pure ⟨b, ?_⟩) fun _ => Wp.halt h.1.ok
  exact { h.1 with states := (h.2 hr).mono fun _ => .inl }

/-- The work goes on until the program returns. -/
theorem roundsWp_coordWork (hφ : φ.next = .working) (h : Within ProcState.Idle φ b s w)
    (fuel : Nat) : RoundsWp (coordWork fuel) s w fun _ _ w' => w'.Ok := by
  have U := (resting_steady .working).sweeps
  have conn : ∀ fuel, KeepsRounds (Steady .working) (coordWaitForConnection fuel) :=
    fun fuel => keepsRounds_coordWaitForConnection fuel
  have hidle : ∀ b, Phase.working.States b = ProcState.Idle := fun _ => Phase.states_eq_idle nofun
  have round : ∀ fuel, KeepsRounds (Steady .working) (coordDoCheckpoint fuel) := by
    rintro fuel s w ⟨b, h⟩
    rw [hidle] at h
    refine (keepsRounds_coordDoCheckpoint fuel s w h).mono fun s' _ w' h => ⟨b, ?_⟩
    rw [hidle]
    exact h
  refine (roundsWp_parentPid h).bind fun s ppid w h => ?_
  have h : Steady .working s w := ⟨b, by rw [hidle, ← hφ]; exact h⟩
  refine (U.awaitProcess conn (by decide) ppid fuel s w h).bind fun s _ w h => ?_
  exact (U.workLoop conn round fuel 0 s w h).mono fun s w _ h => (resting_steady _).ok _ _ h

theorem roundsWp_coordMain (restart : Bool) (fuel : Nat) (fd : Int) (uuid : Nat) (interval : Int) :
    RoundsWp (coordMain restart fuel) (coordInit fd uuid interval) (Rounds.init restart)
      fun _ _ w' => w'.Ok := by
  have init : ∀ φ, (Rounds.init restart).phase = φ →
      Within ProcState.Idle φ false (coordInit fd uuid interval) (Rounds.init restart) := fun φ hφ =>
    ⟨nofun, rfl, hφ, rfl, nofun⟩
  cases restart with
  | false => exact roundsWp_coordWork (φ := .launching) rfl (init _ rfl) fuel
  | true =>
      refine (roundsWp_coordDoRestart (init _ rfl) fuel).bind fun s _ w h => ?_
      obtain ⟨b, h⟩ := h
      exact roundsWp_coordWork rfl h fuel

end Steps

/-- **Rounds begin with processes that can be suspended**, in every run whose connections
are orderly and in which no round is abandoned with a request that is not answered. -/
theorem coordMain_entered (restart : Bool) (fuel : Nat) (fd : Int) (uuid : Nat) (interval : Int)
    {p : Prog CoordCall.Answer CoordInfo CoordStop Unit} {w : Rounds}
    (h : roundsWorld.Reach (coordMain restart fuel (coordInit fd uuid interval))
      (Rounds.init restart) (p, w)) :
    ∀ s ∈ w.entered, ∀ n ∈ s.procs, n.2.state = .running ∨ n.2.state = .readyForCkpt := by
  have hp := Env.reach_of_wp_account (roundsWp_coordMain restart fuel fd uuid interval) h
  cases p with
  | ret s a => exact hp
  | halt s e => exact hp
  | call s c k => exact hp

/-- A command to checkpoint, on the descriptor 6. -/
def commandEvents : Trace :=
  [⟨.select [4], some [4]⟩, ⟨.accept, some 6⟩,
    ⟨.recv 6, some { hdr := .command, cmd := .ckptCmd }⟩, ⟨.sigprocmask true, ()⟩]

theorem coordMain_entered_launchTrace : ∃ p w,
    roundsWorld.Reach (coordMain false 3 (coordInit 4 7 0)) (Rounds.init false) (p, w) ∧
      w.entered.map (·.procs.map (·.2.realPid)) = [[101]] ∧
        ∀ s ∈ w.entered, ∀ n ∈ s.procs, n.2.state = .running ∨ n.2.state = .readyForCkpt := by
  obtain ⟨⟨p, w⟩, hfollow, hentered⟩ := (Env.account Rounds.follow).exists_follow Orderly
    (coordMain false 3 (coordInit 4 7 0), Rounds.init false)
    (Env.replies (launchTrace ++ commandEvents))
    (fun c => c.2.entered.map (·.procs.map (·.2.realPid)) = [[101]]) rfl
  have hreach := Env.reach_of_follow hfollow
  exact ⟨p, w, hreach, hentered, coordMain_entered false 3 4 7 0 hreach⟩

/-- One of two processes of a restart has connected. -/
def peerTrace : Trace :=
  [⟨.getppid, (50 : Int)⟩, ⟨.select [4], some [4]⟩, ⟨.accept, some 5⟩,
    ⟨.recv 5, some
      { hdr := .connectRestart, realPid := 101, realPpid := 100, virtPid := 2, virtPpid := 1,
        xndPid := 1001, xndPpid := 1000, xndPgid := 1001, numPeers := 2 }⟩,
    ⟨.send 5
      { hdr := .coordAck, realPid := 101, realPpid := 100, virtPid := 2, virtPpid := 1,
        xndPid := 1001, xndPpid := 1000, xndPgid := 1001 }, true⟩]

/-- A command that arrives while the restart waits for the other process. -/
theorem not_coordMain_entered :
    ¬ ∀ restart fuel fd uuid interval p w,
      ((Env.account Rounds.follow).world fun _ _ _ _ => True).Reach
        (coordMain restart fuel (coordInit fd uuid interval)) (Rounds.init restart) (p, w) →
      ∀ s ∈ w.entered, ∀ n ∈ s.procs, n.2.state = .running ∨ n.2.state = .readyForCkpt := by
  intro H
  obtain ⟨⟨p, w⟩, hfollow, hstate⟩ := (Env.account Rounds.follow).exists_follow
    (fun _ _ _ _ => True) (coordMain true 3 (coordInit 4 7 0), Rounds.init true)
    (Env.replies (peerTrace ++ commandEvents))
    (fun c => ∃ s ∈ c.2.entered, ∃ n ∈ s.procs, n.2.state = .restartInProgress) rfl
  obtain ⟨s, hs, n, hn, hst⟩ := hstate
  have hall := H true 3 4 7 0 p w (Env.reach_of_follow hfollow) s hs n hn
  rw [hst] at hall
  exact hall.elim nofun nofun

end Xnd.Coord
