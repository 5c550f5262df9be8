import Xnd.Coord.Frame
import Xnd.Lib.Env

/-!
# Registrations that are cut off

A process registers on a new connection: it sends a first message, and the coordinator
answers with a handshake; for a fork there are two messages in between.  The exchange
is cut off when a message does not arrive whole or cannot be sent.

The coordinator survives a peer that fails when it is served (`coord_wait_for_msg`), but
not one that fails while it registers: every cut ends the coordinator
(`cut_registration`).  Nothing has been listed and nothing is in the table by then.
-/
namespace Xnd.Coord
open Code

/-- What is known of an exchange. -/
structure Exchange where
  /-- The header of the first message. -/
  first : Option XndMsghdr
  /-- A message did not arrive whole or was not sent. -/
  cut : Bool
  deriving DecidableEq, Repr

namespace Exchange

/-- What an answer adds. -/
def follow (w : Exchange) : (c : CoordCall) → c.Answer → Exchange
  | .recv _, (none : Option XndMsg) => { w with cut := true }
  | .recv _, some msg => { w with first := w.first.or (some msg.hdr) }
  | .send _ _, (sent : Bool) => { w with cut := w.cut || !sent }
  | _, _ => w

/-- The exchange is a registration, as far as it has come. -/
def Registers (w : Exchange) : Prop :=
  ∀ hdr ∈ w.first, hdr = .connectLaunch ∨ hdr = .connectRestart ∨ hdr = .atforkPrepare

/-- An exchange that is not one of a registration does not become one. -/
theorem registers_follow {w : Exchange} {c : CoordCall} {r : c.Answer}
    (h : (w.follow c r).Registers) : w.Registers := by
  unfold follow at h
  split at h
  · exact h
  · intro hdr hhdr
    exact h hdr (by simp [Option.mem_def.mp hhdr])
  · exact h
  · exact h

end Exchange

/-- The environment answers anything. -/
abbrev exchangeWorld : World CoordCall.Answer CoordInfo Exchange :=
  (Env.account fun _ => Exchange.follow).world fun _ _ _ _ => True

/-- `coord_exit(COORD_EXIT_FAILURE)`, or the assertion over the first message. -/
def CoordStop.Failure (e : CoordStop) : Prop :=
  e = .assertion .connectionReceived ∨ ∃ error, e = .exitFailure error

/-- The same table and the same processes, up to the descriptor of one that
registers again. -/
structure SameLists (s s' : CoordInfo) : Prop where
  table : s'.table = s.table
  procs : s'.procs.map (fun n => (n.1, { n.2 with fd := -1 })) =
    s.procs.map fun n => (n.1, { n.2 with fd := -1 })

namespace SameLists
variable {s s' : CoordInfo}

theorem refl (s : CoordInfo) : SameLists s s := ⟨rfl, rfl⟩

theorem congr (h : SameLists s s') {s'' : CoordInfo} (ht : s''.table = s'.table)
    (hp : s''.procs = s'.procs) : SameLists s s'' :=
  ⟨ht.trans h.table, by rw [hp]; exact h.procs⟩

theorem setFd (h : SameLists s s') (p : Nat) (fd : Int) :
    SameLists s (s'.setProc p fun a => { a with fd := fd }) := by
  refine ⟨h.table, Eq.trans ?_ h.procs⟩
  rw [CoordInfo.setProc, List.map_map]
  refine List.map_congr_left fun n _ => ?_
  by_cases hn : n.1 = p <;> simp [hn]

end SameLists

/-! ## Code in an exchange -/

section Cut
variable (s₀ : CoordInfo)

/-- Whenever a call is made, a registration has not been cut off. -/
def Uncut (_ : CoordInfo) (w : Exchange) : Prop := w.Registers → w.cut = false

/-- How a registration that has been cut off ends. -/
def CutEnds (s : CoordInfo) (e : CoordStop) (w : Exchange) : Prop :=
  w.Registers → w.cut = true → e.Failure ∧ SameLists s₀ s

/-- The exchange goes on after its first message, and the lists are as they were. -/
structure Goes (s : CoordInfo) (w : Exchange) : Prop where
  uncut : Uncut s w
  lists : SameLists s₀ s
  first : w.first.isSome

abbrev CutWp {α : Type} (m : InfoM α) (s : CoordInfo) (w : Exchange)
    (fin : CoordInfo → α → Exchange → Prop) : Prop :=
  Wp exchangeWorld Uncut (CutEnds s₀) m s w fin

variable {s₀} {s : CoordInfo} {w : Exchange}

theorem Goes.congr (h : Goes s₀ s w) {s' : CoordInfo} (ht : s'.table = s.table)
    (hp : s'.procs = s.procs) : Goes s₀ s' w :=
  ⟨h.uncut, h.lists.congr ht hp, h.first⟩

/-- Whatever is not a registration. -/
theorem cutWp_other {α : Type} (m : InfoM α) (h : ¬w.Registers) :
    CutWp s₀ m s w fun s _ w => Uncut s w := by
  suffices H : ∀ (p : Prog CoordCall.Answer CoordInfo CoordStop α) (w : Exchange), ¬w.Registers →
      p.Holds exchangeWorld Uncut (CutEnds s₀) (fun s _ w => Uncut s w) w from H _ _ h
  intro p
  induction p with
  | ret => exact fun w h hreg => absurd hreg h
  | call s c k ih =>
      refine fun w h => Prog.Holds.call (fun w => ¬w.Registers)
        (fun _ _ _ hm => (Env.not_moves_account hm).elim) h (fun w h hreg => absurd hreg h) ?_
      rintro w r w' h ⟨-, hw'⟩
      rw [List.mem_singleton.mp hw']
      exact ih r _ fun hreg => h (Exchange.registers_follow hreg)
  | halt => exact fun w h hreg => absurd hreg h

/-- A call, with what its answer adds. -/
theorem cutWp_call {c : CoordCall} (h : Goes s₀ s w) :
    CutWp s₀ (Code.call c) s w fun s' r w' => s' = s ∧ w' = w.follow c r :=
  (Env.wp_call_account h.uncut).mono fun _ _ _ h => ⟨h.1, h.2.1⟩

/-- A message that cannot be sent ends the coordinator. -/
theorem cutWp_send {α : Type} {fd : Int} {msg : XndMsg} {f : Bool → InfoM α} {error : CoordError}
    {fin : CoordInfo → α → Exchange → Prop} (h : Goes s₀ s w)
    (hfail : f false = Code.halt (.exitFailure error)) (hf : CutWp s₀ (f true) s w fin) :
    CutWp s₀ (coordSendMsg fd msg >>= f) s w fin := by
  refine Wp.bind (cutWp_call h) ?_
  rintro s (sent : Bool) w' ⟨rfl, rfl⟩
  cases sent with
  | true =>
      have hw : w.follow (.send fd msg) true = w := by simp [Exchange.follow]
      rw [hw]
      exact hf
  | false =>
      rw [hfail]
      exact Wp.halt fun _ _ => ⟨.inr ⟨_, rfl⟩, h.lists⟩

theorem cutWp_coordSendHandshake (a : Proc) (h : Goes s₀ s w) :
    CutWp s₀ (coordSendHandshake a) s w fun s _ w => Goes s₀ s w :=
  Wp.get_bind (cutWp_send h rfl (Wp.pure h))

/-- After the handshake nothing is cut off. -/
theorem cutWp_registerProc (a : Proc) (h : Goes s₀ s w) :
    CutWp s₀ (registerProc a) s w fun s _ w => Uncut s w :=
  (cutWp_coordSendHandshake a h).bind fun _ _ _ h => Wp.modify_bind (Wp.modify h.uncut)

theorem cutWp_coordNextVirtPid (h : Goes s₀ s w) :
    CutWp s₀ coordNextVirtPid s w fun s _ w => Goes s₀ s w := by
  refine Wp.get_bind (Wp.modify_bind (Wp.get_bind (Wp.ite (fun _ => Wp.halt ?_) fun _ => ?_)))
  · exact fun _ _ => ⟨.inr ⟨_, rfl⟩, h.lists.congr rfl rfl⟩
  · exact Wp.pure (h.congr rfl rfl)

theorem cutWp_coordNextXndPid (h : Goes s₀ s w) :
    CutWp s₀ coordNextXndPid s w fun s _ w => Goes s₀ s w :=
  Wp.get_bind (Wp.modify_bind (Wp.pure (h.congr rfl rfl)))

/-- An end that is no consequence of a cut. -/
theorem cutWp_halt {α : Type} {e : CoordStop} {fin : CoordInfo → α → Exchange → Prop}
    (h : Goes s₀ s w) : CutWp s₀ (Code.halt e : InfoM α) s w fin :=
  Wp.halt fun hreg hcut => absurd (h.uncut hreg) (by simp [hcut])

theorem cutWp_xndAssert (failed : CoordAssertion) (b : Prop) [Decidable b] (h : Goes s₀ s w) :
    CutWp s₀ (xndAssert failed b) s w fun s _ w => Goes s₀ s w :=
  Wp.ite (fun _ => Wp.pure h) fun _ => cutWp_halt h

theorem cutWp_launchIds (fd : Int) (msg : XndMsg) (h : Goes s₀ s w) :
    CutWp s₀ (launchIds fd msg) s w fun s _ w => Goes s₀ s w := by
  refine Wp.get_bind (Wp.ite (fun _ => ?_) fun _ => ?_)
  · cases s.find (·.realPid = msg.realPpid) with
    | none => exact cutWp_halt h
    | some n =>
        refine (cutWp_coordNextVirtPid h).bind fun _ _ _ h => ?_
        exact (cutWp_coordNextXndPid h).bind fun _ _ _ h => Wp.pure h
  · refine (cutWp_coordNextVirtPid h).bind fun _ _ _ h => ?_
    refine (cutWp_coordNextVirtPid h).bind fun _ _ _ h => ?_
    refine (cutWp_coordNextXndPid h).bind fun _ _ _ h => ?_
    exact (cutWp_coordNextXndPid h).bind fun _ _ _ h => Wp.pure h

theorem cutWp_coordConnectWithProcessOnLaunch (fd : Int) (msg : XndMsg) (h : Goes s₀ s w) :
    CutWp s₀ (coordConnectWithProcessOnLaunch fd msg) s w fun s _ w => Uncut s w := by
  refine Wp.get_bind (Wp.ite (fun _ => ?_) fun _ => ?_)
  · cases s.find (·.realPid = msg.realPid) with
    | none => exact cutWp_halt h
    | some n =>
        refine (cutWp_call (c := .close n.2.fd) h).bind ?_
        rintro s _ w' ⟨rfl, rfl⟩
        refine Wp.modify_bind ((cutWp_coordSendHandshake _ ?_).mono fun _ _ _ h => h.uncut)
        exact ⟨h.uncut, h.lists.setFd _ _, h.first⟩
  · refine (cutWp_xndAssert _ _ h).bind fun _ _ _ h => ?_
    exact (cutWp_launchIds fd msg h).bind fun _ _ _ h => cutWp_registerProc _ h

theorem cutWp_coordConnectWithProcessOnRestart (fd : Int) (msg : XndMsg) (h : Goes s₀ s w) :
    CutWp s₀ (coordConnectWithProcessOnRestart fd msg) s w fun s _ w => Uncut s w :=
  Wp.modify_bind (cutWp_registerProc _ (h.congr rfl rfl))

/-- A later message that does not arrive ends the coordinator. -/
theorem cutWp_recv {α : Type} {fd : Int} {f : Option XndMsg → InfoM α} {error : CoordError}
    {fin : CoordInfo → α → Exchange → Prop} (h : Goes s₀ s w)
    (hfail : f none = Code.halt (.exitFailure error))
    (hf : ∀ msg, CutWp s₀ (f (some msg)) s w fin) :
    CutWp s₀ (coordRecvMsg fd >>= f) s w fin := by
  refine Wp.bind (cutWp_call h) ?_
  rintro s (r : Option XndMsg) w' ⟨rfl, rfl⟩
  cases r with
  | none =>
      rw [hfail]
      exact Wp.halt fun _ _ => ⟨.inr ⟨_, rfl⟩, h.lists⟩
  | some msg =>
      obtain ⟨hdr, hhdr⟩ := Option.isSome_iff_exists.mp h.first
      have hw : w.follow (.recv fd) (some msg) = w := by
        obtain ⟨first, cut⟩ := w
        obtain rfl : first = some hdr := hhdr
        rfl
      rw [hw]
      exact hf msg

theorem cutWp_coordAtfork (fd : Int) (msg : XndMsg) (h : Goes s₀ s w) :
    CutWp s₀ (coordAtfork fd msg) s w fun s _ w => Uncut s w := by
  refine (cutWp_coordNextVirtPid h).bind fun _ _ _ h => ?_
  refine (cutWp_coordNextXndPid h).bind fun _ _ _ h => cutWp_send h rfl ?_
  refine Wp.ite (fun _ => Wp.get_bind ?_) fun hne => absurd rfl hne
  cases CoordInfo.find _ (·.virtPid = msg.virtPpid) with
  | none => exact cutWp_halt h
  | some n =>
      refine cutWp_recv h rfl fun childMsg => ?_
      refine (cutWp_xndAssert _ _ h).bind fun _ _ _ h => ?_
      exact (cutWp_xndAssert _ _ h).bind fun _ _ _ h => cutWp_registerProc _ h

theorem cutWp_coordHandleConnection (fuel : Nat) (fd : Int) (msg : XndMsg)
    (hw : w.first = some msg.hdr) (h : Goes s₀ s w) :
    CutWp s₀ (coordHandleConnection fuel fd msg) s w fun s _ w => Uncut s w := by
  by_cases hreg : w.Registers
  · rw [coordHandleConnection]
    rcases hreg msg.hdr hw with hhdr | hhdr | hhdr
    · rw [hhdr]
      exact cutWp_coordConnectWithProcessOnLaunch fd msg h
    · rw [hhdr]
      refine Wp.modify_bind (cutWp_coordConnectWithProcessOnRestart fd msg (h.congr ?_ ?_))
      · split
        · rfl
        · rfl
      · split
        · rfl
        · rfl
    · rw [hhdr]
      exact cutWp_coordAtfork fd msg h
  · exact cutWp_other _ hreg

end Cut

/-- An exchange that has not begun. -/
def Exchange.idle : Exchange := ⟨none, false⟩

theorem cutWp_coordWaitForConnection (s : CoordInfo) (fuel : Nat) :
    CutWp s (coordWaitForConnection fuel) s .idle fun s _ w => Uncut s w := by
  have ask : ∀ (c : CoordCall), CutWp s (Code.call c) s .idle fun s' r w' =>
      s' = s ∧ w' = Exchange.idle.follow c r := fun c =>
    (Env.wp_call_account fun _ => rfl).mono fun _ _ _ h => ⟨h.1, h.2.1⟩
  refine Wp.get_bind ((ask (.select _)).bind ?_)
  rintro _ ready _ ⟨rfl, rfl⟩
  match ready with
  | none => exact Wp.pure fun _ => rfl
  | some [] => exact Wp.pure fun _ => rfl
  | some (_ :: _) =>
      refine (ask .accept).bind ?_
      rintro s (r : Option Int) _ ⟨rfl, rfl⟩
      cases r with
      | none => exact Wp.pure fun _ => rfl
      | some fd =>
          refine (ask (.recv fd)).bind ?_
          rintro s (r : Option XndMsg) _ ⟨rfl, rfl⟩
          cases r with
          | none => exact Wp.halt fun _ _ => ⟨.inl rfl, .refl s⟩
          | some msg => exact cutWp_coordHandleConnection fuel fd msg rfl ⟨fun _ => rfl, .refl s, rfl⟩

/-- A coordinator with one process. -/
def onePeer : CoordInfo :=
  (coordInit 3 0 0).push { fd := 5, oobFd := -1, xndPid := 1001, xndPpid := 1000, xndPgid := 1001,
                           virtPid := 2, realPid := 100, virtPpid := 1, realPpid := 50,
                           isRootOfTree := false, state := .running }

/-- A process connects and sends its launch message, and is gone before the handshake. -/
def launchCut : Trace :=
  [⟨.select [3], some [3]⟩, ⟨.accept, some 9⟩,
    ⟨.recv 9, some { hdr := .connectLaunch, realPid := 7, realPpid := 1 }⟩,
    ⟨.send 9
      { hdr := .coordAck, realPid := 7, realPpid := 1, virtPid := 2, virtPpid := 1, xndPid := 1001,
        xndPpid := 1000, xndPgid := 1001 }, false⟩]

theorem reach_launchCut : ∃ s, exchangeWorld.Reach (coordWaitForConnection 1 onePeer) .idle
    (.halt s (.exitFailure .handshake), ⟨some .connectLaunch, true⟩) :=
  ⟨_, Env.reach_of_replies launchCut rfl⟩

end Xnd.Coord
