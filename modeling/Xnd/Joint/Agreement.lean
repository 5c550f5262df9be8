import Xnd.Joint.Registration

/-!
# The coordinator and the checkpoint threads agree

A restart ends with every process released from the last barrier, the main loop keeps the processes
at rest between rounds, and from these parts the invariant holds along every run of
`coord_main` (`coordMain_agrees`).  What is taken for granted is needed: a process that executes
another image while an abandoned round has left it at the barrier is listed as ready, and the next
round sends `XND_CKPT_START` to a thread that waits for a request (`not_coordMain_agrees`).
-/
namespace Xnd.Joint
open Coord Code

namespace Conn
variable {c : Conn} {m : XndMsg}

/-- The first message of a client of which no user thread runs. -/
theorem Greets.parked (h : c.Greets m) (hp : c.Parked) :
    m.hdr = .connectLaunch ∨ m.hdr = .connectRestart ∨ m.hdr = .command := by
  rw [Parked] at hp
  obtain ⟨hside, -⟩ | ⟨-, -, hm⟩ | ⟨hside, -⟩ | ⟨-, hm⟩ := h.unanswered.first h.first
  · rw [hside] at hp
    exact hp.elim
  · exact hm.imp_right .inl
  · rw [hside] at hp
    exact hp.elim
  · exact .inr (.inr hm)

end Conn

namespace Net
variable {s s' : CoordInfo} {w w' : Net} {W W' : Net × Watch} {x : Option Int} {φ : Phase}
  {P Q : ProcState → Prop} {p : Nat} {a : Proc} {fd : Int} {K : Net → Prop}

/-! ## A restart -/

/-- While processes of a restart connect: those that are listed wait at the barrier, and have gone on
to the next epoch. -/
structure Restoring (s : CoordInfo) (W : Net × Watch) : Prop where
  held : Held none .restoring (· = .restartInProgress) s W
  parked : Parked W.1
  peers : if s.procs = [] then s.epoch = 0 ∧ s.numPeers = 0 else s.epoch ≠ 0

/-- A process that is launched comes first: no number of processes is waited for. -/
structure Forestalled (s : CoordInfo) (W : Net × Watch) : Prop where
  held : Rested .restoring s W
  listed : s.procs ≠ []
  peers : s.numPeers = 0

abbrev Restarting (s : CoordInfo) (W : Net × Watch) : Prop := Restoring s W ∨ Forestalled s W

theorem Arrived.mono {msg : XndMsg} (h : Arrived φ P fd msg s W) (hPQ : ∀ st, P st → Q st) :
    Arrived φ Q fd msg s W := { h with held := h.held.mono hPQ }

/-- What comes is a process that is launched or restarted. -/
theorem Arrived.parked {msg : XndMsg} (h : Arrived φ P fd msg s W) (hparked : Parked W.1) :
    msg.hdr = .connectLaunch ∨ msg.hdr = .connectRestart ∨ msg.hdr = .command := by
  obtain ⟨c, hc, hg⟩ := h.on
  exact hg.parked (hparked c (h.held.lock.wired.bound fd c hc))

/-- **A connection while a restart goes on.** -/
theorem stepWp_coordHandleConnection_restoring {msg : XndMsg}
    (h : Arrived .restoring (· = .restartInProgress) fd msg s W) (hparked : Parked W.1)
    (hpeers : if s.procs = [] then s.epoch = 0 ∧ s.numPeers = 0 else s.epoch ≠ 0) (fuel : Nat) :
    StepWp (coordHandleConnection fuel fd msg) s W fun s' _ W' => Restarting s' W' := by
  unfold coordHandleConnection
  rcases h.parked hparked with hm | hm | hm
  · rw [hm]
    have hidle : Arrived .restoring (¬ Busy ·) fd msg s W := h.mono fun st hst => by
      subst hst
      decide
    refine (stepWp_coordConnectWithProcessOnLaunch hidle hm).mono ?_
    rintro s' _ W' ⟨hheld, hne, hsame, hepoch | ⟨n, hn, hrun⟩⟩
    · refine .inr ⟨hheld, hne, hsame.trans ?_⟩
      split at hpeers
      · exact hpeers.2
      · exact absurd hepoch hpeers
    · cases hrun.symm.trans (h.held.states n hn)
  · rw [hm]
    -- The first process brings the epoch.
    have hfirst : ∃ s₁ : CoordInfo, s₁ = (if s.procs.length = 0 then
        { s with epoch := msg.epoch, numPeers := msg.numPeers, ckptInterval := msg.ckptInterval,
                 xndUuid := msg.xndUuid } else s) ∧
        Arrived .restoring (· = .restartInProgress) fd msg s₁ W ∧ s₁.epoch ≠ 0 := by
      refine ⟨_, rfl, ?_⟩
      split
      · exact ⟨⟨h.held.congr rfl rfl, h.fresh, h.on, h.granted, h.rejoins⟩, h.granted.2 hm⟩
      next hlength =>
        rw [if_neg fun he => hlength (List.length_eq_zero_iff.mpr he)] at hpeers
        exact ⟨h, hpeers⟩
    obtain ⟨s₁, hs₁, hfirst, hepoch⟩ := hfirst
    refine Wp.modify_bind ?_
    rw [← hs₁]
    refine (stepWp_coordConnectWithProcessOnRestart lasting_parked hfirst hparked hm rfl ?_ ?_).mono ?_
    · rintro _ rfl
      exact ProcState.noConfusion
    · intro w c msg hk hj d hd
      rw [conns_onConn]
      split
      · exact Conn.Parked.send hj
      · exact hk d hd
    · rintro s' _ W' ⟨hheld, hk, hne, he, -⟩
      exact .inl ⟨hheld, hk, by rw [if_neg hne, he]; exact hepoch⟩
  · exact absurd hm (h.granted.1 rfl)

theorem stepWp_coordWaitForConnection_restoring (h : Restoring s W) (fuel : Nat) :
    StepWp (coordWaitForConnection fuel) s W fun s' _ W' => Restarting s' W' :=
  stepWp_coordWaitForConnection lasting_parked h.held h.parked
    (fun _ hheld hparked => .inl ⟨hheld, hparked, h.peers⟩) fuel
    fun _ _ _ harrived hparked => stepWp_coordHandleConnection_restoring harrived hparked h.peers fuel

theorem stepWp_probe_restoring (h : Restoring s W) (pid : Int) :
    StepWp (sysProbe pid : InfoM Bool) s W fun s' _ W' => Restoring s' W' := by
  refine Wp.mono (stepWp_callLasting lasting_parked h.held h.parked ?_ ?_ ?_ ?_) ?_
  · exact CoordCall.noConfusion
  · exact fun _ => CoordCall.noConfusion
  · exact fun _ _ => CoordCall.noConfusion
  · exact CoordCall.noConfusion
  · rintro s _ W' ⟨rfl, hheld, hparked⟩
    exact ⟨hheld, hparked, h.peers⟩

/-- The first process connects. -/
theorem stepWp_awaitProcess {bailed : CoordError} (h : Restoring s W) (ppid : Int) (fuel : Nat) :
    StepWp (awaitProcess bailed ppid fuel) s W fun s' _ W' => Restarting s' W' := by
  induction fuel generalizing s W with
  | zero => exact Wp.halt (by decide)
  | succ fuel ih =>
      refine (stepWp_coordWaitForConnection_restoring h fuel).bind fun s _ W h => Wp.get_bind ?_
      refine Wp.ite (fun _ => Wp.pure h) fun hlength => ?_
      have hnil : s.procs = [] := List.length_eq_zero_iff.mp (Decidable.not_not.mp hlength)
      have h : Restoring s W := h.resolve_right fun hf => hf.listed hnil
      refine (stepWp_probe_restoring h ppid).bind fun s gone W h => ?_
      exact Wp.ite (fun _ => Wp.halt CoordStop.noConfusion) fun _ => ih h

/-- The others connect, when there was none that was launched. -/
theorem stepWp_awaitPeers (h : Restarting s W) (ppid : Int) (fuel : Nat) :
    StepWp (awaitPeers ppid fuel) s W fun s' _ W' => Restarting s' W' := by
  induction fuel generalizing s W with
  | zero => exact Wp.halt (by decide)
  | succ fuel ih =>
      refine Wp.get_bind (Wp.ite (fun hlt => ?_) fun _ => Wp.pure h)
      have h : Restoring s W := h.resolve_right fun hf => by
        rw [hf.peers] at hlt
        exact Nat.not_lt_zero _ hlt
      refine (stepWp_coordWaitForConnection_restoring h fuel).bind fun s _ W h => Wp.get_bind ?_
      refine Wp.ite (fun _ => Wp.pure h) fun _ => ?_
      rcases h with h | h
      · refine (stepWp_probe_restoring h ppid).bind fun s gone W h => ?_
        exact Wp.ite (fun _ => Wp.halt (by decide)) fun _ => ih (.inl h)
      · -- The list is not empty and no process is waited for: the loop ends.
        refine ((routine_held none .restoring _).probe ppid s W h.held).and_rets
          (P := fun s' _ => s' = s) (Rets.call fun _ => rfl) |>.bind ?_
        rintro s' gone W' ⟨hheld, rfl⟩
        exact Wp.ite (fun _ => Wp.halt (by decide)) fun _ => ih (.inr ⟨hheld, h.listed, h.peers⟩)

/-- The program asks for its parent, and a phase begins. -/
theorem stepWp_parentPid (hK : Lasting K) (h : Held x φ P s W) (hk : K W.1) :
    StepWp parentPid s W fun s' _ W' => s' = s ∧ Held x φ.next P s W' ∧ K W'.1 := by
  refine Wp.bind (M := fun s' (_ : Int) W' => s' = s ∧ Held x φ.next P s W' ∧ K W'.1)
    (stepWp_callWith K (fun _ _ _ hw hk hm => hK.move hw.owned hk hm) h hk fun w r w' hw hk _ hr =>
      ⟨rfl, ⟨?_, congrArg Phase.next h.phase, h.states⟩, hK.respond ?_ hk hr⟩) ?_
  · refine hw.respond ?_ ?_ ?_ hr
    · exact CoordCall.noConfusion
    · exact fun _ => CoordCall.noConfusion
    · exact fun _ _ => CoordCall.noConfusion
  · exact fun _ _ => CoordCall.noConfusion
  · rintro s ppid W' ⟨rfl, h⟩
    exact Wp.ite (fun _ => Wp.halt (by decide)) fun _ => Wp.pure ⟨rfl, h⟩

/-- **A restart** ends with processes that run. -/
theorem stepWp_coordDoRestart (h : Held none .restarting (· = .restartInProgress) s W)
    (hparked : Parked W.1) (hnil : s.procs = []) (hzero : s.epoch = 0 ∧ s.numPeers = 0) (fuel : Nat) :
    StepWp (coordDoRestart fuel) s W fun s' _ W' => Held none .restoring (· = .running) s' W' := by
  refine (stepWp_parentPid lasting_parked h hparked).bind ?_
  rintro s ppid W ⟨rfl, h, hparked⟩
  have h : Restoring s W := ⟨h, hparked, by rw [if_pos hnil]; exact hzero⟩
  refine (stepWp_awaitProcess h ppid fuel).bind fun s _ W h => ?_
  refine (stepWp_awaitPeers h ppid fuel).bind fun s _ W h => ?_
  -- A sweep that leaves as many processes as were waited for leaves restarted ones.
  refine Wp.bind (M := fun s' total W' => total = s'.numPeers →
    Held none .restoring (· = .restartInProgress) s' W') ?_ fun s total W h => Wp.get_bind ?_
  · rcases h with h | h
    · exact (stepWp_coordCollectivePrepare h.held .broadcast fuel).mono fun _ _ _ h _ => h.1
    · refine ((stepWp_coordCollectivePrepare h.held .broadcast fuel).and_rets
        (rets_coordCollectivePrepare h.held.lock.list.toListOk .broadcast fuel)).mono ?_
      rintro s' total W' ⟨⟨hheld, htotal⟩, hs, -⟩ he
      have hnil : s'.procs = [] := by
        rw [hs.numPeers, h.peers, htotal] at he
        exact List.length_eq_zero_iff.mp he
      refine { hheld with states := fun n hn => ?_ }
      rw [hnil] at hn
      cases hn
  · refine Wp.ite (fun _ => Wp.halt (by decide)) fun he => ?_
    refine (stepWp_coordReleaseBarrier .postrestart (h (Decidable.not_not.mp he))).bind ?_
    rintro s released W ⟨h, hall⟩
    exact Wp.ite (fun hr => Wp.pure { h with states := hall hr }) fun _ => Wp.halt (by decide)

/-! ## The main program -/

/-- The work goes on until the program returns. -/
theorem stepWp_coordWork (h : Rested φ s W) (fuel : Nat) :
    StepWp (coordWork fuel) s W fun s' _ W' => Rested φ.next s' W' := by
  have U := routine_held none φ.next (¬ Busy ·)
  refine (stepWp_parentPid lasting_true h trivial).bind ?_
  rintro s ppid W ⟨rfl, h, -⟩
  refine (U.awaitProcess keepsStep_coordWaitForConnection rfl ppid fuel s W h).bind fun s _ W h => ?_
  exact U.workLoop (U.filterTurn keepsStep_listRemove) keepsStep_serveProc
    keepsStep_coordWaitForConnection keepsStep_coordDoCheckpoint fuel 0 s W h

theorem stepWp_coordMain (restart : Bool) (fuel : Nat) (listenFd : Int) (uuid : Nat)
    (ckptInterval : Int) : StepWp (coordMain restart fuel) (coordInit listenFd uuid ckptInterval)
      (init, Watch.init restart) fun _ _ _ => True := by
  have hinit : Lockstep none (coordInit listenFd uuid ckptInterval) init := by
    have hlist : Staged (coordInit listenFd uuid ckptInterval) :=
      ⟨listOk_coordInit _ _ _, fun _ => List.forall_mem_nil _⟩
    refine ⟨hlist, owned_init, wired_init, ?_, ?_, ?_, ?_, ?_⟩
    · intro fd c hc
      cases hc
    · exact List.forall_mem_nil _
    · exact fun c hc => absurd hc (Nat.not_lt_zero c)
    · exact List.forall_mem_nil _
    · intro fd hfd
      cases hfd
  have held : ∀ {φ P}, (Watch.init restart).phase = φ →
      Held none φ P (coordInit listenFd uuid ckptInterval) (init, Watch.init restart) :=
    fun hφ => ⟨hinit, hφ, List.forall_mem_nil _⟩
  cases restart with
  | false => exact (stepWp_coordWork (held rfl) fuel).mono fun _ _ _ _ => trivial
  | true =>
      have hparked : Parked init := fun c hc => absurd hc (Nat.not_lt_zero c)
      refine (stepWp_coordDoRestart (held rfl) hparked rfl ⟨rfl, rfl⟩ fuel).bind fun s _ W h => ?_
      refine (stepWp_coordWork (h.mono fun st hst => ?_) fuel).mono fun _ _ _ _ => trivial
      subst hst
      decide

/-- What is true while the coordinator runs, and how it does not halt. -/
def Agreeing : Prog CoordCall.Answer CoordInfo CoordStop Unit → Net → Prop
  | .call s _ _, w => Agree s w
  | .halt _ e, _ => e ≠ .assertion .procState
  | .ret _ _, _ => True

/-- **The two state machines agree in every run**: with launches, forks, other images, a restart and
rounds, abandoned ones among them, the thread of every process is in step with its state, every
message that comes to a thread is one that it expects, and the states that `coord_release_barrier`
and `coord_wait_for_ckpt_completions` assert are those of the processes. -/
theorem coordMain_agrees (restart : Bool) (fuel : Nat) (listenFd : Int) (uuid : Nat)
    (ckptInterval : Int) {p : Prog CoordCall.Answer CoordInfo CoordStop Unit}
    (h : conforming.Reach (coordMain restart fuel (coordInit listenFd uuid ckptInterval))
      (init, Watch.init restart) (p, W)) : Agreeing p W.1 := by
  obtain ⟨W₁, hmoves, hp⟩ :=
    Prog.Holds.reach (stepWp_coordMain restart fuel listenFd uuid ckptInterval) h
  cases p with
  | ret => trivial
  | call s c k => exact (hp W hmoves).1
  | halt s e => exact hp

/-- The round is abandoned with the process ready. -/
def abandoned : List (Turn CoordCall.Answer Move) :=
  [.move (.thread 0 ofLaunch), .reply ⟨.recv 5, some { ofLaunch with hdr := .ckptReady }⟩ 0,
   .reply ⟨.probe 101, false⟩ 0, .reply ⟨.ckptdirCreate 0 0, false⟩ 0,
   .reply ⟨.ckptdirUnlink 0 0, true⟩ 0, .reply ⟨.sigprocmask false, ()⟩ 0,
   .reply ⟨.send 6 { hdr := .coordAck }, true⟩ 0, .reply ⟨.close 6, ()⟩ 0,
   .reply ⟨.select [5], none⟩ 0, .reply ⟨.probe 101, false⟩ 0]

/-- Another round begins, with the process on this descriptor. -/
def commandedAgain (fd : Int) : List (Turn CoordCall.Answer Move) :=
  [.move (.command { hdr := .exit, cmd := .ckptCmd }),
   .reply ⟨.select [3], some [3]⟩ 0, .reply ⟨.accept, some (8 : Int)⟩ 0,
   .reply ⟨.recv 8, some { hdr := .command, cmd := .ckptCmd }⟩ 0,
   .reply ⟨.sigprocmask true, ()⟩ 0, .reply ⟨.probe 101, false⟩ 0,
   .reply ⟨.selectWrite [fd], some [fd]⟩ 0, .reply ⟨.probe 101, false⟩ 0,
   .reply ⟨.ckptdirCreate 0 0, true⟩ 0, .reply ⟨.probe 101, false⟩ 0,
   .reply ⟨.selectWrite [fd], some [fd]⟩ 0,
   .reply ⟨.send fd { hdr := .ckptStart, numPeers := 1, isRootOfTree := true }, true⟩ 0]

/-- The process waits in the barrier until the next round. -/
theorem coordMain_agrees_abandoned : ∃ c, conforming.Reach (coordMain false 4 (coordInit 3 0 0))
    (init, Watch.init false) c ∧ (c.2.1.conns 0).side = .coord (.barrier .preckpt) ∧
      (c.2.1.conns 0).down.map (·.hdr) = [.ckptStart] ∧ Agreeing c.1 c.2.1 := by
  obtain ⟨c, hc, hside, hdown⟩ := (env.noting Watch.follow).exists_follow Conforms
    (coordMain false 4 (coordInit 3 0 0), (init, Watch.init false))
    (launched ++ commanded ++ abandoned ++ commandedAgain 5)
    (fun c => (c.2.1.conns 0).side = .coord (.barrier .preckpt) ∧
      (c.2.1.conns 0).down.map (·.hdr) = [.ckptStart]) (by decide +kernel)
  have hreach := Env.reach_of_follow hc
  exact ⟨c, hreach, hside, hdown, coordMain_agrees false 4 3 0 0 hreach⟩

/-- The coordinator waits for the answer to a call, in a state of which `Q` holds. -/
def Calling (Q : CoordInfo → Prop) : Prog CoordCall.Answer CoordInfo CoordStop Unit → Prop
  | .call s _ _ => Q s
  | _ => False

instance (Q : CoordInfo → Prop) [DecidablePred Q] :
    (p : Prog CoordCall.Answer CoordInfo CoordStop Unit) → Decidable (Calling Q p)
  | .call s _ _ => inferInstanceAs (Decidable (Q s))
  | .ret .. | .halt .. => inferInstanceAs (Decidable False)

/-- The process executes another image, which registers again. -/
def executed : List (Turn CoordCall.Answer Move) :=
  [.move (.dies 0), .move (.register false), .move (.thread 1 ofLaunch),
   .reply ⟨.select [3], some [3]⟩ 0, .reply ⟨.accept, some (7 : Int)⟩ 0,
   .reply ⟨.recv 7, some { ofLaunch with hdr := .connectLaunch }⟩ 0, .reply ⟨.close 5, ()⟩ 0,
   .reply ⟨.send 7 { hdr := .coordAck, xndPid := 1001, xndPpid := 1000, xndPgid := 1001,
                     realPid := 101, realPpid := 50, virtPid := 2, virtPpid := 1 }, true⟩ 0,
   .move (.thread 1 ofLaunch), .reply ⟨.select [7], none⟩ 0]

/-- **A process that executes another image while it waits in the barrier** is listed as ready:
the next round sends `XND_CKPT_START` to a thread that waits for a request. -/
theorem not_coordMain_agrees : ¬ ∀ (restart : Bool) (fuel : Nat) (listenFd : Int) (uuid : Nat)
    (ckptInterval : Int) (c : Prog CoordCall.Answer CoordInfo CoordStop Unit × Net × Watch),
    ((env.noting Watch.follow).world Granted).Reach
      (coordMain restart fuel (coordInit listenFd uuid ckptInterval)) (init, Watch.init restart) c →
        Agreeing c.1 c.2.1 := by
  intro h
  obtain ⟨⟨p, W⟩, hc, hcall, hmade, hside, hdown⟩ := (env.noting Watch.follow).exists_follow Granted
    (coordMain false 4 (coordInit 3 0 0), (init, Watch.init false))
    (launched ++ commanded ++ abandoned ++ executed ++ commandedAgain 7)
    (fun c => Calling (fun _ => True) c.1 ∧ 2 < c.2.1.made ∧
      (c.2.1.conns 2).side = .coord .waiting ∧ (c.2.1.conns 2).down.map (·.hdr) = [.ckptStart])
    (by decide +kernel)
  have hagree := h false 4 3 0 0 (p, W) (Env.reach_of_follow hc)
  cases p with
  | ret => exact hcall.elim
  | halt => exact hcall.elim
  | call s c k =>
      obtain ⟨m, hm, hhdr⟩ := List.map_eq_singleton_iff.mp hdown
      have hexpected := hagree.expected 2 hmade .waiting m hside ThreadPc.noConfusion (by rw [hm]; rfl)
      rw [ThreadPc.receive, hhdr] at hexpected
      cases hexpected

end Net

end Xnd.Joint
