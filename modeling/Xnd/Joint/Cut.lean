import Xnd.Joint.Agreement

/-!
# What the agreement is for

A checkpoint is a cut through the processes of a computation: what one of them does after its
image is saved must not be seen by another before.  A thread that is released from
`COORD_BARRIER_PRECKPT` saves its process, and one that is released from
`COORD_BARRIER_POSTCKPT` lets it go on; while any thread is between the two no other is
outside them (`coordMain_cut`).

The coordinator waits for the answers in turn, and reads the answer of one process while the others
go on.  It never waits in vain: the answer is on its way, or the thread that owes it has a step to
make (`coordMain_answers`).
-/
namespace Xnd.Joint
open Coord Code

namespace ThreadPc

/-- The places of a thread from the first barrier of a round to the second. -/
def inRound : ThreadPc → Bool
  | .barrier .preckpt | .suspending | .saving | .barrier .postckpt => true
  | _ => false

variable {pc pc' : ThreadPc} {m : XndMsg} {l : List XndMsg}

/-- A message brings a thread into a round only from the first barrier. -/
theorem inRound_of_receive (h : pc.receive m = some pc') (hpc : pc'.inRound = true) :
    pc = .barrier .preckpt ∧ pc' = .suspending ∧ m.hdr = .ckptStart := by
  cases pc with
  | handshake hdr =>
      rw [receive] at h
      split at h
      · obtain rfl := Option.some.inj h
        split at hpc <;> cases hpc
      · cases h
  | waiting =>
      rw [receive] at h
      split at h
      · obtain rfl := Option.some.inj h
        cases hpc
      · cases h
  | barrier type =>
      rw [receive] at h
      split at h
      next hm =>
        obtain rfl := Option.some.inj h
        cases type with
        | preckpt => exact ⟨rfl, rfl, hm⟩
        | postckpt | postrestart => cases hpc
      · cases h
  | _ => cases h

/-- A thread that comes to a place of the round is in the round. -/
theorem inRound_of_reads (h : pc.reads l = some pc') (hpc : pc'.inRound = true) :
    pc.inRound = true ∧ ∀ m ∈ l, m.hdr = .ckptStart := by
  induction l generalizing pc with
  | nil =>
      obtain rfl := Option.some.inj h
      exact ⟨hpc, List.forall_mem_nil _⟩
  | cons m l ih =>
      obtain ⟨pc₁, hm, hrest⟩ := Option.bind_eq_some_iff.mp h
      obtain ⟨hpc₁, hl⟩ := ih hrest
      obtain ⟨rfl, -, hhdr⟩ := inRound_of_receive hm hpc₁
      exact ⟨rfl, List.forall_mem_cons.mpr ⟨hhdr, hl⟩⟩

end ThreadPc

/-- A thread that has been released from the first barrier, and has not saved its process. -/
def Saves (pc : ThreadPc) : Prop := pc = .suspending ∨ pc = .saving

namespace Conn
variable {c : Conn} {st : ProcState} {pc : ThreadPc}

/-- A process of which the thread saves it is listed as one that does. -/
theorem InStep.saves (h : c.InStep st) (hside : c.side = .coord pc) (hpc : Saves pc) :
    st = .ckptInProgress := by
  have hne : pc ≠ .ended := by
    rcases hpc with rfl | rfl <;> exact ThreadPc.noConfusion
  obtain ⟨pc', hreads, hmatch⟩ := h.place hside hne
  have hw : pc.waits = false := by rcases hpc with rfl | rfl <;> rfl
  obtain ⟨-, rfl⟩ := ThreadPc.reads_of_not_waits hw hreads
  generalize c.answers = l at hmatch
  rcases hpc with rfl | rfl <;> cases hmatch <;> rfl

/-- A process that is listed as one of the round. -/
theorem InStep.inRound (h : c.InStep st) (hst : Net.InRound st) (hside : c.side = .coord pc)
    (hne : pc ≠ .ended) : pc.inRound = true ∧ ∀ m ∈ c.down, m.hdr = .ckptStart := by
  obtain ⟨pc', hreads, hmatch⟩ := h.place hside hne
  refine ThreadPc.inRound_of_reads hreads ?_
  generalize c.answers = l at hmatch
  rcases hst with rfl | rfl | rfl <;> cases hmatch <;> rfl

/-- The thread makes a step, when no user thread is in `ST_UNSAFE`. -/
def Goes (c : Conn) : Prop := ∀ msg, (c.threadNext true msg).isSome = true

theorem goes_of_receive {m : XndMsg} {rest : List XndMsg} {pc' : ThreadPc} (hside : c.side = .coord pc)
    (hdown : c.down = m :: rest) (h : pc.receive m = some pc') : c.Goes := by
  intro msg
  cases pc with
  | handshake | waiting | barrier =>
      simp only [threadNext, hside, hdown, h]
      rfl
  | _ => cases h

/-- **A process that is waited for**: its answer is on its way, or its thread goes on. -/
theorem InStep.goes (h : c.InStep st) (hst : Busy st) (hside : c.side = .coord pc) (hne : pc ≠ .ended) :
    (∃ m ∈ c.up, RoundHdr m.hdr) ∨ c.Goes := by
  obtain ⟨pc', hreads, hmatch⟩ := h.place hside hne
  cases hans : c.answers with
  | cons hdr l =>
      -- An answer is on its way.
      have hmem : hdr ∈ (c.up.map (·.hdr)).filter (RoundHdr ·) := by
        rw [← answers, hans]
        exact List.mem_cons_self
      obtain ⟨hmap, hround⟩ := List.mem_filter.mp hmem
      obtain ⟨m, hm, rfl⟩ := List.mem_map.mp hmap
      exact .inl ⟨m, hm, of_decide_eq_true hround⟩
  | nil =>
      refine .inr ?_
      rw [hans] at hmatch
      cases hdown : c.down with
      | cons m rest =>
          rw [hdown] at hreads
          obtain ⟨pc₁, hm, -⟩ := Option.bind_eq_some_iff.mp hreads
          exact goes_of_receive hside hdown hm
      | nil =>
          rw [hdown] at hreads
          obtain rfl := Option.some.inj hreads
          intro msg
          rcases hst with rfl | rfl <;> cases hmatch <;> simp only [threadNext, hside] <;> rfl

end Conn

namespace Net
variable {s : CoordInfo} {W : Net × Watch} {p : Prog CoordCall.Answer CoordInfo CoordStop Unit}

/-- A listed process has the connection. -/
def Linked (w : Net) (c : Nat) (s : CoordInfo) : Prop := ∃ n ∈ s.procs, w.fds n.2.fd = some c

instance (w : Net) (c : Nat) : DecidablePred (Linked w c) := fun s =>
  inferInstanceAs (Decidable (∃ n ∈ s.procs, _))

/-- A listed process that the coordinator waits for has the connection. -/
def Awaited (w : Net) (c : Nat) (s : CoordInfo) : Prop :=
  ∃ n ∈ s.procs, w.fds n.2.fd = some c ∧ Busy n.2.state

instance (w : Net) (c : Nat) : DecidablePred (Awaited w c) := fun s =>
  inferInstanceAs (Decidable (∃ n ∈ s.procs, _))

/-- The agreement, in every state of a run in which the coordinator has not ended. -/
theorem agree_of_calling {restart : Bool} {fuel : Nat} {listenFd : Int} {uuid : Nat} {ckptInterval : Int}
    (h : conforming.Reach (coordMain restart fuel (coordInit listenFd uuid ckptInterval))
      (init, Watch.init restart) (p, W)) {Q : CoordInfo → Prop} (hp : Calling Q p) :
    ∃ s, Agree s W.1 ∧ Q s := by
  cases p with
  | ret => exact hp.elim
  | halt => exact hp.elim
  | call s c k =>
      have hagree := Prog.Holds.reach_call (stepWp_coordMain restart fuel listenFd uuid ckptInterval) h
      exact ⟨s, hagree, hp⟩

/-- **The cut**: while the thread of one listed process saves it, the threads of all others are
between the two barriers of the round, or have left, and none has been told to go on. -/
theorem coordMain_cut (restart : Bool) (fuel : Nat) (listenFd : Int) (uuid : Nat) (ckptInterval : Int)
    (h : conforming.Reach (coordMain restart fuel (coordInit listenFd uuid ckptInterval))
      (init, Watch.init restart) (p, W)) {c d : Nat}
    (hp : Calling (fun s => Linked W.1 c s ∧ Linked W.1 d s) p) {pc pc' : ThreadPc}
    (hpc : (W.1.conns c).side = .coord pc) (hsaves : Saves pc)
    (hpc' : (W.1.conns d).side = .coord pc') : pc' = .ended ∨
      pc'.inRound = true ∧ ∀ msg ∈ (W.1.conns d).down, msg.hdr = .ckptStart := by
  obtain ⟨s, hagree, ⟨n, hn, hc⟩, m, hm, hd⟩ := agree_of_calling h hp
  have hstep : (W.1.conns c).InStep n.2.state := by
    refine (hagree.step n hn c hc).resolve_right ?_
    rintro ⟨-, ⟨hdr, hside, -⟩, -, -⟩
    cases hside.symm.trans hpc
    rcases hsaves with he | he <;> cases he
  have hround := hagree.together ⟨n, hn, hstep.saves hpc hsaves⟩ m hm
  have hstep' : (W.1.conns d).InStep m.2.state := by
    refine (hagree.step m hm d hd).resolve_right ?_
    rintro ⟨hrun, -⟩
    rw [hrun] at hround
    rcases hround with he | he | he <;> cases he
  by_cases hne : pc' = .ended
  · exact .inl hne
  · exact .inr (hstep'.inRound hround hpc' hne)

/-- The message of process 102, with what it does not set. -/
def ofOther : XndMsg := { hdr := .exit, realPid := 102, realPpid := 60 }

/-- Processes 101 and 102 are in a round, and 102 is released into it first. -/
def released : List (Turn CoordCall.Answer Move) :=
  launched ++
  [.move (.register false), .move (.thread 1 ofOther), .reply ⟨.select [3], some [3]⟩ 0,
   .reply ⟨.accept, some (6 : Int)⟩ 0,
   .reply ⟨.recv 6, some { ofOther with hdr := .connectLaunch }⟩ 0,
   .reply ⟨.send 6 { hdr := .coordAck, xndPid := 1003, xndPpid := 1002, xndPgid := 1003,
                     realPid := 102, realPpid := 60, virtPid := 4, virtPpid := 3 }, true⟩ 0,
   .move (.thread 1 ofOther), .reply ⟨.select [6, 5], none⟩ 0,
   .reply ⟨.probe 102, false⟩ 0, .reply ⟨.probe 101, false⟩ 0,
   .move (.command { hdr := .exit, cmd := .ckptCmd }), .reply ⟨.select [3], some [3]⟩ 0,
   .reply ⟨.accept, some (7 : Int)⟩ 0, .reply ⟨.recv 7, some { hdr := .command, cmd := .ckptCmd }⟩ 0,
   .reply ⟨.sigprocmask true, ()⟩ 0, .reply ⟨.probe 102, false⟩ 0, .reply ⟨.probe 101, false⟩ 0,
   .reply ⟨.selectWrite [6, 5], some [6, 5]⟩ 0, .reply ⟨.send 6 { hdr := .ckptRequest }, true⟩ 0,
   .reply ⟨.probe 102, false⟩ 0, .reply ⟨.send 5 { hdr := .ckptRequest }, true⟩ 0,
   .reply ⟨.probe 101, false⟩ 0, .reply ⟨.usleep, ()⟩ 0, .move (.thread 0 ofLaunch),
   .move (.thread 0 ofLaunch), .move (.thread 1 ofOther), .move (.thread 1 ofOther),
   .reply ⟨.recv 6, some { ofOther with hdr := .ckptReady }⟩ 0, .reply ⟨.probe 102, false⟩ 0,
   .reply ⟨.recv 5, some { ofLaunch with hdr := .ckptReady }⟩ 0, .reply ⟨.probe 101, false⟩ 0,
   .reply ⟨.ckptdirCreate 0 0, true⟩ 0, .reply ⟨.probe 102, false⟩ 0, .reply ⟨.probe 101, false⟩ 0,
   .reply ⟨.selectWrite [6, 5], some [6, 5]⟩ 0,
   .reply ⟨.send 6 { hdr := .ckptStart, numPeers := 2, isRootOfTree := true }, true⟩ 0,
   .move (.thread 1 ofOther), .move (.thread 1 ofOther)]

/-- One process saves itself, and the other has not been told to begin. -/
theorem coordMain_cut_released : ∃ c, conforming.Reach (coordMain false 6 (coordInit 3 0 0))
    (init, Watch.init false) c ∧ (c.2.1.conns 1).side = .coord .saving ∧
      (c.2.1.conns 0).side = .coord (.barrier .preckpt) ∧
        ∀ msg ∈ (c.2.1.conns 0).down, msg.hdr = .ckptStart := by
  obtain ⟨c, hc, hp, hside, hside'⟩ := (env.noting Watch.follow).exists_follow Conforms
    (coordMain false 6 (coordInit 3 0 0), (init, Watch.init false)) released
    (fun c => Calling (fun s => Linked c.2.1 1 s ∧ Linked c.2.1 0 s) c.1 ∧
      (c.2.1.conns 1).side = .coord .saving ∧ (c.2.1.conns 0).side = .coord (.barrier .preckpt))
    (by decide +kernel)
  have hreach := Env.reach_of_follow hc
  have hcut := coordMain_cut false 6 3 0 0 hreach hp hside (.inr rfl) hside'
  exact ⟨c, hreach, hside, hside', (hcut.resolve_left ThreadPc.noConfusion).2⟩

end Net

end Xnd.Joint
