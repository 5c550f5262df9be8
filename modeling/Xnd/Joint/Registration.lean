import Xnd.Joint.Barriers

/-!
# How a client comes to be in step

A connection that is accepted has had no answer, so its client is where its first message left it
(`Conn.Greets`): `XND_CONNECT_LAUNCH` from a thread that awaits the acknowledgment,
`XND_CONNECT_RESTART` from one that goes on to wait at the last barrier, `XND_ATFORK_PREPARE` from a
thread that is about to fork.  Each of the ways to register sends the acknowledgment that puts the
thread in step with the state that the process is given.

While a restart goes on no user thread runs, so a client of it asks for nothing (`Conn.Parked`).
-/
namespace Xnd.Joint
open Coord Code

namespace Conn

/-- The client of a connection over which one message has come. -/
structure Greets (m : XndMsg) (c : Conn) : Prop where
  taken : c.taken = 1
  unanswered : c.Unanswered
  first : c.sent.head? = some m

variable {c x : Conn} {m : XndMsg} {I : Prop}

theorem Greets.next (h : c.Greets m) (hx : Next I c x) : x.Greets m := by
  refine ⟨(taken_next hx).trans h.taken, h.unanswered.next hx, ?_⟩
  obtain ⟨l, hl⟩ := sent_next hx
  rw [← hl, List.head?_append, h.first]
  rfl

/-- The first message is taken. -/
theorem Unanswered.greets (h : c.Unanswered) (ht : c.taken = 0) {rest : List XndMsg}
    (hup : c.up = m :: rest) : ({ c with taken := c.taken + 1 } : Conn).Greets m := by
  rw [up, ht, List.drop_zero] at hup
  exact ⟨congrArg (· + 1) ht, h, by rw [hup]; rfl⟩

/-- A client of whose process no user thread runs, and that may wait for the end of a restart. -/
def Parked (c : Conn) : Prop :=
  match c.side with
  | .coord (.connected _) => c.down = []
  | .coord (.handshake hdr) => c.down.length ≤ if hdr = .connectRestart then 1 else 0
  | .coord (.barrier .postrestart) => c.down = []
  | .command => True
  | _ => False

theorem Parked.threads (h : c.Parked) (hx : Threads c x) : x.Parked := by
  unfold Parked at h
  cases hx with
  | speaks hside hpc =>
      rw [hside] at h
      obtain ⟨hdr, rfl, rfl, -⟩ | ⟨rfl, -⟩ | ⟨rfl, -⟩ := hpc
      · show c.down.length ≤ _
        rw [h]
        exact Nat.zero_le _
      · exact h.elim
      · exact h.elim
  | suspends hside =>
      rw [hside] at h
      exact h.elim
  | @receives pc pc' m rest hside hdown hpc =>
      rw [hside] at h
      cases pc with
      | handshake hdr =>
          have hlength : (m :: rest).length ≤ if hdr = .connectRestart then 1 else 0 := hdown ▸ h
          rw [ThreadPc.receive] at hpc
          split at hpc
          · obtain rfl := Option.some.inj hpc
            by_cases hhdr : hdr = .connectRestart
            · rw [if_pos hhdr] at hlength ⊢
              exact List.eq_nil_of_length_eq_zero (Nat.le_zero.mp (Nat.le_of_succ_le_succ hlength))
            · rw [if_neg hhdr] at hlength
              exact absurd hlength (Nat.not_succ_le_zero _)
          · cases hpc
      | barrier type =>
          cases type with
          | postrestart =>
              rw [hdown] at h
              cases h
          | _ => exact h.elim
      | connected => cases hpc
      | _ => exact h.elim
  | refuses hside =>
      rw [hside] at h
      exact h.elim
  | ends hside =>
      rw [hside] at h
      exact h.elim

/-- **A step of a client.** -/
theorem Parked.next (h : c.Parked) (hx : Next I c x) : x.Parked := by
  cases hx with
  | thread hx => exact h.threads (threads_of_threadNext hx)
  | @disconnects pc msg hside hpc =>
      rw [Parked, hside] at h
      cases pc with
      | connected | handshake => cases hpc
      | barrier type =>
          cases type with
          | postrestart => cases hpc
          | _ => exact h.elim
      | _ => exact h.elim
  | requests hside | replied hside | answered hside | forks hside =>
      rw [Parked, hside] at h
      exact h.elim
  | hangsUp => exact h

/-- The answer to the handshake of a process that is restarted. -/
theorem Parked.send (h : c.Joins .restartInProgress) :
    ({ c with down := c.down ++ [m] } : Conn).Parked := by
  obtain ⟨⟨hdr, hside, hst⟩, hdown, -⟩ := h
  have hhdr : hdr = .connectRestart := by
    by_contra hne
    rw [if_neg hne] at hst
    cases hst
  show Parked { c with down := c.down ++ [m] }
  rw [Parked]
  simp only [hside, hdown, hhdr]
  exact Nat.le_refl 1

/-- No user thread runs. -/
theorem Parked.not_userRuns (h : c.Parked) {pc : ThreadPc} (hside : c.side = .coord pc) :
    pc.userRuns = false := by
  rw [Parked, hside] at h
  cases pc with
  | connected | handshake => rfl
  | barrier type =>
      cases type with
      | postrestart => rfl
      | _ => exact h.elim
  | _ => exact h.elim

end Conn

namespace Net
variable {s s' : CoordInfo} {w w' : Net} {W W' : Net × Watch} {x : Option Int} {φ : Phase}
  {P : ProcState → Prop} {p : Nat} {a : Proc} {fd : Int} {C : Conn → Prop} {K : Net → Prop}

/-! ## While a restart goes on -/

/-- No user thread runs anywhere. -/
def Parked (w : Net) : Prop := ∀ c < w.made, (w.conns c).Parked

theorem Parked.not_userRuns (h : Parked w) (ho : Owned w) (i : Nat) : w.userRuns i = false := by
  by_contra hne
  have hruns : w.userRuns i = true := Bool.eq_true_of_not_eq_false hne
  obtain ⟨pc, hside, hpc⟩ := side_of_userRuns hruns
  have hmade := (ho.coord i (alive_of_userRuns hruns)).1
  rw [(h _ hmade).not_userRuns hside] at hpc
  cases hpc

theorem made_answer {i : Nat} (hm : w.answer i = some w') : w'.made = w.made := by
  unfold answer at hm
  split at hm
  · split at hm
    · split at hm
      · obtain rfl := Option.some.inj hm
        rfl
      · split at hm
        · cases hm
        · obtain rfl := Option.some.inj hm
          rfl
    · obtain rfl := Option.some.inj hm
      rfl
  · split at hm
    · split at hm
      · obtain rfl := Option.some.inj hm
        rfl
      · obtain rfl := Option.some.inj hm
        rfl
    · split at hm
      · cases hm
      · obtain rfl := Option.some.inj hm
        rfl
    · cases hm
  · cases hm

/-- **A move**: a new connection is that of a process, or one over which a command comes. -/
theorem Parked.move (h : Parked w) (ho : Owned w) {m : Move} (hm : Net.move m w = some w') :
    Parked w' := by
  have he := evolves_move ho hm
  have old : ∀ c < w.made, (w'.conns c).Parked := fun c hc =>
    Conn.steps_keep (fun _ _ h hx => h.next hx) (h c hc) (he.old c hc)
  have only : w'.made = w.made → Parked w' := fun hmade c hc => old c (hmade ▸ hc)
  have grows : ∀ {side owner sent}, w'.made = w.made + 1 → w'.conns w.made = .fresh side owner sent →
      (Conn.fresh side owner sent).Parked → Parked w' := by
    intro side owner sent hmade hconn hparked c hc
    by_cases hlt : c < w.made
    · exact old c hlt
    · obtain rfl : c = w.made := by omega
      rw [hconn]
      exact hparked
  have runs := h.not_userRuns ho
  cases m with
  | register restart =>
      obtain rfl := Option.some.inj hm
      refine grows rfl ((conns_connect _).trans (if_pos rfl)) ?_
      rfl
  | command msg =>
      obtain rfl := Option.some.inj hm
      exact grows rfl ((conns_connect _).trans (if_pos rfl)) trivial
  | translate i | notifyCoordOfExit i | atforkPrepare i =>
      simp only [Net.move, takesMutex, runs i, Bool.false_and, Bool.false_eq_true, if_false] at hm
      cases hm
  | disconnect i =>
      simp only [Net.move, runs i, Bool.false_eq_true, false_and, if_false] at hm
      cases hm
  | thread i msg =>
      simp only [Net.move, thread] at hm
      split at hm
      · split at hm
        · obtain rfl := Option.some.inj hm
          exact only rfl
        · obtain rfl := Option.some.inj hm
          exact only rfl
        · cases hm
      · cases hm
  | answered i => exact only (made_answer hm)
  | fork i | forkFails i =>
      obtain ⟨c, -, rfl⟩ := Option.map_eq_some_iff.mp hm
      exact only rfl
  | dies i | closes i c =>
      simp only [Net.move] at hm
      split at hm
      · obtain rfl := Option.some.inj hm
        exact only rfl
      · cases hm

/-! ## What is known beside the invariant -/

/-- **Something that lasts**: it survives the moves of the clients, and every answer but to a
message that is sent. -/
structure Lasting (K : Net → Prop) : Prop where
  move : ∀ {w m w'}, Owned w → K w → Net.move m w = some w' → K w'
  respond : ∀ {s w c r w'}, (∀ fd msg, c ≠ .send fd msg) → K w → w' ∈ Net.respond s w c r → K w'

theorem lasting_true : Lasting fun _ => True := ⟨fun _ _ _ => trivial, fun _ _ _ => trivial⟩

theorem Parked.onConn (h : Parked w) {c : Nat} {f : Conn → Conn}
    (hside : (f (w.conns c)).side = (w.conns c).side) (hdown : (f (w.conns c)).down = (w.conns c).down) :
    Parked (w.onConn c f) := by
  intro d hd
  rw [conns_onConn]
  split
  next he =>
    rw [Conn.Parked, hside, hdown]
    exact h c (he ▸ hd)
  next => exact h d hd

theorem lasting_parked : Lasting Parked where
  move ho h hm := h.move ho hm
  respond hsend h hr := by
    obtain rfl | ⟨fd, -, hr⟩ | ⟨fd, msg, -, hr⟩ | ⟨fd, msg, he, -⟩ | ⟨fd, -, rfl⟩ := respond_cases hr
    · exact h
    · obtain ⟨c, rest, -, -, -, -, -, rfl⟩ := mem_accept hr
      exact h
    · obtain ⟨c, rest, -, -, rfl⟩ := mem_recvSome hr
      exact h.onConn rfl rfl
    · cases he
      exact absurd rfl (hsend fd msg)
    · unfold Net.close
      split
      next c _ =>
        have hon := h.onConn (c := c) (f := ({ · with listening := false })) rfl rfl
        exact fun d hd => hon d hd
      next => exact h

/-- What is on a descriptor. -/
def On (fd : Int) (C : Conn → Prop) (w : Net) : Prop := ∃ c, w.fds fd = some c ∧ C (w.conns c)

/-- What every step of a client keeps is kept on a descriptor. -/
theorem On.move (hon : On fd C w) (hC : ∀ I c x, C c → Conn.Next I c x → C x) (ho : Owned w)
    (hwired : Wired w) {m : Move} (hm : Net.move m w = some w') : On fd C w' := by
  obtain ⟨c, hc, h⟩ := hon
  have he := evolves_move ho hm
  exact ⟨c, by rw [he.fds]; exact hc, Conn.steps_keep (hC _) h (he.old c (hwired.bound fd c hc))⟩

/-- **A call** on what lasts, and on what is on a descriptor. -/
theorem stepWp_callOn {c : CoordCall} {fin : CoordInfo → c.Answer → Net × Watch → Prop}
    (hK : Lasting K) (hC : ∀ I c x, C c → Conn.Next I c x → C x) (h : Held x φ P s W) (hk : K W.1)
    (hon : On fd C W.1) (hfin : ∀ w r w', Lockstep x s w → K w → On fd C w →
      Conforms s (w, W.2) c r → w' ∈ Net.respond s w c r → fin s r (w', W.2.follow s c r)) :
    StepWp (Code.call c) s W fin :=
  stepWp_callWith (fun w => K w ∧ On fd C w)
    (fun _ _ _ hw h hm => ⟨hK.move hw.owned h.1 hm, h.2.move hC hw.owned hw.wired hm⟩) h ⟨hk, hon⟩
    fun w r w' hw hk => hfin w r w' hw hk.1 hk.2

/-- A call that brings and sends no message. -/
theorem stepWp_callLasting {c : CoordCall} (hK : Lasting K) (h : Held x φ P s W) (hk : K W.1)
    (haccept : c ≠ .accept) (hrecv : ∀ fd, c ≠ .recv fd) (hsend : ∀ fd msg, c ≠ .send fd msg)
    (hppid : c ≠ .getppid) :
    StepWp (Code.call c) s W fun s' _ W' => s' = s ∧ Held x φ P s W' ∧ K W'.1 :=
  stepWp_callWith K (fun _ _ _ hw hk hm => hK.move hw.owned hk hm) h hk fun _ r _ hw hk _ hr =>
    ⟨rfl, ⟨hw.respond haccept hrecv hsend hr, (phase_follow hppid r).trans h.phase, h.states⟩,
      hK.respond hsend hk hr⟩

/-! ## The first message -/

/-- **A connection is accepted.** -/
theorem stepWp_sysAccept (hK : Lasting K) (h : Held none φ P s W) (hk : K W.1) :
    StepWp sysAccept s W fun s' r W' => s' = s ∧ Held none φ P s W' ∧ K W'.1 ∧
      ∀ fd : Int, r = some fd →
        On fd (fun c => c.taken = 0 ∧ c.Unanswered) W'.1 ∧ Fresh fd s := by
  refine stepWp_callWith K (fun _ _ _ hw hk hm => hK.move hw.owned hk hm) h hk
    fun w (r : Option Int) w' hw hk _ hr => ⟨rfl, ?_⟩
  have hk' : K w' := hK.respond (fun _ _ => CoordCall.noConfusion) hk hr
  cases r with
  | none =>
      obtain rfl := List.mem_singleton.mp hr
      exact ⟨⟨hw, h.phase, h.states⟩, hk', fun _ he => by cases he⟩
  | some fd =>
      obtain ⟨hw', c, hc, htaken, hun, hfresh⟩ := hw.accept hr
      refine ⟨⟨hw', h.phase, h.states⟩, hk', fun fd' he => ?_⟩
      obtain rfl := Option.some.inj he
      exact ⟨⟨c, hc, htaken, hun⟩, hfresh⟩

/-- A connection of which the first message has been received, that no process has. -/
structure Arrived (φ : Phase) (P : ProcState → Prop) (fd : Int) (msg : XndMsg) (s : CoordInfo)
    (W : Net × Watch) : Prop where
  held : Held none φ P s W
  fresh : Fresh fd s
  on : On fd (Conn.Greets msg) W.1
  granted : (φ = .restoring → msg.hdr ≠ .command) ∧ (msg.hdr = .connectRestart → msg.epoch ≠ 0)
  rejoins : Rejoins s (.recv fd) (some msg)

/-- A message over a connection that no process has. -/
theorem Lockstep.recvFresh (h : Lockstep x s w) (hfresh : Fresh fd s) {msg : XndMsg}
    (hr : w' ∈ w.recvSome fd msg) : Lockstep x s w' :=
  h.recv hr fun n hn hfd => absurd hfd (hfresh n hn)

theorem stepWp_recvFirst (hK : Lasting K) (h : Held none φ P s W) (hk : K W.1) (hfresh : Fresh fd s)
    (hon : On fd (fun c => c.taken = 0 ∧ c.Unanswered) W.1) :
    StepWp (coordRecvMsg fd) s W fun s' r W' => s' = s ∧ Held none φ P s W' ∧ K W'.1 ∧
      ∀ msg : XndMsg, r = some msg → Arrived φ P fd msg s W' := by
  refine stepWp_callOn hK (fun _ _ _ h hx => ⟨(Conn.taken_next hx).trans h.1, h.2.next hx⟩) h hk hon
    fun w (r : Option XndMsg) w' hw hk hon hok hr => ⟨rfl, ?_⟩
  have hk' : K w' := hK.respond (fun _ _ => CoordCall.noConfusion) hk hr
  cases r with
  | none =>
      obtain rfl := mem_recvNone hr
      exact ⟨⟨hw, h.phase, h.states⟩, hk', fun _ he => by cases he⟩
  | some msg =>
      have hheld : Held none φ P s (w', W.2) := ⟨hw.recvFresh hfresh hr, h.phase, h.states⟩
      refine ⟨hheld, hk', fun msg' he => ⟨hheld, hfresh, ?_, ?_, ?_⟩⟩
      · obtain rfl := Option.some.inj he
        obtain ⟨c, hc, htaken, hun⟩ := hon
        obtain ⟨d, rest, hd, hup, rfl⟩ := mem_recvSome hr
        obtain rfl : d = c := Option.some.inj (hd.symm.trans hc)
        exact ⟨d, hd, by rw [conns_onConn, if_pos rfl]; exact hun.greets htaken hup⟩
      · obtain rfl := Option.some.inj he
        exact ⟨fun hφ => hok.1.1 (h.phase.trans hφ), hok.1.2⟩
      · obtain rfl := Option.some.inj he
        exact hok.2

/-! ## Registration -/

/-- A message to a client that no process has. -/
theorem Lockstep.sendFresh (h : Lockstep x s w) (hfresh : Fresh fd s) {c : Nat}
    (hc : w.fds fd = some c) {msg : XndMsg}
    (hproper : ({ w.conns c with down := (w.conns c).down ++ [msg] } : Conn).Proper) :
    Lockstep x s (w.onConn c fun x => { x with down := x.down ++ [msg] }) :=
  h.onConn hc rfl rfl rfl hproper h.list (fun n hn hfd => absurd hfd (hfresh n hn))
    fun n hn _ => ⟨n, hn, rfl, rfl⟩

/-- **A new process** is in step with the state it is listed in. -/
theorem Lockstep.push (h : Lockstep x s w) (hfresh : Fresh a.fd s)
    (hstates : InStates (· ≠ .ckptInProgress) s) (ha : a.state ≠ .ckptInProgress)
    (hstep : ∀ c, w.fds a.fd = some c → (w.conns c).InStep a.state) : Lockstep x (s.push a) w := by
  refine h.procs ⟨h.list.push hfresh, ?_⟩ (List.forall_mem_cons.mpr ⟨hstep, h.step⟩)
  rintro ⟨n, hn, hst⟩
  rcases List.mem_cons.mp hn with rfl | hn
  · exact absurd hst ha
  · exact absurd hst (hstates n hn)

/-- **The end of a registration.** -/
theorem stepWp_registerProc (hK : Lasting K) (h : Held none φ P s W) (hk : K W.1)
    (hfresh : Fresh a.fd s) (hjoins : On a.fd (Conn.Joins a.state) W.1) (ha : P a.state)
    (hP : ∀ st, P st → st ≠ .ckptInProgress) (hsend : ∀ w c (msg : XndMsg), K w → (w.conns c).Joins a.state →
      K (w.onConn c fun x => { x with down := x.down ++ [msg] })) :
    StepWp (registerProc a) s W fun s' _ W' => Held none φ P s' W' ∧ K W'.1 ∧
      s' = ({ s with table := (s.table.update a.virtPid a.realPid).update a.virtPpid a.realPpid }).push a := by
  refine Wp.bind (M := fun s' _ W' => s' = s ∧ Held none φ P s W' ∧ K W'.1 ∧
    On a.fd (Conn.InStep a.state) W'.1) (Wp.get_bind ?_) ?_
  · refine Wp.bind (M := fun s' (sent : Bool) W' => s' = s ∧ Held none φ P s W' ∧
      (sent = true → K W'.1 ∧ On a.fd (Conn.InStep a.state) W'.1))
      (stepWp_callOn hK (fun _ _ _ h hx => h.next hx) h hk hjoins
        fun w (r : Bool) w' hw hk hon _ hr => ⟨rfl, ?_⟩) ?_
    · cases r with
      | false =>
          obtain rfl := List.mem_singleton.mp hr
          exact ⟨⟨hw, h.phase, h.states⟩, fun he => absurd he Bool.false_ne_true⟩
      | true =>
          obtain ⟨c, hc, hj⟩ := hon
          obtain ⟨d, hd, rfl⟩ := mem_sendDone hr
          obtain rfl : d = c := Option.some.inj (hd.symm.trans hc)
          have hproper := fun (msg : XndMsg) hm =>
            (hw.proper d (hw.wired.bound _ d hc)).send_inStep (hj.send (m := msg) hm)
          refine ⟨⟨hw.sendFresh hfresh hc (hproper _ ⟨rfl, rfl⟩), h.phase, h.states⟩, fun _ =>
            ⟨hsend w d _ hk hj, d, hc, ?_⟩⟩
          rw [conns_onConn, if_pos rfl]
          exact hj.send ⟨rfl, rfl⟩
    · rintro s sent W' ⟨rfl, h, hsent⟩
      exact Wp.ite (fun hs => Wp.pure ⟨rfl, h, hsent hs⟩) fun _ => Wp.halt (by decide)
  · rintro s _ W' ⟨rfl, h, hk, c, hc, hstep⟩
    have htable : Held none φ P
        { s with table := (s.table.update a.virtPid a.realPid).update a.virtPpid a.realPpid } W' :=
      h.congr rfl rfl
    refine Wp.modify_bind (Wp.modify ⟨⟨htable.lock.push hfresh (h.states.mono hP) (hP _ ha)
      fun d hd => ?_, h.phase,
      List.forall_mem_cons.mpr ⟨ha, h.states⟩⟩, hk, rfl⟩)
    obtain rfl : c = d := Option.some.inj (hc.symm.trans hd)
    exact hstep

theorem not_busy_running : ¬ Busy .running := by decide

theorem ne_of_not_busy {st : ProcState} (h : ¬ Busy st) : st ≠ .ckptInProgress := by
  rintro rfl
  exact h (.inr rfl)

/-! ### A process that is launched -/

theorem On.close (hon : On fd C w) (hC : ∀ c, C c → C { c with listening := false })
    (fd' : Int) (hne : fd ≠ fd') : On fd C (w.close fd') := by
  obtain ⟨c, hc, h⟩ := hon
  refine ⟨c, by rw [fds_close, if_neg hne]; exact hc, ?_⟩
  unfold Net.close
  split
  next d hd =>
    show C ((w.onConn d ({ · with listening := false })).conns c)
    rw [conns_onConn]
    split
    next he => exact hC _ (he ▸ h)
    next => exact h
  next => exact h

theorem Staged.setFd (h : Staged s) (hfresh : Fresh fd s) :
    Staged (s.setProc p fun a => { a with fd := fd }) := by
  refine h.of (h.toListOk.setFd hfresh) fun n hn => ?_
  obtain ⟨m, hm, rfl⟩ := List.mem_map.mp hn
  exact ⟨m, hm, by split <;> rfl⟩

/-- A process that registers again is listed with its new descriptor, and has no answer yet. -/
theorem Lockstep.agree_setFd (h : Lockstep none s w) (hfresh : Fresh fd s) (ha : s.proc p = some a)
    (hrun : a.state = .running) (hon : On fd (Conn.Joins .running) w) :
    Agree (s.setProc p fun a => { a with fd := fd }) w := by
  refine ⟨fun n hn c hc => ?_, fun _ hc => h.expected hc, (h.list.setFd hfresh).together⟩
  obtain ⟨m, hm, rfl⟩ := List.mem_map.mp hn
  by_cases hp : m.1 = p
  · obtain rfl : m.2 = a := h.list.eq_of_proc (hp ▸ hm) ha
    rw [if_pos hp] at hc ⊢
    obtain ⟨d, hd, hjoins⟩ := hon
    obtain rfl : d = c := Option.some.inj (hd.symm.trans hc)
    exact .inr ⟨hrun, hjoins⟩
  · rw [if_neg hp] at hc ⊢
    exact .inl (h.step m hm c hc)

/-- Its handshake is answered. -/
theorem Lockstep.setFd (h : Lockstep none s w) (hfresh : Fresh fd s) (ha : s.proc p = some a)
    {c : Nat} (hc : w.fds fd = some c) {msg : XndMsg}
    (hstep : ({ w.conns c with down := (w.conns c).down ++ [msg] } : Conn).InStep a.state) :
    Lockstep none (s.setProc p fun a => { a with fd := fd })
      (w.onConn c fun x => { x with down := x.down ++ [msg] }) := by
  have hproper := (h.proper c (h.wired.bound _ c hc)).send_inStep hstep
  refine h.onConn hc rfl rfl rfl hproper (h.list.setFd hfresh) (fun n hn hfd => ?_) fun n hn hfd => ?_
  · obtain ⟨m, hm, rfl⟩ := List.mem_map.mp hn
    by_cases hp : m.1 = p
    · obtain rfl : m.2 = a := h.list.eq_of_proc (hp ▸ hm) ha
      rw [if_pos hp]
      exact hstep
    · rw [if_neg hp] at hfd
      exact absurd hfd (hfresh m hm)
  · obtain ⟨m, hm, rfl⟩ := List.mem_map.mp hn
    by_cases hp : m.1 = p
    · rw [if_pos hp] at hfd
      exact absurd rfl hfd
    · rw [if_neg hp]
      exact ⟨m, hm, rfl, rfl⟩

/-- **A process that registers again.** -/
theorem stepWp_rejoin (h : Held none φ P s W) (hfresh : Fresh fd s) (ha : s.proc p = some a)
    (hrun : a.state = .running) (hon : On fd (Conn.Joins .running) W.1) :
    StepWp (do
        sysClose a.fd
        Code.modify fun s => s.setProc p fun a => { a with fd := fd }
        coordSendHandshake { a with fd := fd }) s W fun s' _ W' =>
      s' = (s.setProc p fun a => { a with fd := fd }) ∧ Held none φ P s' W' := by
  refine Wp.bind (M := fun s' _ W' => s' = s ∧ Held none φ P s W' ∧ On fd (Conn.Joins .running) W'.1)
    (stepWp_callOn lasting_true (fun _ _ _ h hx => h.next hx) h trivial hon
      fun w r w' hw _ hon _ hr => ?_) ?_
  · obtain rfl := List.mem_singleton.mp hr
    refine ⟨rfl, ⟨hw.close a.fd, h.phase, h.states⟩, hon.close (fun c hc => ?_) a.fd fun he => ?_⟩
    · exact ⟨hc.side, hc.down, hc.answers⟩
    · exact hfresh _ (CoordInfo.mem_procs_of_proc ha) he.symm
  rintro s _ W ⟨rfl, h, hon⟩
  have hstates : InStates P (s.setProc p fun a => { a with fd := fd }) := h.states.setProc p fun _ => rfl
  refine Wp.modify_bind (Wp.get_bind (Wp.bind (M := fun s' (sent : Bool) W' =>
    s' = (s.setProc p fun a => { a with fd := fd }) ∧ W'.2 = W.2 ∧
      (sent = true → Lockstep none (s.setProc p fun a => { a with fd := fd }) W'.1)) ?_ ?_))
  · refine Env.wp_call_noting (fun w => Lockstep none s w ∧ On fd (Conn.Joins .running) w) ?_
      ⟨h.lock, hon⟩ (fun w hw => hw.1.agree_setFd hfresh ha hrun hw.2) ?_
    · exact fun w m w' hw hm =>
        ⟨hw.1.move hm, hw.2.move (fun _ _ _ h hx => h.next hx) hw.1.owned hw.1.wired hm⟩
    · rintro w (r : Bool) w' ⟨hw, hon⟩ - hr
      refine ⟨rfl, rfl, ?_⟩
      cases r with
      | false =>
          exact fun he => absurd he Bool.false_ne_true
      | true =>
          obtain ⟨c, hc, hj⟩ := hon
          obtain ⟨d, hd, rfl⟩ := mem_sendDone hr
          obtain rfl : d = c := Option.some.inj (hd.symm.trans hc)
          exact fun _ => hw.setFd hfresh ha hc (by rw [hrun]; exact hj.send ⟨rfl, rfl⟩)
  · rintro s' sent W' ⟨rfl, hv, hl⟩
    exact Wp.ite (fun hs => Wp.pure ⟨rfl, hl hs, hv ▸ h.phase, hstates⟩)
      fun _ => Wp.halt (by decide)

/-- A process that is launched: the ends of its connection. -/
theorem Arrived.joins {msg : XndMsg} (h : Arrived φ P fd msg s W)
    (hm : msg.hdr = .connectLaunch ∨ msg.hdr = .connectRestart) :
    On fd (Conn.Joins (if msg.hdr = .connectRestart then .restartInProgress else .running)) W.1 := by
  obtain ⟨c, hc, hgreets⟩ := h.on
  exact ⟨c, hc, hgreets.unanswered.joins hgreets.first hm hgreets.taken⟩

/-- **A launch.** -/
theorem stepWp_coordConnectWithProcessOnLaunch {msg : XndMsg} (h : Arrived φ (¬ Busy ·) fd msg s W)
    (hm : msg.hdr = .connectLaunch) :
    StepWp (coordConnectWithProcessOnLaunch fd msg) s W fun s' _ W' => Rested φ s' W' ∧
      s'.procs ≠ [] ∧ s'.numPeers = s.numPeers ∧ (s.epoch = 0 ∨ ∃ n ∈ s.procs, n.2.state = .running) := by
  have hjoins : On fd (Conn.Joins .running) W.1 := by
    have := h.joins (.inl hm)
    rw [hm] at this
    exact this
  obtain ⟨h, hfresh, -, -, hrejoins⟩ := h
  refine Wp.get_bind (Wp.ite (fun hknown => ?_) fun _ => ?_)
  · cases hfind : s.find (·.realPid = msg.realPid) with
    | none => exact Wp.halt (by decide)
    | some n =>
        obtain ⟨p, a⟩ := n
        obtain ⟨hmem, -⟩ := CoordInfo.mem_procs_of_find hfind
        have hrun : a.state = .running := hrejoins hm hknown _ hfind
        obtain ⟨as, rest, hs⟩ := List.append_of_mem hmem
        refine (stepWp_rejoin h hfresh (h.lock.list.proc_eq hs) hrun hjoins).mono ?_
        rintro s' _ W' ⟨rfl, h⟩
        refine ⟨h, fun he => ?_, rfl, .inr ⟨_, hmem, hrun⟩⟩
        rw [List.map_eq_nil_iff.mp he] at hmem
        cases hmem
  · refine Wp.bind (M := fun s' _ W' => s' = s ∧ W' = W ∧ s.epoch = 0)
      (Wp.ite (fun he => Wp.pure ⟨rfl, rfl, he⟩) fun _ => Wp.halt (by decide)) ?_
    rintro s _ W ⟨rfl, rfl, hepoch⟩
    have ids : KeepsStep (fun s W => Rested φ s W ∧ Fresh fd s ∧ On fd (Conn.Joins .running) W.1)
        (launchIds fd msg) := by
      refine Routine.launchIds (fun s s' W h hp hb _ => ⟨h.1.congr hp hb, ?_, h.2.2⟩)
        (fun s W h => by decide) (fun s W h => by decide) fd msg
      exact fun n hn => h.2.1 n (hp ▸ hn)
    refine (((ids s W ⟨h, hfresh, hjoins⟩).and_rets (rets_launchIds s fd msg)).and_rets
      (rets_launchIds_numPeers s fd msg)).bind ?_
    rintro s₁ a W₁ ⟨⟨⟨h, hfresh, hjoins⟩, rfl, -, -, hst⟩, hpeers⟩
    refine (stepWp_registerProc lasting_true h trivial hfresh (hst ▸ hjoins) (hst ▸ not_busy_running)
      (fun _ => ne_of_not_busy) fun _ _ _ _ _ => trivial).mono ?_
    rintro s' _ W' ⟨h, -, rfl⟩
    exact ⟨h, List.cons_ne_nil _ _, hpeers, .inl hepoch⟩

/-- **A restart**: the process waits at the barrier. -/
theorem stepWp_coordConnectWithProcessOnRestart {msg : XndMsg} (hK : Lasting K)
    (h : Arrived φ P fd msg s W) (hk : K W.1) (hm : msg.hdr = .connectRestart)
    (hP : P .restartInProgress) (hbusy : ∀ st, P st → st ≠ .ckptInProgress) (hsend : ∀ w c (msg : XndMsg), K w →
      (w.conns c).Joins .restartInProgress → K (w.onConn c fun x => { x with down := x.down ++ [msg] })) :
    StepWp (coordConnectWithProcessOnRestart fd msg) s W fun s' _ W' => Held none φ P s' W' ∧
      K W'.1 ∧ s'.procs ≠ [] ∧ s'.epoch = s.epoch ∧ s'.numPeers = s.numPeers := by
  have hjoins : On fd (Conn.Joins .restartInProgress) W.1 := by
    have := h.joins (.inr hm)
    rw [hm] at this
    exact this
  refine Wp.modify_bind (Wp.mono (stepWp_registerProc hK (h.held.congr ?_ ?_) hk h.fresh hjoins hP hbusy
    hsend) ?_)
  · rfl
  · rfl
  rintro s' _ W' ⟨h, hk, rfl⟩
  exact ⟨h, hk, List.cons_ne_nil _ _, rfl, rfl⟩

/-! ### A process that forks -/

/-- **A fork**: the connection is answered while it is the parent's, and is the child's then. -/
theorem stepWp_coordAtfork {msg : XndMsg} (h : Arrived φ (¬ Busy ·) fd msg s W)
    (hm : msg.hdr = .atforkPrepare) :
    StepWp (coordAtfork fd msg) s W fun s' _ W' => Rested φ s' W' := by
  obtain ⟨h, hfresh, hgreets, -, -⟩ := h
  have hids : ∀ s s' (W : Net × Watch), Rested φ s W ∧ Fresh fd s ∧ On fd (Conn.Greets msg) W.1 →
      s'.procs = s.procs → s'.brk = s.brk → s'.epoch = s.epoch →
        Rested φ s' W ∧ Fresh fd s' ∧ On fd (Conn.Greets msg) W.1 :=
    fun s s' W h hp hb _ => ⟨h.1.congr hp hb, fun n hn => h.2.1 n (hp ▸ hn), h.2.2⟩
  have virt : KeepsStep _ coordNextVirtPid :=
    Routine.coordNextVirtPid hids fun s W h => by decide
  have xnd : KeepsStep _ coordNextXndPid := Routine.coordNextXndPid hids
  refine (virt s W ⟨h, hfresh, hgreets⟩).bind fun s virtPid W h => (xnd s W h).bind ?_
  rintro s xndPid W ⟨h, hfresh, hgreets⟩
  refine Wp.bind (M := fun s' (sent : Bool) W' => s' = s ∧ Rested φ s W' ∧
    (sent = true → On fd (fun c => c.taken = 1 ∧ c.Forking) W'.1))
    (stepWp_callOn lasting_true (fun _ _ _ h hx => h.next hx) h trivial hgreets
      fun w (r : Bool) w' hw _ hon _ hr => ⟨rfl, ?_⟩) ?_
  · cases r with
    | false =>
        obtain rfl := List.mem_singleton.mp hr
        exact ⟨⟨hw, h.phase, h.states⟩, fun he => absurd he Bool.false_ne_true⟩
    | true =>
        obtain ⟨c, hc, hg⟩ := hon
        obtain ⟨d, hd, rfl⟩ := mem_sendDone hr
        obtain rfl : d = c := Option.some.inj (hd.symm.trans hc)
        obtain ⟨hside, hsent⟩ := hg.unanswered.forks hg.first hm
        refine ⟨⟨hw.sendFresh hfresh hc ((hw.proper d (hw.wired.bound _ d hc)).send ?_ ?_), h.phase,
          h.states⟩, fun _ => ⟨d, hc, ?_⟩⟩
        · intro pc he
          cases he.symm.trans hside
        · intro b he
          exact ⟨Side.child.inj (he.symm.trans hside), hg.unanswered.1⟩
        · rw [conns_onConn, if_pos rfl]
          exact ⟨hg.taken, hg.unanswered.send hside (by rw [hsent]; rfl)⟩
  rintro s sent W ⟨rfl, h, hsent⟩
  refine Wp.ite (fun hs => Wp.get_bind ?_) fun _ => Wp.halt (by decide)
  cases s.find (·.virtPid = msg.virtPpid) with
  | none => exact Wp.halt (by decide)
  | some n =>
      refine Wp.bind (M := fun s' (r : Option XndMsg) W' => s' = s ∧ Rested φ s W' ∧
        (r ≠ none → On fd (Conn.Joins .running) W'.1))
        (stepWp_callOn lasting_true (fun _ _ _ h hx => ⟨(Conn.taken_next hx).trans h.1, h.2.next hx⟩) h
          trivial (hsent hs) fun w (r : Option XndMsg) w' hw _ hon _ hr => ⟨rfl, ?_⟩) ?_
      · cases r with
        | none =>
            obtain rfl := mem_recvNone hr
            exact ⟨⟨hw, h.phase, h.states⟩, fun he => absurd rfl he⟩
        | some childMsg =>
            obtain ⟨c, hc, htaken, hforking⟩ := hon
            refine ⟨⟨hw.recvFresh hfresh hr, h.phase, h.states⟩, fun _ => ?_⟩
            obtain ⟨d, rest, hd, hup, rfl⟩ := mem_recvSome hr
            obtain rfl : d = c := Option.some.inj (hd.symm.trans hc)
            exact ⟨d, hc, by rw [conns_onConn, if_pos rfl]; exact hforking.take htaken hup⟩
      · rintro s r W ⟨rfl, h, hjoins⟩
        cases r with
        | none => exact Wp.halt (by decide)
        | some childMsg =>
            have hjoins := hjoins (Option.some_ne_none _)
            refine Wp.bind (M := fun s' _ W' => s' = s ∧ W' = W)
              (Wp.ite (fun _ => Wp.pure ⟨rfl, rfl⟩) fun _ => Wp.halt (by decide)) ?_
            rintro s _ W ⟨rfl, rfl⟩
            refine Wp.bind (M := fun s' _ W' => s' = s ∧ W' = W)
              (Wp.ite (fun _ => Wp.pure ⟨rfl, rfl⟩) fun _ => Wp.halt (by decide)) ?_
            rintro s _ W ⟨rfl, rfl⟩
            refine Wp.mono (stepWp_registerProc lasting_true h trivial hfresh hjoins
              not_busy_running (fun _ => ne_of_not_busy) fun _ _ _ _ _ => trivial) ?_
            exact fun _ _ _ h => h.1

/-! ## Connections -/

/-- A command, or a process that asks for a pid. -/
theorem Arrived.aside {msg : XndMsg} (h : Arrived φ P fd msg s W)
    (hm : msg.hdr = .command ∨ PidHdr msg.hdr) : Held (some fd) φ P s W := by
  refine { h.held with lock := { h.held.lock with aside := ?_ } }
  rintro _ ⟨⟩ c hc
  obtain ⟨d, hd, hg⟩ := h.on
  obtain rfl : d = c := Option.some.inj (hd.symm.trans hc)
  exact hg.unanswered.asks hg.first hm

/-- **A connection**, when no restart goes on. -/
theorem stepWp_coordHandleConnection {msg : XndMsg} (h : Arrived φ (¬ Busy ·) fd msg s W)
    (fuel : Nat) : StepWp (coordHandleConnection fuel fd msg) s W fun s' _ W' => Rested φ s' W' := by
  have U := routine_held (some fd) φ (¬ Busy ·)
  have oob : KeepsStep (Held (some fd) φ (¬ Busy ·)) (connectOob fd msg) := by
    refine Keeps.bind Keeps.get fun s => ?_
    cases s.find (·.xndPid = msg.xndPid) with
    | none => exact U.halt rfl
    | some n =>
        refine Keeps.modify fun s W h => ⟨h.lock.mapProcs (fun m => ?_) fun m => ?_, h.phase,
          h.states.setProc n.1 fun _ => rfl⟩
        · split <;> exact ⟨rfl, rfl⟩
        · split <;> rfl
  unfold coordHandleConnection
  split
  next hm =>
    refine (stepWp_coordConnectWithProcessOnLaunch h hm).mono ?_
    exact fun _ _ _ h => h.1
  next hm =>
    have hfirst : Arrived φ (¬ Busy ·) fd msg (if s.procs.length = 0 then
        { s with epoch := msg.epoch, numPeers := msg.numPeers, ckptInterval := msg.ckptInterval,
                 xndUuid := msg.xndUuid } else s) W := by
      split
      · exact ⟨h.held.congr rfl rfl, h.fresh, h.on, h.granted, h.rejoins⟩
      · exact h
    refine Wp.modify_bind (Wp.mono (stepWp_coordConnectWithProcessOnRestart lasting_true hfirst trivial hm
      (by decide) (fun _ => ne_of_not_busy) fun _ _ _ _ _ => trivial) ?_)
    exact fun _ _ _ h => h.1
  next hm => exact stepWp_coordAtfork h hm
  next hm =>
    refine (U.coordHandleCommand (fun _ => keepsStep_coordDoCheckpoint fuel)
      (fun msg _ => keepsStep_ack msg) s W (h.aside (.inl hm))).bind fun s _ W h => ?_
    exact (U.close fd s W h).mono fun _ _ _ h => h.forget
  next hm =>
    refine (oob s W (h.aside (.inr (.inr hm)))).bind fun s _ W h => ?_
    exact (U.coordSendRealToVirt (fun msg _ => keepsStep_ack msg) msg s W h).mono fun _ _ _ h => h.forget
  next hm =>
    refine (oob s W (h.aside (.inr (.inl hm)))).bind fun s _ W h => ?_
    exact (U.coordSendVirtToReal (fun msg _ => keepsStep_ack msg) msg s W h).mono fun _ _ _ h => h.forget
  · exact Wp.halt (by decide)

/-- **Waiting for a connection**, with what is done for one that comes. -/
theorem stepWp_coordWaitForConnection (hK : Lasting K) (h : Held none φ P s W) (hk : K W.1)
    {J : CoordInfo → Net × Watch → Prop} (hnone : ∀ W', Held none φ P s W' → K W'.1 → J s W')
    (fuel : Nat) (hconn : ∀ fd msg W', Arrived φ P fd msg s W' → K W'.1 →
      StepWp (coordHandleConnection fuel fd msg) s W' fun s' _ W' => J s' W') :
    StepWp (coordWaitForConnection fuel) s W fun s' _ W' => J s' W' := by
  refine Wp.get_bind ((stepWp_callLasting hK h hk ?_ ?_ ?_ ?_).bind ?_)
  · exact CoordCall.noConfusion
  · exact fun _ => CoordCall.noConfusion
  · exact fun _ _ => CoordCall.noConfusion
  · exact CoordCall.noConfusion
  rintro s ready W ⟨rfl, h, hk⟩
  rcases ready with _ | _ | ⟨fd, ready⟩
  · exact Wp.pure (hnone W h hk)
  · exact Wp.pure (hnone W h hk)
  · refine (stepWp_sysAccept hK h hk).bind ?_
    rintro s r W ⟨rfl, h, hk, hnew⟩
    cases r with
    | none => exact Wp.pure (hnone W h hk)
    | some fd =>
        obtain ⟨hon, hfresh⟩ := hnew fd rfl
        refine (stepWp_recvFirst hK h hk hfresh hon).bind ?_
        rintro s r W ⟨rfl, h, hk, harrived⟩
        cases r with
        | none => exact Wp.halt (by decide)
        | some msg => exact hconn fd msg W (harrived msg rfl) hk

theorem keepsStep_coordWaitForConnection (fuel : Nat) :
    KeepsStep (Rested φ) (coordWaitForConnection fuel) := fun _ _ h =>
  stepWp_coordWaitForConnection lasting_true h trivial (fun _ h _ => h) fuel
    fun _ _ _ h _ => stepWp_coordHandleConnection h fuel

end Net

end Xnd.Joint
