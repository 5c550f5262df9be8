import Xnd.Joint.Headers
import Xnd.Joint.Pace

/-!
# The coordinator and the checkpoint threads in step

`p->state` says what the coordinator believes of a process: what it has asked of it and what it has
heard.  The thread on the other end has a state of its own.  The invariant is that the connection of
every listed process is in step with its state (`Lockstep`), and that a process saves itself only
while all are in the round (`Staged.together`).

Four things the code relies on without a check are conditions on the answers (`Conforms`): a command
during a restart has no reply that the thread would know of; a restarted process has gone on to the
next epoch; a process that was ready is not lost in the last pass of a suspension; and one that
registers again runs.  The account of them (`Watch`) is noted along the run and changes nothing.
-/
namespace Xnd.Joint
open Coord Code

/-! ## The account -/

/-- What the answers tell of the coordinator. -/
structure Watch where
  phase : Phase
  /-- Since the last pause, a process that was ready for a checkpoint was found to be gone. -/
  missed : Bool
  deriving DecidableEq, Repr

namespace Watch

def init (restart : Bool) : Watch := ⟨if restart = true then .restarting else .launching, false⟩

/-- A process with this pid is ready for a checkpoint. -/
def ReadyPid (s : CoordInfo) (pid : Int) : Prop :=
  ∃ n ∈ s.procs, n.2.realPid = pid ∧ n.2.state = .readyForCkpt

instance (s : CoordInfo) (pid : Int) : Decidable (ReadyPid s pid) :=
  inferInstanceAs (Decidable (∃ n ∈ s.procs, _))

/-- What an answer adds. -/
def follow (s : CoordInfo) (v : Watch) : (c : CoordCall) → c.Answer → Watch
  | .getppid, _ => { v with phase := v.phase.next }
  | .selectWrite _, _ | .usleep, _ => { v with missed := false }
  | .probe pid, (gone : Bool) => { v with missed := v.missed || gone && decide (ReadyPid s pid) }
  | _, _ => v

end Watch

namespace Net
variable {s s' : CoordInfo} {w w' : Net} {v : Watch} {x : Option Int} {p : Nat} {a : Proc} {fd : Int}
  {m : XndMsg}

/-- **What is taken for granted**: no command arrives while a restart goes on, a restarted process
has gone on to the next epoch when it connects, and no process is lost that was ready. -/
def Granted (_ : CoordInfo) (W : Net × Watch) : (c : CoordCall) → c.Answer → Prop
  | .recv _, (some msg : Option XndMsg) => (W.2.phase = .restoring → msg.hdr ≠ .command) ∧
      (msg.hdr = .connectRestart → msg.epoch ≠ 0)
  | .ckptdirCreate _ _, _ => W.2.missed = false
  | _, _ => True

/-- A process that registers again, as one does that executes another image, runs. -/
def Rejoins (s : CoordInfo) : (c : CoordCall) → c.Answer → Prop
  | .recv _, (some msg : Option XndMsg) => msg.hdr = .connectLaunch →
      s.table.realIdExists msg.realPid = true →
        ∀ n ∈ s.find (·.realPid = msg.realPid), n.2.state = .running
  | _, _ => True

/-- **The condition on an answer.** -/
def Conforms (s : CoordInfo) (W : Net × Watch) (c : CoordCall) (r : c.Answer) : Prop :=
  Granted s W c r ∧ Rejoins s c r

instance (s : CoordInfo) (W : Net × Watch) :
    (c : CoordCall) → (r : c.Answer) → Decidable (Granted s W c r)
  | .recv _, (some _ : Option XndMsg) => inferInstanceAs (Decidable (_ ∧ _))
  | .ckptdirCreate _ _, _ => inferInstanceAs (Decidable (_ = false))
  | .recv _, none | .send .., _ | .select _, _ | .selectWrite _, _ | .accept, _ | .close _, _
  | .probe _, _ | .kill .., _ | .getppid, _ | .usleep, _ | .sigprocmask _, _ | .stale, _
  | .elapsed, _ | .iteration, _ | .ckptdirUnlink .., _ | .ckptdirOpen .., _ | .createManifest _, _
  | .ckptfileExists .., _ | .compressedCkptExists .., _ | .writeManifest .., _ =>
      inferInstanceAs (Decidable True)

instance (s : CoordInfo) : (c : CoordCall) → (r : c.Answer) → Decidable (Rejoins s c r)
  | .recv _, (some _ : Option XndMsg) => inferInstanceAs (Decidable (_ → _ → ∀ n ∈ s.find _, _))
  | .recv _, none | .send .., _ | .select _, _ | .selectWrite _, _ | .accept, _ | .close _, _
  | .probe _, _ | .kill .., _ | .getppid, _ | .usleep, _ | .sigprocmask _, _ | .stale, _
  | .elapsed, _ | .iteration, _ | .ckptdirCreate .., _ | .ckptdirUnlink .., _ | .ckptdirOpen .., _
  | .createManifest _, _ | .ckptfileExists .., _ | .compressedCkptExists .., _
  | .writeManifest .., _ => inferInstanceAs (Decidable True)

instance (s : CoordInfo) (W : Net × Watch) (c : CoordCall) (r : c.Answer) :
    Decidable (Conforms s W c r) := inferInstanceAs (Decidable (_ ∧ _))

/-- The environment under the condition. -/
abbrev conforming : World CoordCall.Answer CoordInfo (Net × Watch) :=
  (env.noting Watch.follow).world Conforms

/-- The states of a process that is in a round. -/
def InRound (st : ProcState) : Prop := st = .readyForCkpt ∨ st = .ckptInProgress ∨ st = .ckptComplete

/-- **The list**: as long as a process saves itself, every process is in the round. -/
structure Staged (s : CoordInfo) : Prop extends ListOk s where
  together : (∃ n ∈ s.procs, n.2.state = .ckptInProgress) → InStates InRound s

/-- **The invariant**: the thread of every listed process is in step with its state.  The
descriptor `x` is one over which a pid is asked for or a command has come. -/
structure Lockstep (x : Option Int) (s : CoordInfo) (w : Net) : Prop where
  list : Staged s
  owned : Owned w
  wired : Wired w
  heard : ∀ fd c, w.fds fd = some c → (w.conns c).listening = true
  backlog : ∀ c ∈ w.backlog, (w.conns c).taken = 0 ∧ (w.conns c).Unanswered ∧
    (w.conns c).listening = true
  proper : ∀ c < w.made, (w.conns c).Proper
  step : ∀ n ∈ s.procs, ∀ c, w.fds n.2.fd = some c → (w.conns c).InStep n.2.state
  aside : ∀ fd ∈ x, ∀ c, w.fds fd = some c → (w.conns c).side = .oob ∨ (w.conns c).side = .command

end Net

namespace Conn
variable {c x : Conn} {I : Prop}

theorem listening_steps (h : Relation.ReflTransGen (Next I) c x) : x.listening = c.listening :=
  steps_keep (P := fun x => x.listening = c.listening) (fun _ _ h hx => (listening_next hx).trans h)
    rfl h

theorem taken_steps (h : Relation.ReflTransGen (Next I) c x) : x.taken = c.taken :=
  steps_keep (P := fun x => x.taken = c.taken) (fun _ _ h hx => (taken_next hx).trans h) rfl h

theorem InStep.steps {st : ProcState} (hc : c.InStep st) (hp : c.Proper) (hl : c.listening = true)
    (h : Relation.ReflTransGen (Next I) c x) : x.InStep st :=
  (steps_keep (P := fun x => x.InStep st ∧ x.Proper ∧ x.listening = true)
    (fun _ _ h hx => ⟨h.1.next h.2.1.taken h.2.2 hx, h.2.1.next hx, (listening_next hx).trans h.2.2⟩)
    ⟨hc, hp, hl⟩ h).1

/-- The ends of the two kinds stay what they are. -/
theorem aside_next (hx : Next I c x) (h : c.side = .oob ∨ c.side = .command) :
    x.side = .oob ∨ x.side = .command := by
  cases hx with
  | thread hx =>
      obtain ⟨pc, hpc⟩ := (threads_of_threadNext hx).side.1
      rcases h with h | h <;> cases h.symm.trans hpc
  | disconnects hside => rcases h with h | h <;> cases h.symm.trans hside
  | requests hside => exact .inl (side_say.trans hside)
  | replied => exact h
  | answered hside => rcases h with h | h <;> cases h.symm.trans hside
  | forks hside => rcases h with h | h <;> cases h.symm.trans hside
  | hangsUp => exact h

theorem fresh_of_begins {owner : Option Nat} (h : Begins I owner c) :
    c.taken = 0 ∧ c.listening = true := by
  cases h <;> exact ⟨rfl, rfl⟩

end Conn

namespace Net
variable {s s' : CoordInfo} {w w' : Net} {v : Watch} {x : Option Int} {p : Nat} {a : Proc} {fd : Int}
  {m : XndMsg}

/-- **A move** keeps the invariant. -/
theorem Lockstep.move (h : Lockstep x s w) {m : Move} (hm : Net.move m w = some w') :
    Lockstep x s w' := by
  have he := evolves_move h.owned hm
  have hback : ∀ c ∈ w.backlog, (w'.conns c).taken = 0 ∧ (w'.conns c).Unanswered ∧
      (w'.conns c).listening = true := by
    intro c hc
    obtain ⟨htaken, hun, hl⟩ := h.backlog c hc
    have hsteps := he.old c (h.wired.below c hc)
    exact ⟨(Conn.taken_steps hsteps).trans htaken,
      Conn.steps_keep (fun _ _ h hx => h.next hx) hun hsteps, (Conn.listening_steps hsteps).trans hl⟩
  refine ⟨h.list, h.owned.move hm, h.wired.evolves he, fun fd c hc => ?_, fun c hc => ?_,
    fun c hc => ?_, fun n hn c hc => ?_, fun fd hfd c hc => ?_⟩
  · rw [he.fds] at hc
    exact (Conn.listening_steps (he.old c (h.wired.bound fd c hc))).trans (h.heard fd c hc)
  · rcases he.grows with ⟨-, hbacklog⟩ | ⟨-, hbacklog, owner, hnew⟩
    · exact hback c (hbacklog ▸ hc)
    · rw [hbacklog, List.mem_append, List.mem_singleton] at hc
      rcases hc with hc | rfl
      · exact hback c hc
      · obtain ⟨htaken, hl⟩ := Conn.fresh_of_begins hnew
        exact ⟨htaken, (Conn.proper_of_begins hnew).2, hl⟩
  · by_cases hlt : c < w.made
    · exact Conn.steps_keep (fun _ _ h hx => h.next hx) (h.proper c hlt) (he.old c hlt)
    · rcases he.grows with ⟨hmade, -⟩ | ⟨hmade, -, owner, hnew⟩
      · omega
      · obtain rfl : c = w.made := by omega
        exact (Conn.proper_of_begins hnew).1
  · rw [he.fds] at hc
    have hlt := h.wired.bound _ c hc
    exact (h.step n hn c hc).steps (h.proper c hlt) (h.heard _ c hc) (he.old c hlt)
  · rw [he.fds] at hc
    exact Conn.steps_keep (fun _ _ h hx => Conn.aside_next hx h) (h.aside fd hfd c hc)
      (he.old c (h.wired.bound fd c hc))

/-! ## What the coordinator does -/

/-- No process comes to a state in which none has been. -/
theorem Staged.of (h : Staged s) (hlist : ListOk s')
    (hs : ∀ n ∈ s'.procs, ∃ m ∈ s.procs, m.2.state = n.2.state) : Staged s' where
  toListOk := hlist
  together := by
    rintro ⟨n, hn, hst⟩ n' hn'
    obtain ⟨m, hm, he⟩ := hs n hn
    obtain ⟨m', hm', he'⟩ := hs n' hn'
    exact he' ▸ h.together ⟨m, hm, he.trans hst⟩ m' hm'

/-- A process comes to another state, and does not begin to save itself. -/
theorem Staged.setState (h : Staged s) (ha : s.proc p = some a) {st : ProcState}
    (hround : InRound a.state → InRound st) (hst : st = .ckptInProgress → a.state = .ckptInProgress) :
    Staged (s.setProc p fun a => { a with state := st }) where
  toListOk := h.setProc fun _ => rfl
  together := by
    have at_p : ∀ m ∈ s.procs, m.1 = p → m.2 = a := fun m hm hp => h.eq_of_proc (hp ▸ hm) ha
    rintro ⟨n, hn, hn'⟩
    have hs : InStates InRound s := by
      obtain ⟨m, hm, rfl⟩ := List.mem_map.mp hn
      refine h.together ⟨m, hm, ?_⟩
      by_cases hp : m.1 = p
      · rw [if_pos hp] at hn'
        rw [at_p m hm hp]
        exact hst hn'
      · rw [if_neg hp] at hn'
        exact hn'
    intro n hn
    obtain ⟨m, hm, rfl⟩ := List.mem_map.mp hn
    by_cases hp : m.1 = p
    · rw [if_pos hp]
      exact hround (at_p m hm hp ▸ hs m hm)
    · rw [if_neg hp]
      exact hs m hm

/-- The list changes. -/
theorem Lockstep.procs (h : Lockstep x s w) (hlist : Staged s')
    (hstep : ∀ n ∈ s'.procs, ∀ c, w.fds n.2.fd = some c → (w.conns c).InStep n.2.state) :
    Lockstep x s' w := { h with list := hlist, step := hstep }

/-- Processes leave, and what is left changes in nothing the invariant speaks of. -/
theorem Lockstep.shrink (h : Lockstep x s w) (hs : s'.procs.Sublist s.procs) (hb : s'.brk = s.brk) :
    Lockstep x s' w :=
  h.procs (h.list.of (h.list.sublist hs hb) fun n hn => ⟨n, hs.subset hn, rfl⟩)
    fun n hn => h.step n (hs.subset hn)

theorem Lockstep.congr (h : Lockstep x s w) (hp : s'.procs = s.procs) (hb : s'.brk = s.brk) :
    Lockstep x s' w := h.shrink (by rw [hp]) hb

/-- The processes change in what the invariant does not speak of. -/
theorem Lockstep.mapProcs (h : Lockstep x s w) {g : Nat × Proc → Nat × Proc}
    (hg : ∀ n, (g n).1 = n.1 ∧ (g n).2.fd = n.2.fd) (hst : ∀ n, (g n).2.state = n.2.state) :
    Lockstep x { s with procs := s.procs.map g } w := by
  refine h.procs (h.list.of (h.list.mapProcs hg) fun n hn => ?_) fun n hn c hc => ?_
  · obtain ⟨m, hm, rfl⟩ := List.mem_map.mp hn
    exact ⟨m, hm, (hst m).symm⟩
  obtain ⟨m, hm, rfl⟩ := List.mem_map.mp hn
  rw [(hg m).2] at hc
  rw [hst]
  exact h.step m hm c hc

/-- A descriptor is the descriptor of one process. -/
theorem Lockstep.eq_of_fd (h : Lockstep x s w) {n n' : Nat × Proc} (hn : n ∈ s.procs)
    (hn' : n' ∈ s.procs) (he : n.2.fd = n'.2.fd) : n = n' :=
  List.inj_on_of_nodup_map h.list.fds hn hn' he

/-- **A step on a connection that has been accepted**, with what becomes of the list. -/
theorem Lockstep.onConn (h : Lockstep x s w) {c : Nat} {f : Conn → Conn} (hfd : w.fds fd = some c)
    (howner : (f (w.conns c)).owner = (w.conns c).owner)
    (hside : (f (w.conns c)).side = (w.conns c).side)
    (hl : (f (w.conns c)).listening = (w.conns c).listening) (hproper : (f (w.conns c)).Proper)
    (hlist : Staged s')
    (hstep : ∀ n ∈ s'.procs, n.2.fd = fd → (f (w.conns c)).InStep n.2.state)
    (hold : ∀ n ∈ s'.procs, n.2.fd ≠ fd → ∃ n' ∈ s.procs, n'.2.fd = n.2.fd ∧ n'.2.state = n.2.state) :
    Lockstep x s' (w.onConn c f) := by
  refine ⟨hlist, h.owned.onConn howner (congrArg Side.kind hside), h.wired.onConn,
    fun fd' d hd => ?_, fun d hd => ?_, fun d hd => ?_, fun n hn d hd => ?_, fun fd' hx d hd => ?_⟩
  · rw [conns_onConn]
    split
    next hdc => exact hl.trans (h.heard fd' c (hdc ▸ hd))
    next => exact h.heard fd' d hd
  · rw [conns_onConn, if_neg]
    · exact h.backlog d hd
    · rintro rfl
      exact h.wired.apart fd d hfd hd
  · rw [conns_onConn]
    split
    · exact hproper
    · exact h.proper d hd
  · by_cases hn' : n.2.fd = fd
    · have hdc : d = c := Option.some.inj ((hn' ▸ hd : w.fds fd = some d).symm.trans hfd)
      rw [conns_onConn, if_pos hdc]
      exact hstep n hn hn'
    · rw [conns_onConn, if_neg]
      · obtain ⟨n', hmem, hfd', hst⟩ := hold n hn hn'
        rw [← hst]
        exact h.step n' hmem d (by rw [hfd']; exact hd)
      · rintro rfl
        exact hn' (h.wired.inj _ _ d hd hfd)
  · rw [conns_onConn]
    split
    next hdc =>
      rw [hside]
      exact h.aside fd' hx c (hdc ▸ hd)
    next => exact h.aside fd' hx d hd

/-- A step on a connection that moves the state of its process. -/
theorem Lockstep.moveState (h : Lockstep x s w) (ha : s.proc p = some a) {c : Nat} {f : Conn → Conn}
    (hfd : w.fds a.fd = some c) (howner : (f (w.conns c)).owner = (w.conns c).owner)
    (hside : (f (w.conns c)).side = (w.conns c).side)
    (hl : (f (w.conns c)).listening = (w.conns c).listening) (hproper : (f (w.conns c)).Proper)
    {st : ProcState} (hst : (f (w.conns c)).InStep st)
    (hlist : Staged (s.setProc p fun a => { a with state := st })) :
    Lockstep x (s.setProc p fun a => { a with state := st }) (w.onConn c f) := by
  refine h.onConn hfd howner hside hl hproper hlist ?_ ?_
  · intro n hn hfd'
    obtain ⟨m, hm, rfl⟩ := List.mem_map.mp hn
    by_cases hp : m.1 = p
    · rw [if_pos hp]
      exact hst
    · rw [if_neg hp] at hfd'
      exact absurd (congrArg Prod.fst (h.eq_of_fd hm (CoordInfo.mem_procs_of_proc ha) hfd')) hp
  · intro n hn hfd'
    obtain ⟨m, hm, rfl⟩ := List.mem_map.mp hn
    by_cases hp : m.1 = p
    · rw [if_pos hp] at hfd'
      have : m.2 = a := h.list.eq_of_proc (hp ▸ hm) ha
      exact absurd (congrArg Proc.fd this) hfd'
    · rw [if_neg hp]
      exact ⟨m, hm, rfl, rfl⟩

theorem isOpen_of_sendDone {msg : XndMsg} (h : w' ∈ w.sendDone fd msg) :
    ∃ c, w.fds fd = some c ∧ (w.conns c).isOpen = true := by
  unfold sendDone at h
  split at h
  next c hc =>
    split at h
    next ho => exact ⟨c, hc, ho⟩
    next => cases h
  next => cases h

/-- **A message that moves a process to another state.** -/
theorem Lockstep.tell (h : Lockstep x s w) (ha : s.proc p = some a) {msg : XndMsg} {st : ProcState}
    (hm : Tells a.state msg.hdr st) (hlist : Staged (s.setProc p fun a => { a with state := st }))
    (hr : w' ∈ w.sendDone a.fd msg) :
    Lockstep x (s.setProc p fun a => { a with state := st }) w' := by
  obtain ⟨c, hc, hopen⟩ := isOpen_of_sendDone hr
  obtain ⟨d, hd, rfl⟩ := mem_sendDone hr
  obtain rfl : d = c := Option.some.inj (hd.symm.trans hc)
  have hst := (h.step _ (CoordInfo.mem_procs_of_proc ha) d hc).send hopen hm
  exact h.moveState ha hc rfl rfl rfl ((h.proper d (h.wired.bound _ d hc)).send_inStep hst) hst hlist

theorem answered_eq_inProgress {st : ProcState} {hdr : XndMsghdr}
    (h : answered st hdr = .ckptInProgress) : .ckptInProgress = st := by
  unfold answered at h
  split at h
  · cases h
  · cases h
  · exact h.symm

theorem inRound_answered {st : ProcState} (hdr : XndMsghdr) (h : InRound st) :
    InRound (answered st hdr) := by
  unfold answered
  split
  · exact .inl rfl
  · exact .inr (.inr rfl)
  · exact h

/-- **A message of a process that is waited for.** -/
theorem Lockstep.answer (h : Lockstep x s w) (ha : s.proc p = some a) {msg : XndMsg}
    (hr : w' ∈ w.recvSome a.fd msg) :
    Lockstep x (s.setProc p fun b => { b with state := answered a.state msg.hdr }) w' := by
  obtain ⟨c, rest, hc, hup, rfl⟩ := mem_recvSome hr
  exact h.moveState ha hc rfl rfl rfl ((h.proper c (h.wired.bound _ c hc)).take hup)
    ((h.step _ (CoordInfo.mem_procs_of_proc ha) c hc).take hup)
    (h.list.setState ha (inRound_answered msg.hdr) fun he => (answered_eq_inProgress he).symm)

/-- A message that moves no state. -/
theorem Lockstep.recv (h : Lockstep x s w) {msg : XndMsg} (hr : w' ∈ w.recvSome fd msg)
    (hst : ∀ n ∈ s.procs, n.2.fd = fd → answered n.2.state msg.hdr = n.2.state) :
    Lockstep x s w' := by
  obtain ⟨c, rest, hc, hup, rfl⟩ := mem_recvSome hr
  refine h.onConn hc rfl rfl rfl ((h.proper c (h.wired.bound _ c hc)).take hup) h.list
    (fun n hn hfd => ?_) fun n hn _ => ⟨n, hn, rfl, rfl⟩
  have hstep := (h.step n hn c (by rw [hfd]; exact hc)).take hup
  rwa [hst n hn hfd] at hstep

/-- A message to a client that asks for a pid or commands. -/
theorem Lockstep.sendAside (h : Lockstep x s w) {msg : XndMsg} (hr : w' ∈ w.sendDone fd msg)
    (hside : ∀ c, w.fds fd = some c → (w.conns c).side = .oob ∨ (w.conns c).side = .command) :
    Lockstep x s w' := by
  obtain ⟨c, hc, rfl⟩ := mem_sendDone hr
  have hne : ∀ pc, (w.conns c).side ≠ .coord pc := by
    intro pc he
    rcases hside c hc with hs | hs <;> cases hs.symm.trans he
  have hchild : ∀ b, (w.conns c).side ≠ .child b := by
    intro b he
    rcases hside c hc with hs | hs <;> cases hs.symm.trans he
  refine h.onConn hc rfl rfl rfl ((h.proper c (h.wired.bound _ c hc)).send
    (fun pc he => absurd he (hne pc)) fun b he => absurd he (hchild b)) h.list
    (fun n hn hfd => ?_) fun n hn _ => ⟨n, hn, rfl, rfl⟩
  obtain ⟨pc, hpc, -⟩ := h.step n hn c (by rw [hfd]; exact hc)
  exact absurd hpc (hne pc)

/-- A descriptor is closed. -/
theorem Lockstep.close (h : Lockstep x s w) (fd : Int) : Lockstep x s (w.close fd) := by
  unfold Net.close
  split
  next c hc =>
    -- The connection is on no other descriptor, and not in the backlog.
    have apart : ∀ {fd' d}, Function.update w.fds fd none fd' = some d →
        w.fds fd' = some d ∧ (w.onConn c ({ · with listening := false })).conns d = w.conns d := by
      intro fd' d hd
      rw [Function.update_apply] at hd
      split at hd
      · cases hd
      next hne =>
        refine ⟨hd, (conns_onConn d).trans (if_neg ?_)⟩
        rintro rfl
        exact hne (h.wired.inj _ _ d hd hc)
    have hon := h.owned.onConn (c := c) (f := ({ · with listening := false })) rfl rfl
    refine ⟨h.list, ⟨hon.born, hon.coord, hon.oob, hon.child⟩, h.wired.unbind fd, fun fd' d hd => ?_,
      fun d hd => ?_, fun d hd => ?_, fun n hn d hd => ?_, fun fd' hx d hd => ?_⟩
    · obtain ⟨hd, he⟩ := apart hd
      exact he ▸ h.heard fd' d hd
    · have he : (w.onConn c ({ · with listening := false })).conns d = w.conns d := by
        refine (conns_onConn d).trans (if_neg ?_)
        rintro rfl
        exact h.wired.apart fd d hc hd
      exact he ▸ h.backlog d hd
    · show ((w.onConn c ({ · with listening := false })).conns d).Proper
      rw [conns_onConn]
      split
      next hdc =>
        have hp := h.proper c (hdc ▸ hd)
        exact ⟨hp.taken, hp.thread, hp.child, hp.connected, hp.oob⟩
      next => exact h.proper d hd
    · obtain ⟨hd, he⟩ := apart hd
      exact he ▸ h.step n hn d hd
    · obtain ⟨hd, he⟩ := apart hd
      exact he ▸ h.aside fd' hx d hd
  next => exact h

/-- **An answer** that brings and sends no message. -/
theorem Lockstep.respond (h : Lockstep x s w) {call : CoordCall} {r : call.Answer}
    (haccept : call ≠ .accept) (hrecv : ∀ fd, call ≠ .recv fd) (hsend : ∀ fd msg, call ≠ .send fd msg)
    (hr : w' ∈ Net.respond s w call r) : Lockstep x s w' := by
  obtain rfl | ⟨fd, he, -⟩ | ⟨fd, msg, he, -⟩ | ⟨fd, msg, he, -⟩ | ⟨fd, -, rfl⟩ := respond_cases hr
  · exact h
  · cases he
    exact absurd rfl haccept
  · cases he
    exact absurd rfl (hrecv fd)
  · cases he
    exact absurd rfl (hsend fd msg)
  · exact h.close fd

/-- A connection is accepted. -/
theorem Lockstep.accept (h : Lockstep none s w) (hr : w' ∈ w.accept s fd) :
    Lockstep none s w' ∧ ∃ c, w'.fds fd = some c ∧ (w'.conns c).taken = 0 ∧
      (w'.conns c).Unanswered ∧ ∀ n ∈ s.procs, n.2.fd ≠ fd := by
  obtain ⟨c, rest, hb, hfd, -, -, hfresh, rfl⟩ := mem_accept hr
  have hback : ∀ d ∈ rest, d ∈ w.backlog := fun d hd => hb ▸ List.mem_cons_of_mem _ hd
  obtain ⟨htaken, hun, hl⟩ := h.backlog c (hb ▸ List.mem_cons_self)
  have hne : ∀ n ∈ s.procs, n.2.fd ≠ fd := by
    intro n hn he
    refine hfresh n hn ?_
    unfold watchedFds
    split <;> simp [he]
  refine ⟨⟨h.list, ⟨h.owned.born, h.owned.coord, h.owned.oob, h.owned.child⟩, h.wired.accept hb hfd,
    fun fd' d hd => ?_, fun d hd => h.backlog d (hback d hd), h.proper, fun n hn d hd => ?_,
    fun _ hx => by cases hx⟩, c, Function.update_self .., htaken, hun, hne⟩
  · simp only [Function.update_apply] at hd
    split at hd
    · exact Option.some.inj hd ▸ hl
    · exact h.heard fd' d hd
  · refine h.step n hn d ?_
    exact (Function.update_of_ne (hne n hn) _ _).symm.trans hd

/-! ## Between two calls -/

/-- The message that comes next is expected by the thread that receives it. -/
def Expected (c : Conn) : Prop :=
  ∀ pc m, c.side = .coord pc → pc ≠ .ended → c.down.head? = some m → (pc.receive m).isSome = true

/-- **The two state machines agree**: the thread of every listed process is in step with its
state, short of the answer to a process that registers again, every message that comes to a
thread is one that it expects, and processes save themselves only with all in the round. -/
structure Agree (s : CoordInfo) (w : Net) : Prop where
  step : ∀ n ∈ s.procs, ∀ c, w.fds n.2.fd = some c →
    (w.conns c).InStep n.2.state ∨ n.2.state = .running ∧ (w.conns c).Joins .running
  expected : ∀ c < w.made, Expected (w.conns c)
  together : (∃ n ∈ s.procs, n.2.state = .ckptInProgress) → InStates InRound s

theorem Lockstep.expected (h : Lockstep x s w) {c : Nat} (hc : c < w.made) : Expected (w.conns c) := by
  intro pc m hside hne hm
  obtain ⟨pc', hreads⟩ := ((h.proper c hc).thread pc hside).resolve_left hne
  obtain ⟨rest, hdown⟩ := List.head?_eq_some_iff.mp hm
  rw [hdown, ThreadPc.reads] at hreads
  obtain ⟨pc₁, hpc₁, -⟩ := Option.bind_eq_some_iff.mp hreads
  rw [hpc₁]
  rfl

theorem Lockstep.agree (h : Lockstep x s w) : Agree s w :=
  ⟨fun n hn c hc => .inl (h.step n hn c hc), fun _ hc => h.expected hc, h.list.together⟩

/-- The code keeps `I`, the machines agree at every call, and every process is in the state that
is asserted. -/
abbrev KeepsStep (I : CoordInfo → Net × Watch → Prop) {α : Type} (m : InfoM α) : Prop :=
  Keeps (𝒲 := conforming) (fun s W => Agree s W.1)
    (fun _ e _ => e ≠ .assertion .procState) I m

abbrev StepWp {α : Type} (m : InfoM α) (s : CoordInfo) (W : Net × Watch)
    (fin : CoordInfo → α → Net × Watch → Prop) : Prop :=
  Wp conforming (fun s W => Agree s W.1) (fun _ e _ => e ≠ .assertion .procState) m s W fin

/-- The invariant in a phase, with the states that the listed processes are in. -/
structure Held (x : Option Int) (φ : Phase) (P : ProcState → Prop) (s : CoordInfo) (W : Net × Watch) :
    Prop where
  lock : Lockstep x s W.1
  phase : W.2.phase = φ
  states : InStates P s

variable {φ : Phase} {P Q : ProcState → Prop} {W W' : Net × Watch}

theorem Held.mono (h : Held x φ P s W) (hPQ : ∀ st, P st → Q st) : Held x φ Q s W :=
  { h with states := h.states.mono hPQ }

/-- Nothing is known of the states. -/
abbrev HeldAny (x : Option Int) (φ : Phase) : CoordInfo → Net × Watch → Prop := Held x φ fun _ => True

theorem Held.any (h : Held x φ P s W) : HeldAny x φ s W := h.mono fun _ _ => trivial

theorem Held.forget (h : Held x φ P s W) : Held none φ P s W :=
  { h with lock := { h.lock with aside := fun _ hx => by cases hx } }

theorem Held.shrink (h : Held x φ P s W) (hs : s'.procs.Sublist s.procs) (hb : s'.brk = s.brk) :
    Held x φ P s' W :=
  ⟨h.lock.shrink hs hb, h.phase, fun n hn => h.states n (hs.subset hn)⟩

theorem Held.congr (h : Held x φ P s W) (hp : s'.procs = s.procs) (hb : s'.brk = s.brk) :
    Held x φ P s' W := h.shrink (by rw [hp]) hb

theorem phase_follow {c : CoordCall} (hc : c ≠ .getppid) (r : c.Answer) :
    (v.follow s c r).phase = v.phase := by
  unfold Watch.follow
  split
  · exact absurd rfl hc
  all_goals rfl

/-- A call, with something else that is known of the clients. -/
theorem stepWp_callWith {c : CoordCall} {fin : CoordInfo → c.Answer → Net × Watch → Prop}
    (K : Net → Prop) (hK : ∀ w m w', Lockstep x s w → K w → Net.move m w = some w' → K w')
    (h : Held x φ P s W) (hw : K W.1)
    (hfin : ∀ w r w', Lockstep x s w → K w → Conforms s (w, W.2) c r → w' ∈ Net.respond s w c r →
      fin s r (w', W.2.follow s c r)) : StepWp (Code.call c) s W fin :=
  Env.wp_call_noting (fun w => Lockstep x s w ∧ K w)
    (fun w m w' hw hm => ⟨hw.1.move hm, hK w m w' hw.1 hw.2 hm⟩) ⟨h.lock, hw⟩
    (fun _ hw => hw.1.agree) fun w r w' hw => hfin w r w' hw.1 hw.2

theorem stepWp_call {c : CoordCall} {fin : CoordInfo → c.Answer → Net × Watch → Prop}
    (h : Held x φ P s W) (hfin : ∀ w r w', Lockstep x s w → Conforms s (w, W.2) c r →
      w' ∈ Net.respond s w c r → fin s r (w', W.2.follow s c r)) : StepWp (Code.call c) s W fin :=
  stepWp_callWith (fun _ => True) (fun _ _ _ _ _ _ => trivial) h trivial
    fun w r w' hw _ => hfin w r w' hw

/-- A call that brings and sends no message. -/
theorem keepsStep_call {c : CoordCall} (haccept : c ≠ .accept) (hrecv : ∀ fd, c ≠ .recv fd)
    (hsend : ∀ fd msg, c ≠ .send fd msg) (hppid : c ≠ .getppid) :
    KeepsStep (Held x φ P) (Code.call c) := fun _ _ h =>
  stepWp_call h fun _ r _ hw _ hr =>
    ⟨hw.respond haccept hrecv hsend hr, (phase_follow hppid r).trans h.phase, h.states⟩

/-- **The invariant survives the calls that are made in any place.** -/
theorem routine_held (x : Option Int) (φ : Phase) (P : ProcState → Prop) :
    Routine conforming (fun s W => Agree s W.1)
      (fun _ e _ => e ≠ .assertion .procState) (Held x φ P) where
  stop s W e h he := by rintro rfl; cases he
  call c hc := by
    refine keepsStep_call ?_ ?_ ?_ ?_
    · rintro rfl; cases hc
    · rintro fd rfl; cases hc
    · rintro fd msg rfl; cases hc
    · rintro rfl; cases hc

/-- Calls on files. -/
theorem keepsStep_file (c : CoordCall) (hc : c.file = true) : KeepsStep (Held x φ P) (Code.call c) := by
  refine keepsStep_call ?_ ?_ ?_ ?_
  · rintro rfl; cases hc
  · rintro fd rfl; cases hc
  · rintro fd msg rfl; cases hc
  · rintro rfl; cases hc

/-- A message to a client that asks for a pid or commands. -/
theorem keepsStep_ack (msg : XndMsg) : KeepsStep (Held (some fd) φ P) (coordSendMsg fd msg) := by
  intro s W h
  refine stepWp_call h fun w (r : Bool) w' hw _ hr => ?_
  cases r with
  | true => exact ⟨hw.sendAside hr (hw.aside fd rfl), h.phase, h.states⟩
  | false =>
      obtain rfl := List.mem_singleton.mp hr
      exact ⟨hw, h.phase, h.states⟩

theorem stepWp_listRemove (h : Held x φ P s W) (p : Nat) :
    StepWp (listRemove p) s W fun s' _ W' => Held x φ P s' W' ∧ W'.2 = W.2 := by
  have close : ∀ {s W v} (fd : Int), Held x φ P s W ∧ W.2 = v → StepWp (closeIfOpen fd) s W
      fun s' _ W' => Held x φ P s' W' ∧ W'.2 = v := by
    rintro s W v fd ⟨h, hv⟩
    refine Wp.ite (fun _ => stepWp_call h fun w r w' hw _ hr => ?_) fun _ => Wp.pure ⟨h, hv⟩
    exact ⟨⟨hw.respond CoordCall.noConfusion (fun _ => CoordCall.noConfusion)
      (fun _ _ => CoordCall.noConfusion) hr, h.phase, h.states⟩, hv⟩
  refine Wp.bind (M := fun s' _ W' => s' = s ∧ W' = W)
    (wp_listProc (fun _ => by decide) fun _ _ => ⟨rfl, rfl⟩) ?_
  rintro s a W ⟨rfl, rfl⟩
  have hdrop : Held x φ P (s.drop p) W := h.shrink List.filter_sublist rfl
  refine Wp.modify_bind ((close a.fd ⟨hdrop, rfl⟩).bind ?_)
  rintro s _ W₁ h
  refine (close a.oobFd h).bind ?_
  exact fun s _ W₂ h => Wp.modify ⟨h.1.congr rfl rfl, h.2⟩

theorem keepsStep_listRemove (p : Nat) : KeepsStep (Held x φ P) (listRemove p) :=
  fun _ _ h => (stepWp_listRemove h p).mono fun _ _ _ h => h.1

/-! ## Messages of registered clients -/

theorem answered_of_not_busy {st : ProcState} (h : ¬ Busy st) (hdr : XndMsghdr) :
    answered st hdr = st := by
  unfold answered
  split
  · exact absurd (.inl rfl) h
  · exact absurd (.inr rfl) h
  · rfl

/-- **A message that comes when no round goes on** moves no state. -/
theorem stepWp_recv (h : Held none φ (¬ Busy ·) s W) (fd : Int) :
    StepWp (coordRecvMsg fd) s W fun s' r W' => s' = s ∧ Held none φ (¬ Busy ·) s W' ∧
      ∀ msg : XndMsg, r = some msg → PidHdr msg.hdr → Held (some fd) φ (¬ Busy ·) s W' := by
  refine stepWp_call h fun w (r : Option XndMsg) w' hw _ hr => ⟨rfl, ?_⟩
  cases r with
  | none =>
      obtain rfl := mem_recvNone hr
      exact ⟨⟨hw, h.phase, h.states⟩, fun _ he => by cases he⟩
  | some msg =>
      have hw' : Lockstep none s w' :=
        hw.recv hr fun n hn _ => answered_of_not_busy (h.states n hn) msg.hdr
      refine ⟨⟨hw', h.phase, h.states⟩, fun msg' he hpid => ⟨{ hw' with aside := ?_ }, h.phase, h.states⟩⟩
      obtain rfl := Option.some.inj he
      obtain ⟨c, rest, hc, hup, rfl⟩ := mem_recvSome hr
      rintro _ ⟨⟩ d hd
      obtain rfl : d = c := Option.some.inj (hd.symm.trans hc)
      rw [conns_onConn, if_pos rfl]
      refine .inl ((hw.proper d (hw.wired.bound _ d hc)).oob msg ?_ hpid)
      exact List.mem_of_mem_drop (by rw [← Conn.up, hup]; exact List.mem_cons_self)

/-- What is known between two connections. -/
abbrev Rested (φ : Phase) : CoordInfo → Net × Watch → Prop := Held none φ (¬ Busy ·)

/-- `coord_handle_msg`. -/
theorem stepWp_coordHandleMsg {msg : XndMsg} (h : Rested φ s W)
    (hpid : PidHdr msg.hdr → Held (some fd) φ (¬ Busy ·) s W) :
    StepWp (coordHandleMsg fd msg) s W fun s' _ W' => Rested φ s' W' := by
  have U := routine_held (some fd) φ (¬ Busy ·)
  unfold coordHandleMsg
  split
  · refine Wp.get_bind ?_
    cases s.find _ with
    | none => exact Wp.pure h
    | some n => exact keepsStep_listRemove n.1 s W h
  next he =>
    exact (U.coordSendVirtToReal (fun msg _ => keepsStep_ack msg) msg s W (hpid (.inl he))).mono
      fun _ _ _ h => h.forget
  next he =>
    exact (U.coordSendRealToVirt (fun msg _ => keepsStep_ack msg) msg s W (hpid (.inr he))).mono
      fun _ _ _ h => h.forget
  · exact Wp.halt (by decide)

theorem keepsStep_serveOobFd (ready : List Int) (p : Nat) :
    KeepsStep (Rested φ) (serveOobFd ready p) := by
  have U := routine_held none φ (¬ Busy ·)
  have hfd : KeepsStep (Rested φ) (oobFdOf p) := by
    refine Keeps.bind Keeps.get fun s => ?_
    cases s.proc p with
    | none => exact U.call .stale rfl
    | some a => exact Keeps.pure _
  refine Keeps.bind hfd fun fd => Keeps.ite (fun _ s W h => ?_) fun _ => Keeps.pure ()
  refine (stepWp_recv h fd).bind ?_
  rintro s r W ⟨rfl, h, hpid⟩
  cases r with
  | none => exact keepsStep_listRemove p s W h
  | some msg => exact stepWp_coordHandleMsg h (hpid msg rfl)

theorem keepsStep_serveProc (ready : List Int) (p : Nat) :
    KeepsStep (Rested φ) (serveProc ready p) := by
  have U := routine_held none φ (¬ Busy ·)
  have oob : KeepsStep (Rested φ) (serveOobFd ready p) := keepsStep_serveOobFd ready p
  refine Keeps.bind (U.listProc p) fun a => Keeps.ite (fun _ s W h => ?_) fun _ => oob
  refine (stepWp_recv h a.fd).bind ?_
  rintro s r W ⟨rfl, h, hpid⟩
  cases r with
  | none => exact keepsStep_listRemove p s W h
  | some msg =>
      exact (stepWp_coordHandleMsg h (hpid msg rfl)).bind fun s _ W h => oob s W h

end Net

end Xnd.Joint
