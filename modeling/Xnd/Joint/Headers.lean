import Xnd.Coord.Frame
import Xnd.Coord.Phases
import Xnd.Coord.Routine
import Xnd.Joint.Cycle
import Xnd.Joint.Talk

/-!
# Which messages the coordinator receives

The first message on a connection is one that the `switch` of `coord_wait_for_connection`
handles, and the later ones are handled by `coord_handle_msg`, except those of a round:
`XND_CKPT_READY` and `XND_CKPT_DONE` are received where the round waits for them.  A
process owes at most one of them at a time, and only while its state says so (`Told`); when
no round goes on none is owed.

So neither `switch` comes to its default (`headers_handled`), in the runs in which
`notify_coord_of_exit` does not have to connect, since `XND_EXIT` is the first message then
(`not_headers_handled`), and a round is abandoned only with every request answered.
-/
namespace Xnd.Joint
open Coord Code

/-- The states in which the coordinator waits for an answer of the process. -/
def Busy (st : ProcState) : Prop := st = .recvCkptRequest ∨ st = .ckptInProgress

instance (st : ProcState) : Decidable (Busy st) := inferInstanceAs (Decidable (_ ∨ _))

namespace Net
variable {s s' : CoordInfo} {w w' : Net} {x : Option Int} {p : Nat} {a : Proc} {fd : Int}

/-- How many answers the coordinator waits for on a descriptor. -/
def due (s : CoordInfo) (fd : Int) : Nat :=
  if ∃ n ∈ s.procs, n.2.fd = fd ∧ Busy n.2.state then 1 else 0

/-- **The condition on an answer**: a round is abandoned only with every request answered. -/
def Answered (s : CoordInfo) (_ : Net) : (c : CoordCall) → c.Answer → Prop
  | .ckptdirCreate _ _, false => ∀ n ∈ s.procs, n.2.state ≠ .recvCkptRequest
  | _, _ => True

instance (s : CoordInfo) (w : Net) : (c : CoordCall) → (r : c.Answer) → Decidable (Answered s w c r)
  | .ckptdirCreate _ _, false => inferInstanceAs (Decidable (∀ n ∈ s.procs, _))
  | .ckptdirCreate _ _, true | .send .., _ | .select _, _ | .selectWrite _, _ | .accept, _
  | .recv _, _ | .close _, _ | .probe _, _ | .kill .., _ | .getppid, _ | .usleep, _
  | .sigprocmask _, _ | .stale, _ | .elapsed, _ | .iteration, _ | .ckptdirUnlink .., _
  | .ckptdirOpen .., _ | .createManifest _, _ | .ckptfileExists .., _
  | .compressedCkptExists .., _ | .writeManifest .., _ => inferInstanceAs (Decidable True)

/-- The environment under the two conditions. -/
abbrev introduced : World CoordCall.Answer CoordInfo Net := (env.limit Introduced).world Answered

/-- **The invariant**: what comes on a descriptor is what a registered client says, and it owes no
more than the coordinator waits for.  Nothing is known of the descriptor `x`. -/
structure Told (x : Option Int) (s : CoordInfo) (w : Net) : Prop where
  list : ListOk s
  owned : Owned w
  wired : Wired w
  opened : ∀ c < w.made, (w.conns c).Opened
  backlog : ∀ c ∈ w.backlog, (w.conns c).taken = 0 ∧ (w.conns c).debt = 0
  bound : ∀ fd c, w.fds fd = some c → x ≠ some fd → (w.conns c).Talks ∧ (w.conns c).debt ≤ due s fd

/-- What a move leaves of a connection. -/
theorem Told.follows (h : Told x s w) {m : Move} (hm : (env.limit Introduced).move m w = some w')
    {c : Nat} (hc : c < w.made) : Conn.Follows (w.conns c) (w'.conns c) := by
  obtain ⟨hintro, hm⟩ := env.move_limit hm
  exact Conn.follows_of_reach hintro (h.opened c hc) ((evolves_move h.owned hm).old c hc)

/-- **A move** keeps the invariant. -/
theorem Told.move (h : Told x s w) {m : Move} (hm : (env.limit Introduced).move m w = some w') :
    Told x s w' := by
  have follows : ∀ c < w.made, Conn.Follows (w.conns c) (w'.conns c) := fun c hc => h.follows hm hc
  obtain ⟨hintro, hm⟩ := env.move_limit hm
  have he := evolves_move h.owned hm
  refine ⟨h.list, h.owned.move hm, h.wired.evolves he, ?_, ?_, fun fd c hc hx => ?_⟩
  · intro c hc
    by_cases hlt : c < w.made
    · exact (follows c hlt).opened
    · rcases he.grows with ⟨hmade, -⟩ | ⟨hmade, -, owner, hnew⟩
      · omega
      · obtain rfl : c = w.made := by omega
        exact (Conn.opened_of_begins hintro hnew).1
  · intro c hc
    have old : c ∈ w.backlog → (w'.conns c).taken = 0 ∧ (w'.conns c).debt = 0 := by
      intro hold
      have hf := follows c (h.wired.below c hold)
      obtain ⟨htaken, hdebt⟩ := h.backlog c hold
      exact ⟨hf.taken.trans htaken, Nat.le_zero.mp (hf.debt.trans (Nat.le_of_eq hdebt))⟩
    rcases he.grows with ⟨-, hbacklog⟩ | ⟨-, hbacklog, owner, hnew⟩
    · exact old (hbacklog ▸ hc)
    · rw [hbacklog, List.mem_append, List.mem_singleton] at hc
      rcases hc with hc | rfl
      · exact old hc
      · exact (Conn.opened_of_begins hintro hnew).2
  · rw [he.fds] at hc
    obtain ⟨htalks, hdebt⟩ := h.bound fd c hc hx
    have hf := follows c (h.wired.bound fd c hc)
    exact ⟨hf.talks htalks, hf.debt.trans hdebt⟩

/-! ## What the coordinator does -/

theorem due_le_one (s : CoordInfo) (fd : Int) : due s fd ≤ 1 := by
  unfold due
  split <;> decide

theorem due_mono (h : ∀ n ∈ s.procs, n.2.fd = fd → Busy n.2.state →
    ∃ n ∈ s'.procs, n.2.fd = fd ∧ Busy n.2.state) : due s fd ≤ due s' fd := by
  unfold due
  by_cases hs : ∃ n ∈ s.procs, n.2.fd = fd ∧ Busy n.2.state
  · obtain ⟨n, hn, hfd, hbusy⟩ := hs
    rw [if_pos (h n hn hfd hbusy)]
    split <;> decide
  · rw [if_neg hs]
    exact Nat.zero_le _

/-- A process in whose state nothing is waited for. -/
theorem due_eq_zero (h : ListOk s) (ha : s.proc p = some a) (hidle : ¬ Busy a.state) :
    due s a.fd = 0 := by
  refine if_neg ?_
  rintro ⟨n, hn, hfd, hbusy⟩
  obtain rfl : n = (p, a) :=
    List.inj_on_of_nodup_map h.fds hn (CoordInfo.mem_procs_of_proc ha) hfd
  exact hidle hbusy

/-- The processes change. -/
theorem Told.procs (h : Told x s w) (hlist : ListOk s')
    (hdue : ∀ fd c, w.fds fd = some c → x ≠ some fd → (w.conns c).debt ≤ due s fd →
      (w.conns c).debt ≤ due s' fd) : Told x s' w :=
  { h with
    list := hlist
    bound := fun fd c hc hx =>
      ⟨(h.bound fd c hc hx).1, hdue fd c hc hx (h.bound fd c hc hx).2⟩ }

/-- The list is the same. -/
theorem Told.congr (h : Told x s w) (hp : s'.procs = s.procs) (hb : s'.brk = s.brk) :
    Told x s' w := by
  refine h.procs (h.list.congr hp hb) fun fd c _ _ hd => ?_
  rwa [due, hp]

/-- A process comes to another state: one in which it owes an answer, or one that it comes to
when it owes none. -/
theorem Told.setState (h : Told x s w) (ha : s.proc p = some a) {st : ProcState}
    (hst : Busy st ∨ ∀ c, w.fds a.fd = some c → x ≠ some a.fd → (w.conns c).debt = 0) :
    Told x (s.setProc p fun a => { a with state := st }) w := by
  refine h.procs (h.list.setProc fun _ => rfl) fun fd c hc hx hd => ?_
  by_cases hzero : (w.conns c).debt = 0
  · rw [hzero]
    exact Nat.zero_le _
  refine hd.trans (due_mono fun n hn hfd hbusy => ?_)
  by_cases hp : n.1 = p
  · obtain rfl : n.2 = a := h.list.eq_of_proc (hp ▸ hn) ha
    refine ⟨(p, { n.2 with state := st }), List.mem_map.mpr ⟨n, hn, ?_⟩, hfd, ?_⟩
    · rw [if_pos hp, hp]
    · exact hst.resolve_right fun hst => hzero (hst c (hfd ▸ hc) (hfd ▸ hx))
  · exact ⟨n, List.mem_map.mpr ⟨n, hn, if_neg hp⟩, hfd, hbusy⟩

/-- A step of the coordinator on a connection that it has accepted. -/
theorem Told.onConn (h : Told x s w) {c : Nat} {f : Conn → Conn} (hb : c ∉ w.backlog)
    (howner : (f (w.conns c)).owner = (w.conns c).owner)
    (hside : (f (w.conns c)).side = (w.conns c).side)
    (hsent : (f (w.conns c)).sent = (w.conns c).sent)
    (htalks : (w.conns c).Talks → (f (w.conns c)).Talks)
    (hdebt : ∀ fd, w.fds fd = some c → x ≠ some fd → (f (w.conns c)).debt ≤ due s fd) :
    Told x s (w.onConn c f) := by
  refine ⟨h.list, h.owned.onConn howner (congrArg Side.kind hside), h.wired.onConn,
    fun d hd => ?_, fun d hd => ?_, fun fd d hd hx => ?_⟩
  · rw [conns_onConn]
    split
    next hdc => exact (h.opened c (hdc ▸ hd)).congr hside hsent
    next => exact h.opened d hd
  · rw [conns_onConn, if_neg]
    · exact h.backlog d hd
    · rintro rfl
      exact hb hd
  · rw [conns_onConn]
    split
    next hdc =>
      subst hdc
      exact ⟨htalks (h.bound fd d hd hx).1, hdebt fd hd hx⟩
    next => exact h.bound fd d hd hx

/-- A message is received. -/
theorem Told.recv (h : Told x s w) {msg : XndMsg} (hr : w' ∈ w.recvSome fd msg) :
    Told x s w' := by
  obtain ⟨c, rest, hc, hup, rfl⟩ := mem_recvSome hr
  refine h.onConn (h.wired.apart fd c hc) rfl rfl rfl (fun ht => ht.take hup) fun fd' hfd' hx => ?_
  have := Conn.debt_take hup
  exact Nat.le_trans (by omega) (h.bound fd' c hfd' hx).2

/-- A message is sent with which the coordinator asks for nothing. -/
theorem Told.send (h : Told x s w) {msg : XndMsg} (hmsg : ¬ AskHdr msg.hdr)
    (hr : w' ∈ w.sendDone fd msg) : Told x s w' := by
  obtain ⟨c, hc, rfl⟩ := mem_sendDone hr
  refine h.onConn (h.wired.apart fd c hc) rfl rfl rfl (fun ht => ht.congr ht.side rfl rfl) ?_
  intro fd' hfd' hx
  rw [Conn.debt_send, if_neg hmsg]
  exact (h.bound fd' c hfd' hx).2

theorem fds_close (w : Net) (fd fd' : Int) :
    (w.close fd).fds fd' = if fd' = fd then none else w.fds fd' := by
  unfold Net.close
  split
  next => exact Function.update_apply ..
  next hc =>
    split
    next he => rw [he, hc]
    next => rfl

/-- A descriptor is closed. -/
theorem Told.close (h : Told x s w) (fd : Int) : Told x s (w.close fd) := by
  have hfds := fds_close w fd
  unfold Net.close at hfds ⊢
  split at hfds
  next c hc =>
    have hon : Told x s (w.onConn c ({ · with listening := false })) :=
      h.onConn (h.wired.apart fd c hc) rfl rfl rfl (fun ht => ht.congr ht.side rfl rfl)
        fun fd' hfd' hx => (h.bound fd' c hfd' hx).2
    refine ⟨hon.list, ⟨hon.owned.born, hon.owned.coord, hon.owned.oob, hon.owned.child⟩,
      hon.wired.unbind fd, hon.opened, hon.backlog, fun fd' d hd hx => hon.bound fd' d ?_ hx⟩
    rw [hfds] at hd
    split at hd
    · cases hd
    · exact hd
  next => exact h

/-- A descriptor of which nothing is known is closed. -/
theorem Told.close_self (h : Told (some fd) s w) : Told none s (w.close fd) := by
  have hclosed := h.close fd
  refine { hclosed with bound := fun fd' c hc _ => hclosed.bound fd' c hc ?_ }
  rintro he
  obtain rfl := Option.some.inj he
  rw [fds_close, if_pos rfl] at hc
  cases hc

/-- **An answer** keeps the invariant, but to `accept` and to what asks for an answer. -/
theorem Told.respond (h : Told x s w) {call : CoordCall} {r : call.Answer}
    (hcall : call ≠ .accept) (hask : ∀ fd msg, call = .send fd msg → ¬ AskHdr msg.hdr)
    (hr : w' ∈ Net.respond s w call r) : Told x s w' := by
  obtain rfl | ⟨fd, he, -⟩ | ⟨fd, msg, -, hr⟩ | ⟨fd, msg, he, hr⟩ | ⟨fd, -, rfl⟩ := respond_cases hr
  · exact h
  · cases he
    exact absurd rfl hcall
  · exact h.recv hr
  · cases he
    exact h.send (hask fd msg rfl) hr
  · exact h.close fd

/-! ## Between two calls -/

/-- The ways to stop that are not the two of an unexpected message. -/
def Handled (e : CoordStop) : Prop :=
  e ≠ .exitFailure .unexpectedMessage ∧ e ≠ .exitFailure .unexpectedConnection

theorem handled_of_usual {e : CoordStop} (h : e.usual = true) : Handled e := by
  constructor
  · rintro rfl; cases h
  · rintro rfl; cases h

/-- The code keeps `I`, and comes to no default. -/
abbrev KeepsTold (I : CoordInfo → Net → Prop) {α : Type} (m : InfoM α) : Prop :=
  Keeps (𝒲 := introduced) (fun s w => ∃ x, Told x s w) (fun s e w => (∃ x, Told x s w) ∧ Handled e)
    I m

abbrev ToldWp {α : Type} (m : InfoM α) (s : CoordInfo) (w : Net) (fin : CoordInfo → α → Net → Prop) :
    Prop :=
  Wp introduced (fun s w => ∃ x, Told x s w) (fun s e w => (∃ x, Told x s w) ∧ Handled e) m s w fin

theorem toldWp_call {c : CoordCall} {fin : CoordInfo → c.Answer → Net → Prop} (h : Told x s w)
    (hfin : ∀ w r w', Told x s w → Answered s w c r → w' ∈ Net.respond s w c r → fin s r w') :
    ToldWp (Code.call c) s w fin :=
  Env.wp_call _ (Told x s) (fun _ _ _ h hm => h.move hm) h (fun _ h => ⟨x, h⟩) hfin

/-- The listed processes are such that an assertion about them survives that some leave. -/
def Inherited (P : CoordInfo → Prop) : Prop := ∀ s s', P s → s'.procs ⊆ s.procs → P s'

/-- **The invariant survives the calls that are made in any place.** -/
theorem routine_told (x : Option Int) (P : CoordInfo → Prop) :
    Routine introduced (fun s w => ∃ x, Told x s w) (fun s e w => (∃ x, Told x s w) ∧ Handled e)
      fun s w => Told x s w ∧ P s where
  stop s w e h he := ⟨⟨x, h.1⟩, handled_of_usual he⟩
  call c hc s w h := by
    refine toldWp_call h.1 fun w r w' hw _ hr => ⟨hw.respond ?_ ?_ hr, h.2⟩
    · rintro rfl
      cases hc
    · rintro fd msg rfl
      cases hc

/-- An answer with which the coordinator asks for nothing. -/
theorem keepsTold_ack {P : CoordInfo → Prop} {msg : XndMsg} (hmsg : msg.hdr = .coordAck) :
    KeepsTold (fun s w => Told x s w ∧ P s) (coordSendMsg fd msg) := by
  intro s w h
  refine toldWp_call h.1 fun w r w' hw _ hr => ⟨hw.respond ?_ ?_ hr, h.2⟩
  · exact CoordCall.noConfusion
  · rintro fd msg' he
    cases he
    rintro (hask | hask) <;> rw [hmsg] at hask <;> cases hask

/-- Calls on files. -/
theorem keepsTold_file {P : CoordInfo → Prop} (c : CoordCall) (hc : c.file = true) :
    KeepsTold (fun s w => Told x s w ∧ P s) (Code.call c) := by
  intro s w h
  refine toldWp_call h.1 fun w r w' hw _ hr => ⟨hw.respond ?_ ?_ hr, h.2⟩
  · rintro rfl
    cases hc
  · rintro fd msg rfl
    cases hc

/-- A process is unlinked, and nothing is known of its descriptor. -/
theorem Told.drop (h : Told none s w) (ha : s.proc p = some a) : Told (some a.fd) (s.drop p) w := by
  refine { h with
    list := h.list.sublist List.filter_sublist rfl
    bound := fun fd c hc hx => ⟨(h.bound fd c hc nofun).1, ?_⟩ }
  refine (h.bound fd c hc nofun).2.trans (due_mono fun n hn hfd hbusy => ⟨n, ?_, hfd, hbusy⟩)
  refine List.mem_filter.mpr ⟨hn, decide_eq_true fun hp => hx ?_⟩
  obtain rfl : n.2 = a := h.list.eq_of_proc (hp ▸ hn) ha
  rw [hfd]

theorem keepsTold_listRemove {P : CoordInfo → Prop} (hP : Inherited P) (p : Nat) :
    KeepsTold (fun s w => Told none s w ∧ P s) (listRemove p) := by
  rintro s w ⟨h, hs⟩
  refine Wp.bind (M := fun s' a w' => s' = s ∧ w' = w ∧ s.proc p = some a)
    (wp_listProc (fun _ => ⟨⟨none, h⟩, nofun, nofun⟩) fun a ha => ⟨rfl, rfl, ha⟩) ?_
  rintro s a w ⟨rfl, rfl, ha⟩
  have hdrop : P (s.drop p) := hP s _ hs (List.filter_subset_self _)
  have first : ToldWp (closeIfOpen a.fd) (s.drop p) w fun s' _ w' => Told none s' w' ∧ P s' := by
    have hd := h.drop ha
    refine Wp.ite (fun _ => ?_) fun hfd => Wp.pure ⟨?_, hdrop⟩
    · refine toldWp_call hd fun w r w' hw _ hr => ⟨?_, hdrop⟩
      rw [List.mem_singleton.mp hr]
      exact hw.close_self
    · -- No connection has the descriptor -1.
      refine { hd with bound := fun fd c hc _ => hd.bound fd c hc fun he => ?_ }
      have hnonneg := hd.wired.nonneg fd c hc
      rw [← Option.some.inj he, Decidable.not_not.mp hfd] at hnonneg
      exact absurd hnonneg (by decide)
  refine Wp.modify_bind (first.bind fun s _ w h => ?_)
  have second : KeepsTold (fun s w => Told none s w ∧ P s) (closeIfOpen a.oobFd) :=
    Keeps.ite (fun _ => (routine_told none P).close _) fun _ => Keeps.pure ()
  refine (second s w h).bind fun s _ w h => Wp.modify ⟨h.1.congr rfl rfl, ?_⟩
  exact hP s _ h.2 (List.Subset.refl _)

/-! ## Messages of registered clients -/

/-- No answer is waited for. -/
abbrev Idle : CoordInfo → Prop := InStates fun st => ¬ Busy st

theorem inherited_inStates (P : ProcState → Prop) : Inherited (InStates P) :=
  fun _ _ h hs n hn => h n (hs hn)

theorem due_of_idle (h : Idle s) (fd : Int) : due s fd = 0 := by
  refine if_neg ?_
  rintro ⟨n, hn, -, hbusy⟩
  exact h n hn hbusy

/-- **A message that comes when no round goes on** is one that `coord_handle_msg` handles. -/
theorem toldWp_recv (h : Told none s w) (hidle : Idle s) (fd : Int) :
    ToldWp (coordRecvMsg fd) s w fun s' r w' =>
      s' = s ∧ Told none s w' ∧ ∀ msg : XndMsg, r = some msg → OobHdr msg.hdr := by
  refine toldWp_call h fun w r w' hw _ hr => ⟨rfl, hw.respond ?_ ?_ hr, ?_⟩
  · exact CoordCall.noConfusion
  · exact fun _ _ => CoordCall.noConfusion
  rintro msg rfl
  obtain ⟨c, rest, hc, hup, -⟩ := mem_recvSome hr
  obtain ⟨htalks, hdebt⟩ := hw.bound fd c hc nofun
  have htake := Conn.debt_take hup
  rw [due_of_idle hidle] at hdebt
  refine (htalks.up msg (by rw [hup]; exact List.mem_cons_self)).resolve_right fun hround => ?_
  rw [if_pos hround] at htake
  omega

abbrev Resting (s : CoordInfo) (w : Net) : Prop := Told none s w ∧ Idle s

theorem keepsTold_remove (p : Nat) : KeepsTold Resting (listRemove p) :=
  keepsTold_listRemove (inherited_inStates _) p

/-- `coord_handle_msg`, on what registered clients say. -/
theorem keepsTold_coordHandleMsg {msg : XndMsg} (hmsg : OobHdr msg.hdr) (fd : Int) :
    KeepsTold Resting (coordHandleMsg fd msg) := by
  have U := routine_told none Idle
  unfold coordHandleMsg
  rcases hmsg with hm | hm | hm <;> rw [hm]
  · exact U.coordSendVirtToReal (fun _ => keepsTold_ack) msg
  · exact U.coordSendRealToVirt (fun _ => keepsTold_ack) msg
  · refine Keeps.bind Keeps.get fun s => ?_
    cases s.find _ with
    | none => exact Keeps.pure ()
    | some n => exact keepsTold_remove n.1

theorem keepsTold_serveOobFd (ready : List Int) (p : Nat) :
    KeepsTold Resting (serveOobFd ready p) := by
  have U := routine_told none Idle
  have hfd : KeepsTold Resting (oobFdOf p) := by
    refine Keeps.bind Keeps.get fun s => ?_
    cases s.proc p with
    | none => exact U.call .stale rfl
    | some a => exact Keeps.pure _
  refine Keeps.bind hfd fun fd => Keeps.ite (fun _ => ?_) fun _ => Keeps.pure ()
  rintro s w ⟨h, hidle⟩
  refine (toldWp_recv h hidle fd).bind ?_
  rintro s r w ⟨rfl, h, hmsg⟩
  cases r with
  | none => exact keepsTold_remove p s w ⟨h, hidle⟩
  | some msg => exact keepsTold_coordHandleMsg (hmsg msg rfl) fd s w ⟨h, hidle⟩

theorem keepsTold_serveProc (ready : List Int) (p : Nat) :
    KeepsTold Resting (serveProc ready p) := by
  have U := routine_told none Idle
  have oob := keepsTold_serveOobFd ready p
  refine Keeps.bind (U.listProc p) fun a => Keeps.ite (fun _ => ?_) fun _ => oob
  rintro s w ⟨h, hidle⟩
  refine (toldWp_recv h hidle a.fd).bind ?_
  rintro s r w ⟨rfl, h, hmsg⟩
  cases r with
  | none => exact keepsTold_remove p s w ⟨h, hidle⟩
  | some msg =>
      exact Keeps.bind (keepsTold_coordHandleMsg (hmsg msg rfl) a.fd) (fun _ => oob) s w ⟨h, hidle⟩

/-! ## Rounds -/

/-- Nothing is owed on the descriptor of a process for which the coordinator does not wait. -/
theorem Told.debt_eq_zero (h : Told none s w) (ha : s.proc p = some a) (hidle : ¬ Busy a.state)
    {c : Nat} (hc : w.fds a.fd = some c) : (w.conns c).debt = 0 :=
  Nat.le_zero.mp ((h.bound a.fd c hc nofun).2.trans (Nat.le_of_eq (due_eq_zero h.list ha hidle)))

/-- **A question**: the process comes to a state in which its answer is waited for. -/
theorem Told.ask (h : Told none s w) (ha : s.proc p = some a) (hidle : ¬ Busy a.state)
    {st : ProcState} (hst : Busy st) {msg : XndMsg} (hr : w' ∈ w.sendDone a.fd msg) :
    Told none (s.setProc p fun a => { a with state := st }) w' := by
  obtain ⟨c, hc, rfl⟩ := mem_sendDone hr
  refine (h.setState ha (.inl hst)).onConn (h.wired.apart a.fd c hc) rfl rfl rfl
    (fun ht => ht.congr ht.side rfl rfl) fun fd' hfd' _ => ?_
  obtain rfl := h.wired.inj a.fd fd' c hc hfd'
  have hone : due (s.setProc p fun a => { a with state := st }) a.fd = 1 := by
    refine if_pos ⟨(p, { a with state := st }), List.mem_map.mpr ⟨(p, a), ?_, if_pos rfl⟩, rfl, hst⟩
    exact CoordInfo.mem_procs_of_proc ha
  rw [hone, Conn.debt_send, h.debt_eq_zero ha hidle hc]
  split <;> decide

/-- **An answer**: nothing is owed any more. -/
theorem Told.answer (h : Told none s w) {msg : XndMsg} (hmsg : RoundHdr msg.hdr)
    (hr : w' ∈ w.recvSome fd msg) {c : Nat} (hc : w'.fds fd = some c) : (w'.conns c).debt = 0 := by
  obtain ⟨d, rest, hd, hup, rfl⟩ := mem_recvSome hr
  obtain rfl : d = c := Option.some.inj (hd.symm.trans hc)
  have htake := Conn.debt_take hup
  have hdebt := (h.bound fd d hd nofun).2.trans (due_le_one s fd)
  rw [if_pos hmsg] at htake
  rw [conns_onConn, if_pos rfl]
  omega

/-- The coordinator has not sent its message. -/
theorem toldWp_send {msg : XndMsg} {fin : CoordInfo → Bool → Net → Prop} (h : Told none s w)
    (hsent : ∀ w w', Told none s w → w' ∈ w.sendDone fd msg → fin s true w')
    (hnot : ∀ w, Told none s w → fin s false w) : ToldWp (coordSendMsg fd msg) s w fin := by
  refine toldWp_call h fun w r w' hw _ hr => ?_
  cases r with
  | true => exact hsent w w' hw hr
  | false =>
      obtain rfl := List.mem_singleton.mp hr
      exact hnot _ hw

/-- The processes while they are being suspended. -/
abbrev Suspending (s : CoordInfo) (w : Net) : Prop := Told none s w ∧ InStates (· ≠ .ckptInProgress) s

theorem toldWp_requestReady (h : Suspending s w) (ha : s.proc p = some a) :
    ToldWp (requestReady p a) s w fun s' _ w' => Suspending s' w' := by
  obtain ⟨h, hstates⟩ := h
  unfold requestReady
  split
  next hst =>
    have hidle : ¬ Busy a.state := by
      rw [hst]
      decide
    refine Wp.bind (M := fun s' sent w' => s' = s ∧ if sent = true then
        Told none (s.setProc p fun a => { a with state := .recvCkptRequest }) w' else Told none s w')
      (toldWp_send h (fun w w' hw hr => ⟨rfl, ?_⟩) fun w hw => ⟨rfl, ?_⟩) ?_
    · rw [if_pos rfl]
      exact hw.ask ha hidle (.inl rfl) hr
    · rw [if_neg Bool.false_ne_true]
      exact hw
    · rintro s sent w ⟨rfl, h⟩
      refine Wp.ite (fun hs => Wp.modify_bind (Wp.pure ⟨?_, hstates.setState p nofun⟩))
        fun hs => Wp.pure ⟨?_, hstates⟩
      · rwa [if_pos hs] at h
      · rwa [if_neg hs] at h
  next =>
    refine Wp.bind (M := fun s' r w' => s' = s ∧ Told none s w' ∧ ∀ msg : XndMsg, r = some msg →
      msg.hdr = .ckptReady → ∀ c, w'.fds a.fd = some c → (w'.conns c).debt = 0) ?_ ?_
    · refine toldWp_call h fun w r w' hw _ hr => ⟨rfl, hw.respond ?_ ?_ hr, ?_⟩
      · exact CoordCall.noConfusion
      · exact fun _ _ => CoordCall.noConfusion
      · rintro msg rfl hm c hc
        exact hw.answer (.inl hm) hr hc
    · rintro s r w ⟨rfl, h, hanswer⟩
      cases r with
      | none => exact Wp.pure ⟨h, hstates⟩
      | some resp =>
          refine Wp.ite (fun hm => Wp.modify_bind (Wp.pure ⟨?_, hstates.setState p nofun⟩))
            fun _ => Wp.pure ⟨h, hstates⟩
          exact h.setState ha (.inr fun c hc _ => hanswer resp rfl hm c hc)
  · exact Wp.pure ⟨h, hstates⟩
  · exact Wp.pure ⟨h, hstates⟩

/-- Reading a listed process. -/
theorem toldWp_listProc (h : Told none s w) (p : Nat) :
    ToldWp (listProc p) s w fun s' a w' => s' = s ∧ w' = w ∧ s.proc p = some a :=
  wp_listProc (fun _ => ⟨⟨none, h⟩, nofun, nofun⟩) fun _ ha => ⟨rfl, rfl, ha⟩

theorem keepsTold_coordSuspendProcesses (fuel : Nat) :
    KeepsTold Suspending (coordSuspendProcesses fuel) := by
  have U := routine_told none (InStates (· ≠ .ckptInProgress))
  have turn : ∀ p n, KeepsTold Suspending (suspendTurn p n) := by
    intro p n s w h
    refine (toldWp_listProc h.1 p).bind ?_
    rintro s a w ⟨rfl, rfl, ha⟩
    refine (toldWp_requestReady h ha).bind fun s ready w h => ?_
    refine Keeps.bind (U.probe _) (fun gone => ?_) s w h
    exact Keeps.ite (fun _ => Keeps.bind (keepsTold_listRemove (inherited_inStates _) p)
      fun _ => Keeps.pure _) fun _ => Keeps.pure _
  induction fuel with
  | zero => exact U.halt rfl
  | succ fuel ih =>
      refine Keeps.bind (U.seqForeachSafe turn) fun n => Keeps.ite (fun _ => Keeps.pure ()) fun _ => ?_
      exact Keeps.bind (U.call .usleep rfl) fun _ => ih

/-- A process is released from a barrier. -/
theorem Told.release (h : Told none s w) (ha : s.proc p = some a) {type : BarrierType}
    (hst : a.state = type.expected) {n : Nat} (hr : w' ∈ w.sendDone a.fd (releaseMsg type n a)) :
    Told none (s.setProc p fun a => { a with state := type.next }) w' := by
  have hidle : ¬ Busy a.state := by
    rw [hst]
    cases type <;> decide
  have resume : type ≠ .preckpt → Told none (s.setProc p fun a => { a with state := type.next }) w' := by
    intro htype
    have hsent : Told none s w' := h.send (by cases type with
      | preckpt => exact absurd rfl htype
      | postckpt | postrestart => rintro (h | h) <;> cases h) hr
    exact hsent.setState ha (.inr fun c hc _ => hsent.debt_eq_zero ha hidle hc)
  cases type with
  | preckpt => exact h.ask ha hidle (.inr rfl) hr
  | postckpt => exact resume nofun
  | postrestart => exact resume nofun

/-- A barrier that every process is sent leaves every process in the next state. -/
theorem toldWp_releaseLoop {type : BarrierType} {s : CoordInfo} {w : Net} (l : List Nat)
    (h : Told none s w) (hl : ∀ n ∈ s.procs, n.1 ∈ l ∨ n.2.state = type.next) :
    ToldWp (releaseLoop type l) s w fun s' released w' => Told none s' w' ∧
      (released = true → InStates (· = type.next) s') := by
  induction l generalizing s w with
  | nil => exact Wp.pure ⟨h, fun _ n hn => (hl n hn).resolve_left List.not_mem_nil⟩
  | cons p rest ih =>
      refine (toldWp_listProc h p).bind ?_
      rintro s a w ⟨rfl, rfl, ha⟩
      refine Wp.bind (M := fun s' _ w' => s' = s ∧ w' = w ∧ a.state = type.expected)
        (Wp.ite (fun hst => Wp.pure ⟨rfl, rfl, hst⟩) fun _ => Wp.halt ⟨⟨none, h⟩, nofun, nofun⟩) ?_
      rintro s _ w ⟨rfl, rfl, hst⟩
      refine Wp.get_bind (Wp.bind (M := fun s' sent w' => s' = s ∧ if sent = true then
          Told none (s.setProc p fun a => { a with state := type.next }) w' else Told none s w')
        (toldWp_send h (fun w w' hw hr => ⟨rfl, ?_⟩) fun w hw => ⟨rfl, ?_⟩) ?_)
      · rw [if_pos rfl]
        exact hw.release ha hst hr
      · rw [if_neg Bool.false_ne_true]
        exact hw
      rintro s sent w ⟨rfl, h⟩
      refine Wp.ite (fun hs => Wp.modify_bind (ih ?_ ?_)) fun hs => Wp.pure ⟨?_, fun hr => ?_⟩
      · rwa [if_pos hs] at h
      · -- The process of the turn is in the next state; the others are as they were.
        intro n hn
        obtain ⟨m, hm, rfl⟩ := List.mem_map.mp hn
        by_cases hp : m.1 = p
        · rw [if_pos hp]
          exact .inr rfl
        · rw [if_neg hp]
          exact (hl m hm).imp_left fun hmem => (List.mem_cons.mp hmem).resolve_left hp
      · rwa [if_neg hs] at h
      · exact absurd hr Bool.false_ne_true

/-- A barrier that has to be released to every process. -/
theorem toldWp_released {type : BarrierType} {failed : CoordAssertion} {β : Type}
    {f : Unit → InfoM β} {fin : CoordInfo → β → Net → Prop} (h : Told none s w)
    (hf : ∀ s' w', Told none s' w' → InStates (· = type.next) s' → ToldWp (f ()) s' w' fin) :
    ToldWp (coordReleaseBarrier type >>= fun released =>
      xndAssert failed (released = true) >>= f) s w fin := by
  refine Wp.bind (Wp.get_bind (toldWp_releaseLoop _ h fun _ hn => .inl (List.mem_map_of_mem hn))) ?_
  rintro s' released w' ⟨h, hall⟩
  refine Wp.bind (M := fun s'' _ w'' => s'' = s' ∧ w'' = w' ∧ released = true)
    (Wp.ite (fun hr => Wp.pure ⟨rfl, rfl, hr⟩) fun _ => Wp.halt ⟨⟨none, h⟩, nofun, nofun⟩) ?_
  rintro s' _ w' ⟨rfl, rfl, hr⟩
  exact hf s' w' h (hall hr)

/-- Nothing is known of the states. -/
abbrev Anyhow (s : CoordInfo) (w : Net) : Prop := Told none s w ∧ True

theorem inherited_true : Inherited fun _ => True := fun _ _ _ _ => trivial

theorem keepsTold_coordWaitForCkptCompletions (fuel : Nat) :
    KeepsTold Anyhow (coordWaitForCkptCompletions fuel) := by
  have U := routine_told none fun _ => True
  have turn : ∀ p total, KeepsTold Anyhow (listProc p >>= fun a => completionTurn p a total) := by
    rintro p total s w ⟨h, -⟩
    refine (toldWp_listProc h p).bind ?_
    rintro s a w ⟨rfl, rfl, ha⟩
    refine Wp.bind (M := fun s' _ w' => s' = s ∧ w' = w)
      (Wp.ite (fun _ => Wp.pure ⟨rfl, rfl⟩) fun _ => Wp.halt ⟨⟨none, h⟩, nofun, nofun⟩) ?_
    rintro s _ w ⟨rfl, rfl⟩
    refine Wp.bind (M := fun s' r w' => s' = s ∧ Told none s w' ∧ ∀ msg : XndMsg, r = some msg →
      msg.hdr = .ckptDone → ∀ c, w'.fds a.fd = some c → (w'.conns c).debt = 0) ?_ ?_
    · refine toldWp_call h fun w r w' hw _ hr => ⟨rfl, hw.respond ?_ ?_ hr, ?_⟩
      · exact CoordCall.noConfusion
      · exact fun _ _ => CoordCall.noConfusion
      · rintro msg rfl hm c hc
        exact hw.answer (.inr hm) hr hc
    · rintro s r w ⟨rfl, h, hanswer⟩
      cases r with
      | none => exact Wp.pure ⟨h, trivial⟩
      | some msg =>
          refine Wp.ite (fun hm => Wp.modify_bind (Wp.pure ⟨?_, trivial⟩)) fun _ => Wp.pure ⟨h, trivial⟩
          exact h.setState ha (.inr fun c hc _ => hanswer msg rfl hm c hc)
  refine Keeps.bind Keeps.get fun s => ?_
  refine Keeps.bind (U.coordCollectivePrepare (U.prepareTurn (keepsTold_listRemove inherited_true)) _ fuel)
    fun total => ?_
  refine Keeps.ite (fun _ => U.halt rfl) fun _ => Keeps.bind Keeps.get fun s => ?_
  refine Keeps.bind (Routine.seqForeach turn _ _) fun total => ?_
  exact Keeps.ite (fun _ => U.halt rfl) fun _ => Keeps.pure ()

/-- The roots are determined. -/
theorem Told.roots (h : Told none s w) (g : Proc → Bool) :
    Told none { s with procs := s.procs.map fun n => (n.1, { n.2 with isRootOfTree := g n.2 }) } w := by
  refine h.procs (h.list.mapProcs fun _ => ⟨rfl, rfl⟩) fun fd c _ _ hd => hd.trans (due_mono ?_)
  intro n hn hfd hbusy
  exact ⟨_, List.mem_map_of_mem hn, hfd, hbusy⟩

/-- **A round that is completed** leaves processes that run. -/
theorem toldWp_coordRunRound (h : Told none s w) (epoch fuel : Nat) :
    ToldWp (coordRunRound epoch fuel) s w fun s' _ w' => Resting s' w' := by
  have U := routine_told none fun _ => True
  have files : ∀ {P : CoordInfo → Prop} (c : CoordCall), c.file = true →
      KeepsTold (fun s w => Told none s w ∧ P s) (Code.call c) := fun c hc => keepsTold_file c hc
  refine Wp.modify_bind (Wp.modify_bind ?_)
  have hpeers : Told none { s with numPeers := s.procs.length } w := h.congr rfl rfl
  have hroots := hpeers.roots fun a =>
    (({ s with numPeers := s.procs.length } : CoordInfo).find (·.realPid = a.realPpid)).isNone
  refine (U.coordCollectivePrepare (U.prepareTurn (keepsTold_listRemove inherited_true)) .broadcast fuel _ w
    ⟨hroots, trivial⟩).bind fun s total w h => Wp.get_bind ?_
  refine (U.xndAssert rfl _ s w h).bind fun s _ w h => toldWp_released h.1 fun s w h _ => ?_
  refine (keepsTold_coordWaitForCkptCompletions fuel s w ⟨h, trivial⟩).bind fun s _ w h => ?_
  refine (U.coordWriteCkptManifest files s w h).bind fun s _ w h => ?_
  refine toldWp_released h.1 fun s w h hstates => ?_
  refine (Routine.unlinkPrevious (I := fun s w => Told none s w ∧ InStates (· = .running) s) files
    epoch s w ⟨h, hstates⟩).bind fun s _ w h => Wp.modify ⟨h.1.congr rfl rfl, ?_⟩
  rintro n hn hbusy
  rw [h.2 n hn] at hbusy
  rcases hbusy with hb | hb <;> cases hb

/-- What comes after every process is suspended; a round that is abandoned leaves no request
without its answer. -/
theorem toldWp_coordCheckpointSuspended (h : Suspending s w) (epoch fuel : Nat) :
    ToldWp (coordCheckpointSuspended epoch fuel) s w fun s' _ w' => Resting s' w' := by
  obtain ⟨h, hstates⟩ := h
  refine Wp.get_bind (Wp.bind (M := fun s' (created : Bool) w' => s' = s ∧ Told none s w' ∧
    (created = false → ∀ n ∈ s.procs, n.2.state ≠ .recvCkptRequest)) ?_ ?_)
  · refine toldWp_call h fun w (r : Bool) w' hw hans hr => ⟨rfl, hw.respond ?_ ?_ hr, ?_⟩
    · exact CoordCall.noConfusion
    · exact fun _ _ => CoordCall.noConfusion
    · rintro rfl
      exact hans
  · rintro s (created : Bool) w ⟨rfl, h, hanswered⟩
    cases created with
    | true => exact toldWp_coordRunRound h epoch fuel
    | false =>
        have hidle : Idle s := fun n hn hbusy =>
          hbusy.elim (hanswered rfl n hn) (hstates n hn)
        have unlink : KeepsTold Resting (xndCkptdirUnlink s.xndUuid epoch : InfoM Bool) :=
          keepsTold_file _ rfl
        exact Wp.get_bind ((unlink s w ⟨h, hidle⟩).bind fun s _ w h => Wp.pure h)

/-- **A round keeps the invariant.** -/
theorem keepsTold_coordDoCheckpoint (fuel : Nat) : KeepsTold Resting (coordDoCheckpoint fuel) := by
  have U := routine_told none Idle
  have mask : ∀ block, KeepsTold Resting (sysSigprocmask block : InfoM Unit) := by
    intro block s w h
    refine toldWp_call h.1 fun w r w' hw _ hr => ⟨hw.respond ?_ ?_ hr, h.2⟩
    · exact CoordCall.noConfusion
    · exact fun _ _ => CoordCall.noConfusion
  refine Keeps.bind Keeps.get fun s => Keeps.bind (mask true) fun _ => ?_
  refine Keeps.bind (U.coordCollectivePrepare (U.prepareTurn keepsTold_remove) .broadcast fuel) fun total => ?_
  refine Keeps.ite (fun _ => mask false) fun _ s w h => ?_
  refine (keepsTold_coordSuspendProcesses fuel s w ⟨h.1, h.2.mono fun st hst he => ?_⟩).bind
    fun s _ w h => ?_
  · exact hst (.inr he)
  · exact (toldWp_coordCheckpointSuspended h _ fuel).bind fun s _ w h => mask false s w h

/-! ## Connections -/

/-- A connection that is being registered: these of its messages have been received. -/
def New (fd : Int) (l : List XndMsg) (w : Net) : Prop :=
  ∃ c, w.fds fd = some c ∧ (w.conns c).taken = l.length ∧ l <+: (w.conns c).sent ∧
    (w.conns c).debt = 0

/-- No listed process has the descriptor. -/
def Fresh (fd : Int) (s : CoordInfo) : Prop := ∀ n ∈ s.procs, n.2.fd ≠ fd

variable {l : List XndMsg}

theorem New.move (hn : New fd l w) (h : Told x s w) {m : Move}
    (hm : (env.limit Introduced).move m w = some w') : New fd l w' := by
  obtain ⟨c, hc, htaken, hsent, hdebt⟩ := hn
  have hf := h.follows hm (h.wired.bound fd c hc)
  refine ⟨c, ?_, hf.taken.trans htaken, hsent.trans hf.sent,
    Nat.le_zero.mp (hf.debt.trans (Nat.le_of_eq hdebt))⟩
  rw [(evolves_move h.owned (env.move_limit hm).2).fds]
  exact hc

theorem toldWp_callNew {c : CoordCall} {fin : CoordInfo → c.Answer → Net → Prop} (h : Told x s w)
    (hn : New fd l w) (hfin : ∀ w r w', Told x s w → New fd l w → w' ∈ Net.respond s w c r →
      fin s r w') : ToldWp (Code.call c) s w fin :=
  Env.wp_call _ (fun w => Told x s w ∧ New fd l w) (fun _ _ _ h hm => ⟨h.1.move hm, h.2.move h.1 hm⟩)
    ⟨h, hn⟩ (fun _ h => ⟨x, h.1⟩) fun w r w' h _ hr => hfin w r w' h.1 h.2 hr

/-- **A connection is accepted.** -/
theorem toldWp_sysAccept (h : Told none s w) : ToldWp sysAccept s w fun s' r w' =>
    s' = s ∧ (r = none → Told none s w') ∧
      ∀ fd : Int, r = some fd → Told (some fd) s w' ∧ New fd [] w' ∧ Fresh fd s := by
  refine toldWp_call h fun w (r : Option Int) w' hw _ hr => ⟨rfl, ?_, ?_⟩
  · rintro rfl
    obtain rfl := List.mem_singleton.mp hr
    exact hw
  · rintro fd rfl
    obtain ⟨c, rest, hb, hfd, -, -, hfresh, rfl⟩ := mem_accept hr
    have hback : ∀ d ∈ rest, d ∈ w.backlog := fun d hd => hb ▸ List.mem_cons_of_mem _ hd
    obtain ⟨htaken, hdebt⟩ := hw.backlog c (hb ▸ List.mem_cons_self)
    refine ⟨⟨hw.list, ⟨hw.owned.born, hw.owned.coord, hw.owned.oob, hw.owned.child⟩,
      hw.wired.accept hb hfd, hw.opened, fun d hd => hw.backlog d (hback d hd), ?_⟩, ?_, ?_⟩
    · intro fd' d hd hx
      have hne : fd' ≠ fd := fun he => hx (congrArg some he.symm)
      exact hw.bound fd' d ((Function.update_of_ne hne _ _).symm.trans hd) nofun
    · exact ⟨c, Function.update_self .., htaken, List.nil_prefix, hdebt⟩
    · intro n hn he
      refine hfresh n hn ?_
      unfold watchedFds
      split <;> simp [he]

/-- The next message of a connection that is being registered. -/
theorem toldWp_recvNew (h : Told (some fd) s w) (hn : New fd l w) :
    ToldWp (coordRecvMsg fd) s w fun s' r w' => s' = s ∧ Told (some fd) s w' ∧
      ∀ msg : XndMsg, r = some msg → New fd (l ++ [msg]) w' := by
  refine toldWp_callNew h hn fun w r w' hw hn hr => ⟨rfl, hw.respond ?_ ?_ hr, ?_⟩
  · exact CoordCall.noConfusion
  · exact fun _ _ => CoordCall.noConfusion
  rintro msg rfl
  obtain ⟨c, rest, hc, hup, rfl⟩ := mem_recvSome hr
  obtain ⟨d, hd, htaken, ⟨t, ht⟩, hdebt⟩ := hn
  obtain rfl : c = d := Option.some.inj (hc.symm.trans hd)
  have htake := Conn.debt_take hup
  rw [Conn.up, htaken, ← ht, List.drop_left] at hup
  refine ⟨c, hc, ?_, ?_, ?_⟩
  · rw [conns_onConn, if_pos rfl, List.length_append, List.length_singleton]
    exact congrArg (· + 1) htaken
  · rw [conns_onConn, if_pos rfl]
    exact ⟨rest, by rw [List.append_assoc, List.singleton_append, ← hup, ht]⟩
  · rw [conns_onConn, if_pos rfl]
    omega

/-- The connection is one of which the invariant speaks. -/
theorem New.told (hn : New fd l w) (h : Told (some fd) s w)
    (htalks : ∀ c, w.fds fd = some c → (w.conns c).taken = l.length → l <+: (w.conns c).sent →
      (w.conns c).Opened → (w.conns c).Talks) : Told none s w := by
  obtain ⟨c, hc, htaken, hsent, hdebt⟩ := hn
  refine { h with bound := fun fd' d hd _ => ?_ }
  by_cases hfd : fd' = fd
  · subst hfd
    obtain rfl : c = d := Option.some.inj (hc.symm.trans hd)
    refine ⟨htalks c hc htaken hsent (h.opened c (h.wired.bound fd' c hc)), ?_⟩
    rw [hdebt]
    exact Nat.zero_le _
  · exact h.bound fd' d hd fun he => hfd (Option.some.inj he).symm

/-- The first message is one that is handled. -/
theorem New.first {m : XndMsg} (hn : New fd [m] w) (h : Told x s w) : FirstHdr m.hdr := by
  obtain ⟨c, hc, -, ⟨t, ht⟩, -⟩ := hn
  refine (h.opened c (h.wired.bound fd c hc)).first ?_
  rw [← ht]
  rfl

theorem New.told_first {m : XndMsg} (hn : New fd [m] w) (h : Told (some fd) s w)
    (hm : m.hdr ≠ .atforkPrepare) : Told none s w := by
  refine hn.told h fun c _ htaken hsent ho => ho.talks_first ?_ htaken hm
  obtain ⟨t, ht⟩ := hsent
  rw [← ht]
  rfl

theorem New.told_forked {m m' : XndMsg} (hn : New fd [m, m'] w) (h : Told (some fd) s w)
    (hm : m.hdr = .atforkPrepare) : Told none s w := by
  refine hn.told h fun c _ htaken hsent ho => ?_
  obtain ⟨t, ht⟩ := hsent
  exact ho.talks_forked ht.symm hm htaken

/-! ### Registration -/

/-- A descriptor on which a message of a registered client has come, and that no process has. -/
abbrev Joining (fd : Int) (s : CoordInfo) (w : Net) : Prop :=
  Told none s w ∧ Idle s ∧ Fresh fd s

theorem inherited_joining (fd : Int) : Inherited fun s => Idle s ∧ Fresh fd s :=
  fun _ _ h hs => ⟨fun n hn => h.1 n (hs hn), fun n hn => h.2 n (hs hn)⟩

/-- A process changes in what the invariant does not speak of. -/
theorem Told.setProc (h : Told none s w) (p : Nat) {f : Proc → Proc} (hfd : ∀ a, (f a).fd = a.fd)
    (hst : ∀ a, (f a).state = a.state) : Told none (s.setProc p f) w := by
  refine h.procs (h.list.setProc hfd) fun fd c _ _ hd => hd.trans (due_mono ?_)
  intro n hn hfd' hbusy
  refine ⟨_, List.mem_map_of_mem hn, ?_, ?_⟩
  · split
    · exact (hfd _).trans hfd'
    · exact hfd'
  · split
    · exact (hst n.2).symm ▸ hbusy
    · exact hbusy

/-- A new process. -/
theorem toldWp_registerProc (h : Joining a.fd s w) (hidle : ¬ Busy a.state) :
    ToldWp (registerProc a) s w fun s' _ w' => Resting s' w' := by
  have U := routine_told none fun s => Idle s ∧ Fresh a.fd s
  refine (U.coordSendHandshake (fun _ => keepsTold_ack) rfl s w h).bind fun s _ w h => Wp.modify_bind (Wp.modify ?_)
  obtain ⟨h, hstates, hfresh⟩ := h
  refine ⟨?_, List.forall_mem_cons.mpr ⟨hidle, hstates⟩⟩
  have hcongr : Told none
      { s with table := (s.table.update a.virtPid a.realPid).update a.virtPpid a.realPpid } w :=
    h.congr rfl rfl
  refine hcongr.procs (hcongr.list.push hfresh) fun fd c _ _ hd => hd.trans (due_mono ?_)
  exact fun n hn hfd hbusy => ⟨n, List.mem_cons_of_mem _ hn, hfd, hbusy⟩

/-- A process that is there already gets another descriptor. -/
theorem Told.setFd (h : Joining fd s w) (p : Nat) :
    Resting (s.setProc p fun a => { a with fd := fd }) w := by
  obtain ⟨h, hidle, hfresh⟩ := h
  refine ⟨h.procs (h.list.setFd hfresh) fun fd' c _ _ hd => ?_, hidle.setProc p fun _ => rfl⟩
  rw [due_of_idle hidle] at hd
  exact hd.trans (Nat.zero_le _)

theorem ends_told (h : Told x s w) {e : CoordStop} (he : Handled e) :
    (∃ x, Told x s w) ∧ Handled e := ⟨⟨x, h⟩, he⟩

theorem toldWp_coordConnectWithProcessOnLaunch (h : Joining fd s w) (msg : XndMsg) :
    ToldWp (coordConnectWithProcessOnLaunch fd msg) s w fun s' _ w' => Resting s' w' := by
  have U := routine_told none fun s => Idle s ∧ Fresh fd s
  refine Wp.get_bind (Wp.ite (fun _ => ?_) fun _ => ?_)
  · cases s.find (·.realPid = msg.realPid) with
    | none => exact Wp.halt (ends_told h.1 ⟨nofun, nofun⟩)
    | some n =>
        refine (U.close _ s w h).bind fun s _ w h => Wp.modify_bind ?_
        exact (routine_told none Idle).coordSendHandshake (fun _ => keepsTold_ack) rfl _ w
          (Told.setFd h n.1)
  · have ids : KeepsTold (Joining fd) (launchIds fd msg) := by
      refine Routine.launchIds (fun s s' w h hp hb _ => ⟨h.1.congr hp hb, ?_⟩)
        (fun s w h => ⟨⟨none, h.1⟩, nofun, nofun⟩) (fun s w h => ⟨⟨none, h.1⟩, nofun, nofun⟩) fd msg
      exact inherited_joining fd s s' h.2 (by rw [hp]; exact List.Subset.refl _)
    refine (U.xndAssert rfl _ s w h).bind fun s _ w h => ?_
    refine ((ids s w h).and_rets (rets_launchIds s fd msg)).bind ?_
    rintro s a w ⟨h, rfl, -, -, hst⟩
    refine toldWp_registerProc h ?_
    rw [hst]
    decide

theorem toldWp_coordConnectWithProcessOnRestart (h : Joining fd s w) (msg : XndMsg) :
    ToldWp (coordConnectWithProcessOnRestart fd msg) s w fun s' _ w' => Resting s' w' := by
  refine Wp.modify_bind (toldWp_registerProc ⟨h.1.congr rfl rfl, h.2⟩ ?_)
  show ¬ Busy .restartInProgress
  decide

/-- A process that is about to fork. -/
theorem toldWp_coordAtfork {msg : XndMsg} (h : Told (some fd) s w) (hn : New fd [msg] w)
    (hidle : Idle s) (hfresh : Fresh fd s) (hm : msg.hdr = .atforkPrepare) :
    ToldWp (coordAtfork fd msg) s w fun s' _ w' => Resting s' w' := by
  -- The ids are given without a call.
  have virt : ToldWp coordNextVirtPid s w fun s' _ w' => w' = w ∧ s'.procs = s.procs ∧
      s'.brk = s.brk := by
    refine Wp.get_bind (Wp.modify_bind (Wp.get_bind (Wp.ite (fun _ => ?_) fun _ => ?_)))
    · exact Wp.halt ⟨⟨some fd, h.congr rfl rfl⟩, nofun, nofun⟩
    · exact Wp.pure ⟨rfl, rfl, rfl⟩
  refine virt.bind ?_
  rintro s virtPid w ⟨rfl, hprocs, hbrk⟩
  have h : Told (some fd) s w := h.congr hprocs hbrk
  have hrest : Idle s ∧ Fresh fd s :=
    inherited_joining fd _ _ ⟨hidle, hfresh⟩ (by rw [hprocs]; exact List.Subset.refl _)
  refine Wp.bind (M := fun s' _ w' => Told (some fd) s' w' ∧ New fd [msg] w' ∧ Idle s' ∧ Fresh fd s')
    (Wp.get_bind (Wp.modify_bind (Wp.pure ⟨h.congr rfl rfl, hn, hrest⟩))) ?_
  rintro s xndPid w ⟨h, hn, hrest⟩
  refine Wp.bind (M := fun s' _ w' => s' = s ∧ Told (some fd) s' w' ∧ New fd [msg] w')
    (toldWp_callNew h hn fun w (r : Bool) w' hw hn hr => ⟨rfl, hw.respond ?_ ?_ hr, ?_⟩) ?_
  · exact CoordCall.noConfusion
  · rintro fd msg he
    cases he
    rintro (h | h) <;> cases h
  · cases r with
    | false =>
        obtain rfl := List.mem_singleton.mp hr
        exact hn
    | true =>
        obtain ⟨c, hc, rfl⟩ := mem_sendDone hr
        obtain ⟨d, hd, htaken, hsent, hdebt⟩ := hn
        obtain rfl : c = d := Option.some.inj (hc.symm.trans hd)
        refine ⟨c, hc, ?_, ?_, ?_⟩ <;> rw [conns_onConn, if_pos rfl]
        · exact htaken
        · exact hsent
        · rw [Conn.debt_send, hdebt]
          rfl
  rintro s sent w ⟨rfl, h, hn⟩
  refine Wp.ite (fun _ => Wp.get_bind ?_) fun _ => Wp.halt (ends_told h ⟨nofun, nofun⟩)
  cases s.find (·.virtPid = msg.virtPpid) with
  | none => exact Wp.halt (ends_told h ⟨nofun, nofun⟩)
  | some n =>
      refine (toldWp_recvNew h hn).bind ?_
      rintro s r w ⟨rfl, h, hchild⟩
      cases r with
      | none => exact Wp.halt (ends_told h ⟨nofun, nofun⟩)
      | some childMsg =>
          have U := routine_told none fun s => Idle s ∧ Fresh fd s
          have h := (hchild childMsg rfl).told_forked h hm
          refine (U.xndAssert rfl _ s w ⟨h, hrest⟩).bind fun s _ w h => ?_
          refine (U.xndAssert rfl _ s w h).bind fun s _ w h => toldWp_registerProc h ?_
          show ¬ Busy .running
          decide

/-- A connection of which the first message has been received. -/
theorem toldWp_coordHandleConnection {msg : XndMsg} (h : Told (some fd) s w) (hn : New fd [msg] w)
    (hidle : Idle s) (hfresh : Fresh fd s) (fuel : Nat) :
    ToldWp (coordHandleConnection fuel fd msg) s w fun s' _ w' => Resting s' w' := by
  have U := routine_told none Idle
  have hfirst := hn.first h
  have joining : msg.hdr ≠ .atforkPrepare → Joining fd s w := fun hm =>
    ⟨hn.told_first h hm, hidle, hfresh⟩
  have oob : KeepsTold Resting (connectOob fd msg) := by
    refine Keeps.bind Keeps.get fun s => ?_
    cases s.find (·.xndPid = msg.xndPid) with
    | none => exact U.halt rfl
    | some n =>
        exact Keeps.modify fun s w h => ⟨h.1.setProc n.1 (fun _ => rfl) fun _ => rfl,
          h.2.setProc n.1 fun _ => rfl⟩
  have resting : msg.hdr ≠ .atforkPrepare → Resting s w := fun hm => ⟨(joining hm).1, hidle⟩
  unfold coordHandleConnection
  rcases hfirst with hm | hm | hm | hm | hm | hm <;> rw [hm] at joining resting ⊢
  · exact toldWp_coordConnectWithProcessOnLaunch (joining nofun) msg
  · refine Wp.modify_bind (toldWp_coordConnectWithProcessOnRestart ?_ msg)
    obtain ⟨hj, hrest⟩ := joining nofun
    split
    · exact ⟨hj.congr rfl rfl, hrest⟩
    · exact ⟨hj, hrest⟩
  · exact toldWp_coordAtfork h hn hidle hfresh hm
  · refine (U.coordHandleCommand (fun _ => keepsTold_coordDoCheckpoint fuel)
      (fun _ => keepsTold_ack) s w (resting nofun)).bind fun s _ w h => U.close fd s w h
  · exact (oob s w (resting nofun)).bind fun s _ w h => U.coordSendRealToVirt (fun _ => keepsTold_ack) msg s w h
  · exact (oob s w (resting nofun)).bind fun s _ w h => U.coordSendVirtToReal (fun _ => keepsTold_ack) msg s w h

theorem keepsTold_coordWaitForConnection (fuel : Nat) :
    KeepsTold Resting (coordWaitForConnection fuel) := by
  have U := routine_told none Idle
  refine Keeps.bind Keeps.get fun s => Keeps.bind (U.call (.select _) rfl) fun ready => ?_
  rcases ready with _ | _ | ⟨fd, ready⟩
  · exact Keeps.pure ()
  · exact Keeps.pure ()
  · rintro s w ⟨h, hidle⟩
    refine (toldWp_sysAccept h).bind ?_
    rintro s r w ⟨rfl, hnone, hsome⟩
    cases r with
    | none => exact Wp.pure ⟨hnone rfl, hidle⟩
    | some fd =>
        obtain ⟨h, hn, hfresh⟩ := hsome fd rfl
        refine (toldWp_recvNew h hn).bind ?_
        rintro s r w ⟨rfl, h, hmsg⟩
        cases r with
        | none => exact Wp.halt (ends_told h ⟨nofun, nofun⟩)
        | some msg => exact toldWp_coordHandleConnection h (hmsg msg rfl) hidle hfresh fuel

/-! ## The main program -/

theorem keepsTold_coordMain (restart : Bool) (fuel : Nat) :
    KeepsTold Resting (coordMain restart fuel) := by
  have U := routine_told none Idle
  have hppid : KeepsTold Resting (Code.call CoordCall.getppid) := by
    intro s w h
    refine toldWp_call h.1 fun w r w' hw _ hr => ⟨hw.respond ?_ ?_ hr, h.2⟩
    · exact CoordCall.noConfusion
    · exact fun _ _ => CoordCall.noConfusion
  have work := U.coordWork (U.filterTurn keepsTold_remove) keepsTold_serveProc keepsTold_coordWaitForConnection
    keepsTold_coordDoCheckpoint hppid fuel
  refine Keeps.ite (fun _ => Keeps.bind ?_ fun _ => work) fun _ => work
  refine Keeps.bind (U.parentPid hppid) fun ppid => ?_
  refine Keeps.bind (U.awaitProcess keepsTold_coordWaitForConnection rfl ppid fuel) fun _ => ?_
  refine Keeps.bind (U.awaitPeers keepsTold_coordWaitForConnection ppid fuel) fun _ => ?_
  refine Keeps.bind (U.coordCollectivePrepare (U.prepareTurn keepsTold_remove) _ fuel) fun total => ?_
  refine Keeps.bind Keeps.get fun s => Keeps.ite (fun _ => U.halt rfl) fun _ s w h => ?_
  refine (Wp.get_bind (toldWp_releaseLoop _ h.1
    fun _ hn => .inl (List.mem_map_of_mem hn)) : ToldWp (coordReleaseBarrier .postrestart) s w _).bind ?_
  rintro s released w ⟨h, hall⟩
  refine Wp.ite (fun hr => Wp.pure ⟨h, fun n hn hbusy => ?_⟩) fun _ =>
    Wp.halt (ends_told h ⟨nofun, nofun⟩)
  rw [hall hr n hn] at hbusy
  rcases hbusy with hb | hb <;> cases hb

/-- **Every message is one that is expected**: the first on a connection is handled by the `switch`
of `coord_wait_for_connection`, and neither this one nor that of `coord_handle_msg` comes to its
default. -/
theorem headers_handled (restart : Bool) (fuel : Nat) (listenFd : Int) (uuid : Nat)
    (ckptInterval : Int) {p : Prog CoordCall.Answer CoordInfo CoordStop Unit}
    (h : introduced.Reach (coordMain restart fuel (coordInit listenFd uuid ckptInterval)) init (p, w)) :
    (∀ c < w.made, ∀ m ∈ (w.conns c).sent.head?, FirstHdr m.hdr) ∧
      ∀ e ∈ p.stop, Handled e := by
  have hinit : Resting (coordInit listenFd uuid ckptInterval) init := by
    refine ⟨⟨listOk_coordInit _ _ _, owned_init, wired_init, ?_, ?_, ?_⟩, ?_⟩
    · exact fun c hc => absurd hc (Nat.not_lt_zero c)
    · exact List.forall_mem_nil _
    · intro fd c hc
      cases hc
    · exact List.forall_mem_nil _
  have hp := (keepsTold_coordMain restart fuel).reach
    (fun s w w' h ⟨m, hm⟩ => ⟨h.1.move hm, h.2⟩)
    (fun s e w w' h ⟨m, hm⟩ => ⟨h.1.imp fun _ h => h.move hm, h.2⟩) hinit h
  have first : ∀ {x s}, Told x s w → ∀ c < w.made, ∀ m ∈ (w.conns c).sent.head?, FirstHdr m.hdr :=
    fun h c hc m hm => (h.opened c hc).first hm
  cases p with
  | ret s a => exact ⟨first hp.1, nofun⟩
  | call s c k =>
      obtain ⟨x, hp⟩ := hp
      exact ⟨first hp, nofun⟩
  | halt s e =>
      obtain ⟨⟨x, hp⟩, he⟩ := hp
      exact ⟨first hp, fun e' heq => Option.some.inj heq ▸ he⟩

/-- Process 101 has a child that was killed, and has not asked for a pid before. -/
def exitFirst : List (Turn CoordCall.Answer Move) :=
  launched ++ [.move (.notifyCoordOfExit 0 { hdr := .exit, realPid := 102, xndPid := 1001 } true),
    .reply ⟨.select [3], some [3]⟩ 0, .reply ⟨.accept, some (6 : Int)⟩ 0,
    .reply ⟨.recv 6, some { hdr := .exit, realPid := 102, xndPid := 1001 }⟩ 0]

/-- The news of an exit, as the first message of a connection. -/
theorem not_headers_handled : ¬ ∀ (restart : Bool) (fuel : Nat) (listenFd : Int) (uuid : Nat)
    (ckptInterval : Int) (c : Prog CoordCall.Answer CoordInfo CoordStop Unit × Net),
    (env.world fun _ _ _ _ => True).Reach
      (coordMain restart fuel (coordInit listenFd uuid ckptInterval)) init c →
        (∀ i < c.2.made, ∀ m ∈ (c.2.conns i).sent.head?, FirstHdr m.hdr) ∧
          ∀ e ∈ c.1.stop, Handled e := by
  intro h
  obtain ⟨c, hc, hstop⟩ := env.exists_follow (fun _ _ _ _ => True)
    (coordMain false 4 (coordInit 3 0 0), init) exitFirst
    (fun c => c.1.stop = some (.exitFailure .unexpectedConnection)) (by decide +kernel)
  exact ((h false 4 3 0 0 c (Env.reach_of_follow hc)).2 _ hstop).2 rfl

/-- Process 101 asks for a pid, and tells of the child after that. -/
def exitLater : List (Turn CoordCall.Answer Move) :=
  launched ++ [.move (.translate 0 .virtToReal { hdr := .exit, virtPid := 2, xndPid := 1001 } true),
    .reply ⟨.select [3], some [3]⟩ 0, .reply ⟨.accept, some (6 : Int)⟩ 0,
    .reply ⟨.recv 6, some { hdr := .virtToReal, virtPid := 2, xndPid := 1001 }⟩ 0,
    .reply ⟨.send 6 { hdr := .coordAck, realPid := 101 }, true⟩ 0, .move (.answered 0),
    .move (.notifyCoordOfExit 0 { hdr := .exit, realPid := 102 } true),
    .reply ⟨.select [5, 6], some [6]⟩ 0, .reply ⟨.recv 6, some { hdr := .exit, realPid := 102 }⟩ 0]

theorem headers_handled_exitLater : ∃ c, introduced.Reach (coordMain false 4 (coordInit 3 0 0)) init c ∧
    (c.2.conns 1).taken = 2 ∧ (∀ i < c.2.made, ∀ m ∈ (c.2.conns i).sent.head?, FirstHdr m.hdr) ∧
      ∀ e ∈ c.1.stop, Handled e := by
  obtain ⟨c, hc, htaken⟩ := (env.limit Introduced).exists_follow Answered
    (coordMain false 4 (coordInit 3 0 0), init) exitLater (fun c => (c.2.conns 1).taken = 2)
    (by decide +kernel)
  have hreach := Env.reach_of_follow hc
  exact ⟨c, hreach, htaken, headers_handled false 4 3 0 0 hreach⟩

end Net

end Xnd.Joint
