import Xnd.Joint.Talk

/-!
# Where a state leaves a thread

The coordinator knows what it has sent to a process and what has come back, not where the
checkpoint thread is.  A thread is where the messages on their way bring it
(`ThreadPc.reads`), short of the answers that are on theirs; `Matches` says which places and
answers belong to which `p->state`, and a connection is in step with a state when they do
(`Conn.InStep`).  A client keeps in step whatever it does (`InStep.next`), the coordinator when
it moves the state with each message (`InStep.send`, `InStep.take`).

A connection that is not registered is in none of these places: nothing has been sent to its
client (`Conn.Unanswered`), or only the answer to `XND_ATFORK_PREPARE` (`Conn.Forking`).
-/
namespace Xnd.Joint
open Coord

/-! ## Messages on their way to a thread -/

namespace ThreadPc

/-- The place to which messages bring a thread, `none` when one of them is not expected. -/
def reads : ThreadPc → List XndMsg → Option ThreadPc
  | pc, [] => some pc
  | pc, m :: rest => (pc.receive m).bind (·.reads rest)

variable {pc pc' : ThreadPc} {m : XndMsg} {l l' : List XndMsg}

theorem reads_append : pc.reads (l ++ l') = (pc.reads l).bind (·.reads l') := by
  induction l generalizing pc with
  | nil => rfl
  | cons m l ih =>
      rw [List.cons_append, reads, reads, Option.bind_assoc]
      exact congrArg _ (funext fun _ => ih)

theorem reads_snoc (h : pc.reads l = some pc') : pc.reads (l ++ [m]) = pc'.receive m := by
  rw [reads_append, h]
  exact Option.bind_fun_some _

/-- In the other places the thread waits for nothing. -/
def waits : ThreadPc → Bool
  | .handshake _ | .waiting | .barrier _ => true
  | _ => false

theorem reads_of_not_waits (hw : pc.waits = false) (h : pc.reads l = some pc') :
    l = [] ∧ pc' = pc := by
  cases l with
  | nil => exact ⟨rfl, (Option.some.inj h).symm⟩
  | cons m l =>
      have : pc.receive m = none := by
        cases pc <;> first | rfl | cases hw
      rw [reads, this] at h
      cases h

end ThreadPc

/-! ## States and places -/

/-- **The places of a thread that belong to a state**, with the answers that are on their way. -/
inductive Matches : ProcState → ThreadPc → List XndMsghdr → Prop
  | running : Matches .running .waiting []
  | requested : Matches .recvCkptRequest .requested []
  | ready : Matches .recvCkptRequest (.barrier .preckpt) [.ckptReady]
  | suspended : Matches .readyForCkpt (.barrier .preckpt) []
  | suspending : Matches .ckptInProgress .suspending []
  | saving : Matches .ckptInProgress .saving []
  | done : Matches .ckptInProgress (.barrier .postckpt) [.ckptDone]
  | complete : Matches .ckptComplete (.barrier .postckpt) []
  | restarted : Matches .restartInProgress (.barrier .postrestart) []

/-- A message with which the coordinator moves a process to another state. -/
inductive Tells : ProcState → XndMsghdr → ProcState → Prop
  | request : Tells .running .ckptRequest .recvCkptRequest
  | start : Tells .readyForCkpt .ckptStart .ckptInProgress
  | resume : Tells .ckptComplete .resumeAfterCkpt .running
  | restart : Tells .restartInProgress .resumeAfterRestart .running

/-- The state after a message of the process. -/
def answered : ProcState → XndMsghdr → ProcState
  | .recvCkptRequest, .ckptReady => .readyForCkpt
  | .ckptInProgress, .ckptDone => .ckptComplete
  | st, _ => st

theorem answered_of_not_round {hdr : XndMsghdr} (h : ¬ RoundHdr hdr) (st : ProcState) :
    answered st hdr = st := by
  unfold answered
  split
  · exact absurd (.inl rfl) h
  · exact absurd (.inr rfl) h
  · rfl

theorem answered_request {hdr : XndMsghdr} (h : hdr ≠ .ckptReady) :
    answered .recvCkptRequest hdr = .recvCkptRequest := by
  cases hdr <;> first | rfl | exact absurd rfl h

theorem answered_start {hdr : XndMsghdr} (h : hdr ≠ .ckptDone) :
    answered .ckptInProgress hdr = .ckptInProgress := by
  cases hdr <;> first | rfl | exact absurd rfl h

/-- The messages that ask for a pid. -/
def PidHdr (hdr : XndMsghdr) : Prop := hdr = .virtToReal ∨ hdr = .realToVirt

namespace Conn

/-- The answers of a round that are on their way. -/
def answers (c : Conn) : List XndMsghdr := (c.up.map (·.hdr)).filter (RoundHdr ·)

/-- **The thread is in a place of the state**, or has left by `disconnect_from_coord`. -/
def InStep (st : ProcState) (c : Conn) : Prop :=
  ∃ pc, c.side = .coord pc ∧ (pc = .ended ∧ c.isOpen = false ∨
    ∃ pc', pc.reads c.down = some pc' ∧ Matches st pc' c.answers)

/-- What is true of every connection: no message comes that its client does not expect, and
pids are asked for over `oob_fd`. -/
structure Proper (c : Conn) : Prop where
  taken : c.taken ≤ c.sent.length
  thread : ∀ pc, c.side = .coord pc → pc = .ended ∨ ∃ pc', pc.reads c.down = some pc'
  child : ∀ b, c.side = .child b → c.down.length ≤ if b = true then 0 else 1
  connected : ∀ hdr, c.side = .coord (.connected hdr) → ¬ PidHdr hdr
  oob : ∀ m ∈ c.sent, PidHdr m.hdr → c.side = .oob

/-- **Nothing has been sent to the client**; what it has said is known from its end. -/
def Unanswered (c : Conn) : Prop :=
  c.down = [] ∧ match c.side with
    | .child b => b = false ∧ ∃ m, c.sent = [m] ∧ m.hdr = .atforkPrepare
    | .coord (.connected hdr) => (hdr = .connectLaunch ∨ hdr = .connectRestart) ∧ c.sent = []
    | .coord (.handshake hdr) => ∃ m, c.sent = [m] ∧ m.hdr = hdr ∧
        (hdr = .connectLaunch ∨ hdr = .connectRestart)
    | .coord _ => False
    | .oob => ∀ m ∈ c.sent, OobHdr m.hdr
    | .command => ∃ m, c.sent = [m] ∧ m.hdr = .command

/-- The parent's `XND_ATFORK_PREPARE` is the only message that has been answered. -/
def Forking (c : Conn) : Prop :=
  c.sent.length = 1 ∧ (c.side = .child false ∧ c.down.length = 1 ∨
      c.side = .child true ∧ c.down = [] ∨ c.side = .coord (.connected .atforkChild) ∧ c.down = []) ∨
    c.side = .coord (.handshake .atforkChild) ∧ c.down = [] ∧
      ∃ m m', c.sent = [m, m'] ∧ m'.hdr = .atforkChild

/-- A process that waits for the answer to its handshake. -/
structure Joins (st : ProcState) (c : Conn) : Prop where
  side : ∃ hdr, c.side = .coord (.handshake hdr) ∧
    st = if hdr = .connectRestart then .restartInProgress else .running
  down : c.down = []
  answers : c.answers = []

variable {c x : Conn} {st st' : ProcState} {m : XndMsg} {I : Prop}

/-! ### What a step of a client leaves -/

theorem listening_next (h : Next I c x) : x.listening = c.listening := by
  cases h with
  | thread h => cases threads_of_threadNext h <;> rfl
  | disconnects => simp [disconnect, goto, hangUp]
  | requests => exact listening_say
  | _ => rfl

theorem taken_next (h : Next I c x) : x.taken = c.taken := by
  cases h with
  | thread h => cases threads_of_threadNext h <;> rfl
  | disconnects => simp [disconnect, goto, hangUp]
  | requests => exact taken_say
  | _ => rfl

theorem prefix_say (c : Conn) (msg : XndMsg) : c.sent <+: (c.say msg).sent := by
  obtain ⟨l, hl, -⟩ := exists_sent_say c msg
  exact ⟨l, hl.symm⟩

theorem sent_next (h : Next I c x) : c.sent <+: x.sent := by
  cases h with
  | thread h =>
      cases threads_of_threadNext h with
      | speaks => exact List.prefix_append _ _
      | _ => exact List.prefix_rfl
  | disconnects =>
      obtain ⟨l, hl, -⟩ := exists_sent_disconnect c ‹XndMsg›
      exact ⟨l, hl.symm⟩
  | requests => exact prefix_say c _
  | _ => exact List.prefix_rfl

/-- What every step keeps, steps keep. -/
theorem steps_keep {P : Conn → Prop} (hP : ∀ c x, P c → Next I c x → P x) (hc : P c)
    (h : Relation.ReflTransGen (Next I) c x) : P x := by
  induction h with
  | refl => exact hc
  | tail _ hx ih => exact hP _ _ ih hx

/-! ### Answers on their way -/

theorem answers_append (ht : c.taken ≤ c.sent.length) (hx : x.sent = c.sent ++ [m])
    (hxt : x.taken = c.taken) :
    x.answers = c.answers ++ if RoundHdr m.hdr then [m.hdr] else [] := by
  rw [answers, answers, up, up, hx, hxt, List.drop_append_of_le_length ht, List.map_append,
    List.filter_append, List.map_singleton, List.filter_singleton]
  by_cases hm : RoundHdr m.hdr <;> simp [hm]

theorem answers_congr (hx : x.sent = c.sent) (hxt : x.taken = c.taken) : x.answers = c.answers := by
  rw [answers, answers, up, up, hx, hxt]

theorem answers_take {rest : List XndMsg} (h : c.up = m :: rest) :
    c.answers = (if RoundHdr m.hdr then [m.hdr] else []) ++
      ({ c with taken := c.taken + 1 } : Conn).answers := by
  rw [answers, answers, up_take h, h, List.map_cons, List.filter_cons]
  split <;> simp_all

/-! ### In step -/

theorem InStep.congr (h : c.InStep st) (hside : x.side = c.side) (hdown : x.down = c.down)
    (hx : x.answers = c.answers) (hopen : c.isOpen = false → x.isOpen = false) : x.InStep st := by
  obtain ⟨pc, hpc, hplace⟩ := h
  refine ⟨pc, hside.trans hpc, ?_⟩
  rw [hdown, hx]
  exact hplace.imp_left fun hend => ⟨hend.1, hopen hend.2⟩

/-- The thread is where the state says that it comes to. -/
theorem InStep.place (h : c.InStep st) {pc : ThreadPc} (hside : c.side = .coord pc)
    (hne : pc ≠ .ended) : ∃ pc', pc.reads c.down = some pc' ∧ Matches st pc' c.answers := by
  obtain ⟨pc', hpc', hplace⟩ := h
  obtain rfl : pc' = pc := Side.coord.inj (hpc'.symm.trans hside)
  exact hplace.resolve_left fun hend => hne hend.1

/-- **A step of a thread** that is in step. -/
theorem InStep.threads (h : c.InStep st) (ht : c.taken ≤ c.sent.length) (hl : c.listening = true)
    (hx : Threads c x) : x.InStep st := by
  cases hx with
  | @speaks pc pc' msg hside hpc =>
      obtain ⟨hdr, rfl, rfl, -⟩ | ⟨rfl, rfl, hm⟩ | ⟨rfl, rfl, hm⟩ := hpc
      · obtain ⟨pc', hreads, hmatch⟩ := h.place hside ThreadPc.noConfusion
        obtain ⟨-, rfl⟩ := ThreadPc.reads_of_not_waits rfl hreads
        cases hmatch
      · obtain ⟨pc', hreads, hmatch⟩ := h.place hside ThreadPc.noConfusion
        obtain ⟨hdown, rfl⟩ := ThreadPc.reads_of_not_waits rfl hreads
        have hans : ({ c with side := .coord (.barrier .preckpt), sent := c.sent ++ [msg] } : Conn).answers
            = _ := answers_append ht rfl rfl
        refine ⟨_, rfl, .inr ⟨_, by rw [hdown]; rfl, ?_⟩⟩
        rw [hans, if_pos (.inl hm), hm]
        generalize c.answers = l at hmatch
        cases hmatch
        exact .ready
      · obtain ⟨pc', hreads, hmatch⟩ := h.place hside ThreadPc.noConfusion
        obtain ⟨hdown, rfl⟩ := ThreadPc.reads_of_not_waits rfl hreads
        have hans : ({ c with side := .coord (.barrier .postckpt), sent := c.sent ++ [msg] } : Conn).answers
            = _ := answers_append ht rfl rfl
        refine ⟨_, rfl, .inr ⟨_, by rw [hdown]; rfl, ?_⟩⟩
        rw [hans, if_pos (.inr hm), hm]
        generalize c.answers = l at hmatch
        cases hmatch
        exact .done
  | suspends hside =>
      obtain ⟨pc', hreads, hmatch⟩ := h.place hside ThreadPc.noConfusion
      obtain ⟨hdown, rfl⟩ := ThreadPc.reads_of_not_waits rfl hreads
      refine ⟨.saving, rfl, .inr ⟨.saving, by rw [goto, hdown]; rfl, ?_⟩⟩
      have hans : (c.goto .saving).answers = c.answers := answers_congr rfl rfl
      rw [hans]
      generalize c.answers = l at hmatch ⊢
      cases hmatch
      exact .saving
  | @receives pc pc' m rest hside hdown hpc =>
      obtain ⟨pc'', hreads, hmatch⟩ := h.place hside (by rintro rfl; cases hpc)
      rw [hdown, ThreadPc.reads, hpc] at hreads
      exact ⟨_, rfl, .inr ⟨pc'', hreads, hmatch⟩⟩
  | refuses hside hdown hm =>
      obtain ⟨pc', hreads, -⟩ := h.place hside ThreadPc.noConfusion
      rw [hdown, ThreadPc.reads, hm] at hreads
      cases hreads
  | ends _ _ hnl => exact absurd hl (by rw [hnl]; exact Bool.false_ne_true)

/-- **A step of a client** that is in step. -/
theorem InStep.next (h : c.InStep st) (ht : c.taken ≤ c.sent.length) (hl : c.listening = true)
    (hx : Next I c x) : x.InStep st := by
  have hcoord : ∃ pc, c.side = .coord pc := let ⟨pc, hpc, _⟩ := h; ⟨pc, hpc⟩
  obtain ⟨pc, hpc⟩ := hcoord
  cases hx with
  | thread hx => exact h.threads ht hl (threads_of_threadNext hx)
  | disconnects => exact ⟨.ended, rfl, .inl ⟨rfl, rfl⟩⟩
  | requests hside => rw [hpc] at hside; cases hside
  | replied hside => rw [hpc] at hside; cases hside
  | answered hside => rw [hpc] at hside; cases hside
  | forks hside => rw [hpc] at hside; cases hside
  | hangsUp => exact h.congr rfl rfl rfl fun _ => rfl

/-- **A message that moves the state** moves the place. -/
theorem InStep.send (h : c.InStep st) (hopen : c.isOpen = true) (hm : Tells st m.hdr st') :
    ({ c with down := c.down ++ [m] } : Conn).InStep st' := by
  obtain ⟨pc, hpc, ⟨-, hclosed⟩ | ⟨pc', hreads, hmatch⟩⟩ := h
  · rw [hopen] at hclosed
    cases hclosed
  refine ⟨pc, hpc, .inr ?_⟩
  have hans : ({ c with down := c.down ++ [m] } : Conn).answers = c.answers := answers_congr rfl rfl
  rw [hans]
  simp only [ThreadPc.reads_snoc hreads]
  generalize c.answers = l at hmatch ⊢
  generalize hhdr : m.hdr = hdr at hm
  cases hm <;> cases hmatch <;> refine ⟨_, if_pos hhdr, ?_⟩
  · exact .requested
  · exact .suspending
  · exact .running
  · exact .running

/-- **A message that is taken** moves the state when it is the answer that is waited for. -/
theorem InStep.take (h : c.InStep st) {rest : List XndMsg} (hup : c.up = m :: rest) :
    ({ c with taken := c.taken + 1 } : Conn).InStep (answered st m.hdr) := by
  obtain ⟨pc, hpc, hend | ⟨pc', hreads, hmatch⟩⟩ := h
  · exact ⟨pc, hpc, .inl hend⟩
  refine ⟨pc, hpc, .inr ⟨pc', hreads, ?_⟩⟩
  have hans := answers_take hup
  generalize ({ c with taken := c.taken + 1 } : Conn).answers = l at hans
  rw [hans] at hmatch
  by_cases hround : RoundHdr m.hdr
  · -- The answer that is taken is the one on its way.
    rw [if_pos hround, List.singleton_append] at hmatch
    generalize m.hdr = hdr at hmatch
    cases hmatch
    · exact .suspended
    · exact .complete
  · rw [if_neg hround, List.nil_append] at hmatch
    rwa [answered_of_not_round hround]

/-! ### What is true of every connection -/

theorem Proper.threads (h : c.Proper) (hx : Threads c x) : x.Proper := by
  obtain ⟨⟨pc₀, hpc₀⟩, pc₁, hpc₁⟩ := hx.side
  have nochild : ∀ b, x.side = .child b → x.down.length ≤ if b = true then 0 else 1 := by
    intro b hb
    rw [hb] at hpc₁
    cases hpc₁
  have silent : ∀ m ∈ c.sent, ¬ PidHdr m.hdr := by
    intro m hm hpid
    rw [h.oob m hm hpid] at hpc₀
    cases hpc₀
  cases hx with
  | @speaks pc pc' msg hside hpc =>
      have hdown : c.down = [] := by
        rcases h.thread pc hside with rfl | ⟨pc'', hreads⟩
        · obtain ⟨hdr, he, -⟩ | ⟨he, -⟩ | ⟨he, -⟩ := hpc <;> cases he
        · obtain ⟨hdr, rfl, -⟩ | ⟨rfl, -⟩ | ⟨rfl, -⟩ := hpc <;>
            exact (ThreadPc.reads_of_not_waits rfl hreads).1
      have hmsg : ¬ PidHdr msg.hdr := by
        obtain ⟨hdr, rfl, -, hm⟩ | ⟨-, -, hm⟩ | ⟨-, -, hm⟩ := hpc
        · exact hm ▸ h.connected hdr hside
        · rw [hm]; rintro (he | he) <;> cases he
        · rw [hm]; rintro (he | he) <;> cases he
      refine ⟨?_, fun _ _ => .inr ⟨_, by simp only [hdown]; rfl⟩, nochild, fun hdr he => ?_,
        fun m hm hpid => ?_⟩
      · simp only [List.length_append, List.length_singleton]
        exact Nat.le_succ_of_le h.taken
      · obtain rfl := Side.coord.inj he
        obtain ⟨_, -, he', -⟩ | ⟨-, he', -⟩ | ⟨-, he', -⟩ := hpc <;> cases he'
      · rcases List.mem_append.mp hm with hm | hm
        · exact absurd hpid (silent m hm)
        · exact absurd (List.mem_singleton.mp hm ▸ hpid) hmsg
  | suspends hside =>
      have hdown : c.down = [] := by
        rcases h.thread _ hside with he | ⟨pc', hreads⟩
        · cases he
        · exact (ThreadPc.reads_of_not_waits rfl hreads).1
      refine ⟨h.taken, fun _ _ => .inr ⟨_, by rw [goto, hdown]; rfl⟩, nochild, fun _ he => ?_,
        fun m hm hpid => absurd hpid (silent m hm)⟩
      cases Side.coord.inj he
  | @receives pc pc' m rest hside hdown hpc =>
      have hreads : ∃ pc'', pc'.reads rest = some pc'' := by
        rcases h.thread pc hside with rfl | ⟨pc'', hreads⟩
        · cases hpc
        · rw [hdown, ThreadPc.reads, hpc] at hreads
          exact ⟨pc'', hreads⟩
      refine ⟨h.taken, fun _ he => .inr (Side.coord.inj he ▸ hreads), nochild, fun hdr he => ?_,
        fun m hm hpid => absurd hpid (silent m hm)⟩
      have hspeaks := (speaks_of_receive hpc).2
      rw [Side.coord.inj he] at hspeaks
      cases hspeaks
  | refuses | ends =>
      refine ⟨h.taken, fun _ he => .inl (Side.coord.inj he).symm, nochild, fun _ he => ?_,
        fun m hm hpid => absurd hpid (silent m hm)⟩
      cases Side.coord.inj he

/-- **A step of a client.** -/
theorem Proper.next (h : c.Proper) (hx : Next I c x) : x.Proper := by
  cases hx with
  | thread hx => exact h.threads (threads_of_threadNext hx)
  | @disconnects pc msg hside _ hm =>
      obtain ⟨l, hl, hall⟩ := exists_sent_disconnect c msg
      have hside' : (c.disconnect msg).side = .coord .ended := rfl
      refine ⟨?_, fun _ he => .inl (Side.coord.inj (he.symm.trans hside')), fun b he => ?_,
        fun hdr he => ?_, fun m hmem hpid => ?_⟩
      · have ht : (c.disconnect msg).taken = c.taken := by simp [disconnect, goto, hangUp]
        rw [hl, ht, List.length_append]
        exact Nat.le_add_right_of_le h.taken
      · cases he.symm.trans hside'
      · cases he.symm.trans hside'
      · rw [hl] at hmem
        rcases List.mem_append.mp hmem with hmem | hmem
        · cases (h.oob m hmem hpid).symm.trans hside
        · rw [hall m hmem, hm] at hpid
          rcases hpid with he | he <;> cases he
  | @requests msg hside =>
      obtain ⟨l, hl, -⟩ := exists_sent_say c msg
      have hside' : (c.say msg).side = .oob := side_say.trans hside
      refine ⟨?_, fun _ he => ?_, fun _ he => ?_, fun _ he => ?_, fun _ _ _ => hside'⟩
      · rw [hl, taken_say, List.length_append]
        exact Nat.le_add_right_of_le h.taken
      · cases he.symm.trans hside'
      · cases he.symm.trans hside'
      · cases he.symm.trans hside'
  | replied hside =>
      refine ⟨h.taken, fun _ he => ?_, fun _ he => ?_, fun _ he => ?_, fun _ _ _ => hside⟩
      · cases he.symm.trans hside
      · cases he.symm.trans hside
      · cases he.symm.trans hside
  | @answered m rest hside hdown =>
      have hone := h.child false hside
      rw [hdown, List.length_cons] at hone
      refine ⟨h.taken, fun _ he => ?_, fun b he => ?_, fun _ he => ?_, fun m hm hpid => ?_⟩
      · cases he
      · obtain rfl := Side.child.inj he
        exact Nat.le_of_succ_le_succ hone
      · cases he
      · cases (h.oob m hm hpid).symm.trans hside
  | forks hside =>
      have hzero : c.down = [] := List.eq_nil_of_length_eq_zero (Nat.le_zero.mp (h.child true hside))
      refine ⟨h.taken, fun _ he => .inr ?_, fun _ he => ?_, fun hdr he => ?_, fun m hm hpid => ?_⟩
      · obtain rfl := Side.coord.inj he
        exact ⟨.connected .atforkChild, by rw [hzero]; rfl⟩
      · cases he
      · obtain rfl := ThreadPc.connected.inj (Side.coord.inj he)
        rintro (he | he) <;> cases he
      · cases (h.oob m hm hpid).symm.trans hside
  | hangsUp => exact ⟨h.taken, h.thread, h.child, h.connected, h.oob⟩

/-- A connection that has just been made. -/
theorem proper_of_begins {owner : Option Nat} (h : Begins I owner c) : c.Proper ∧ c.Unanswered := by
  cases h with
  | coord hhdr =>
      refine ⟨⟨Nat.zero_le _, fun pc he => .inr ⟨pc, rfl⟩, fun _ he => ?_, fun hdr he => ?_,
        List.forall_mem_nil _⟩, rfl, hhdr, rfl⟩
      · cases he
      · obtain rfl := ThreadPc.connected.inj (Side.coord.inj he)
        rcases hhdr with rfl | rfl <;> rintro (he | he) <;> cases he
  | @child msg hm =>
      refine ⟨⟨Nat.zero_le _, fun _ he => ?_, fun _ _ => Nat.zero_le _, fun _ he => ?_,
        fun m hmem hpid => ?_⟩, rfl, rfl, msg, rfl, hm⟩
      · cases he
      · cases he
      · rw [List.mem_singleton.mp hmem, hm] at hpid
        rcases hpid with he | he <;> cases he
  | @oob msg hm =>
      refine ⟨⟨Nat.zero_le _, fun _ he => ?_, fun _ he => ?_, fun _ he => ?_, fun _ _ _ => rfl⟩,
        rfl, fun m hmem => List.mem_singleton.mp hmem ▸ hm⟩ <;> cases he
  | silent =>
      refine ⟨⟨Nat.zero_le _, fun _ he => ?_, fun _ he => ?_, fun _ he => ?_, fun _ _ _ => rfl⟩,
        rfl, List.forall_mem_nil _⟩ <;> cases he
  | @command msg hm =>
      refine ⟨⟨Nat.zero_le _, fun _ he => ?_, fun _ he => ?_, fun _ he => ?_, fun m hmem hpid => ?_⟩,
        rfl, msg, rfl, hm⟩
      · cases he
      · cases he
      · cases he
      · rw [List.mem_singleton.mp hmem, hm] at hpid
        rcases hpid with he | he <;> cases he

/-! ### Connections that are not registered -/

/-- Nobody who waits for the answer to its first message says anything else. -/
theorem Unanswered.next (h : c.Unanswered) (hx : Next I c x) : x.Unanswered := by
  obtain ⟨hdown, h⟩ := h
  cases hx with
  | thread hx =>
      cases threads_of_threadNext hx with
      | @speaks pc pc' msg hside hpc =>
          rw [hside] at h
          obtain ⟨hdr, rfl, rfl, hm⟩ | ⟨rfl, -⟩ | ⟨rfl, -⟩ := hpc
          · obtain ⟨hhdr, hs⟩ := h
            exact ⟨hdown, msg, by rw [hs]; rfl, hm, hhdr⟩
          · exact h.elim
          · exact h.elim
      | suspends hside => rw [hside] at h; exact h.elim
      | receives _ hdown' => rw [hdown] at hdown'; cases hdown'
      | refuses _ hdown' => rw [hdown] at hdown'; cases hdown'
      | ends hside => rw [hside] at h; exact h.elim
  | @disconnects pc msg hside hpc =>
      rw [hside] at h
      cases pc with
      | connected | handshake => cases hpc
      | _ => exact h.elim
  | @requests msg hside hm =>
      rw [hside] at h
      obtain ⟨l, hl, hall⟩ := exists_sent_say c msg
      refine ⟨down_say.trans hdown, ?_⟩
      rw [side_say, hside]
      intro m hmem
      rw [hl] at hmem
      exact (List.mem_append.mp hmem).elim (h m) fun hmem => hall m hmem ▸ hm
  | replied _ hdown' => rw [hdown] at hdown'; cases hdown'
  | answered _ hdown' => rw [hdown] at hdown'; cases hdown'
  | forks hside =>
      rw [hside] at h
      cases h.1
  | hangsUp => exact ⟨hdown, h⟩

/-- The child sends its first message when it has been forked. -/
theorem Forking.next (h : c.Forking) (hx : Next I c x) : x.Forking := by
  obtain ⟨hone, h⟩ | ⟨hside, hdown, m₁, m₂, hs, hm₂⟩ := h
  · cases hx with
    | thread hx =>
        cases threads_of_threadNext hx with
        | @speaks pc pc' msg hside hpc =>
            obtain ⟨hside', -⟩ | ⟨hside', -⟩ | ⟨hside', hdown⟩ := h <;> cases hside.symm.trans hside'
            obtain ⟨hdr, he, rfl, hm⟩ | ⟨he, -⟩ | ⟨he, -⟩ := hpc <;> cases he
            obtain ⟨m, hs⟩ := List.length_eq_one_iff.mp hone
            exact .inr ⟨rfl, hdown, m, msg, by rw [hs]; rfl, hm⟩
        | suspends hside =>
            obtain ⟨hside', -⟩ | ⟨hside', -⟩ | ⟨hside', -⟩ := h <;> cases hside.symm.trans hside'
        | receives hside hdown' =>
            obtain ⟨hside', -⟩ | ⟨hside', -⟩ | ⟨hside', hdown⟩ := h
            · cases hside.symm.trans hside'
            · cases hside.symm.trans hside'
            · rw [hdown] at hdown'
              cases hdown'
        | refuses hside =>
            obtain ⟨hside', -⟩ | ⟨hside', -⟩ | ⟨hside', -⟩ := h <;> cases hside.symm.trans hside'
        | ends hside =>
            obtain ⟨hside', -⟩ | ⟨hside', -⟩ | ⟨hside', -⟩ := h <;> cases hside.symm.trans hside'
    | disconnects hside hpc =>
        obtain ⟨hside', -⟩ | ⟨hside', -⟩ | ⟨hside', -⟩ := h <;> cases hside.symm.trans hside'
        cases hpc
    | requests hside | replied hside =>
        obtain ⟨hside', -⟩ | ⟨hside', -⟩ | ⟨hside', -⟩ := h <;> cases hside.symm.trans hside'
    | answered hside hdown' =>
        obtain ⟨-, hdown⟩ | ⟨hside', -⟩ | ⟨hside', -⟩ := h
        · rw [hdown', List.length_cons] at hdown
          exact .inl ⟨hone, .inr (.inl ⟨rfl, List.eq_nil_of_length_eq_zero (Nat.succ.inj hdown)⟩)⟩
        · cases hside.symm.trans hside'
        · cases hside.symm.trans hside'
    | forks hside =>
        obtain ⟨hside', -⟩ | ⟨-, hdown⟩ | ⟨hside', -⟩ := h
        · cases hside.symm.trans hside'
        · exact .inl ⟨hone, .inr (.inr ⟨rfl, hdown⟩)⟩
        · cases hside.symm.trans hside'
    | hangsUp => exact .inl ⟨hone, h⟩
  · cases hx with
    | thread hx =>
        cases threads_of_threadNext hx with
        | speaks hside' hpc =>
            cases hside'.symm.trans hside
            obtain ⟨hdr, he, -⟩ | ⟨he, -⟩ | ⟨he, -⟩ := hpc <;> cases he
        | suspends hside' => cases hside'.symm.trans hside
        | receives _ hdown' => rw [hdown] at hdown'; cases hdown'
        | refuses hside' => cases hside'.symm.trans hside
        | ends hside' => cases hside'.symm.trans hside
    | disconnects hside' hpc =>
        cases hside'.symm.trans hside
        cases hpc
    | requests hside' | replied hside' | answered hside' | forks hside' =>
        cases hside'.symm.trans hside
    | hangsUp => exact .inr ⟨hside, hdown, m₁, m₂, hs, hm₂⟩

/-- A process that waits for the answer to its handshake does nothing. -/
theorem Joins.next (h : c.Joins st) (hx : Next I c x) : x.Joins st := by
  obtain ⟨⟨hdr, hside, hst⟩, hdown, hans⟩ := h
  cases hx with
  | thread hx =>
      cases threads_of_threadNext hx with
      | speaks hside' hpc =>
          cases hside'.symm.trans hside
          obtain ⟨_, he, -⟩ | ⟨he, -⟩ | ⟨he, -⟩ := hpc <;> cases he
      | suspends hside' => cases hside'.symm.trans hside
      | receives _ hdown' => rw [hdown] at hdown'; cases hdown'
      | refuses hside' => cases hside'.symm.trans hside
      | ends hside' => cases hside'.symm.trans hside
  | disconnects hside' hpc =>
      cases hside'.symm.trans hside
      cases hpc
  | requests hside' | replied hside' | answered hside' | forks hside' =>
      cases hside'.symm.trans hside
  | hangsUp => exact ⟨⟨hdr, hside, hst⟩, hdown, hans⟩

/-- The answer to a handshake brings the process to the state it is listed in. -/
theorem Joins.send (h : c.Joins st) (hm : m.hdr = .coordAck ∧ m.ret = .success) :
    ({ c with down := c.down ++ [m] } : Conn).InStep st := by
  obtain ⟨⟨hdr, hside, hst⟩, hdown, hans⟩ := h
  have hans' : ({ c with down := c.down ++ [m] } : Conn).answers = [] :=
    (answers_congr rfl rfl).trans hans
  refine ⟨_, hside, .inr ⟨if hdr = .connectRestart then .barrier .postrestart else .waiting, ?_, ?_⟩⟩
  · simp only [hdown, List.nil_append, ThreadPc.reads, ThreadPc.receive, if_pos hm]
    rfl
  · rw [hans', hst]
    split
    · exact .restarted
    · exact .running

/-! ### The first message -/

section First
variable (h : c.Unanswered) (hm : c.sent.head? = some m)

include h hm

/-- The first message tells which end the client has. -/
theorem Unanswered.first :
    c.side = .child false ∧ c.sent = [m] ∧ m.hdr = .atforkPrepare ∨
      c.side = .coord (.handshake m.hdr) ∧ c.sent = [m] ∧
        (m.hdr = .connectLaunch ∨ m.hdr = .connectRestart) ∨
      c.side = .oob ∧ OobHdr m.hdr ∨ c.side = .command ∧ m.hdr = .command := by
  have only : ∀ {m'}, c.sent = [m'] → m' = m := fun hs => by
    rw [hs] at hm
    exact Option.some.inj hm
  obtain ⟨-, h⟩ := h
  split at h
  next hside =>
    obtain ⟨rfl, m', hs, hm'⟩ := h
    obtain rfl := only hs
    exact .inl ⟨hside, hs, hm'⟩
  next =>
    rw [h.2] at hm
    cases hm
  next hside =>
    obtain ⟨m', hs, rfl, hhdr⟩ := h
    obtain rfl := only hs
    exact .inr (.inl ⟨hside, hs, hhdr⟩)
  next => exact h.elim
  next hside => exact .inr (.inr (.inl ⟨hside, h m (List.mem_of_mem_head? hm)⟩))
  next hside =>
    obtain ⟨m', hs, hm'⟩ := h
    obtain rfl := only hs
    exact .inr (.inr (.inr ⟨hside, hm'⟩))

/-- A process that is launched or restarted. -/
theorem Unanswered.joins (hhdr : m.hdr = .connectLaunch ∨ m.hdr = .connectRestart)
    (ht : c.taken = 1) :
    c.Joins (if m.hdr = .connectRestart then .restartInProgress else .running) := by
  obtain ⟨-, -, he⟩ | ⟨hside, hs, -⟩ | ⟨-, he⟩ | ⟨-, he⟩ := h.first hm
  · rw [he] at hhdr
    rcases hhdr with he | he <;> cases he
  · refine ⟨⟨m.hdr, hside, rfl⟩, h.1, ?_⟩
    rw [answers, up, ht, hs]
    rfl
  · rcases hhdr with hm | hm <;> rw [hm] at he <;> rcases he with he | he | he <;> cases he
  · rw [he] at hhdr
    rcases hhdr with he | he <;> cases he

/-- A process that forks. -/
theorem Unanswered.forks (hhdr : m.hdr = .atforkPrepare) :
    c.side = .child false ∧ c.sent = [m] := by
  obtain ⟨hside, hs, -⟩ | ⟨-, -, he⟩ | ⟨-, he⟩ | ⟨-, he⟩ := h.first hm
  · exact ⟨hside, hs⟩
  · rw [hhdr] at he
    rcases he with he | he <;> cases he
  · rw [hhdr] at he
    rcases he with he | he | he <;> cases he
  · rw [hhdr] at he
    cases he

/-- A command, or a pid that is asked for. -/
theorem Unanswered.asks (hhdr : m.hdr = .command ∨ PidHdr m.hdr) :
    c.side = .oob ∨ c.side = .command := by
  obtain ⟨-, -, he⟩ | ⟨-, -, he⟩ | ⟨hside, -⟩ | ⟨hside, -⟩ := h.first hm
  · rw [he] at hhdr
    rcases hhdr with he | he | he <;> cases he
  · rcases he with he | he <;> rw [he] at hhdr <;> rcases hhdr with he | he | he <;> cases he
  · exact .inl hside
  · exact .inr hside

end First

/-- The answer to `XND_ATFORK_PREPARE`. -/
theorem Unanswered.send (h : c.Unanswered) (hside : c.side = .child false) (hs : c.sent.length = 1) :
    ({ c with down := c.down ++ [m] } : Conn).Forking :=
  .inl ⟨hs, .inl ⟨hside, by simp only [h.1]; rfl⟩⟩

/-- The message of the child. -/
theorem Forking.take (h : c.Forking) (ht : c.taken = 1) {rest : List XndMsg} (hup : c.up = m :: rest) :
    ({ c with taken := c.taken + 1 } : Conn).Joins .running := by
  obtain ⟨hone, -⟩ | ⟨hside, hdown, m₁, m₂, hs, -⟩ := h
  · obtain ⟨m', hs⟩ := List.length_eq_one_iff.mp hone
    rw [up, ht, hs] at hup
    cases hup
  · refine ⟨⟨_, hside, rfl⟩, hdown, ?_⟩
    rw [answers, up, ht, hs]
    rfl

/-! ### Steps of the coordinator -/

theorem Proper.take (h : c.Proper) {rest : List XndMsg} (hup : c.up = m :: rest) :
    ({ c with taken := c.taken + 1 } : Conn).Proper := by
  refine ⟨?_, h.thread, h.child, h.connected, h.oob⟩
  have hlt : c.taken < c.sent.length := by
    rw [up] at hup
    refine Nat.lt_of_not_le fun hle => ?_
    rw [List.drop_eq_nil_of_le hle] at hup
    cases hup
  exact hlt

/-- A message is sent that is expected. -/
theorem Proper.send (h : c.Proper)
    (hthread : ∀ pc, c.side = .coord pc → pc = .ended ∨ ∃ pc', pc.reads (c.down ++ [m]) = some pc')
    (hchild : ∀ b, c.side = .child b → b = false ∧ c.down = []) :
    ({ c with down := c.down ++ [m] } : Conn).Proper := by
  refine ⟨h.taken, hthread, fun b hb => ?_, h.connected, h.oob⟩
  obtain ⟨rfl, hdown⟩ := hchild b hb
  simp only [hdown]
  exact Nat.le_refl _

theorem InStep.expected (h : c.InStep st) (pc : ThreadPc) (hside : c.side = .coord pc) :
    pc = .ended ∨ ∃ pc', pc.reads c.down = some pc' := by
  obtain ⟨pc', hpc', hend | ⟨pc'', hreads, -⟩⟩ := h
  · exact .inl (Side.coord.inj (hside.symm.trans hpc') ▸ hend.1)
  · exact .inr ⟨pc'', Side.coord.inj (hside.symm.trans hpc') ▸ hreads⟩

/-- To a process that is in step afterwards. -/
theorem Proper.send_inStep (h : c.Proper)
    (hx : ({ c with down := c.down ++ [m] } : Conn).InStep st) :
    ({ c with down := c.down ++ [m] } : Conn).Proper := by
  refine h.send (fun pc hside => hx.expected pc hside) fun b hb => ?_
  obtain ⟨pc, hpc, -⟩ := hx
  cases hb.symm.trans hpc

end Conn

end Xnd.Joint
