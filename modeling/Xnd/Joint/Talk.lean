import Xnd.Joint.Steps

/-!
# What a client says

What a connection begins with is known from its kind and from the place of its thread
(`Conn.Opened`), and a client that is registered says no more than what registered clients say
(`Conn.Talks`).  Of the answers in a round it owes one for each question (`Conn.debt`): the
debt grows with a question of the coordinator only, and falls with an answer that is taken.
-/
namespace Xnd.Joint
open Coord

/-! ## What a client has said -/

/-- The messages that the `switch` of `coord_wait_for_connection` handles. -/
def FirstHdr (hdr : XndMsghdr) : Prop :=
  hdr = .connectLaunch ∨ hdr = .connectRestart ∨ hdr = .atforkPrepare ∨ hdr = .command ∨
    hdr = .realToVirt ∨ hdr = .virtToReal

/-- The messages that answer the coordinator in a round. -/
def RoundHdr (hdr : XndMsghdr) : Prop := hdr = .ckptReady ∨ hdr = .ckptDone

instance (hdr : XndMsghdr) : Decidable (RoundHdr hdr) := inferInstanceAs (Decidable (_ ∨ _))

/-- The messages with which the coordinator asks. -/
def AskHdr (hdr : XndMsghdr) : Prop := hdr = .ckptRequest ∨ hdr = .ckptStart

instance (hdr : XndMsghdr) : Decidable (AskHdr hdr) := inferInstanceAs (Decidable (_ ∨ _))

/-- What a registered client may say. -/
def TalkHdr (hdr : XndMsghdr) : Prop := OobHdr hdr ∨ RoundHdr hdr

/-- The messages that register a process. -/
def Registers (l : List XndMsg) : Prop :=
  (∃ m, l = [m] ∧ (m.hdr = .connectLaunch ∨ m.hdr = .connectRestart)) ∨
    ∃ m m', l = [m, m'] ∧ m.hdr = .atforkPrepare ∧ m'.hdr = .atforkChild

/-- The thread has sent its first message. -/
def ThreadPc.speaks : ThreadPc → Bool
  | .connected _ => false
  | _ => true

/-- The client is registered, or needs not be. -/
def Side.talks : Side → Bool
  | .child _ => false
  | .coord pc => pc.speaks
  | _ => true

namespace Conn

/-- A process has registered, and has said no more than a registered process says. -/
def Registered (c : Conn) : Prop :=
  ∃ l rest, c.sent = l ++ rest ∧ Registers l ∧ ∀ m ∈ rest, TalkHdr m.hdr

/-- **What has been said**, from the kind of the connection and the place of its thread. -/
def Opened (c : Conn) : Prop :=
  match c.side with
  | .child _ => ∃ m, c.sent = [m] ∧ m.hdr = .atforkPrepare
  | .coord (.connected hdr) =>
      (hdr = .connectLaunch ∨ hdr = .connectRestart) ∧ c.sent = [] ∨
        hdr = .atforkChild ∧ ∃ m, c.sent = [m] ∧ m.hdr = .atforkPrepare
  | .coord _ => c.Registered
  | .oob => (∀ m ∈ c.sent, OobHdr m.hdr) ∧ ∀ m ∈ c.sent.head?, m.hdr ≠ .exit
  | .command => ∃ m, c.sent = [m] ∧ m.hdr = .command

/-- The client is registered, and what it has said since is what a registered client says. -/
structure Talks (c : Conn) : Prop where
  side : Side.talks c.side = true
  up : ∀ m ∈ c.up, TalkHdr m.hdr

/-- A message of the round that the thread is about to send. -/
def owed : Side → Nat
  | .coord .requested | .coord .suspending | .coord .saving => 1
  | _ => 0

/-- **What a round can still bring** on the connection: answers on their way, and those to
questions on their way or received. -/
def debt (c : Conn) : Nat :=
  c.up.countP (RoundHdr ·.hdr) + c.down.countP (AskHdr ·.hdr) + owed c.side

variable {c x : Conn} {msg : XndMsg}

/-- The first message is one that the coordinator handles. -/
theorem Opened.first (h : c.Opened) {m : XndMsg} (hm : c.sent.head? = some m) : FirstHdr m.hdr := by
  unfold Opened at h
  split at h
  · obtain ⟨m', hs, hh⟩ := h
    rw [hs] at hm
    obtain rfl := Option.some.inj hm
    exact .inr (.inr (.inl hh))
  · rcases h with ⟨-, hs⟩ | ⟨-, m', hs, hh⟩
    · rw [hs] at hm
      cases hm
    · rw [hs] at hm
      obtain rfl := Option.some.inj hm
      exact .inr (.inr (.inl hh))
  · obtain ⟨l, rest, hs, ⟨m', rfl, hh⟩ | ⟨m', m'', rfl, hh, -⟩, -⟩ := h
    · rw [hs] at hm
      obtain rfl := Option.some.inj hm
      exact hh.elim .inl fun hh => .inr (.inl hh)
    · rw [hs] at hm
      obtain rfl := Option.some.inj hm
      exact .inr (.inr (.inl hh))
  · rcases h.1 m (List.mem_of_mem_head? hm) with hh | hh | hh
    · exact .inr (.inr (.inr (.inr (.inr hh))))
    · exact .inr (.inr (.inr (.inr (.inl hh))))
    · exact absurd hh (h.2 m hm)
  · obtain ⟨m', hs, hh⟩ := h
    rw [hs] at hm
    obtain rfl := Option.some.inj hm
    exact .inr (.inr (.inr (.inl hh)))

theorem opened_coord {pc : ThreadPc} (hside : c.side = .coord pc) (hpc : pc.speaks = true) :
    c.Opened ↔ c.Registered := by
  unfold Opened
  rw [hside]
  cases pc with
  | connected => cases hpc
  | _ => exact Iff.rfl

/-- What has been said grows. -/
theorem Registered.append (h : c.Registered) {l : List XndMsg} (hl : ∀ m ∈ l, TalkHdr m.hdr)
    (hx : x.sent = c.sent ++ l) : x.Registered := by
  obtain ⟨first, rest, hs, hfirst, hrest⟩ := h
  refine ⟨first, rest ++ l, by rw [hx, hs, List.append_assoc], hfirst, fun m hm => ?_⟩
  exact (List.mem_append.mp hm).elim (hrest m) (hl m)

theorem Registered.congr (h : c.Registered) (hx : x.sent = c.sent) : x.Registered := by
  rwa [Registered, hx]

/-- What a message adds to what has been said. -/
theorem exists_sent_say (c : Conn) (msg : XndMsg) :
    ∃ l, (c.say msg).sent = c.sent ++ l ∧ ∀ m ∈ l, m = msg := by
  unfold say
  split
  · exact ⟨[msg], rfl, fun m hm => List.mem_singleton.mp hm⟩
  · exact ⟨[], (List.append_nil _).symm, fun _ hm => absurd hm List.not_mem_nil⟩

theorem exists_sent_disconnect (c : Conn) (msg : XndMsg) :
    ∃ l, (c.disconnect msg).sent = c.sent ++ l ∧ ∀ m ∈ l, m = msg := by
  obtain ⟨l, hl, hm⟩ := exists_sent_say c msg
  obtain ⟨l', hl', hm'⟩ := exists_sent_say (c.say msg) msg
  refine ⟨l ++ l', ?_, fun m h => (List.mem_append.mp h).elim (hm m) (hm' m)⟩
  rw [← List.append_assoc, ← hl, ← hl']
  rfl

theorem speaks_of_receive {pc pc' : ThreadPc} {m : XndMsg} (h : pc.receive m = some pc') :
    pc.speaks = true ∧ pc'.speaks = true := by
  unfold ThreadPc.receive at h
  split at h
  · split at h
    · obtain rfl := Option.some.inj h
      refine ⟨rfl, ?_⟩
      split <;> rfl
    · cases h
  · split at h
    · obtain rfl := Option.some.inj h
      exact ⟨rfl, rfl⟩
    · cases h
  · split at h
    · obtain rfl := Option.some.inj h
      refine ⟨rfl, ?_⟩
      cases ‹BarrierType› <;> rfl
    · cases h
  · cases h

theorem speaks_of_userRuns {pc : ThreadPc} (h : pc.userRuns = true) : pc.speaks = true := by
  cases pc with
  | connected => cases h
  | _ => rfl

theorem Opened.threads (ho : c.Opened) (h : Threads c x) : x.Opened := by
  cases h with
  | @speaks pc pc' msg hside hpc =>
      obtain ⟨hdr, rfl, rfl, hm⟩ | ⟨rfl, rfl, hm⟩ | ⟨rfl, rfl, hm⟩ := hpc
      · refine (opened_coord rfl rfl).mpr ?_
        simp only [Opened, hside] at ho
        obtain ⟨hhdr, hs⟩ | ⟨rfl, m, hs, hm'⟩ := ho
        · refine ⟨[msg], [], ?_, .inl ⟨msg, rfl, ?_⟩, List.forall_mem_nil _⟩
          · simp only [hs, List.nil_append, List.append_nil]
          · rw [hm]
            exact hhdr
        · refine ⟨[m, msg], [], ?_, .inr ⟨m, msg, rfl, hm', hm⟩, List.forall_mem_nil _⟩
          simp only [hs, List.singleton_append, List.append_nil]
      · have hr : c.Registered := (opened_coord hside rfl).mp ho
        refine (opened_coord rfl rfl).mpr (hr.append (l := [msg]) (fun m h => ?_) rfl)
        rw [List.mem_singleton.mp h]
        exact .inr (.inl hm)
      · have hr : c.Registered := (opened_coord hside rfl).mp ho
        refine (opened_coord rfl rfl).mpr (hr.append (l := [msg]) (fun m h => ?_) rfl)
        rw [List.mem_singleton.mp h]
        exact .inr (.inr hm)
  | suspends hside => exact (opened_coord rfl rfl).mpr (((opened_coord hside rfl).mp ho).congr rfl)
  | receives hside hdown hpc =>
      obtain ⟨hpc, hpc'⟩ := speaks_of_receive hpc
      exact (opened_coord rfl hpc').mpr (((opened_coord hside hpc).mp ho).congr rfl)
  | refuses hside => exact (opened_coord rfl rfl).mpr (((opened_coord hside rfl).mp ho).congr rfl)
  | ends hside => exact (opened_coord rfl rfl).mpr (((opened_coord hside rfl).mp ho).congr rfl)

/-- **A step of a client keeps to what is said.** -/
theorem Opened.next {P : Prop} (hP : P) (ho : c.Opened) (h : Conn.Next P c x) : x.Opened := by
  cases h with
  | thread h => exact ho.threads (threads_of_threadNext h)
  | disconnects hside hpc hm =>
      obtain ⟨l, hl, hall⟩ := exists_sent_disconnect c ‹XndMsg›
      refine (opened_coord rfl rfl).mpr
        (((opened_coord hside (speaks_of_userRuns hpc)).mp ho).append (fun m h => ?_) hl)
      rw [hall m h]
      exact .inl (.inr (.inr hm))
  | @requests msg hside hm hfirst =>
      simp only [Opened, hside] at ho
      simp only [Opened, side_say, hside]
      unfold say
      split
      · refine ⟨fun m h => (List.mem_append.mp h).elim (ho.1 m) fun h => ?_, fun m h => ?_⟩
        · rw [List.mem_singleton.mp h]
          exact hm
        · cases hs : c.sent with
          | nil =>
              rw [hs] at h
              exact Option.some.inj h ▸ hfirst hP hs
          | cons m' rest =>
              rw [hs] at h
              exact ho.2 m (by rw [hs]; exact h)
      · exact ho
  | replied hside =>
      simp only [Opened, hside] at ho ⊢
      exact ho
  | answered hside =>
      simp only [Opened, hside] at ho ⊢
      exact ho
  | forks hside =>
      simp only [Opened, hside] at ho
      exact .inr ⟨rfl, ho⟩
  | hangsUp => exact ho

/-! ### What is owed -/

theorem up_append (l : List XndMsg) (hx : x.sent = c.sent ++ l) (ht : x.taken = c.taken) :
    ∃ l', x.up = c.up ++ l' ∧ l'.Sublist l := by
  refine ⟨l.drop (c.taken - c.sent.length), ?_, List.drop_sublist _ _⟩
  rw [up, up, hx, ht, List.drop_append]

/-- Messages that are no answers in a round leave the debt. -/
theorem debt_append_le (l : List XndMsg) (hl : ∀ m ∈ l, ¬ RoundHdr m.hdr)
    (hx : x.sent = c.sent ++ l) (ht : x.taken = c.taken) (hd : x.down = c.down)
    (hs : owed x.side ≤ owed c.side) : x.debt ≤ c.debt := by
  obtain ⟨l', hup, hsub⟩ := up_append l hx ht
  have hzero : l'.countP (RoundHdr ·.hdr) = 0 :=
    List.countP_eq_zero.mpr fun m hm => by simpa using hl m (hsub.subset hm)
  rw [debt, debt, hup, hd, List.countP_append, hzero]
  omega

/-- A step without a message. -/
theorem debt_silent_le (hx : x.sent = c.sent) (ht : x.taken = c.taken) (hd : x.down = c.down)
    (hs : owed x.side ≤ owed c.side) : x.debt ≤ c.debt := by
  rw [debt, debt, up, up, hx, ht, hd]
  exact Nat.add_le_add_left hs _

/-- An answer in a round is owed before. -/
theorem debt_answer_le (msg : XndMsg) (hx : x.sent = c.sent ++ [msg]) (ht : x.taken = c.taken)
    (hd : x.down = c.down) (hs : owed x.side + 1 ≤ owed c.side) : x.debt ≤ c.debt := by
  obtain ⟨l', hup, hsub⟩ := up_append [msg] hx ht
  have hone : l'.countP (RoundHdr ·.hdr) ≤ 1 := (List.countP_le_length).trans hsub.length_le
  rw [debt, debt, hup, hd, List.countP_append]
  omega

/-- A message that comes to the client. -/
theorem debt_receive_le {m : XndMsg} {rest : List XndMsg} (hd : c.down = m :: rest)
    (hsent : x.sent = c.sent) (ht : x.taken = c.taken) (hx : x.down = rest)
    (hs : owed x.side ≤ owed c.side + if AskHdr m.hdr then 1 else 0) : x.debt ≤ c.debt := by
  rw [debt, debt, up, up, hsent, ht, hx, hd, List.countP_cons]
  simp only [decide_eq_true_eq]
  omega

/-- A message moves the thread on to what it owes. -/
theorem owed_receive {pc pc' : ThreadPc} {m : XndMsg} (h : pc.receive m = some pc') :
    owed (.coord pc') ≤ owed (.coord pc) + if AskHdr m.hdr then 1 else 0 := by
  unfold ThreadPc.receive at h
  split at h
  · split at h
    · obtain rfl := Option.some.inj h
      split <;> exact Nat.zero_le _
    · cases h
  · split at h
    next hm =>
      obtain rfl := Option.some.inj h
      rw [if_pos (.inl hm)]
      exact Nat.le_refl _
    next => cases h
  · split at h
    next type hm =>
      obtain rfl := Option.some.inj h
      cases type with
      | preckpt =>
          rw [if_pos (.inr hm)]
          exact Nat.le_refl _
      | postckpt | postrestart => exact Nat.zero_le _
    next => cases h
  · cases h

/-! ### A step of a client -/

/-- **What a step of a client leaves.** -/
structure Follows (c x : Conn) : Prop where
  opened : x.Opened
  sent : c.sent <+: x.sent
  taken : x.taken = c.taken
  talks : c.Talks → x.Talks
  debt : x.debt ≤ c.debt

theorem Talks.append (h : c.Talks) (hside : Side.talks x.side = true) (l : List XndMsg)
    (hl : ∀ m ∈ l, TalkHdr m.hdr) (hx : x.sent = c.sent ++ l) (ht : x.taken = c.taken) :
    x.Talks := by
  obtain ⟨l', hup, hsub⟩ := up_append l hx ht
  refine ⟨hside, fun m hm => ?_⟩
  rw [hup] at hm
  exact (List.mem_append.mp hm).elim (h.up m) fun hm => hl m (hsub.subset hm)

theorem Talks.congr (h : c.Talks) (hside : Side.talks x.side = true) (hx : x.sent = c.sent)
    (ht : x.taken = c.taken) : x.Talks := by
  refine ⟨hside, fun m hm => h.up m ?_⟩
  rwa [Conn.up, hx, ht] at hm

theorem speaks_of_talks (h : c.Talks) {pc : ThreadPc} (hside : c.side = .coord pc) :
    pc.speaks = true := by
  have hs := h.side
  rw [hside] at hs
  exact hs

/-- A step of a thread. -/
theorem follows_threads (ho : c.Opened) (h : Threads c x) : Follows c x := by
  have hopened := ho.threads h
  cases h with
  | @speaks pc pc' msg hside hpc =>
      refine ⟨hopened, List.prefix_append _ _, rfl, fun ht => ?_, ?_⟩
      · have hspeaks := speaks_of_talks ht hside
        obtain ⟨hdr, rfl, -, -⟩ | ⟨rfl, rfl, hm⟩ | ⟨rfl, rfl, hm⟩ := hpc
        · cases hspeaks
        · refine ht.append rfl [msg] (fun m h => ?_) rfl rfl
          rw [List.mem_singleton.mp h]
          exact .inr (.inl hm)
        · refine ht.append rfl [msg] (fun m h => ?_) rfl rfl
          rw [List.mem_singleton.mp h]
          exact .inr (.inr hm)
      · obtain ⟨hdr, rfl, rfl, hm⟩ | ⟨rfl, rfl, -⟩ | ⟨rfl, rfl, -⟩ := hpc
        · refine debt_append_le [msg] (fun m h => ?_) rfl rfl rfl (Nat.zero_le _)
          rw [List.mem_singleton.mp h, hm]
          simp only [Opened, hside] at ho
          rcases ho with ⟨rfl | rfl, -⟩ | ⟨rfl, -⟩ <;> rintro (h | h) <;> cases h
        · exact debt_answer_le msg rfl rfl rfl (by rw [hside]; exact Nat.le_refl _)
        · exact debt_answer_le msg rfl rfl rfl (by rw [hside]; exact Nat.le_refl _)
  | suspends hside =>
      refine ⟨hopened, List.prefix_rfl, rfl, fun ht => ht.congr rfl rfl rfl, ?_⟩
      exact debt_silent_le rfl rfl rfl
        (by rw [hside]; exact Nat.le_refl _)
  | receives hside hdown hpc =>
      refine ⟨hopened, List.prefix_rfl, rfl,
        fun ht => ht.congr (speaks_of_receive hpc).2 rfl rfl, ?_⟩
      exact debt_receive_le hdown rfl rfl rfl (by rw [hside]; exact owed_receive hpc)
  | refuses hside hdown =>
      refine ⟨hopened, List.prefix_rfl, rfl, fun ht => ht.congr rfl rfl rfl, ?_⟩
      exact debt_receive_le hdown rfl rfl rfl (Nat.zero_le _)
  | ends hside =>
      refine ⟨hopened, List.prefix_rfl, rfl, fun ht => ht.congr rfl rfl rfl, ?_⟩
      exact debt_silent_le rfl rfl rfl (Nat.zero_le _)

/-- The news of an exit or a translation is no answer in a round. -/
theorem not_roundHdr_of_oobHdr {hdr : XndMsghdr} (h : OobHdr hdr) : ¬ RoundHdr hdr := by
  rcases h with rfl | rfl | rfl <;> rintro (h | h) <;> cases h

/-- **A step of a client.** -/
theorem follows_next {P : Prop} (hP : P) (ho : c.Opened) (h : Conn.Next P c x) : Follows c x := by
  have hopened := ho.next hP h
  cases h with
  | thread h => exact follows_threads ho (threads_of_threadNext h)
  | @disconnects pc msg hside hpc hm =>
      obtain ⟨l, hl, hall⟩ := exists_sent_disconnect c msg
      have hoob : ∀ m ∈ l, OobHdr m.hdr := fun m h => by
        rw [hall m h]
        exact .inr (.inr hm)
      have ht : (c.disconnect msg).taken = c.taken := by
        simp [disconnect, goto, hangUp]
      have hd : (c.disconnect msg).down = c.down := by
        simp [disconnect, goto, hangUp]
      refine ⟨hopened, hl ▸ List.prefix_append _ _, ht, fun htalks => ?_, ?_⟩
      · exact htalks.append rfl l (fun m h => .inl (hoob m h)) hl ht
      · exact debt_append_le l (fun m h => not_roundHdr_of_oobHdr (hoob m h)) hl ht hd (Nat.zero_le _)
  | @requests msg hside hm =>
      obtain ⟨l, hl, hall⟩ := exists_sent_say c msg
      have hoob : ∀ m ∈ l, OobHdr m.hdr := fun m h => by
        rw [hall m h]
        exact hm
      refine ⟨hopened, hl ▸ List.prefix_append _ _, taken_say, fun htalks => ?_, ?_⟩
      · refine htalks.append ?_ l (fun m h => .inl (hoob m h)) hl taken_say
        rw [side_say, hside]
        rfl
      · refine debt_append_le l (fun m h => not_roundHdr_of_oobHdr (hoob m h)) hl taken_say
          down_say ?_
        rw [side_say]
  | replied hside hdown =>
      refine ⟨hopened, List.prefix_rfl, rfl, fun ht => ht.congr ht.side rfl rfl, ?_⟩
      exact debt_receive_le hdown rfl rfl rfl (Nat.le_add_right _ _)
  | answered hside hdown =>
      refine ⟨hopened, List.prefix_rfl, rfl, fun ht => ?_, ?_⟩
      · have hs := ht.side
        rw [hside] at hs
        cases hs
      · exact debt_receive_le hdown rfl rfl rfl (Nat.zero_le _)
  | forks hside =>
      refine ⟨hopened, List.prefix_rfl, rfl, fun ht => ?_, ?_⟩
      · have hs := ht.side
        rw [hside] at hs
        cases hs
      · exact debt_silent_le rfl rfl rfl (Nat.zero_le _)
  | hangsUp =>
      exact ⟨hopened, List.prefix_rfl, rfl, fun ht => ht.congr ht.side rfl rfl, Nat.le_refl _⟩

/-- Steps of clients. -/
theorem follows_of_reach {P : Prop} (hP : P) (ho : c.Opened)
    (h : Relation.ReflTransGen (Conn.Next P) c x) : Follows c x := by
  induction h with
  | refl => exact ⟨ho, List.prefix_rfl, rfl, id, Nat.le_refl _⟩
  | tail _ hx ih =>
      have hn := follows_next hP ih.opened hx
      exact ⟨hn.opened, ih.sent.trans hn.sent, hn.taken.trans ih.taken,
        fun ht => hn.talks (ih.talks ht), hn.debt.trans ih.debt⟩

/-- A connection that has just been made. -/
theorem opened_of_begins {P : Prop} (hP : P) {owner : Option Nat} (h : Conn.Begins P owner c) :
    c.Opened ∧ c.taken = 0 ∧ c.debt = 0 := by
  cases h with
  | coord hhdr => exact ⟨.inl ⟨hhdr, rfl⟩, rfl, rfl⟩
  | @child msg hm => exact ⟨⟨msg, rfl, hm⟩, rfl, by simp [debt, up, fresh, owed, hm, RoundHdr]⟩
  | @oob msg hm hfirst =>
      refine ⟨⟨fun m h => ?_, fun m h => ?_⟩, rfl, ?_⟩
      · rw [List.mem_singleton.mp h]
        exact hm
      · exact Option.some.inj h ▸ hfirst hP
      · have := not_roundHdr_of_oobHdr hm
        simp [debt, up, fresh, owed, this]
  | silent => exact ⟨⟨List.forall_mem_nil _, fun m h => by cases h⟩, rfl, rfl⟩
  | @command msg hm => exact ⟨⟨msg, rfl, hm⟩, rfl, by simp [debt, up, fresh, owed, hm, RoundHdr]⟩

/-! ### A step of the coordinator -/

theorem Opened.congr (ho : c.Opened) (hside : x.side = c.side) (hx : x.sent = c.sent) :
    x.Opened := by
  unfold Opened Registered at ho ⊢
  rwa [hside, hx]

/-- A message is taken. -/
theorem up_take {m : XndMsg} {rest : List XndMsg} (h : c.up = m :: rest) :
    ({ c with taken := c.taken + 1 } : Conn).up = rest := by
  have : c.sent.drop (c.taken + 1) = (c.sent.drop c.taken).drop 1 := by
    rw [List.drop_drop]
  show c.sent.drop (c.taken + 1) = rest
  rw [this, show c.sent.drop c.taken = m :: rest from h, List.drop_one, List.tail_cons]

theorem debt_take {m : XndMsg} {rest : List XndMsg} (h : c.up = m :: rest) :
    ({ c with taken := c.taken + 1 } : Conn).debt + (if RoundHdr m.hdr then 1 else 0) = c.debt := by
  rw [debt, debt, up_take h, h, List.countP_cons]
  simp only [decide_eq_true_eq]
  omega

theorem Talks.take (ht : c.Talks) {m : XndMsg} {rest : List XndMsg} (h : c.up = m :: rest) :
    ({ c with taken := c.taken + 1 } : Conn).Talks := by
  refine ⟨ht.side, fun m' hm => ht.up m' ?_⟩
  rw [up_take h] at hm
  rw [h]
  exact List.mem_cons_of_mem _ hm

theorem debt_send (msg : XndMsg) : ({ c with down := c.down ++ [msg] } : Conn).debt =
    c.debt + if AskHdr msg.hdr then 1 else 0 := by
  rw [debt, debt, List.countP_append, List.countP_singleton]
  simp only [decide_eq_true_eq, up]
  omega

/-! ### Registration -/

/-- A client whose first message has been taken, and that is no parent before `fork`. -/
theorem Opened.talks_first (ho : c.Opened) {m : XndMsg} (hm : c.sent.head? = some m)
    (ht : c.taken = 1) (hne : m.hdr ≠ .atforkPrepare) : c.Talks := by
  unfold Opened at ho
  split at ho
  · obtain ⟨m', hs, hh⟩ := ho
    rw [hs] at hm
    exact absurd (Option.some.inj hm ▸ hh) hne
  · rcases ho with ⟨-, hs⟩ | ⟨-, m', hs, hh⟩
    · rw [hs] at hm
      cases hm
    · rw [hs] at hm
      exact absurd (Option.some.inj hm ▸ hh) hne
  next pc hpc hside =>
    obtain ⟨l, rest, hs, ⟨m', rfl, -⟩ | ⟨m', m'', rfl, hh, -⟩, hrest⟩ := ho
    · refine ⟨?_, fun m'' hm'' => hrest m'' ?_⟩
      · rw [hside]
        cases pc with
        | connected hdr => exact absurd rfl (hpc hdr)
        | _ => rfl
      · rwa [up, ht, hs] at hm''
    · rw [hs] at hm
      exact absurd (Option.some.inj hm ▸ hh) hne
  next hside =>
    refine ⟨by rw [hside]; rfl, fun m' hm' => .inl (ho.1 m' (List.mem_of_mem_drop hm'))⟩
  next hside =>
    obtain ⟨m', hs, -⟩ := ho
    refine ⟨by rw [hside]; rfl, fun m'' hm'' => ?_⟩
    rw [up, ht, hs] at hm''
    cases hm''

/-- A child whose parent's message and its own have been taken. -/
theorem Opened.talks_forked (ho : c.Opened) {m m' : XndMsg} {rest : List XndMsg}
    (hs : c.sent = m :: m' :: rest) (hm : m.hdr = .atforkPrepare) (ht : c.taken = 2) : c.Talks := by
  unfold Opened at ho
  split at ho
  · obtain ⟨m'', hs', -⟩ := ho
    rw [hs] at hs'
    cases hs'
  · rcases ho with ⟨-, hs'⟩ | ⟨-, m'', hs', -⟩
    · rw [hs] at hs'
      cases hs'
    · rw [hs] at hs'
      cases hs'
  next pc hpc hside =>
    obtain ⟨l, rest', hs', ⟨m₁, rfl, hh⟩ | ⟨m₁, m₂, rfl, -⟩, hrest⟩ := ho
    · rw [hs] at hs'
      cases hs'
      rcases hh with hh | hh <;> rw [hm] at hh <;> cases hh
    · refine ⟨?_, fun m'' hm'' => hrest m'' ?_⟩
      · rw [hside]
        cases pc with
        | connected hdr => exact absurd rfl (hpc hdr)
        | _ => rfl
      · rwa [up, ht, hs'] at hm''
  next =>
    rcases ho.1 m (by rw [hs]; exact List.mem_cons_self) with hh | hh | hh <;> rw [hm] at hh <;> cases hh
  next =>
    obtain ⟨m'', hs', -⟩ := ho
    rw [hs] at hs'
    cases hs'

end Conn

end Xnd.Joint
