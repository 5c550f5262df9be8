import Xnd.Joint.Moves

/-!
# Waiting in a circle

A user thread in a translation or in `coord_client_atfork_prepare` is in `ST_UNSAFE` and
waits for the coordinator.  Its process's checkpoint thread waits for it in
`suspend_threads`, once it has received `XND_CKPT_START`, and the coordinator, once it has
sent this, waits for the process's `XND_CKPT_DONE` and answers nobody.

The three never wait for each other (`not_waitCycle`) in the runs in which
`XND_CKPT_START` is sent to no process with such a thread, and no such call is begun
between it and the end of the suspension.  Neither side sees to that
(`not_never_waitCycle`).
-/
namespace Xnd.Joint
open Coord

namespace Net
variable {w w' : Net} {i c : Nat} {m : Move}

/-- A user thread of the process waits for the coordinator. -/
def Waits (w : Net) (i : Nat) : Prop :=
  match (w.peers i).holder with
  | some .translating =>
      ∃ c ∈ (w.peers i).oobFd, (w.conns c).down = [] ∧ (w.conns c).listening = true
  | some (.forking c) =>
      (w.conns c).side = .child false ∧ (w.conns c).down = [] ∧ (w.conns c).listening = true
  | none => False

instance (w : Net) (i : Nat) : Decidable (w.Waits i) := by
  unfold Waits
  split <;> infer_instance

/-- The process has been sent `XND_CKPT_START`, and its threads are not all suspended. -/
def Entered (w : Net) (i : Nat) : Prop :=
  .ckptStart ∈ (w.conns (w.peers i).coordFd).down.map (·.hdr) ∨
    (w.conns (w.peers i).coordFd).side = .coord .suspending

instance (w : Net) (i : Nat) : Decidable (w.Entered i) := inferInstanceAs (Decidable (_ ∨ _))

/-- **The circle**: the coordinator waits for a process to complete its checkpoint, which waits in
`suspend_threads` for a thread of its own that waits for the coordinator. -/
def WaitCycle (w : Net) (s : CoordInfo) : Prop :=
  ∃ n ∈ s.procs, n.2.state = .ckptInProgress ∧ ∃ c ∈ w.fds n.2.fd,
    (w.conns c).side = .coord .suspending ∧
      ∃ i ∈ (w.conns c).owner, (w.peers i).coordFd = c ∧ w.Waits i

instance (s : CoordInfo) (w : Net) : Decidable (w.WaitCycle s) := by
  unfold WaitCycle
  infer_instance

/-- **The condition on a move**: no call is begun while the threads are being suspended. -/
def Unhurried (w : Net) : Move → Prop
  | .translate i _ _ _ | .atforkPrepare i _ => ¬ w.Entered i
  | _ => True

instance (w : Net) : (m : Move) → Decidable (w.Unhurried m)
  | .translate .. | .atforkPrepare .. => inferInstanceAs (Decidable (¬ _))
  | .notifyCoordOfExit .. | .register .. | .thread .. | .answered _ | .fork .. | .forkFails _
  | .disconnect .. | .dies _ | .closes .. | .command _ => inferInstanceAs (Decidable True)

/-- **The condition on an answer**: `XND_CKPT_START` is sent to no process with a thread that waits
for the coordinator. -/
def Undisturbed (_ : CoordInfo) (w : Net) : (c : CoordCall) → c.Answer → Prop
  | .send fd msg, true =>
      msg.hdr = .ckptStart → ∀ c ∈ w.fds fd, ∀ i ∈ (w.conns c).owner, ¬ w.Waits i
  | _, _ => True

instance (s : CoordInfo) (w : Net) : (c : CoordCall) → (r : c.Answer) →
    Decidable (Undisturbed s w c r)
  | .send fd msg, true => inferInstanceAs (Decidable
      (msg.hdr = .ckptStart → ∀ c ∈ w.fds fd, ∀ i ∈ (w.conns c).owner, ¬ w.Waits i))
  | .send .., false | .select _, _ | .selectWrite _, _ | .accept, _ | .recv _, _ | .close _, _
  | .probe _, _ | .kill .., _ | .getppid, _ | .usleep, _ | .sigprocmask _, _ | .stale, _
  | .elapsed, _ | .iteration, _ | .ckptdirCreate .., _ | .ckptdirUnlink .., _
  | .ckptdirOpen .., _ | .createManifest _, _ | .ckptfileExists .., _
  | .compressedCkptExists .., _ | .writeManifest .., _ => inferInstanceAs (Decidable True)

/-- The environment under the two conditions. -/
abbrev patient : World CoordCall.Answer CoordInfo Net := (env.limit Unhurried).world Undisturbed

/-! ## Who moves -/

/-- **What a process does to the others**: nothing. -/
structure Touches (j : Nat) (w w' : Net) : Prop where
  made : w.made ≤ w'.made
  born : w.born ≤ w'.born
  peers : ∀ i, i ≠ j → i < w.born → w'.peers i = w.peers i
  conns : ∀ c, c < w.made → (w.conns c).owner ≠ some j → w'.conns c = w.conns c

namespace Touches
variable {x : Conn} {f : Conn → Conn} {p : Peer} {j : Nat} {side : Side} {owner : Option Nat}
  {sent : List XndMsg}

theorem refl (j : Nat) (w : Net) : Touches j w w :=
  ⟨Nat.le_refl _, Nat.le_refl _, fun _ _ _ => rfl, fun _ _ _ => rfl⟩

theorem setConn (h : Touches j w w') (hc : (w.conns c).owner = some j ∨ w.made ≤ c) :
    Touches j w (w'.setConn c x) := by
  refine ⟨h.made, h.born, h.peers, fun d hd hj => ?_⟩
  rw [conns_setConn, if_neg]
  · exact h.conns d hd hj
  · rintro rfl
    exact hc.elim hj fun hle => Nat.not_lt_of_le hle hd

theorem onConn (h : Touches j w w') (hc : (w.conns c).owner = some j) :
    Touches j w (w'.onConn c f) := h.setConn (.inl hc)

theorem setPeer (h : Touches j w w') (hi : i = j ∨ w.born ≤ i) : Touches j w (w'.setPeer i p) := by
  refine ⟨h.made, h.born, fun k hk hlt => ?_, h.conns⟩
  rw [peers_setPeer, if_neg]
  · exact h.peers k hk hlt
  · rintro rfl
    exact hi.elim hk fun hle => Nat.not_lt_of_le hle hlt

theorem connect (h : Touches j w w') : Touches j w (w'.connect side owner sent) := by
  have := h.setConn (x := .fresh side owner sent) (.inr h.made)
  exact ⟨Nat.le_succ_of_le h.made, this.born, this.peers, this.conns⟩

theorem spawn (h : Touches j w w') : Touches j w (w'.spawn c) := by
  have := h.setPeer (p := ⟨c, none, none, true⟩) (.inr h.born)
  exact ⟨this.made, Nat.le_succ_of_le h.born, this.peers, this.conns⟩

theorem oobSend (ho : Owned w) (hj : (w.peers j).alive = true) (msg : XndMsg) (sends : Bool)
    (then' : Option Call) : Touches j w (w.oobSend j msg sends then') := by
  unfold Net.oobSend
  split
  next =>
    split
    · exact (refl j w).connect.setPeer (.inl rfl)
    · exact (refl j w).connect.setPeer (.inl rfl)
  next c hoob =>
    split
    · exact ((refl j w).onConn (ho.oob j c hj hoob).2.1).setPeer (.inl rfl)
    · exact refl j w

theorem answer (ho : Owned w) (hm : w.answer j = some w') : Touches j w w' := by
  unfold Net.answer at hm
  split at hm
  next hcall =>
    split at hm
    next c hoob =>
      split at hm
      · obtain rfl := Option.some.inj hm
        exact ((refl j w).onConn (ho.oob j c (holder_eq_some hcall).1 hoob).2.1).setPeer (.inl rfl)
      · split at hm
        · cases hm
        · obtain rfl := Option.some.inj hm
          exact (refl j w).setPeer (.inl rfl)
    next =>
      obtain rfl := Option.some.inj hm
      exact (refl j w).setPeer (.inl rfl)
  next c hcall =>
    obtain ⟨hj, hcall⟩ := holder_eq_some hcall
    split at hm
    · split at hm
      · obtain rfl := Option.some.inj hm
        exact (refl j w).onConn (ho.child j c hj hcall).2.1
      · obtain rfl := Option.some.inj hm
        exact (refl j w).setPeer (.inl rfl)
    · split at hm
      · cases hm
      · obtain rfl := Option.some.inj hm
        exact (refl j w).setPeer (.inl rfl)
    · cases hm
  next => cases hm

theorem forkConn_owner (ho : Owned w) (hc : w.forkConn j = some c) : (w.conns c).owner = some j := by
  obtain ⟨hj, hcall, -⟩ := forkConn_eq_some hc
  exact (ho.child j c hj hcall).2.1

theorem disconnect (ho : Owned w) (hj : (w.peers j).alive = true) (msg : XndMsg) :
    Touches j w (w.disconnect j msg) := by
  have hleaves : Touches j w (w.onConn (w.peers j).coordFd
      (·.disconnect { msg with hdr := .exit })) := (refl j w).onConn (ho.coord j hj).2.1
  unfold Net.disconnect
  dsimp only
  split
  next c hoob => exact (hleaves.onConn (ho.oob j c hj hoob).2.1).setPeer (.inl rfl)
  next => exact hleaves

end Touches

/-- The process that makes a move. -/
def Move.actor : Move → Option Nat
  | .register _ | .command _ | .closes .. => none
  | .thread i _ | .translate i .. | .notifyCoordOfExit i .. | .atforkPrepare i _ | .answered i
  | .fork i | .forkFails i | .disconnect i _ | .dies i => some i

theorem touches_move {j : Nat} (ho : Owned w) (hm : move m w = some w') (hj : m.actor = some j) :
    Touches j w w' := by
  cases m with
  | register | command | closes => cases hj
  | thread i msg =>
      obtain rfl := Option.some.inj hj
      simp only [move, thread] at hm
      split at hm
      next hi =>
        split at hm
        · obtain rfl := Option.some.inj hm
          exact (Touches.refl i w).setConn (.inl (ho.coord i hi).2.1)
        · obtain rfl := Option.some.inj hm
          exact (Touches.refl i w).setPeer (.inl rfl)
        · cases hm
      next => cases hm
  | translate i t msg sends =>
      obtain rfl := Option.some.inj hj
      simp only [move] at hm
      split at hm
      · obtain rfl := Option.some.inj hm
        exact .oobSend ho (alive_of_takesMutex ‹_›) _ _ _
      · cases hm
  | notifyCoordOfExit i msg sends =>
      obtain rfl := Option.some.inj hj
      simp only [move] at hm
      split at hm
      · obtain rfl := Option.some.inj hm
        exact .oobSend ho (alive_of_takesMutex ‹_›) _ _ _
      · cases hm
  | atforkPrepare i msg =>
      obtain rfl := Option.some.inj hj
      simp only [move] at hm
      split at hm
      · obtain rfl := Option.some.inj hm
        exact (Touches.refl i w).connect.setPeer (.inl rfl)
      · cases hm
  | answered i =>
      obtain rfl := Option.some.inj hj
      exact .answer ho hm
  | fork i =>
      obtain rfl := Option.some.inj hj
      obtain ⟨c, hc, rfl⟩ := Option.map_eq_some_iff.mp hm
      exact (((Touches.refl i w).setPeer (.inl rfl)).onConn (Touches.forkConn_owner ho hc)).spawn
  | forkFails i =>
      obtain rfl := Option.some.inj hj
      obtain ⟨c, hc, rfl⟩ := Option.map_eq_some_iff.mp hm
      exact ((Touches.refl i w).onConn (Touches.forkConn_owner ho hc)).setPeer (.inl rfl)
  | disconnect i msg =>
      obtain rfl := Option.some.inj hj
      simp only [move] at hm
      split at hm
      next hi =>
        obtain rfl := Option.some.inj hm
        exact .disconnect ho (alive_of_userRuns hi.1) msg
      next => cases hm
  | dies i =>
      obtain rfl := Option.some.inj hj
      simp only [move] at hm
      split at hm
      · obtain rfl := Option.some.inj hm
        exact (Touches.refl i w).setPeer (.inl rfl)
      · cases hm

/-! ## Who waits -/

/-- **The invariant**: no thread of a process that has been sent `XND_CKPT_START` waits for the
coordinator. -/
structure Patient (w : Net) : Prop where
  owned : Owned w
  waits : ∀ i, (w.peers i).alive = true → w.Entered i → ¬ w.Waits i

/-- A process whose connections are as they were. -/
theorem waits_congr (ho : Owned w) (hi : (w.peers i).alive = true)
    (hp : w'.peers i = w.peers i) (hc : ∀ c, c < w.made → (w.conns c).owner = some i →
      (w'.conns c).side = (w.conns c).side ∧ (w'.conns c).down = (w.conns c).down ∧
        (w'.conns c).listening = (w.conns c).listening) :
    (w'.Entered i ↔ w.Entered i) ∧ (w'.Waits i ↔ w.Waits i) := by
  obtain ⟨hlt, howner, -⟩ := ho.coord i hi
  obtain ⟨hside, hdown, -⟩ := hc _ hlt howner
  refine ⟨by rw [Entered, Entered, hp, hside, hdown], ?_⟩
  unfold Waits
  rw [hp]
  split
  next =>
    refine exists_congr fun c => and_congr_right fun hoob => ?_
    obtain ⟨hlt, howner, -⟩ := ho.oob i c hi hoob
    obtain ⟨-, hdown, hl⟩ := hc c hlt howner
    rw [hdown, hl]
  next c hcall =>
    obtain ⟨hlt, howner, -⟩ := ho.child i c hi (holder_eq_some hcall).2
    obtain ⟨hside, hdown, hl⟩ := hc c hlt howner
    rw [hside, hdown, hl]
  next => exact Iff.rfl

theorem not_waits_of_call (h : (w.peers i).call = none) : ¬ w.Waits i := by
  have : (w.peers i).holder = none := by
    rw [Peer.holder, h, ite_self]
  rw [Waits, this]
  exact not_false

theorem not_entered_congr (hp : (w'.peers i).coordFd = (w.peers i).coordFd)
    (hc : w'.conns (w.peers i).coordFd = w.conns (w.peers i).coordFd) (h : ¬ w.Entered i) :
    ¬ w'.Entered i := by
  rwa [Entered, hp, hc]

/-- The connection of the checkpoint thread is not one that a call waits on. -/
theorem ne_coordFd (ho : Owned w) (hi : (w.peers i).alive = true)
    (hc : (w.conns c).side.kind ≠ .coord) : c ≠ (w.peers i).coordFd := by
  rintro rfl
  exact hc (ho.coord i hi).2.2

/-- A process whose checkpoint thread has moved. -/
theorem waits_of_setConn {x : Conn} (ho : Owned w) (hi : (w.peers i).alive = true)
    (h : (w.setConn (w.peers i).coordFd x).Waits i) : w.Waits i := by
  unfold Waits at h ⊢
  rw [show (w.setConn (w.peers i).coordFd x).peers = w.peers from rfl] at h
  split at h
  next hcall =>
    obtain ⟨c, hoob, hc⟩ := h
    rw [conns_setConn, if_neg (ne_coordFd ho hi (by rw [(ho.oob i c hi hoob).2.2]; nofun))] at hc
    exact ⟨c, hoob, hc⟩
  next c hcall =>
    have hchild := ho.child i c hi (holder_eq_some hcall).2
    rw [conns_setConn, if_neg (ne_coordFd ho hi (by rw [hchild.2.2]; nofun))] at h
    exact h
  next => exact h.elim

/-- A step of the checkpoint thread brings it to `suspend_threads` by `XND_CKPT_START`. -/
theorem entered_of_threads {x : Conn} (h : Conn.Threads (w.conns (w.peers i).coordFd) x)
    (he : (w.setConn (w.peers i).coordFd x).Entered i) : w.Entered i := by
  unfold Entered at he
  rw [show (w.setConn (w.peers i).coordFd x).peers = w.peers from rfl, conns_setConn,
    if_pos rfl] at he
  cases h with
  | speaks hside hpc =>
      rcases he with he | he
      · exact .inl he
      · obtain ⟨hdr, -, rfl, -⟩ | ⟨-, rfl, -⟩ | ⟨-, rfl, -⟩ := hpc <;> cases he
  | suspends => exact .inl (he.resolve_right nofun)
  | @receives pc pc' m rest hside hdown hpc =>
      rcases he with he | he
      · exact .inl (by rw [hdown]; exact List.mem_cons_of_mem _ he)
      · obtain rfl := Side.coord.inj he
        refine .inl ?_
        rw [hdown]
        unfold ThreadPc.receive at hpc
        split at hpc
        · split at hpc
          · split at hpc <;> cases hpc
          · cases hpc
        · split at hpc <;> cases hpc
        · split at hpc
          next _ type hm =>
            cases type with
            | preckpt => exact List.mem_map.mpr ⟨_, List.mem_cons_self, hm⟩
            | postckpt | postrestart => cases hpc
          next => cases hpc
        · cases hpc
  | refuses hside hdown =>
      refine .inl ?_
      rw [hdown]
      exact List.mem_cons_of_mem _ (he.resolve_right nofun)
  | ends => exact .inl (he.resolve_right nofun)

/-- A call that is begun changes nothing for the checkpoint thread. -/
theorem entered_of_oobSend (ho : Owned w) (hi : (w.peers i).alive = true) {msg : XndMsg}
    {sends : Bool} {then' : Option Call} (he : (w.oobSend i msg sends then').Entered i) :
    w.Entered i := by
  have hne := Nat.ne_of_lt (ho.coord i hi).1
  by_contra h
  refine absurd he ?_
  unfold oobSend
  split
  next =>
    split
    · refine not_entered_congr ?_ ?_ h
      · rw [peers_setPeer, if_pos rfl]
      · exact (conns_connect _).trans (if_neg hne)
    · refine not_entered_congr ?_ ?_ h
      · rw [peers_setPeer, if_pos rfl]
      · exact (conns_connect _).trans (if_neg hne)
  next c hoob =>
    split
    · refine not_entered_congr ?_ ?_ h
      · rw [peers_setPeer, if_pos rfl]
      · refine (conns_onConn _).trans (if_neg ?_)
        exact (ne_coordFd ho hi (by rw [(ho.oob i c hi hoob).2.2]; nofun)).symm
    · exact h

theorem born_oobSend (w : Net) (i : Nat) (msg : XndMsg) (sends : Bool) (then' : Option Call) :
    (w.oobSend i msg sends then').born = w.born := by
  unfold oobSend
  split <;> split <;> rfl

theorem born_answer (hm : w.answer i = some w') : w'.born = w.born := by
  unfold answer at hm
  repeat' split at hm
  all_goals first | (obtain rfl := Option.some.inj hm; rfl) | cases hm

theorem born_disconnect (w : Net) (i : Nat) (msg : XndMsg) : (w.disconnect i msg).born = w.born := by
  unfold disconnect
  dsimp only
  split <;> rfl

theorem call_oobSend (msg : XndMsg) (sends : Bool) (h : (w.peers i).call = none) :
    ((w.oobSend i msg sends none).peers i).call = none := by
  unfold oobSend
  split
  · split
    · rw [peers_setPeer, if_pos rfl]
    · rw [peers_setPeer, if_pos rfl]
      exact h
  · split
    · rw [peers_setPeer, if_pos rfl]
    · exact h

theorem call_of_takesMutex (h : w.takesMutex i = true) : (w.peers i).call = none :=
  of_decide_eq_true (Bool.and_eq_true_iff.mp h).2

/-- A call that has its answer waits no more. -/
theorem not_waits_of_answer (hm : w.answer i = some w') (hi : (w'.peers i).alive = true) :
    ¬ w'.Waits i := by
  unfold answer at hm
  split at hm
  next =>
    split at hm
    · split at hm
      · obtain rfl := Option.some.inj hm
        exact not_waits_of_call (by rw [peers_setPeer, if_pos rfl])
      · split at hm
        · cases hm
        · obtain rfl := Option.some.inj hm
          exact not_waits_of_call (by rw [peers_setPeer, if_pos rfl])
    · obtain rfl := Option.some.inj hm
      exact not_waits_of_call (by rw [peers_setPeer, if_pos rfl])
  next c hcall =>
    have dead : ¬ ((w.dies i).peers i).alive = true := by
      rw [dies, peers_setPeer, if_pos rfl]
      exact Bool.false_ne_true
    split at hm
    · split at hm
      · obtain rfl := Option.some.inj hm
        rw [Waits, show ((w.onConn c _).peers i).holder = _ from hcall]
        dsimp only
        rw [conns_onConn, if_pos rfl]
        rintro ⟨⟨⟩, -⟩
      · obtain rfl := Option.some.inj hm
        exact absurd hi dead
    · split at hm
      · cases hm
      · obtain rfl := Option.some.inj hm
        exact absurd hi dead
    · cases hm
  next => cases hm

/-- A process closes `oob_fd`. -/
theorem waits_of_hangUp (h : (w.peers i).alive = true → w.Entered i → ¬ w.Waits i)
    (hi : (w.peers i).alive = true)
    (he : ((w.onConn c Conn.hangUp).setPeer i { w.peers i with oobFd := none }).Entered i) :
    ¬ ((w.onConn c Conn.hangUp).setPeer i { w.peers i with oobFd := none }).Waits i := by
  have same : ∀ d, ((w.onConn c Conn.hangUp).conns d).side = (w.conns d).side ∧
      ((w.onConn c Conn.hangUp).conns d).down = (w.conns d).down ∧
      ((w.onConn c Conn.hangUp).conns d).listening = (w.conns d).listening := by
    intro d
    rw [conns_onConn]
    split
    next hd => subst hd; exact ⟨rfl, rfl, rfl⟩
    next => exact ⟨rfl, rfl, rfl⟩
  intro hw
  refine h hi ?_ ?_
  · rw [Entered, peers_setPeer, if_pos rfl] at he
    rw [Entered, ← (same _).1, ← (same _).2.1]
    exact he
  · unfold Waits at hw ⊢
    rw [peers_setPeer, if_pos rfl, show Peer.holder { w.peers i with oobFd := none } =
      (w.peers i).holder from rfl] at hw
    split at hw
    next =>
      obtain ⟨d, hd, -⟩ := hw
      cases hd
    next d hcall =>
      rw [← (same d).1, ← (same d).2.1, ← (same d).2.2]
      exact hw
    next => exact hw.elim

/-- A process that disconnects: its checkpoint thread has ended, and `oob_fd` is closed. -/
theorem patient_disconnect (h : Patient w) (hi : (w.peers i).alive = true) {msg : XndMsg}
    (he : (w.disconnect i msg).Entered i) : ¬ (w.disconnect i msg).Waits i := by
  have ho := h.owned
  have hfirst : ∀ msg : XndMsg, (w.onConn (w.peers i).coordFd (·.disconnect msg)).Entered i →
      ¬ (w.onConn (w.peers i).coordFd (·.disconnect msg)).Waits i := by
    intro msg he hw
    refine h.waits i hi ?_ (waits_of_setConn ho hi hw)
    rw [Entered, show (w.onConn _ _).peers = w.peers from rfl, conns_onConn, if_pos rfl] at he
    refine .inl ?_
    simpa [Conn.disconnect, Conn.goto, Conn.hangUp] using he
  unfold disconnect at he ⊢
  dsimp only at he ⊢
  split at he
  next => exact waits_of_hangUp (fun _ => hfirst _) hi he
  next => exact hfirst _ he

/-- **A move** lets no thread wait that must not. -/
theorem Patient.move (h : Patient w) (hf : w.Unhurried m) (hm : Net.move m w = some w') :
    Patient w' := by
  have ho := h.owned
  refine ⟨ho.move hm, fun i hi he => ?_⟩
  -- The processes that the move does not touch.
  have same : w'.peers i = w.peers i → (∀ c, c < w.made → (w.conns c).owner = some i →
      (w'.conns c).side = (w.conns c).side ∧ (w'.conns c).down = (w.conns c).down ∧
        (w'.conns c).listening = (w.conns c).listening) → ¬ w'.Waits i := by
    intro hp hc
    rw [hp] at hi
    obtain ⟨hentered, hwaits⟩ := waits_congr ho hi hp hc
    rw [hwaits]
    exact h.waits i hi (hentered.mp he)
  have untouched : ∀ {j}, m.actor = some j → i ≠ j → i < w.born → ¬ w'.Waits i := by
    intro j hj hij hlt
    have ht := touches_move ho hm hj
    refine same (ht.peers i hij hlt) fun c hc howner => ?_
    rw [ht.conns c hc (by rw [howner]; exact fun he => hij (Option.some.inj he))]
    exact ⟨rfl, rfl, rfl⟩
  have begun : ∀ {j msg sends then'}, w.takesMutex j = true → m.actor = some j → ¬ w.Entered j →
      w' = w.oobSend j msg sends then' → i < w.born → ¬ w'.Waits i := by
    rintro j msg sends then' ht hj hf rfl hlt
    by_cases hij : i = j
    · subst hij
      exact absurd (entered_of_oobSend ho (alive_of_takesMutex ht) he) hf
    · exact untouched hj hij hlt
  have hlt := (ho.move hm).born i hi
  cases m with
  | register restart =>
      obtain rfl := Option.some.inj hm
      by_cases hi' : i = w.born
      · exact not_waits_of_call (by rw [register, peers_spawn]; exact (if_pos hi').symm ▸ rfl)
      · refine same ((peers_spawn i).trans (if_neg hi')) fun c hc _ => ?_
        rw [show (w.register restart).conns c = _ from conns_connect c, if_neg (Nat.ne_of_lt hc)]
        exact ⟨rfl, rfl, rfl⟩
  | thread j msg =>
      by_cases hij : i = j
      · subst hij
        simp only [Net.move, thread] at hm
        split at hm
        next halive =>
          split at hm
          next hx =>
            obtain rfl := Option.some.inj hm
            intro hw
            exact h.waits i halive (entered_of_threads (Conn.threads_of_threadNext hx) he)
              (waits_of_setConn ho halive hw)
          next =>
            obtain rfl := Option.some.inj hm
            rw [dies, peers_setPeer, if_pos rfl] at hi
            cases hi
          next => cases hm
        next => cases hm
      · refine untouched rfl hij ?_
        simp only [Net.move, thread] at hm
        split at hm
        · split at hm
          · obtain rfl := Option.some.inj hm
            exact hlt
          · obtain rfl := Option.some.inj hm
            exact hlt
          · cases hm
        · cases hm
  | translate j t msg sends =>
      simp only [Net.move] at hm
      split at hm
      next ht =>
        obtain rfl := Option.some.inj hm
        exact begun ht rfl hf rfl (born_oobSend w j _ _ _ ▸ hlt)
      next => cases hm
  | notifyCoordOfExit j msg sends =>
      simp only [Net.move] at hm
      split at hm
      next ht =>
        obtain rfl := Option.some.inj hm
        by_cases hij : i = j
        · subst hij
          exact not_waits_of_call (call_oobSend _ _ (call_of_takesMutex ht))
        · exact untouched rfl hij (born_oobSend w j _ _ _ ▸ hlt)
      next => cases hm
  | atforkPrepare j msg =>
      simp only [Net.move] at hm
      split at hm
      next ht =>
        obtain rfl := Option.some.inj hm
        by_cases hij : i = j
        · subst hij
          refine absurd he (not_entered_congr ?_ ?_ hf)
          · rw [peers_setPeer, if_pos rfl]
          · exact (conns_connect _).trans
              (if_neg (Nat.ne_of_lt (ho.coord i (alive_of_takesMutex ht)).1))
        · exact untouched rfl hij hlt
      next => cases hm
  | answered j =>
      by_cases hij : i = j
      · subst hij
        exact not_waits_of_answer hm hi
      · exact untouched rfl hij (born_answer hm ▸ hlt)
  | fork j =>
      obtain ⟨c, hc, rfl⟩ := Option.map_eq_some_iff.mp hm
      by_cases hi' : i = w.born
      · exact not_waits_of_call (by rw [peers_forked, if_pos hi'])
      · by_cases hij : i = j
        · subst hij
          exact not_waits_of_call (by rw [peers_forked, if_neg hi', if_pos rfl])
        · exact untouched rfl hij (Nat.lt_of_le_of_ne (Nat.lt_succ_iff.mp hlt) hi')
  | forkFails j =>
      obtain ⟨c, hc, rfl⟩ := Option.map_eq_some_iff.mp hm
      by_cases hij : i = j
      · subst hij
        exact not_waits_of_call (by rw [peers_setPeer, if_pos rfl])
      · exact untouched rfl hij hlt
  | disconnect j msg =>
      simp only [Net.move] at hm
      split at hm
      next hj =>
        obtain rfl := Option.some.inj hm
        by_cases hij : i = j
        · subst hij
          exact patient_disconnect h (alive_of_userRuns hj.1) he
        · exact untouched rfl hij (born_disconnect w j msg ▸ hlt)
      next => cases hm
  | dies j =>
      simp only [Net.move] at hm
      split at hm
      · obtain rfl := Option.some.inj hm
        by_cases hij : i = j
        · subst hij
          rw [dies, peers_setPeer, if_pos rfl] at hi
          cases hi
        · exact untouched rfl hij hlt
      · cases hm
  | closes j c =>
      simp only [Net.move] at hm
      split at hm
      · obtain rfl := Option.some.inj hm
        refine same rfl fun d _ _ => ?_
        rw [conns_onConn]
        split
        next hd => subst hd; exact ⟨rfl, rfl, rfl⟩
        next => exact ⟨rfl, rfl, rfl⟩
      · cases hm
  | command msg =>
      obtain rfl := Option.some.inj hm
      refine same rfl fun c hc _ => ?_
      rw [conns_connect, if_neg (Nat.ne_of_lt hc)]
      exact ⟨rfl, rfl, rfl⟩

/-- An answer to the coordinator makes no thread wait. -/
theorem waits_of_serves (hs : Serves w w') (h : w'.Waits i) : w.Waits i := by
  have back : ∀ c, (w'.conns c).side = (w.conns c).side ∧
      ((w'.conns c).down = [] → (w.conns c).down = []) ∧
      ((w'.conns c).listening = true → (w.conns c).listening = true) := by
    intro c
    rcases hs.conns c with he | he
    · rw [he]
      exact ⟨rfl, id, id⟩
    · generalize w'.conns c = x at he
      cases he with
      | taken => exact ⟨rfl, id, id⟩
      | sent msg => exact ⟨rfl, fun hd => absurd hd (by simp), id⟩
      | closed => exact ⟨rfl, id, nofun⟩
  unfold Waits at h ⊢
  rw [hs.peers] at h
  split at h
  next =>
    obtain ⟨c, hc, hdown, hl⟩ := h
    exact ⟨c, hc, (back c).2.1 hdown, (back c).2.2 hl⟩
  next c _ => exact ⟨(back c).1 ▸ h.1, (back c).2.1 h.2.1, (back c).2.2 h.2.2⟩
  next => exact h.elim

/-- **An answer** lets no thread wait that must not. -/
theorem Patient.respond (h : Patient w) {s : CoordInfo} {call : CoordCall} {r : call.Answer}
    (hf : Undisturbed s w call r) (hr : w' ∈ Net.respond s w call r) : Patient w' := by
  have hs := serves_respond hr
  refine ⟨h.owned.serves hs, fun i hi he hw => ?_⟩
  rw [hs.peers] at hi
  have hwaits := waits_of_serves hs hw
  refine absurd hwaits ?_
  have hside : (w'.conns (w.peers i).coordFd).side = (w.conns (w.peers i).coordFd).side :=
    (hs.conns _).elim (congrArg Conn.side) fun h => h.end.2
  rw [Entered, hs.peers, hside] at he
  obtain hdown | ⟨fd, msg, hcall, hfd, hdown⟩ := down_respond hr (w.peers i).coordFd
  · rw [hdown] at he
    exact h.waits i hi he
  · -- Only `XND_CKPT_START` makes a difference.
    by_cases hmsg : msg.hdr = .ckptStart
    · cases hcall
      exact hf hmsg _ hfd i (h.owned.coord i hi).2.1
    · rw [hdown, List.map_append, List.mem_append, List.map_singleton, List.mem_singleton] at he
      refine h.waits i hi ?_
      rcases he with (he | he) | he
      · exact .inl he
      · exact absurd he.symm hmsg
      · exact .inr he

theorem patient_init : Patient init := ⟨owned_init, nofun⟩

/-! ### A round -/

/-- The message of process 101, with what it does not set. -/
def ofLaunch : XndMsg := { hdr := .exit, realPid := 101, realPpid := 50 }

/-- Process 101 is launched, and connects. -/
def launched : List (Turn CoordCall.Answer Move) :=
  [.move (.register false), .move (.thread 0 ofLaunch), .reply ⟨.getppid, (50 : Int)⟩ 0,
   .reply ⟨.select [3], some [3]⟩ 0, .reply ⟨.accept, some (5 : Int)⟩ 0,
   .reply ⟨.recv 5, some { ofLaunch with hdr := .connectLaunch }⟩ 0,
   .reply ⟨.send 5 { hdr := .coordAck, xndPid := 1001, xndPpid := 1000, xndPgid := 1001,
                     realPid := 101, realPpid := 50, virtPid := 2, virtPpid := 1 }, true⟩ 0,
   .move (.thread 0 ofLaunch)]

/-- A checkpoint is commanded, and the process is asked. -/
def commanded : List (Turn CoordCall.Answer Move) :=
  [.move (.command { hdr := .exit, cmd := .ckptCmd }),
   .reply ⟨.select [3], some [3]⟩ 0, .reply ⟨.accept, some (6 : Int)⟩ 0,
   .reply ⟨.recv 6, some { hdr := .command, cmd := .ckptCmd }⟩ 0,
   .reply ⟨.sigprocmask true, ()⟩ 0, .reply ⟨.probe 101, false⟩ 0,
   .reply ⟨.selectWrite [5], some [5]⟩ 0, .reply ⟨.send 5 { hdr := .ckptRequest }, true⟩ 0,
   .reply ⟨.probe 101, false⟩ 0, .reply ⟨.usleep, ()⟩ 0, .move (.thread 0 ofLaunch)]

/-- The process is ready, and is sent `XND_CKPT_START`. -/
def started : List (Turn CoordCall.Answer Move) :=
  [.move (.thread 0 ofLaunch), .reply ⟨.recv 5, some { ofLaunch with hdr := .ckptReady }⟩ 0,
   .reply ⟨.probe 101, false⟩ 0, .reply ⟨.ckptdirCreate 0 0, true⟩ 0, .reply ⟨.probe 101, false⟩ 0,
   .reply ⟨.selectWrite [5], some [5]⟩ 0,
   .reply ⟨.send 5 { hdr := .ckptStart, numPeers := 1, isRootOfTree := true }, true⟩ 0,
   .move (.thread 0 ofLaunch), .reply ⟨.probe 101, false⟩ 0]

/-! ### The circle -/

/-- **The three never wait for each other**. -/
theorem not_waitCycle (restart : Bool) (fuel : Nat) (listenFd : Int) (uuid : Nat) (ckptInterval : Int)
    {p : Prog CoordCall.Answer CoordInfo CoordStop Unit}
    (h : patient.Reach (coordMain restart fuel (coordInit listenFd uuid ckptInterval)) init (p, w)) :
    ¬ w.WaitCycle p.state := by
  have hpatient : Patient w := by
    refine (World.Reach.map patient (𝒱 := patient) id ?_ ?_ patient_init h).1
    · exact fun s c w r w' hw ha => ⟨hw.respond ha.1 ha.2, ha⟩
    · rintro w w' hw ⟨m, hm⟩
      obtain ⟨hf, hmove⟩ := env.move_limit hm
      exact ⟨hw.move hf hmove, .inr ⟨m, hm⟩⟩
  rintro ⟨n, -, -, c, -, hside, i, -, rfl, hwaits⟩
  have halive : (w.peers i).alive = true := by
    unfold Waits at hwaits
    split at hwaits
    next hcall => exact (holder_eq_some hcall).1
    next hcall => exact (holder_eq_some hcall).1
    next => exact hwaits.elim
  exact hpatient.waits i halive (.inr hside) hwaits

/-- Process 101 is launched, and its threads are suspended without a call. -/
theorem not_waitCycle_started : ∃ c, patient.Reach (coordMain false 4 (coordInit 3 0 0)) init c ∧
    (c.2.conns 0).side = .coord .suspending ∧ ¬ c.2.WaitCycle c.1.state := by
  obtain ⟨c, hc, hside⟩ := (env.limit Unhurried).exists_follow Undisturbed
    (coordMain false 4 (coordInit 3 0 0), init) (launched ++ commanded ++ started)
    (fun c => (c.2.conns 0).side = .coord .suspending) (by decide +kernel)
  have hreach := Env.reach_of_follow hc
  exact ⟨c, hreach, hside, not_waitCycle false 4 3 0 0 hreach⟩

/-- A user thread asks for a real pid when the process has been asked for a checkpoint. -/
def askedInRound : List (Turn CoordCall.Answer Move) :=
  launched ++ commanded ++
    .move (.translate 0 .virtToReal { hdr := .exit, virtPid := 3, xndPid := 1001 } true) :: started

/-- The circle, in a run. -/
theorem not_never_waitCycle : ¬ ∀ (restart : Bool) (fuel : Nat) (listenFd : Int) (uuid : Nat)
    (ckptInterval : Int) (c : Prog CoordCall.Answer CoordInfo CoordStop Unit × Net),
    (env.world fun _ _ _ _ => True).Reach
      (coordMain restart fuel (coordInit listenFd uuid ckptInterval)) init c →
        ¬ c.2.WaitCycle c.1.state := by
  intro h
  obtain ⟨c, hc, hcycle⟩ := env.exists_follow (fun _ _ _ _ => True)
    (coordMain false 4 (coordInit 3 0 0), init) askedInRound (fun c => c.2.WaitCycle c.1.state)
    (by decide +kernel)
  exact h false 4 3 0 0 c (Env.reach_of_follow hc) hcycle

end Net

end Xnd.Joint
