import Xnd.Joint.Moves

/-!
# What a move does to the connections

Every move takes steps on the connections there are (`Conn.Next`) and makes at most one new
connection (`Evolves`).  The descriptors of the coordinator and the backlog hold each
connection at most once (`Wired`), whatever is moved and answered.
-/
namespace Xnd.Joint
open Coord

/-! ## Steps on one connection -/

/-- The messages that go over `oob_fd`. -/
def OobHdr (hdr : XndMsghdr) : Prop := hdr = .virtToReal ∨ hdr = .realToVirt ∨ hdr = .exit

/-- **A step of a client on one connection.**  With `introduced`, no connection begins with
the news of an exit. -/
inductive Conn.Next (introduced : Prop) (c : Conn) : Conn → Prop
  | thread {free : Bool} {msg : XndMsg} {x : Conn} (h : c.threadNext free msg = some (.goes x)) :
      Conn.Next introduced c x
  | disconnects {pc : ThreadPc} {msg : XndMsg} (hside : c.side = .coord pc)
      (hpc : pc.userRuns = true) (hm : msg.hdr = .exit) : Conn.Next introduced c (c.disconnect msg)
  | requests {msg : XndMsg} (hside : c.side = .oob) (hm : OobHdr msg.hdr)
      (hfirst : introduced → c.sent = [] → msg.hdr ≠ .exit) : Conn.Next introduced c (c.say msg)
  | replied {m : XndMsg} {rest : List XndMsg} (hside : c.side = .oob) (hdown : c.down = m :: rest) :
      Conn.Next introduced c { c with down := rest }
  | answered {m : XndMsg} {rest : List XndMsg} (hside : c.side = .child false)
      (hdown : c.down = m :: rest) : Conn.Next introduced c { c with side := .child true, down := rest }
  | forks {owner : Option Nat} (hside : c.side = .child true) :
      Conn.Next introduced c { c with side := .coord (.connected .atforkChild), owner }
  | hangsUp : Conn.Next introduced c c.hangUp

/-- A connection that has just been made. -/
inductive Conn.Begins (introduced : Prop) (owner : Option Nat) : Conn → Prop
  | coord {hdr : XndMsghdr} (hhdr : hdr = .connectLaunch ∨ hdr = .connectRestart) :
      Conn.Begins introduced owner (.fresh (.coord (.connected hdr)) owner [])
  | child {msg : XndMsg} (hm : msg.hdr = .atforkPrepare) :
      Conn.Begins introduced owner (.fresh (.child false) owner [msg])
  | oob {msg : XndMsg} (hm : OobHdr msg.hdr) (hfirst : introduced → msg.hdr ≠ .exit) :
      Conn.Begins introduced owner (.fresh .oob owner [msg])
  | silent : Conn.Begins introduced owner (.fresh .oob owner [])
  | command {msg : XndMsg} (hm : msg.hdr = .command) :
      Conn.Begins introduced owner (.fresh .command owner [msg])

namespace Net
variable {w w' : Net} {i c : Nat} {m : Move} {x : Conn} {f : Conn → Conn} {side : Side}
  {owner : Option Nat} {sent : List XndMsg} {p : Peer} {intro : Prop}

/-- **The condition on a move**: a process tells of an exit on a connection over which it has
sent a message before. -/
def Introduced (w : Net) : Move → Prop
  | .notifyCoordOfExit i _ true => ∃ c ∈ (w.peers i).oobFd, (w.conns c).sent ≠ []
  | _ => True

instance (w : Net) : (m : Move) → Decidable (w.Introduced m)
  | .notifyCoordOfExit i _ true =>
      inferInstanceAs (Decidable (∃ c ∈ (w.peers i).oobFd, (w.conns c).sent ≠ []))
  | .notifyCoordOfExit _ _ false | .register .. | .thread .. | .translate .. | .atforkPrepare ..
  | .answered _ | .fork .. | .forkFails _ | .disconnect .. | .dies _ | .closes .. | .command _ =>
      inferInstanceAs (Decidable True)

/-- **The descriptors and the backlog** hold connections that were made, and each at most once. -/
structure Wired (w : Net) : Prop where
  below : ∀ c ∈ w.backlog, c < w.made
  bound : ∀ fd c, w.fds fd = some c → c < w.made
  nodup : w.backlog.Nodup
  apart : ∀ fd c, w.fds fd = some c → c ∉ w.backlog
  inj : ∀ fd fd' c, w.fds fd = some c → w.fds fd' = some c → fd = fd'
  nonneg : ∀ fd c, w.fds fd = some c → 0 ≤ fd

/-- **What a move does**: steps on the connections there are, and at most one new connection. -/
structure Evolves (introduced : Prop) (w w' : Net) : Prop where
  fds : w'.fds = w.fds
  old : ∀ c < w.made, Relation.ReflTransGen (Conn.Next introduced) (w.conns c) (w'.conns c)
  grows : w'.made = w.made ∧ w'.backlog = w.backlog ∨
    w'.made = w.made + 1 ∧ w'.backlog = w.backlog ++ [w.made] ∧
      ∃ owner, Conn.Begins introduced owner (w'.conns w.made)

theorem Evolves.refl (w : Net) : Evolves intro w w := ⟨rfl, fun _ _ => .refl, .inl ⟨rfl, rfl⟩⟩

/-- A step on one connection. -/
theorem Evolves.setConn (h : Evolves intro w w') (hc : w'.made = w.made)
    (hx : Relation.ReflTransGen (Conn.Next intro) (w'.conns c) x) :
    Evolves intro w (w'.setConn c x) := by
  refine ⟨h.fds, fun d hd => ?_, .inl ⟨hc, (h.grows.resolve_right fun hg => ?_).2⟩⟩
  · rw [conns_setConn]
    split
    · rename_i hd
      subst hd
      exact (h.old _ ‹_›).trans hx
    · exact h.old d hd
  · have := hg.1
    omega

theorem Evolves.onConn (hx : Conn.Next intro (w.conns c) (f (w.conns c))) :
    Evolves intro w (w.onConn c f) := (Evolves.refl w).setConn rfl (.single hx)

/-- The processes are no part of it. -/
theorem Evolves.congr (h : Evolves intro w w') {v : Net} (hfds : v.fds = w'.fds)
    (hconns : v.conns = w'.conns) (hmade : v.made = w'.made) (hbacklog : v.backlog = w'.backlog) :
    Evolves intro w v :=
  ⟨hfds.trans h.fds, hconns ▸ h.old, by rw [hmade, hbacklog, hconns]; exact h.grows⟩

theorem Evolves.setPeer (h : Evolves intro w w') : Evolves intro w (w'.setPeer i p) :=
  h.congr rfl rfl rfl rfl

theorem Evolves.spawn (h : Evolves intro w w') (c : Nat) : Evolves intro w (w'.spawn c) :=
  h.congr rfl rfl rfl rfl

theorem Evolves.connect (h : Conn.Begins intro owner (.fresh side owner sent)) :
    Evolves intro w (w.connect side owner sent) := by
  refine ⟨rfl, fun d hd => ?_, .inr ⟨rfl, rfl, owner, ?_⟩⟩
  · rw [conns_connect, if_neg (Nat.ne_of_lt hd)]
  · rw [conns_connect, if_pos rfl]
    exact h

theorem kind_eq_oob {side : Side} (h : side.kind = .oob) : side = .oob := by
  cases side <;> first | rfl | cases h

/-- A call writes its message. -/
theorem evolves_oobSend (h : Owned w) (hi : (w.peers i).alive = true) {msg : XndMsg}
    (hm : OobHdr msg.hdr) {sends : Bool} (then' : Option Call)
    (hfirst : intro → msg.hdr = .exit → sends = true →
      ∃ c ∈ (w.peers i).oobFd, (w.conns c).sent ≠ []) :
    Evolves intro w (w.oobSend i msg sends then') := by
  unfold oobSend
  split
  next hoob =>
    split
    next hs =>
      refine (Evolves.connect (.oob hm fun hintro hexit => ?_)).setPeer
      obtain ⟨c, hc, -⟩ := hfirst hintro hexit hs
      rw [hoob] at hc
      cases hc
    next => exact (Evolves.connect .silent).setPeer
  next c hoob =>
    split
    next hs =>
      refine (Evolves.onConn (.requests (kind_eq_oob (h.oob i c hi hoob).2.2) hm ?_)).setPeer
      rintro hintro hnil hexit
      obtain ⟨d, hd, hsent⟩ := hfirst hintro hexit hs.1
      obtain rfl : c = d := Option.some.inj (hoob.symm.trans hd)
      exact hsent hnil
    next => exact .refl w

/-- A call gets its answer. -/
theorem evolves_answer (h : Owned w) (hm : w.answer i = some w') :
    Evolves intro w w' := by
  unfold answer at hm
  split at hm
  next hcall =>
    split at hm
    next c hoob =>
      split at hm
      next hdown =>
        obtain rfl := Option.some.inj hm
        have hside := kind_eq_oob (h.oob i c (holder_eq_some hcall).1 hoob).2.2
        exact (Evolves.onConn (.replied hside hdown)).setPeer
      next =>
        split at hm
        · cases hm
        · obtain rfl := Option.some.inj hm
          exact (Evolves.refl w).setPeer
    next =>
      obtain rfl := Option.some.inj hm
      exact (Evolves.refl w).setPeer
  next =>
    split at hm
    next hside hdown =>
      split at hm
      · obtain rfl := Option.some.inj hm
        exact .onConn (.answered hside hdown)
      · obtain rfl := Option.some.inj hm
        exact (Evolves.refl w).setPeer
    next =>
      split at hm
      · cases hm
      · obtain rfl := Option.some.inj hm
        exact (Evolves.refl w).setPeer
    next => cases hm
  next => cases hm

theorem evolves_forked (hc : w.forkConn i = some c) : Evolves intro w (w.forked i c) :=
  ((Evolves.refl w).setPeer.setConn (c := c) rfl
    (.single (.forks (forkConn_eq_some hc).2.2))).spawn c

theorem evolves_disconnect (hi : w.userRuns i = true) (msg : XndMsg) :
    Evolves intro w (w.disconnect i msg) := by
  obtain ⟨pc, hside, hpc⟩ := side_of_userRuns hi
  have hleaves : Evolves intro w (w.onConn (w.peers i).coordFd
      (·.disconnect { msg with hdr := .exit })) := .onConn (.disconnects hside hpc rfl)
  unfold Net.disconnect
  dsimp only
  split
  · exact (hleaves.setConn rfl (.single .hangsUp)).setPeer
  · exact hleaves

/-- **One move of a client.** -/
theorem evolves_move (h : Owned w) (hm : move m w = some w') :
    Evolves (w.Introduced m) w w' := by
  cases m with
  | register restart =>
      obtain rfl := Option.some.inj hm
      refine (Evolves.connect (.coord ?_)).spawn _
      cases restart with
      | true => exact .inr rfl
      | false => exact .inl rfl
  | thread i msg =>
      simp only [move, thread] at hm
      split at hm
      · split at hm
        · obtain rfl := Option.some.inj hm
          exact (Evolves.refl w).setConn rfl (.single (.thread ‹_›))
        · obtain rfl := Option.some.inj hm
          exact (Evolves.refl w).setPeer
        · cases hm
      · cases hm
  | translate i t msg sends =>
      simp only [move] at hm
      split at hm
      next ht =>
        obtain rfl := Option.some.inj hm
        refine evolves_oobSend h (alive_of_takesMutex ht) ?_ _ ?_
        · cases t with
          | virtToReal => exact .inl rfl
          | realToVirt => exact .inr (.inl rfl)
        · cases t with
          | virtToReal => intro _ he; cases he
          | realToVirt => intro _ he; cases he
      next => cases hm
  | notifyCoordOfExit i msg sends =>
      simp only [move] at hm
      split at hm
      next ht =>
        obtain rfl := Option.some.inj hm
        refine evolves_oobSend h (alive_of_takesMutex ht) (.inr (.inr rfl)) _ ?_
        rintro hintro - rfl
        exact hintro
      next => cases hm
  | atforkPrepare i msg =>
      simp only [move] at hm
      split at hm
      · obtain rfl := Option.some.inj hm
        exact (Evolves.connect (.child rfl)).setPeer
      · cases hm
  | answered i => exact evolves_answer h hm
  | fork i =>
      obtain ⟨c, hc, rfl⟩ := Option.map_eq_some_iff.mp hm
      exact evolves_forked hc
  | forkFails i =>
      obtain ⟨c, hc, rfl⟩ := Option.map_eq_some_iff.mp hm
      exact (Evolves.onConn .hangsUp).setPeer
  | disconnect i msg =>
      simp only [move] at hm
      split at hm
      next hi =>
        obtain rfl := Option.some.inj hm
        exact evolves_disconnect hi.1 msg
      next => cases hm
  | dies i =>
      simp only [move] at hm
      split at hm
      · obtain rfl := Option.some.inj hm
        exact (Evolves.refl w).setPeer
      · cases hm
  | closes i c =>
      simp only [move] at hm
      split at hm
      · obtain rfl := Option.some.inj hm
        exact .onConn .hangsUp
      · cases hm
  | command msg =>
      obtain rfl := Option.some.inj hm
      exact .connect (.command rfl)

/-- What the coordinator has is not changed by a move. -/
theorem Wired.evolves (h : Wired w) (he : Evolves intro w w') : Wired w' := by
  rcases he.grows with ⟨hmade, hbacklog⟩ | ⟨hmade, hbacklog, -⟩
  · refine ⟨?_, ?_, ?_, ?_, ?_, ?_⟩
    · rw [hmade, hbacklog]; exact h.below
    · rw [hmade, he.fds]; exact h.bound
    · rw [hbacklog]; exact h.nodup
    · rw [hbacklog, he.fds]; exact h.apart
    · rw [he.fds]; exact h.inj
    · rw [he.fds]; exact h.nonneg
  · refine ⟨fun c hc => ?_, fun fd c hc => ?_, ?_, fun fd c hc => ?_, ?_, ?_⟩
    · rw [hbacklog, List.mem_append, List.mem_singleton] at hc
      rw [hmade]
      rcases hc with hc | rfl
      · exact Nat.lt_succ_of_lt (h.below c hc)
      · exact Nat.lt_succ_self _
    · rw [he.fds] at hc
      rw [hmade]
      exact Nat.lt_succ_of_lt (h.bound fd c hc)
    · rw [hbacklog]
      refine List.nodup_append.mpr ⟨h.nodup, List.nodup_singleton _, fun c hc d hd => ?_⟩
      obtain rfl := List.mem_singleton.mp hd
      exact Nat.ne_of_lt (h.below c hc)
    · rw [he.fds] at hc
      rw [hbacklog, List.mem_append, List.mem_singleton]
      rintro (hb | rfl)
      · exact h.apart fd c hc hb
      · exact Nat.lt_irrefl _ (h.bound fd _ hc)
    · rw [he.fds]; exact h.inj
    · rw [he.fds]; exact h.nonneg

theorem Wired.accept (h : Wired w) {fd : Int} {rest : List Nat} (hb : w.backlog = c :: rest)
    (hfd : 0 ≤ fd) : Wired { w with backlog := rest, fds := Function.update w.fds fd (some c) } := by
  have hbelow : ∀ d ∈ c :: rest, d < w.made := by
    intro d hd
    exact h.below d (hb ▸ hd)
  have hnodup : (c :: rest).Nodup := hb ▸ h.nodup
  have hnot : ∀ fd', w.fds fd' = some c → False := fun fd' hc =>
    h.apart fd' c hc (hb ▸ List.mem_cons_self)
  refine ⟨fun d hd => hbelow d (List.mem_cons_of_mem _ hd), ?_, (List.nodup_cons.mp hnodup).2, ?_,
    ?_, ?_⟩
  · intro fd' d hd
    simp only [Function.update_apply] at hd
    split at hd
    · exact Option.some.inj hd ▸ hbelow c List.mem_cons_self
    · exact h.bound fd' d hd
  · intro fd' d hd hmem
    simp only [Function.update_apply] at hd
    split at hd
    · exact (List.nodup_cons.mp hnodup).1 (Option.some.inj hd ▸ hmem)
    · exact h.apart fd' d hd (hb ▸ List.mem_cons_of_mem _ hmem)
  · intro fd' fd'' d hd hd'
    simp only [Function.update_apply] at hd hd'
    split at hd <;> split at hd'
    · rw [‹fd' = fd›, ‹fd'' = fd›]
    · exact (hnot _ (Option.some.inj hd ▸ hd')).elim
    · exact (hnot _ (Option.some.inj hd' ▸ hd)).elim
    · exact h.inj fd' fd'' d hd hd'
  · intro fd' d hd
    simp only [Function.update_apply] at hd
    split at hd
    · rw [‹fd' = fd›]; exact hfd
    · exact h.nonneg fd' d hd

theorem Wired.unbind (h : Wired w) (fd : Int) {conns : Nat → Conn} :
    Wired { w with conns := conns, fds := Function.update w.fds fd none } := by
  have old : ∀ {fd' d}, Function.update w.fds fd none fd' = some d → w.fds fd' = some d := by
    intro fd' d hd
    rw [Function.update_apply] at hd
    split at hd
    · cases hd
    · exact hd
  exact ⟨h.below, fun fd' d hd => h.bound fd' d (old hd), h.nodup,
    fun fd' d hd => h.apart fd' d (old hd), fun _ _ d hd hd' => h.inj _ _ d (old hd) (old hd'),
    fun fd' d hd => h.nonneg fd' d (old hd)⟩

theorem Wired.onConn (h : Wired w) {f : Conn → Conn} : Wired (w.onConn c f) :=
  ⟨h.below, h.bound, h.nodup, h.apart, h.inj, h.nonneg⟩

theorem Wired.respond (h : Wired w) {call : CoordCall} {r : call.Answer}
    (hr : w' ∈ Net.respond s w call r) : Wired w' := by
  obtain rfl | ⟨fd, -, hr⟩ | ⟨fd, msg, -, hr⟩ | ⟨fd, msg, -, hr⟩ | ⟨fd, -, rfl⟩ := respond_cases hr
  · exact h
  · obtain ⟨c, rest, hb, hfd, -, -, -, rfl⟩ := mem_accept hr
    exact h.accept hb hfd
  · obtain ⟨c, rest, -, -, rfl⟩ := mem_recvSome hr
    exact h.onConn
  · obtain ⟨c, -, rfl⟩ := mem_sendDone hr
    exact h.onConn
  · unfold close
    split
    · exact h.unbind fd
    · exact h

theorem wired_init : Wired init := ⟨nofun, nofun, List.nodup_nil, nofun, nofun, nofun⟩

end Net

end Xnd.Joint
