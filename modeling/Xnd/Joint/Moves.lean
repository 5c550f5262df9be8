import Xnd.Joint.Net

/-!
# What moves and answers do

The processes that live keep the connections that are theirs (`Owned.move`); the coordinator
takes what has come, sends and closes (`serves_respond`).
-/
namespace Xnd.Joint
open Coord

/-! ## Steps on one connection -/

namespace Conn
variable {c x : Conn} {msg : XndMsg} {pc : ThreadPc}

theorem say_of_listening (h : c.listening = true) : c.say msg = { c with sent := c.sent ++ [msg] } :=
  if_pos h

@[simp] theorem side_say : (c.say msg).side = c.side := by
  unfold say
  split <;> rfl

@[simp] theorem owner_say : (c.say msg).owner = c.owner := by
  unfold say
  split <;> rfl

@[simp] theorem down_say : (c.say msg).down = c.down := by
  unfold say
  split <;> rfl

@[simp] theorem isOpen_say : (c.say msg).isOpen = c.isOpen := by
  unfold say
  split <;> rfl

@[simp] theorem listening_say : (c.say msg).listening = c.listening := by
  unfold say
  split <;> rfl

@[simp] theorem taken_say : (c.say msg).taken = c.taken := by
  unfold say
  split <;> rfl

theorem speak_goes (h : c.speak pc msg = .goes x) :
    c.listening = true ∧ x = { c with side := .coord pc, sent := c.sent ++ [msg] } := by
  unfold speak at h
  split at h
  next hl =>
    refine ⟨hl, (Outcome.goes.inj h).symm.trans ?_⟩
    rw [say_of_listening (by exact hl)]
    rfl
  next => cases h

/-- **A step of a thread**: it sends the next message, goes on by itself, or takes what has come;
a checkpoint thread ends when it waits for a request and gets none. -/
inductive Threads (c : Conn) : Conn → Prop
  | speaks {pc pc' : ThreadPc} {msg : XndMsg} (hside : c.side = .coord pc)
      (hpc : (∃ hdr, pc = .connected hdr ∧ pc' = .handshake hdr ∧ msg.hdr = hdr) ∨
        pc = .requested ∧ pc' = .barrier .preckpt ∧ msg.hdr = .ckptReady ∨
        pc = .saving ∧ pc' = .barrier .postckpt ∧ msg.hdr = .ckptDone)
      (hl : c.listening = true) :
      Threads c { c with side := .coord pc', sent := c.sent ++ [msg] }
  | suspends (hside : c.side = .coord .suspending) : Threads c (c.goto .saving)
  | receives {pc pc' : ThreadPc} {m : XndMsg} {rest : List XndMsg} (hside : c.side = .coord pc)
      (hdown : c.down = m :: rest) (hpc : pc.receive m = some pc') :
      Threads c { c with side := .coord pc', down := rest }
  | refuses {m : XndMsg} {rest : List XndMsg} (hside : c.side = .coord .waiting)
      (hdown : c.down = m :: rest) (hm : ThreadPc.waiting.receive m = none) :
      Threads c { c with side := .coord .ended, down := rest }
  | ends (hside : c.side = .coord .waiting) (hdown : c.down = []) (hl : c.listening = false) :
      Threads c (c.goto .ended)

theorem threads_of_threadNext {free : Bool} (h : c.threadNext free msg = some (.goes x)) :
    Threads c x := by
  unfold threadNext at h
  split at h
  next hdr hside =>
    obtain ⟨hl, rfl⟩ := speak_goes (Option.some.inj h)
    exact .speaks hside (.inl ⟨hdr, rfl, rfl, rfl⟩) hl
  next hside =>
    obtain ⟨hl, rfl⟩ := speak_goes (Option.some.inj h)
    exact .speaks hside (.inr (.inl ⟨rfl, rfl, rfl⟩)) hl
  next hside =>
    split at h
    · obtain rfl := Outcome.goes.inj (Option.some.inj h)
      exact .suspends hside
    · cases h
  next hside =>
    obtain ⟨hl, rfl⟩ := speak_goes (Option.some.inj h)
    exact .speaks hside (.inr (.inr ⟨rfl, rfl, rfl⟩)) hl
  next => cases h
  next pc _ _ _ _ _ hside =>
    split at h
    next m rest hdown =>
      split at h
      next pc' hpc =>
        obtain rfl := Outcome.goes.inj (Option.some.inj h)
        exact .receives hside hdown hpc
      next hpc =>
        unfold unexpected at h
        split at h
        next hw =>
          subst hw
          obtain rfl := Outcome.goes.inj (Option.some.inj h)
          exact .refuses hside hdown hpc
        next => cases h
    next hdown =>
      split at h
      · cases h
      next hl =>
        unfold unexpected at h
        split at h
        next hw =>
          subst hw
          obtain rfl := Outcome.goes.inj (Option.some.inj h)
          exact .ends hside hdown (Bool.eq_false_iff.mpr hl)
        next => cases h
  next => cases h

theorem Threads.side (h : Threads c x) : (∃ pc, c.side = .coord pc) ∧ ∃ pc, x.side = .coord pc := by
  cases h with
  | speaks hside => exact ⟨⟨_, hside⟩, _, rfl⟩
  | suspends hside => exact ⟨⟨_, hside⟩, _, rfl⟩
  | receives hside => exact ⟨⟨_, hside⟩, _, rfl⟩
  | refuses hside => exact ⟨⟨_, hside⟩, _, rfl⟩
  | ends hside => exact ⟨⟨_, hside⟩, _, rfl⟩

theorem Threads.owner (h : Threads c x) : x.owner = c.owner := by
  cases h <;> rfl

end Conn

/-! ## Moves -/

namespace Net
variable {w w' : Net} {i c : Nat} {m : Move}

/-- **The processes have their connections**, each of the right kind. -/
structure Owned (w : Net) : Prop where
  born : ∀ i, (w.peers i).alive = true → i < w.born
  coord : ∀ i, (w.peers i).alive = true → (w.peers i).coordFd < w.made ∧
    (w.conns (w.peers i).coordFd).owner = some i ∧ (w.conns (w.peers i).coordFd).side.kind = .coord
  oob : ∀ i c, (w.peers i).alive = true → (w.peers i).oobFd = some c → c < w.made ∧
    (w.conns c).owner = some i ∧ (w.conns c).side.kind = .oob
  child : ∀ i c, (w.peers i).alive = true → (w.peers i).call = some (.forking c) → c < w.made ∧
    (w.conns c).owner = some i ∧ (w.conns c).side.kind = .child

/-! ### The operations -/

section Operations
variable {x : Conn} {f : Conn → Conn} {side : Side} {owner : Option Nat} {sent : List XndMsg}
  {p : Peer}

@[simp] theorem conns_setConn (d : Nat) :
    (w.setConn c x).conns d = if d = c then x else w.conns d := Function.update_apply ..

@[simp] theorem conns_onConn (d : Nat) :
    (w.onConn c f).conns d = if d = c then f (w.conns c) else w.conns d := conns_setConn d

theorem conns_connect (d : Nat) :
    (w.connect side owner sent).conns d = if d = w.made then .fresh side owner sent else w.conns d :=
  conns_setConn d

@[simp] theorem peers_setPeer (j : Nat) :
    (w.setPeer i p).peers j = if j = i then p else w.peers j := Function.update_apply ..

theorem peers_spawn (j : Nat) :
    (w.spawn c).peers j = if j = w.born then ⟨c, none, none, true⟩ else w.peers j := peers_setPeer j

/-! ### What the processes have -/

theorem Owned.setConn (h : Owned w) (howner : x.owner = (w.conns c).owner)
    (hkind : x.side.kind = (w.conns c).side.kind) : Owned (w.setConn c x) := by
  have same : ∀ d, ((w.setConn c x).conns d).owner = (w.conns d).owner ∧
      ((w.setConn c x).conns d).side.kind = (w.conns d).side.kind := by
    intro d
    rw [conns_setConn]
    split
    next hd => exact hd ▸ ⟨howner, hkind⟩
    next => exact ⟨rfl, rfl⟩
  refine ⟨h.born, fun i hi => ?_, fun i d hi hd => ?_, fun i d hi hd => ?_⟩
  · rw [(same _).1, (same _).2]
    exact h.coord i hi
  · rw [(same _).1, (same _).2]
    exact h.oob i d hi hd
  · rw [(same _).1, (same _).2]
    exact h.child i d hi hd

theorem Owned.onConn (h : Owned w) (howner : (f (w.conns c)).owner = (w.conns c).owner)
    (hkind : (f (w.conns c)).side.kind = (w.conns c).side.kind) : Owned (w.onConn c f) :=
  h.setConn howner hkind

theorem Owned.connect (h : Owned w) : Owned (w.connect side owner sent) := by
  have old : ∀ {d i kind}, d < w.made ∧ (w.conns d).owner = some i ∧ (w.conns d).side.kind = kind →
      d < w.made + 1 ∧ ((w.connect side owner sent).conns d).owner = some i ∧
        ((w.connect side owner sent).conns d).side.kind = kind := by
    rintro d i kind ⟨hd, hc⟩
    rw [conns_connect, if_neg (Nat.ne_of_lt hd)]
    exact ⟨Nat.lt_succ_of_lt hd, hc⟩
  exact ⟨h.born, fun i hi => old (h.coord i hi), fun i d hi hd => old (h.oob i d hi hd),
    fun i d hi hd => old (h.child i d hi hd)⟩

/-- A process changes what it has. -/
theorem Owned.setPeer (h : Owned w)
    (hp : p.alive = true → i < w.born ∧ (p.coordFd < w.made ∧ (w.conns p.coordFd).owner = some i ∧
        (w.conns p.coordFd).side.kind = .coord) ∧
      (∀ c, p.oobFd = some c → c < w.made ∧ (w.conns c).owner = some i ∧
        (w.conns c).side.kind = .oob) ∧
      ∀ c, p.call = some (.forking c) → c < w.made ∧ (w.conns c).owner = some i ∧
        (w.conns c).side.kind = .child) : Owned (w.setPeer i p) := by
  refine ⟨fun j hj => ?_, fun j hj => ?_, fun j d hj hd => ?_, fun j d hj hd => ?_⟩
  · rw [peers_setPeer] at hj
    split at hj
    next hji => subst hji; exact (hp hj).1
    next => exact h.born j hj
  · rw [peers_setPeer] at hj ⊢
    split at hj
    next hji => subst hji; rw [if_pos rfl]; exact (hp hj).2.1
    next hji => rw [if_neg hji]; exact h.coord j hj
  · rw [peers_setPeer] at hj hd
    split at hj
    next hji => subst hji; rw [if_pos rfl] at hd; exact (hp hj).2.2.1 d hd
    next hji => rw [if_neg hji] at hd; exact h.oob j d hj hd
  · rw [peers_setPeer] at hj hd
    split at hj
    next hji => subst hji; rw [if_pos rfl] at hd; exact (hp hj).2.2.2 d hd
    next hji => rw [if_neg hji] at hd; exact h.child j d hj hd

/-- A process that lives keeps what it had, except for its call. -/
theorem Owned.setCall (h : Owned w) {call : Option Call}
    (hcall : ∀ c, call = some (.forking c) → c < w.made ∧ (w.conns c).owner = some i ∧
      (w.conns c).side.kind = .child) : Owned (w.setPeer i { w.peers i with call := call }) :=
  h.setPeer fun hi => ⟨h.born i hi, h.coord i hi, fun c => h.oob i c hi, hcall⟩

theorem Owned.dies (h : Owned w) (i : Nat) : Owned (w.dies i) := h.setPeer nofun

theorem Owned.spawn (h : Owned w) (hc : c < w.made ∧ (w.conns c).owner = some w.born ∧
    (w.conns c).side.kind = .coord) : Owned (w.spawn c) := by
  have hlate : Owned { w with born := w.born + 1 } :=
    ⟨fun i hi => Nat.lt_succ_of_lt (h.born i hi), h.coord, h.oob, h.child⟩
  exact hlate.setPeer fun _ => ⟨Nat.lt_succ_self _, hc, nofun, nofun⟩

/-- A connection that has just been made. -/
theorem mem_connect (kind : Kind) (hkind : side.kind = kind) (i : Nat) :
    w.made < (w.connect side (some i) sent).made ∧
      ((w.connect side (some i) sent).conns w.made).owner = some i ∧
      ((w.connect side (some i) sent).conns w.made).side.kind = kind := by
  rw [conns_connect, if_pos rfl]
  exact ⟨Nat.lt_succ_self _, rfl, hkind⟩

end Operations

/-! ### The moves -/

section Moves

theorem alive_of_userRuns (h : w.userRuns i = true) : (w.peers i).alive = true :=
  (Bool.and_eq_true_iff.mp h).1

theorem side_of_userRuns (h : w.userRuns i = true) :
    ∃ pc, (w.conns (w.peers i).coordFd).side = .coord pc ∧ pc.userRuns = true := by
  have hside := (Bool.and_eq_true_iff.mp h).2
  split at hside
  · exact ⟨_, ‹_›, hside⟩
  · cases hside

theorem userRuns_of_takesMutex (h : w.takesMutex i = true) : w.userRuns i = true :=
  (Bool.and_eq_true_iff.mp h).1

theorem alive_of_takesMutex (h : w.takesMutex i = true) : (w.peers i).alive = true :=
  alive_of_userRuns (userRuns_of_takesMutex h)

theorem holder_eq_some {p : Peer} {call : Call} (h : p.holder = some call) :
    p.alive = true ∧ p.call = some call := by
  unfold Peer.holder at h
  split at h
  · exact ⟨‹_›, h⟩
  · cases h

theorem forkConn_eq_some (h : w.forkConn i = some c) :
    (w.peers i).alive = true ∧ (w.peers i).call = some (.forking c) ∧
      (w.conns c).side = .child true := by
  unfold forkConn at h
  split at h
  next d hd =>
    split at h
    next hside =>
      obtain rfl := Option.some.inj h
      exact ⟨(holder_eq_some hd).1, (holder_eq_some hd).2, hside⟩
    next => cases h
  next => cases h

theorem Owned.oobSend (h : Owned w) (hi : (w.peers i).alive = true) (msg : XndMsg) (sends : Bool)
    {then' : Option Call} (hthen : ∀ c, then' ≠ some (.forking c)) :
    Owned (w.oobSend i msg sends then') := by
  have hc : ∀ sent, Owned (w.connect .oob (some i) sent) := fun sent => h.connect
  unfold Net.oobSend
  split
  next hoob =>
    split
    · refine (hc _).setPeer fun _ => ⟨h.born i hi, (hc _).coord i hi, ?_,
        fun c hcall => absurd hcall (hthen c)⟩
      exact fun c hd => Option.some.inj hd ▸ mem_connect .oob rfl i
    · refine (hc _).setPeer fun _ => ⟨h.born i hi, (hc _).coord i hi, ?_,
        fun c => (hc _).child i c hi⟩
      exact fun c hd => Option.some.inj hd ▸ mem_connect .oob rfl i
  next c hoob =>
    split
    · refine (h.onConn Conn.owner_say (congrArg Side.kind Conn.side_say)).setCall fun c hcall => ?_
      exact absurd hcall (hthen c)
    · exact h

theorem Owned.answer (h : Owned w) (hm : w.answer i = some w') : Owned w' := by
  unfold Net.answer at hm
  split at hm
  next hcall =>
    split at hm
    next c hoob =>
      split at hm
      · obtain rfl := Option.some.inj hm
        exact (h.onConn rfl rfl).setCall nofun
      · split at hm
        · cases hm
        · obtain rfl := Option.some.inj hm
          exact h.setCall nofun
    next =>
      obtain rfl := Option.some.inj hm
      exact h.setCall nofun
  next =>
    split at hm
    next hside hdown =>
      split at hm
      · obtain rfl := Option.some.inj hm
        exact h.onConn rfl (by rw [hside]; rfl)
      · obtain rfl := Option.some.inj hm
        exact h.dies i
    next =>
      split at hm
      · cases hm
      · obtain rfl := Option.some.inj hm
        exact h.dies i
    next => cases hm
  next => cases hm

theorem conns_forked (d : Nat) : (w.forked i c).conns d =
    if d = c then { w.conns d with side := .coord (.connected .atforkChild), owner := some w.born }
    else w.conns d := by
  show Function.update w.conns c _ d = _
  rw [Function.update_apply]
  split
  next hd => rw [hd]; rfl
  next => rfl

theorem peers_forked (j : Nat) : (w.forked i c).peers j =
    if j = w.born then ⟨c, none, none, true⟩
    else if j = i then { w.peers i with call := none } else w.peers j :=
  (peers_spawn j).trans (ite_congr rfl (fun _ => rfl) fun _ => peers_setPeer j)

/-- A child has the connection that was made for it. -/
theorem Owned.forked (h : Owned w) (hc : w.forkConn i = some c) : Owned (w.forked i c) := by
  obtain ⟨hi, hcall, hside⟩ := forkConn_eq_some hc
  obtain ⟨hlt, howner, hkind⟩ := h.child i c hi hcall
  have hconns : ∀ d, d ≠ c → (w.forked i c).conns d = w.conns d := fun d hd =>
    (conns_forked d).trans (if_neg hd)
  have hpeers : ∀ j, j ≠ w.born → (w.forked i c).peers j =
      if j = i then { w.peers i with call := none } else w.peers j := fun j hj =>
    (peers_forked j).trans (if_neg hj)
  have hborn : (w.forked i c).peers w.born = ⟨c, none, none, true⟩ :=
    (peers_forked w.born).trans (if_pos rfl)
  -- The others keep what they have; the parent has given up the connection.
  have old : ∀ j, j ≠ w.born → ((w.forked i c).peers j).alive = true →
      (w.peers j).alive = true ∧ ((w.forked i c).peers j).coordFd = (w.peers j).coordFd ∧
        ((w.forked i c).peers j).oobFd = (w.peers j).oobFd ∧
        ∀ d, ((w.forked i c).peers j).call = some (.forking d) →
          j ≠ i ∧ (w.peers j).call = some (.forking d) := by
    intro j hj halive
    rw [hpeers j hj] at halive ⊢
    by_cases hji : j = i
    · rw [if_pos hji] at halive ⊢
      subst hji
      exact ⟨halive, rfl, rfl, nofun⟩
    · rw [if_neg hji] at halive ⊢
      exact ⟨halive, rfl, rfl, fun d hd => ⟨hji, hd⟩⟩
  have kept : ∀ {d j kind}, d < w.made ∧ (w.conns d).owner = some j ∧
      (w.conns d).side.kind = kind → d ≠ c → d < (w.forked i c).made ∧
        ((w.forked i c).conns d).owner = some j ∧ ((w.forked i c).conns d).side.kind = kind := by
    intro d j kind hd hne
    rw [hconns d hne]
    exact hd
  have ne : ∀ {d}, (w.conns d).side.kind ≠ .child → d ≠ c := by
    rintro d hd rfl
    exact hd hkind
  refine ⟨fun j halive => ?_, fun j halive => ?_, fun j d halive hd => ?_,
    fun j d halive hd => ?_⟩
  · by_cases hj : j = w.born
    · exact hj ▸ Nat.lt_succ_self _
    · exact Nat.lt_succ_of_lt (h.born j (old j hj halive).1)
  · by_cases hj : j = w.born
    · subst hj
      rw [hborn]
      refine ⟨hlt, ?_⟩
      rw [conns_forked, if_pos rfl]
      exact ⟨rfl, rfl⟩
    · obtain ⟨hold, hfd, -, -⟩ := old j hj halive
      have hcoord := h.coord j hold
      rw [hfd]
      exact kept hcoord (ne (by rw [hcoord.2.2]; exact nofun))
  · by_cases hj : j = w.born
    · subst hj
      rw [hborn] at hd
      cases hd
    · obtain ⟨hold, -, hfd, -⟩ := old j hj halive
      have hoob := h.oob j d hold (hfd ▸ hd)
      exact kept hoob (ne (by rw [hoob.2.2]; exact nofun))
  · by_cases hj : j = w.born
    · subst hj
      rw [hborn] at hd
      cases hd
    · obtain ⟨hold, -, -, hfork⟩ := old j hj halive
      obtain ⟨hji, hd⟩ := hfork d hd
      have hchild := h.child j d hold hd
      refine kept hchild ?_
      rintro rfl
      exact hji (Option.some.inj (hchild.2.1.symm.trans howner))

theorem Owned.disconnect (h : Owned w) (hi : w.userRuns i = true) (msg : XndMsg) :
    Owned (w.disconnect i msg) := by
  obtain ⟨pc, hside, -⟩ := side_of_userRuns hi
  have hleaves : Owned (w.onConn (w.peers i).coordFd (·.disconnect { msg with hdr := .exit })) :=
    h.onConn (by simp [Conn.disconnect, Conn.goto, Conn.hangUp]) (by rw [hside]; rfl)
  unfold Net.disconnect
  dsimp only
  split
  · have hclosed := hleaves.onConn (c := ‹Nat›) (f := Conn.hangUp) rfl rfl
    exact hclosed.setPeer fun hi =>
      ⟨hclosed.born i hi, hclosed.coord i hi, nofun, fun c => hclosed.child i c hi⟩
  · exact hleaves

theorem Owned.thread (h : Owned w) {msg : XndMsg} (hm : w.thread i msg = some w') : Owned w' := by
  unfold Net.thread at hm
  split at hm
  next hi =>
    split at hm
    next hx =>
      obtain rfl := Option.some.inj hm
      have hstep := Conn.threads_of_threadNext hx
      obtain ⟨⟨pc, hpc⟩, pc', hpc'⟩ := hstep.side
      exact h.setConn hstep.owner (by rw [hpc, hpc']; rfl)
    next =>
      obtain rfl := Option.some.inj hm
      exact h.dies i
    next => cases hm
  next => cases hm

theorem Owned.move (h : Owned w) (hm : Net.move m w = some w') : Owned w' := by
  cases m with
  | register restart =>
      obtain rfl := Option.some.inj hm
      exact h.connect.spawn (mem_connect .coord rfl w.born)
  | thread i msg => exact h.thread hm
  | translate i t msg sends =>
      simp only [Net.move] at hm
      split at hm
      · obtain rfl := Option.some.inj hm
        exact h.oobSend (alive_of_takesMutex ‹_›) _ _ nofun
      · cases hm
  | notifyCoordOfExit i msg sends =>
      simp only [Net.move] at hm
      split at hm
      · obtain rfl := Option.some.inj hm
        exact h.oobSend (alive_of_takesMutex ‹_›) _ _ nofun
      · cases hm
  | atforkPrepare i msg =>
      simp only [Net.move] at hm
      split at hm
      · obtain rfl := Option.some.inj hm
        exact h.connect.setCall fun c hd =>
          Call.forking.inj (Option.some.inj hd) ▸ mem_connect .child rfl i
      · cases hm
  | answered i => exact h.answer hm
  | fork i =>
      obtain ⟨c, hc, rfl⟩ := Option.map_eq_some_iff.mp hm
      exact h.forked hc
  | forkFails i =>
      obtain ⟨c, hc, rfl⟩ := Option.map_eq_some_iff.mp hm
      exact (h.onConn rfl rfl).setCall nofun
  | disconnect i msg =>
      simp only [Net.move] at hm
      split at hm
      next hi =>
        obtain rfl := Option.some.inj hm
        exact h.disconnect hi.1 msg
      next => cases hm
  | dies i =>
      simp only [Net.move] at hm
      split at hm
      · obtain rfl := Option.some.inj hm
        exact h.dies i
      · cases hm
  | closes i c =>
      simp only [Net.move] at hm
      split at hm
      · obtain rfl := Option.some.inj hm
        exact h.onConn rfl rfl
      · cases hm
  | command msg =>
      obtain rfl := Option.some.inj hm
      exact h.connect

end Moves

/-! ## Answers -/

section Answers
variable {s : CoordInfo}

/-- **A step of the coordinator on a connection.** -/
inductive Conn.Served (c : Conn) : Conn → Prop
  | taken {m : XndMsg} {rest : List XndMsg} (h : c.up = m :: rest) :
      Conn.Served c { c with taken := c.taken + 1 }
  | sent (msg : XndMsg) : Conn.Served c { c with down := c.down ++ [msg] }
  | closed : Conn.Served c { c with listening := false }

/-- **What an answer does** to the connections; the processes do not see it. -/
structure Serves (w w' : Net) : Prop where
  conns : ∀ c, w'.conns c = w.conns c ∨ Conn.Served (w.conns c) (w'.conns c)
  made : w'.made = w.made
  peers : w'.peers = w.peers
  born : w'.born = w.born

theorem Serves.refl (w : Net) : Serves w w := ⟨fun _ => .inl rfl, rfl, rfl, rfl⟩

theorem serves_onConn {f : Conn → Conn} (h : Conn.Served (w.conns c) (f (w.conns c))) :
    Serves w (w.onConn c f) := by
  refine ⟨fun d => ?_, rfl, rfl, rfl⟩
  rw [conns_onConn]
  split
  next hd => subst hd; exact .inr h
  next => exact .inl rfl

theorem serves_close (w : Net) (fd : Int) : Serves w (w.close fd) := by
  unfold close
  split
  · have := serves_onConn (w := w) (c := ‹Nat›) (f := ({ · with listening := false })) .closed
    exact ⟨this.conns, rfl, rfl, rfl⟩
  · exact .refl w

theorem mem_recvSome {fd : Int} {msg : XndMsg} (h : w' ∈ w.recvSome fd msg) :
    ∃ c rest, w.fds fd = some c ∧ (w.conns c).up = msg :: rest ∧
      w' = w.onConn c fun x => { x with taken := x.taken + 1 } := by
  unfold recvSome at h
  split at h
  next c hc =>
    split at h
    next hup =>
      obtain ⟨rest, hup⟩ := List.head?_eq_some_iff.mp hup
      exact ⟨c, rest, hc, hup, List.mem_singleton.mp h⟩
    next => cases h
  next => cases h

theorem mem_recvNone {fd : Int} (h : w' ∈ w.recvNone fd) : w' = w := by
  unfold recvNone at h
  split at h
  · split at h
    · exact List.mem_singleton.mp h
    · cases h
  · exact List.mem_singleton.mp h

theorem mem_sendDone {fd : Int} {msg : XndMsg} (h : w' ∈ w.sendDone fd msg) :
    ∃ c, w.fds fd = some c ∧ w' = w.onConn c fun x => { x with down := x.down ++ [msg] } := by
  unfold sendDone at h
  split at h
  next c hc =>
    split at h
    · exact ⟨c, hc, List.mem_singleton.mp h⟩
    · cases h
  next => cases h

theorem mem_accept {fd : Int} (h : w' ∈ w.accept s fd) :
    ∃ c rest, w.backlog = c :: rest ∧ 0 ≤ fd ∧ fd ≠ s.listenFd ∧ w.fds fd = none ∧
      (∀ n ∈ s.procs, fd ∉ watchedFds n.2) ∧
        w' = { w with backlog := rest, fds := Function.update w.fds fd (some c) } := by
  unfold accept at h
  split at h
  next c rest hb =>
    split at h
    next hfd => exact ⟨c, rest, hb, hfd.1, hfd.2.1, hfd.2.2.1, hfd.2.2.2, List.mem_singleton.mp h⟩
    next => cases h
  next => cases h

/-- **An answer** brings a connection or a message, takes a message, closes a descriptor or
leaves the clients alone. -/
theorem respond_cases {call : CoordCall} {r : call.Answer} (h : w' ∈ respond s w call r) :
    w' = w ∨
      (∃ fd, (⟨call, r⟩ : Event CoordCall.Answer) = ⟨.accept, some fd⟩ ∧ w' ∈ w.accept s fd) ∨
      (∃ fd msg, (⟨call, r⟩ : Event CoordCall.Answer) = ⟨.recv fd, some msg⟩ ∧
        w' ∈ w.recvSome fd msg) ∨
      (∃ fd msg, (⟨call, r⟩ : Event CoordCall.Answer) = ⟨.send fd msg, true⟩ ∧
        w' ∈ w.sendDone fd msg) ∨
      ∃ fd, (⟨call, r⟩ : Event CoordCall.Answer) = ⟨.close fd, ()⟩ ∧ w' = w.close fd := by
  unfold respond at h
  split at h
  · split at h
    · exact .inl (List.mem_singleton.mp h)
    · cases h
  · exact .inr (.inl ⟨_, rfl, h⟩)
  · exact .inr (.inr (.inl ⟨_, _, rfl, h⟩))
  · exact .inl (mem_recvNone h)
  · exact .inr (.inr (.inr (.inl ⟨_, _, rfl, h⟩)))
  · exact .inr (.inr (.inr (.inr ⟨_, rfl, List.mem_singleton.mp h⟩)))
  · exact .inl (List.mem_singleton.mp h)

theorem serves_respond {call : CoordCall} {r : call.Answer} (h : w' ∈ respond s w call r) :
    Serves w w' := by
  obtain rfl | ⟨fd, -, h⟩ | ⟨fd, msg, -, h⟩ | ⟨fd, msg, -, h⟩ | ⟨fd, -, rfl⟩ := respond_cases h
  · exact .refl _
  · obtain ⟨c, rest, -, -, -, -, -, rfl⟩ := mem_accept h
    exact ⟨fun _ => .inl rfl, rfl, rfl, rfl⟩
  · obtain ⟨c, rest, -, hup, rfl⟩ := mem_recvSome h
    exact serves_onConn (.taken hup)
  · obtain ⟨c, -, rfl⟩ := mem_sendDone h
    exact serves_onConn (.sent msg)
  · exact serves_close w fd

/-- What is on its way to a client grows by a message that is sent. -/
theorem down_respond {call : CoordCall} {r : call.Answer} (h : w' ∈ respond s w call r) (c : Nat) :
    (w'.conns c).down = (w.conns c).down ∨
      ∃ fd msg, (⟨call, r⟩ : Event CoordCall.Answer) = ⟨.send fd msg, true⟩ ∧ w.fds fd = some c ∧
        (w'.conns c).down = (w.conns c).down ++ [msg] := by
  have same : ∀ {d : Nat} {f : Conn → Conn}, (f (w.conns d)).down = (w.conns d).down →
      ((w.onConn d f).conns c).down = (w.conns c).down := by
    intro d f hf
    rw [conns_onConn]
    split
    next hd => rw [hd]; exact hf
    next => rfl
  obtain rfl | ⟨fd, -, h⟩ | ⟨fd, msg, -, h⟩ | ⟨fd, msg, he, h⟩ | ⟨fd, -, rfl⟩ := respond_cases h
  · exact .inl rfl
  · obtain ⟨d, rest, -, -, -, -, -, rfl⟩ := mem_accept h
    exact .inl rfl
  · obtain ⟨d, rest, -, -, rfl⟩ := mem_recvSome h
    exact .inl (same rfl)
  · obtain ⟨d, hd, rfl⟩ := mem_sendDone h
    by_cases hc : c = d
    · subst hc
      exact .inr ⟨fd, msg, he, hd, by rw [conns_onConn, if_pos rfl]⟩
    · exact .inl (by rw [conns_onConn, if_neg hc])
  · unfold close
    split
    next d _ => exact .inl (same (d := d) (f := ({ · with listening := false })) rfl)
    next => exact .inl rfl

theorem Conn.Served.end {c x : Conn} (h : Conn.Served c x) :
    x.owner = c.owner ∧ x.side = c.side := by
  cases h <;> exact ⟨rfl, rfl⟩

theorem Owned.serves (h : Owned w) (hs : Serves w w') : Owned w' := by
  have same : ∀ d, (w'.conns d).owner = (w.conns d).owner ∧ (w'.conns d).side = (w.conns d).side := by
    intro d
    rcases hs.conns d with he | he
    · rw [he]; exact ⟨rfl, rfl⟩
    · exact he.end
  refine ⟨fun i hi => ?_, fun i hi => ?_, fun i d hi hd => ?_, fun i d hi hd => ?_⟩
  · rw [hs.peers] at hi
    rw [hs.born]
    exact h.born i hi
  · rw [hs.peers] at hi ⊢
    rw [hs.made, (same _).1, (same _).2]
    exact h.coord i hi
  · rw [hs.peers] at hi hd
    rw [hs.made, (same _).1, (same _).2]
    exact h.oob i d hi hd
  · rw [hs.peers] at hi hd
    rw [hs.made, (same _).1, (same _).2]
    exact h.child i d hi hd

end Answers

/-! ## Limits -/

theorem owned_init : Owned init := ⟨nofun, nofun, nofun, nofun⟩

end Net

end Xnd.Joint
