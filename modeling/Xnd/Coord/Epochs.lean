import Mathlib.Logic.Function.Basic
import Xnd.Coord.Upkeep
import Xnd.Coord.Frame
import Xnd.Coord.Ids
import Xnd.Lib.Env

/-!
# The two epochs

The epoch is counted in the coordinator and in every client: `coord_do_checkpoint`
adds one when a round is over, a client when it has been told to resume
(`xnd_postcheckpoint`).  A client is here the variable `epoch` of the image behind a
descriptor, with whether the image has been told to resume and has not counted yet.
An image begins with 0, a forked one with the epoch of its parent, a restarted one
with what it reports, and a launched or executed one reports nothing.

`Epochs` is the invariant: every listed client will have the coordinator's epoch
when it has counted, and one that has answered a request has counted.  Between the
resume messages of a round and the end of it the coordinator is one behind the
clients that were resumed (`Releasing`, `Past`).
-/
namespace Xnd.Coord
open Code

/-! ## Clients -/

/-- The variable `epoch` of a client. -/
@[ext] structure Client where
  epoch : Nat
  /-- It has been sent `XND_RESUME_AFTER_CKPT`, and `xnd_postcheckpoint` is to come. -/
  resuming : Bool
  deriving DecidableEq, Repr

/-- The clients by their descriptors. -/
abbrev Clients := Int → Client

/-- The epoch after `xnd_postcheckpoint`. -/
def Client.due (c : Client) : Nat := if c.resuming = true then c.epoch + 1 else c.epoch

namespace Clients

/-- The images that a forked child may be a copy of.  A thread forks when its process is
not in a round. -/
def parents (s : CoordInfo) (w : Clients) (realPpid : Int) : List Client :=
  ((s.procs.filter (·.2.realPid = realPpid)).map fun n => w n.2.fd).filter (·.resuming = false)

/-- What a message that has arrived says of its sender.  A connection of a new image is
on a descriptor that no listed process has. -/
def received (s : CoordInfo) (w : Clients) (fd : Int) (msg : XndMsg) : List Clients :=
  match msg.hdr with
  | .connectLaunch =>
      if ∀ n ∈ s.procs, n.2.fd ≠ fd then [Function.update w fd ⟨0, false⟩] else []
  | .connectRestart =>
      if ∀ n ∈ s.procs, n.2.fd ≠ fd then [Function.update w fd ⟨msg.epoch, false⟩] else []
  | .atforkChild =>
      if ∀ n ∈ s.procs, n.2.realPid ≠ msg.realPpid then [w]
      else if ∀ n ∈ s.procs, n.2.fd ≠ fd then
        (parents s w msg.realPpid).map (Function.update w fd)
      else []
  | .ckptReady => if (w fd).resuming = true then [] else [w]
  | _ => [w]

/-- The environment of the coordinator; a client that is resuming may count at any time. -/
def env : Env CoordCall.Answer CoordInfo Int Clients where
  respond s w
    | .recv fd, some msg => received s w fd msg
    | .send fd msg, true =>
        if msg.hdr = .resumeAfterCkpt then [Function.update w fd { w fd with resuming := true }]
        else [w]
    | _, _ => [w]
  move fd w :=
    if (w fd).resuming = true then some (Function.update w fd ⟨(w fd).epoch + 1, false⟩) else none

theorem move_eq_some {fd : Int} {w w' : Clients} (h : env.move fd w = some w') :
    (w fd).resuming = true ∧ w' = Function.update w fd ⟨(w fd).epoch + 1, false⟩ := by
  obtain ⟨hr, he⟩ := Option.ite_none_right_eq_some.mp h
  exact ⟨hr, (Option.some.inj he).symm⟩

/-- No image has an epoch yet. -/
def init : Clients := fun _ => ⟨0, false⟩

end Clients

/-- **The condition** on a message that arrives.  An image that was executed registers
again only in epoch 0, and a restarted one reports the epoch of the coordinator, unless
it is the first. -/
def Current (s : CoordInfo) (msg : XndMsg) : Prop :=
  (msg.hdr = .connectLaunch → s.table.realIdExists msg.realPid = true → s.epoch = 0) ∧
  (msg.hdr = .connectRestart → s.procs ≠ [] → msg.epoch = s.epoch)

instance (s : CoordInfo) (msg : XndMsg) : Decidable (Current s msg) :=
  inferInstanceAs (Decidable (_ ∧ _))

def AllCurrent (s : CoordInfo) (_ : Clients) (c : CoordCall) (r : c.Answer) : Prop :=
  ∀ m ∈ c.received r, Current s m.2

instance (s : CoordInfo) (w : Clients) (c : CoordCall) (r : c.Answer) :
    Decidable (AllCurrent s w c r) :=
  inferInstanceAs (Decidable (∀ m ∈ c.received r, Current s m.2))

/-- The states of a process that has answered the request of the current round. -/
def ProcState.answered : ProcState → Bool
  | .readyForCkpt | .ckptInProgress | .ckptComplete => true
  | _ => false

/-! ## The invariant -/

/-- The client of `a` counts up to `e`, and has if it is in a round. -/
structure Follows (e : Nat) (w : Clients) (a : Proc) : Prop where
  due : (w a.fd).due = e
  answered : a.state.answered = true → (w a.fd).resuming = false

/-- **The invariant of epochs.** -/
structure Epochs (s : CoordInfo) (w : Clients) : Prop where
  ok : ListOk s
  follows : ∀ n ∈ s.procs, Follows s.epoch w n.2

/-- What it says of the processes that are in a round. -/
def Agrees (s : CoordInfo) (w : Clients) : Prop :=
  ∀ n ∈ s.procs, n.2.state.answered = true → w n.2.fd = ⟨s.epoch, false⟩

namespace Follows
variable {e : Nat} {w w' : Clients} {a b : Proc}

theorem client_eq (h : Follows e w a) (ha : a.state.answered = true) : w a.fd = ⟨e, false⟩ := by
  have hr := h.answered ha
  have hdue := h.due
  rw [Client.due, hr] at hdue
  exact Client.ext hdue hr

theorem congr (h : Follows e w a) (hfd : w' b.fd = w a.fd)
    (hstate : b.state.answered = true → a.state.answered = true) : Follows e w' b where
  due := by rw [hfd]; exact h.due
  answered hb := by rw [hfd]; exact h.answered (hstate hb)

/-- When a client counts, it is not in a round. -/
theorem move (h : Follows e w a) {fd : Int} (hm : Clients.env.move fd w = some w') :
    Follows e w' a := by
  obtain ⟨hr, rfl⟩ := Clients.move_eq_some hm
  by_cases hfd : a.fd = fd
  · subst hfd
    have hdue := h.due
    rw [Client.due, if_pos hr] at hdue
    constructor
    · rw [Function.update_self]
      exact hdue
    · rw [Function.update_self]
      exact fun _ => rfl
  · exact h.congr (Function.update_of_ne hfd _ _) id

end Follows

theorem move_of_settled {w w' : Clients} {fd x : Int} (hx : (w x).resuming = false)
    (hm : Clients.env.move fd w = some w') : w' x = w x := by
  obtain ⟨hr, rfl⟩ := Clients.move_eq_some hm
  refine Function.update_of_ne (fun he => ?_) _ _
  rw [he, hr] at hx
  cases hx

theorem Agrees.move {s : CoordInfo} {w w' : Clients} (h : Agrees s w) {fd : Int}
    (hm : Clients.env.move fd w = some w') : Agrees s w' := fun n hn ha => by
  have hc := h n hn ha
  rw [move_of_settled (by rw [hc]) hm, hc]

namespace Epochs
variable {s s' : CoordInfo} {w w' : Clients}

theorem agrees (h : Epochs s w) : Agrees s w := fun n hn ha => (h.follows n hn).client_eq ha

theorem congr (h : Epochs s w) (hp : s'.procs = s.procs) (hb : s'.brk = s.brk)
    (he : s'.epoch = s.epoch) : Epochs s' w where
  ok := h.ok.congr hp hb
  follows n hn := by rw [he]; exact h.follows n (hp ▸ hn)

theorem move (h : Epochs s w) {fd : Int} (hm : Clients.env.move fd w = some w') : Epochs s w' :=
  ⟨h.ok, fun n hn => (h.follows n hn).move hm⟩

/-- The clients of listed processes are left as they are. -/
theorem frame (h : Epochs s w) (hw : ∀ n ∈ s.procs, w' n.2.fd = w n.2.fd) : Epochs s w' :=
  ⟨h.ok, fun n hn => (h.follows n hn).congr (hw n hn) id⟩

theorem mapProcs (h : Epochs s w) {g : Nat × Proc → Nat × Proc}
    (hg : ∀ n, (g n).1 = n.1 ∧ (g n).2.fd = n.2.fd)
    (hstate : ∀ n ∈ s.procs, (g n).2.state.answered = true →
      n.2.state.answered = true ∨ (w n.2.fd).resuming = false) :
    Epochs { s with procs := s.procs.map g } w := by
  refine ⟨h.ok.mapProcs hg, fun n hn => ?_⟩
  obtain ⟨m, hm, rfl⟩ := List.mem_map.mp hn
  have hf := h.follows m hm
  constructor
  · rw [(hg m).2]
    exact hf.due
  · intro ha
    rw [(hg m).2]
    rcases hstate m hm ha with ha | hr
    · exact hf.answered ha
    · exact hr

/-- A change of a state that is not into a round. -/
theorem setState (h : Epochs s w) {p : Nat} {st : ProcState}
    (hst : ∀ a, (p, a) ∈ s.procs → st.answered = true → (w a.fd).resuming = false) :
    Epochs (s.setProc p fun a => { a with state := st }) w := by
  refine h.mapProcs (fun n => ?_) fun n hn ha => ?_
  · split
    · exact ⟨rfl, rfl⟩
    · exact ⟨rfl, rfl⟩
  · split at ha
    · rename_i hp
      exact .inr (hst n.2 (hp ▸ hn) ha)
    · exact .inl ha

end Epochs

/-! ## The steps -/

abbrev epochsWorld : World CoordCall.Answer CoordInfo Clients := Clients.env.world AllCurrent

abbrev EpochsWp {α : Type} (m : InfoM α) (s : CoordInfo) (w : Clients)
    (fin : CoordInfo → α → Clients → Prop) : Prop :=
  Wp epochsWorld Agrees (fun s _ w => Agrees s w) m s w fin

abbrev KeepsEpochs {α : Type} (m : InfoM α) : Prop :=
  Keeps (𝒲 := epochsWorld) Agrees (fun s _ w => Agrees s w) Epochs m

/-- The calls that tell a client to resume. -/
def CoordCall.resumes : CoordCall → Bool
  | .send _ msg => msg.hdr = .resumeAfterCkpt
  | _ => false

/-- What a message says concerns a client that is not listed. -/
theorem received_listed {s : CoordInfo} {w w' : Clients} {fd : Int} {msg : XndMsg}
    (h : w' ∈ Clients.received s w fd msg) {n : Nat × Proc} (hn : n ∈ s.procs) :
    w' n.2.fd = w n.2.fd := by
  have update : ∀ {c : Client}, (∀ n ∈ s.procs, n.2.fd ≠ fd) →
      Function.update w fd c n.2.fd = w n.2.fd := fun hfree => Function.update_of_ne (hfree n hn) _ _
  unfold Clients.received at h
  split at h
  · obtain ⟨hfree, hw⟩ := List.mem_ite_nil_right.mp h
    rw [List.mem_singleton.mp hw]
    exact update hfree
  · obtain ⟨hfree, hw⟩ := List.mem_ite_nil_right.mp h
    rw [List.mem_singleton.mp hw]
    exact update hfree
  · split at h
    · rw [List.mem_singleton.mp h]
    · obtain ⟨hfree, hw⟩ := List.mem_ite_nil_right.mp h
      obtain ⟨c, -, rfl⟩ := List.mem_map.mp hw
      exact update hfree
  · rw [List.mem_singleton.mp (List.mem_ite_nil_left.mp h).2]
  · rw [List.mem_singleton.mp h]

theorem respond_listed {s : CoordInfo} {w w' : Clients} {c : CoordCall} {r : c.Answer}
    (hc : c.resumes = false) (h : w' ∈ Clients.env.respond s w c r) {n : Nat × Proc}
    (hn : n ∈ s.procs) : w' n.2.fd = w n.2.fd := by
  simp only [Clients.env] at h
  split at h
  · exact received_listed h hn
  · rename_i fd msg
    have hmsg : ¬ msg.hdr = .resumeAfterCkpt := by simpa [CoordCall.resumes] using hc
    rw [if_neg hmsg] at h
    rw [List.mem_singleton.mp h]
  · rw [List.mem_singleton.mp h]

theorem keepsEpochs_call {c : CoordCall} (hc : c.resumes = false) : KeepsEpochs (Code.call c) :=
  Clients.env.keeps_call (fun _ _ h => h.agrees) (fun _ _ _ _ h hm => h.move hm)
    fun _ _ _ _ h _ hw => h.frame fun _ hn => respond_listed hc hw hn

theorem calm_epochs : Calm epochsWorld Agrees (fun s _ w => Agrees s w) Epochs where
  stop _ _ _ h _ := h.agrees
  call c hc := keepsEpochs_call <| by
    unfold CoordCall.resumes
    split
    · simp only [CoordCall.neutral, decide_eq_true_eq] at hc
      rcases hc with h | h | h <;> rw [h] <;> rfl
    · rfl

theorem keepsEpochs_listRemove (p : Nat) : KeepsEpochs (listRemove p) := by
  have close : ∀ fd, KeepsEpochs (closeIfOpen fd) := fun fd =>
    Keeps.ite (fun _ => keepsEpochs_call rfl) fun _ => Keeps.pure ()
  refine Keeps.bind (calm_epochs.listProc p) fun a => Keeps.bind (Keeps.modify ?_) fun _ => ?_
  · exact fun s w h =>
      ⟨h.ok.sublist List.filter_sublist rfl, fun n hn => h.follows n (List.mem_filter.mp hn).1⟩
  · refine Keeps.bind (close a.fd) fun _ => Keeps.bind (close a.oobFd) fun _ => ?_
    exact Keeps.modify fun s w h => h.congr rfl rfl rfl

/-- A process is asked, and one that answers has counted. -/
theorem epochsWp_requestReady {s : CoordInfo} {w : Clients} (h : Epochs s w) {p : Nat} {a : Proc}
    (ha : s.proc p = some a) : EpochsWp (requestReady p a) s w fun s' _ w' => Epochs s' w' := by
  unfold requestReady
  split
  · refine (keepsEpochs_call rfl s w h).bind fun s (sent : Bool) w h => ?_
    refine Wp.ite (fun _ => Wp.modify_bind (Wp.pure ?_)) fun _ => Wp.pure h
    exact h.setState fun _ _ hst => by cases hst
  · refine Wp.bind (M := fun s' resp w' => s' = s ∧ Epochs s w' ∧
      ∀ msg, resp = some msg → msg.hdr = .ckptReady → (w' a.fd).resuming = false) ?_ ?_
    · refine Clients.env.wp_call (Epochs s) (fun w m w' h hm => h.move hm) h
        (fun _ h => h.agrees) fun w r w' h _ hw => ?_
      refine ⟨rfl, h.frame fun n hn => respond_listed rfl hw hn, ?_⟩
      rintro msg rfl hready
      simp only [Clients.env, Clients.received, hready] at hw
      obtain ⟨hr, hw⟩ := List.mem_ite_nil_left.mp hw
      rw [List.mem_singleton.mp hw]
      exact (Bool.not_eq_true _).mp hr
    · rintro s resp w ⟨rfl, h, hready⟩
      cases resp with
      | none => exact Wp.pure h
      | some msg =>
          refine Wp.ite (fun hm => Wp.modify_bind (Wp.pure ?_)) fun _ => Wp.pure h
          refine h.setState fun b hb _ => ?_
          obtain rfl := h.ok.eq_of_proc hb ha
          exact hready msg rfl hm
  · exact Wp.pure h
  · exact Wp.pure h

theorem keepsEpochs_suspendTurn (p : Nat) (n : Nat × Nat) : KeepsEpochs (suspendTurn p n) := by
  intro s w h
  refine Wp.bind (M := fun s' a w' => s' = s ∧ w' = w ∧ s.proc p = some a)
    (wp_listProc (fun _ => h.agrees) fun a ha => ⟨rfl, rfl, ha⟩) ?_
  rintro s a w ⟨rfl, rfl, ha⟩
  refine (epochsWp_requestReady h ha).bind fun s ready w h => ?_
  have removal : KeepsEpochs (sysProbe a.realPid >>= fun gone =>
      if gone = true then do listRemove p; pure (n.1, n.2 + ready)
      else pure (n.1 + 1, n.2 + ready)) :=
    Keeps.bind (calm_epochs.probe _) fun gone => Keeps.ite
      (fun _ => Keeps.bind (keepsEpochs_listRemove p) fun _ => Keeps.pure _) fun _ => Keeps.pure _
  exact removal s w h

/-- A process that is done was in the round before. -/
theorem keepsEpochs_completionTurn (p total : Nat) :
    KeepsEpochs (listProc p >>= fun a => completionTurn p a total) := by
  intro s w h
  refine Wp.bind (M := fun s' a w' => s' = s ∧ w' = w ∧ s.proc p = some a)
    (wp_listProc (fun _ => h.agrees) fun a ha => ⟨rfl, rfl, ha⟩) ?_
  rintro s a w ⟨rfl, rfl, ha⟩
  refine Wp.bind (M := fun s' _ w' => s' = s ∧ w' = w ∧ a.state = .ckptInProgress)
    (Wp.ite (fun hst => Wp.pure ⟨rfl, rfl, hst⟩) fun _ => Wp.halt h.agrees) ?_
  rintro s _ w ⟨rfl, rfl, hst⟩
  refine Wp.bind (M := fun s' _ w' => s' = s ∧ Epochs s w') ?_ ?_
  · exact Clients.env.wp_call (Epochs s) (fun w m w' h hm => h.move hm) h (fun _ h => h.agrees)
      fun w r w' h _ hw => ⟨rfl, h.frame fun n hn => respond_listed rfl hw hn⟩
  · rintro s msg w ⟨rfl, h⟩
    cases msg with
    | none => exact Wp.pure h
    | some msg =>
        refine Wp.ite (fun _ => Wp.modify_bind (Wp.pure ?_)) fun _ => Wp.pure h
        refine h.setState fun b hb _ => ?_
        obtain rfl := h.ok.eq_of_proc hb ha
        exact (h.follows _ hb).answered (by rw [hst]; rfl)

/-! ### Barriers -/

/-- The epoch a client is to have when it has been released. -/
def BarrierType.due (type : BarrierType) (epoch : Nat) : Nat :=
  if type = .postckpt then epoch + 1 else epoch

/-- The nodes `as` have been released, `rest` are to come. -/
structure Releasing (type : BarrierType) (as rest : List (Nat × Proc)) (s : CoordInfo)
    (w : Clients) : Prop where
  ok : ListOk s
  split : s.procs = as ++ rest
  released : ∀ n ∈ as, n.2.state = type.next ∧ Follows (type.due s.epoch) w n.2
  left : ∀ n ∈ rest, Follows s.epoch w n.2

namespace Releasing
variable {type : BarrierType} {as rest : List (Nat × Proc)} {s : CoordInfo} {w w' : Clients}

/-- A process that is released into a round stays in the epoch. -/
theorem agrees (h : Releasing type as rest s w) : Agrees s w := by
  intro n hn ha
  rw [h.split] at hn
  rcases List.mem_append.mp hn with hn | hn
  · obtain ⟨hst, hf⟩ := h.released n hn
    cases type with
    | preckpt => exact hf.client_eq ha
    | postckpt => rw [hst] at ha; cases ha
    | postrestart => exact hf.client_eq ha
  · exact (h.left n hn).client_eq ha

theorem move (h : Releasing type as rest s w) {fd : Int} (hm : Clients.env.move fd w = some w') :
    Releasing type as rest s w' :=
  ⟨h.ok, h.split, fun n hn => ⟨(h.released n hn).1, (h.released n hn).2.move hm⟩,
    fun n hn => (h.left n hn).move hm⟩

/-- Unless clients were told to resume, all of them are still in the epoch. -/
theorem epochs (h : Releasing type as rest s w) (htype : type ≠ .postckpt) : Epochs s w := by
  refine ⟨h.ok, fun n hn => ?_⟩
  rw [h.split] at hn
  rcases List.mem_append.mp hn with hn | hn
  · have hf := (h.released n hn).2
    rw [BarrierType.due, if_neg htype] at hf
    exact hf
  · exact h.left n hn

/-- One more process is released. -/
theorem next {p : Nat} {a : Proc} (h : Releasing type as ((p, a) :: rest) s w)
    (ha : Follows (type.due s.epoch) w' { a with state := type.next })
    (hw : ∀ n ∈ s.procs, n.2.fd ≠ a.fd → w' n.2.fd = w n.2.fd) :
    Releasing type (as ++ [(p, { a with state := type.next })]) rest
      (s.setProc p fun a => { a with state := type.next }) w' := by
  have hfds := h.ok.fds
  rw [h.split, List.map_append, List.map_cons, List.nodup_middle, List.nodup_cons,
    ← List.map_append] at hfds
  have other : ∀ n ∈ as ++ rest, w' n.2.fd = w n.2.fd := by
    intro n hn
    refine hw n ?_ fun he => hfds.1 (he ▸ List.mem_map_of_mem hn)
    rw [h.split]
    exact List.mem_append.mpr ((List.mem_append.mp hn).imp_right (List.mem_cons_of_mem _))
  refine ⟨h.ok.setProc fun _ => rfl, ?_, fun n hn => ?_, fun n hn => ?_⟩
  · rw [h.ok.setProc_eq h.split, List.append_assoc, List.singleton_append]
  · rcases List.mem_append.mp hn with hn | hn
    · obtain ⟨hst, hf⟩ := h.released n hn
      exact ⟨hst, hf.congr (other n (List.mem_append_left _ hn)) id⟩
    · obtain rfl := List.mem_singleton.mp hn
      exact ⟨rfl, ha⟩
  · exact (h.left n (List.mem_cons_of_mem _ hn)).congr (other n (List.mem_append_right _ hn)) id

end Releasing

/-- What the message of a barrier makes of its receiver. -/
theorem Follows.release {type : BarrierType} {s : CoordInfo} {w w' : Clients} {a : Proc}
    (h : Follows s.epoch w a) (hst : a.state = type.expected) {n : Nat}
    (hw : w' ∈ Clients.env.respond s w (.send a.fd (releaseMsg type n a)) true) :
    Follows (type.due s.epoch) w' { a with state := type.next } ∧
      ∀ fd, fd ≠ a.fd → w' fd = w fd := by
  cases type with
  | postckpt =>
      have hc : w a.fd = ⟨s.epoch, false⟩ := h.client_eq (by rw [hst]; rfl)
      obtain rfl := List.mem_singleton.mp hw
      refine ⟨⟨?_, nofun⟩, fun fd hfd => Function.update_of_ne hfd _ _⟩
      show (Function.update w a.fd _ a.fd).due = _
      rw [Function.update_self, hc]
      rfl
  | preckpt =>
      obtain rfl := List.mem_singleton.mp hw
      exact ⟨h.congr rfl fun _ => by rw [hst]; rfl, fun _ _ => rfl⟩
  | postrestart =>
      obtain rfl := List.mem_singleton.mp hw
      exact ⟨h.congr rfl nofun, fun _ _ => rfl⟩

theorem epochsWp_releaseLoop {type : BarrierType} {as rest : List (Nat × Proc)} {s : CoordInfo}
    {w : Clients} (h : Releasing type as rest s w) :
    EpochsWp (releaseLoop type (rest.map Prod.fst)) s w fun s' sent w' =>
      ∃ as' rest', Releasing type as' rest' s' w' ∧ (sent = true → rest' = []) := by
  induction rest generalizing as s w with
  | nil => exact Wp.pure ⟨as, [], h, fun _ => rfl⟩
  | cons n rest ih =>
      obtain ⟨p, a⟩ := n
      refine (h.ok.wp_listProc h.split).bind ?_
      rintro s a w ⟨rfl, rfl, rfl⟩
      refine Wp.bind (M := fun s' _ w' => s' = s ∧ w' = w ∧ a.state = type.expected)
        (Wp.ite (fun hst => Wp.pure ⟨rfl, rfl, hst⟩) fun _ => Wp.halt h.agrees) ?_
      rintro s _ w ⟨rfl, rfl, hst⟩
      refine Wp.get_bind (Wp.bind (M := fun s' (sent : Bool) w' => s' = s ∧
        if sent = true then Releasing type (as ++ [(p, { a with state := type.next })]) rest
          (s.setProc p fun a => { a with state := type.next }) w'
        else Releasing type as ((p, a) :: rest) s w') ?_ ?_)
      · refine Clients.env.wp_call (Releasing type as ((p, a) :: rest) s)
          (fun w m w' h hm => h.move hm) h (fun _ h => h.agrees) ?_
        rintro w (_ | _) w' h - hw
        · obtain rfl := List.mem_singleton.mp hw
          exact ⟨rfl, h⟩
        · obtain ⟨ha, hother⟩ := (h.left _ (List.mem_cons_self ..)).release hst hw
          exact ⟨rfl, h.next ha fun n _ hne => hother n.2.fd hne⟩
      · rintro s sent w ⟨rfl, h⟩
        cases sent with
        | true => exact Wp.modify_bind (ih h)
        | false => exact Wp.pure ⟨as, (p, a) :: rest, h, nofun⟩

theorem epochsWp_coordReleaseBarrier {s : CoordInfo} {w : Clients} (h : Epochs s w)
    (type : BarrierType) :
    EpochsWp (coordReleaseBarrier type) s w fun s' sent w' =>
      ∃ as' rest', Releasing type as' rest' s' w' ∧ (sent = true → rest' = []) := by
  have start : Releasing type [] s.procs s w :=
    ⟨h.ok, rfl, fun _ hn => absurd hn List.not_mem_nil, h.follows⟩
  exact Wp.get_bind (epochsWp_releaseLoop start)

/-- When the pre-checkpoint barrier has been released, every listed process has been sent
the start, and its client is in the epoch. -/
theorem epochsWp_release_preckpt {s : CoordInfo} {w : Clients} (h : Epochs s w) :
    EpochsWp (coordReleaseBarrier .preckpt) s w fun s' released w' => released = true →
      ∀ n ∈ s'.procs, n.2.state = .ckptInProgress ∧ (w' n.2.fd).epoch = s'.epoch := by
  refine (epochsWp_coordReleaseBarrier h .preckpt).mono ?_
  rintro s' released w' ⟨as, rest, h, hall⟩ hreleased n hn
  obtain rfl := hall hreleased
  rw [h.split, List.append_nil] at hn
  obtain ⟨hst, hf⟩ := h.released n hn
  exact ⟨hst, congrArg Client.epoch (hf.client_eq (by rw [hst]; rfl))⟩

theorem turns_epochs : Turns epochsWorld Agrees (fun s _ w => Agrees s w) Epochs where
  toCalm := calm_epochs
  prepare := calm_epochs.routine.prepareTurn keepsEpochs_listRemove
  suspend := keepsEpochs_suspendTurn
  complete := keepsEpochs_completionTurn
  filter := calm_epochs.routine.filterTurn keepsEpochs_listRemove
  serve := calm_epochs.serveProc keepsEpochs_listRemove
  resume _ _ h := (epochsWp_coordReleaseBarrier h .postrestart).mono fun _ _ _ ⟨_, _, h, _⟩ =>
    h.epochs nofun

/-! ### Rounds -/

/-- After the last resume message, the coordinator is one behind. -/
structure Past (s : CoordInfo) (w : Clients) : Prop where
  ok : ListOk s
  running : ∀ n ∈ s.procs, n.2.state = .running ∧ Follows (s.epoch + 1) w n.2

theorem Past.agrees {s : CoordInfo} {w : Clients} (h : Past s w) : Agrees s w := fun n hn ha => by
  rw [(h.running n hn).1] at ha
  cases ha

abbrev KeepsPast {α : Type} (m : InfoM α) : Prop :=
  Keeps (𝒲 := epochsWorld) Agrees (fun s _ w => Agrees s w) Past m

theorem keepsPast_call {c : CoordCall} (hc : c.resumes = false) :
    KeepsPast (Code.call c : InfoM c.Answer) := by
  refine Clients.env.keeps_call (fun _ _ h => h.agrees) (fun s w m w' h hm => ?_)
    fun s w r w' h _ hw => ?_
  · exact ⟨h.ok, fun n hn => ⟨(h.running n hn).1, (h.running n hn).2.move hm⟩⟩
  · refine ⟨h.ok, fun n hn => ⟨(h.running n hn).1, (h.running n hn).2.congr ?_ id⟩⟩
    exact respond_listed hc hw hn

/-- An assertion of the code changes nothing. -/
theorem epochsWp_assert {s : CoordInfo} {w : Clients} (h : Agrees s w) (failed : CoordAssertion)
    (b : Prop) [Decidable b] :
    EpochsWp (xndAssert failed b) s w fun s' _ w' => s' = s ∧ w' = w ∧ b :=
  Wp.ite (fun hb => Wp.pure ⟨rfl, rfl, hb⟩) fun _ => Wp.halt h

theorem CoordCall.resumes_file {c : CoordCall} (hc : c.file = true) : c.resumes = false := by
  unfold resumes
  split
  · cases hc
  · rfl

theorem keepsEpochs_file (c : CoordCall) (hc : c.file = true) : KeepsEpochs (Code.call c) :=
  keepsEpochs_call (CoordCall.resumes_file hc)

/-- **A round** keeps the epochs, from the release of the clients to their resumption. -/
theorem keepsEpochs_coordRunRound (epoch fuel : Nat) : KeepsEpochs (coordRunRound epoch fuel) := by
  have U := turns_epochs
  have hpeers : KeepsEpochs (Code.modify fun s => { s with numPeers := s.procs.length }) :=
    Keeps.modify fun s w h => h.congr rfl rfl rfl
  have hroots : KeepsEpochs coordDetermineRoots :=
    Keeps.modify fun s w h => h.mapProcs (fun _ => ⟨rfl, rfl⟩) fun _ _ ha => .inl ha
  refine Keeps.bind hpeers fun _ => Keeps.bind hroots fun _ => ?_
  refine Keeps.bind (U.coordCollectivePrepare _ fuel) fun total => Keeps.bind Keeps.get fun s => ?_
  refine Keeps.bind (U.xndAssert _ _) fun _ => ?_
  intro s w h
  refine (epochsWp_coordReleaseBarrier h .preckpt).bind ?_
  rintro s released w ⟨as, rest, h, -⟩
  refine (epochsWp_assert h.agrees _ _).bind ?_
  rintro s _ w ⟨rfl, rfl, -⟩
  refine (U.coordWaitForCkptCompletions fuel s w (h.epochs nofun)).bind fun s _ w h => ?_
  refine (U.coordWriteCkptManifest keepsEpochs_file s w h).bind fun s _ w h => ?_
  refine (epochsWp_coordReleaseBarrier h .postckpt).bind ?_
  rintro s resumed w ⟨as, rest, h, hall⟩
  refine (epochsWp_assert h.agrees _ _).bind ?_
  rintro s _ w ⟨rfl, rfl, hresumed⟩
  obtain rfl := hall hresumed
  have past : Past s w := ⟨h.ok, fun n hn => h.released n (by rwa [h.split, List.append_nil] at hn)⟩
  have unlink : KeepsPast (unlinkPrevious epoch) :=
    Turns.unlinkPrevious (fun _ hc => keepsPast_call (CoordCall.resumes_file hc)) epoch
  refine (unlink s w past).bind fun s _ w h => Wp.modify ?_
  exact ⟨h.ok.congr rfl rfl, fun n hn => (h.running n hn).2⟩

theorem keepsEpochs_coordDoCheckpoint (fuel : Nat) : KeepsEpochs (coordDoCheckpoint fuel) :=
  turns_epochs.coordDoCheckpoint_of_round keepsEpochs_file (fun _ => keepsEpochs_call rfl)
    fun epoch => keepsEpochs_coordRunRound epoch fuel

/-! ### Registration -/

/-- A client that has arrived on a free descriptor and is in the epoch. -/
structure Newcomer (fd : Int) (s : CoordInfo) (w : Clients) : Prop where
  ok : Epochs s w
  free : ∀ n ∈ s.procs, n.2.fd ≠ fd
  client : w fd = ⟨s.epoch, false⟩

namespace Newcomer
variable {fd : Int} {s s' : CoordInfo} {w w' : Clients}

theorem congr (h : Newcomer fd s w) (hp : s'.procs = s.procs) (hb : s'.brk = s.brk)
    (he : s'.epoch = s.epoch) : Newcomer fd s' w :=
  ⟨h.ok.congr hp hb he, hp ▸ h.free, he ▸ h.client⟩

theorem move (h : Newcomer fd s w) {x : Int} (hm : Clients.env.move x w = some w') :
    Newcomer fd s w' := by
  refine ⟨h.ok.move hm, h.free, ?_⟩
  rw [move_of_settled (by rw [h.client]) hm, h.client]

/-- The newcomer is listed. -/
theorem push (h : Newcomer fd s w) {a : Proc} (hfd : a.fd = fd)
    (hstate : a.state.answered = false) : Epochs (s.push a) w := by
  subst hfd
  refine ⟨h.ok.ok.push h.free, List.forall_mem_cons.mpr ⟨⟨?_, fun ha => ?_⟩, h.ok.follows⟩⟩
  · rw [h.client]
    rfl
  · rw [hstate] at ha
    cases ha

/-- A listed process is given the descriptor of the newcomer. -/
theorem setFd (h : Newcomer fd s w) (p : Nat) :
    Epochs (s.setProc p fun a => { a with fd := fd }) w := by
  refine ⟨h.ok.ok.setFd h.free, fun n hn => ?_⟩
  obtain ⟨m, hm, rfl⟩ := List.mem_map.mp hn
  split
  · constructor
    · show (w fd).due = _
      rw [h.client]
      rfl
    · intro _
      show (w fd).resuming = false
      rw [h.client]
  · exact h.ok.follows m hm

end Newcomer

abbrev KeepsNewcomer (fd : Int) {α : Type} (m : InfoM α) : Prop :=
  Keeps (𝒲 := epochsWorld) Agrees (fun s _ w => Agrees s w) (Newcomer fd) m

/-- Only what arrives on the descriptor of the newcomer says anything about it. -/
theorem keepsNewcomer_call {fd : Int} {c : CoordCall} (hc : c.resumes = false)
    (hrecv : ∀ x, c ≠ .recv x) : KeepsNewcomer fd (Code.call c) := by
  refine Clients.env.keeps_call (fun _ _ h => h.ok.agrees) (fun s w m w' h hm => h.move hm)
    fun s w r w' h _ hw => ?_
  have hsame : w' = w := by
    simp only [Clients.env] at hw
    split at hw
    · exact absurd rfl (hrecv _)
    · rw [if_neg (by simpa [CoordCall.resumes] using hc)] at hw
      exact List.mem_singleton.mp hw
    · exact List.mem_singleton.mp hw
  exact hsame ▸ h

/-- What the answer to a newcomer keeps. -/
theorem keepsNewcomer_ack {fd x : Int} {msg : XndMsg} (h : msg.hdr = .coordAck) :
    KeepsNewcomer fd (coordSendMsg x msg) :=
  keepsNewcomer_call (by simp [CoordCall.resumes, h]) nofun

theorem keepsNewcomer_coordSendHandshake {fd : Int} (a : Proc) :
    KeepsNewcomer fd (coordSendHandshake a) := by
  refine Keeps.bind Keeps.get fun s => Keeps.bind (keepsNewcomer_ack rfl) fun sent => ?_
  exact Keeps.ite (fun _ => Keeps.pure ()) fun _ => Keeps.halt fun _ _ h => h.ok.agrees

theorem epochsWp_registerProc {s : CoordInfo} {w : Clients} {a : Proc} (h : Newcomer a.fd s w)
    (hstate : a.state.answered = false) :
    EpochsWp (registerProc a) s w fun s' _ w' => Epochs s' w' := by
  refine (keepsNewcomer_coordSendHandshake a s w h).bind fun s _ w h => ?_
  have table : Newcomer a.fd { s with
      table := (s.table.update a.virtPid a.realPid).update a.virtPpid a.realPpid } w :=
    h.congr rfl rfl rfl
  exact Wp.modify_bind (Wp.modify (table.push rfl hstate))

/-- What is known of a message that has arrived and of its sender. -/
structure Arrived (fd : Int) (msg : XndMsg) (s : CoordInfo) (w : Clients) : Prop where
  current : Current s msg
  launch : msg.hdr = .connectLaunch → (∀ n ∈ s.procs, n.2.fd ≠ fd) ∧ w fd = ⟨0, false⟩
  restart : msg.hdr = .connectRestart → (∀ n ∈ s.procs, n.2.fd ≠ fd) ∧ w fd = ⟨msg.epoch, false⟩
  child : msg.hdr = .atforkChild → (∃ n ∈ s.procs, n.2.realPid = msg.realPpid) → Newcomer fd s w

theorem arrived_of_received {s : CoordInfo} {w w' : Clients} {fd : Int} {msg : XndMsg}
    (h : Epochs s w) (hc : Current s msg) (hw : w' ∈ Clients.received s w fd msg) :
    Arrived fd msg s w' := by
  have h' : Epochs s w' := h.frame fun n hn => received_listed hw hn
  unfold Clients.received at hw
  refine ⟨hc, fun hm => ?_, fun hm => ?_, fun hm hparent => ?_⟩
  · rw [hm] at hw
    obtain ⟨hfree, hw⟩ := List.mem_ite_nil_right.mp hw
    rw [List.mem_singleton.mp hw]
    exact ⟨hfree, Function.update_self ..⟩
  · rw [hm] at hw
    obtain ⟨hfree, hw⟩ := List.mem_ite_nil_right.mp hw
    rw [List.mem_singleton.mp hw]
    exact ⟨hfree, Function.update_self ..⟩
  · have hsome : ¬ ∀ n ∈ s.procs, n.2.realPid ≠ msg.realPpid := fun hall =>
      hparent.elim fun n hn => hall n hn.1 hn.2
    simp only [hm, if_neg hsome] at hw
    obtain ⟨hfree, hw⟩ := List.mem_ite_nil_right.mp hw
    obtain ⟨c, hc, rfl⟩ := List.mem_map.mp hw
    obtain ⟨hc, hsettled⟩ := List.mem_filter.mp hc
    obtain ⟨n, hn, rfl⟩ := List.mem_map.mp hc
    refine ⟨h', hfree, ?_⟩
    -- The parent was not in a round, so its epoch is the one of the coordinator.
    have hsettled : (w n.2.fd).resuming = false := by simpa using hsettled
    have hdue := (h.follows n (List.mem_filter.mp hn).1).due
    rw [Client.due, hsettled] at hdue
    rw [Function.update_self]
    exact Client.ext hdue hsettled

theorem epochsWp_coordRecvMsg {s : CoordInfo} {w : Clients} (h : Epochs s w) (fd : Int) :
    EpochsWp (coordRecvMsg fd) s w fun s' r w' =>
      s' = s ∧ Epochs s w' ∧ ∀ msg, r = some msg → Arrived fd msg s w' := by
  refine Clients.env.wp_call (Epochs s) (fun w m w' h hm => h.move hm) h (fun _ h => h.agrees) ?_
  intro w r w' h hok hw
  refine ⟨rfl, h.frame fun n hn => respond_listed rfl hw hn, ?_⟩
  rintro msg rfl
  exact arrived_of_received h (hok (fd, msg) rfl) hw

theorem epochs_ids : ∀ s s' w, Epochs s w → s'.procs = s.procs → s'.brk = s.brk →
    s'.epoch = s.epoch → Epochs s' w := fun _ _ _ h => h.congr

theorem epochsWp_coordConnectWithProcessOnLaunch {s : CoordInfo} {w : Clients} (h : Epochs s w)
    {fd : Int} {msg : XndMsg} (hl : msg.hdr = .connectLaunch) (ha : Arrived fd msg s w) :
    EpochsWp (coordConnectWithProcessOnLaunch fd msg) s w fun s' _ w' => Epochs s' w' := by
  obtain ⟨hfree, hclient⟩ := ha.launch hl
  refine Wp.get_bind (Wp.ite (fun hexists => ?_) fun _ => ?_)
  · have hnew : Newcomer fd s w := ⟨h, hfree, by rw [hclient, ha.current.1 hl hexists]⟩
    cases s.find (·.realPid = msg.realPid) with
    | none => exact Wp.halt h.agrees
    | some n =>
        have hclose : EpochsWp (sysClose n.2.fd) s w fun s' _ w' => s' = s ∧ Newcomer fd s w' := by
          refine Clients.env.wp_call (Newcomer fd s) (fun w m w' h hm => h.move hm) hnew
            (fun _ h => h.ok.agrees) fun w r w' h _ hw => ?_
          obtain rfl := List.mem_singleton.mp hw
          exact ⟨rfl, h⟩
        refine hclose.bind ?_
        rintro s _ w ⟨rfl, hnew⟩
        exact Wp.modify_bind (calm_epochs.coordSendHandshake _ _ w (hnew.setFd n.1))
  · refine (epochsWp_assert h.agrees _ _).bind ?_
    rintro s _ w ⟨rfl, rfl, hzero⟩
    have hnew : Newcomer fd s w := ⟨h, hfree, by rw [hclient, hzero]⟩
    have ids : KeepsNewcomer fd (launchIds fd msg) :=
      Calm.launchIds (fun _ _ _ h => h.congr) (fun _ _ _ h => h.ok.agrees) fd msg
    refine ((ids s w hnew).and_rets (rets_launchIds s fd msg)).bind ?_
    rintro s a w ⟨hnew, rfl, -, -, hstate⟩
    exact epochsWp_registerProc hnew (by rw [hstate]; rfl)

theorem epochsWp_coordAtfork {s : CoordInfo} {w : Clients} (h : Epochs s w) (fd : Int)
    (msg : XndMsg) : EpochsWp (coordAtfork fd msg) s w fun s' _ w' => Epochs s' w' := by
  have virt : KeepsEpochs coordNextVirtPid :=
    Calm.coordNextVirtPid (fun _ _ _ h => h.congr) fun _ _ _ h => h.agrees
  have xnd : KeepsEpochs coordNextXndPid := Calm.coordNextXndPid fun _ _ _ h => h.congr
  refine (virt s w h).bind fun s virtPid w h => (xnd s w h).bind fun s xndPid w h => ?_
  refine (calm_epochs.ack rfl s w h).bind fun s sent w h => ?_
  refine Wp.ite (fun _ => Wp.get_bind ?_) fun _ => Wp.halt h.agrees
  cases hf : s.find (·.virtPid = msg.virtPpid) with
  | none => exact Wp.halt h.agrees
  | some n =>
      refine (epochsWp_coordRecvMsg h fd).bind ?_
      rintro s childMsg w ⟨rfl, h, harrived⟩
      cases childMsg with
      | none => exact Wp.halt h.agrees
      | some childMsg =>
          refine (epochsWp_assert h.agrees _ _).bind ?_
          rintro s _ w ⟨rfl, rfl, hchild⟩
          refine (epochsWp_assert h.agrees _ _).bind ?_
          rintro s _ w ⟨rfl, rfl, hparent⟩
          have hn := (CoordInfo.mem_procs_of_find hf).1
          exact epochsWp_registerProc ((harrived childMsg rfl).child hchild ⟨n, hn, hparent.symm⟩) rfl

/-- One connection. -/
theorem epochsWp_coordHandleConnection {s : CoordInfo} {w : Clients} (h : Epochs s w) (fuel : Nat)
    {fd : Int} {msg : XndMsg} (ha : Arrived fd msg s w) :
    EpochsWp (coordHandleConnection fuel fd msg) s w fun s' _ w' => Epochs s' w' := by
  by_cases hl : msg.hdr = .connectLaunch
  · simp only [coordHandleConnection, hl]
    exact epochsWp_coordConnectWithProcessOnLaunch h hl ha
  by_cases hr : msg.hdr = .connectRestart
  · obtain ⟨hfree, hclient⟩ := ha.restart hr
    simp only [coordHandleConnection, hr]
    refine Wp.modify_bind (Wp.modify_bind (epochsWp_registerProc ?_ rfl))
    -- The first process brings the epoch with it.
    split
    · rename_i hlen
      have hnil : s.procs = [] := List.length_eq_zero_iff.mp hlen
      exact ⟨⟨h.ok.congr rfl rfl, by simp [hnil]⟩, hfree, hclient⟩
    · rename_i hlen
      have hsame : msg.epoch = s.epoch := ha.current.2 hr fun hnil => hlen (by simp [hnil])
      exact Newcomer.congr ⟨h, hfree, by rw [hclient, hsame]⟩ rfl rfl rfl
  by_cases hf : msg.hdr = .atforkPrepare
  · simp only [coordHandleConnection, hf]
    exact epochsWp_coordAtfork h fd msg
  refine turns_epochs.coordHandleConnection (fun _ _ => keepsEpochs_coordDoCheckpoint fuel) ?_ ⟨hl, hr, hf⟩ s w h
  refine fun p fd => Keeps.modify fun s w h => h.mapProcs (fun n => ?_) fun n _ hst => ?_
  · split
    · exact ⟨rfl, rfl⟩
    · exact ⟨rfl, rfl⟩
  · split at hst
    · exact .inl hst
    · exact .inl hst

theorem keepsEpochs_coordWaitForConnection (fuel : Nat) :
    KeepsEpochs (coordWaitForConnection fuel) := by
  refine calm_epochs.coordWaitForConnection (A := Arrived) (B := fun _ _ _ => True) ?_ ?_ ?_
  · exact fun s w h => (keepsEpochs_call rfl s w h).mono fun _ _ _ h => ⟨h, fun _ _ => trivial⟩
  · exact fun fd s w h _ => (epochsWp_coordRecvMsg h fd).mono fun s' r w' ⟨hs, h, ha⟩ =>
      ⟨hs ▸ h, hs ▸ ha⟩
  · exact fun fd msg s w h ha => epochsWp_coordHandleConnection h fuel ha

/-! ## Runs -/

theorem epochs_coordInit (fd : Int) (uuid : Nat) (interval : Int) :
    Epochs (coordInit fd uuid interval) Clients.init :=
  ⟨listOk_coordInit fd uuid interval, by simp [coordInit]⟩

/-- **The epochs agree** in every run in which every message that arrives is current:
whenever a listed process has answered the request of a round, up to the end of the
round, its client has the epoch of the coordinator.  So it has when
`coord_release_barrier` has sent it the start, and while it writes its image. -/
theorem coordMain_epochs (restart : Bool) (fuel : Nat) (fd : Int) (uuid : Nat) (interval : Int)
    {p : Prog CoordCall.Answer CoordInfo CoordStop Unit} {w : Clients}
    (h : (Clients.env.world AllCurrent).Reach
      (coordMain restart fuel (coordInit fd uuid interval)) Clients.init (p, w)) :
    ∀ n ∈ p.state.procs, n.2.state.answered = true → (w n.2.fd).epoch = p.state.epoch := by
  have hmain : KeepsEpochs (coordMain restart fuel) :=
    turns_epochs.coordMain keepsEpochs_coordWaitForConnection keepsEpochs_coordDoCheckpoint
      (keepsEpochs_call rfl) restart fuel
  have hp := hmain.reach (fun _ _ _ h ⟨_, hm⟩ => h.move hm) (fun _ _ _ _ h ⟨_, hm⟩ => h.move hm)
    (epochs_coordInit fd uuid interval) h
  have hagrees : Agrees p.state w := by
    cases p with
    | ret s a => exact hp.agrees
    | call s c k => exact hp
    | halt s e => exact hp
  intro n hn ha
  rw [hagrees n hn ha]

/-- A command arrives and the process 101, which is behind `fd`, is started in a round. -/
def startEvents (fd : Int) (epoch : Nat) : Trace :=
  [⟨.select [4], some [4]⟩, ⟨.accept, some 8⟩, ⟨.recv 8, some { hdr := .command, cmd := .ckptCmd }⟩,
    ⟨.sigprocmask true, ()⟩, ⟨.probe 101, false⟩, ⟨.selectWrite [fd], some [fd]⟩,
    ⟨.send fd { hdr := .ckptRequest }, true⟩, ⟨.probe 101, false⟩, ⟨.usleep, ()⟩,
    ⟨.recv fd, some { hdr := .ckptReady }⟩, ⟨.probe 101, false⟩, ⟨.ckptdirCreate 7 epoch, true⟩,
    ⟨.probe 101, false⟩, ⟨.selectWrite [fd], some [fd]⟩,
    ⟨.send fd { hdr := .ckptStart, numPeers := 1, isRootOfTree := true }, true⟩]

/-- The round is completed, and the main loop goes on. -/
def finishEvents (fd : Int) (epoch : Nat) : Trace :=
  [⟨.probe 101, false⟩, ⟨.select [fd], some [fd]⟩, ⟨.recv fd, some { hdr := .ckptDone }⟩,
    ⟨.ckptdirOpen 7 epoch, some (10 : Int)⟩, ⟨.createManifest 10, some (11 : Int)⟩,
    ⟨.ckptfileExists 10 1001, true⟩, ⟨.writeManifest 11 1 [1001], true⟩, ⟨.close 10, ()⟩,
    ⟨.close 11, ()⟩, ⟨.send fd { hdr := .resumeAfterCkpt }, true⟩, ⟨.sigprocmask false, ()⟩,
    ⟨.send 8 { hdr := .coordAck }, true⟩, ⟨.close 8, ()⟩, ⟨.select [fd], some []⟩,
    ⟨.probe 101, false⟩]

/-- The process 101 executes another image, which registers on the descriptor 6. -/
def execEvents : Trace :=
  [⟨.select [4], some [4]⟩, ⟨.accept, some 6⟩,
    ⟨.recv 6, some { hdr := .connectLaunch, realPid := 101, realPpid := 100 }⟩, ⟨.close 5, ()⟩,
    ⟨.send 6
      { hdr := .coordAck, realPid := 101, realPpid := 100, virtPid := 2, virtPpid := 1,
        xndUuid := 7, xndPid := 1001, xndPpid := 1000, xndPgid := 1001 }, true⟩,
    ⟨.select [6], some []⟩]

def replies (t : Trace) : List (Turn CoordCall.Answer Int) := t.map fun e => .reply e 0

/-- After a round the client counts, and is started again. -/
def againTurns : List (Turn CoordCall.Answer Int) :=
  replies (launchTrace ++ startEvents 5 0 ++ finishEvents 5 0) ++ .move 5 :: replies (startEvents 5 1)

/-- After a round the process 101 executes another image, and this one is started. -/
def execTurns : List (Turn CoordCall.Answer Int) :=
  replies (launchTrace ++ startEvents 5 0 ++ finishEvents 5 0) ++
    .move 5 :: replies (execEvents ++ startEvents 6 1)

/-- Everybody has been started in epoch 1. -/
def StartedAgain (c : Prog CoordCall.Answer CoordInfo CoordStop Unit × Clients) : Prop :=
  c.1.state.procs.map (fun n => n.2.state) = [.ckptInProgress] ∧ c.1.state.epoch = 1

instance : DecidablePred StartedAgain := fun _ => inferInstanceAs (Decidable (_ ∧ _))

theorem coordMain_epochs_again :
    ∃ c, Clients.env.follow AllCurrent (coordMain false 8 (coordInit 4 7 0), Clients.init)
        againTurns = some c ∧ StartedAgain c ∧
      ∀ n ∈ c.1.state.procs, n.2.state.answered = true → (c.2 n.2.fd).epoch = c.1.state.epoch := by
  obtain ⟨c, hc, hstarted⟩ := Clients.env.exists_follow AllCurrent
    (coordMain false 8 (coordInit 4 7 0), Clients.init) againTurns StartedAgain (by decide +kernel)
  exact ⟨c, hc, hstarted, coordMain_epochs false 8 4 7 0 (Env.reach_of_follow hc)⟩

/-- Without the condition the epoch of the executed image is 0, when it is started in the
round of epoch 1. -/
theorem not_coordMain_epochs_exec :
    ∃ c, Clients.env.follow (fun _ _ _ _ => True)
        (coordMain false 8 (coordInit 4 7 0), Clients.init) execTurns = some c ∧ StartedAgain c ∧
      ¬ ∀ n ∈ c.1.state.procs, n.2.state.answered = true →
        (c.2 n.2.fd).epoch = c.1.state.epoch :=
  Clients.env.exists_follow (fun _ _ _ _ => True)
    (coordMain false 8 (coordInit 4 7 0), Clients.init) execTurns (fun c => StartedAgain c ∧
      ¬ ∀ n ∈ c.1.state.procs, n.2.state.answered = true → (c.2 n.2.fd).epoch = c.1.state.epoch)
    (by decide +kernel)

end Xnd.Coord
