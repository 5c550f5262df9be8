import Xnd.Coord.Suspended
import Xnd.Joint.Lockstep

/-!
# The barriers of a round

`coord_suspend_processes` moves every process from `PROC_RUNNING` to `PROC_READY_FOR_CKPT`,
`coord_release_barrier` on to `PROC_CKPT_IN_PROGRESS`, one message at a time, and
`coord_wait_for_ckpt_completions` to `PROC_CKPT_COMPLETE`.  A sweep may find that a process is gone in
any of these passes; those that are left keep their places, and the pass says of all of them what it
has done (`Releasing`, `Completing`).  The second barrier is released only when all have reached it,
and an abandoned round leaves them where they wait.
-/
namespace Xnd.Joint
open Coord Code

namespace Net
variable {s s' : CoordInfo} {w w' : Net} {W W' : Net × Watch} {x : Option Int} {φ : Phase}
  {P : ProcState → Prop} {p : Nat} {a : Proc}

/-! ## Suspension -/

section Suspension
variable {as rest : List (Nat × Proc)}

/-- Reading a listed process. -/
theorem stepWp_listProc (h : Held x φ P s W) (hs : s.procs = as ++ (p, a) :: rest) :
    StepWp (listProc p) s W fun s' a' W' => s' = s ∧ a' = a ∧ W' = W := h.lock.list.wp_listProc hs

/-- **A message of a process that is waited for**: it moves the state when it is the answer. -/
theorem stepWp_recvAnswer (h : HeldAny x φ s W) (ha : s.proc p = some a) :
    StepWp (coordRecvMsg a.fd) s W fun s' r W' => s' = s ∧ W'.2 = W.2 ∧
      ((∀ msg : XndMsg, r = some msg → answered a.state msg.hdr = a.state) → Lockstep x s W'.1) ∧
      ∀ msg : XndMsg, r = some msg →
        Lockstep x (s.setProc p fun b => { b with state := answered a.state msg.hdr }) W'.1 := by
  refine stepWp_call h fun w (r : Option XndMsg) w' hw _ hr => ⟨rfl, rfl, ?_⟩
  cases r with
  | none =>
      obtain rfl := mem_recvNone hr
      exact ⟨fun _ => hw, fun _ he => by cases he⟩
  | some msg =>
      refine ⟨fun hsame => hw.recv hr fun n hn hfd => ?_, fun msg' he => ?_⟩
      · obtain rfl := hw.eq_of_fd hn (CoordInfo.mem_procs_of_proc ha) hfd
        exact hsame msg rfl
      · obtain rfl := Option.some.inj he
        exact hw.answer ha hr

/-- **A message that moves the state**, when it is sent. -/
theorem stepWp_tell (h : HeldAny x φ s W) (ha : s.proc p = some a) {msg : XndMsg} {st : ProcState}
    (hm : Tells a.state msg.hdr st) (hlist : Staged (s.setProc p fun a => { a with state := st })) :
    StepWp (coordSendMsg a.fd msg) s W fun s' sent W' => s' = s ∧ W'.2 = W.2 ∧ if sent = true then
      Lockstep x (s.setProc p fun a => { a with state := st }) W'.1 else Lockstep x s W'.1 := by
  refine stepWp_call h fun w (r : Bool) w' hw _ hr => ⟨rfl, rfl, ?_⟩
  cases r with
  | true => exact hw.tell ha hm hlist hr
  | false =>
      obtain rfl := List.mem_singleton.mp hr
      exact hw

/-- The process of the turn has come to a state, and counts as ready or not. -/
def TurnEnds (x : Option Int) (φ : Phase) (as rest : List (Nat × Proc)) (p : Nat) (a : Proc) (v : Watch)
    (s : CoordInfo) (ready : Nat) (W : Net × Watch) : Prop :=
  Lockstep x s W.1 ∧ W.2 = v ∧ v.phase = φ ∧ ∃ st : ProcState,
    s.procs = as ++ (p, { a with state := st }) :: rest ∧ ready = if st = .readyForCkpt then 1 else 0

/-- **A request**, or its answer. -/
theorem stepWp_requestReady (h : HeldAny x φ s W) (hs : s.procs = as ++ (p, a) :: rest) :
    StepWp (requestReady p a) s W (TurnEnds x φ as rest p a W.2) := by
  have ha := h.lock.list.proc_eq hs
  have same : ∀ {W'}, Lockstep x s W'.1 → W'.2 = W.2 →
      TurnEnds x φ as rest p a W.2 s (if a.state = .readyForCkpt then 1 else 0) W' :=
    fun hl hv => ⟨hl, hv, h.phase, a.state, hs, rfl⟩
  have moved : ∀ {st W'}, Lockstep x (s.setProc p fun a => { a with state := st }) W'.1 → W'.2 = W.2 →
      TurnEnds x φ as rest p a W.2 (s.setProc p fun a => { a with state := st })
        (if st = .readyForCkpt then 1 else 0) W' :=
    fun hl hv => ⟨hl, hv, h.phase, _, h.lock.list.setProc_eq hs, rfl⟩
  unfold requestReady
  split
  next hst =>
    rw [hst] at same
    have hlist : Staged (s.setProc p fun a => { a with state := .recvCkptRequest }) := by
      refine h.lock.list.setState ha ?_ ProcState.noConfusion
      rw [hst]
      rintro (he | he | he) <;> cases he
    refine (stepWp_tell h ha (by rw [hst]; exact .request) hlist).bind ?_
    rintro s sent W' ⟨rfl, hv, hl⟩
    exact Wp.ite (fun hsent => Wp.modify_bind (Wp.pure (moved (by rwa [if_pos hsent] at hl) hv)))
      fun hsent => Wp.pure (same (by rwa [if_neg hsent] at hl) hv)
  next hst =>
    rw [hst] at same
    refine (stepWp_recvAnswer h ha).bind ?_
    rintro s r W' ⟨rfl, hv, hnot, hanswer⟩
    rw [hst] at hnot hanswer
    cases r with
    | none => exact Wp.pure (same (hnot fun _ he => by cases he) hv)
    | some resp =>
        refine Wp.ite (fun hready => Wp.modify_bind (Wp.pure (moved ?_ hv)))
          fun hready => Wp.pure (same (hnot fun msg he => ?_) hv)
        · have hl := hanswer resp rfl
          rwa [hready] at hl
        · obtain rfl := Option.some.inj he
          exact answered_request hready
  next hst =>
    rw [hst] at same
    exact Wp.pure (same h.lock rfl)
  next hne =>
    have hwas := same h.lock rfl
    rw [if_neg hne] at hwas
    exact Wp.pure hwas

/-- A pass, before the turns of `rest`: as long as no ready process is missed, those that count
are on the list. -/
structure Passing (x : Option Int) (φ : Phase) (rest : List (Nat × Proc)) (n : Nat × Nat)
    (s : CoordInfo) (W : Net × Watch) : Prop where
  held : HeldAny x φ s W
  split : ∃ as, s.procs = as ++ rest ∧ n.1 = as.length ∧
    (W.2.missed = false → n.2 ≤ readyCount as)

/-- **A turn.** -/
theorem stepWp_suspendTurn {n : Nat × Nat} (h : Passing x φ ((p, a) :: rest) n s W) :
    StepWp (suspendTurn p n) s W fun s' n' W' => Passing x φ rest n' s' W' := by
  obtain ⟨as, hs, htotal, hcount⟩ := h.split
  refine (stepWp_listProc h.held hs).bind ?_
  rintro s a W ⟨rfl, rfl, rfl⟩
  refine (stepWp_requestReady h.held hs).bind ?_
  rintro s' ready W' ⟨hl, hv, hφ, st, hs', rfl⟩
  have hheld : HeldAny x φ s' W' := ⟨hl, hv ▸ hφ, fun _ _ => trivial⟩
  refine Wp.bind (M := fun s'' (gone : Bool) W'' => s'' = s' ∧ HeldAny x φ s' W'' ∧
      W''.2.missed = (W.2.missed || gone && decide (Watch.ReadyPid s' a.realPid)))
    (stepWp_call hheld fun w (gone : Bool) w' hw _ hr => ?_) ?_
  · refine ⟨rfl, ⟨hw.respond CoordCall.noConfusion (fun _ => CoordCall.noConfusion)
      (fun _ _ => CoordCall.noConfusion) hr, hheld.phase, fun _ _ => trivial⟩, ?_⟩
    rw [← hv]
    rfl
  rintro s' gone W'' ⟨rfl, hheld, hmissed⟩
  have hmem : (p, { a with state := st }) ∈ s'.procs := by simp [hs']
  cases gone with
  | true =>
      rw [if_pos rfl]
      refine ((stepWp_listRemove hheld p).and_rets (rets_listRemove hheld.lock.list.toListOk hs')).bind ?_
      rintro s'' _ W''' ⟨⟨hheld', hv'⟩, hs'', -⟩
      refine Wp.pure ⟨hheld', as, hs'', htotal, fun hnone => ?_⟩
      rw [hv', hmissed, Bool.or_eq_false_iff] at hnone
      -- A process that counts is not gone.
      have hst : st ≠ .readyForCkpt := by
        rintro rfl
        have : decide (Watch.ReadyPid s' a.realPid) = true := decide_eq_true ⟨_, hmem, rfl, rfl⟩
        rw [this] at hnone
        cases hnone.2
      rw [if_neg hst]
      exact hcount hnone.1
  | false =>
      rw [if_neg Bool.false_ne_true]
      refine Wp.pure ⟨hheld, as ++ [(p, { a with state := st })], by simp [hs'], by simp [htotal],
        fun hnone => ?_⟩
      have hnone : W.2.missed = false := by
        rw [hmissed, Bool.or_eq_false_iff] at hnone
        exact hnone.1
      rw [readyCount, List.countP_append, List.countP_singleton]
      simp only [decide_eq_true_eq]
      exact Nat.add_le_add_right (hcount hnone) _

/-- **A pass that counts as many ready processes as it leaves**, and misses none, leaves ready
processes. -/
theorem stepWp_pass (h : HeldAny x φ s W) :
    StepWp (seqForeachSafe (0, 0) suspendTurn) s W fun s' n W' => HeldAny x φ s' W' ∧
      (n.2 = n.1 → W'.2.missed = false → InStates (· = .readyForCkpt) s') := by
  refine Wp.mono (wp_seqForeachSafe (J := Passing x φ) ?_ (fun _ _ _ _ _ _ => stepWp_suspendTurn)
    ⟨h, [], rfl, rfl, fun _ => Nat.le_refl _⟩) ?_
  · rintro p a rest n s W ⟨h, as, hs, -⟩
    exact h.lock.list.next_eq hs
  · rintro s n W ⟨h, as, hs, htotal, hcount⟩
    refine ⟨h, fun he hnone m hm => ?_⟩
    rw [List.append_nil] at hs
    have hle := hcount hnone
    rw [he, htotal] at hle
    have hall := List.countP_eq_length.mp (Nat.le_antisymm List.countP_le_length hle)
    simpa using hall m (hs ▸ hm)

theorem stepWp_coordSuspendProcesses (h : HeldAny x φ s W) (fuel : Nat) :
    StepWp (coordSuspendProcesses fuel) s W fun s' _ W' => HeldAny x φ s' W' ∧
      (W'.2.missed = false → InStates (· = .readyForCkpt) s') := by
  induction fuel generalizing s W with
  | zero => exact Wp.halt (by decide)
  | succ fuel ih =>
      refine (stepWp_pass h).bind ?_
      rintro s n W ⟨h, hready⟩
      refine Wp.ite (fun he => Wp.pure ⟨h, hready he⟩) fun _ => ?_
      exact ((routine_held x φ _).call .usleep rfl s W h).bind fun s _ W h => ih h

/-! ## Barriers -/

/-- A barrier of which the processes of `l` are still to be released. -/
structure Releasing (type : BarrierType) (l : List Nat) (s : CoordInfo) : Prop where
  nodup : l.Nodup
  states : ∀ n ∈ s.procs, n.2.state = if n.1 ∈ l then type.expected else type.next

/-- The processes are all in the round, or none of them saves itself. -/
theorem Releasing.staged {type : BarrierType} {l : List Nat} (h : Releasing type l s)
    (hlist : ListOk s) : Staged s where
  toListOk := hlist
  together := by
    rintro ⟨m, hm, hst⟩ n hn
    rw [h.states m hm] at hst
    rw [h.states n hn]
    cases type with
    | preckpt =>
        split
        · exact .inl rfl
        · exact .inr (.inl rfl)
    | postckpt | postrestart => split at hst <;> cases hst

/-- A process is released. -/
theorem Releasing.next {type : BarrierType} {rest : List Nat} (h : Releasing type (p :: rest) s) :
    Releasing type rest (s.setProc p fun a => { a with state := type.next }) := by
  obtain ⟨hp, hrest⟩ := List.nodup_cons.mp h.nodup
  refine ⟨hrest, fun n hn => ?_⟩
  obtain ⟨m, hm, rfl⟩ := List.mem_map.mp hn
  by_cases hmp : m.1 = p
  · rw [if_pos hmp, if_neg (hmp ▸ hp)]
  · rw [if_neg hmp, h.states m hm]
    simp only [List.mem_cons, hmp, false_or]

theorem tells_releaseMsg (type : BarrierType) (n : Nat) (a : Proc) :
    Tells type.expected (releaseMsg type n a).hdr type.next := by
  cases type with
  | preckpt => exact .start
  | postckpt => exact .resume
  | postrestart => exact .restart

/-- **The assertion of `coord_release_barrier` holds.** -/
theorem stepWp_releaseLoop {type : BarrierType} (l : List Nat) (h : HeldAny x φ s W)
    (hl : Releasing type l s) : StepWp (releaseLoop type l) s W fun s' released W' =>
      HeldAny x φ s' W' ∧ (released = true → InStates (· = type.next) s') := by
  induction l generalizing s W with
  | nil => exact Wp.pure ⟨h, fun _ n hn => (hl.states n hn).trans (if_neg List.not_mem_nil)⟩
  | cons p rest ih =>
      refine Wp.bind (M := fun s' a W' => s' = s ∧ W' = W ∧ s.proc p = some a)
        (wp_listProc (fun _ => by decide) fun a ha => ⟨rfl, rfl, ha⟩) ?_
      rintro s a W ⟨rfl, rfl, ha⟩
      have hst : a.state = type.expected :=
        (hl.states _ (CoordInfo.mem_procs_of_proc ha)).trans (if_pos List.mem_cons_self)
      refine Wp.bind (M := fun s' _ W' => s' = s ∧ W' = W)
        (Wp.ite (fun _ => Wp.pure ⟨rfl, rfl⟩) fun hne => absurd hst hne) ?_
      rintro s _ W ⟨rfl, rfl⟩
      have hlist := hl.next.staged (h.lock.list.setProc fun _ => rfl)
      refine Wp.get_bind ((stepWp_tell h ha (hst ▸ tells_releaseMsg type s.numPeers a) hlist).bind ?_)
      rintro s sent W' ⟨rfl, hv, hlock⟩
      refine Wp.ite (fun hs => Wp.modify_bind (ih ⟨?_, hv ▸ h.phase, fun _ _ => trivial⟩ hl.next))
        fun hs => Wp.pure ⟨⟨?_, hv ▸ h.phase, fun _ _ => trivial⟩, fun hr => absurd hr Bool.false_ne_true⟩
      · rwa [if_pos hs] at hlock
      · rwa [if_neg hs] at hlock

/-- A barrier that is released from the state it asserts. -/
theorem stepWp_coordReleaseBarrier (type : BarrierType) (h : Held x φ (· = type.expected) s W) :
    StepWp (coordReleaseBarrier type) s W fun s' released W' =>
      HeldAny x φ s' W' ∧ (released = true → InStates (· = type.next) s') :=
  Wp.get_bind (stepWp_releaseLoop _ h.any ⟨h.lock.list.addresses, fun n hn =>
    (h.states n hn).trans (if_pos (List.mem_map_of_mem hn)).symm⟩)

/-- A barrier that has to be released to every process. -/
theorem stepWp_released {type : BarrierType} {failed : CoordAssertion} {β : Type}
    {f : Unit → InfoM β} {fin : CoordInfo → β → Net × Watch → Prop} (hfailed : failed ≠ .procState)
    (h : Held x φ (· = type.expected) s W)
    (hf : ∀ s' W', Held x φ (· = type.next) s' W' → StepWp (f ()) s' W' fin) :
    StepWp (coordReleaseBarrier type >>= fun released =>
      xndAssert failed (released = true) >>= f) s W fin := by
  refine (stepWp_coordReleaseBarrier type h).bind ?_
  rintro s' released W' ⟨h, hall⟩
  refine Wp.bind (M := fun s'' _ W'' => s'' = s' ∧ W'' = W' ∧ released = true)
    (Wp.ite (fun hr => Wp.pure ⟨rfl, rfl, hr⟩)
      fun _ => Wp.halt (fun he => hfailed (CoordStop.assertion.inj he))) ?_
  rintro s' _ W' ⟨rfl, rfl, hr⟩
  exact hf s' W' { h with states := hall hr }

/-! ## Rounds -/

/-- The completions, before those of `rest`: as many as are counted are complete. -/
structure Completing (x : Option Int) (φ : Phase) (expected : Nat) (rest : List (Nat × Proc))
    (total : Nat) (s : CoordInfo) (W : Net × Watch) : Prop where
  held : HeldAny x φ s W
  length : s.procs.length = expected
  split : ∃ as, s.procs = as ++ rest ∧ (∀ n ∈ rest, n.2.state = .ckptInProgress) ∧
    total ≤ as.countP (·.2.state = .ckptComplete)

/-- **A turn**: its assertion holds. -/
theorem stepWp_completionTurn {expected total : Nat}
    (h : Completing x φ expected ((p, a) :: rest) total s W) :
    StepWp (completionTurn p a total) s W fun s' total' W' =>
      Completing x φ expected rest total' s' W' := by
  obtain ⟨hheld, hlength, as, hs, hrest, hcount⟩ := h
  have ha := hheld.lock.list.proc_eq hs
  have hst : a.state = .ckptInProgress := hrest _ List.mem_cons_self
  have hrest := fun n hn => hrest n (List.mem_cons_of_mem _ hn)
  refine Wp.bind (M := fun s' _ W' => s' = s ∧ W' = W)
    (Wp.ite (fun _ => Wp.pure ⟨rfl, rfl⟩) fun hne => absurd hst hne) ?_
  rintro s _ W ⟨rfl, rfl⟩
  refine (stepWp_recvAnswer hheld ha).bind ?_
  rintro s r W' ⟨rfl, hv, hnot, hanswer⟩
  rw [hst] at hnot hanswer
  have same : Lockstep x s W'.1 → Completing x φ expected rest total s W' := fun hl => by
    refine ⟨⟨hl, hv ▸ hheld.phase, fun _ _ => trivial⟩, hlength, as ++ [(p, a)], by simp [hs], hrest, ?_⟩
    rw [List.countP_append]
    exact Nat.le_add_right_of_le hcount
  cases r with
  | none => exact Wp.pure (same (hnot fun _ he => by cases he))
  | some msg =>
      refine Wp.ite (fun hdone => Wp.modify_bind (Wp.pure ?_)) fun hdone => Wp.pure (same ?_)
      · have hl := hanswer msg rfl
        rw [hdone] at hl
        have hs' := hheld.lock.list.setProc_eq hs (f := fun a => { a with state := .ckptComplete })
        refine ⟨⟨hl, hv ▸ hheld.phase, fun _ _ => trivial⟩, (List.length_map _).trans hlength,
          as ++ [(p, { a with state := .ckptComplete })], by simp [hs'], hrest, ?_⟩
        rw [List.countP_append]
        exact Nat.add_le_add_right hcount 1
      · refine hnot fun msg' he => ?_
        obtain rfl := Option.some.inj he
        exact answered_start hdone

end Suspension

/-- What a liveness sweep leaves is as many processes as it counts. -/
theorem stepWp_coordCollectivePrepare (h : Held x φ P s W) (type : CommType) (fuel : Nat) :
    StepWp (coordCollectivePrepare type fuel) s W fun s' total W' =>
      Held x φ P s' W' ∧ total = s'.procs.length := by
  have U := routine_held x φ P
  refine ((U.coordCollectivePrepare (U.prepareTurn keepsStep_listRemove) type fuel s W h).and_rets
    (rets_coordCollectivePrepare h.lock.list.toListOk type fuel)).mono ?_
  exact fun s' total W' h => ⟨h.1, h.2.2⟩

/-- **The assertion of `coord_wait_for_ckpt_completions` holds**, and every process that is waited
for completes its checkpoint. -/
theorem stepWp_coordWaitForCkptCompletions (h : Held x φ (· = .ckptInProgress) s W) (fuel : Nat) :
    StepWp (coordWaitForCkptCompletions fuel) s W fun s' _ W' =>
      Held x φ (· = .ckptComplete) s' W' := by
  refine Wp.get_bind ((stepWp_coordCollectivePrepare h .reduce fuel).bind ?_)
  rintro s' total W' ⟨h, htotal⟩
  refine Wp.ite (fun _ => Wp.halt (by decide)) fun he => Wp.get_bind ?_
  have hexpected : s'.procs.length = s.numPeers := htotal ▸ Decidable.not_not.mp he
  refine Wp.bind (wp_seqForeach (J := Completing x φ s.numPeers) ?_
    (fun _ _ _ _ _ _ => stepWp_completionTurn)
    ⟨h.any, hexpected, [], rfl, h.states, Nat.zero_le _⟩) ?_
  · rintro p a rest total s W ⟨hheld, -, as, hs, -⟩
    exact hheld.lock.list.proc_eq hs
  · rintro s₁ count W₁ ⟨hheld, hlength, as, hs, -, hcount⟩
    refine Wp.ite (fun _ => Wp.halt (by decide)) fun hne => Wp.pure ?_
    rw [List.append_nil] at hs
    rw [Decidable.not_not.mp hne, ← hlength, hs] at hcount
    have hall := List.countP_eq_length.mp (Nat.le_antisymm List.countP_le_length hcount)
    exact { hheld with states := fun n hn => of_decide_eq_true (hall n (hs ▸ hn)) }

/-- The roots are determined. -/
theorem Held.roots (h : Held x φ P s W) (g : Proc → Bool) :
    Held x φ P { s with procs := s.procs.map fun n => (n.1, { n.2 with isRootOfTree := g n.2 }) } W := by
  refine ⟨h.lock.mapProcs (fun _ => ⟨rfl, rfl⟩) fun _ => rfl, h.phase, fun n hn => ?_⟩
  obtain ⟨m, hm, rfl⟩ := List.mem_map.mp hn
  exact h.states m hm

/-- **A round** takes processes that are ready through the states of the list to `PROC_RUNNING`. -/
theorem stepWp_coordRunRound (h : Held x φ (· = .readyForCkpt) s W) (epoch fuel : Nat) :
    StepWp (coordRunRound epoch fuel) s W fun s' _ W' => Held x φ (· = .running) s' W' := by
  refine Wp.modify_bind (Wp.modify_bind ?_)
  have hpeers : Held x φ (· = .readyForCkpt) { s with numPeers := s.procs.length } W := h.congr rfl rfl
  have hroots := hpeers.roots fun a =>
    (({ s with numPeers := s.procs.length } : CoordInfo).find (·.realPid = a.realPpid)).isNone
  refine (stepWp_coordCollectivePrepare hroots .broadcast fuel).bind fun s total W h => Wp.get_bind ?_
  refine ((routine_held x φ _).xndAssert rfl _ s W h.1).bind fun s _ W h => ?_
  refine stepWp_released (by decide) h fun s W h => ?_
  refine (stepWp_coordWaitForCkptCompletions h fuel).bind fun s _ W h => ?_
  refine ((routine_held x φ _).coordWriteCkptManifest keepsStep_file s W h).bind fun s _ W h => ?_
  refine stepWp_released (by decide) h fun s W h => ?_
  exact (Routine.unlinkPrevious keepsStep_file epoch s W h).bind fun s _ W h =>
    Wp.modify (h.congr rfl rfl)

/-- What comes after suspension: a round, or one that is abandoned and leaves the processes
ready. -/
theorem stepWp_coordCheckpointSuspended (h : HeldAny x φ s W)
    (hready : W.2.missed = false → InStates (· = .readyForCkpt) s) (epoch fuel : Nat) :
    StepWp (coordCheckpointSuspended epoch fuel) s W fun s' _ W' =>
      Held x φ (fun st => st = .running ∨ st = .readyForCkpt) s' W' := by
  refine Wp.get_bind (Wp.bind (M := fun s' (created : Bool) W' =>
    s' = s ∧ Held x φ (· = .readyForCkpt) s W') (stepWp_call h fun w r w' hw hmissed hr => ?_) ?_)
  · refine ⟨rfl, hw.respond CoordCall.noConfusion (fun _ => CoordCall.noConfusion)
      (fun _ _ => CoordCall.noConfusion) hr, h.phase, hready hmissed.1⟩
  · rintro s (created : Bool) W' ⟨rfl, h⟩
    cases created with
    | true =>
        exact (stepWp_coordRunRound h epoch fuel).mono fun s _ W h => h.mono fun _ => .inl
    | false =>
        refine Wp.get_bind ((keepsStep_file (.ckptdirUnlink s.xndUuid epoch) rfl s W' h).bind ?_)
        exact fun s _ W h => Wp.pure (h.mono fun _ => .inr)

/-- **A round keeps the invariant.** -/
theorem keepsStep_coordDoCheckpoint (fuel : Nat) :
    KeepsStep (Held x φ (¬ Busy ·)) (coordDoCheckpoint fuel) := by
  have mask : ∀ block, KeepsStep (Held x φ (¬ Busy ·)) (sysSigprocmask block : InfoM Unit) := by
    intro block
    refine keepsStep_call ?_ ?_ ?_ ?_
    · exact CoordCall.noConfusion
    · exact fun _ => CoordCall.noConfusion
    · exact fun _ _ => CoordCall.noConfusion
    · exact CoordCall.noConfusion
  refine Keeps.bind Keeps.get fun s => Keeps.bind (mask true) fun _ s W h => ?_
  refine (stepWp_coordCollectivePrepare h .broadcast fuel).bind fun s total W h => ?_
  refine Wp.ite (fun _ => mask false s W h.1) fun _ => ?_
  refine (stepWp_coordSuspendProcesses h.1.any fuel).bind fun s _ W h => ?_
  refine (stepWp_coordCheckpointSuspended h.1 h.2 _ fuel).bind fun s _ W h => ?_
  refine mask false s W (h.mono fun st hst => ?_)
  rcases hst with rfl | rfl <;> decide

end Net

end Xnd.Joint
