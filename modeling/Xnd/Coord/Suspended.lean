import Mathlib.Data.List.Count
import Xnd.Coord.Phases

/-!
# When suspension ends

`coord_suspend_processes` passes over the list until it counts as many ready processes
as it leaves on the list.  A process is counted as ready before it is probed and as
listed after, so one that is ready and gone is counted on one side only, and another
that is not ready may be missed for it.

`Losses` keeps account of such processes, from the answers alone.  A pass counts the ready
processes that it leaves and those that are lost (`lossesWp_pass`); so when it returns all
are ready exactly if the last pass lost none.
-/
namespace Xnd.Coord
open Code

/-- Since the last pause. -/
structure Losses where
  /-- The process of the turn counts as ready, as far as its turn has come. -/
  counted : Bool
  /-- How many processes counted as ready and were gone. -/
  lost : Nat
  deriving DecidableEq, Repr

namespace Losses

def none : Losses := ⟨true, 0⟩

/-- What an answer adds.  A process that is asked nothing in its turn was ready before. -/
def follow (w : Losses) : (c : CoordCall) → c.Answer → Losses
  | .send _ _, _ => { w with counted := false }
  | .recv _, (resp : Option XndMsg) => { w with counted := resp.any (·.hdr = .ckptReady) }
  | .probe _, (gone : Bool) => ⟨true, if gone && w.counted then w.lost + 1 else w.lost⟩
  | .usleep, _ => none
  | _, _ => w

end Losses

/-- The environment answers anything. -/
abbrev lossesWorld : World CoordCall.Answer CoordInfo Losses :=
  (Env.account fun _ => Losses.follow).world fun _ _ _ _ => True

abbrev LossesWp {α : Type} (m : InfoM α) (s : CoordInfo) (w : Losses)
    (fin : CoordInfo → α → Losses → Prop) : Prop :=
  Wp lossesWorld (fun _ _ => True) (fun _ _ _ => True) m s w fin

/-- The ready processes of a part of the list. -/
def readyCount (l : List (Nat × Proc)) : Nat := l.countP fun n => n.2.state = .readyForCkpt

/-- **The list in a pass**: the addresses are distinct, and every process runs, is asked or
is ready. -/
structure Passed (s : CoordInfo) : Prop where
  addresses : (s.procs.map Prod.fst).Nodup
  states : InStates ProcState.Asked s

section Steps
variable {s : CoordInfo} {w : Losses} {p : Nat} {a : Proc} {as rest : List (Nat × Proc)}

theorem Passed.congr (h : Passed s) {s' : CoordInfo} (hs : s'.procs.Sublist s.procs) : Passed s' :=
  ⟨h.addresses.sublist (hs.map _), fun n hn => h.states n (hs.subset hn)⟩

/-- A call, with what its answer adds. -/
theorem lossesWp_call {c : CoordCall} :
    LossesWp (Code.call c) s w fun s' r w' => s' = s ∧ w' = w.follow c r :=
  (Env.wp_call_account trivial).mono fun _ _ _ h => ⟨h.1, h.2.1⟩

theorem lossesWp_listProc (h : Passed s) (hs : s.procs = as ++ (p, a) :: rest) :
    LossesWp (listProc p) s w fun s' a' w' => s' = s ∧ a' = a ∧ w' = w := by
  have hp : s.proc p = some a := CoordInfo.proc_eq_some hs fun hm =>
    CoordInfo.not_mem_middle h.addresses hs (by simp [List.mem_map.mp hm])
  refine wp_listProc (fun _ => trivial) fun a' ha' => ⟨rfl, ?_, rfl⟩
  exact Option.some.inj (ha'.symm.trans hp)

theorem lossesWp_listRemove (h : Passed s) (hs : s.procs = as ++ (p, a) :: rest) :
    LossesWp (listRemove p) s w fun s' _ w' => s'.procs = as ++ rest ∧ w' = w := by
  have close : ∀ fd s, LossesWp (closeIfOpen fd) s w fun s' _ w' => s' = s ∧ w' = w :=
    fun fd s => Wp.ite (fun _ => lossesWp_call) fun _ => Wp.pure ⟨rfl, rfl⟩
  refine (lossesWp_listProc h hs).bind ?_
  rintro s a w ⟨rfl, rfl, rfl⟩
  refine Wp.modify_bind ((close a.fd _).bind ?_)
  rintro _ _ w ⟨rfl, rfl⟩
  refine (close a.oobFd _).bind ?_
  rintro _ _ w ⟨rfl, rfl⟩
  exact Wp.modify ⟨CoordInfo.drop_procs hs (CoordInfo.not_mem_middle h.addresses hs), rfl⟩

/-- The process of the turn in a state. -/
def Turned (as rest : List (Nat × Proc)) (p : Nat) (a : Proc) (w : Losses) (s : CoordInfo)
    (ready : Nat) (w' : Losses) : Prop :=
  ∃ st : ProcState, st.Asked ∧ s.procs = as ++ (p, { a with state := st }) :: rest ∧
    ready = (if st = .readyForCkpt then 1 else 0) ∧ w' = ⟨st = .readyForCkpt, w.lost⟩

/-- **A request**: what counts as ready is in the state. -/
theorem lossesWp_requestReady (h : Passed s) (hs : s.procs = as ++ (p, a) :: rest)
    (hw : w.counted = true) : LossesWp (requestReady p a) s w (Turned as rest p a w) := by
  have moved : ∀ st, (s.setProc p fun a => { a with state := st }).procs =
      as ++ (p, { a with state := st }) :: rest := fun st =>
    CoordInfo.setProc_procs hs (CoordInfo.not_mem_middle h.addresses hs)
  have hmem : (p, a) ∈ s.procs := by simp [hs]
  unfold requestReady
  cases hst : a.state with
  | running =>
      refine lossesWp_call.bind ?_
      rintro _ (sent : Bool) _ ⟨rfl, rfl⟩
      refine Wp.ite (fun _ => Wp.modify_bind (Wp.pure ?_)) fun _ => Wp.pure ?_
      · exact ⟨.recvCkptRequest, .inr rfl, moved _, rfl, rfl⟩
      · exact ⟨.running, .inl (.inl rfl), by rw [hs, ← hst], rfl, rfl⟩
  | recvCkptRequest =>
      refine lossesWp_call.bind ?_
      rintro _ (resp : Option XndMsg) _ ⟨rfl, rfl⟩
      cases resp with
      | none => exact Wp.pure ⟨.recvCkptRequest, .inr rfl, by rw [hs, ← hst], rfl, rfl⟩
      | some resp =>
          refine Wp.ite (fun hr => Wp.modify_bind (Wp.pure ?_)) fun hr => Wp.pure ?_
          · exact ⟨.readyForCkpt, .inl (.inr rfl), moved _, rfl, by simp [Losses.follow, hr]⟩
          · exact ⟨.recvCkptRequest, .inr rfl, by rw [hs, ← hst], rfl, by simp [Losses.follow, hr]⟩
  | readyForCkpt =>
      exact Wp.pure ⟨.readyForCkpt, .inl (.inr rfl), by rw [hs, ← hst], rfl, by simp [← hw]⟩
  | _ =>
      have := h.states _ hmem
      simp [ProcState.Asked, ProcState.Idle, hst] at this

/-- A pass, before the turns of `rest`: the counts so far. -/
structure Counts (rest : List (Nat × Proc)) (n : Nat × Nat) (s : CoordInfo) (w : Losses) : Prop where
  passed : Passed s
  counted : w.counted = true
  split : ∃ as, s.procs = as ++ rest ∧ n.1 = as.length ∧ n.2 = readyCount as + w.lost

/-- **A turn.** -/
theorem lossesWp_suspendTurn {n : Nat × Nat} (h : Counts ((p, a) :: rest) n s w) :
    LossesWp (suspendTurn p n) s w fun s' n' w' => Counts rest n' s' w' := by
  obtain ⟨as, hs, htotal, hready⟩ := h.split
  refine (lossesWp_listProc h.passed hs).bind ?_
  rintro s a w ⟨rfl, rfl, rfl⟩
  refine (lossesWp_requestReady h.passed hs h.counted).bind ?_
  rintro s' ready _ ⟨st, hst, hs', rfl, rfl⟩
  have passed : Passed s' := by
    refine ⟨?_, ?_⟩
    · have := h.passed.addresses
      rw [hs] at this
      rw [hs']
      simpa using this
    · have := h.passed.states
      rw [InStates, hs] at this
      rw [InStates, hs']
      simp only [List.forall_mem_append, List.forall_mem_cons] at this ⊢
      exact ⟨this.1, hst, this.2.2⟩
  refine lossesWp_call.bind ?_
  rintro s' (gone : Bool) _ ⟨rfl, rfl⟩
  cases gone with
  | true =>
      -- A process that counted as ready is among the lost.
      rw [if_pos rfl]
      refine (lossesWp_listRemove passed hs').bind ?_
      rintro s'' _ _ ⟨hs'', rfl⟩
      refine Wp.pure ⟨passed.congr ?_, rfl, as, hs'', htotal, ?_⟩
      · rw [hs', hs'']
        exact (List.sublist_cons_self _ _).append_left as
      · by_cases hst : st = .readyForCkpt
        · simp [Losses.follow, hst, hready, Nat.add_assoc]
        · simp [Losses.follow, hst, hready]
  | false =>
      rw [if_neg Bool.false_ne_true]
      refine Wp.pure ⟨passed, rfl, as ++ [(p, { a with state := st })], by simp [hs'],
        by simp [htotal], ?_⟩
      have hcount : readyCount (as ++ [(p, { a with state := st })]) =
          readyCount as + if st = .readyForCkpt then 1 else 0 := by
        simp [readyCount, List.countP_append, List.countP_singleton]
      rw [hcount]
      simp only [Losses.follow, Bool.false_and, Bool.false_eq_true, if_false]
      omega

/-- **A pass** counts the processes that it leaves, and the ready ones with those that are
lost. -/
theorem lossesWp_pass (h : Passed s) :
    LossesWp (seqForeachSafe (0, 0) suspendTurn) s .none fun s' n w' => Passed s' ∧
      n.1 = s'.procs.length ∧ n.2 = readyCount s'.procs + w'.lost := by
  refine Wp.mono (wp_seqForeachSafe (J := Counts) ?_ (fun _ _ _ _ _ _ => lossesWp_suspendTurn)
    ⟨h, rfl, [], rfl, rfl, rfl⟩) ?_
  · rintro p a rest n s w ⟨hs, -, as, hl, -⟩
    exact CoordInfo.next_eq_some hl fun hm =>
      CoordInfo.not_mem_middle hs.addresses hl (by simp [List.mem_map.mp hm])
  · rintro s n w ⟨hs, -, as, hl, htotal, hready⟩
    rw [List.append_nil] at hl
    exact ⟨hs, by rw [hl, htotal], by rw [hl, hready]⟩

/-- When the pass that is the last one ends. -/
theorem lossesWp_coordSuspendProcesses (h : Passed s) (fuel : Nat) :
    LossesWp (coordSuspendProcesses fuel) s .none fun s' _ w' =>
      readyCount s'.procs + w'.lost = s'.procs.length := by
  induction fuel generalizing s with
  | zero => exact Wp.halt trivial
  | succ fuel ih =>
      refine (lossesWp_pass h).bind ?_
      rintro s' n w' ⟨h, htotal, hready⟩
      refine Wp.ite (fun he => Wp.pure ?_) fun _ => lossesWp_call.bind ?_
      · rw [← hready, ← htotal]
        exact he
      · rintro s' _ _ ⟨rfl, rfl⟩
        exact ih h

end Steps

/-- **Every process that is left is ready exactly when the last pass lost none**: no
process that counted as ready was gone. -/
theorem coordSuspendProcesses_ready {s : CoordInfo} (haddr : (s.procs.map Prod.fst).Nodup)
    (hstates : ∀ n ∈ s.procs, n.2.state = .running ∨ n.2.state = .recvCkptRequest ∨
      n.2.state = .readyForCkpt) {fuel : Nat} {s' : CoordInfo} {w : Losses}
    (h : lossesWorld.Reach (coordSuspendProcesses fuel s) .none (.ret s' (), w)) :
    (∀ n ∈ s'.procs, n.2.state = .readyForCkpt) ↔ w.lost = 0 := by
  have passed : Passed s := by
    refine ⟨haddr, fun n hn => ?_⟩
    rcases hstates n hn with hr | hr | hr
    · exact .inl (.inl hr)
    · exact .inr hr
    · exact .inl (.inr hr)
  have hcount : readyCount s'.procs + w.lost = s'.procs.length :=
    Env.reach_of_wp_account (lossesWp_coordSuspendProcesses passed fuel) h
  have hall : readyCount s'.procs = s'.procs.length ↔ ∀ n ∈ s'.procs, n.2.state = .readyForCkpt := by
    rw [readyCount, List.countP_eq_length]
    simp only [decide_eq_true_eq]
  rw [← hall]
  omega

/-- Two processes: 101 is ready, 102 runs. -/
def readyAndRunning : CoordInfo :=
  ((coordInit 3 0 0).push { fd := 5, oobFd := -1, xndPid := 1001, xndPpid := 1000, xndPgid := 1001,
                            virtPid := 2, realPid := 101, virtPpid := 1, realPpid := 50,
                            isRootOfTree := false, state := .readyForCkpt }).push
    { fd := 6, oobFd := -1, xndPid := 1003, xndPpid := 1000, xndPgid := 1003, virtPid := 3,
      realPid := 102, virtPpid := 1, realPpid := 50, isRootOfTree := false, state := .running }

theorem coordSuspendProcesses_ready_two : ∃ s' w,
    lossesWorld.Reach (coordSuspendProcesses 2 readyAndRunning) .none (.ret s' (), w) ∧
      s'.procs.map (·.2.realPid) = [102, 101] ∧ w.lost = 0 ∧
        ((∀ n ∈ s'.procs, n.2.state = .readyForCkpt) ↔ w.lost = 0) := by
  have hreach : lossesWorld.Reach (coordSuspendProcesses 2 readyAndRunning) .none _ :=
    Env.reach_of_replies [⟨.send 6 { hdr := .ckptRequest }, true⟩, ⟨.probe 102, false⟩,
      ⟨.probe 101, false⟩, ⟨.usleep, ()⟩, ⟨.recv 6, some { hdr := .ckptReady }⟩,
      ⟨.probe 102, false⟩, ⟨.probe 101, false⟩] rfl
  exact ⟨_, _, hreach, rfl, rfl, coordSuspendProcesses_ready (by decide) (by decide) hreach⟩

/-- The process that is ready is gone, and the other is taken for it. -/
theorem not_coordSuspendProcesses_ready :
    ¬ ∀ s : CoordInfo, (s.procs.map Prod.fst).Nodup →
      (∀ n ∈ s.procs, n.2.state = .running ∨ n.2.state = .recvCkptRequest ∨
        n.2.state = .readyForCkpt) →
      ∀ fuel s' w, lossesWorld.Reach (coordSuspendProcesses fuel s) .none (.ret s' (), w) →
        ∀ n ∈ s'.procs, n.2.state = .readyForCkpt := by
  intro H
  have hreach : lossesWorld.Reach (coordSuspendProcesses 1 readyAndRunning) .none _ :=
    Env.reach_of_replies [⟨.send 6 { hdr := .ckptRequest }, true⟩, ⟨.probe 102, false⟩,
      ⟨.probe 101, true⟩, ⟨.close 5, ()⟩] rfl
  have hready := H readyAndRunning (by decide) (by decide) 1 _ _ hreach
  exact absurd (hready _ List.mem_cons_self) nofun

end Xnd.Coord
