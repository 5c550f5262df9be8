import Xnd.Suspend.Scan

/-!
# The barrier over many rounds

A round counts the threads that are stopped, waits until the ones that exit are dead, and
lets the others come to the barrier; it is over when `threads_arrived` has reached
`threads_expected`.  The barrier has no generation: a thread of the round before may be
in its second wait, or past it, when the next round begins.  Its state is `ST_SUSPENDED`
until it runs again, so that the scan counts it, and it does not come.

**In a run where no such thread is counted, every thread that is counted comes, once, and
the wait is passed exactly when all of them have come.**
-/
namespace Xnd.Suspend
open Thread (ThreadState XndState)

namespace CkptPc

/-- From the assignment of `threads_expected` to the end of the round. -/
def awaiting (pc : CkptPc) : Bool :=
  pc matches reapAcquire | reap | reapProbe | reapRelease | arrival | arrivalSleep | checkpoint |
    barrierRelease

/-- While `xnd_state` is `XND_CKPTINPROG`. -/
def meeting (pc : CkptPc) : Bool := pc matches arrivalSleep | checkpoint | barrierRelease

/-- After `threads_arrived = 0`, while no thread can come yet. -/
def before (pc : CkptPc) : Bool := pc.scanning || pc.settled || pc matches again | acquire

/-- In `wait_for_exiting_threads`, with the list. -/
def reaping (pc : CkptPc) : Bool := pc matches reap | reapProbe | reapRelease

end CkptPc

/-- `killed`, with the thread that is being probed. -/
def CkptThread.tally (c : CkptThread) : Nat := c.killed + if c.pc = .reapProbe then 1 else 0

/-! ## Arrivals -/

/-- What a step of a user thread means for the barrier: a thread comes, or nobody does. -/
structure Attends (s s' : Process) : Prop where
  expected : s'.threadsExpected = s.threadsExpected
  comes : (s'.came = s.came ∧ s'.threadsArrived = s.threadsArrived ∧ ∀ k,
      ((s.threads k).handler.onWay = true → (s'.threads k).handler.onWay = true) ∧
      (s.xndState = .xndCkptinprog → (s.threads k).handler = .arrived →
        (s'.threads k).handler = .arrived)) ∨
    ∃ i, (s.threads i).handler.onWay = true ∧ s.xndState ≠ .xndSuspinprog ∧
      s'.came = i :: s.came ∧ s'.threadsArrived = s.threadsArrived + 1 ∧
      (s.xndState = .xndCkptinprog → (s'.threads i).handler = .arrived) ∧
      ∀ k, k ≠ i → s'.threads k = s.threads k

/-- A step that no thread comes with, and that moves no thread of the barrier. -/
theorem attends_of_handler {s s' : Process} (hexpected : s'.threadsExpected = s.threadsExpected)
    (hcame : s'.came = s.came ∧ s'.threadsArrived = s.threadsArrived)
    (hhandler : ∀ k, (s.threads k).handler.onWay = true ∨ (s.threads k).handler = .arrived →
      (s'.threads k).handler = (s.threads k).handler) : Attends s s' := by
  refine ⟨hexpected, .inl ⟨hcame.1, hcame.2, fun k => ⟨fun hk => ?_, fun _ hk => ?_⟩⟩⟩
  · rw [hhandler k (.inl hk)]
    exact hk
  · rw [hhandler k (.inr hk)]
    exact hk

/-- The turn of a thread in the handler. -/
theorem attends_of_handlerStep {s s' : Process} {i : Nat} (hs : s.handlerStep i = some s') :
    Attends s s' := by
  have set : ∀ {f : UserThread → UserThread}, ((s.threads i).handler.onWay = true →
        (f (s.threads i)).handler.onWay = true) →
      (s.threads i).handler ≠ .arrived ∨ s.xndState ≠ .xndCkptinprog → Attends s (s.set i f) := by
    intro f honway harrived
    refine ⟨rfl, .inl ⟨rfl, rfl, fun k => ?_⟩⟩
    by_cases hki : k = i
    · subst hki
      rw [show (s.set k f).threads k = f (s.threads k) from put_self _ _ _]
      exact ⟨honway, fun hx hk => (harrived.elim (fun h => h hk) (fun h => h hx)).elim⟩
    · rw [show (s.set i f).threads k = s.threads k from put_of_ne _ hki _]
      exact ⟨id, fun _ => id⟩
  have barrier : (s.threads i).handler = .barrier ∨ (s.threads i).handler = .held →
      Attends s (s.threadBarrier i) := by
    intro hh
    have honway : (s.threads i).handler.onWay = true := by rcases hh with h | h <;> rw [h] <;> rfl
    unfold Process.threadBarrier
    split
    · exact set (fun _ => rfl) (.inl (by rcases hh with h | h <;> rw [h] <;> rintro ⟨⟩))
    · refine ⟨rfl, .inr ⟨i, honway, ‹_›, rfl, rfl, fun hx => ?_, fun k hk => put_of_ne _ hk _⟩⟩
      show (put s.threads i _ i).handler = .arrived
      rw [put_self]
      exact if_pos hx
  unfold Process.handlerStep at hs
  cases hh : (s.threads i).handler <;> simp only [hh] at hs set
  case out => cases hs
  case signaled | suspinprog | released =>
    obtain ⟨-, rfl⟩ := guarded_eq_some.mp hs
    exact set (by simp [HandlerPc.onWay]) (.inl (by rintro ⟨⟩))
  case barrier =>
    obtain ⟨-, rfl⟩ := guarded_eq_some.mp hs
    exact barrier (.inl hh)
  case held =>
    obtain ⟨-, rfl⟩ := guarded_eq_some.mp hs
    exact barrier (.inr hh)
  case arrived =>
    obtain ⟨-, rfl⟩ := guarded_eq_some.mp hs
    split
    · exact attends_of_handler rfl ⟨rfl, rfl⟩ (fun _ _ => rfl)
    · exact set (by simp [HandlerPc.onWay]) (.inr ‹_›)

/-- **What a step of a user thread is for the barrier.** -/
theorem attends_of_step {s s' : Process} {t : Turn} (hr : Regular s) (hs : step s t = some s') :
    (t = .ckpt ∧ s.ckptStep = some s') ∨ Attends s s' := by
  have hnot : ∀ {k : Nat}, (s.threads k).handler = .out →
      ¬ ((s.threads k).handler.onWay = true ∨ (s.threads k).handler = .arrived) := by
    intro k hout
    rw [hout]
    exact nofun
  rcases step_cases hs with hc | ⟨i, hout, hp | ⟨-, rfl⟩⟩ | ⟨i, hturn, hh⟩ | rfl
  · exact .inl hc
  · obtain ⟨-, -, hexpected, harrived, -, -, hcame⟩ := hp.frame
    refine .inr (attends_of_handler hexpected ⟨hcame, harrived⟩ fun k _ => ?_)
    by_cases hki : k = i
    · rw [hki, hp.handler]
    · rw [hp.threads k hki]
  · exact .inr (attends_of_handler rfl ⟨rfl, rfl⟩ fun k _ => (create_threads hr hout k).1)
  · rcases hturn with ⟨rfl, hout, -⟩ | ⟨-, hstep⟩
    · obtain ⟨-, rfl⟩ := guarded_eq_some.mp hs
      refine .inr (attends_of_handler rfl ⟨rfl, rfl⟩ fun k hk => ?_)
      have hki : k ≠ i := by
        rintro rfl
        exact hnot hout hk
      exact congrArg UserThread.handler (put_of_ne _ hki _)
    · exact .inr (attends_of_handlerStep hstep)
  · exact .inr (attends_of_handler rfl ⟨rfl, rfl⟩ (fun _ _ => rfl))

/-! ## The invariant -/

/-- **The invariant of a round.** -/
structure Meets (s : Process) : Prop where
  arrived : s.threadsArrived = s.came.length
  expected : s.ckpt.pc.awaiting = true → s.threadsExpected = s.counted.length
  empty : s.ckpt.pc.before = true → s.came = []
  ended : s.ckpt.pc = .reapRelease → s.ckpt.todo = []
  reaped : s.ckpt.pc.reaping = true → s.ckpt.tally ≤ s.ckpt.exiting ∧
    (s.ckpt.tally = s.ckpt.exiting → ∀ i ∈ s.threadList, i ∉ s.ckpt.todo → i ∈ s.counted)
  all : s.ckpt.pc = .arrival ∨ s.ckpt.pc.meeting = true → ∀ i ∈ s.threadList, i ∈ s.counted
  came : s.ckpt.pc.meeting = true → s.came.Nodup ∧ ∀ i ∈ s.came, i ∈ s.counted
  met : s.ckpt.pc.meeting = true → ∀ i ∈ s.counted,
    (i ∈ s.came ∧ (s.threads i).handler = .arrived) ∨
      (i ∉ s.came ∧ (s.threads i).handler.onWay = true)
  passed : s.ckpt.pc = .checkpoint ∨ s.ckpt.pc = .barrierRelease → ∀ i ∈ s.counted, i ∈ s.came

theorem meets_init : Meets .init := by
  constructor
  case arrived => rfl
  case empty => exact fun _ => rfl
  case ended => exact fun _ => rfl
  case all | passed => rintro (h | h) <;> cases h
  all_goals exact nofun

namespace Meets
variable {s s' : Process} {i : Nat}

/-- In a meeting every listed thread is stopped. -/
theorem stopped (h : Meets s) (hpc : s.ckpt.pc.meeting = true) : s.Stopped := by
  intro i hi
  rcases h.met hpc i (h.all (.inr hpc) i hi) with ⟨-, ha⟩ | ⟨-, hw⟩
  · exact .inr (.inr ha)
  · exact .inr (.inl hw)

/-- After `threads_expected` is assigned no thread comes to the list. -/
theorem list (h : Meets s) (hsc : Scanned s) (hr : Regular s) (hb : Beside s s')
    (hpc : s.ckpt.pc.settled = true ∨ s.ckpt.pc.meeting = true) :
    s'.threadList = s.threadList := by
  rcases hpc with hpc | hpc
  · exact hsc.settled_list hr hb hpc
  · rcases hb.list with hl | ⟨-, k, hk⟩
    · exact hl
    · exact absurd hk (hr.none_added (h.stopped hpc) k)

/-- **A thread comes**, or nobody does. -/
theorem attends (h : Meets s) (hsc : Scanned s) (hr : Regular s) (hb : Beside s s')
    (ha : Attends s s') : Meets s' := by
  have hphase : s.ckpt.pc.meeting = true → s.xndState = .xndCkptinprog := by
    intro hpc
    rw [hsc.phase]
    revert hpc
    cases s.ckpt.pc <;> simp [CkptPc.meeting, CkptPc.phase]
  -- a thread that comes in a meeting was counted, and came not before
  have hcomes : ∀ i, (s.threads i).handler.onWay = true → s.ckpt.pc.meeting = true →
      i ∈ s.counted ∧ i ∉ s.came := by
    intro i hway hpc
    have hne : (s.threads i).handler ≠ .out := fun hout => by rw [hout] at hway; cases hway
    have hcounted := h.all (.inr hpc) i (hsc.listed hr hne)
    rcases h.met hpc i hcounted with ⟨-, harrived⟩ | ⟨hnot, -⟩
    · rw [harrived] at hway
      cases hway
    · exact ⟨hcounted, hnot⟩
  constructor
  case arrived =>
    rcases ha.comes with ⟨hc, hn, -⟩ | ⟨i, -, -, hc, hn, -⟩
    · rw [hc, hn]
      exact h.arrived
    · rw [hc, hn, h.arrived, List.length_cons]
  case expected =>
    rw [hb.ckpt, hb.counted, ha.expected]
    exact h.expected
  case empty =>
    rw [hb.ckpt]
    intro hpc
    have hxnd : s.xndState = .xndSuspinprog := by
      rw [hsc.phase]
      revert hpc
      cases s.ckpt.pc <;>
        simp [CkptPc.before, CkptPc.scanning, CkptPc.turning, CkptPc.settled, CkptPc.phase]
    rcases ha.comes with ⟨hc, -⟩ | ⟨i, -, hne, -⟩
    · rw [hc]
      exact h.empty hpc
    · exact absurd hxnd hne
  case ended => rw [hb.ckpt]; exact h.ended
  case reaped =>
    rw [hb.ckpt, hb.counted]
    intro hpc
    have hsettled : s.ckpt.pc.settled = true := by
      revert hpc
      cases s.ckpt.pc <;> decide
    rw [h.list hsc hr hb (.inl hsettled)]
    exact h.reaped hpc
  case all =>
    rw [hb.ckpt, hb.counted]
    intro hpc
    rw [h.list hsc hr hb (hpc.imp (fun he => by rw [he]; rfl) id)]
    exact h.all hpc
  case came =>
    rw [hb.ckpt, hb.counted]
    intro hpc
    rcases ha.comes with ⟨hc, -⟩ | ⟨i, hway, -, hc, -⟩
    · rw [hc]
      exact h.came hpc
    · obtain ⟨hcounted, hnot⟩ := hcomes i hway hpc
      rw [hc]
      refine ⟨List.nodup_cons.mpr ⟨hnot, (h.came hpc).1⟩, fun k hk => ?_⟩
      rcases List.mem_cons.mp hk with rfl | hk
      · exact hcounted
      · exact (h.came hpc).2 k hk
  case met =>
    rw [hb.ckpt, hb.counted]
    intro hpc k hk
    rcases ha.comes with ⟨hc, -, hmoves⟩ | ⟨i, hway, -, hc, -, harrived, hothers⟩
    · rw [hc]
      rcases h.met hpc k hk with ⟨hm, he⟩ | ⟨hm, hw⟩
      · exact .inl ⟨hm, (hmoves k).2 (hphase hpc) he⟩
      · exact .inr ⟨hm, (hmoves k).1 hw⟩
    · rw [hc]
      by_cases hki : k = i
      · rw [hki]
        exact .inl ⟨List.mem_cons_self, harrived (hphase hpc)⟩
      · rw [hothers k hki]
        rcases h.met hpc k hk with ⟨hm, he⟩ | ⟨hm, hw⟩
        · exact .inl ⟨List.mem_cons_of_mem i hm, he⟩
        · exact .inr ⟨fun hin => (List.mem_cons.mp hin).elim hki hm, hw⟩
  case passed =>
    rw [hb.ckpt, hb.counted]
    intro hpc k hk
    rcases ha.comes with ⟨hc, -⟩ | ⟨i, -, -, hc, -⟩
    · rw [hc]
      exact h.passed hpc k hk
    · rw [hc]
      exact List.mem_cons_of_mem i (h.passed hpc k hk)

/-- Between two rounds, and in the scan. -/
theorem idle (harrived : s'.threadsArrived = s'.came.length)
    (hnone : s'.ckpt.pc.before = true → s'.came = []) (hpc : s'.ckpt.pc.awaiting = false) :
    Meets s' := by
  have hmeeting : s'.ckpt.pc.meeting ≠ true := by
    revert hpc
    cases s'.ckpt.pc <;> decide
  have hreaping : s'.ckpt.pc.reaping ≠ true := by
    revert hpc
    cases s'.ckpt.pc <;> decide
  constructor
  case arrived => exact harrived
  case expected => simp [hpc]
  case empty => exact hnone
  case ended => intro he; rw [he] at hpc; cases hpc
  case reaped => exact fun he => absurd he hreaping
  case all =>
    rintro (he | he)
    · rw [he] at hpc
      cases hpc
    · exact absurd he hmeeting
  case passed => rintro (he | he) <;> rw [he] at hpc <;> cases hpc
  all_goals exact fun he => absurd he hmeeting

/-- In `wait_for_exiting_threads`. -/
theorem reap (harrived : s'.threadsArrived = s'.came.length)
    (hexpected : s'.threadsExpected = s'.counted.length) (hnone : s'.came = [])
    (hpc : s'.ckpt.pc = .reapAcquire ∨ s'.ckpt.pc.reaping = true)
    (hended : s'.ckpt.pc = .reapRelease → s'.ckpt.todo = [])
    (hreaped : s'.ckpt.pc.reaping = true → s'.ckpt.tally ≤ s'.ckpt.exiting ∧
      (s'.ckpt.tally = s'.ckpt.exiting →
        ∀ i ∈ s'.threadList, i ∉ s'.ckpt.todo → i ∈ s'.counted)) : Meets s' := by
  have hmeeting : s'.ckpt.pc.meeting ≠ true := by
    revert hpc
    cases s'.ckpt.pc <;> decide
  constructor
  case arrived => exact harrived
  case expected => exact fun _ => hexpected
  case empty => exact fun _ => hnone
  case ended => exact hended
  case reaped => exact hreaped
  case all =>
    rintro (he | he)
    · rw [he] at hpc
      rcases hpc with hp | hp <;> cases hp
    · exact absurd he hmeeting
  case passed =>
    rintro (he | he)
    · exact absurd (by rw [he]; rfl) hmeeting
    · exact absurd (by rw [he]; rfl) hmeeting
  all_goals exact fun he => absurd he hmeeting

/-- In a meeting. -/
theorem meet (harrived : s'.threadsArrived = s'.came.length)
    (hexpected : s'.threadsExpected = s'.counted.length) (hpc : s'.ckpt.pc.meeting = true)
    (hall : ∀ i ∈ s'.threadList, i ∈ s'.counted)
    (hcame : s'.came.Nodup ∧ ∀ i ∈ s'.came, i ∈ s'.counted)
    (hmet : ∀ i ∈ s'.counted, (i ∈ s'.came ∧ (s'.threads i).handler = .arrived) ∨
      (i ∉ s'.came ∧ (s'.threads i).handler.onWay = true))
    (hpassed : s'.ckpt.pc ≠ .arrivalSleep → ∀ i ∈ s'.counted, i ∈ s'.came) : Meets s' := by
  have hbefore : s'.ckpt.pc.before ≠ true := by
    revert hpc
    cases s'.ckpt.pc <;> decide
  have hreaping : s'.ckpt.pc.reaping ≠ true := by
    revert hpc
    cases s'.ckpt.pc <;> decide
  constructor
  case arrived => exact harrived
  case expected => exact fun _ => hexpected
  case empty => exact fun he => absurd he hbefore
  case ended => exact fun he => absurd (by rw [he]; rfl) hreaping
  case reaped => exact fun he => absurd he hreaping
  case all => exact fun _ => hall
  case came => exact fun _ => hcame
  case met => exact fun _ => hmet
  case passed =>
    rintro (he | he)
    · exact hpassed (by rw [he]; exact nofun)
    · exact hpassed (by rw [he]; exact nofun)

/-- **The count is right**: the test of `barrier_arrival_wait` compares lengths, and the
threads that have come are among the counted ones. -/
theorem length_le_iff (hcounted : s.counted.Nodup) (hcame : s.came.Nodup ∧ ∀ i ∈ s.came, i ∈ s.counted) :
    s.counted.length ≤ s.came.length ↔ ∀ i ∈ s.counted, i ∈ s.came := by
  constructor
  · intro hle i hi
    have hperm := (hcame.1.subperm hcame.2).perm_of_length_le hle
    exact hperm.mem_iff.mpr hi
  · exact fun hsub => (hcounted.subperm hsub).length_le

/-- A turn of the scan is none of the barrier. -/
theorem scanStep_frame (hs : s.scanStep i = some s') :
    s'.came = s.came ∧ s'.threadsArrived = s.threadsArrived ∧ s'.ckpt.pc.scanning = true := by
  unfold Process.scanStep at hs
  simp only at hs
  cases hpc : s.ckpt.pc <;> simp only [hpc] at hs
  case lockThread =>
    obtain ⟨-, rfl⟩ := guarded_eq_some.mp hs
    exact ⟨rfl, rfl, rfl⟩
  case kill | probe =>
    split at hs
    · obtain ⟨-, rfl⟩ := guarded_eq_some.mp hs
      exact ⟨rfl, rfl, rfl⟩
    · obtain rfl := Option.some.inj hs
      exact ⟨rfl, rfl, rfl⟩
  case testRunning | testSignaled =>
    obtain rfl := Option.some.inj hs
    refine ⟨rfl, rfl, ?_⟩
    show (if _ then _ else _ : CkptPc).scanning = true
    split <;> rfl
  case foreach | testJoined | casRunning | testSuspended | testSuspinprog | testUnsafe | testEmbryo =>
    split at hs <;> obtain rfl := Option.some.inj hs <;> exact ⟨rfl, rfl, rfl⟩
  case unlockThread =>
    obtain rfl := Option.some.inj hs
    exact ⟨rfl, rfl, rfl⟩
  all_goals cases hs

/-- A turn of `wait_for_exiting_threads`. -/
theorem reapStep (h : Meets s) (hsc : Scanned s) (hr : Regular s) {rest : List Nat}
    (htodo : s.ckpt.todo = i :: rest) (hs : s.reapStep i = some s') : Meets s' := by
  have hgone : i ∉ s.threadList.erase i := hr.nodup.not_mem_erase
  -- what is left of the list when the thread whose turn it was is removed
  have hremoved : (∀ k ∈ s.threadList, k ∉ s.ckpt.todo → k ∈ s.counted) →
      ∀ k ∈ s.threadList.erase i, k ∉ s.ckpt.todo.tail → k ∈ s.counted := by
    intro hall k hk hkr
    refine hall k (List.mem_of_mem_erase hk) fun hm => ?_
    rw [htodo] at hm hkr
    rcases List.mem_cons.mp hm with rfl | hm
    · exact hgone hk
    · exact hkr hm
  unfold Process.reapStep at hs
  cases hpc : s.ckpt.pc <;> simp only [hpc] at hs
  case reap =>
    have htally : s.ckpt.tally = s.ckpt.killed := by simp [CkptThread.tally, hpc]
    have hexpected := h.expected (by rw [hpc]; rfl)
    have hnone := h.empty (by rw [hpc]; rfl)
    obtain ⟨hle, hall⟩ := h.reaped (by rw [hpc]; rfl)
    rw [htally] at hle hall
    split at hs
    · obtain rfl := Option.some.inj hs
      exact reap h.arrived hexpected hnone (.inr rfl) nofun fun _ =>
        ⟨hle, fun he => hremoved (hall he)⟩
    · split at hs
      · obtain rfl := Option.some.inj hs
        refine reap h.arrived hexpected hnone (.inr rfl) nofun fun _ => ⟨?_, fun he => ?_⟩
        · exact Nat.succ_le_succ hle
        · exact hall (Nat.succ.inj he)
      · obtain ⟨-, rfl⟩ := guarded_eq_some.mp hs
        refine reap h.arrived hexpected hnone (.inr rfl) nofun fun _ => ⟨hle, fun he k hk hkr => ?_⟩
        by_cases hki : k = i
        · rw [hki]
          exact (hsc.settled (by rw [hpc]; rfl) i (hki ▸ hk)).resolve_left ‹_›
        · refine hall he k hk fun hm => ?_
          rw [htodo] at hm
          rcases List.mem_cons.mp hm with rfl | hm
          · exact hki rfl
          · refine hkr ?_
            show k ∈ s.ckpt.todo.tail
            rw [htodo]
            exact hm
  case reapProbe =>
    have htally : s.ckpt.tally = s.ckpt.killed + 1 := by simp [CkptThread.tally, hpc]
    have hexpected := h.expected (by rw [hpc]; rfl)
    have hnone := h.empty (by rw [hpc]; rfl)
    obtain ⟨hle, hall⟩ := h.reaped (by rw [hpc]; rfl)
    rw [htally] at hle hall
    split at hs
    · obtain ⟨-, rfl⟩ := guarded_eq_some.mp hs
      exact reap h.arrived hexpected hnone (.inr rfl) nofun fun _ =>
        ⟨hle, fun he => hremoved (hall he)⟩
    · obtain rfl := Option.some.inj hs
      refine reap h.arrived hexpected hnone (.inr rfl) nofun fun _ => ⟨?_, fun he => ?_⟩
      · show s.ckpt.killed + 0 ≤ s.ckpt.exiting
        omega
      · have : s.ckpt.killed + 0 = s.ckpt.exiting := he
        omega
  all_goals cases hs

/-- The test of `barrier_arrival_wait`. -/
theorem arrivalTest (harrived : s.threadsArrived = s.came.length)
    (hexpected : s.threadsExpected = s.counted.length) (hnodup : s.counted.Nodup)
    (hall : ∀ i ∈ s.threadList, i ∈ s.counted)
    (hcame : s.came.Nodup ∧ ∀ i ∈ s.came, i ∈ s.counted)
    (hmet : ∀ i ∈ s.counted, (i ∈ s.came ∧ (s.threads i).handler = .arrived) ∨
      (i ∉ s.came ∧ (s.threads i).handler.onWay = true)) : Meets s.arrivalTest := by
  have hpc : s.arrivalTest.ckpt.pc =
      if s.threadsArrived < s.threadsExpected then .arrivalSleep else .checkpoint := rfl
  refine meet harrived hexpected ?_ hall hcame hmet fun hne => ?_
  · rw [hpc]
    split <;> rfl
  · refine (length_le_iff hnodup hcame).mp ?_
    rw [hpc] at hne
    split at hne
    · exact absurd rfl hne
    · omega

/-- **A step of the checkpoint thread.** -/
theorem ckptStep (h : Meets s) (hsc : Scanned s) (hr : Regular s) (hs : s.ckptStep = some s') :
    Meets s' := by
  have scan : s.ckpt.pc.turning = true ∨ s.ckpt.pc = .unlockThread →
      ∀ {i}, s.scanStep i = some s' → Meets s' := by
    intro hpc i hs
    obtain ⟨hcame, harrived, hscan⟩ := scanStep_frame hs
    refine idle (by rw [harrived, hcame]; exact h.arrived) (fun _ => ?_) ?_
    · rw [hcame]
      refine h.empty ?_
      revert hpc
      cases s.ckpt.pc <;> decide
    · revert hscan
      cases s'.ckpt.pc <;> decide
  unfold Process.ckptStep at hs
  cases hpc : s.ckpt.pc <;> simp only [hpc] at hs
  case wait | suspend =>
    obtain rfl := Option.some.inj hs
    exact idle h.arrived (by rintro ⟨⟩) rfl
  case resetArrived =>
    obtain rfl := Option.some.inj hs
    exact idle rfl (fun _ => rfl) rfl
  case again | acquire =>
    obtain ⟨-, rfl⟩ := guarded_eq_some.mp hs
    exact idle h.arrived (fun _ => h.empty (by rw [hpc]; rfl)) rfl
  case unlockMtx =>
    obtain rfl := Option.some.inj hs
    exact idle h.arrived (fun _ => h.empty (by rw [hpc]; rfl)) rfl
  case release =>
    obtain rfl := Option.some.inj hs
    refine idle h.arrived (fun _ => h.empty (by rw [hpc]; rfl)) ?_
    show (if _ then CkptPc.again else CkptPc.setExpected).awaiting = false
    split <;> rfl
  case setExpected =>
    obtain rfl := Option.some.inj hs
    exact reap h.arrived hsc.suspended (h.empty (by rw [hpc]; rfl)) (.inl rfl) (by rintro ⟨⟩) (by rintro ⟨⟩)
  case reapAcquire =>
    obtain ⟨-, rfl⟩ := guarded_eq_some.mp hs
    exact reap h.arrived (h.expected (by rw [hpc]; rfl)) (h.empty (by rw [hpc]; rfl)) (.inr rfl) (by rintro ⟨⟩)
      fun _ => ⟨Nat.le_refl 0, fun _ k hk hkr => absurd hk hkr⟩
  case foreach =>
    cases htodo : s.ckpt.todo with
    | nil =>
        rw [htodo] at hs
        obtain rfl := Option.some.inj hs
        exact idle h.arrived (fun _ => h.empty (by rw [hpc]; rfl)) rfl
    | cons i todo =>
        rw [htodo] at hs
        exact scan (.inl (by rw [hpc]; rfl)) hs
  case reap =>
    cases htodo : s.ckpt.todo with
    | nil =>
        rw [htodo] at hs
        obtain rfl := Option.some.inj hs
        have htally : s.ckpt.tally = s.ckpt.killed := by simp [CkptThread.tally, hpc]
        obtain ⟨hle, hall⟩ := h.reaped (by rw [hpc]; rfl)
        rw [htally] at hle hall
        exact reap h.arrived (h.expected (by rw [hpc]; rfl)) (h.empty (by rw [hpc]; rfl)) (.inr rfl)
          (fun _ => htodo) fun _ => ⟨hle, hall⟩
    | cons i todo =>
        rw [htodo] at hs
        exact h.reapStep hsc hr htodo hs
  case reapProbe =>
    obtain ⟨i, hhead, hs⟩ := Option.bind_eq_some_iff.mp hs
    obtain ⟨rest, htodo⟩ := List.head?_eq_some_iff.mp hhead
    exact h.reapStep hsc hr htodo hs
  case reapRelease =>
    obtain rfl := Option.some.inj hs
    have htally : s.ckpt.tally = s.ckpt.killed := by simp [CkptThread.tally, hpc]
    obtain ⟨-, hall⟩ := h.reaped (by rw [hpc]; rfl)
    by_cases he : s.ckpt.exiting = s.ckpt.killed
    · rw [if_pos he]
      constructor
      case arrived => exact h.arrived
      case expected => exact fun _ => h.expected (by rw [hpc]; rfl)
      case empty => exact fun _ => h.empty (by rw [hpc]; rfl)
      case all =>
        intro _ i hi
        refine hall (by rw [htally, he]) i hi ?_
        rw [h.ended hpc]
        exact List.not_mem_nil
      case passed => rintro (hp | hp) <;> cases hp
      all_goals rintro ⟨⟩
    · rw [if_neg he]
      exact reap h.arrived (h.expected (by rw [hpc]; rfl)) (h.empty (by rw [hpc]; rfl)) (.inl rfl)
        (by rintro ⟨⟩) (by rintro ⟨⟩)
  case arrival =>
    obtain ⟨-, rfl⟩ := guarded_eq_some.mp hs
    have hnone := h.empty (by rw [hpc]; rfl)
    have hempty : ∀ i, i ∉ s.came := fun i hi => by rw [hnone] at hi; cases hi
    refine arrivalTest h.arrived (h.expected (by rw [hpc]; rfl)) hsc.nodup (h.all (.inl hpc)) ?_ ?_
    · exact ⟨hnone ▸ List.nodup_nil, fun i hi => absurd hi (hempty i)⟩
    · exact fun i hi => .inr ⟨hempty i, hsc.way (.inr (by rw [hpc]; rfl)) i hi⟩
  case arrivalSleep =>
    obtain ⟨-, rfl⟩ := guarded_eq_some.mp hs
    have hmeeting : s.ckpt.pc.meeting = true := by rw [hpc]; rfl
    exact arrivalTest h.arrived (h.expected (by rw [hpc]; rfl)) hsc.nodup (h.all (.inr hmeeting))
      (h.came hmeeting) (h.met hmeeting)
  case checkpoint =>
    obtain rfl := Option.some.inj hs
    have hmeeting : s.ckpt.pc.meeting = true := by rw [hpc]; rfl
    exact meet h.arrived (h.expected (by rw [hpc]; rfl)) rfl (h.all (.inr hmeeting))
      (h.came hmeeting) (h.met hmeeting) (fun _ => h.passed (.inl hpc))
  case barrierRelease =>
    obtain ⟨-, rfl⟩ := guarded_eq_some.mp hs
    exact idle h.arrived (by rintro ⟨⟩) rfl
  all_goals
    obtain ⟨i, -, hs⟩ := Option.bind_eq_some_iff.mp hs
    exact scan (by rw [hpc]; decide) hs

/-- **One step.** -/
theorem step (h : Meets s) (hsc : Scanned s) (hr : Regular s) {t : Turn}
    (hs : Suspend.step s t = some s') : Meets s' := by
  rcases beside_of_step hr hs with ⟨rfl, hc⟩ | hb
  · exact h.ckptStep hsc hr hc
  · rcases attends_of_step hr hs with ⟨rfl, hc⟩ | ha
    · exact h.ckptStep hsc hr hc
    · exact h.attends hsc hr hb ha

end Meets

/-! ## The rounds -/

/-- What a round has to do with the threads that it counts: each has come or is on its
way, once; the wait is passed when all of them have come, and they can come. -/
structure Process.Round (s : Process) : Prop where
  attended : s.ckpt.pc.awaiting = true → ∀ i ∈ s.counted,
    i ∈ s.came ∨ (s.threads i).handler.onWay = true
  once : s.ckpt.pc.awaiting = true →
    s.counted.Nodup ∧ s.came.Nodup ∧ ∀ i ∈ s.came, i ∈ s.counted
  counts : s.ckpt.pc.awaiting = true →
    s.threadsExpected = s.counted.length ∧ s.threadsArrived = s.came.length
  passes : s.ckpt.pc = .arrival ∨ s.ckpt.pc = .arrivalSleep → ∀ s', s.ckptStep = some s' →
    (s'.ckpt.pc = .checkpoint ↔ ∀ i ∈ s.counted, i ∈ s.came)
  passed : s.ckpt.pc = .checkpoint ∨ s.ckpt.pc = .barrierRelease → ∀ i ∈ s.counted, i ∈ s.came
  comes : s.ckpt.pc = .arrivalSleep → ∀ i ∈ s.counted, i ∉ s.came →
    ∃ s', Machine.Runs step (fun _ t => t = .handler i) s s' ∧ i ∈ s'.came

/-- No thread that is stopped holds `ckpt_mtx`. -/
theorem Regular.mtx_free {s : Process} (h : Regular s) (hstop : s.Stopped)
    (hckpt : Lock.ckptMtx ∉ s.ckpt.held) : s.lock .ckptMtx = none := by
  cases hlock : s.lock .ckptMtx with
  | none => rfl
  | some o =>
      cases o with
      | ckpt => exact absurd ((h.ckptHeld _).mp hlock) hckpt
      | user k =>
          have hmem := (h.held _ k).mp hlock
          have hsection := h.none_inSection hstop k
          revert hsection
          cases hpc : (s.threads k).pc <;> simp [UserThread.held, hpc, Pc.inSection] at hmem ⊢

/-- A thread at the barrier comes with its next step. -/
theorem comes_of_barrier {s : Process} {i : Nat}
    (hh : (s.threads i).handler = .barrier ∨ (s.threads i).handler = .held)
    (hfree : s.lock .ckptMtx = none) (hxnd : s.xndState ≠ .xndSuspinprog) :
    ∃ s', step s (.handler i) = some s' ∧ i ∈ s'.came := by
  have hstep : s.handlerStep i = some (s.threadBarrier i) := by
    rcases hh with h | h <;> simp [Process.handlerStep, h, hfree, guarded]
  refine ⟨_, hstep, ?_⟩
  rw [Process.threadBarrier, if_neg hxnd]
  exact List.mem_cons_self

/-- **A thread on its way comes**, when its turns come. -/
theorem runs_comes {s : Process} {i : Nat} (hr : Regular s)
    (hway : (s.threads i).handler.onWay = true) (hfree : s.lock .ckptMtx = none)
    (hxnd : s.xndState ≠ .xndSuspinprog) :
    ∃ s', Machine.Runs step (fun _ t => t = .handler i) s s' ∧ i ∈ s'.came := by
  have arrives : ∀ s : Process, (s.threads i).handler = .barrier ∨ (s.threads i).handler = .held →
      s.lock .ckptMtx = none → s.xndState ≠ .xndSuspinprog →
      ∃ s', Machine.Step step (fun _ t => t = .handler i) s s' ∧ i ∈ s'.came := by
    intro s hh hfree hxnd
    obtain ⟨s', hs, hcame⟩ := comes_of_barrier hh hfree hxnd
    exact ⟨s', ⟨_, rfl, hs⟩, hcame⟩
  cases hh : (s.threads i).handler <;> rw [hh] at hway
  case suspinprog =>
    have hstate : (s.threads i).state = .stSuspinprog := by
      have := (hr.fits i).handler
      rw [hh] at this
      exact this
    have hfirst : step s (.handler i) = some
        (s.set i fun t => { t with state := .stSuspended, handler := .barrier }) := by
      simp [step, Process.handlerStep, hh, hstate, guarded]
    obtain ⟨s', hsecond, hcame⟩ := arrives
      (s.set i fun t => { t with state := .stSuspended, handler := .barrier })
      (.inl (congrArg UserThread.handler (put_self _ _ _))) hfree hxnd
    exact ⟨s', .tail (.single ⟨_, rfl, hfirst⟩) hsecond, hcame⟩
  case barrier =>
    obtain ⟨s', hs, hcame⟩ := arrives s (.inl hh) hfree hxnd
    exact ⟨s', .single hs, hcame⟩
  case held =>
    obtain ⟨s', hs, hcame⟩ := arrives s (.inr hh) hfree hxnd
    exact ⟨s', .single hs, hcame⟩
  all_goals cases hway

/-- **The invariants give the property.** -/
theorem Meets.round {s : Process} (h : Meets s) (hsc : Scanned s) (hr : Regular s) : s.Round := by
  have hsplit : s.ckpt.pc.awaiting = true → s.ckpt.pc.settled = true ∧ s.came = [] ∨
      s.ckpt.pc.meeting = true := by
    intro hpc
    have hcases : s.ckpt.pc.settled = true ∨ s.ckpt.pc.meeting = true := by
      revert hpc
      cases s.ckpt.pc <;> decide
    refine hcases.imp (fun hsettled => ⟨hsettled, h.empty ?_⟩) id
    simp [CkptPc.before, hsettled]
  have hcame : s.ckpt.pc.awaiting = true → s.came.Nodup ∧ ∀ i ∈ s.came, i ∈ s.counted := by
    intro hpc
    rcases hsplit hpc with ⟨-, hnone⟩ | hmeeting
    · rw [hnone]
      exact ⟨List.nodup_nil, fun _ hi => absurd hi List.not_mem_nil⟩
    · exact h.came hmeeting
  constructor
  case attended =>
    intro hpc i hi
    rcases hsplit hpc with ⟨hsettled, -⟩ | hmeeting
    · exact .inr (hsc.way (.inr hsettled) i hi)
    · exact (h.met hmeeting i hi).imp And.left And.right
  case once => exact fun hpc => ⟨hsc.nodup, hcame hpc⟩
  case counts => exact fun hpc => ⟨h.expected hpc, h.arrived⟩
  case passes =>
    intro hpc s' hs
    have hawaiting : s.ckpt.pc.awaiting = true := by rcases hpc with hp | hp <;> rw [hp] <;> rfl
    have htest : s'.ckpt.pc =
        if s.threadsArrived < s.threadsExpected then .arrivalSleep else .checkpoint := by
      rcases hpc with hp | hp <;> simp only [Process.ckptStep, hp] at hs <;>
        obtain ⟨-, rfl⟩ := guarded_eq_some.mp hs <;> rfl
    rw [htest, ← Meets.length_le_iff hsc.nodup (hcame hawaiting), h.arrived, h.expected hawaiting]
    by_cases hlt : s.came.length < s.counted.length
    · rw [if_pos hlt]
      exact iff_of_false (by rintro ⟨⟩) (by omega)
    · rw [if_neg hlt]
      exact iff_of_true rfl (by omega)
  case passed => exact h.passed
  case comes =>
    intro hpc i hi hnot
    have hmeeting : s.ckpt.pc.meeting = true := by rw [hpc]; rfl
    have hway := ((h.met hmeeting i hi).resolve_left fun hc => hnot hc.1).2
    have hfree : s.lock .ckptMtx = none := by
      refine hr.mtx_free (h.stopped hmeeting) ?_
      rw [CkptThread.held, hpc]
      exact List.not_mem_nil
    refine runs_comes hr hway hfree ?_
    rw [hsc.phase, hpc]
    rintro ⟨⟩

/-- **The condition**: no thread falls through the tests of the scan, and none is counted
that is still in the second wait of `thread_barrier`, or past it. -/
def Current (s : Process) (t : Turn) : Prop := Caught s t ∧ Fresh s t

instance (s : Process) (t : Turn) : Decidable (Current s t) := inferInstanceAs (Decidable (_ ∧ _))

/-- **Every thread that is counted comes in the same round**, and the wait for the
arrivals is passed exactly when all of them have come. -/
theorem round_of_runs {s : Process} (h : Machine.Runs step Current .init s) : s.Round := by
  obtain ⟨hr, hscanned, hmeets⟩ : Regular s ∧ Scanned s ∧ Meets s :=
    h.invariant (I := fun s => Regular s ∧ Scanned s ∧ Meets s)
      (fun _ _ _ hi hok hs => ⟨hi.1.step hs, hi.2.1.step hi.1 hok.1 hok.2 hs,
        hi.2.2.step hi.2.1 hi.1 hs⟩)
      ⟨regular_init, scanned_init, meets_init⟩
  exact hmeets.round hscanned hr

/-- A round with the main thread, until `barrier_arrival_wait` has slept once. -/
def firstRound : List Turn :=
  firstPass ++ [.deliver 0, .handler 0, .handler 0] ++ List.replicate 21 .ckpt

/-- The main thread comes. -/
theorem round_of_runs_main :
    ∃ s, Machine.Runs step Current .init s ∧ s.counted = [0] ∧ s.came = [0] ∧ s.Round := by
  obtain ⟨s, hruns, hs⟩ := Machine.exists_runs step Current .init
    (fun s => decide (s.counted = [0] ∧ s.came = [0])) (firstRound ++ [.handler 0]) (by decide)
  obtain ⟨hcounted, hcame⟩ := of_decide_eq_true hs
  exact ⟨s, hruns, hcounted, hcame, round_of_runs hruns⟩

/-- The main thread is counted in the second round before it has run again after the
first one, and leaves `thread_barrier` without coming. -/
theorem not_round_of_runs : ¬ ∀ s, Machine.Runs step (fun _ _ => True) .init s → s.Round := by
  intro h
  obtain ⟨s, hruns, hs⟩ := Machine.exists_runs step (fun _ _ => True) .init
    (fun s => decide (s.ckpt.pc = .arrivalSleep ∧ 0 ∈ s.counted ∧ 0 ∉ s.came ∧
      (s.threads 0).handler = .out))
    (firstRound ++ [.handler 0] ++ List.replicate 3 .ckpt ++ [.handler 0] ++
      List.replicate 21 .ckpt ++ [.handler 0]) (by decide)
  obtain ⟨hpc, hcounted, hcame, hout⟩ := of_decide_eq_true hs
  rcases (h s hruns).attended (by rw [hpc]; rfl) 0 hcounted with hin | hway
  · exact hcame hin
  · rw [hout] at hway
    cases hway

end Xnd.Suspend
