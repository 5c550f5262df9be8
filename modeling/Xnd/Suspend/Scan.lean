import Xnd.Suspend.Regular

/-!
# The scan of `suspend_threads`

A pass of the scan gives every listed thread its turn, and a thread is counted when its
state is `ST_SUSPENDED` or `ST_SUSPINPROG`.  The state is read once for each test, so a
thread that goes on between two tests can fall through all of them, and a thread that an
earlier round has released is still `ST_SUSPENDED`.  `exiting` is read before the signal
is sent, so a thread can begin to exit and be stopped afterwards.

**Where none of this happens, the scan leaves every listed thread stopped and counted
once, unless it exits, and no thread that exits is stopped.**
-/
namespace Xnd.Suspend
open Thread (ThreadState XndState)

namespace CkptPc

/-- `xnd_state`, by where the checkpoint thread is. -/
def phase : CkptPc → XndState
  | wait => .xndRunning
  | suspend => .xndCkptPending
  | arrivalSleep | checkpoint | barrierRelease => .xndCkptinprog
  | _ => .xndSuspinprog

/-- In the turn of a thread that is not classified yet, or before the next turn. -/
def turning (pc : CkptPc) : Bool :=
  pc matches foreach | testJoined | lockThread | testRunning | casRunning | kill | testSignaled |
    probe | testSuspended | testSuspinprog | testUnsafe | testEmbryo

/-- In a pass of the scan. -/
def scanning (pc : CkptPc) : Bool := pc.turning || pc matches unlockThread | unlockMtx | release

/-- Between the scan and the arrival. -/
def settled (pc : CkptPc) : Bool :=
  pc matches setExpected | reapAcquire | reap | reapProbe | reapRelease | arrival

end CkptPc

/-- From `ST_SUSPINPROG` to the second wait of `thread_barrier`. -/
def HandlerPc.onWay (p : HandlerPc) : Bool := p matches suspinprog | barrier | held

/-- The threads of the pass that are not classified yet. -/
def CkptThread.rest (c : CkptThread) : List Nat :=
  if c.pc = .unlockThread then c.todo.tail else c.todo

/-! ## The conditions -/

/-- No thread falls through the tests of the scan, unless it exits. -/
def Caught (s : Process) (t : Turn) : Prop :=
  t = .ckpt → s.ckpt.pc = .testEmbryo → ∀ i ∈ s.ckpt.todo.head?,
    (s.threads i).state = .stEmbryo ∨ (s.threads i).exiting = true

instance (s : Process) (t : Turn) : Decidable (Caught s t) :=
  inferInstanceAs (Decidable (_ → _ → ∀ i ∈ _, _))

/-- No thread that has arrived in an earlier round is found in `ST_SUSPENDED`. -/
def Fresh (s : Process) (t : Turn) : Prop :=
  t = .ckpt → s.ckpt.pc = .testSuspended → ∀ i ∈ s.ckpt.todo.head?,
    (s.threads i).handler ≠ .arrived ∧ (s.threads i).handler ≠ .released

instance (s : Process) (t : Turn) : Decidable (Fresh s t) :=
  inferInstanceAs (Decidable (_ → _ → ∀ i ∈ _, _))

/-- No signal arrives at a thread that has begun to exit. -/
def Lasting (s : Process) : Turn → Prop
  | .deliver i => (s.threads i).exiting = false
  | _ => True

instance (s : Process) (t : Turn) : Decidable (Lasting s t) :=
  match t with
  | .deliver _ => inferInstanceAs (Decidable (_ = _))
  | .user _ _ | .call _ _ | .join _ _ | .exit _ | .handler _ | .ckpt => isTrue trivial

/-! ## The invariant -/

/-- **The invariant of the scan.** -/
structure Scanned (s : Process) : Prop where
  phase : s.xndState = s.ckpt.pc.phase
  alive : ∀ i, (s.threads i).handler ≠ .out → (s.threads i).pc ≠ .dead
  suspended : s.ckpt.suspended = s.counted.length
  nodup : s.counted.Nodup
  turns : s.ckpt.pc.scanning = true → s.ckpt.todo.Nodup
  ended : s.ckpt.pc = .unlockMtx ∨ s.ckpt.pc = .release → s.ckpt.todo = []
  way : s.ckpt.pc.scanning = true ∨ s.ckpt.pc.settled = true →
    ∀ i ∈ s.counted, (s.threads i).handler.onWay = true
  apart : s.ckpt.pc.scanning = true → ∀ i ∈ s.counted, i ∉ s.ckpt.rest
  done : s.ckpt.pc.scanning = true → ∀ i ∈ s.threadList, i ∉ s.ckpt.rest →
    (s.threads i).exiting = true ∨ s.ckpt.rescan = true ∨ i ∈ s.counted
  settled : s.ckpt.pc.settled = true → ∀ i ∈ s.threadList,
    (s.threads i).exiting = true ∨ i ∈ s.counted
  probed : s.ckpt.pc = .reapProbe → ∀ i ∈ s.ckpt.todo.head?, (s.threads i).exiting = true

theorem scanned_init : Scanned .init := by
  have hhandler : ∀ i, (Process.init.threads i).handler = .out := by
    intro i
    show (if i = 0 then UserThread.main else UserThread.unborn).handler = .out
    split <;> rfl
  constructor
  case alive => exact fun i hi => absurd (hhandler i) hi
  case phase | suspended => rfl
  case nodup => exact List.nodup_nil
  case ended => exact fun _ => rfl
  case way => exact fun _ _ hi => absurd hi List.not_mem_nil
  all_goals exact nofun

/-- Every listed thread exits or is stopped. -/
def Process.Stopped (s : Process) : Prop :=
  ∀ i ∈ s.threadList, (s.threads i).exiting = true ∨ (s.threads i).handler.onWay = true ∨
    (s.threads i).handler = .arrived

/-- A thread that is stopped is not between `unsafe_enter` and `unsafe_exit`. -/
theorem Regular.none_inSection {s : Process} (h : Regular s) (hstop : s.Stopped) (k : Nat) :
    (s.threads k).pc.inSection = false := by
  by_contra hsection
  have hlisted : (s.threads k).pc.live = true ∧ (s.threads k).pc.leaving = false := by
    revert hsection
    cases (s.threads k).pc <;> decide
  have hnotSafe := (h.fits k).inSection (Bool.eq_true_of_not_eq_false hsection)
  have hhandler := (h.fits k).handler
  rw [hnotSafe] at hhandler
  rcases hstop k (h.live k hlisted.1) with he | hw | ha
  · have := h.exiting k he
    rw [hlisted.2] at this
    cases this
  · revert hw hhandler
    cases (s.threads k).handler <;> simp [HandlerPc.onWay, HandlerPc.Fits]
  · rw [ha] at hhandler
    cases hhandler

/-- Then no thread is on the way to the list either, as its creator would wait for it. -/
theorem Regular.none_added {s : Process} (h : Regular s) (hstop : s.Stopped) (k : Nat) :
    (s.threads k).pc ≠ .addAcquire := by
  intro hk
  obtain ⟨p, hcreating, -⟩ := h.creator k (by rw [hk]; rfl) (by rw [hk]; exact nofun)
  have hsection := h.none_inSection hstop p
  revert hcreating hsection
  cases (s.threads p).pc <;> decide

/-- Before the arrival, a thread that is on its way stays on it. -/
theorem onWay_of_handlerStep {s s' : Process} {i : Nat} (hs : s.handlerStep i = some s')
    (hxnd : s.xndState = .xndSuspinprog) (hway : (s.threads i).handler.onWay = true) :
    (s'.threads i).handler.onWay = true := by
  unfold Process.handlerStep at hs
  cases hh : (s.threads i).handler <;> rw [hh] at hway <;> simp only [hh] at hs
  case suspinprog =>
    obtain ⟨-, rfl⟩ := guarded_eq_some.mp hs
    simp [Process.set, HandlerPc.onWay]
  case barrier | held =>
    obtain ⟨-, rfl⟩ := guarded_eq_some.mp hs
    simp [Process.threadBarrier, hxnd, Process.set, HandlerPc.onWay]
  all_goals cases hway

/-- What a step of a user thread means for the scan. -/
structure Beside (s s' : Process) : Prop where
  ckpt : s'.ckpt = s.ckpt
  counted : s'.counted = s.counted
  phase : s'.xndState = s.xndState
  exiting : ∀ k, (s.threads k).exiting = true → (s'.threads k).exiting = true
  way : s.xndState = .xndSuspinprog → ∀ k, (s.threads k).handler.onWay = true →
    (s'.threads k).handler.onWay = true
  alive : (∀ k, (s.threads k).handler ≠ .out → (s.threads k).pc ≠ .dead) →
    ∀ k, (s'.threads k).handler ≠ .out → (s'.threads k).pc ≠ .dead
  list : s'.threadList = s.threadList ∨
    (s.lock .threadList = none ∧ ∃ k, (s.threads k).pc = .addAcquire)

/-- The own code of a thread. -/
theorem Plain.beside {s s' : Process} {i : Nat} (hp : Plain s s' i)
    (hout : (s.threads i).handler = .out) : Beside s s' := by
  obtain ⟨-, hphase, -, -, hckpt, hcounted, -⟩ := hp.frame
  refine ⟨hckpt, hcounted, hphase, fun k hk => ?_, fun _ k hk => ?_, fun halive k hk => ?_, ?_⟩
  · by_cases hki : k = i
    · subst hki
      rcases hp.exiting with ⟨he, -⟩ | ⟨he, -⟩
      · rw [he, hk]
      · exact he
    · rw [hp.threads k hki]
      exact hk
  · by_cases hki : k = i
    · rw [hki, hp.handler, ← hki]
      exact hk
    · rw [hp.threads k hki]
      exact hk
  · by_cases hki : k = i
    · rw [hki, hp.handler] at hk
      exact absurd hout hk
    · rw [hp.threads k hki] at hk ⊢
      exact halive k hk
  · rcases hp.list with ⟨hl, -⟩ | ⟨-, hpc, hfree⟩
    · exact .inl hl
    · exact .inr ⟨hfree, i, hpc⟩

/-- To create a thread changes no other one, and the new one has not begun. -/
theorem create_threads {s : Process} {i : Nat} (hr : Regular s)
    (hout : (s.threads i).handler = .out) (k : Nat) :
    ((s.create i).threads k).handler = (s.threads k).handler ∧
      ((s.create i).threads k).exiting = (s.threads k).exiting ∧
      ((s.threads k).handler ≠ .out → ((s.create i).threads k).pc = (s.threads k).pc) := by
  by_cases hnew : k = s.next
  · have hself : (s.create i).threads k = .newborn := by simp [Process.create, hnew]
    rw [hr.unborn k (by omega), hself]
    exact ⟨rfl, rfl, fun h => absurd rfl h⟩
  · by_cases hki : k = i
    · subst hki
      have hself : (s.create k).threads k =
          { s.threads k with pc := .createLock, target := s.next } := by
        simp only [Process.create, put_of_ne _ hnew, put_self]
      rw [hself]
      exact ⟨rfl, rfl, fun h => absurd hout h⟩
    · have hother : (s.create i).threads k = s.threads k := by
        simp only [Process.create, put_of_ne _ hnew, put_of_ne _ hki]
      rw [hother]
      exact ⟨rfl, rfl, fun _ => rfl⟩

theorem beside_create {s : Process} {i : Nat} (hr : Regular s)
    (hout : (s.threads i).handler = .out) : Beside s (s.create i) := by
  have hthread := create_threads hr hout
  refine ⟨rfl, rfl, rfl, fun k hk => ?_, fun _ k hk => ?_, fun halive k hk => ?_, .inl rfl⟩
  · rw [(hthread k).2.1, hk]
  · rw [(hthread k).1, hk]
  · rw [(hthread k).1] at hk
    rw [(hthread k).2.2 hk]
    exact halive k hk

/-- **What a step is for the scan.** -/
theorem beside_of_step {s s' : Process} {t : Turn} (hr : Regular s) (hs : step s t = some s') :
    (t = .ckpt ∧ s.ckptStep = some s') ∨ Beside s s' := by
  rcases step_cases hs with hc | ⟨i, hout, hp | ⟨-, rfl⟩⟩ | ⟨i, hturn, hh⟩ | rfl
  · exact .inl hc
  · exact .inr (hp.beside hout)
  · exact .inr (beside_create hr hout)
  · obtain ⟨-, hlist, -, -, hphase, -, hckpt, hcounted⟩ := hh.frame
    refine .inr ⟨hckpt, hcounted, hphase, fun k hk => ?_, fun hxnd k hk => ?_, fun halive k hk => ?_,
      .inl hlist⟩
    · by_cases hki : k = i
      · rw [hki, hh.code.2.2, ← hki]
        exact hk
      · rw [hh.threads k hki]
        exact hk
    · by_cases hki : k = i
      · subst hki
        rcases hturn with ⟨-, hout, -⟩ | ⟨-, hstep⟩
        · rw [hout] at hk
          cases hk
        · exact onWay_of_handlerStep hstep hxnd hk
      · rw [hh.threads k hki]
        exact hk
    · by_cases hki : k = i
      · subst hki
        rw [hh.code.1]
        rcases hturn with ⟨-, -, hpc⟩ | ⟨-, hstep⟩
        · exact hpc
        · refine halive k fun hout => ?_
          simp [Process.handlerStep, hout] at hstep
      · rw [hh.threads k hki] at hk ⊢
        exact halive k hk
  · exact .inr ⟨rfl, rfl, rfl, fun _ hk => hk, fun _ _ hk => hk, fun halive => halive, .inl rfl⟩

theorem Still.alive {s s' : Process} (h : Still s s')
    (halive : ∀ k, (s.threads k).handler ≠ .out → (s.threads k).pc ≠ .dead) (k : Nat)
    (hk : (s'.threads k).handler ≠ .out) : (s'.threads k).pc ≠ .dead := by
  rw [(h k).2.1] at hk
  rw [(h k).1]
  exact halive k hk

namespace Scanned
variable {s s' : Process} {i : Nat}

/-- Where the state is `SUSPINPROG`. -/
theorem suspinprog (h : Scanned s) (hpc : s.ckpt.pc.scanning = true ∨ s.ckpt.pc.settled = true) :
    s.xndState = .xndSuspinprog := by
  rw [h.phase]
  revert hpc
  cases s.ckpt.pc <;> simp [CkptPc.scanning, CkptPc.turning, CkptPc.settled, CkptPc.phase]

/-- While the list is scanned its lock is held. -/
theorem locked (hr : Regular s) (hpc : s.ckpt.pc.scanning = true) :
    s.lock .threadList = some .ckpt := by
  refine (hr.ckptHeld _).mpr ?_
  show Lock.threadList ∈ s.ckpt.pc.held _
  revert hpc
  cases s.ckpt.pc <;> simp [CkptPc.scanning, CkptPc.turning, CkptPc.held]

/-- After the scan no thread comes to the list. -/
theorem settled_list (h : Scanned s) (hr : Regular s) (hb : Beside s s')
    (hpc : s.ckpt.pc.settled = true) : s'.threadList = s.threadList := by
  rcases hb.list with hl | ⟨-, k, hk⟩
  · exact hl
  · refine absurd hk (hr.none_added (fun i hi => ?_) k)
    exact (h.settled hpc i hi).imp id fun hc => .inl (h.way (.inr hpc) i hc)

/-- A thread in the handler is on the list. -/
theorem listed (h : Scanned s) (hr : Regular s) (hne : (s.threads i).handler ≠ .out) :
    i ∈ s.threadList := by
  refine hr.live i ?_
  have halive := h.alive i hne
  have hstarting : (s.threads i).pc.starting ≠ true := by
    intro hstart
    have hhandler := (hr.fits i).handler
    rw [(hr.fits i).starting hstart] at hhandler
    revert hne hhandler
    cases (s.threads i).handler <;> simp [HandlerPc.Fits]
  revert halive hstarting
  cases (s.threads i).pc <;> simp [Pc.starting, Pc.live]

/-- **A step of a user thread.** -/
theorem beside (h : Scanned s) (hr : Regular s) (hb : Beside s s') : Scanned s' := by
  have hscanlist : s.ckpt.pc.scanning = true → s'.threadList = s.threadList := by
    intro hpc
    rcases hb.list with hl | ⟨hfree, -⟩
    · exact hl
    · rw [locked hr hpc] at hfree
      cases hfree
  constructor
  case phase => rw [hb.phase, hb.ckpt]; exact h.phase
  case alive => exact hb.alive h.alive
  case suspended => rw [hb.ckpt, hb.counted]; exact h.suspended
  case nodup => rw [hb.counted]; exact h.nodup
  case turns => rw [hb.ckpt]; exact h.turns
  case ended => rw [hb.ckpt]; exact h.ended
  case way =>
    rw [hb.ckpt, hb.counted]
    exact fun hpc i hi => hb.way (h.suspinprog hpc) i (h.way hpc i hi)
  case apart => rw [hb.ckpt, hb.counted]; exact h.apart
  case done =>
    rw [hb.ckpt, hb.counted]
    intro hpc i hi hrest
    rw [hscanlist hpc] at hi
    exact (h.done hpc i hi hrest).imp (hb.exiting i) id
  case settled =>
    rw [hb.ckpt, hb.counted]
    intro hpc i hi
    rw [h.settled_list hr hb hpc] at hi
    exact (h.settled hpc i hi).imp (hb.exiting i) id
  case probed =>
    rw [hb.ckpt]
    exact fun hpc i hi => hb.exiting i (h.probed hpc i hi)

/-- The checkpoint thread goes on in the turn of a thread, or between two turns. -/
theorem goto (h : Scanned s) (hpc : s.ckpt.pc.scanning = true) (hstill : Still s s')
    (hframe : s'.xndState = s.xndState ∧ s'.threadList = s.threadList ∧ s'.counted = s.counted ∧
      s'.ckpt.suspended = s.ckpt.suspended ∧ s'.ckpt.rescan = s.ckpt.rescan)
    (hpc' : s'.ckpt.pc.scanning = true) (hrest : s'.ckpt.rest = s.ckpt.rest)
    (htodo : s'.ckpt.todo = s.ckpt.todo ∨ s'.ckpt.todo = s.ckpt.todo.tail)
    (hended : s'.ckpt.pc = .unlockMtx ∨ s'.ckpt.pc = .release → s'.ckpt.todo = []) :
    Scanned s' := by
  obtain ⟨hxnd, hlist, hcounted, hsuspended, hrescan⟩ := hframe
  constructor
  case phase =>
    rw [hxnd, h.suspinprog (.inl hpc)]
    revert hpc'
    cases s'.ckpt.pc <;> simp [CkptPc.scanning, CkptPc.turning, CkptPc.phase]
  case alive => exact hstill.alive h.alive
  case suspended => rw [hsuspended, hcounted]; exact h.suspended
  case nodup => rw [hcounted]; exact h.nodup
  case turns =>
    intro _
    rcases htodo with he | he
    · rw [he]
      exact h.turns hpc
    · rw [he]
      exact (h.turns hpc).tail
  case ended => exact hended
  case way =>
    rw [hcounted]
    intro _ i hi
    rw [(hstill i).2.1]
    exact h.way (.inl hpc) i hi
  case apart => rw [hcounted, hrest]; exact fun _ => h.apart hpc
  case done =>
    rw [hlist, hcounted, hrest, hrescan]
    intro _ i hi hir
    rw [(hstill i).2.2]
    exact h.done hpc i hi hir
  case settled =>
    intro hsettled
    revert hpc' hsettled
    cases s'.ckpt.pc <;> simp [CkptPc.scanning, CkptPc.turning, CkptPc.settled]
  case probed =>
    intro hprobe
    rw [hprobe] at hpc'
    cases hpc'

/-- The next test of a turn. -/
theorem test (h : Scanned s) (hpc : s.ckpt.pc.turning = true) {pc : CkptPc}
    (hpc' : pc.turning = true) : Scanned (s.ckptGoto pc) := by
  have hne : ∀ {pc : CkptPc}, pc.turning = true → pc ≠ .unlockThread := fun ht he => by
    rw [he] at ht
    cases ht
  have hrest : (s.ckptGoto pc).ckpt.rest = s.ckpt.rest := by
    rw [CkptThread.rest, CkptThread.rest, if_neg (hne hpc)]
    exact if_neg (hne hpc')
  refine h.goto (by simp [CkptPc.scanning, hpc]) (fun _ => ⟨rfl, rfl, rfl⟩) ⟨rfl, rfl, rfl, rfl, rfl⟩
    ?_ hrest (.inl rfl) ?_
  · show (pc.turning || _) = true
    rw [hpc', Bool.true_or]
  · show pc = .unlockMtx ∨ pc = .release → _
    rintro (rfl | rfl) <;> cases hpc'

/-- **The end of a turn**: the thread is gone, or it exits, or the list is scanned again,
or it is counted. -/
theorem turn (h : Scanned s) {rest : List Nat} (htodo : s.ckpt.todo = i :: rest)
    (hpc : s.ckpt.pc.turning = true) (hstill : Still s s') (hxnd : s'.xndState = s.xndState)
    (hckpt : s'.ckpt.pc = .foreach ∧ s'.ckpt.todo = rest ∨
      s'.ckpt.pc = .unlockThread ∧ s'.ckpt.todo = i :: rest)
    (hrescan : s.ckpt.rescan = true → s'.ckpt.rescan = true)
    (hlist : ∀ k ∈ s'.threadList, k ∈ s.threadList)
    (hcounted : s'.counted = s.counted ∧ s'.ckpt.suspended = s.ckpt.suspended ∨
      s'.counted = i :: s.counted ∧ s'.ckpt.suspended = s.ckpt.suspended + 1 ∧
        (s.threads i).handler.onWay = true)
    (hdone : i ∈ s'.threadList → (s.threads i).exiting = true ∨ s'.ckpt.rescan = true ∨
      i ∈ s'.counted) : Scanned s' := by
  have hscan : s.ckpt.pc.scanning = true := by simp [CkptPc.scanning, hpc]
  have hrest : s.ckpt.rest = i :: rest := by
    have hne : s.ckpt.pc ≠ .unlockThread := fun he => by rw [he] at hpc; cases hpc
    rw [CkptThread.rest, if_neg hne, htodo]
  have hrest' : s'.ckpt.rest = rest := by
    rcases hckpt with ⟨hp, ht⟩ | ⟨hp, ht⟩ <;> simp [CkptThread.rest, hp, ht]
  have hpc' : s'.ckpt.pc = .foreach ∨ s'.ckpt.pc = .unlockThread := hckpt.imp And.left And.left
  have hnodup : (i :: rest).Nodup := htodo ▸ h.turns hscan
  have hapart : ∀ k ∈ s.counted, k ∉ i :: rest := hrest ▸ h.apart hscan
  constructor
  case phase =>
    rw [hxnd, h.suspinprog (.inl hscan)]
    rcases hpc' with hp | hp <;> rw [hp] <;> rfl
  case alive => exact hstill.alive h.alive
  case suspended =>
    have := h.suspended
    rcases hcounted with ⟨hc, hn⟩ | ⟨hc, hn, -⟩
    · rw [hc, hn, this]
    · rw [hc, hn, this, List.length_cons]
  case nodup =>
    rcases hcounted with ⟨hc, -⟩ | ⟨hc, -, -⟩
    · rw [hc]
      exact h.nodup
    · rw [hc]
      exact List.nodup_cons.mpr ⟨fun hi => hapart i hi List.mem_cons_self, h.nodup⟩
  case turns =>
    intro _
    rcases hckpt with ⟨-, ht⟩ | ⟨-, ht⟩
    · rw [ht]
      exact hnodup.of_cons
    · rw [ht]
      exact hnodup
  case ended => rcases hpc' with hp | hp <;> rw [hp] <;> exact nofun
  case way =>
    intro _ k hk
    rw [(hstill k).2.1]
    rcases hcounted with ⟨hc, -⟩ | ⟨hc, -, hway⟩
    · exact h.way (.inl hscan) k (hc ▸ hk)
    · rw [hc] at hk
      rcases List.mem_cons.mp hk with rfl | hk
      · exact hway
      · exact h.way (.inl hscan) k hk
  case apart =>
    intro _ k hk
    rw [hrest']
    rcases hcounted with ⟨hc, -⟩ | ⟨hc, -, -⟩
    · exact fun hr => hapart k (hc ▸ hk) (List.mem_cons_of_mem i hr)
    · rw [hc] at hk
      rcases List.mem_cons.mp hk with rfl | hk
      · exact (List.nodup_cons.mp hnodup).1
      · exact fun hr => hapart k hk (List.mem_cons_of_mem i hr)
  case done =>
    intro _ k hk hkr
    rw [hrest'] at hkr
    rw [(hstill k).2.2]
    by_cases hki : k = i
    · subst hki
      exact hdone hk
    · have hkrest : k ∉ s.ckpt.rest := by
        rw [hrest]
        exact fun hm => (List.mem_cons.mp hm).elim hki hkr
      rcases h.done hscan k (hlist k hk) hkrest with he | hr | hc
      · exact .inl he
      · exact .inr (.inl (hrescan hr))
      · rcases hcounted with ⟨hc', -⟩ | ⟨hc', -, -⟩
        · exact .inr (.inr (hc' ▸ hc))
        · exact .inr (.inr (hc' ▸ List.mem_cons_of_mem i hc))
  case settled => rcases hpc' with hp | hp <;> rw [hp] <;> exact nofun
  case probed => rcases hpc' with hp | hp <;> rw [hp] <;> exact nofun

/-- **A turn of the scan.** -/
theorem scanStep (h : Scanned s) (hr : Regular s) (hcaught : Caught s .ckpt) (hfresh : Fresh s .ckpt)
    {rest : List Nat} (htodo : s.ckpt.todo = i :: rest) (hs : s.scanStep i = some s') :
    Scanned s' := by
  have hhead : s.ckpt.todo.head? = some i := by rw [htodo]; rfl
  have hstill := (scanStep_signals hhead hs).still
  have hgone : i ∉ s.threadList.erase i := hr.nodup.not_mem_erase
  have hfits := (hr.fits i).handler
  unfold Process.scanStep at hs
  simp only at hs
  cases hpc : s.ckpt.pc <;> simp only [hpc] at hs
  case foreach =>
    split at hs <;> obtain rfl := Option.some.inj hs
    · exact h.turn htodo (by rw [hpc]; rfl) hstill rfl (.inl ⟨rfl, by simp [Process.nextTurn, htodo]⟩) id
        (fun _ hk => hk) (.inl ⟨rfl, rfl⟩) (fun _ => .inl ‹_›)
    · exact h.test (by rw [hpc]; rfl) rfl
  case testJoined =>
    split at hs <;> obtain rfl := Option.some.inj hs
    · exact h.turn htodo (by rw [hpc]; rfl) hstill rfl
        (.inl ⟨rfl, by simp [Process.nextTurn, Process.threadListRemove, htodo]⟩) id
        (fun _ hk => List.mem_of_mem_erase hk) (.inl ⟨rfl, rfl⟩) (fun hi => absurd hi hgone)
    · exact h.test (by rw [hpc]; rfl) rfl
  case lockThread =>
    obtain ⟨-, rfl⟩ := guarded_eq_some.mp hs
    exact h.goto (by rw [hpc]; rfl) hstill ⟨rfl, rfl, rfl, rfl, rfl⟩ rfl
      (by simp [CkptThread.rest, Process.ckptGoto, hpc]) (.inl rfl)
      (by rintro (h | h) <;> cases h)
  case testRunning =>
    obtain rfl := Option.some.inj hs
    exact h.test (by rw [hpc]; rfl) (by split <;> rfl)
  case casRunning =>
    split at hs <;> obtain rfl := Option.some.inj hs
    · exact h.goto (by rw [hpc]; rfl) hstill ⟨rfl, rfl, rfl, rfl, rfl⟩ rfl
        (by simp [CkptThread.rest, Process.ckptGoto, Process.set, hpc]) (.inl rfl)
        (by rintro (h | h) <;> cases h)
    · exact h.test (by rw [hpc]; rfl) rfl
  case kill =>
    split at hs
    · obtain ⟨-, rfl⟩ := guarded_eq_some.mp hs
      exact h.turn htodo (by rw [hpc]; rfl) hstill rfl
        (.inl ⟨rfl, by simp [Process.dropThread, Process.nextTurn, Process.threadListRemove, htodo]⟩) id
        (fun _ hk => List.mem_of_mem_erase hk) (.inl ⟨rfl, rfl⟩) (fun hi => absurd hi hgone)
    · obtain rfl := Option.some.inj hs
      exact h.turn htodo (by rw [hpc]; rfl) hstill rfl (.inr ⟨rfl, htodo⟩) (fun _ => rfl)
        (fun _ hk => hk) (.inl ⟨rfl, rfl⟩) (fun _ => .inr (.inl rfl))
  case testSignaled =>
    obtain rfl := Option.some.inj hs
    exact h.test (by rw [hpc]; rfl) (by split <;> rfl)
  case probe =>
    split at hs
    · obtain ⟨-, rfl⟩ := guarded_eq_some.mp hs
      exact h.turn htodo (by rw [hpc]; rfl) hstill rfl
        (.inl ⟨rfl, by simp [Process.dropThread, Process.nextTurn, Process.threadListRemove, htodo]⟩) id
        (fun _ hk => List.mem_of_mem_erase hk) (.inl ⟨rfl, rfl⟩) (fun hi => absurd hi hgone)
    · obtain rfl := Option.some.inj hs
      exact h.turn htodo (by rw [hpc]; rfl) hstill rfl (.inr ⟨rfl, htodo⟩) (fun _ => rfl)
        (fun _ hk => hk) (.inl ⟨rfl, rfl⟩) (fun _ => .inr (.inl rfl))
  case testSuspended =>
    split at hs <;> obtain rfl := Option.some.inj hs
    · have hway : (s.threads i).handler.onWay = true := by
        rw [‹(s.threads i).state = _›] at hfits
        have hnot := hfresh rfl hpc i hhead
        revert hfits hnot
        cases (s.threads i).handler <;> simp [HandlerPc.onWay, HandlerPc.Fits]
      exact h.turn htodo (by rw [hpc]; rfl) hstill rfl (.inr ⟨rfl, htodo⟩) id
        (fun _ hk => hk) (.inr ⟨rfl, rfl, hway⟩) (fun _ => .inr (.inr List.mem_cons_self))
    · exact h.test (by rw [hpc]; rfl) rfl
  case testSuspinprog =>
    split at hs <;> obtain rfl := Option.some.inj hs
    · have hway : (s.threads i).handler.onWay = true := by
        rw [‹(s.threads i).state = _›] at hfits
        revert hfits
        cases (s.threads i).handler <;> simp [HandlerPc.onWay, HandlerPc.Fits]
      exact h.turn htodo (by rw [hpc]; rfl) hstill rfl (.inr ⟨rfl, htodo⟩) id
        (fun _ hk => hk) (.inr ⟨rfl, rfl, hway⟩) (fun _ => .inr (.inr List.mem_cons_self))
    · exact h.test (by rw [hpc]; rfl) rfl
  case testUnsafe =>
    split at hs <;> obtain rfl := Option.some.inj hs
    · exact h.turn htodo (by rw [hpc]; rfl) hstill rfl (.inr ⟨rfl, htodo⟩) (fun _ => rfl)
        (fun _ hk => hk) (.inl ⟨rfl, rfl⟩) (fun _ => .inr (.inl rfl))
    · exact h.test (by rw [hpc]; rfl) rfl
  case testEmbryo =>
    split at hs <;> obtain rfl := Option.some.inj hs
    · exact h.turn htodo (by rw [hpc]; rfl) hstill rfl (.inr ⟨rfl, htodo⟩) (fun _ => rfl)
        (fun _ hk => hk) (.inl ⟨rfl, rfl⟩) (fun _ => .inr (.inl rfl))
    · exact h.turn htodo (by rw [hpc]; rfl) hstill rfl (.inr ⟨rfl, htodo⟩) id
        (fun _ hk => hk) (.inl ⟨rfl, rfl⟩)
        (fun _ => .inl ((hcaught rfl hpc i hhead).resolve_left ‹_›))
  case unlockThread =>
    obtain rfl := Option.some.inj hs
    exact h.goto (by rw [hpc]; rfl) hstill ⟨rfl, rfl, rfl, rfl, rfl⟩ rfl
      (by simp [CkptThread.rest, Process.nextTurn, hpc]) (.inr rfl)
      (by rintro (h | h) <;> cases h)
  all_goals cases hs

/-- After the scan. -/
theorem later (h : Scanned s) (hpc : s.ckpt.pc.settled = true) (hstill : Still s s')
    (hxnd : s'.xndState = s.xndState) (hlist : ∀ k ∈ s'.threadList, k ∈ s.threadList)
    (hcounted : s'.counted = s.counted ∧ s'.ckpt.suspended = s.ckpt.suspended)
    (hpc' : s'.ckpt.pc.settled = true)
    (hprobe : s'.ckpt.pc = .reapProbe → ∀ i ∈ s'.ckpt.todo.head?, (s.threads i).exiting = true) :
    Scanned s' := by
  have hnot : s'.ckpt.pc.scanning ≠ true := by
    revert hpc'
    cases s'.ckpt.pc <;> decide
  constructor
  case phase =>
    rw [hxnd, h.suspinprog (.inr hpc)]
    revert hpc'
    cases s'.ckpt.pc <;> simp [CkptPc.settled, CkptPc.phase]
  case alive => exact hstill.alive h.alive
  case suspended => rw [hcounted.1, hcounted.2]; exact h.suspended
  case nodup => rw [hcounted.1]; exact h.nodup
  case ended => rintro (he | he) <;> rw [he] at hpc' <;> cases hpc'
  case way =>
    rw [hcounted.1]
    intro _ i hi
    rw [(hstill i).2.1]
    exact h.way (.inr hpc) i hi
  case settled =>
    rw [hcounted.1]
    intro _ i hi
    rw [(hstill i).2.2]
    exact h.settled hpc i (hlist i hi)
  case probed =>
    intro hp i hi
    rw [(hstill i).2.2]
    exact hprobe hp i hi
  all_goals exact fun hs => absurd hs hnot

/-- Outside of the scan, and of what comes after it until the arrival. -/
theorem idle (h : Scanned s) (hstill : Still s s') (hxnd : s'.xndState = s'.ckpt.pc.phase)
    (hcounted : s'.counted = s.counted ∧ s'.ckpt.suspended = s.ckpt.suspended)
    (hpc : s'.ckpt.pc.scanning = false ∧ s'.ckpt.pc.settled = false) : Scanned s' := by
  constructor
  case phase => exact hxnd
  case alive => exact hstill.alive h.alive
  case suspended => rw [hcounted.1, hcounted.2]; exact h.suspended
  case nodup => rw [hcounted.1]; exact h.nodup
  case ended => rintro (he | he) <;> rw [he] at hpc <;> cases hpc.1
  case way => simp [hpc.1, hpc.2]
  case settled => simp [hpc.2]
  case probed =>
    intro hp
    rw [hp] at hpc
    cases hpc.2
  all_goals simp [hpc.1]

/-- A pass begins. -/
theorem begin (h : Scanned s) (hr : Regular s) (hpc : s.ckpt.pc = .acquire)
    (hstill : Still s s') (hxnd : s'.xndState = s.xndState) (hlist : s'.threadList = s.threadList)
    (hckpt : s'.ckpt.pc = .foreach ∧ s'.ckpt.todo = s.threadList ∧ s'.ckpt.suspended = 0)
    (hcounted : s'.counted = []) : Scanned s' := by
  obtain ⟨hpc', htodo, hsuspended⟩ := hckpt
  constructor
  case phase => rw [hxnd, h.phase, hpc, hpc']; rfl
  case alive => exact hstill.alive h.alive
  case suspended => rw [hsuspended, hcounted]; rfl
  case nodup => rw [hcounted]; exact List.nodup_nil
  case turns => exact fun _ => htodo ▸ hr.nodup
  case ended => rw [hpc']; exact nofun
  case way => rw [hcounted]; exact fun _ i hi => absurd hi List.not_mem_nil
  case apart => rw [hcounted]; exact fun _ i hi => absurd hi List.not_mem_nil
  case done =>
    rw [hlist, CkptThread.rest, hpc', htodo]
    exact fun _ i hi hir => absurd hi hir
  case settled => rw [hpc']; exact nofun
  case probed => rw [hpc']; exact nofun

/-- The loop of the scan is left. -/
theorem leave (h : Scanned s) (hpc : s.ckpt.pc = .release) (hrescan : s.ckpt.rescan = false)
    (hstill : Still s s') (hxnd : s'.xndState = s.xndState) (hlist : s'.threadList = s.threadList)
    (hcounted : s'.counted = s.counted ∧ s'.ckpt.suspended = s.ckpt.suspended)
    (hpc' : s'.ckpt.pc = .setExpected) : Scanned s' := by
  have hscan : s.ckpt.pc.scanning = true := by rw [hpc]; rfl
  have hrest : s.ckpt.rest = [] := by
    rw [CkptThread.rest, hpc]
    exact h.ended (.inr hpc)
  constructor
  case phase => rw [hxnd, h.phase, hpc, hpc']; rfl
  case alive => exact hstill.alive h.alive
  case suspended => rw [hcounted.1, hcounted.2]; exact h.suspended
  case nodup => rw [hcounted.1]; exact h.nodup
  case way =>
    rw [hcounted.1]
    intro _ i hi
    rw [(hstill i).2.1]
    exact h.way (.inl hscan) i hi
  case settled =>
    rw [hlist, hcounted.1]
    intro _ i hi
    rw [(hstill i).2.2]
    rcases h.done hscan i hi (by rw [hrest]; exact List.not_mem_nil) with he | hr | hc
    · exact .inl he
    · rw [hrescan] at hr
      cases hr
    · exact .inr hc
  all_goals rw [hpc']; exact nofun

/-- **A step of the checkpoint thread.** -/
theorem ckptStep (h : Scanned s) (hr : Regular s) (hcaught : Caught s .ckpt) (hfresh : Fresh s .ckpt)
    (hs : s.ckptStep = some s') : Scanned s' := by
  have hstill := (ckptStep_signals hs).still
  have scan : ∀ {s' : Process}, s.ckpt.todo.head?.bind s.scanStep = some s' → Scanned s' := by
    intro s' hs
    obtain ⟨i, hhead, hs⟩ := Option.bind_eq_some_iff.mp hs
    obtain ⟨rest, htodo⟩ := List.head?_eq_some_iff.mp hhead
    exact h.scanStep hr hcaught hfresh htodo hs
  unfold Process.ckptStep at hs
  cases hpc : s.ckpt.pc <;> simp only [hpc] at hs
  case wait | suspend =>
    obtain rfl := Option.some.inj hs
    exact h.idle hstill rfl ⟨rfl, rfl⟩ ⟨rfl, rfl⟩
  case resetArrived =>
    obtain rfl := Option.some.inj hs
    exact h.idle hstill (h.phase.trans (by rw [hpc]; rfl)) ⟨rfl, rfl⟩ ⟨rfl, rfl⟩
  case again =>
    obtain ⟨-, rfl⟩ := guarded_eq_some.mp hs
    exact h.idle hstill (h.phase.trans (by rw [hpc]; rfl)) ⟨rfl, rfl⟩ ⟨rfl, rfl⟩
  case acquire =>
    obtain ⟨-, rfl⟩ := guarded_eq_some.mp hs
    exact h.begin hr hpc hstill rfl rfl ⟨rfl, rfl, rfl⟩ rfl
  case foreach =>
    cases htodo : s.ckpt.todo with
    | nil =>
        rw [htodo] at hs
        obtain rfl := Option.some.inj hs
        exact h.goto (by rw [hpc]; rfl) hstill ⟨rfl, rfl, rfl, rfl, rfl⟩ rfl
          (by simp [CkptThread.rest, Process.ckptGoto, hpc]) (.inl rfl) (fun _ => htodo)
    | cons i todo =>
        rw [htodo] at hs
        exact h.scanStep hr hcaught hfresh htodo hs
  case unlockMtx =>
    obtain rfl := Option.some.inj hs
    exact h.goto (by rw [hpc]; rfl) hstill ⟨rfl, rfl, rfl, rfl, rfl⟩ rfl
      (by simp [CkptThread.rest, Process.ckptGoto, hpc]) (.inl rfl) (fun _ => h.ended (.inl hpc))
  case release =>
    obtain rfl := Option.some.inj hs
    by_cases hrescan : s.ckpt.rescan = true
    · rw [if_pos hrescan] at hstill ⊢
      exact h.idle hstill (h.phase.trans (by rw [hpc]; rfl)) ⟨rfl, rfl⟩ ⟨rfl, rfl⟩
    · rw [if_neg hrescan] at hstill ⊢
      exact h.leave hpc (Bool.eq_false_iff.mpr hrescan) hstill rfl rfl ⟨rfl, rfl⟩ rfl
  case setExpected =>
    obtain rfl := Option.some.inj hs
    exact h.later (by rw [hpc]; rfl) hstill rfl (fun _ hk => hk) ⟨rfl, rfl⟩ rfl (by rintro ⟨⟩)
  case reapAcquire =>
    obtain ⟨-, rfl⟩ := guarded_eq_some.mp hs
    exact h.later (by rw [hpc]; rfl) hstill rfl (fun _ hk => hk) ⟨rfl, rfl⟩ rfl (by rintro ⟨⟩)
  case reapRelease =>
    obtain rfl := Option.some.inj hs
    refine h.later (by rw [hpc]; rfl) hstill rfl (fun _ hk => hk) ⟨rfl, rfl⟩ ?_ ?_
    · show (if _ then CkptPc.arrival else CkptPc.reapAcquire).settled = true
      split <;> rfl
    · show (if _ then CkptPc.arrival else CkptPc.reapAcquire) = _ → _
      split <;> rintro ⟨⟩
  case reap =>
    cases htodo : s.ckpt.todo with
    | nil =>
        rw [htodo] at hs
        obtain rfl := Option.some.inj hs
        exact h.later (by rw [hpc]; rfl) hstill rfl (fun _ hk => hk) ⟨rfl, rfl⟩ rfl (by rintro ⟨⟩)
    | cons i todo =>
        rw [htodo] at hs
        simp only [Process.reapStep, hpc] at hs
        split at hs
        · obtain rfl := Option.some.inj hs
          exact h.later (by rw [hpc]; rfl) hstill rfl (fun _ hk => List.mem_of_mem_erase hk)
            ⟨rfl, rfl⟩ rfl (by rintro ⟨⟩)
        · split at hs
          · obtain rfl := Option.some.inj hs
            refine h.later (by rw [hpc]; rfl) hstill rfl (fun _ hk => hk) ⟨rfl, rfl⟩ rfl ?_
            intro _ k hk
            rw [show _ = some i from congrArg List.head? htodo] at hk
            obtain rfl := Option.some.inj hk
            assumption
          · obtain ⟨-, rfl⟩ := guarded_eq_some.mp hs
            exact h.later (by rw [hpc]; rfl) hstill rfl (fun _ hk => hk) ⟨rfl, rfl⟩ rfl (by rintro ⟨⟩)
  case reapProbe =>
    obtain ⟨i, -, hs⟩ := Option.bind_eq_some_iff.mp hs
    simp only [Process.reapStep, hpc] at hs
    split at hs
    · obtain ⟨-, rfl⟩ := guarded_eq_some.mp hs
      exact h.later (by rw [hpc]; rfl) hstill rfl (fun _ hk => List.mem_of_mem_erase hk)
        ⟨rfl, rfl⟩ rfl (by rintro ⟨⟩)
    · obtain rfl := Option.some.inj hs
      exact h.later (by rw [hpc]; rfl) hstill rfl (fun _ hk => hk) ⟨rfl, rfl⟩ rfl (by rintro ⟨⟩)
  case arrival =>
    obtain ⟨-, rfl⟩ := guarded_eq_some.mp hs
    unfold Process.arrivalTest at hstill ⊢
    split at hstill <;> rename_i hif
    · rw [if_pos hif]
      exact h.idle hstill rfl ⟨rfl, rfl⟩ ⟨rfl, rfl⟩
    · rw [if_neg hif]
      exact h.idle hstill rfl ⟨rfl, rfl⟩ ⟨rfl, rfl⟩
  case arrivalSleep =>
    obtain ⟨-, rfl⟩ := guarded_eq_some.mp hs
    have hphase : s.xndState = .xndCkptinprog := by rw [h.phase, hpc]; rfl
    unfold Process.arrivalTest at hstill ⊢
    split at hstill <;> rename_i hif
    · rw [if_pos hif]
      exact h.idle hstill hphase ⟨rfl, rfl⟩ ⟨rfl, rfl⟩
    · rw [if_neg hif]
      exact h.idle hstill hphase ⟨rfl, rfl⟩ ⟨rfl, rfl⟩
  case checkpoint =>
    obtain rfl := Option.some.inj hs
    exact h.idle hstill (h.phase.trans (by rw [hpc]; rfl)) ⟨rfl, rfl⟩ ⟨rfl, rfl⟩
  case barrierRelease =>
    obtain ⟨-, rfl⟩ := guarded_eq_some.mp hs
    exact h.idle hstill rfl ⟨rfl, rfl⟩ ⟨rfl, rfl⟩
  all_goals exact scan hs

/-- **One step.** -/
theorem step (h : Scanned s) (hr : Regular s) {t : Turn} (hcaught : Caught s t) (hfresh : Fresh s t)
    (hs : Suspend.step s t = some s') : Scanned s' := by
  rcases beside_of_step hr hs with ⟨rfl, hc⟩ | hb
  · exact h.ckptStep hr hcaught hfresh hc
  · exact h.beside hr hb

end Scanned

/-! ## The end of the scan -/

/-- A thread that exits is not in the handler. -/
def Parting (s : Process) : Prop :=
  ∀ i, (s.threads i).exiting = true → (s.threads i).handler = .out

theorem parting_init : Parting .init := by
  intro i _
  show (if i = 0 then UserThread.main else UserThread.unborn).handler = .out
  split <;> rfl

theorem Parting.step {s s' : Process} (h : Parting s) (hr : Regular s) {t : Turn}
    (hlasting : Lasting s t) (hs : Suspend.step s t = some s') : Parting s' := by
  intro k hk
  rcases step_cases hs with ⟨-, hc⟩ | ⟨i, hout, hp | ⟨-, rfl⟩⟩ | ⟨i, hturn, hh⟩ | rfl
  · obtain ⟨-, hhandler, hexiting⟩ := (ckptStep_signals hc).still k
    rw [hhandler]
    exact h k (hexiting ▸ hk)
  · by_cases hki : k = i
    · rw [hki, hp.handler]
      exact hout
    · rw [hp.threads k hki] at hk ⊢
      exact h k hk
  · obtain ⟨hhandler, hexiting, -⟩ := create_threads hr hout k
    rw [hhandler]
    exact h k (hexiting ▸ hk)
  · by_cases hki : k = i
    · subst hki
      rw [hh.code.2.2] at hk
      rcases hturn with ⟨rfl, -⟩ | ⟨-, hstep⟩
      · rw [show (s.threads k).exiting = false from hlasting] at hk
        cases hk
      · simp [Process.handlerStep, h k hk] at hstep
    · rw [hh.threads k hki] at hk ⊢
      exact h k hk
  · exact h k hk

/-- What the scan has to leave behind. -/
structure Process.Gathered (s : Process) : Prop where
  stopped : ∀ i ∈ s.threadList, (s.threads i).exiting = false →
    ((s.threads i).state = .stSuspinprog ∨ (s.threads i).state = .stSuspended) ∧
      s.counted.count i = 1
  exiting : ∀ i, (s.threads i).exiting = true →
    (s.threads i).state ≠ .stSuspinprog ∧ (s.threads i).state ≠ .stSuspended
  listed : ∀ i ∈ s.counted, i ∈ s.threadList
  expected : ∀ s', s.ckptStep = some s' → s'.threadsExpected = s.counted.length

/-- The thread whose death is waited for does not wait in `thread_barrier`. -/
def Process.Mortal (s : Process) : Prop :=
  ∀ i ∈ s.ckpt.todo.head?, (s.threads i).handler = .out

theorem Scanned.gathered {s : Process} (h : Scanned s) (hr : Regular s) (hp : Parting s)
    (hpc : s.ckpt.pc = .setExpected) : s.Gathered := by
  have hsettled : s.ckpt.pc.settled = true := by rw [hpc]; rfl
  have stopped : ∀ i ∈ s.counted,
      (s.threads i).state = .stSuspinprog ∨ (s.threads i).state = .stSuspended := by
    intro i hi
    have hfits := (hr.fits i).handler
    have hway := h.way (.inr hsettled) i hi
    revert hfits hway
    cases (s.threads i).handler <;> simp_all [HandlerPc.Fits, HandlerPc.onWay]
  refine ⟨fun i hi he => ?_, fun i he => ?_, fun i hi => ?_, fun s' hs => ?_⟩
  · have hc : i ∈ s.counted := (h.settled hsettled i hi).resolve_left (by rw [he]; rintro ⟨⟩)
    exact ⟨stopped i hc, List.count_eq_one_of_mem h.nodup hc⟩
  · have hfits := (hr.fits i).handler
    rw [hp i he] at hfits
    exact hfits
  · refine h.listed hr fun hout => ?_
    have hway := h.way (.inr hsettled) i hi
    rw [hout] at hway
    cases hway
  · simp only [Process.ckptStep, hpc] at hs
    obtain rfl := Option.some.inj hs
    exact h.suspended

/-- **The condition**: no thread falls through the tests of the scan, none is counted that
has arrived in an earlier round, and no signal arrives at a thread that exits. -/
def Orderly (s : Process) (t : Turn) : Prop := Caught s t ∧ Fresh s t ∧ Lasting s t

instance (s : Process) (t : Turn) : Decidable (Orderly s t) := inferInstanceAs (Decidable (_ ∧ _))

/-- **The scan leaves every listed thread stopped and counted once, unless it exits**, and
no thread that exits is stopped or waited for in vain. -/
theorem gathered_of_runs {s : Process} (h : Machine.Runs step Orderly .init s) :
    (s.ckpt.pc = .setExpected → s.Gathered) ∧ (s.ckpt.pc = .reapProbe → s.Mortal) := by
  obtain ⟨hr, hscanned, hparting⟩ : Regular s ∧ Scanned s ∧ Parting s :=
    h.invariant (I := fun s => Regular s ∧ Scanned s ∧ Parting s)
      (fun _ _ _ hi hok hs => ⟨hi.1.step hs, hi.2.1.step hi.1 hok.1 hok.2.1 hs,
        hi.2.2.step hi.1 hok.2.2 hs⟩)
      ⟨regular_init, scanned_init, parting_init⟩
  exact ⟨hscanned.gathered hr hparting, fun hpc i hi => hparting i (hscanned.probed hpc i hi)⟩

/-- The main thread is stopped in the first pass and counted in the second one. -/
theorem gathered_of_runs_main :
    ∃ s, Machine.Runs step Orderly .init s ∧ s.counted = [0] ∧ s.Gathered := by
  obtain ⟨s, hruns, hs⟩ := Machine.exists_runs step Orderly .init
    (fun s => decide (s.ckpt.pc = .setExpected ∧ s.counted = [0]))
    (firstPass ++ [.deliver 0, .handler 0] ++ List.replicate 16 .ckpt) (by decide)
  obtain ⟨hpc, hcounted⟩ := of_decide_eq_true hs
  exact ⟨s, hruns, hcounted, (gathered_of_runs hruns).1 hpc⟩

/-- The signal arrives after `thread_exit`. -/
theorem not_gathered_of_runs :
    ¬ ∀ s, Machine.Runs step (fun _ _ => True) .init s → s.ckpt.pc = .setExpected → s.Gathered := by
  intro h
  obtain ⟨s, hruns, hs⟩ := Machine.exists_runs step (fun _ _ => True) .init
    (fun s => decide (s.ckpt.pc = .setExpected ∧ (s.threads 0).exiting = true ∧
      (s.threads 0).state = .stSuspinprog))
    (firstPass ++ [.exit 0, .user 0 true, .user 0 true, .user 0 true, .deliver 0, .handler 0] ++
      List.replicate 9 .ckpt) (by decide)
  obtain ⟨hpc, hexiting, hstate⟩ := of_decide_eq_true hs
  exact ((h s hruns hpc).exiting 0 hexiting).1 hstate

end Xnd.Suspend
