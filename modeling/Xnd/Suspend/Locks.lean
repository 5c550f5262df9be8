import Xnd.Suspend.Regular

/-!
# Locks of suspended threads

`suspend_threads` and `wait_for_exiting_threads` take the lock of the list, those of the
descriptors, and the one of the zombies.  A thread that is stopped and holds one of them
would block them for ever.

In `thread_start`, in the hooks of create and fork, and in the handler no such lock is
held by a thread that the signal can reach: there the state is `ST_EMBRYO`, `ST_UNSAFE`
or not `ST_SIGNALED`.  The loop of `__pthread_join_hook` and `thread_exit` take the lock
of a descriptor outside of an unsafe section, and a signal that arrives there stops the
thread with the lock.  **Where no signal arrives there, no stopped thread holds a lock.**
-/
namespace Xnd.Suspend
open Thread (ThreadState XndState)

/-- The locks of the lists and of the descriptors. -/
def Lock.scanned (l : Lock) : Bool := l matches thread _ | threadList | zombieList

/-- With the lock of a descriptor, in the loop of `__pthread_join_hook` and in
`thread_exit`. -/
def Pc.exposed (pc : Pc) : Bool := pc matches joinWait | joinUnlock | exitMark | exitUnlock

/-- A stopped thread holds no lock that the checkpoint thread takes. -/
def Process.Unblocked (s : Process) : Prop :=
  ∀ i, (s.threads i).state = .stSuspinprog ∨ (s.threads i).state = .stSuspended →
    ∀ l : Lock, l.scanned = true → s.lock l ≠ some (.user i)

/-- **The condition**: no signal arrives while the thread holds the lock of a descriptor in
`__pthread_join_hook` or in `thread_exit`. -/
def Outside (s : Process) : Turn → Prop
  | .deliver i => (s.threads i).pc.exposed = false
  | _ => True

instance (s : Process) (t : Turn) : Decidable (Outside s t) :=
  match t with
  | .deliver _ => inferInstanceAs (Decidable (_ = _))
  | .user _ _ | .call _ _ | .join _ _ | .exit _ | .handler _ | .ckpt => isTrue trivial

/-- No thread in the handler came from such a place. -/
def Sheltered (s : Process) : Prop :=
  ∀ i, (s.threads i).handler ≠ .out → (s.threads i).pc.exposed = false

theorem sheltered_init : Sheltered .init := by
  intro i hi
  have hout : (Process.init.threads i).handler = .out := by
    by_cases h0 : i = 0
    · rw [h0]
      rfl
    · show (if i = 0 then UserThread.main else UserThread.unborn).handler = .out
      rw [if_neg h0]
      rfl
  exact absurd hout hi

namespace Sheltered
variable {s s' : Process} {i : Nat}

/-- **One step.** -/
theorem step (h : Sheltered s) {t : Turn} (hok : Outside s t) (hs : Suspend.step s t = some s') :
    Sheltered s' := by
  intro k hk
  rcases step_cases hs with ⟨-, hc⟩ | ⟨i, hout, hp | ⟨-, rfl⟩⟩ | ⟨i, hturn, hh⟩ | rfl
  · obtain ⟨hpc, hhandler, -⟩ := (ckptStep_signals hc).still k
    rw [hpc]
    exact h k (hhandler ▸ hk)
  · by_cases hki : k = i
    · rw [hki, hp.handler] at hk
      exact absurd hout hk
    · rw [hp.threads k hki] at hk ⊢
      exact h k hk
  · by_cases hnew : k = s.next
    · exact absurd (by rw [hnew]; simp [Process.create, UserThread.newborn, UserThread.unborn]) hk
    · by_cases hki : k = i
      · rw [hki] at hk hnew
        exact absurd (by simp [Process.create, put_of_ne _ hnew, hout]) hk
      · simp only [Process.create, put_of_ne _ hnew, put_of_ne _ hki] at hk ⊢
        exact h k hk
  · by_cases hki : k = i
    · subst hki
      rw [hh.code.1]
      rcases hturn with ⟨rfl, -⟩ | ⟨rfl, hstep⟩
      · exact hok
      · refine h k fun hout => ?_
        simp [Process.handlerStep, hout] at hstep
    · rw [hh.threads k hki] at hk ⊢
      exact h k hk
  · exact h k hk

/-- **A stopped thread holds no lock** of a list or a descriptor. -/
theorem unblocked (h : Sheltered s) (hr : Regular s) : s.Unblocked := by
  intro i hstate l hl hlock
  have hfits := hr.fits i
  have hhandler : (s.threads i).handler ≠ .out := by
    intro hout
    have := hfits.handler
    rw [hout] at this
    exact hstate.elim this.1 this.2
  have hexposed := h i hhandler
  have hmem := (hr.held l i).mp hlock
  have unlike : ∀ {st : ThreadState}, (s.threads i).state = st → st ≠ .stSuspinprog →
      st ≠ .stSuspended → False := by
    rintro _ rfl h₁ h₂
    exact hstate.elim h₁ h₂
  cases hpc : (s.threads i).pc <;> simp only [UserThread.held, hpc] at hmem
  case addRelease | startRun => exact unlike (hfits.starting (by rw [hpc]; rfl)) (by rintro ⟨⟩) (by rintro ⟨⟩)
  case startUnlock => exact unlike (hfits.begun hpc) (by rintro ⟨⟩) (by rintro ⟨⟩)
  case joinWait | joinUnlock | exitMark | exitUnlock =>
    rw [hpc] at hexposed
    cases hexposed
  case createWait | createUnlock | forkList | forkZombie | forkCkpt | forkDone | forkUnlockZombie |
      forkUnlockList | forkUnlockMtx =>
    exact unlike (hfits.inSection (by rw [hpc]; rfl)) (by rintro ⟨⟩) (by rintro ⟨⟩)
  all_goals exact absurd hmem List.not_mem_nil

end Sheltered

/-- **No stopped thread holds a lock** that the checkpoint thread takes. -/
theorem unblocked_of_runs {s : Process} (h : Machine.Runs step Outside .init s) : s.Unblocked := by
  have hboth : Regular s ∧ Sheltered s :=
    h.invariant (I := fun s => Regular s ∧ Sheltered s)
      (fun _ _ _ hi hok hs => ⟨hi.1.step hs, hi.2.step hok hs⟩) ⟨regular_init, sheltered_init⟩
  exact hboth.2.unblocked hboth.1

/-- The signal arrives in code of the program. -/
theorem unblocked_of_runs_stopped :
    ∃ s, Machine.Runs step Outside .init s ∧ (s.threads 0).state = .stSuspinprog ∧ s.Unblocked := by
  obtain ⟨s, hruns, hstate⟩ := Machine.exists_runs step Outside .init
    (fun s => decide ((s.threads 0).state = .stSuspinprog))
    (firstPass ++ [.deliver 0, .handler 0]) (by decide)
  exact ⟨s, hruns, of_decide_eq_true hstate, unblocked_of_runs hruns⟩

/-- The signal arrives in `thread_exit`. -/
theorem not_unblocked_of_runs :
    ¬ ∀ s, Machine.Runs step (fun _ _ => True) .init s → s.Unblocked := by
  intro h
  obtain ⟨s, hruns, hs⟩ := Machine.exists_runs step (fun _ _ => True) .init
    (fun s => decide ((s.threads 0).state = .stSuspinprog ∧ s.lock (.thread 0) = some (.user 0)))
    (firstPass ++ [.exit 0, .user 0 true, .deliver 0, .handler 0]) (by decide)
  obtain ⟨hstate, hlock⟩ := of_decide_eq_true hs
  exact h s hruns 0 (.inl hstate) (.thread 0) rfl hlock

/-- **The condition is exact**: a signal that arrives there stops the thread with the
lock. -/
theorem not_unblocked_of_deliver {s s' : Process} {i : Nat} (h : Regular s)
    (hexposed : (s.threads i).pc.exposed = true) (hs : step s (.deliver i) = some s') :
    ∃ s'', step s' (.handler i) = some s'' ∧ ¬ s''.Unblocked := by
  obtain ⟨⟨hpending, -⟩, rfl⟩ := guarded_eq_some.mp hs
  obtain ⟨l, hl, hmem⟩ : ∃ l : Lock, l.scanned = true ∧ l ∈ (s.threads i).held i := by
    cases hpc : (s.threads i).pc <;> rw [hpc] at hexposed <;> first
      | exact ⟨_, rfl, by simp [UserThread.held, hpc]; rfl⟩
      | cases hexposed
  have hstate := ((h.fits i).pending hpending).1
  refine ⟨_, by simp [step, Process.handlerStep, Process.set, hstate]; rfl, fun hun => ?_⟩
  have hlock : s.lock l = some (.user i) := (h.held l i).mpr hmem
  exact hun i (.inl (by simp)) l hl hlock

end Xnd.Suspend
