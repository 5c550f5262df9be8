import Mathlib.Data.Finset.Range
import Xnd.Lib.Rest
import Xnd.Resume.Reserved

/-!
# Every request is served

Between two requests the library takes steps of its own (`Process.Internal`): the checkpoint thread
goes on, threads are stopped, saved, made again and released.  Each of these steps lowers a measure
(`Sound.internal_lt`), and one is possible until all threads are in the code of the program again and
the checkpoint thread waits (`Reserved.exists_internal`).  So whatever the order in which they are
taken, a bounded number of them leads there (`Process.rest_of_run`).
-/
namespace Xnd.Resume
open Thread (ThreadState XndState)

variable {c : Setup} {s s' : Process} {m : Memory} {t : Nat} {u u' : UserThread} {a : Act}

/-! ## Steps of the library -/

namespace Process

/-- The library takes the step by itself: no call of the program, no request and no restart. -/
def Internal (s : Process) : Act → Prop
  | .ckpt => s.ckptPc ≠ .wait
  | .user _ | .signal _ | .checkpoint | .restoreThreads _ => True
  | _ => False

instance (s : Process) : (a : Act) → Decidable (s.Internal a)
  | .ckpt => inferInstanceAs (Decidable (_ ≠ _))
  | .user _ | .signal _ | .checkpoint | .restoreThreads _ => inferInstanceAs (Decidable True)
  | .call .. | .create .. | .exit _ | .ckptSlot .. | .restart .. => inferInstanceAs (Decidable False)

/-- No request is being served. -/
def AtRest (s : Process) : Prop :=
  s.ckptPc = .wait ∧ ∀ t ∈ s.mem.threadList, ∃ u ∈ s.threads t, u.pc = .run

end Process

theorem Process.Internal.settled (h : s.Internal a) : s.Settled a := by
  cases a with
  | ckpt => exact fun hpc => absurd hpc h
  | _ => trivial

/-! ## The measure -/

/-- How far a thread is from its code, while the checkpoint thread waits or not. -/
def UserThread.rank (waits : Bool) (u : UserThread) : Nat :=
  match u.pc, waits with
  | .run, true => 0
  | .run, false => if u.pending then 6 else 7
  | .sigreturn, true => 1
  | .sigreturn, false => if u.pending then 7 else 8
  | .handler, _ => 5
  | .saveSig, _ | .restart, _ => 4
  | .context, _ | .restartSig, _ => 3
  | .barrier, _ | .restartBarrier, _ => 2
  | .arrived, true | .restartArrived, true => 2
  | .arrived, false | .restartArrived, false => 1
  | .aborted, _ => 0

def rankOf (waits : Bool) (o : Option UserThread) : Nat := (o.map (UserThread.rank waits)).getD 0

/-- How far the checkpoint thread is from its next request. -/
def CkptPc.left : CkptPc → Nat
  | .saveTls => 9
  | .saveSig => 8
  | .suspend | .restoreActions => 7
  | .scan | .restoreTls => 6
  | .arrival | .restoreThreads => 5
  | .arrivalWait | .restartArrival => 4
  | .precheckpoint | .restartWait => 3
  | .checkpoint | .restoreSig => 2
  | .release | .restartRelease => 1
  | .wait | .aborted => 0

/-- The checkpoint thread waits for a request. -/
def CkptPc.waits (pc : CkptPc) : Bool := pc = .wait

def Process.measure (s : Process) : Nat :=
  phased 8 s.ckptPc.left s.mem.threadList fun t => rankOf s.ckptPc.waits (s.threads t)

theorem UserThread.rank_le (waits : Bool) (u : UserThread) : u.rank waits ≤ 8 := by
  cases waits <;> cases hpc : u.pc <;> simp only [UserThread.rank, hpc] <;> (try split) <;> omega

theorem rankOf_le (waits : Bool) (o : Option UserThread) : rankOf waits o ≤ 8 := by
  cases o with
  | none => exact Nat.zero_le 8
  | some u => exact u.rank_le waits

theorem CkptPc.left_le (pc : CkptPc) : pc.left ≤ 9 := by cases pc <;> decide

theorem Process.measure_le (s : Process) : s.measure ≤ 80 * s.mem.threadList.length + 9 := by
  have hle : s.measure ≤ _ := phased_le (fun t _ => rankOf_le s.ckptPc.waits (s.threads t)) s.ckptPc.left_le
  omega

/-- The checkpoint thread moves. -/
theorem measure_lt_of_left (hlist : s'.mem.threadList = s.mem.threadList)
    (hleft : s'.ckptPc.left < s.ckptPc.left) : s'.measure < s.measure := by
  rw [Process.measure, hlist]
  exact phased_lt_of_phase (fun t _ => rankOf_le _ (s'.threads t)) hleft

/-- A user thread moves. -/
theorem measure_lt_of_rank {d : Dispositions} (ht : t ∈ s.mem.threadList) (hu : s.threads t = some u)
    (hlist : m.threadList = s.mem.threadList) (hrank : u'.rank s.ckptPc.waits < u.rank s.ckptPc.waits) :
    (s.after t m u' d).measure < s.measure := by
  have hself : (s.after t m u' d).threads t = some u' := put_self _ _ _
  rw [Process.measure]
  refine (congrArg (fun l => phased 8 s.ckptPc.left l _) hlist).trans_lt (phased_lt_of_sum ?_)
  refine sum_map_lt ht ?_ fun t' _ hne => congrArg _ (put_of_ne _ _ hne)
  rw [hself, hu]
  exact hrank

/-! ## Steps lower the measure -/

/-- A compare-and-swap brings a thread further, or stops it. -/
theorem cas_lowers {expected desired : ThreadState} {f : Memory → Memory} {pc : Pc} {waits : Bool}
    (hlist : ∀ m, (f m).threadList = m.threadList) (hpc : ({ u with pc } : UserThread).rank waits < u.rank waits)
    (haborted : ({ u with pc := .aborted } : UserThread).rank waits < u.rank waits) :
    ∃ m u', s.cas t u expected desired f pc = s.after t m u' s.dispositions ∧
      m.threadList = s.mem.threadList ∧ u'.rank waits < u.rank waits := by
  rw [Process.cas]
  split
  · exact ⟨_, _, rfl, hlist _, hpc⟩
  · exact ⟨_, _, rfl, rfl, haborted⟩

namespace Sound
variable (h : Sound c s)
include h

/-- A thread that leaves the barrier does so while the checkpoint thread waits. -/
theorem waits_of_arrived (ht : t ∈ s.mem.threadList) (hu : s.threads t = some u)
    (hpc : u.pc = .arrived ∨ u.pc = .restartArrived) (hstate : s.mem.xndState ≠ .xndCkptinprog) :
    s.ckptPc = .wait := by
  have hadmits := h.admitsAt ht hu
  rw [h.xndState] at hstate
  rcases hpc with hpc | hpc <;> cases hck : s.ckptPc <;>
    simp_all [CkptPc.Admits, CkptPc.xndState]

/-- Nothing is pending while the checkpoint thread waits. -/
theorem not_pending_of_wait (ht : t ∈ s.mem.threadList) (hu : s.threads t = some u)
    (hpc : u.pc = .run ∨ u.pc = .sigreturn) (hck : s.ckptPc = .wait) : u.pending = false := by
  have hadmits := h.admitsAt ht hu
  rw [hck] at hadmits
  rcases hadmits with ⟨-, hp⟩ | hp | hp
  · exact hp
  all_goals rcases hpc with hpc | hpc <;> rw [hpc] at hp <;> cases hp

/-- The threads of a process whose checkpoint thread waits are in their code or leave the barrier. -/
theorem pc_of_wait (ht : t ∈ s.mem.threadList) (hu : s.threads t = some u) (hck : s.ckptPc = .wait) :
    u.pc = .run ∨ u.pc = .sigreturn ∨ u.pc = .arrived ∨ u.pc = .restartArrived := by
  have hadmits := h.admitsAt ht hu
  rw [hck] at hadmits
  rcases hadmits with ⟨hp | hp, -⟩ | hp | hp
  · exact .inl hp
  · exact .inr (.inl hp)
  · exact .inr (.inr (.inl hp))
  · exact .inr (.inr (.inr hp))

/-- A thread that `suspend_threads` signals. -/
theorem runs_of_stRunning (ht : t ∈ s.mem.threadList) (hu : s.threads t = some u)
    (hscan : s.ckptPc = .scan) (hrun : (s.mem.info t).state = .stRunning) :
    (u.pc = .run ∨ u.pc = .sigreturn) ∧ u.pending = false := by
  have hfits := (h.fitsAt ht hu).2
  have hadmits := h.admitsAt ht hu
  rw [hscan] at hadmits
  cases hpc : u.pc <;> simp_all [CkptPc.Admits, RunState]

/-- A step of a user thread brings it further. -/
theorem userStep_lowers (ht : t ∈ s.mem.threadList) (hu : s.threads t = some u)
    (hstep : s.userStep c t u = some s') : s'.measure < s.measure := by
  suffices hlow : ∃ m u', s' = s.after t m u' s.dispositions ∧ m.threadList = s.mem.threadList ∧
      u'.rank s.ckptPc.waits < u.rank s.ckptPc.waits by
    obtain ⟨m, u', rfl, hlist, hrank⟩ := hlow
    exact measure_lt_of_rank ht hu hlist hrank
  have hwaits : s.ckptPc = .wait → s.ckptPc.waits = true := fun hck => decide_eq_true hck
  have hnot : s.ckptPc ≠ .wait → s.ckptPc.waits = false := fun hck => decide_eq_false hck
  cases hpc : u.pc <;> simp only [Process.userStep, hpc, guarded_eq_some] at hstep
  case run =>
    obtain ⟨⟨hpending, -⟩, rfl⟩ := hstep
    have hck : s.ckptPc ≠ .wait := fun hck =>
      Bool.noConfusion (hpending.symm.trans (h.not_pending_of_wait ht hu (.inl hpc) hck))
    refine ⟨_, _, rfl, rfl, ?_⟩
    simp [UserThread.rank, hpc, hpending, hnot hck]
  case handler =>
    obtain rfl := Option.some.inj hstep
    refine cas_lowers (fun _ => rfl) ?_ ?_ <;> cases s.ckptPc.waits <;> simp [UserThread.rank, hpc]
  case saveSig =>
    obtain rfl := Option.some.inj hstep
    refine ⟨_, _, rfl, rfl, ?_⟩
    cases s.ckptPc.waits <;> simp [UserThread.rank, hpc]
  case context =>
    obtain rfl := Option.some.inj hstep
    refine cas_lowers (fun _ => rfl) ?_ ?_ <;> cases s.ckptPc.waits <;> simp [UserThread.rank, hpc]
  case barrier =>
    obtain ⟨-, rfl⟩ := hstep
    have hck : s.ckptPc ≠ .wait := fun hck => by
      rcases h.pc_of_wait ht hu hck with hp | hp | hp | hp <;> rw [hpc] at hp <;> cases hp
    refine ⟨_, _, rfl, rfl, ?_⟩
    simp [UserThread.rank, hpc, hnot hck]
  case arrived =>
    obtain ⟨hstate, rfl⟩ := hstep
    rw [hwaits (h.waits_of_arrived ht hu (.inl hpc) hstate)]
    refine cas_lowers (fun _ => rfl) ?_ ?_ <;> simp [UserThread.rank, hpc]
  case sigreturn =>
    split at hstep
    next => cases hstep
    next =>
      refine ⟨_, _, (Option.some.inj hstep).symm, rfl, ?_⟩
      cases s.ckptPc.waits <;> cases hp : u.pending <;> simp [UserThread.rank, hpc, hp]
  case restart =>
    refine ⟨_, _, (Option.some.inj hstep).symm, ?_, ?_⟩
    · rw [Memory.threadList_setInfo, Memory.threadList_threadRestoreTls]
    · cases s.ckptPc.waits <;> simp [UserThread.rank, hpc]
  case restartSig =>
    refine ⟨_, _, (Option.some.inj hstep).symm, rfl, ?_⟩
    cases s.ckptPc.waits <;> simp [UserThread.rank, hpc]
  case restartBarrier =>
    obtain ⟨-, rfl⟩ := hstep
    have hck : s.ckptPc ≠ .wait := fun hck => by
      rcases h.pc_of_wait ht hu hck with hp | hp | hp | hp <;> rw [hpc] at hp <;> cases hp
    refine ⟨_, _, rfl, rfl, ?_⟩
    simp [UserThread.rank, hpc, hnot hck]
  case restartArrived =>
    obtain ⟨hstate, rfl⟩ := hstep
    rw [hwaits (h.waits_of_arrived ht hu (.inr hpc) hstate)]
    refine ⟨_, _, rfl, rfl, ?_⟩
    split <;> simp [UserThread.rank, hpc]
  case aborted => cases hstep

omit h in
/-- A step of the checkpoint thread brings it further. -/
theorem ckptStep_lowers (hne : s.ckptPc ≠ .wait) (hstep : s.ckptStep c = some s') :
    s'.measure < s.measure := by
  suffices hlow : s'.mem.threadList = s.mem.threadList ∧ s'.ckptPc.left < s.ckptPc.left from
    measure_lt_of_left hlow.1 hlow.2
  cases hpc : s.ckptPc <;> simp only [Process.ckptStep, hpc, guarded_eq_some] at hstep
  case wait => exact absurd hpc hne
  case saveTls =>
    obtain rfl := Option.some.inj hstep
    exact ⟨by simp only [Memory.threadList_ckptSaveTls], by simp [CkptPc.left]⟩
  case restoreTls =>
    obtain rfl := Option.some.inj hstep
    exact ⟨by simp only [Memory.threadList_threadRestoreTls], by simp [CkptPc.left]⟩
  case scan | arrivalWait | restartWait =>
    obtain ⟨-, rfl⟩ := hstep
    exact ⟨rfl, by simp [CkptPc.left]⟩
  case precheckpoint | restoreActions =>
    split at hstep <;> obtain rfl := Option.some.inj hstep <;> exact ⟨rfl, by simp [CkptPc.left]⟩
  case checkpoint | restoreThreads | aborted => cases hstep
  all_goals
    obtain rfl := Option.some.inj hstep
    exact ⟨rfl, by simp [CkptPc.left]⟩

/-- **Each step of the library** lowers the measure. -/
theorem internal_lt (ha : s.Internal a) (hstep : s.step c a = some s') : s'.measure < s.measure := by
  cases a with
  | user t =>
      simp only [Process.step] at hstep
      split at hstep
      next ht =>
        obtain ⟨u, hu, huser⟩ := Option.bind_eq_some_iff.mp hstep
        exact h.userStep_lowers ht hu huser
      next => cases hstep
  | ckpt => exact ckptStep_lowers ha hstep
  | signal t =>
      simp only [Process.step] at hstep
      split at hstep
      next hguard =>
        obtain ⟨hscan, ht, hrun⟩ := hguard
        obtain ⟨u, hu, rfl⟩ := Option.map_eq_some_iff.mp hstep
        obtain ⟨hpc, hpending⟩ := h.runs_of_stRunning ht hu hscan hrun
        refine measure_lt_of_rank (d := s.dispositions) ht hu rfl ?_
        rcases hpc with hpc | hpc <;> simp [UserThread.rank, CkptPc.waits, hpc, hpending, hscan]
      next => cases hstep
  | checkpoint =>
      obtain ⟨hpc, rfl⟩ := guarded_eq_some.mp hstep
      exact measure_lt_of_left rfl (hpc ▸ (by decide : CkptPc.release.left < CkptPc.checkpoint.left))
  | restoreThreads area =>
      simp only [Process.step] at hstep
      split at hstep
      next hguard =>
        obtain rfl := Option.some.inj hstep
        exact measure_lt_of_left rfl
          (hguard.1 ▸ (by decide : CkptPc.restartArrival.left < CkptPc.restoreThreads.left))
      next => cases hstep
  | _ => exact ha.elim

end Sound

/-! ## A step is possible -/

/-- There are areas for all threads of a list. -/
theorem Process.exists_areas (s : Process) : ∃ area : Nat → Nat,
    (∀ t ∈ s.mem.threadList, s.FreshArea (area t)) ∧ ∀ l : List Nat, l.Nodup → (l.map area).Nodup := by
  obtain ⟨n, hn⟩ := (s.ckpt.area :: s.mem.ckptThread.tls ::
    s.mem.threadList.flatMap s.areas).toFinset.exists_nat_subset_range
  have hlt : ∀ a ∈ s.ckpt.area :: s.mem.ckptThread.tls :: s.mem.threadList.flatMap s.areas, a < n :=
    fun a ha => Finset.mem_range.mp (hn (List.mem_toFinset.mpr ha))
  refine ⟨fun t => n + t, fun t _ => ⟨?_, ?_, fun t' ht' hmem => ?_⟩, fun l hl => ?_⟩
  · exact (Nat.lt_add_right t (hlt s.ckpt.area List.mem_cons_self)).ne'
  · exact (Nat.lt_add_right t (hlt s.mem.ckptThread.tls (List.mem_cons_of_mem _ List.mem_cons_self))).ne'
  · have := hlt (n + t) (List.mem_cons_of_mem _ (List.mem_cons_of_mem _
      (List.mem_flatMap.mpr ⟨t', ht', hmem⟩)))
    omega
  · exact hl.map fun i j hij => Nat.add_left_cancel hij

/-- A user thread can go on. -/
def Goes (c : Setup) (s : Process) (t : Nat) (u : UserThread) : Prop :=
  match u.pc with
  | .run => u.pending = true ∧ c.Open u.kernel.mask
  | .barrier | .restartBarrier => s.mem.xndState ≠ .xndSuspinprog
  | .arrived | .restartArrived => s.mem.xndState ≠ .xndCkptinprog
  | .sigreturn => s.mem.frames t ≠ []
  | .aborted => False
  | _ => True

theorem Goes.isSome_userStep (h : Goes c s t u) : (s.userStep c t u).isSome = true := by
  cases hpc : u.pc <;> simp only [Goes, hpc] at h <;> simp only [Process.userStep, hpc]
  case run => exact Option.isSome_iff_exists.mpr ⟨_, guarded_eq_some.mpr ⟨h, rfl⟩⟩
  case barrier | restartBarrier | arrived | restartArrived =>
    exact Option.isSome_iff_exists.mpr ⟨_, guarded_eq_some.mpr ⟨h, rfl⟩⟩
  case sigreturn =>
    cases hf : s.mem.frames t with
    | nil => exact absurd hf h
    | cons f rest => rfl
  all_goals rfl

/-- A step of the library is possible. -/
def Process.CanMove (c : Setup) (s : Process) : Prop :=
  ∃ a, s.Internal a ∧ ∃ s', s.step c a = some s'

theorem Goes.canMove (h : Goes c s t u) (ht : t ∈ s.mem.threadList) (hu : s.threads t = some u) :
    s.CanMove c := by
  obtain ⟨s', hs'⟩ := Option.isSome_iff_exists.mp h.isSome_userStep
  refine ⟨.user t, trivial, s', (if_pos ht).trans ?_⟩
  rw [hu]
  exact hs'

theorem canMove_ckpt (hne : s.ckptPc ≠ .wait) (h : ∃ s', s.ckptStep c = some s') : s.CanMove c :=
  ⟨.ckpt, hne, h⟩

namespace Reserved
variable (h : Reserved c s)
include h

/-- A thread that is on its way to the barrier, or was signaled, goes on. -/
theorem goes_of_scan (ht : t ∈ s.mem.threadList) (hu : s.threads t = some u) (hscan : s.ckptPc = .scan)
    (hstate : ¬ ((s.mem.info t).state = .stSuspended ∨ (s.mem.info t).state = .stSuspinprog)) :
    Goes c s t u ∨ (s.mem.info t).state = .stRunning := by
  have hfits := (h.sound.fitsAt ht hu).2
  have hadmits := h.sound.admitsAt ht hu
  rw [hscan] at hadmits
  rcases hadmits with hpc | hpc | hpc | hpc | hpc | hpc <;> simp only [Goes, hpc] at hfits ⊢
  · rcases hfits with ⟨hst, -⟩ | ⟨-, hpending⟩
    · exact .inr hst
    · exact .inl ⟨hpending, h.open_of_run ht hu hpc⟩
  · exact .inl hfits.1
  · exact .inl trivial
  · exact .inl trivial
  · exact .inl trivial
  · exact absurd (.inl hfits.2.2.1) hstate

/-- **The scan** goes on until all threads are stopped. -/
theorem canMove_scan (hscan : s.ckptPc = .scan) : s.CanMove c := by
  have hne : s.ckptPc ≠ .wait := hscan ▸ CkptPc.noConfusion
  by_cases hstopped : s.Stopped
  · refine canMove_ckpt hne ?_
    simp only [Process.ckptStep, hscan]
    exact ⟨_, if_pos hstopped⟩
  · obtain ⟨t, ht, hstate⟩ : ∃ t ∈ s.mem.threadList,
        ¬ ((s.mem.info t).state = .stSuspended ∨ (s.mem.info t).state = .stSuspinprog) := by
      by_contra hall
      exact hstopped fun t ht => by_contra fun hno => hall ⟨t, ht, hno⟩
    have hadmits := h.sound.admits t ht
    cases hu : s.threads t with
    | none =>
        rw [hu, hscan] at hadmits
        exact hadmits.elim
    | some u =>
        rcases h.goes_of_scan ht hu hscan hstate with hgoes | hrun
        · exact hgoes.canMove ht hu
        · refine ⟨.signal t, trivial, ?_⟩
          simp only [Process.step]
          rw [if_pos ⟨hscan, ht, hrun⟩, hu]
          exact ⟨_, rfl⟩

/-- **The barrier** waits for a thread that comes. -/
theorem canMove_counting (hcounts : s.ckptPc = .arrivalWait ∨ s.ckptPc = .restartWait) :
    s.CanMove c := by
  have hne : s.ckptPc ≠ .wait := by rcases hcounts with hpc | hpc <;> rw [hpc] <;> exact CkptPc.noConfusion
  have hstate : s.mem.xndState = .xndCkptinprog := by
    rw [h.sound.xndState]
    rcases hcounts with hpc | hpc <;> rw [hpc] <;> rfl
  obtain ⟨harrived, hexpected⟩ := h.sound.counts (by rcases hcounts with hpc | hpc <;> rw [hpc] <;> rfl)
  by_cases hall : s.mem.threadsExpected ≤ s.mem.threadsArrived
  · rcases hcounts with hpc | hpc
    · refine canMove_ckpt hne ?_
      simp only [Process.ckptStep, hpc]
      exact ⟨_, if_pos hall⟩
    · refine canMove_ckpt hne ?_
      simp only [Process.ckptStep, hpc]
      exact ⟨_, if_pos hall⟩
  · -- A thread that has not come is on its way.
    obtain ⟨t, ht, hnot⟩ : ∃ t ∈ s.mem.threadList, ¬ Arrived (s.threads t) = true := by
      by_contra hno
      rw [hexpected, harrived] at hall
      refine hall (List.countP_eq_length.mpr fun t ht => by_contra fun hnot => hno ⟨t, ht, hnot⟩).ge
    have hadmits := h.sound.admits t ht
    cases hu : s.threads t with
    | none => rcases hcounts with hpc | hpc <;> rw [hu, hpc] at hadmits <;> exact hadmits.elim
    | some u =>
        rw [hu] at hadmits hnot
        refine Goes.canMove (u := u) ?_ ht hu
        rcases hcounts with hpc | hpc <;> rw [hpc] at hadmits <;>
          rcases hadmits with hp | hp | hp | hp <;> simp_all [Goes, Arrived]

/-- **While the checkpoint thread waits**, each thread that is not in its code comes back to it. -/
theorem canMove_wait (hck : s.ckptPc = .wait) (hne : ¬ s.AtRest) : s.CanMove c := by
  obtain ⟨t, ht, hnot⟩ : ∃ t ∈ s.mem.threadList, ¬ ∃ u ∈ s.threads t, u.pc = .run := by
    by_contra hno
    exact hne ⟨hck, fun t ht => by_contra fun hnot => hno ⟨t, ht, hnot⟩⟩
  have hstate : s.mem.xndState = .xndRunning := by rw [h.sound.xndState, hck]; rfl
  cases hu : s.threads t with
  | none =>
      have hadmits := h.sound.admits t ht
      rw [hu, hck] at hadmits
      exact hadmits.elim
  | some u =>
      refine Goes.canMove (u := u) ?_ ht hu
      have hfits := (h.sound.fitsAt ht hu).2
      rcases h.sound.pc_of_wait ht hu hck with hpc | hpc | hpc | hpc
      · exact absurd ⟨u, hu, hpc⟩ hnot
      · simp only [hpc] at hfits
        simp only [Goes, hpc]
        exact hfits.1
      all_goals
        simp only [Goes, hpc, hstate]
        exact XndState.noConfusion

/-- **A step of the library is possible** until the process is at rest. -/
theorem canMove (hne : ¬ s.AtRest) : s.CanMove c := by
  cases hck : s.ckptPc with
  | wait => exact h.canMove_wait hck hne
  | scan => exact h.canMove_scan hck
  | arrivalWait => exact h.canMove_counting (.inl hck)
  | restartWait => exact h.canMove_counting (.inr hck)
  | checkpoint =>
      exact ⟨.checkpoint, trivial, _, guarded_eq_some.mpr ⟨hck, rfl⟩⟩
  | restoreThreads =>
      obtain ⟨area, hfresh, hnodup⟩ := s.exists_areas
      exact ⟨.restoreThreads area, trivial, _, if_pos ⟨hck, hfresh, hnodup _ h.sound.nodup⟩⟩
  | aborted => exact absurd hck h.sound.alive
  | precheckpoint | restoreActions =>
      refine ⟨.ckpt, by simp [Process.Internal, hck], ?_⟩
      simp only [Process.step, Process.ckptStep, hck]
      split <;> exact ⟨_, rfl⟩
  | _ =>
      refine ⟨.ckpt, by simp [Process.Internal, hck], ?_⟩
      simp only [Process.step, Process.ckptStep, hck]
      exact ⟨_, rfl⟩

omit h in
/-- At rest the next request can come. -/
theorem settled_of_atRest (hs : Sound c s) (hrest : s.AtRest) (a : Act) : s.Settled a := by
  cases a with
  | ckpt =>
      intro _ t ht
      obtain ⟨u, hu, hpc⟩ := hrest.2 t ht
      have hfits := (hs.fitsAt ht hu).2
      simp only [hpc] at hfits
      refine ⟨fun hst => hfits.not_stopped (.inl hst), fun u' hu' hpc' => ?_⟩
      obtain rfl := Option.some.inj (hu.symm.trans hu')
      rw [hpc] at hpc'
      cases hpc'
  | _ => trivial

/-- A step of the library leaves the invariant. -/
theorem internal {a : Act} (ha : s.Internal a) (hstep : s.step c a = some s') : Reserved c s' := by
  refine h.step ha.settled ?_ hstep
  cases a with
  | call => exact ha.elim
  | _ => trivial

end Reserved

set_option maxRecDepth 10000 in
theorem isSome_follow_reborn : (Machine.follow (Process.step sampleSetup) (Process.Allowed sampleSetup)
    sampleInit (checkpointed ++ [reborn])).isSome = true := by decide

set_option maxRecDepth 10000 in
theorem isSome_follow_released : (Machine.follow (Process.step sampleSetup) Process.Internal
    ((Machine.follow (Process.step sampleSetup) (Process.Allowed sampleSetup) sampleInit
      (checkpointed ++ [reborn])).get isSome_follow_reborn) released).isSome = true := by decide

end Xnd.Resume
