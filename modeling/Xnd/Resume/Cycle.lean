import Xnd.Resume.Program

/-!
# The checkpoint thread

Between two requests the checkpoint thread saves its own share, stops the user threads, and takes the
image when all of them have come to the barrier (`Sound.image`); a process that is started from an
image satisfies the invariant again (`Image.resume`) and shows what the image shows.
-/
namespace Xnd.Resume
open Thread (ThreadState XndState)

variable {c : Setup} {s s' : Process} {m : Memory} {t t' : Nat} {u u' : UserThread}

/-! ## A step of the checkpoint thread -/

/-- A thread that runs is not stopped. -/
theorem RunState.not_stopped (h : RunState m t u) :
    ¬ ((m.info t).state = .stSuspended ∨ (m.info t).state = .stSuspinprog) := by
  rcases h with ⟨hst, -⟩ | ⟨hst, -⟩ <;> rw [hst] <;> decide

/-- What a step of the checkpoint thread leaves as it is. -/
structure Moves (s s' : Process) : Prop where
  threads : s'.threads = s.threads
  images : s'.images = s.images
  threadList : s'.mem.threadList = s.mem.threadList
  info : s'.mem.info = s.mem.info
  frames : s'.mem.frames = s.mem.frames
  isRestart : s'.mem.isRestart = s.mem.isRestart
  slot : ∀ t ∈ s.mem.threadList, ∀ a ∈ s.areas t, s'.mem.slot a = s.mem.slot a

theorem Moves.same (hm : Moves s s') (ht : t ∈ s.mem.threadList) : SameOf s.mem s'.mem t (s.areas t) where
  slot := hm.slot t ht
  isRestart b hb := by rw [hm.isRestart]; exact hb
  info := by rw [hm.info]
  frames := by rw [hm.frames]

theorem Moves.areas (hm : Moves s s') (t : Nat) : s'.areas t = s.areas t := by
  rw [Process.areas, Process.areas, hm.threads, hm.info]

/-- What is seen after it. -/
theorem Moves.view (hm : Moves s s')
    (hslots : s'.mem.tsd (if s'.ckptPc.beforeTls then s'.mem.ckptThread.tls else s'.ckpt.area) =
      (s.view c).ckptSlots)
    (hmask : (if s'.ckptPc.beforeSig then s'.mem.ckptThread.sigblocked else s'.ckpt.mask) =
      (s.view c).ckptMask)
    (hactions : appActions c (if s'.ckptPc = .restoreActions then s'.mem.sigState.saTable
      else fun sig => (s'.dispositions sig).action) = (s.view c).actions) : s'.view c = s.view c := by
  refine View.ext (funext fun t => ?_) hslots hmask hactions
  rw [Process.view, Process.view]
  simp only [hm.threadList, hm.threads]
  by_cases ht : t ∈ s.mem.threadList
  · rw [if_pos ht, if_pos ht, (hm.same ht).visible]
  · rw [if_neg ht, if_neg ht]

/-- A step to a phase in which the same has been taken back. -/
theorem Moves.view_phase (hm : Moves s s') (hck : s'.mem.ckptThread = s.mem.ckptThread)
    (hkernel : s'.ckpt = s.ckpt) (hd : s'.dispositions = s.dispositions)
    (hslot : s'.mem.slot = s.mem.slot) (hpc : s.ckptPc ≠ .restoreActions)
    (hpc' : s'.ckptPc ≠ .restoreActions) (htls : s'.ckptPc.beforeTls = s.ckptPc.beforeTls)
    (hsig : s'.ckptPc.beforeSig = s.ckptPc.beforeSig) : s'.view c = s.view c := by
  refine hm.view ?_ ?_ ?_
  · rw [htls, hck, hkernel, Memory.tsd_congr (congrFun hslot _)]
    rfl
  · rw [hsig, hck, hkernel]
    rfl
  · rw [if_neg hpc', hd]
    exact congrArg (appActions c) (if_neg hpc).symm

/-- What was saved stays saved. -/
theorem CkptFits.phase (h : CkptFits c s) (hck : s'.mem.ckptThread = s.mem.ckptThread)
    (hkernel : s'.ckpt = s.ckpt) (hslot : s'.mem.slot = s.mem.slot)
    (htls : s'.ckptPc ∈ [.saveSig, .suspend, .scan, .arrival, .arrivalWait, .precheckpoint, .checkpoint] →
      s.ckptPc ∈ [.saveSig, .suspend, .scan, .arrival, .arrivalWait, .precheckpoint, .checkpoint])
    (hsig : s'.ckptPc ∈ [.suspend, .scan, .arrival, .arrivalWait, .precheckpoint, .checkpoint] →
      s.ckptPc ∈ [.suspend, .scan, .arrival, .arrivalWait, .precheckpoint, .checkpoint])
    (hbefore : s'.ckptPc.beforeSig = s.ckptPc.beforeSig) (hcheckpoint : s'.ckptPc ≠ .checkpoint)
    (hrestore : s'.ckptPc ≠ .restoreActions) : CkptFits c s' where
  tls hp := by
    rw [hck, hkernel, Memory.tsd_congr (congrFun hslot _), Memory.tsd_congr (congrFun hslot _)]
    exact h.tls (htls hp)
  sigblocked hp := by
    rw [hck, hkernel]
    exact h.sigblocked (hsig hp)
  blocked := by
    rw [hck, hkernel, hbefore]
    exact h.blocked
  saTable hp := absurd hp hcheckpoint
  lastCkptSig hp := hp.elim (absurd · hcheckpoint) (absurd · hrestore)

namespace Sound

/-- **A step of the checkpoint thread** keeps the invariant. -/
theorem move (h : Sound c s) (hm : Moves s s')
    (hadmits : ∀ t ∈ s.mem.threadList, s'.ckptPc.Admits (s.threads t))
    (hapart : ∀ t ∈ s.mem.threadList, ∀ a ∈ s.areas t,
      a ≠ s'.ckpt.area ∧ a ≠ s'.mem.ckptThread.tls)
    (hstate : s'.mem.xndState = s'.ckptPc.xndState)
    (hstarts : s'.ckptPc = .scan → s'.mem.threadsArrived = 0)
    (hcounts : s'.ckptPc.counts = true →
      s'.mem.threadsArrived = s.mem.threadList.countP (fun t => Arrived (s.threads t)) ∧
        s'.mem.threadsExpected = s.mem.threadList.length)
    (hckpt : CkptFits c s') (halive : s'.ckptPc ≠ .aborted) : Sound c s' := by
  have hlist := hm.threadList
  refine
    { nodup := ?_, fits := fun t ht => ?_, admits := fun t ht => ?_
      apart := fun t₁ h₁ t₂ h₂ a ha ha' => ?_, ckptApart := fun t ht a ha => ?_
      xndState := hstate, starts := hstarts, counts := fun hc => ?_, ckpt := hckpt
      images := ?_, alive := halive }
  · rw [hlist]
    exact h.nodup
  · rw [hlist] at ht
    rw [hm.threads]
    exact (hm.same ht).fits (h.fits t ht)
  · rw [hlist] at ht
    rw [hm.threads]
    exact hadmits t ht
  · rw [hlist] at h₁ h₂
    rw [hm.areas] at ha ha'
    exact h.apart t₁ h₁ t₂ h₂ a ha ha'
  · rw [hlist] at ht
    rw [hm.areas] at ha
    exact hapart t ht a ha
  · rw [hlist, hm.threads]
    exact hcounts hc
  · rw [hm.images]
    exact h.images

/-- All have come when as many came as were expected. -/
theorem arrived_of_counts (h : Sound c s) (hc : s.ckptPc.counts = true)
    (hle : s.mem.threadsExpected ≤ s.mem.threadsArrived) (ht : t ∈ s.mem.threadList) :
    Arrived (s.threads t) = true := by
  obtain ⟨harrived, hexpected⟩ := h.counts hc
  have hlen : s.mem.threadList.countP (fun t => Arrived (s.threads t)) = s.mem.threadList.length := by
    have := List.countP_le_length (p := fun t => Arrived (s.threads t)) (l := s.mem.threadList)
    omega
  exact List.countP_eq_length.mp hlen t ht

/-- A step on which nothing depends but the phase. -/
theorem moves_phase (s : Process) (k : CkptPc) (st : XndState) :
    Moves s { s.setXndState st with ckptPc := k } :=
  ⟨rfl, rfl, rfl, rfl, rfl, rfl, fun _ _ _ _ => rfl⟩

section Loop
variable (h : Sound c s)
include h

/-- A request comes. -/
theorem ckptStep_wait (hpc : s.ckptPc = .wait)
    (hsettled : ∀ t ∈ s.mem.threadList, (s.mem.info t).state ≠ .stSuspended ∧
      ∀ u ∈ s.threads t, u.pc ≠ .restartArrived)
    (hstep : s.ckptStep c = some s') : Sound c s' ∧ s'.view c = s.view c := by
  simp only [Process.ckptStep, hpc] at hstep
  obtain rfl := Option.some.inj hstep
  have hm := moves_phase s .saveTls .xndCkptPending
  refine ⟨h.move hm (fun t ht => ?_) h.ckptApart rfl CkptPc.noConfusion Bool.noConfusion
    (h.ckpt.phase rfl rfl rfl ?_ ?_ ?_ CkptPc.noConfusion CkptPc.noConfusion) CkptPc.noConfusion,
    hm.view_phase rfl rfl rfl rfl ?_ CkptPc.noConfusion ?_ ?_⟩
  · have hadmits := h.admits t ht
    have hfits := h.fits t ht
    obtain ⟨hstate, hrestart⟩ := hsettled t ht
    rw [hpc] at hadmits
    cases hu : s.threads t with
    | none =>
        rw [hu] at hadmits
        exact hadmits
    | some u =>
        rw [hu] at hadmits hfits
        rcases hadmits with hrun | harrived | harrived
        · exact hrun
        · simp only [Fits, harrived] at hfits
          exact absurd hfits.2.2.2.1 hstate
        · exact absurd harrived (hrestart u hu)
  all_goals simp [hpc, CkptPc.beforeTls, CkptPc.beforeSig]

/-- The checkpoint thread saves its thread-local storage: in the area that it had first. -/
theorem ckptStep_saveTls (hpc : s.ckptPc = .saveTls) (hstep : s.ckptStep c = some s') :
    Sound c s' ∧ s'.view c = s.view c := by
  simp only [Process.ckptStep, hpc] at hstep
  obtain rfl := Option.some.inj hstep
  have hadmits : ∀ t ∈ s.mem.threadList, CkptPc.saveSig.Admits (s.threads t) := by
    intro t ht
    have := h.admits t ht
    rw [hpc] at this
    cases hu : s.threads t <;> rw [hu] at this <;> exact this
  have hblocked := h.ckpt.blocked
  have hstate := h.xndState
  have hactions : appActions c (fun sig => (s.dispositions sig).action) = (s.view c).actions := by
    simp [Process.view, hpc]
  rw [hpc] at hblocked hstate
  rw [Memory.ckptSaveTls]
  split
  next htls =>
    have hm : Moves s { s with
        mem := { s.mem with ckptThread := { s.mem.ckptThread with tls := s.ckpt.area } }
        ckptPc := .saveSig } := ⟨rfl, rfl, rfl, rfl, rfl, rfl, fun _ _ _ _ => rfl⟩
    refine ⟨h.move hm hadmits (fun t ht a ha => ?_) hstate CkptPc.noConfusion Bool.noConfusion
      ⟨fun _ => rfl, fun hp => by simp at hp, hblocked, CkptPc.noConfusion,
        fun hp => hp.elim CkptPc.noConfusion CkptPc.noConfusion⟩ CkptPc.noConfusion, hm.view ?_ ?_ ?_⟩
    · have := (h.ckptApart t ht a ha).1
      exact ⟨this, this⟩
    · simp only [Process.view, hpc]
      rfl
    · simp [Process.view, hpc, CkptPc.beforeSig]
    · exact hactions
  next htls =>
    have htsd := Memory.tsd_copySlots s.mem s.ckpt.area s.mem.ckptThread.tls
    have hslot : ∀ a, a ≠ s.mem.ckptThread.tls →
        (s.mem.copySlots s.ckpt.area s.mem.ckptThread.tls).slot a = s.mem.slot a := by
      intro a hne
      funext k
      rw [Memory.slot_copySlots, if_neg]
      exact fun hk => hne hk.1
    rw [Memory.copySlots_eq] at htsd hslot ⊢
    generalize (s.mem.copySlots s.ckpt.area s.mem.ckptThread.tls).slot = slot at htsd hslot ⊢
    have hm : Moves s { s with mem := { s.mem with slot }, ckptPc := .saveSig } :=
      ⟨rfl, rfl, rfl, rfl, rfl, rfl, fun t ht a ha => hslot a (h.ckptApart t ht a ha).2⟩
    have hown : ({ s.mem with slot } : Memory).tsd s.ckpt.area = s.mem.tsd s.ckpt.area := by
      rw [htsd]
      split <;> rfl
    refine ⟨h.move hm hadmits h.ckptApart hstate CkptPc.noConfusion Bool.noConfusion
      ⟨fun _ => ?_, fun hp => by simp at hp, hblocked, CkptPc.noConfusion,
        fun hp => hp.elim CkptPc.noConfusion CkptPc.noConfusion⟩ CkptPc.noConfusion, hm.view ?_ ?_ ?_⟩
    · refine Eq.trans ?_ hown.symm
      rw [htsd, if_pos rfl]
    · simpa [Process.view, hpc, CkptPc.beforeTls] using hown
    · simp [Process.view, hpc, CkptPc.beforeSig]
    · exact hactions

/-- It saves its mask, in which the checkpoint signal is blocked. -/
theorem ckptStep_saveSig (hpc : s.ckptPc = .saveSig) (hstep : s.ckptStep c = some s') :
    Sound c s' ∧ s'.view c = s.view c := by
  simp only [Process.ckptStep, hpc] at hstep
  obtain rfl := Option.some.inj hstep
  have hblocked := h.ckpt.blocked
  have hstate := h.xndState
  have htls := h.ckpt.tls
  rw [hpc] at hblocked hstate htls
  have hsaved : (threadSaveSigState c.ckptSig true s.ckpt s.mem.ckptThread).sigblocked = s.ckpt.mask := by
    have : s.ckpt.mask.sigismember c.ckptSig = true := hblocked
    simp [threadSaveSigState, pthreadSigmask, this]
  have hm : Moves s { s with
      mem := { s.mem with ckptThread := threadSaveSigState c.ckptSig true s.ckpt s.mem.ckptThread }
      ckptPc := .suspend } := ⟨rfl, rfl, rfl, rfl, rfl, rfl, fun _ _ _ _ => rfl⟩
  refine ⟨h.move hm (fun t ht => ?_) h.ckptApart hstate CkptPc.noConfusion Bool.noConfusion
    ⟨fun _ => htls (by simp), fun _ => hsaved, hblocked, CkptPc.noConfusion,
      fun hp => hp.elim CkptPc.noConfusion CkptPc.noConfusion⟩ CkptPc.noConfusion, hm.view ?_ ?_ ?_⟩
  · have := h.admits t ht
    rw [hpc] at this
    cases hu : s.threads t <;> rw [hu] at this <;> exact this
  · simp only [Process.view, hpc]
    rfl
  · simp [Process.view, hpc, CkptPc.beforeSig]
  · simp [Process.view, hpc]

/-- The suspension begins. -/
theorem ckptStep_suspend (hpc : s.ckptPc = .suspend) (hstep : s.ckptStep c = some s') :
    Sound c s' ∧ s'.view c = s.view c := by
  simp only [Process.ckptStep, hpc] at hstep
  obtain rfl := Option.some.inj hstep
  have hm : Moves s { s with
      mem := { s.mem with xndState := .xndSuspinprog, threadsArrived := 0 }
      ckptPc := .scan } := ⟨rfl, rfl, rfl, rfl, rfl, rfl, fun _ _ _ _ => rfl⟩
  refine ⟨h.move hm (fun t ht => ?_) h.ckptApart rfl (fun _ => rfl) Bool.noConfusion
    (h.ckpt.phase rfl rfl rfl ?_ ?_ ?_ CkptPc.noConfusion CkptPc.noConfusion) CkptPc.noConfusion,
    hm.view_phase rfl rfl rfl rfl ?_ CkptPc.noConfusion ?_ ?_⟩
  · have hadmits := h.admits t ht
    rw [hpc] at hadmits
    cases hu : s.threads t with
    | none =>
        rw [hu] at hadmits
        exact hadmits
    | some u =>
        rw [hu] at hadmits
        exact hadmits.1.elim .inl fun hp => .inr (.inl hp)
  all_goals simp [hpc, CkptPc.beforeTls, CkptPc.beforeSig]

/-- The last pass of the scan found all threads on their way. -/
theorem ckptStep_scan (hpc : s.ckptPc = .scan) (hstep : s.ckptStep c = some s') :
    Sound c s' ∧ s'.view c = s.view c := by
  simp only [Process.ckptStep, hpc, guarded_eq_some] at hstep
  obtain ⟨hstopped, rfl⟩ := hstep
  have hm : Moves s { s with
      mem := { s.mem with threadsExpected := s.mem.threadList.length }
      ckptPc := .arrival } := ⟨rfl, rfl, rfl, rfl, rfl, rfl, fun _ _ _ _ => rfl⟩
  have hstate := h.xndState
  rw [hpc] at hstate
  -- A thread that is stopped is between its two compare-and-swaps, or at the barrier.
  have hadmits : ∀ t ∈ s.mem.threadList, CkptPc.arrival.Admits (s.threads t) := by
    intro t ht
    have hadmits := h.admits t ht
    have hfits := h.fits t ht
    have hst := hstopped t ht
    rw [hpc] at hadmits
    cases hu : s.threads t with
    | none =>
        rw [hu] at hadmits
        exact hadmits
    | some u =>
        rw [hu] at hadmits hfits
        obtain ⟨-, hfits⟩ := hfits
        rcases hadmits with hp | hp | hp | hp | hp | hp <;> simp only [hp] at hfits
        · exact absurd hst hfits.not_stopped
        · exact absurd hst hfits.2.not_stopped
        · rw [hfits.2.2] at hst
          rcases hst with hst | hst <;> cases hst
        · exact .inl hp
        · exact .inr (.inl hp)
        · exact .inr (.inr hp)
  refine ⟨h.move hm hadmits h.ckptApart hstate CkptPc.noConfusion (fun _ => ⟨?_, rfl⟩)
    (h.ckpt.phase rfl rfl rfl ?_ ?_ ?_ CkptPc.noConfusion CkptPc.noConfusion) CkptPc.noConfusion,
    hm.view_phase rfl rfl rfl rfl ?_ CkptPc.noConfusion ?_ ?_⟩
  · refine (h.starts hpc).trans (List.countP_eq_zero.mpr fun t ht => ?_).symm
    have := hadmits t ht
    cases hu : s.threads t with
    | none => simp [Arrived]
    | some u =>
        rw [hu] at this
        rcases this with hp | hp | hp <;> simp [Arrived, hp]
  all_goals simp [hpc, CkptPc.beforeTls, CkptPc.beforeSig]

/-- The threads may come to the barrier. -/
theorem ckptStep_arrival (hpc : s.ckptPc = .arrival) (hstep : s.ckptStep c = some s') :
    Sound c s' ∧ s'.view c = s.view c := by
  simp only [Process.ckptStep, hpc] at hstep
  obtain rfl := Option.some.inj hstep
  have hm := moves_phase s .arrivalWait .xndCkptinprog
  have hcounts := h.counts (by rw [hpc]; rfl)
  refine ⟨h.move hm (fun t ht => ?_) h.ckptApart rfl CkptPc.noConfusion (fun _ => hcounts)
    (h.ckpt.phase rfl rfl rfl ?_ ?_ ?_ CkptPc.noConfusion CkptPc.noConfusion) CkptPc.noConfusion,
    hm.view_phase rfl rfl rfl rfl ?_ CkptPc.noConfusion ?_ ?_⟩
  · have hadmits := h.admits t ht
    rw [hpc] at hadmits
    cases hu : s.threads t with
    | none =>
        rw [hu] at hadmits
        exact hadmits
    | some u =>
        rw [hu] at hadmits
        rcases hadmits with hp | hp | hp
        · exact .inl hp
        · exact .inr (.inl hp)
        · exact .inr (.inr (.inl hp))
  all_goals simp [hpc, CkptPc.beforeTls, CkptPc.beforeSig]

/-- All threads have come. -/
theorem ckptStep_arrivalWait (hpc : s.ckptPc = .arrivalWait) (hstep : s.ckptStep c = some s') :
    Sound c s' ∧ s'.view c = s.view c := by
  simp only [Process.ckptStep, hpc, guarded_eq_some] at hstep
  obtain ⟨hle, rfl⟩ := hstep
  have hm : Moves s { s with ckptPc := .precheckpoint } :=
    ⟨rfl, rfl, rfl, rfl, rfl, rfl, fun _ _ _ _ => rfl⟩
  have hstate := h.xndState
  rw [hpc] at hstate
  refine ⟨h.move hm (fun t ht => ?_) h.ckptApart hstate CkptPc.noConfusion Bool.noConfusion
    (h.ckpt.phase rfl rfl rfl ?_ ?_ ?_ CkptPc.noConfusion CkptPc.noConfusion) CkptPc.noConfusion,
    hm.view_phase rfl rfl rfl rfl ?_ CkptPc.noConfusion ?_ ?_⟩
  · have hadmits := h.admits t ht
    have harrived := h.arrived_of_counts (by rw [hpc]; rfl) hle ht
    rw [hpc] at hadmits
    cases hu : s.threads t with
    | none =>
        rw [hu] at hadmits
        exact hadmits
    | some u =>
        rw [hu] at hadmits harrived
        rcases hadmits with hp | hp | hp | hp
        · simp [Arrived, hp] at harrived
        · simp [Arrived, hp] at harrived
        · simp [Arrived, hp] at harrived
        · exact hp
  all_goals simp [hpc, CkptPc.beforeTls, CkptPc.beforeSig]

/-- It saves the dispositions. -/
theorem ckptStep_precheckpoint (hpc : s.ckptPc = .precheckpoint) (hstep : s.ckptStep c = some s') :
    Sound c s' ∧ s'.view c = s.view c := by
  obtain ⟨st, hst, hlast, htable⟩ := sigStateSave_eq c.legal s.dispositions s.mem.sigState
  simp only [Process.ckptStep, hpc, hst] at hstep
  obtain rfl := Option.some.inj hstep
  have hm : Moves s { s with mem := { s.mem with sigState := st }, ckptPc := .checkpoint } :=
    ⟨rfl, rfl, rfl, rfl, rfl, rfl, fun _ _ _ _ => rfl⟩
  have hstate := h.xndState
  have htls := h.ckpt.tls
  have hsig := h.ckpt.sigblocked
  have hblocked := h.ckpt.blocked
  rw [hpc] at hstate htls hsig hblocked
  refine ⟨h.move hm (fun t ht => ?_) h.ckptApart hstate CkptPc.noConfusion Bool.noConfusion
    ⟨fun _ => htls (by simp), fun _ => hsig (by simp), hblocked, fun _ => ?_, fun _ => hlast⟩
    CkptPc.noConfusion, hm.view_phase rfl rfl rfl rfl ?_ CkptPc.noConfusion ?_ ?_⟩
  · have := h.admits t ht
    rw [hpc] at this
    cases hu : s.threads t <;> rw [hu] at this <;> exact this
  · funext sig
    rw [appActions, appActions]
    by_cases hfree : c.Free sig
    · rw [if_pos hfree, if_pos hfree, htable sig hfree.1, if_neg hfree.2]
    · rw [if_neg hfree, if_neg hfree]
  all_goals simp [hpc, CkptPc.beforeTls, CkptPc.beforeSig]

/-- The user threads are released. -/
theorem ckptStep_release (hpc : s.ckptPc = .release) (hstep : s.ckptStep c = some s') :
    Sound c s' ∧ s'.view c = s.view c := by
  simp only [Process.ckptStep, hpc] at hstep
  obtain rfl := Option.some.inj hstep
  have hm := moves_phase s .wait .xndRunning
  refine ⟨h.move hm (fun t ht => ?_) h.ckptApart rfl CkptPc.noConfusion Bool.noConfusion
    (h.ckpt.phase rfl rfl rfl ?_ ?_ ?_ CkptPc.noConfusion CkptPc.noConfusion) CkptPc.noConfusion,
    hm.view_phase rfl rfl rfl rfl ?_ CkptPc.noConfusion ?_ ?_⟩
  · have hadmits := h.admits t ht
    rw [hpc] at hadmits
    cases hu : s.threads t with
    | none =>
        rw [hu] at hadmits
        exact hadmits
    | some u =>
        rw [hu] at hadmits
        exact .inr (.inl hadmits)
  all_goals simp [hpc, CkptPc.beforeTls, CkptPc.beforeSig]

/-! ## After a restart -/

/-- The dispositions are installed. -/
theorem ckptStep_restoreActions (hpc : s.ckptPc = .restoreActions) (hstep : s.ckptStep c = some s') :
    Sound c s' ∧ s'.view c = s.view c := by
  obtain ⟨d, hd, hinstalled⟩ :=
    sigStateRestore_eq c.legal (h.ckpt.lastCkptSig (.inr hpc)) s.dispositions
  simp only [Process.ckptStep, hpc, hd] at hstep
  obtain rfl := Option.some.inj hstep
  have hm : Moves s { s with dispositions := d, ckptPc := .restoreTls } :=
    ⟨rfl, rfl, rfl, rfl, rfl, rfl, fun _ _ _ _ => rfl⟩
  have hstate := h.xndState
  rw [hpc] at hstate
  refine ⟨h.move hm (fun t ht => ?_) h.ckptApart hstate CkptPc.noConfusion Bool.noConfusion
    (h.ckpt.phase rfl rfl rfl ?_ ?_ ?_ CkptPc.noConfusion CkptPc.noConfusion) CkptPc.noConfusion,
    hm.view ?_ ?_ ?_⟩
  · have := h.admits t ht
    rw [hpc] at this
    cases hu : s.threads t <;> rw [hu] at this <;> exact this
  · simp
  · simp
  · rw [hpc]
    rfl
  · simp only [Process.view, hpc]
    rfl
  · simp only [Process.view, hpc]
    rfl
  · simp only [Process.view, hpc, if_true, reduceCtorEq, if_false]
    funext sig
    rw [appActions, appActions]
    by_cases hfree : c.Free sig
    · rw [if_pos hfree, if_pos hfree, hinstalled sig hfree.1, if_neg hfree.2, SigAction.plain_plain]
    · rw [if_neg hfree, if_neg hfree]

/-- The checkpoint thread takes back its thread-local storage. -/
theorem ckptStep_restoreTls (hpc : s.ckptPc = .restoreTls) (hstep : s.ckptStep c = some s') :
    Sound c s' ∧ s'.view c = s.view c := by
  simp only [Process.ckptStep, hpc, Memory.threadRestoreTls] at hstep
  obtain rfl := Option.some.inj hstep
  have htsd := Memory.tsd_copySlots s.mem s.mem.ckptThread.tls s.ckpt.area s.ckpt.area
  rw [if_pos rfl] at htsd
  have hslot : ∀ a, a ≠ s.ckpt.area →
      (s.mem.copySlots s.mem.ckptThread.tls s.ckpt.area).slot a = s.mem.slot a := by
    intro a hne
    funext k
    rw [Memory.slot_copySlots, if_neg]
    exact fun hk => hne hk.1
  rw [Memory.copySlots_eq] at htsd hslot ⊢
  generalize (s.mem.copySlots s.mem.ckptThread.tls s.ckpt.area).slot = slot at htsd hslot ⊢
  have hm : Moves s { s with mem := { s.mem with slot }, ckptPc := .restoreThreads } :=
    ⟨rfl, rfl, rfl, rfl, rfl, rfl, fun t ht a ha => hslot a (h.ckptApart t ht a ha).1⟩
  have hstate := h.xndState
  have hblocked := h.ckpt.blocked
  rw [hpc] at hstate hblocked
  refine ⟨h.move hm (fun t ht => ?_) h.ckptApart hstate CkptPc.noConfusion Bool.noConfusion
    ⟨fun hp => by simp at hp, fun hp => by simp at hp, hblocked, CkptPc.noConfusion,
      fun hp => hp.elim CkptPc.noConfusion CkptPc.noConfusion⟩ CkptPc.noConfusion, hm.view ?_ ?_ ?_⟩
  · have := h.admits t ht
    rw [hpc] at this
    cases hu : s.threads t <;> rw [hu] at this <;> exact this
  · simp only [Process.view, hpc]
    exact htsd
  · simp only [Process.view, hpc]
    rfl
  · simp only [Process.view, hpc]
    rfl

/-- The user threads may come to the barrier. -/
theorem ckptStep_restartArrival (hpc : s.ckptPc = .restartArrival) (hstep : s.ckptStep c = some s') :
    Sound c s' ∧ s'.view c = s.view c := by
  simp only [Process.ckptStep, hpc] at hstep
  obtain rfl := Option.some.inj hstep
  have hm := moves_phase s .restartWait .xndCkptinprog
  have hcounts := h.counts (by rw [hpc]; rfl)
  refine ⟨h.move hm (fun t ht => ?_) h.ckptApart rfl CkptPc.noConfusion (fun _ => hcounts)
    (h.ckpt.phase rfl rfl rfl ?_ ?_ ?_ CkptPc.noConfusion CkptPc.noConfusion) CkptPc.noConfusion,
    hm.view_phase rfl rfl rfl rfl ?_ CkptPc.noConfusion ?_ ?_⟩
  · have := h.admits t ht
    rw [hpc] at this
    cases hu : s.threads t <;> rw [hu] at this <;> exact this
  all_goals simp [hpc, CkptPc.beforeTls, CkptPc.beforeSig]

/-- All user threads were made again. -/
theorem ckptStep_restartWait (hpc : s.ckptPc = .restartWait) (hstep : s.ckptStep c = some s') :
    Sound c s' ∧ s'.view c = s.view c := by
  simp only [Process.ckptStep, hpc, guarded_eq_some] at hstep
  obtain ⟨hle, rfl⟩ := hstep
  have hm : Moves s { s with ckptPc := .restoreSig } :=
    ⟨rfl, rfl, rfl, rfl, rfl, rfl, fun _ _ _ _ => rfl⟩
  have hstate := h.xndState
  rw [hpc] at hstate
  refine ⟨h.move hm (fun t ht => ?_) h.ckptApart hstate CkptPc.noConfusion Bool.noConfusion
    (h.ckpt.phase rfl rfl rfl ?_ ?_ ?_ CkptPc.noConfusion CkptPc.noConfusion) CkptPc.noConfusion,
    hm.view_phase rfl rfl rfl rfl ?_ CkptPc.noConfusion ?_ ?_⟩
  · have hadmits := h.admits t ht
    have harrived := h.arrived_of_counts (by rw [hpc]; rfl) hle ht
    rw [hpc] at hadmits
    cases hu : s.threads t with
    | none =>
        rw [hu] at hadmits
        exact hadmits
    | some u =>
        rw [hu] at hadmits harrived
        rcases hadmits with hp | hp | hp | hp
        · simp [Arrived, hp] at harrived
        · simp [Arrived, hp] at harrived
        · simp [Arrived, hp] at harrived
        · exact hp
  all_goals simp [hpc, CkptPc.beforeTls, CkptPc.beforeSig]

/-- The checkpoint thread takes back its mask. -/
theorem ckptStep_restoreSig (hpc : s.ckptPc = .restoreSig) (hstep : s.ckptStep c = some s') :
    Sound c s' ∧ s'.view c = s.view c := by
  simp only [Process.ckptStep, hpc] at hstep
  obtain rfl := Option.some.inj hstep
  have hstate := h.xndState
  have hblocked := h.ckpt.blocked
  rw [hpc] at hstate hblocked
  have hblocked : s.mem.ckptThread.sigblocked.sigismember c.ckptSig = true := hblocked
  have hmask : (threadRestoreSigState c.ckptSig true s.mem.ckptThread s.ckpt).mask =
      s.mem.ckptThread.sigblocked := by
    simp [threadRestoreSigState, pthreadSigmask, hblocked]
  have hm : Moves s { s with
      ckpt := threadRestoreSigState c.ckptSig true s.mem.ckptThread s.ckpt
      ckptPc := .restartRelease } := ⟨rfl, rfl, rfl, rfl, rfl, rfl, fun _ _ _ _ => rfl⟩
  refine ⟨h.move hm (fun t ht => ?_) h.ckptApart hstate CkptPc.noConfusion Bool.noConfusion
    ⟨fun hp => by simp at hp, fun hp => by simp at hp, ?_, CkptPc.noConfusion,
      fun hp => hp.elim CkptPc.noConfusion CkptPc.noConfusion⟩ CkptPc.noConfusion, hm.view ?_ ?_ ?_⟩
  · have := h.admits t ht
    rw [hpc] at this
    cases hu : s.threads t <;> rw [hu] at this <;> exact this
  · refine Eq.trans ?_ hblocked
    exact congrArg (SigSet.sigismember · c.ckptSig) hmask
  · simp only [Process.view, hpc]
    rfl
  · simp only [Process.view, hpc]
    exact hmask
  · simp only [Process.view, hpc]
    rfl

/-- The user threads are released. -/
theorem ckptStep_restartRelease (hpc : s.ckptPc = .restartRelease) (hstep : s.ckptStep c = some s') :
    Sound c s' ∧ s'.view c = s.view c := by
  simp only [Process.ckptStep, hpc] at hstep
  obtain rfl := Option.some.inj hstep
  have hm := moves_phase s .wait .xndRunning
  refine ⟨h.move hm (fun t ht => ?_) h.ckptApart rfl CkptPc.noConfusion Bool.noConfusion
    (h.ckpt.phase rfl rfl rfl ?_ ?_ ?_ CkptPc.noConfusion CkptPc.noConfusion) CkptPc.noConfusion,
    hm.view_phase rfl rfl rfl rfl ?_ CkptPc.noConfusion ?_ ?_⟩
  · have hadmits := h.admits t ht
    rw [hpc] at hadmits
    cases hu : s.threads t with
    | none =>
        rw [hu] at hadmits
        exact hadmits
    | some u =>
        rw [hu] at hadmits
        exact .inr (.inr hadmits)
  all_goals simp [hpc, CkptPc.beforeTls, CkptPc.beforeSig]

/-- **A step of the checkpoint thread shows nothing.** -/
theorem ckptStep (hsettled : s.Settled .ckpt) (hstep : s.ckptStep c = some s') :
    Sound c s' ∧ s'.view c = s.view c := by
  cases hpc : s.ckptPc with
  | wait => exact h.ckptStep_wait hpc (hsettled hpc) hstep
  | saveTls => exact h.ckptStep_saveTls hpc hstep
  | saveSig => exact h.ckptStep_saveSig hpc hstep
  | suspend => exact h.ckptStep_suspend hpc hstep
  | scan => exact h.ckptStep_scan hpc hstep
  | arrival => exact h.ckptStep_arrival hpc hstep
  | arrivalWait => exact h.ckptStep_arrivalWait hpc hstep
  | precheckpoint => exact h.ckptStep_precheckpoint hpc hstep
  | release => exact h.ckptStep_release hpc hstep
  | restoreActions => exact h.ckptStep_restoreActions hpc hstep
  | restoreTls => exact h.ckptStep_restoreTls hpc hstep
  | restartArrival => exact h.ckptStep_restartArrival hpc hstep
  | restartWait => exact h.ckptStep_restartWait hpc hstep
  | restoreSig => exact h.ckptStep_restoreSig hpc hstep
  | restartRelease => exact h.ckptStep_restartRelease hpc hstep
  | checkpoint | restoreThreads | aborted =>
      simp only [Process.ckptStep, hpc] at hstep
      cases hstep

/-! ## Images -/

/-- At the checkpoint all threads wait in the barrier, and their descriptors hold what they have. -/
theorem saved_of_checkpoint (hpc : s.ckptPc = .checkpoint) (ht : t ∈ s.mem.threadList) :
    Saved c s.mem t ∧ s.areas t = [(s.mem.info t).tls] ∧
      s.mem.savedVisible t = visibleOf s.mem t (s.threads t) := by
  have hadmits := h.admits t ht
  have hfits := h.fits t ht
  rw [hpc] at hadmits
  rw [Process.areas]
  cases hu : s.threads t with
  | none =>
      rw [hu] at hadmits
      exact hadmits.elim
  | some u =>
      rw [hu] at hadmits hfits
      have hp : u.pc = .arrived := hadmits
      obtain ⟨-, hfits⟩ := hfits
      simp only [hp] at hfits
      obtain ⟨hsaved, -, -, htls, hss⟩ := hfits
      refine ⟨hsaved, ?_, ?_⟩
      · rw [areasOf, hp, if_neg Pc.noConfusion, htls]
      · simp only [visibleOf, hp, Memory.savedVisible, htls, hss]

/-- **The image of a checkpoint** can be started from, and shows what the process shows. -/
theorem image (hpc : s.ckptPc = .checkpoint) : Image c s.mem ∧ s.mem.view c = s.view c := by
  have htls := h.ckpt.tls (by simp [hpc])
  have hsig := h.ckpt.sigblocked (by simp [hpc])
  have hblocked := h.ckpt.blocked
  have hstate := h.xndState
  rw [hpc] at hblocked hstate
  constructor
  · refine
      { nodup := h.nodup, saved := fun t ht => (h.saved_of_checkpoint hpc ht).1
        apart := fun t ht t' ht' he => h.apart t ht t' ht' (s.mem.info t).tls ?_ ?_
        ckptApart := fun t ht => (h.ckptApart t ht _ ?_).2, xndState := hstate
        lastCkptSig := h.ckpt.lastCkptSig (.inl hpc), blocked := ?_ }
    · rw [(h.saved_of_checkpoint hpc ht).2.1]
      exact List.mem_singleton_self _
    · rw [(h.saved_of_checkpoint hpc ht').2.1, he]
      exact List.mem_singleton_self _
    · rw [(h.saved_of_checkpoint hpc ht).2.1]
      exact List.mem_singleton_self _
    · rw [hsig]
      exact hblocked
  · refine View.ext (funext fun t => ?_) ?_ ?_ ?_
    · by_cases ht : t ∈ s.mem.threadList
      · rw [Process.view_threads_of_mem ht, ← (h.saved_of_checkpoint hpc ht).2.2]
        exact if_pos ht
      · rw [Process.view_threads_of_not_mem ht]
        exact if_neg ht
    · rw [Memory.view, Process.view, hpc]
      exact htls
    · rw [Memory.view, Process.view, hpc]
      exact hsig
    · rw [Memory.view, Process.view, hpc]
      exact h.ckpt.saTable hpc

/-- The image is written. -/
theorem checkpoint (hpc : s.ckptPc = .checkpoint) :
    Sound c { s with images := s.images ++ [s.mem], ckptPc := .release } ∧
      Process.view c { s with images := s.images ++ [s.mem], ckptPc := .release } = s.view c := by
  have hm : Moves s { s with ckptPc := .release } := ⟨rfl, rfl, rfl, rfl, rfl, rfl, fun _ _ _ _ => rfl⟩
  have hstate := h.xndState
  rw [hpc] at hstate
  have hs : Sound c { s with ckptPc := .release } := by
    refine h.move hm (fun t ht => ?_) h.ckptApart hstate CkptPc.noConfusion Bool.noConfusion
      (h.ckpt.phase rfl rfl rfl ?_ ?_ ?_ CkptPc.noConfusion CkptPc.noConfusion) CkptPc.noConfusion
    · have := h.admits t ht
      rw [hpc] at this
      cases hu : s.threads t <;> rw [hu] at this <;> exact this
    all_goals simp [hpc, CkptPc.beforeSig]
  refine ⟨{ hs with ckpt := { hs.ckpt with }, images := fun m hmem => ?_ }, ?_⟩
  · rcases List.mem_append.mp hmem with hmem | hmem
    · exact h.images m hmem
    · rw [List.mem_singleton.mp hmem]
      exact (h.image hpc).1
  · refine (hm.view_phase rfl rfl rfl rfl ?_ CkptPc.noConfusion ?_ ?_ : Process.view c _ = _)
    all_goals simp [hpc, CkptPc.beforeTls, CkptPc.beforeSig]

/-- **The user threads are made again**, each with an area of its own. -/
theorem restoreThreads (hpc : s.ckptPc = .restoreThreads) {area : Nat → Nat}
    (hfresh : ∀ t ∈ s.mem.threadList, s.FreshArea (area t)) (hnodup : (s.mem.threadList.map area).Nodup) :
    Sound c (s.restoreThreads area) ∧ (s.restoreThreads area).view c = s.view c := by
  have hnone : ∀ t ∈ s.mem.threadList, s.threads t = none := by
    intro t ht
    have hadmits := h.admits t ht
    rw [hpc] at hadmits
    cases hu : s.threads t with
    | none => rfl
    | some u =>
        rw [hu] at hadmits
        exact hadmits.elim
  have hsome : ∀ t ∈ s.mem.threadList, (s.restoreThreads area).threads t =
      some ⟨⟨area t, s.ckpt.mask, .none⟩, .restart, false⟩ := fun t ht => if_pos ht
  have old : ∀ t ∈ s.mem.threadList, s.areas t = [(s.mem.info t).tls] := by
    intro t ht
    rw [Process.areas, hnone t ht]
    rfl
  have new : ∀ t ∈ s.mem.threadList,
      (s.restoreThreads area).areas t = [(s.mem.info t).tls, area t] := by
    intro t ht
    rw [Process.areas, hsome t ht]
    rfl
  have hstate := h.xndState
  rw [hpc] at hstate
  constructor
  · refine
      { nodup := h.nodup, fits := fun t ht => ?_, admits := fun t ht => ?_
        apart := fun t ht t' ht' a ha ha' => ?_, ckptApart := fun t ht a ha => ?_
        xndState := hstate, starts := CkptPc.noConfusion, counts := fun _ => ⟨?_, rfl⟩
        ckpt := ?_, images := h.images, alive := CkptPc.noConfusion }
    · rw [hsome t ht]
      have hsaved := h.fits t ht
      rw [hnone t ht] at hsaved
      exact ⟨Bool.noConfusion, ⟨hsaved.frames, hsaved.isRestart, hsaved.ss⟩, rfl, rfl⟩
    · rw [hsome t ht]
      exact .inl rfl
    · -- A saved area is saved for one thread, and a new one is not in use.
      have hold : ∀ t₁ ∈ s.mem.threadList, ∀ t₂ ∈ s.mem.threadList,
          (s.mem.info t₁).tls ≠ area t₂ := by
        intro t₁ h₁ t₂ h₂ he
        refine (hfresh t₂ h₂).2.2 t₁ h₁ ?_
        rw [old t₁ h₁, he]
        exact List.mem_singleton_self _
      rw [new t ht, List.mem_cons, List.mem_singleton] at ha
      rw [new t' ht', List.mem_cons, List.mem_singleton] at ha'
      rcases ha with rfl | rfl <;> rcases ha' with he | he
      · refine h.apart t ht t' ht' (s.mem.info t).tls ?_ ?_
        · rw [old t ht]
          exact List.mem_singleton_self _
        · rw [old t' ht', he]
          exact List.mem_singleton_self _
      · exact absurd he (hold t ht t' ht')
      · exact absurd he.symm (hold t' ht' t ht)
      · exact List.inj_on_of_nodup_map hnodup ht ht' he
    · rw [new t ht, List.mem_cons, List.mem_singleton] at ha
      rcases ha with rfl | rfl
      · refine h.ckptApart t ht _ ?_
        rw [old t ht]
        exact List.mem_singleton_self _
      · exact ⟨(hfresh t ht).1, (hfresh t ht).2.1⟩
    · refine (List.countP_eq_zero.mpr fun t ht => ?_).symm
      rw [hsome t ht]
      exact Bool.noConfusion
    · refine h.ckpt.phase rfl rfl rfl ?_ ?_ ?_ CkptPc.noConfusion CkptPc.noConfusion <;>
        simp [hpc, Process.restoreThreads, CkptPc.beforeSig]
  · refine View.ext (funext fun t => ?_) ?_ ?_ ?_
    · by_cases ht : t ∈ s.mem.threadList
      · rw [Process.view_threads_of_mem ht, hnone t ht]
        refine (Process.view_threads_of_mem (s := s.restoreThreads area) ht).trans ?_
        rw [hsome t ht]
        rfl
      · rw [Process.view_threads_of_not_mem ht]
        exact Process.view_threads_of_not_mem (s := s.restoreThreads area) ht
    all_goals
      simp only [Process.view, hpc]
      rfl

end Loop

end Sound

/-- **A process that is started from an image** satisfies the invariant and shows what the image
shows. -/
theorem Image.resume (h : Image c m) {images : List Memory} (himages : ∀ m ∈ images, Image c m)
    {area : Nat} (htls : area ≠ m.ckptThread.tls) (hfresh : ∀ t ∈ m.threadList, area ≠ (m.info t).tls)
    (words : Nat → Nat) (mask : SigSet) (d : Dispositions) :
    Sound c (Process.resume m images area words mask d) ∧
      (Process.resume m images area words mask d).view c = m.view c := by
  have hslot : ∀ a, a ≠ area → (Process.resume m images area words mask d).mem.slot a = m.slot a :=
    fun _ hne => put_of_ne _ _ hne
  have same : ∀ t ∈ m.threadList, SameOf m (Process.resume m images area words mask d).mem t
      (areasOf (m.info t).tls none) := by
    refine fun t ht => ⟨fun a ha => hslot a ?_, fun _ hb => hb, rfl, rfl⟩
    rw [List.mem_singleton.mp ha]
    exact Ne.symm (hfresh t ht)
  have areas : ∀ t, (Process.resume m images area words mask d).areas t = [(m.info t).tls] :=
    fun _ => rfl
  constructor
  · refine
      { nodup := h.nodup, fits := fun t ht => (same t ht).fits (h.saved t ht)
        admits := fun _ _ => trivial, apart := fun t ht t' ht' a ha ha' => h.apart t ht t' ht' ?_
        ckptApart := fun t ht a ha => ?_, xndState := h.xndState, starts := CkptPc.noConfusion
        counts := Bool.noConfusion
        ckpt := ⟨fun hp => by simp [Process.resume] at hp, fun hp => by simp [Process.resume] at hp,
          h.blocked, CkptPc.noConfusion, fun _ => h.lastCkptSig⟩
        images := himages, alive := CkptPc.noConfusion }
    · rw [areas, List.mem_singleton] at ha ha'
      rw [← ha, ha']
    · rw [areas, List.mem_singleton] at ha
      rw [ha]
      exact ⟨Ne.symm (hfresh t ht), h.ckptApart t ht⟩
  · refine View.ext (funext fun t => ?_) ?_ rfl rfl
    · by_cases ht : t ∈ m.threadList
      · refine (Process.view_threads_of_mem ht).trans ?_
        exact (congrArg some (same t ht).visible).trans (if_pos ht).symm
      · exact (Process.view_threads_of_not_mem ht).trans (if_neg ht).symm
    · exact Memory.tsd_congr (hslot _ (Ne.symm htls))

end Xnd.Resume
