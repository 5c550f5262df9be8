import Xnd.Resume.Cycle

/-!
# Checkpoints are transparent

The process after `xnd_setup` satisfies the invariant (`Sound.setup`), and each step of a run keeps it
and shows what it does to the program's view, or nothing (`Sound.step`).  So what the program sees is
what its own calls come to, a checkpoint saves it, and a restart brings back what was saved:
`Process.versions_run`.
-/
namespace Xnd.Resume
open Thread (ThreadState XndState)

variable {c : Setup} {s s' : Process} {t : Nat} {u : UserThread} {a : Act}

/-! ## The start -/

/-- `SA_SIGINFO`. -/
def saSiginfo : BitVec 32 := 0x0040#32

/-- What `xnd_setup` finds in a process that begins. -/
structure Start where
  /-- The main thread, its area and the block of its thread-local variables. -/
  main : Nat
  area : Nat
  block : Nat
  words : Nat → Nat
  mask : SigSet
  dispositions : Dispositions
  /-- `sa_mask` of the variable in `xnd_setup`, which is not set. -/
  saMask : SigSet
  /-- The area of the checkpoint thread. -/
  ckptArea : Nat
  /-- `exec` leaves no handlers. -/
  plain : ∀ sig, (dispositions sig).action.handler = .sigDfl ∨ (dispositions sig).action.handler = .sigIgn
  area_pos : 0 < area
  apart : area ≠ ckptArea

/-- The process with which the program begins, when the dispositions are installed. -/
def Start.process (c : Setup) (i : Start) (d : Dispositions) : Process where
  mem :=
    { slot := put (fun _ _ => 0) i.area (put i.words c.tlvKey i.block)
      isRestart := fun _ => false
      info := fun _ => ⟨.stRunning, 0, 0, .none⟩
      threadList := [i.main]
      frames := fun _ => []
      ckptThread := ⟨.stCkptThread, 0, 0, .none⟩
      sigState := ⟨fun _ => .zero, -1⟩
      xndState := .xndRunning
      threadsArrived := 0
      threadsExpected := 0 }
  threads := put (fun _ => none) i.main (some ⟨⟨i.area, i.mask, .none⟩, .run, false⟩)
  ckpt := ⟨i.ckptArea, pthreadSigmask .sigBlock (some (SigSet.sigaddset 0 c.ckptSig)) i.mask, .none⟩
  ckptPc := .wait
  dispositions := d
  images := []

namespace Process

/-- The action that `xnd_setup` installs. -/
def ckptAction (i : Start) : SigAction := ⟨.threadSighandler, i.saMask, saSiginfo⟩

/-- `xnd_setup`, and the checkpoint thread up to its loop; `none` when it aborts. -/
def setup (c : Setup) (i : Start) : Option Process :=
  (xndSigaction c.ckptSig (some (ckptAction i)) i.dispositions).map fun r => i.process c r.2

/-- An assertion failed, or the process aborted. -/
def Failed (s : Process) : Prop :=
  s.ckptPc = .aborted ∨ ∃ t ∈ s.mem.threadList, ∃ u ∈ s.threads t, u.pc = .aborted

end Process

theorem Process.setup_eq (c : Setup) (i : Start) : Process.setup c i = some (i.process c
    (i.dispositions.set c.ckptSig ⟨(Process.ckptAction i).plain, .xndSigtramp⟩)) := by
  rw [Process.setup, xndSigaction_some c.legal]
  rfl

@[simp] theorem Start.threads_process (c : Setup) (i : Start) (d : Dispositions) :
    (i.process c d).threads i.main = some ⟨⟨i.area, i.mask, .none⟩, .run, false⟩ :=
  put_self (fun _ => none) i.main _

@[simp] theorem Start.dispositions_process (c : Setup) (i : Start) (d : Dispositions) :
    (i.process c d).dispositions = d := rfl

theorem sigismember_block {sig : Nat} (h : sig ∈ signals) (mask : SigSet) :
    (pthreadSigmask .sigBlock (some (SigSet.sigaddset 0 sig)) mask).sigismember sig = true := by
  obtain ⟨hpos, hlt, -⟩ := mem_signals.mp h
  have hbit := SigSet.sigismember_bit hpos (Nat.le_of_lt hlt) hpos
  simp only [pthreadSigmask, SigSet.sigaddset, SigSet.sigismember_or, hbit, decide_true, Bool.or_true]

namespace Sound

/-- **The process after `xnd_setup`.** -/
theorem process (i : Start) (d : Dispositions) : Sound c (i.process c d) := by
  refine
    { nodup := List.nodup_singleton _, fits := fun t ht => ?_, admits := fun t ht => ?_
      apart := fun t ht t' ht' _ _ _ => (List.mem_singleton.mp ht).trans (List.mem_singleton.mp ht').symm
      ckptApart := fun t ht a ha => ?_, xndState := rfl, starts := CkptPc.noConfusion
      counts := Bool.noConfusion
      ckpt := ⟨fun hp => by simp [Start.process] at hp, fun hp => by simp [Start.process] at hp,
        sigismember_block c.legal i.mask, CkptPc.noConfusion,
        fun hp => hp.elim CkptPc.noConfusion CkptPc.noConfusion⟩
      images := List.forall_mem_nil _, alive := CkptPc.noConfusion }
  all_goals obtain rfl := List.mem_singleton.mp ht
  · rw [Start.threads_process]
    exact ⟨Bool.noConfusion, .inl ⟨rfl, rfl⟩⟩
  · rw [Start.threads_process]
    exact .inl ⟨.inl rfl, rfl⟩
  · rw [Process.areas, Start.threads_process] at ha
    rw [List.mem_singleton.mp ha]
    exact ⟨i.apart, Nat.ne_of_gt i.area_pos⟩

theorem setup {i : Start} (h : Process.setup c i = some s) : Sound c s := by
  obtain rfl := Option.some.inj ((Process.setup_eq c i).symm.trans h)
  exact process i _

theorem not_failed (h : Sound c s) : ¬ s.Failed := by
  rintro (hck | ⟨t, ht, u, hu, hpc⟩)
  · exact h.alive hck
  · have hfits := (h.fitsAt ht hu).2
    rw [hpc] at hfits
    exact hfits

/-! ## A step -/

/-- A thread-local variable of the checkpoint thread. -/
theorem ckptSlot (h : Sound c s) {slot word : Nat} (hpc : s.ckptPc = .wait)
    (hslot : tsdStart ≤ slot ∧ slot < tsdEnd) :
    Sound c { s with mem := s.mem.store s.ckpt.area slot word } ∧
      Process.view c { s with mem := s.mem.store s.ckpt.area slot word } =
        (s.view c).apply c (.ckptSlot slot word) := by
  have hm : Moves s { s with mem := s.mem.store s.ckpt.area slot word } :=
    ⟨rfl, rfl, rfl, rfl, rfl, rfl, fun t ht a ha => Memory.slot_store_of_ne (h.ckptApart t ht a ha).1⟩
  have hckpt : CkptFits c { s with mem := s.mem.store s.ckpt.area slot word } := by
    refine ⟨fun hp => ?_, fun hp => ?_, h.ckpt.blocked, fun hp => ?_, fun hp => ?_⟩
    all_goals simp [hpc] at hp
  refine ⟨h.move hm h.admits h.ckptApart h.xndState h.starts h.counts hckpt h.alive, ?_⟩
  have hthreads : (Process.view c { s with mem := s.mem.store s.ckpt.area slot word }).threads =
      (s.view c).threads := by
    funext t
    by_cases ht : t ∈ s.mem.threadList
    · rw [Process.view_threads_of_mem ht, ← (hm.same ht).visible]
      exact if_pos ht
    · rw [Process.view_threads_of_not_mem ht]
      exact if_neg ht
  refine View.ext hthreads ?_ rfl rfl
  simp only [Process.view, View.apply, hpc, CkptPc.beforeTls]
  exact Memory.tsd_store hslot

end Sound

theorem Process.runs_eq_some (h : s.runs t = some u) :
    t ∈ s.mem.threadList ∧ s.threads t = some u ∧ u.pc = .run := by
  rw [Process.runs] at h
  split at h
  next ht =>
    obtain ⟨hu, hpc⟩ := Option.filter_eq_some_iff.mp h
    exact ⟨ht, hu, of_decide_eq_true hpc⟩
  next => cases h

/-- A step that shows nothing. -/
theorem versions_still (himages : s'.images = s.images) (hview : s'.view c = s.view c) :
    s'.versions c = s.versions c := by
  rw [Process.versions, Process.versions, himages, hview]

/-- A step of the program. -/
theorem versions_op {o : Op} (himages : s'.images = s.images) (hview : s'.view c = (s.view c).apply c o) :
    s'.versions c = (s.versions c).apply (View.apply c) (.op o) := by
  rw [Process.versions, himages, hview]
  rfl

theorem install_eq_after {α : Type} (hu : s.threads t = some u) (o : Option (α × Dispositions)) :
    s.install o = s.after t s.mem u (s.install o).dispositions := by
  rw [after_self hu]
  cases o <;> rfl

/-- A call changes the thread, memory and the dispositions. -/
theorem call_eq_after {x : Call} (hu : s.threads t = some u) (h : s.call c t u x = some s') :
    ∃ m u' d, s' = s.after t m u' d := by
  cases x <;> simp only [Process.call, guarded_eq_some] at h
  case setSlot => exact ⟨_, u, _, h.2.symm.trans (after_self hu).symm⟩
  case sigaltstack => exact ⟨_, _, _, h.2.symm⟩
  case deliver => exact ⟨_, _, _, h.2.symm⟩
  case sigaction => exact ⟨_, u, _, (Option.some.inj h).symm.trans (install_eq_after hu _)⟩
  case signal => exact ⟨_, u, _, (Option.some.inj h).symm.trans (install_eq_after hu _)⟩
  case sigmask => exact ⟨_, _, _, (Option.some.inj h).symm⟩
  case sigreturn =>
    split at h
    · cases h
    · exact ⟨_, _, _, (Option.some.inj h).symm⟩

/-- A step of a user thread changes the thread and memory. -/
theorem userStep_eq_after (h : s.userStep c t u = some s') :
    ∃ m u', s' = s.after t m u' s.dispositions := by
  cases hpc : u.pc <;> simp only [Process.userStep, hpc, guarded_eq_some] at h
  case handler | context =>
    rw [← Option.some.inj h, Process.cas]
    split <;> exact ⟨_, _, rfl⟩
  case arrived =>
    rw [← h.2, Process.cas]
    split <;> exact ⟨_, _, rfl⟩
  case sigreturn =>
    split at h
    · cases h
    · exact ⟨_, _, (Option.some.inj h).symm⟩
  case run | barrier | restartBarrier | restartArrived => exact ⟨_, _, h.2.symm⟩
  case saveSig | restart | restartSig => exact ⟨_, _, (Option.some.inj h).symm⟩
  case aborted => cases h

/-- A step of the checkpoint thread changes its own share, and the dispositions after a restart. -/
theorem ckptStep_eq (h : s.ckptStep c = some s') : ∃ m k pc d,
    s' = { s with mem := m, ckpt := k, ckptPc := pc, dispositions := d } ∧
      (s.ckptPc ≠ .restoreActions → d = s.dispositions) := by
  cases hpc : s.ckptPc <;> simp only [Process.ckptStep, hpc, guarded_eq_some] at h
  case scan | arrivalWait | restartWait => exact ⟨_, _, _, _, h.2.symm, fun _ => rfl⟩
  case precheckpoint =>
    split at h <;> exact ⟨_, _, _, _, (Option.some.inj h).symm, fun _ => rfl⟩
  case restoreActions =>
    split at h <;> exact ⟨_, _, _, _, (Option.some.inj h).symm, fun hne => absurd rfl hne⟩
  case checkpoint | restoreThreads | aborted => cases h
  all_goals exact ⟨_, _, _, _, (Option.some.inj h).symm, fun _ => rfl⟩

/-- **A step** keeps the invariant and shows as its event. -/
theorem Sound.step (h : Sound c s) (hsettled : s.Settled a) (hstep : s.step c a = some s') :
    Sound c s' ∧ s'.versions c =
      (Act.event a).toList.foldl (Versions.apply (View.apply c)) (s.versions c) := by
  cases a with
  | call t x =>
      obtain ⟨u, hruns, hcall⟩ := Option.bind_eq_some_iff.mp hstep
      obtain ⟨ht, hu, hpc⟩ := Process.runs_eq_some hruns
      obtain ⟨hs, hview⟩ := h.call ht hu hpc hcall
      obtain ⟨m, u', d, rfl⟩ := call_eq_after hu hcall
      exact ⟨hs, versions_op rfl hview⟩
  | create t t' area block =>
      obtain ⟨u, hruns, hcreate⟩ := Option.bind_eq_some_iff.mp hstep
      obtain ⟨ht, hu, hpc⟩ := Process.runs_eq_some hruns
      obtain ⟨⟨hrun, ht', hfresh⟩, rfl⟩ := guarded_eq_some.mp hcreate
      obtain ⟨hs, hview⟩ := h.create ht hu hpc hrun ht' hfresh
      exact ⟨hs, versions_op rfl hview⟩
  | exit t =>
      obtain ⟨u, hruns, hexit⟩ := Option.bind_eq_some_iff.mp hstep
      obtain ⟨ht, hu, hpc⟩ := Process.runs_eq_some hruns
      obtain ⟨-, rfl⟩ := guarded_eq_some.mp hexit
      obtain ⟨hs, hview⟩ := h.exit ht hu hpc rfl
      exact ⟨hs, versions_op rfl hview⟩
  | user t =>
      simp only [Process.step] at hstep
      split at hstep
      next ht =>
        obtain ⟨u, hu, huser⟩ := Option.bind_eq_some_iff.mp hstep
        obtain ⟨hs, hview⟩ := h.userStep ht hu huser
        obtain ⟨m, u', rfl⟩ := userStep_eq_after huser
        exact ⟨hs, versions_still rfl hview⟩
      next => cases hstep
  | ckpt =>
      obtain ⟨hs, hview⟩ := h.ckptStep hsettled hstep
      obtain ⟨m, k, pc, d, rfl, -⟩ := ckptStep_eq hstep
      exact ⟨hs, versions_still rfl hview⟩
  | ckptSlot slot word =>
      obtain ⟨⟨hpc, hslot⟩, rfl⟩ := guarded_eq_some.mp hstep
      obtain ⟨hs, hview⟩ := h.ckptSlot hpc hslot
      exact ⟨hs, versions_op rfl hview⟩
  | signal t =>
      simp only [Process.step] at hstep
      split at hstep
      next hguard =>
        obtain ⟨hscan, ht, hrun⟩ := hguard
        obtain ⟨u, hu, rfl⟩ := Option.map_eq_some_iff.mp hstep
        obtain ⟨hs, hview⟩ := h.signal ht hu hscan hrun rfl
        exact ⟨hs, versions_still rfl hview⟩
      next => cases hstep
  | checkpoint =>
      obtain ⟨hpc, rfl⟩ := guarded_eq_some.mp hstep
      obtain ⟨hs, hview⟩ := h.checkpoint hpc
      refine ⟨hs, ?_⟩
      have himage : s.mem.view c = s.view c := (h.image hpc).2
      rw [Process.versions, hview, List.map_append, List.map_singleton, himage]
      rfl
  | restoreThreads area =>
      simp only [Process.step] at hstep
      split at hstep
      next hguard =>
        obtain ⟨hpc, hfresh, hnodup⟩ := hguard
        obtain rfl := Option.some.inj hstep
        obtain ⟨hs, hview⟩ := h.restoreThreads hpc hfresh hnodup
        exact ⟨hs, versions_still rfl hview⟩
      next => cases hstep
  | restart n area words mask d =>
      obtain ⟨m, hm, hresume⟩ := Option.bind_eq_some_iff.mp hstep
      obtain ⟨⟨htls, hfresh⟩, rfl⟩ := guarded_eq_some.mp hresume
      have himage := h.images m (List.mem_of_getElem? hm)
      obtain ⟨hs, hview⟩ := himage.resume h.images htls hfresh words mask d
      refine ⟨hs, ?_⟩
      have hsaved : ((s.versions c).saved)[n]? = some (m.view c) := by
        rw [Process.versions, List.getElem?_map, hm]
        rfl
      rw [Process.versions, hview]
      simp only [Act.event, Option.toList, List.foldl_cons, List.foldl_nil, Versions.apply, hsaved]
      rfl

/-! ## Runs -/

/-- `SIGUSR2`, and a slot. -/
def sampleSetup : Setup where
  ckptSig := 31
  legal := by decide
  tlvKey := 300
  low := by decide
  high := by decide

def sampleStart : Start where
  main := 1
  area := 100
  block := 1000
  words _ := 0
  mask := 0
  dispositions _ := ⟨.zero, .sigtramp⟩
  saMask := 0
  ckptArea := 200
  plain _ := .inl rfl
  area_pos := by decide
  apart := by decide

/-- A checkpoint, that the program goes on after. -/
def checkpointed : List Act :=
  [.call 1 (.setSlot 21 5), .ckpt, .ckpt, .ckpt, .ckpt, .signal 1, .user 1, .user 1, .user 1, .user 1,
    .ckpt, .ckpt, .user 1, .ckpt, .ckpt, .checkpoint, .ckpt, .user 1, .user 1, .call 1 (.setSlot 21 6)]

/-- A restart from it. -/
def reborn : Act := .restart 0 500 (fun _ => 0) 0 fun _ => ⟨.zero, .sigtramp⟩

/-- What follows, until the thread is in its code again. -/
def released : List Act :=
  [.ckpt, .ckpt, .restoreThreads fun _ => 600, .user 1, .user 1, .user 1, .ckpt, .ckpt, .ckpt, .ckpt,
    .user 1, .user 1]

theorem isSome_setup_sample : (Process.setup sampleSetup sampleStart).isSome = true := rfl

def sampleInit : Process := (Process.setup sampleSetup sampleStart).get isSome_setup_sample

set_option maxRecDepth 10000 in
theorem isSome_follow_restarted : (Machine.follow (Process.step sampleSetup) Process.Settled sampleInit
    (checkpointed ++ reborn :: released)).isSome = true := by decide

end Xnd.Resume
