import Xnd.Resume.View

/-!
# One step of a process

A step of a user thread touches the thread's own area, descriptor and stack (`Touches`), and a step
of the checkpoint thread what is its own; the areas of different threads are apart.  So a step leaves
what the program sees of every other thread, and what is left to check is the thread itself, place by
place.
-/
namespace Xnd.Resume
open Thread (ThreadState XndState)

variable {c : Setup} {s s' : Process} {m m' : Memory} {t t' : Nat} {u u' : UserThread}
  {o : Option UserThread}

/-! ## What does not concern a thread -/

/-- Memory holds the same of a thread. -/
structure SameOf (m m' : Memory) (t : Nat) (areas : List Nat) : Prop where
  slot : ∀ a ∈ areas, m'.slot a = m.slot a
  isRestart : ∀ b, m.isRestart b = true → m'.isRestart b = true
  info : m'.info t = m.info t
  frames : m'.frames t = m.frames t

theorem SameOf.saved (h : SameOf m m' t [(m.info t).tls]) (hs : Saved c m t) : Saved c m' t where
  frames := by rw [h.frames]; exact hs.frames
  isRestart := by
    rw [h.info, h.slot _ (List.mem_singleton_self _)]
    exact h.isRestart _ hs.isRestart
  ss := by rw [h.info]; exact hs.ss

theorem SameOf.subset {l l' : List Nat} (h : SameOf m m' t l) (hl : l' ⊆ l) : SameOf m m' t l' :=
  { h with slot := fun a ha => h.slot a (hl ha) }

theorem SameOf.area (h : SameOf m m' t (areasOf (m.info t).tls (some u))) :
    m'.slot u.kernel.area = m.slot u.kernel.area := by
  refine h.slot _ ?_
  rw [areasOf]
  split <;> simp

theorem SameOf.fits (h : SameOf m m' t (areasOf (m.info t).tls o)) (hf : Fits c m t o) :
    Fits c m' t o := by
  cases o with
  | none => exact h.saved hf
  | some u =>
      refine ⟨hf.1, ?_⟩
      have hf := hf.2
      have harea := h.area
      have hsaved : Saved c m t → (m.info t).tls = u.kernel.area → Saved c m' t := by
        intro hs htls
        refine SameOf.saved (h.subset ?_) hs
        rw [htls, areasOf]
        split <;> simp
      cases hpc : u.pc with
      | run | sigreturn | handler | saveSig | context | restartSig | restartBarrier | restartArrived =>
          simp only [hpc, RunState, h.info, h.frames, harea] at hf ⊢
          first
          | exact hf
          | exact ⟨hf.1, hf.2.1, hf.2.2.1, h.isRestart _ hf.2.2.2.1, hf.2.2.2.2⟩
          | exact ⟨hf.1, hf.2.1, hf.2.2.1, h.isRestart _ hf.2.2.2⟩
      | barrier | arrived =>
          simp only [hpc, h.info] at hf ⊢
          exact ⟨hsaved hf.1 hf.2.2.2.1, hf.2⟩
      | restart =>
          simp only [hpc] at hf ⊢
          refine ⟨SameOf.saved (h.subset ?_) hf.1, hf.2⟩
          rw [areasOf, if_pos hpc]
          simp
      | aborted =>
          simp only [hpc] at hf

theorem SameOf.tsd {l : List Nat} {a : Nat} (h : SameOf m m' t l) (ha : a ∈ l) : m'.tsd a = m.tsd a :=
  Memory.tsd_congr (h.slot a ha)

theorem SameOf.visible (h : SameOf m m' t (areasOf (m.info t).tls o)) :
    visibleOf m' t o = visibleOf m t o := by
  have hsaved : (m.info t).tls ∈ areasOf (m.info t).tls o → m'.savedVisible t = m.savedVisible t := by
    intro hmem
    rw [Memory.savedVisible, Memory.savedVisible, h.info, h.frames, h.tsd hmem]
  cases o with
  | none => exact hsaved (List.mem_singleton_self _)
  | some u =>
      have harea : m'.tsd u.kernel.area = m.tsd u.kernel.area := Memory.tsd_congr h.area
      cases hpc : u.pc with
      | restart =>
          simp only [visibleOf, hpc]
          refine hsaved ?_
          rw [areasOf, if_pos hpc]
          simp
      | _ => simp only [visibleOf, hpc, harea, h.info, h.frames]

/-! ## A step of a user thread -/

/-- What a step of a thread leaves as it is. -/
structure Touches (s : Process) (t : Nat) (m : Memory) : Prop where
  slot : ∀ a, a ∉ s.areas t → m.slot a = s.mem.slot a
  isRestart : ∀ b, s.mem.isRestart b = true → m.isRestart b = true
  info : ∀ t', t' ≠ t → m.info t' = s.mem.info t'
  frames : ∀ t', t' ≠ t → m.frames t' = s.mem.frames t'
  threadList : m.threadList = s.mem.threadList
  ckptThread : m.ckptThread = s.mem.ckptThread
  sigState : m.sigState = s.mem.sigState
  xndState : m.xndState = s.mem.xndState
  threadsExpected : m.threadsExpected = s.mem.threadsExpected

/-- The process after a step of a thread. -/
def Process.after (s : Process) (t : Nat) (m : Memory) (u : UserThread) (d : Dispositions) : Process :=
  { s with mem := m, threads := put s.threads t (some u), dispositions := d }

theorem Process.cas_eq {expected desired : ThreadState} {f : Memory → Memory} {pc : Pc}
    (hstate : (s.mem.info t).state = expected) : s.cas t u expected desired f pc =
      s.after t (f (s.mem.setInfo t fun th => { th with state := desired })) { u with pc }
        s.dispositions := if_pos hstate

/-- The threads that have come to the barrier, when one thread moves. -/
theorem countP_put {α : Type} (P : α → Bool) (f : Nat → α) (x : α) {l : List Nat} (hl : l.Nodup)
    (ht : t ∈ l) : l.countP (fun i => P (put f t x i)) + (P (f t)).toNat =
      l.countP (fun i => P (f i)) + (P x).toNat := by
  induction l with
  | nil => cases ht
  | cons i l ih =>
      obtain ⟨hi, hl⟩ := List.nodup_cons.mp hl
      rw [List.countP_cons, List.countP_cons]
      by_cases hit : i = t
      · subst hit
        have hrest : l.countP (fun j => P (put f i x j)) = l.countP (fun j => P (f j)) := by
          refine List.countP_congr fun j hj => ?_
          rw [put_of_ne]
          rintro rfl
          exact hi hj
        rw [hrest, put_self]
        cases P x <;> cases P (f i) <;> simp
      · have hmem : t ∈ l := (List.mem_cons.mp ht).resolve_left (Ne.symm hit)
        rw [put_of_ne _ _ hit]
        have := ih hl hmem
        omega

namespace Sound
variable (h : Sound c s) (ht : t ∈ s.mem.threadList) (hm : Touches s t m)
include h ht hm

/-- The other threads. -/
theorem same_of_ne (ht' : t' ∈ s.mem.threadList) (hne : t' ≠ t) : SameOf s.mem m t' (s.areas t') where
  slot a ha := hm.slot a fun hmem => hne (h.apart t' ht' t ht a ha hmem)
  isRestart := hm.isRestart
  info := hm.info t' hne
  frames := hm.frames t' hne

/-- The areas of the checkpoint thread. -/
theorem ckptTsd {a : Nat} (ha : a = s.ckpt.area ∨ a = s.mem.ckptThread.tls) : m.tsd a = s.mem.tsd a := by
  refine Memory.tsd_congr (hm.slot a fun hmem => ?_)
  obtain ⟨hne, hne'⟩ := h.ckptApart t ht a hmem
  exact ha.elim hne hne'

/-- **A step of a user thread** keeps the invariant when it does so of the thread. -/
theorem touch {d : Dispositions} (hfits : Fits c m t (some u')) (hadmits : s.ckptPc.Admits (some u'))
    (hareas : ∀ a ∈ areasOf (m.info t).tls (some u'), a ∈ s.areas t)
    (hcount : s.ckptPc.counts = true → m.threadsArrived + (Arrived (s.threads t)).toNat =
      s.mem.threadsArrived + (Arrived (some u')).toNat)
    (hstarts : s.ckptPc = .scan → m.threadsArrived = s.mem.threadsArrived)
    (hd : s.ckptPc = .checkpoint → d = s.dispositions) : Sound c (s.after t m u' d) := by
  have other : ∀ t', t' ≠ t → (s.after t m u' d).threads t' = s.threads t' :=
    fun t' hne => put_of_ne _ _ hne
  have self : (s.after t m u' d).threads t = some u' := put_self _ _ _
  have areas : ∀ t', ∀ a ∈ (s.after t m u' d).areas t', a ∈ s.areas t' := by
    intro t' a ha
    by_cases hne : t' = t
    · subst hne
      rw [Process.areas, self] at ha
      exact hareas a ha
    · rwa [Process.areas, other t' hne, show (s.after t m u' d).mem.info t' = _ from hm.info t' hne] at ha
  have hlist : ∀ t', t' ∈ (s.after t m u' d).mem.threadList → t' ∈ s.mem.threadList := by
    intro t' hmem
    rwa [show (s.after t m u' d).mem.threadList = _ from hm.threadList] at hmem
  refine
    { nodup := ?_, fits := fun t' hmem => ?_, admits := fun t' hmem => ?_
      apart := fun t' h₁ t'' h₂ a ha ha' =>
        h.apart t' (hlist t' h₁) t'' (hlist t'' h₂) a (areas t' a ha) (areas t'' a ha')
      ckptApart := fun t' hmem a ha => ?_
      xndState := hm.xndState.trans h.xndState
      starts := fun hpc => (hstarts hpc).trans (h.starts hpc), counts := fun hc => ?_
      ckpt := ?_, images := h.images, alive := h.alive }
  · rw [show (s.after t m u' d).mem.threadList = _ from hm.threadList]
    exact h.nodup
  · have hmem := hlist t' hmem
    by_cases hne : t' = t
    · subst hne
      rw [self]
      exact hfits
    · rw [other t' hne]
      exact (h.same_of_ne ht hm hmem hne).fits (h.fits t' hmem)
  · by_cases hne : t' = t
    · subst hne
      rw [self]
      exact hadmits
    · rw [other t' hne]
      exact h.admits t' (hlist t' hmem)
  · rw [show (s.after t m u' d).mem.ckptThread = _ from hm.ckptThread]
    exact h.ckptApart t' (hlist t' hmem) a (areas t' a ha)
  · obtain ⟨harrived, hexpected⟩ := h.counts hc
    have := countP_put Arrived s.threads (some u') h.nodup ht
    have := hcount hc
    simp only [Process.after, hm.threadList, hm.threadsExpected]
    exact ⟨by omega, hexpected⟩
  · refine ⟨fun hpc => ?_, fun hpc => ?_, ?_, fun hpc => ?_, fun hpc => ?_⟩ <;>
      simp only [Process.after, hm.ckptThread, hm.sigState]
    · rw [h.ckptTsd ht hm (.inr rfl), h.ckptTsd ht hm (.inl rfl)]
      exact h.ckpt.tls hpc
    · exact h.ckpt.sigblocked hpc
    · exact h.ckpt.blocked
    · rw [hd hpc]
      exact h.ckpt.saTable hpc
    · exact h.ckpt.lastCkptSig hpc

/-- What is seen after it. -/
theorem view_touch {d : Dispositions} (hrun : s.ckptPc ≠ .restoreActions) :
    (s.after t m u' d).view c =
      { s.view c with
        threads := put (s.view c).threads t (some (visibleOf m t (some u')))
        actions := appActions c fun sig => (d sig).action } := by
  refine View.ext ?_ ?_ ?_ ?_
  · funext t'
    simp only [Process.view, Process.after, hm.threadList]
    by_cases hne : t' = t
    · subst hne
      rw [if_pos ht, put_self, put_self]
    · rw [put_of_ne _ _ hne, put_of_ne _ _ hne]
      by_cases hmem : t' ∈ s.mem.threadList
      · rw [if_pos hmem, if_pos hmem, (h.same_of_ne ht hm hmem hne).visible]
      · rw [if_neg hmem, if_neg hmem]
  · simp only [Process.view, Process.after, hm.ckptThread]
    refine h.ckptTsd ht hm ?_
    split
    · exact .inr rfl
    · exact .inl rfl
  · simp only [Process.view, Process.after, hm.ckptThread]
  · exact congrArg (appActions c) (if_neg hrun)

/-- **A step that shows nothing.** -/
theorem view_still (hrun : s.ckptPc ≠ .restoreActions)
    (hvisible : visibleOf m t (some u') = visibleOf s.mem t (s.threads t)) :
    (s.after t m u' s.dispositions).view c = s.view c := by
  rw [h.view_touch ht hm hrun, hvisible]
  refine View.ext ?_ rfl rfl ?_
  · funext t'
    by_cases hne : t' = t
    · subst hne
      exact (put_self _ _ _).trans (if_pos ht).symm
    · exact put_of_ne _ _ hne
  · rw [Process.view, if_neg hrun]

end Sound

/-! ## The user threads -/

theorem touches_mem (s : Process) (t : Nat) : Touches s t s.mem :=
  ⟨fun _ _ => rfl, fun _ h => h, fun _ _ => rfl, fun _ _ => rfl, rfl, rfl, rfl, rfl, rfl⟩

/-- A change of the descriptor. -/
theorem Touches.setInfo (h : Touches s t m) (f : ThreadInfo → ThreadInfo) : Touches s t (m.setInfo t f) :=
  { h with info := fun t' hne => (Memory.info_setInfo_of_ne f hne).trans (h.info t' hne) }

/-- A change of the frames on the stack. -/
theorem Touches.setFrames (h : Touches s t m) (l : List Frame) :
    Touches s t { m with frames := put m.frames t l } :=
  { h with frames := fun t' hne => (put_of_ne _ _ hne).trans (h.frames t' hne) }

theorem Touches.setRestart (h : Touches s t m) (b : Nat) :
    Touches s t { m with isRestart := put m.isRestart b true } := by
  refine { h with isRestart := fun b' hb => ?_ }
  by_cases hne : b' = b
  · subst hne
    exact put_self _ _ _
  · exact (put_of_ne _ _ hne).trans (h.isRestart b' hb)

theorem Touches.setArrived (h : Touches s t m) (n : Nat) : Touches s t { m with threadsArrived := n } :=
  { h with }

theorem Touches.copySlots (h : Touches s t m) (src : Nat) {dst : Nat} (hdst : dst ∈ s.areas t) :
    Touches s t (m.copySlots src dst) := by
  rw [Memory.copySlots_eq]
  refine { h with slot := fun a ha => ?_ }
  refine Eq.trans (funext fun k => ?_) (h.slot a ha)
  rw [Memory.slot_copySlots, if_neg]
  rintro ⟨rfl, -⟩
  exact ha hdst

theorem Touches.store (h : Touches s t m) {area slot word : Nat} (harea : area ∈ s.areas t) :
    Touches s t (m.store area slot word) := by
  refine { h with slot := fun a ha => (Memory.slot_store_of_ne ?_).trans (h.slot a ha) }
  rintro rfl
  exact ha harea

/-- The area of a thread. -/
theorem area_mem (hu : s.threads t = some u) : u.kernel.area ∈ s.areas t := by
  rw [Process.areas, hu, areasOf]
  split <;> simp

/-- A thread that stays out of `thread_restart` keeps its area. -/
theorem areasOf_subset (hu : s.threads t = some u) (harea : u'.kernel.area = u.kernel.area)
    (hpc : u'.pc ≠ .restart) (tls : Nat) : ∀ a ∈ areasOf tls (some u'), a ∈ s.areas t := by
  intro a ha
  rw [areasOf, if_neg hpc, List.mem_singleton] at ha
  rw [ha, harea]
  exact area_mem hu

namespace Sound
variable (h : Sound c s) (ht : t ∈ s.mem.threadList) (hu : s.threads t = some u)
include h ht hu

/-- The invariant, at the thread. -/
theorem fitsAt : Fits c s.mem t (some u) := hu ▸ h.fits t ht

theorem admitsAt : s.ckptPc.Admits (some u) := hu ▸ h.admits t ht

/-- A thread that is there is not one of a process that was just started. -/
theorem not_restoreActions : s.ckptPc ≠ .restoreActions := by
  intro hpc
  have := h.admitsAt ht hu
  rw [hpc] at this
  exact this

/-- **A step of the thread** that shows nothing. -/
theorem still (hm : Touches s t m) (hfits : Fits c m t (some u'))
    (hadmits : s.ckptPc.Admits (some u')) (harea : u'.kernel.area = u.kernel.area)
    (hrestart : u'.pc ≠ .restart)
    (hcount : s.ckptPc.counts = true → m.threadsArrived + (Arrived (some u)).toNat =
      s.mem.threadsArrived + (Arrived (some u')).toNat)
    (hstarts : s.ckptPc = .scan → m.threadsArrived = s.mem.threadsArrived)
    (hvisible : visibleOf m t (some u') = visibleOf s.mem t (some u)) :
    Sound c (s.after t m u' s.dispositions) ∧ (s.after t m u' s.dispositions).view c = s.view c := by
  refine ⟨h.touch ht hm hfits hadmits (areasOf_subset hu harea hrestart _) ?_ hstarts fun _ => rfl,
    h.view_still ht hm (h.not_restoreActions ht hu) ?_⟩
  · rw [hu]
    exact hcount
  · rw [hu]
    exact hvisible

/-- The checkpoint signal arrives. -/
theorem userStep_run (hpc : u.pc = .run) (hstep : s.userStep c t u = some s') :
    Sound c s' ∧ s'.view c = s.view c := by
  obtain ⟨hok, hfits⟩ := h.fitsAt ht hu
  have hadmits := h.admitsAt ht hu
  simp only [hpc] at hfits
  simp only [Process.userStep, hpc, guarded_eq_some] at hstep
  obtain ⟨⟨hpending, -⟩, rfl⟩ := hstep
  have hstate : (s.mem.info t).state = .stSignaled := by
    rcases hfits with ⟨-, hp⟩ | ⟨hst, -⟩
    · rw [hp] at hpending
      cases hpending
    · exact hst
  refine h.still ht hu ((touches_mem s t).setFrames _) ⟨hok, ?_⟩ ?_ rfl Pc.noConfusion ?_ (fun _ => rfl) ?_
  · exact ⟨by simp, rfl, hstate⟩
  · cases hck : s.ckptPc <;> simp_all [CkptPc.Admits]
  · intro _
    simp [Arrived, hpc]
  · simp only [visibleOf, hpc, put_self, Visible.interrupted]
    rfl

/-- The thread goes on in `thread_sighandler`. -/
theorem userStep_handler (hpc : u.pc = .handler) (hstep : s.userStep c t u = some s') :
    Sound c s' ∧ s'.view c = s.view c := by
  obtain ⟨hok, hfits⟩ := h.fitsAt ht hu
  have hadmits := h.admitsAt ht hu
  simp only [hpc] at hfits
  obtain ⟨hframes, hpending, hstate⟩ := hfits
  simp only [Process.userStep, hpc, Process.cas_eq hstate] at hstep
  obtain rfl := Option.some.inj hstep
  refine h.still ht hu (((touches_mem s t).setInfo _).setInfo _) ⟨hok, ?_⟩ ?_ rfl Pc.noConfusion ?_
    (fun _ => rfl) ?_
  · exact ⟨hframes, hpending, by simp [Memory.threadSaveTls], by simp [Memory.threadSaveTls]⟩
  · cases hck : s.ckptPc <;> simp_all [CkptPc.Admits]
  · intro _
    simp [Arrived, hpc, Memory.threadSaveTls, Memory.setInfo]
  · simp only [visibleOf, hpc]
    rfl

theorem userStep_saveSig (hpc : u.pc = .saveSig) (hstep : s.userStep c t u = some s') :
    Sound c s' ∧ s'.view c = s.view c := by
  obtain ⟨hok, hfits⟩ := h.fitsAt ht hu
  have hadmits := h.admitsAt ht hu
  simp only [hpc] at hfits
  obtain ⟨hframes, hpending, hstate, htls⟩ := hfits
  simp only [Process.userStep, hpc] at hstep
  obtain rfl := Option.some.inj hstep
  refine h.still ht hu ((touches_mem s t).setInfo _) ⟨hok, ?_⟩ ?_ rfl Pc.noConfusion ?_ (fun _ => rfl) ?_
  · simp only [Memory.info_setInfo_self, threadSaveSigState]
    exact ⟨hframes, hpending, hstate, htls, trivial⟩
  · cases hck : s.ckptPc <;> simp_all [CkptPc.Admits]
  · intro _
    simp [Arrived, hpc, Memory.setInfo]
  · simp only [visibleOf, hpc]
    rfl

theorem userStep_context (hpc : u.pc = .context) (hstep : s.userStep c t u = some s') :
    Sound c s' ∧ s'.view c = s.view c := by
  obtain ⟨hok, hfits⟩ := h.fitsAt ht hu
  have hadmits := h.admitsAt ht hu
  simp only [hpc] at hfits
  obtain ⟨hframes, hpending, hstate, htls, hss⟩ := hfits
  simp only [Process.userStep, hpc, Process.cas_eq hstate] at hstep
  obtain rfl := Option.some.inj hstep
  refine h.still ht hu (((touches_mem s t).setInfo _).setRestart _) ⟨hok, ?_⟩ ?_ rfl Pc.noConfusion ?_
    (fun _ => rfl) ?_
  · refine ⟨⟨hframes, ?_, ?_⟩, hpending, ?_, ?_, ?_⟩ <;>
      simp only [Memory.info_setInfo_self, Memory.slot_setInfo]
    · rw [htls]
      exact put_self _ _ _
    · rw [hss]
      exact hok
    · exact htls
    · exact hss
  · cases hck : s.ckptPc <;> simp_all [CkptPc.Admits]
  · intro _
    simp [Arrived, hpc, Memory.setInfo]
  · simp only [visibleOf, hpc]
    rfl

/-- The thread comes to the barrier. -/
theorem userStep_barrier (hpc : u.pc = .barrier) (hstep : s.userStep c t u = some s') :
    Sound c s' ∧ s'.view c = s.view c := by
  obtain ⟨hok, hfits⟩ := h.fitsAt ht hu
  have hadmits := h.admitsAt ht hu
  simp only [hpc] at hfits
  simp only [Process.userStep, hpc, guarded_eq_some] at hstep
  obtain ⟨hst, rfl⟩ := hstep
  rw [h.xndState] at hst
  have hwait : s.ckptPc = .arrivalWait := by
    cases hck : s.ckptPc <;> simp_all [CkptPc.Admits, CkptPc.xndState]
  refine h.still ht hu ((touches_mem s t).setArrived _) ⟨hok, ?_⟩ ?_ rfl Pc.noConfusion ?_ ?_ ?_
  · exact ⟨{ hfits.1 with }, hfits.2⟩
  · rw [hwait]
    exact .inr (.inr (.inr rfl))
  · intro _
    simp [Arrived, hpc]
  · intro hscan
    rw [hwait] at hscan
    cases hscan
  · simp only [visibleOf, hpc]
    rfl

/-- The thread leaves the barrier. -/
theorem userStep_arrived (hpc : u.pc = .arrived) (hstep : s.userStep c t u = some s') :
    Sound c s' ∧ s'.view c = s.view c := by
  obtain ⟨hok, hfits⟩ := h.fitsAt ht hu
  have hadmits := h.admitsAt ht hu
  simp only [hpc] at hfits
  obtain ⟨hsaved, hpending, hstate, -⟩ := hfits
  simp only [Process.userStep, hpc, guarded_eq_some, Process.cas_eq hstate, id] at hstep
  obtain ⟨hst, rfl⟩ := hstep
  rw [h.xndState] at hst
  have hwait : s.ckptPc = .wait := by
    cases hck : s.ckptPc <;> simp_all [CkptPc.Admits, CkptPc.xndState]
  refine h.still ht hu ((touches_mem s t).setInfo _) ⟨hok, ?_⟩ ?_ rfl Pc.noConfusion ?_ ?_ ?_
  · refine ⟨hsaved.frames, .inl ⟨?_, hpending⟩⟩
    simp only [Memory.info_setInfo_self]
  · rw [hwait]
    exact .inl ⟨.inr rfl, hpending⟩
  · intro hc
    rw [hwait] at hc
    cases hc
  · intro hscan
    rw [hwait] at hscan
    cases hscan
  · simp only [visibleOf, hpc]
    rfl

/-- The handler returns. -/
theorem userStep_sigreturn (hpc : u.pc = .sigreturn) (hstep : s.userStep c t u = some s') :
    Sound c s' ∧ s'.view c = s.view c := by
  obtain ⟨hok, hfits⟩ := h.fitsAt ht hu
  have hadmits := h.admitsAt ht hu
  simp only [hpc] at hfits
  simp only [Process.userStep, hpc] at hstep
  split at hstep
  next => cases hstep
  next f rest hframes =>
    obtain rfl := Option.some.inj hstep
    refine h.still ht hu ((touches_mem s t).setFrames _) ⟨hok, hfits.2⟩ ?_ rfl Pc.noConfusion ?_
      (fun _ => rfl) ?_
    · cases hck : s.ckptPc <;> simp_all [CkptPc.Admits]
    · intro _
      simp [Arrived, hpc]
    · simp only [visibleOf, hpc, put_self, hframes, Visible.interrupted]
      rfl

/-- A thread that is made again takes back its thread-local storage. -/
theorem userStep_restart (hpc : u.pc = .restart) (hstep : s.userStep c t u = some s') :
    Sound c s' ∧ s'.view c = s.view c := by
  obtain ⟨hok, hfits⟩ := h.fitsAt ht hu
  have hadmits := h.admitsAt ht hu
  simp only [hpc] at hfits
  obtain ⟨hsaved, hpending, hregistered⟩ := hfits
  simp only [Process.userStep, hpc] at hstep
  obtain rfl := Option.some.inj hstep
  have hm := (touches_mem s t).copySlots (s.mem.info t).tls (area_mem hu)
  have hkey : (s.mem.copySlots (s.mem.info t).tls u.kernel.area).slot u.kernel.area c.tlvKey =
      s.mem.slot (s.mem.info t).tls c.tlvKey := by
    rw [Memory.slot_copySlots, if_pos ⟨rfl, c.low, c.high⟩]
  have htsd := Memory.tsd_copySlots s.mem (s.mem.info t).tls u.kernel.area u.kernel.area
  rw [if_pos rfl] at htsd
  rw [Memory.copySlots_eq] at hm hkey htsd
  rw [Memory.threadRestoreTls, Memory.copySlots_eq]
  generalize (s.mem.copySlots (s.mem.info t).tls u.kernel.area).slot = slot at hm hkey htsd ⊢
  have hm := hm.setInfo fun th => { th with state := .stRunning }
  refine h.still ht hu hm ⟨hok, ?_⟩ ?_ rfl Pc.noConfusion ?_ (fun _ => rfl) ?_
  · simp only [Memory.info_setInfo_self, Memory.slot_setInfo]
    refine ⟨hsaved.frames, hpending, trivial, ?_, hsaved.ss, hregistered⟩
    rw [hkey]
    exact hsaved.isRestart
  · cases hck : s.ckptPc <;> simp_all [CkptPc.Admits]
  · intro _
    simp [Arrived, hpc, Memory.setInfo]
  · simp only [visibleOf, hpc, Memory.info_setInfo_self, Memory.savedVisible]
    exact congrArg (Visible.interrupted · _ _) htsd

/-- It takes back its mask and its alternate stack. -/
theorem userStep_restartSig (hpc : u.pc = .restartSig) (hstep : s.userStep c t u = some s') :
    Sound c s' ∧ s'.view c = s.view c := by
  obtain ⟨hok, hfits⟩ := h.fitsAt ht hu
  have hadmits := h.admitsAt ht hu
  simp only [hpc] at hfits
  obtain ⟨hframes, hpending, hstate, hrestart, hss, hregistered⟩ := hfits
  simp only [Process.userStep, hpc] at hstep
  obtain rfl := Option.some.inj hstep
  refine h.still ht hu (touches_mem s t) ⟨?_, ?_⟩ ?_ rfl Pc.noConfusion ?_ (fun _ => rfl) ?_
  · simp only [threadRestoreSigState]
    split
    · exact hok
    next hsp => exact fun _ hzero => hsp (.inl hzero)
  · exact ⟨hframes, hpending, hstate, hrestart⟩
  · cases hck : s.ckptPc <;> simp_all [CkptPc.Admits]
  · intro _
    simp [Arrived, hpc]
  · simp only [visibleOf, hpc, threadRestoreSigState]
    refine congrArg (Visible.interrupted _ · _) ?_
    split
    next hsp =>
      -- Nothing was registered, and the new thread has no alternate stack.
      have hdisabled : (s.mem.info t).ss.disabled = true := by
        by_contra hne
        rw [Bool.not_eq_true] at hne
        rcases hsp with hzero | hd
        · exact hss hne hzero
        · rw [hne] at hd
          cases hd
      rw [hregistered, Stack.registered, if_pos hdisabled]
    next => rfl

/-- It comes to the barrier. -/
theorem userStep_restartBarrier (hpc : u.pc = .restartBarrier) (hstep : s.userStep c t u = some s') :
    Sound c s' ∧ s'.view c = s.view c := by
  obtain ⟨hok, hfits⟩ := h.fitsAt ht hu
  have hadmits := h.admitsAt ht hu
  simp only [hpc] at hfits
  simp only [Process.userStep, hpc, guarded_eq_some] at hstep
  obtain ⟨-, rfl⟩ := hstep
  refine h.still ht hu ((touches_mem s t).setArrived _) ⟨hok, hfits⟩ ?_ rfl Pc.noConfusion ?_ ?_ ?_
  · cases hck : s.ckptPc <;> simp_all [CkptPc.Admits]
  · intro _
    simp [Arrived, hpc]
  · intro hscan
    rw [hscan] at hadmits
    simp [CkptPc.Admits, hpc] at hadmits
  · simp only [visibleOf, hpc]
    rfl

/-- It is released, and returns from `thread_sighandler`. -/
theorem userStep_restartArrived (hpc : u.pc = .restartArrived) (hstep : s.userStep c t u = some s') :
    Sound c s' ∧ s'.view c = s.view c := by
  obtain ⟨hok, hfits⟩ := h.fitsAt ht hu
  have hadmits := h.admitsAt ht hu
  simp only [hpc] at hfits
  obtain ⟨hframes, hpending, hstate, hrestart⟩ := hfits
  simp only [Process.userStep, hpc, guarded_eq_some, hrestart, if_true] at hstep
  obtain ⟨hst, rfl⟩ := hstep
  rw [h.xndState] at hst
  have hwait : s.ckptPc = .wait := by
    cases hck : s.ckptPc <;> simp_all [CkptPc.Admits, CkptPc.xndState]
  refine h.still ht hu (touches_mem s t) ⟨hok, ?_⟩ ?_ rfl Pc.noConfusion ?_ (fun _ => rfl) ?_
  · exact ⟨hframes, .inl ⟨hstate, hpending⟩⟩
  · rw [hwait]
    exact .inl ⟨.inr rfl, hpending⟩
  · intro hc
    rw [hwait] at hc
    cases hc
  · simp only [visibleOf, hpc]

/-- **A step of a user thread in the library shows nothing.** -/
theorem userStep (hstep : s.userStep c t u = some s') : Sound c s' ∧ s'.view c = s.view c := by
  cases hpc : u.pc with
  | run => exact h.userStep_run ht hu hpc hstep
  | handler => exact h.userStep_handler ht hu hpc hstep
  | saveSig => exact h.userStep_saveSig ht hu hpc hstep
  | context => exact h.userStep_context ht hu hpc hstep
  | barrier => exact h.userStep_barrier ht hu hpc hstep
  | arrived => exact h.userStep_arrived ht hu hpc hstep
  | sigreturn => exact h.userStep_sigreturn ht hu hpc hstep
  | restart => exact h.userStep_restart ht hu hpc hstep
  | restartSig => exact h.userStep_restartSig ht hu hpc hstep
  | restartBarrier => exact h.userStep_restartBarrier ht hu hpc hstep
  | restartArrived => exact h.userStep_restartArrived ht hu hpc hstep
  | aborted =>
      rw [Process.userStep_aborted hpc] at hstep
      cases hstep

end Sound

end Xnd.Resume
