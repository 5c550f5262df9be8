import Xnd.Resume.Rollback

/-!
# The flag of the wrappers

A wrapper calls the C library and does nothing else while the flag of its thread does not have the
value that `xnd_tlv_init` stores (`XND_SKIP_INTERPOSE`); `xnd_tlv_fini` takes it back while the thread
waits at the barrier, and while the checkpoint thread writes the image.  The flag is in a slot that
`thread_restore_tls` does not copy, and each thread that is made again sets its own.

Here the stores are added to the steps of a process.  They are in no view, and **no thread of the
program is without its wrappers**, in any generation (`Process.flag_run`).
-/
namespace Xnd.Resume
open Thread (ThreadState XndState)

/-- `__TSD_XND_FLAG`. -/
def tsdXndFlag : Nat := 6

/-- `__TSD_XND_INIT`. -/
def tsdXndInit : Nat := 0x5203090

/-- `__TSD_XND_FINI`. -/
def tsdXndFini : Nat := 0x20471120

namespace Memory

/-- The flag in an area. -/
def flag (m : Memory) (area : Nat) : Nat := m.slot area tsdXndFlag

/-- `xnd_tlv_init` and `xnd_tlv_fini`, by the word that they store. -/
def setFlag (m : Memory) (area word : Nat) : Memory := m.store area tsdXndFlag word

/-- `xnd_tlv_ok`. -/
def xndTlvOk (m : Memory) (area : Nat) : Bool := m.flag area == tsdXndInit

end Memory

/-- What a user thread stores in its flag in the step from a place. -/
def Pc.storesFlag : Pc → Option Nat
  -- thread_sighandler, before and after the barrier
  | .context => some tsdXndFini
  | .arrived => some tsdXndInit
  -- thread_restart
  | .restart => some tsdXndInit
  | _ => none

/-- What the checkpoint thread stores in its own. -/
def CkptPc.storesFlag : CkptPc → Option Nat
  | .precheckpoint => some tsdXndFini
  | .release | .restoreTls => some tsdXndInit
  | _ => none

namespace Process

/-- `XND_SKIP_INTERPOSE`, of the thread with an area. -/
def xndSkipInterpose (s : Process) (area : Nat) : Bool :=
  s.mem.xndTlvOk area == false || s.mem.xndState == .xndUninitialized

/-- The flag that a step stores, and what it stores. -/
def storesFlag (s : Process) : Act → Option (Nat × Nat)
  | .user t => (s.threads t).bind fun u => u.pc.storesFlag.map fun word => (u.kernel.area, word)
  | .ckpt => s.ckptPc.storesFlag.map fun word => (s.ckpt.area, word)
  -- thread_start
  | .create _ _ area _ => some (area, tsdXndInit)
  -- thread_exit
  | .exit t => (s.threads t).map fun u => (u.kernel.area, tsdXndFini)
  | .call .. | .ckptSlot .. | .signal _ | .checkpoint | .restoreThreads _ | .restart .. => none

def setFlag (s : Process) (area word : Nat) : Process := { s with mem := s.mem.setFlag area word }

/-- The process after the store. -/
def storeFlag (s : Process) : Option (Nat × Nat) → Process
  | some x => s.setFlag x.1 x.2
  | none => s

/-- A step, with what it does to the flags. -/
def flagStep (c : Setup) (s : Process) (a : Act) : Option Process :=
  (s.step c a).map fun s' => s'.storeFlag (s.storesFlag a)

/-- `xnd_setup`, with the flags of the main thread and of the checkpoint thread. -/
def flagSetup (c : Setup) (i : Start) : Option Process :=
  (setup c i).map fun s => (s.setFlag i.area tsdXndInit).setFlag i.ckptArea tsdXndInit

end Process

/-! ## What is to hold -/

/-- The threads whose wrappers do nothing. -/
structure Process.Guarded (s : Process) : Prop where
  user : ∀ t ∈ s.mem.threadList, ∀ u ∈ s.threads t, u.pc ≠ .restart →
    (s.xndSkipInterpose u.kernel.area = true ↔ u.pc = .barrier ∨ u.pc = .arrived)
  ckpt : s.ckptPc.beforeTls = false →
    (s.xndSkipInterpose s.ckpt.area = true ↔ s.ckptPc = .checkpoint ∨ s.ckptPc = .release)
  /-- No flag of a user thread is set in an image. -/
  saved : ∀ m ∈ s.images, ∀ t ∈ m.threadList, m.xndTlvOk (m.info t).tls = false

/-- The flag of a user thread at a place. -/
def Pc.flag : Pc → Option Nat
  | .barrier | .arrived => some tsdXndFini
  | .restart | .aborted => none
  | _ => some tsdXndInit

/-- The flag of the checkpoint thread. -/
def CkptPc.flag : CkptPc → Option Nat
  | .checkpoint | .release => some tsdXndFini
  | .restoreActions | .restoreTls | .aborted => none
  | _ => some tsdXndInit

/-- **The invariant.** -/
structure Flagged (s : Process) : Prop where
  user : ∀ t ∈ s.mem.threadList, ∀ u ∈ s.threads t, ∀ w ∈ u.pc.flag, s.mem.flag u.kernel.area = w
  ckpt : ∀ w ∈ s.ckptPc.flag, s.mem.flag s.ckpt.area = w
  saved : ∀ m ∈ s.images, ∀ t ∈ m.threadList, m.flag (m.info t).tls = tsdXndFini

variable {c : Setup} {s s' : Process} {m : Memory} {t : Nat} {u : UserThread} {a : Act}
  {area word : Nat}

/-! ## A flag is set -/

namespace Memory

theorem flag_setFlag_self : (m.setFlag area word).flag area = word := by
  rw [flag, setFlag, slot_store, if_pos ⟨rfl, rfl⟩]

theorem flag_setFlag_of_ne {a : Nat} (h : a ≠ area) : (m.setFlag area word).flag a = m.flag a := by
  rw [flag, setFlag, slot_store_of_ne h, flag]

/-- The other slots. -/
theorem slot_setFlag (m : Memory) (area word a : Nat) {k : Nat} (hk : tsdStart ≤ k) :
    (m.setFlag area word).slot a k = m.slot a k := by
  rw [setFlag, slot_store, if_neg]
  rintro ⟨-, rfl⟩
  exact absurd hk (by decide)

theorem tsd_setFlag (m : Memory) (area word a : Nat) : (m.setFlag area word).tsd a = m.tsd a := by
  funext k
  rw [tsd, tsd]
  split
  next hk => exact slot_setFlag m area word a hk.1
  next => rfl

end Memory

theorem Saved.setFlag (h : Saved c m t) : Saved c (m.setFlag area word) t where
  frames := h.frames
  isRestart := by
    rw [Memory.slot_setFlag m area word _ c.low]
    exact h.isRestart
  ss := h.ss

/-- What memory holds of a thread does not depend on a flag. -/
theorem Fits.setFlag {o : Option UserThread} (h : Fits c m t o) : Fits c (m.setFlag area word) t o := by
  cases o with
  | none => exact Saved.setFlag h
  | some u =>
      have hslot := Memory.slot_setFlag m area word u.kernel.area c.low
      refine ⟨h.1, ?_⟩
      have h := h.2
      cases hpc : u.pc <;> simp only [hpc] at h ⊢
      case barrier | arrived | restart => exact ⟨h.1.setFlag, h.2⟩
      case restartSig | restartBarrier | restartArrived =>
        rw [hslot]
        exact h
      all_goals exact h

theorem visibleOf_setFlag (m : Memory) (area word t : Nat) (o : Option UserThread) :
    visibleOf (m.setFlag area word) t o = visibleOf m t o := by
  have hsaved : (m.setFlag area word).savedVisible t = m.savedVisible t := by
    rw [Memory.savedVisible, Memory.tsd_setFlag]
    rfl
  cases o with
  | none => exact hsaved
  | some u => cases hpc : u.pc <;> simp only [visibleOf, hpc, Memory.tsd_setFlag, hsaved] <;> rfl

/-- **A store to a flag** keeps the invariant of the process. -/
theorem Sound.setFlag (h : Sound c s) : Sound c (s.setFlag area word) :=
  { h with
    fits := fun t ht => (h.fits t ht).setFlag
    ckpt := ⟨fun hp => by
      change (s.mem.setFlag area word).tsd _ = (s.mem.setFlag area word).tsd _
      rw [Memory.tsd_setFlag, Memory.tsd_setFlag]
      exact h.ckpt.tls hp, h.ckpt.sigblocked, h.ckpt.blocked, h.ckpt.saTable, h.ckpt.lastCkptSig⟩ }

/-- It is not seen. -/
theorem Process.view_setFlag (c : Setup) (s : Process) (area word : Nat) :
    (s.setFlag area word).view c = s.view c := by
  refine View.ext (funext fun t => ?_) (Memory.tsd_setFlag s.mem area word _) rfl rfl
  by_cases ht : t ∈ s.mem.threadList
  · rw [view_threads_of_mem ht, ← visibleOf_setFlag s.mem area word]
    exact if_pos ht
  · rw [view_threads_of_not_mem ht]
    exact if_neg ht

theorem Process.versions_setFlag (c : Setup) (s : Process) (area word : Nat) :
    (s.setFlag area word).versions c = s.versions c :=
  versions_still rfl (view_setFlag c s area word)

/-! ## The steps leave the flags -/

/-- No flag is another one. -/
def SameFlags (m m' : Memory) : Prop := ∀ area, m'.flag area = m.flag area

theorem SameFlags.store {slot : Nat} (hslot : tsdStart ≤ slot) : SameFlags m (m.store area slot word) := by
  intro a
  rw [Memory.flag, Memory.slot_store, if_neg]
  · rfl
  rintro ⟨-, rfl⟩
  exact absurd hslot (by decide)

theorem SameFlags.copySlots (m : Memory) (src dst : Nat) : SameFlags m (m.copySlots src dst) := by
  intro a
  rw [Memory.flag, Memory.slot_copySlots, if_neg]
  · rfl
  exact fun h => absurd h.2.1 (by decide)

theorem SameFlags.setInfo {m' : Memory} (h : SameFlags m m') (t : Nat) (f : ThreadInfo → ThreadInfo) :
    SameFlags m (m'.setInfo t f) := h

/-- A user thread comes to a place where its flag is to be `next`. -/
structure Walks (s s' : Process) (t : Nat) (u : UserThread) (next : Option Nat) : Prop where
  thread : ∃ u', s'.threads = put s.threads t (some u') ∧ u'.kernel.area = u.kernel.area ∧
    ∀ w ∈ u'.pc.flag, next = some w
  threadList : s'.mem.threadList = s.mem.threadList
  flags : SameFlags s.mem s'.mem
  ckpt : s'.ckpt = s.ckpt
  ckptPc : s'.ckptPc = s.ckptPc
  images : s'.images = s.images

/-- The checkpoint thread comes to one. -/
structure CkptWalks (s s' : Process) (next : Option Nat) : Prop where
  area : s'.ckpt.area = s.ckpt.area
  ckptPc : ∀ w ∈ s'.ckptPc.flag, next = some w
  threads : s'.threads = s.threads
  threadList : s'.mem.threadList = s.mem.threadList
  flags : SameFlags s.mem s'.mem
  images : s'.images = s.images

/-- What changes neither places nor areas. -/
theorem walks_mem (hu : s.threads t = some u) {d : Dispositions} (hlist : m.threadList = s.mem.threadList)
    (hflags : SameFlags s.mem m) : Walks s { s with mem := m, dispositions := d } t u u.pc.flag where
  thread := ⟨u, congrArg Process.threads (after_self (m := m) (d := d) hu).symm, rfl, fun _ hw => hw⟩
  threadList := hlist
  flags := hflags
  ckpt := rfl
  ckptPc := rfl
  images := rfl

/-- A call of the program. -/
theorem call_walks {x : Call} (hu : s.threads t = some u) (h : s.call c t u x = some s') :
    Walks s s' t u u.pc.flag := by
  cases x <;> simp only [Process.call, guarded_eq_some] at h
  case setSlot =>
    obtain ⟨⟨hlow, -⟩, rfl⟩ := h
    exact walks_mem hu rfl (.store hlow)
  case sigaction | signal =>
    obtain rfl := Option.some.inj h
    unfold Process.install
    split <;> exact walks_mem hu rfl fun _ => rfl
  case sigreturn =>
    split at h
    · cases h
    · obtain rfl := Option.some.inj h
      exact ⟨⟨_, rfl, rfl, fun w hw => hw⟩, rfl, fun _ => rfl, rfl, rfl, rfl⟩
  case sigmask =>
    obtain rfl := Option.some.inj h
    exact ⟨⟨_, rfl, rfl, fun w hw => hw⟩, rfl, fun _ => rfl, rfl, rfl, rfl⟩
  all_goals
    obtain ⟨-, rfl⟩ := h
    exact ⟨⟨_, rfl, rfl, fun w hw => hw⟩, rfl, fun _ => rfl, rfl, rfl, rfl⟩

theorem cas_walks {expected desired : ThreadState} {f : Memory → Memory} {pc : Pc} {next : Option Nat}
    (hf : ∀ m, (f m).threadList = m.threadList ∧ SameFlags m (f m))
    (hpc : ∀ w ∈ pc.flag, next = some w) :
    Walks s (s.cas t u expected desired f pc) t u next := by
  rw [Process.cas]
  split
  · exact ⟨⟨_, rfl, rfl, hpc⟩, (hf _).1, (hf _).2, rfl, rfl, rfl⟩
  · exact ⟨⟨_, rfl, rfl, fun w hw => absurd hw (Option.not_mem_none w)⟩, rfl, fun _ => rfl, rfl, rfl, rfl⟩

/-- A step of a user thread, without the store. -/
theorem userStep_walks (h : s.userStep c t u = some s') : Walks s s' t u (u.pc.storesFlag.or u.pc.flag) := by
  cases hpc : u.pc <;> simp only [Process.userStep, hpc, guarded_eq_some] at h
  case handler | context =>
    rw [← Option.some.inj h]
    exact cas_walks (fun _ => ⟨rfl, fun _ => rfl⟩) fun w hw => hw
  case arrived =>
    rw [← h.2]
    exact cas_walks (fun _ => ⟨rfl, fun _ => rfl⟩) fun w hw => hw
  case sigreturn =>
    split at h
    · cases h
    · obtain rfl := Option.some.inj h
      exact ⟨⟨_, rfl, rfl, fun w hw => hw⟩, rfl, fun _ => rfl, rfl, rfl, rfl⟩
  case restart =>
    rw [← Option.some.inj h]
    have hflags := (SameFlags.copySlots s.mem (s.mem.info t).tls u.kernel.area).setInfo t
      fun th => { th with state := .stRunning }
    dsimp only [Process.goto, Process.setThread, Memory.threadRestoreTls]
    refine ⟨⟨_, rfl, rfl, fun w hw => hw⟩, ?_, hflags, rfl, rfl, rfl⟩
    rw [Memory.threadList_setInfo, Memory.threadList_copySlots]
  case restartArrived =>
    obtain ⟨-, rfl⟩ := h
    refine ⟨⟨_, rfl, rfl, ?_⟩, rfl, fun _ => rfl, rfl, rfl, rfl⟩
    split
    · exact fun w hw => hw
    · exact fun w hw => absurd hw (Option.not_mem_none w)
  case saveSig | restartSig =>
    obtain rfl := Option.some.inj h
    exact ⟨⟨_, rfl, rfl, fun w hw => hw⟩, rfl, fun _ => rfl, rfl, rfl, rfl⟩
  case aborted => cases h
  all_goals
    obtain ⟨-, rfl⟩ := h
    exact ⟨⟨_, rfl, rfl, fun w hw => hw⟩, rfl, fun _ => rfl, rfl, rfl, rfl⟩

/-- A step of the checkpoint thread, without the store. -/
theorem ckptStep_walks (h : s.ckptStep c = some s') :
    CkptWalks s s' (s.ckptPc.storesFlag.or s.ckptPc.flag) := by
  cases hpc : s.ckptPc <;> simp only [Process.ckptStep, hpc, guarded_eq_some] at h
  case saveTls =>
    rw [← Option.some.inj h]
    refine ⟨rfl, fun w hw => hw, rfl, Memory.threadList_ckptSaveTls s.mem s.ckpt.area, ?_, rfl⟩
    dsimp only [Memory.ckptSaveTls]
    split
    · exact fun _ => rfl
    · exact .copySlots s.mem s.ckpt.area s.mem.ckptThread.tls
  case restoreTls =>
    rw [← Option.some.inj h]
    refine ⟨rfl, fun w hw => hw, rfl,
      Memory.threadList_threadRestoreTls s.mem s.mem.ckptThread s.ckpt.area, ?_, rfl⟩
    dsimp only [Memory.threadRestoreTls]
    exact .copySlots s.mem s.mem.ckptThread.tls s.ckpt.area
  case precheckpoint | restoreActions =>
    split at h
    · obtain rfl := Option.some.inj h
      exact ⟨rfl, fun w hw => hw, rfl, rfl, fun _ => rfl, rfl⟩
    · obtain rfl := Option.some.inj h
      exact ⟨rfl, fun w hw => absurd hw (Option.not_mem_none w), rfl, rfl, fun _ => rfl, rfl⟩
  case scan | arrivalWait | restartWait =>
    obtain ⟨-, rfl⟩ := h
    exact ⟨rfl, fun w hw => hw, rfl, rfl, fun _ => rfl, rfl⟩
  case checkpoint | restoreThreads | aborted => cases h
  all_goals
    obtain rfl := Option.some.inj h
    exact ⟨rfl, fun w hw => hw, rfl, rfl, fun _ => rfl, rfl⟩

/-! ## The invariant -/

namespace Process
variable {o : Option (Nat × Nat)}

@[simp] theorem threads_storeFlag : (s.storeFlag o).threads = s.threads := by cases o <;> rfl

@[simp] theorem ckpt_storeFlag : (s.storeFlag o).ckpt = s.ckpt := by cases o <;> rfl

@[simp] theorem ckptPc_storeFlag : (s.storeFlag o).ckptPc = s.ckptPc := by cases o <;> rfl

@[simp] theorem images_storeFlag : (s.storeFlag o).images = s.images := by cases o <;> rfl

@[simp] theorem threadList_storeFlag : (s.storeFlag o).mem.threadList = s.mem.threadList := by
  cases o <;> rfl

/-- The flag of another thread. -/
theorem flag_storeFlag_of_ne {a : Nat} (h : ∀ x ∈ o, a ≠ x.1) :
    (s.storeFlag o).mem.flag a = s.mem.flag a := by
  cases o with
  | none => rfl
  | some x => exact Memory.flag_setFlag_of_ne (h x rfl)

/-- The flag of the thread, at the place that it comes to. -/
theorem flag_storeFlag {word next : Option Nat} {w : Nat} (hnext : word.or next = some w)
    (hflag : ∀ w ∈ next, s.mem.flag area = w) :
    (s.storeFlag (word.map fun x => (area, x))).mem.flag area = w := by
  cases word with
  | none => exact hflag w hnext
  | some x =>
      obtain rfl := Option.some.inj hnext
      exact Memory.flag_setFlag_self

end Process

namespace Flagged

/-- **A step of a user thread**, with what it stores. -/
theorem walk {o : Option Nat} (h : Flagged s) (hs : Sound c s) (ht : t ∈ s.mem.threadList)
    (hu : s.threads t = some u) (hw : Walks s s' t u (o.or u.pc.flag)) :
    Flagged (s'.storeFlag (o.map fun word => (u.kernel.area, word))) := by
  obtain ⟨u', hthreads, harea, hnext⟩ := hw.thread
  have hne : ∀ a, a ≠ u.kernel.area → ∀ x ∈ o.map fun word => (u.kernel.area, word), a ≠ x.1 := by
    intro a ha x hx
    obtain ⟨word, -, rfl⟩ := Option.map_eq_some_iff.mp hx
    exact ha
  refine ⟨fun t' ht' v hv w hv' => ?_, fun w hw' => ?_, ?_⟩
  · rw [Process.threadList_storeFlag, hw.threadList] at ht'
    rw [Process.threads_storeFlag, hthreads] at hv
    by_cases heq : t' = t
    · subst heq
      rw [put_self] at hv
      obtain rfl := Option.some.inj hv
      rw [harea]
      refine Process.flag_storeFlag (hnext w hv') fun x hx => ?_
      rw [hw.flags]
      exact h.user t' ht u hu x hx
    · rw [put_of_ne _ _ heq] at hv
      have hother : v.kernel.area ≠ u.kernel.area := fun hsame =>
        heq (hs.apart t' ht' t ht _ (area_mem hv) (hsame ▸ area_mem hu))
      rw [Process.flag_storeFlag_of_ne (hne _ hother), hw.flags]
      exact h.user t' ht' v hv w hv'
  · rw [Process.ckptPc_storeFlag, hw.ckptPc] at hw'
    rw [Process.ckpt_storeFlag, hw.ckpt,
      Process.flag_storeFlag_of_ne (hne _ (hs.ckptApart t ht _ (area_mem hu)).1.symm), hw.flags]
    exact h.ckpt w hw'
  · rw [Process.images_storeFlag, hw.images]
    exact h.saved

/-- **A step of the checkpoint thread**, with what it stores. -/
theorem ckptWalk {o : Option Nat} (h : Flagged s) (hs : Sound c s)
    (hw : CkptWalks s s' (o.or s.ckptPc.flag)) :
    Flagged (s'.storeFlag (o.map fun word => (s.ckpt.area, word))) := by
  refine ⟨fun t ht u hu w hu' => ?_, fun w hw' => ?_, ?_⟩
  · rw [Process.threadList_storeFlag, hw.threadList] at ht
    rw [Process.threads_storeFlag, hw.threads] at hu
    have hne := (hs.ckptApart t ht _ (area_mem hu)).1
    rw [Process.flag_storeFlag_of_ne, hw.flags]
    · exact h.user t ht u hu w hu'
    · intro x hx
      obtain ⟨word, -, rfl⟩ := Option.map_eq_some_iff.mp hx
      exact hne
  · rw [Process.ckptPc_storeFlag] at hw'
    rw [Process.ckpt_storeFlag, hw.area]
    refine Process.flag_storeFlag (hw.ckptPc w hw') fun x hx => ?_
    rw [hw.flags]
    exact h.ckpt x hx
  · rw [Process.images_storeFlag, hw.images]
    exact h.saved

/-- A new thread. -/
theorem create (h : Flagged s) {t' block : Nat}
    (hfresh : s.FreshArea area) :
    Flagged ((s.create c u t' area block).setFlag area tsdXndInit) := by
  have hflag : ∀ a, a ≠ area →
      ((s.create c u t' area block).setFlag area tsdXndInit).mem.flag a = s.mem.flag a := by
    intro a ha
    exact (Memory.flag_setFlag_of_ne ha).trans (congrFun (put_of_ne _ _ ha) _)
  refine ⟨fun i hi v hv w hw => ?_, fun w hw => ?_, h.saved⟩
  · change put s.threads t' _ i = some v at hv
    by_cases heq : i = t'
    · subst heq
      rw [put_self] at hv
      obtain rfl := Option.some.inj hv
      exact Memory.flag_setFlag_self.trans (Option.some.inj hw)
    · have hi := (List.mem_cons.mp hi).resolve_left heq
      rw [put_of_ne _ _ heq] at hv
      rw [hflag _ fun hsame => hfresh.2.2 i hi (hsame ▸ area_mem hv)]
      exact h.user i hi v hv w hw
  · exact (hflag _ hfresh.1.symm).trans (h.ckpt w hw)

/-- A thread exits. -/
theorem exit (h : Flagged s) (hs : Sound c s) (ht : t ∈ s.mem.threadList) (hu : s.threads t = some u)
    (hs' : s' = { s with
      mem := { s.mem with threadList := s.mem.threadList.erase t }
      threads := put s.threads t none }) : Flagged (s'.setFlag u.kernel.area tsdXndFini) := by
  subst hs'
  refine ⟨fun i hi v hv w hw => ?_, fun w hw => ?_, h.saved⟩
  · obtain ⟨hne, hi⟩ := hs.nodup.mem_erase_iff.mp hi
    change put s.threads t none i = some v at hv
    rw [put_of_ne _ _ hne] at hv
    refine (Memory.flag_setFlag_of_ne fun hsame => hne ?_).trans (h.user i hi v hv w hw)
    exact hs.apart i hi t ht _ (area_mem hv) (hsame ▸ area_mem hu)
  · exact (Memory.flag_setFlag_of_ne (hs.ckptApart t ht _ (area_mem hu)).1.symm).trans (h.ckpt w hw)

/-- An image. -/
theorem checkpoint (h : Flagged s) (hs : Sound c s) (hpc : s.ckptPc = .checkpoint) :
    Flagged { s with images := s.images ++ [s.mem], ckptPc := .release } := by
  refine ⟨h.user, fun w hw => h.ckpt w (hpc ▸ hw), fun m hm t ht => ?_⟩
  rcases List.mem_append.mp hm with hm | hm
  · exact h.saved m hm t ht
  · obtain rfl := List.mem_singleton.mp hm
    have hadmits := hs.admits t ht
    rw [hpc] at hadmits
    cases hu : s.threads t with
    | none =>
        rw [hu] at hadmits
        exact hadmits.elim
    | some u =>
        rw [hu] at hadmits
        have hfits := (hs.fitsAt ht hu).2
        have harrived : u.pc = .arrived := hadmits
        simp only [harrived] at hfits
        rw [hfits.2.2.2.1]
        exact h.user t ht u hu _ (by rw [harrived]; rfl)

/-- **A step.** -/
theorem step (h : Flagged s) (hs : Sound c s) (hstep : s.flagStep c a = some s') : Flagged s' := by
  obtain ⟨r, hr, rfl⟩ := Option.map_eq_some_iff.mp hstep
  cases a with
  | call t x =>
      obtain ⟨u, hruns, hcall⟩ := Option.bind_eq_some_iff.mp hr
      obtain ⟨ht, hu, -⟩ := Process.runs_eq_some hruns
      exact h.walk (o := none) hs ht hu (call_walks hu hcall)
  | create t t' area block =>
      obtain ⟨u, -, hcreate⟩ := Option.bind_eq_some_iff.mp hr
      obtain ⟨⟨-, -, hfresh⟩, rfl⟩ := guarded_eq_some.mp hcreate
      exact h.create hfresh
  | exit t =>
      obtain ⟨u, hruns, hexit⟩ := Option.bind_eq_some_iff.mp hr
      obtain ⟨ht, hu, -⟩ := Process.runs_eq_some hruns
      obtain ⟨-, hr⟩ := guarded_eq_some.mp hexit
      rw [Process.storesFlag, hu]
      exact h.exit hs ht hu hr.symm
  | user t =>
      simp only [Process.step] at hr
      split at hr
      next ht =>
        obtain ⟨u, hu, huser⟩ := Option.bind_eq_some_iff.mp hr
        rw [Process.storesFlag, hu]
        exact h.walk hs ht hu (userStep_walks huser)
      next => cases hr
  | ckpt => exact h.ckptWalk hs (ckptStep_walks hr)
  | ckptSlot slot word =>
      obtain ⟨⟨-, hlow, -⟩, rfl⟩ := guarded_eq_some.mp hr
      exact h.ckptWalk (o := none) hs ⟨rfl, fun _ hw => hw, rfl, rfl, .store hlow, rfl⟩
  | signal t =>
      simp only [Process.step] at hr
      split at hr
      next hguard =>
        obtain ⟨u, hu, rfl⟩ := Option.map_eq_some_iff.mp hr
        exact h.walk (o := none) hs hguard.2.1 hu
          ⟨⟨_, rfl, rfl, fun _ hw => hw⟩, rfl, fun _ => rfl, rfl, rfl, rfl⟩
      next => cases hr
  | checkpoint =>
      obtain ⟨hpc, rfl⟩ := guarded_eq_some.mp hr
      exact h.checkpoint hs hpc
  | restoreThreads area =>
      simp only [Process.step] at hr
      split at hr
      next hguard =>
        obtain rfl := Option.some.inj hr
        refine ⟨fun t ht u hu w hw => ?_, fun w hw => h.ckpt w (hguard.1 ▸ hw), h.saved⟩
        obtain rfl := Option.some.inj ((if_pos ht).symm.trans hu)
        cases hw
      next => cases hr
  | restart n area words mask d =>
      obtain ⟨m, -, hresume⟩ := Option.bind_eq_some_iff.mp hr
      obtain ⟨-, rfl⟩ := guarded_eq_some.mp hresume
      refine ⟨fun t _ u hu => ?_, fun w hw => ?_, h.saved⟩
      · exact absurd hu (Option.not_mem_none u)
      · exact absurd hw (Option.not_mem_none w)

end Flagged

/-- What a step shows. -/
theorem Sound.flagStep (h : Sound c s) (hsettled : s.Settled a) (hstep : s.flagStep c a = some s') :
    Sound c s' ∧ s'.versions c =
      (Act.event a).toList.foldl (Versions.apply (View.apply c)) (s.versions c) := by
  obtain ⟨r, hr, rfl⟩ := Option.map_eq_some_iff.mp hstep
  obtain ⟨hs, hversions⟩ := h.step hsettled hr
  cases s.storesFlag a with
  | none => exact ⟨hs, hversions⟩
  | some x => exact ⟨hs.setFlag, (Process.versions_setFlag c r x.1 x.2).trans hversions⟩

/-! ## The start -/

theorem Flagged.setup {i : Start} (h : Process.flagSetup c i = some s) : Sound c s ∧ Flagged s := by
  obtain ⟨r, hr, rfl⟩ := Option.map_eq_some_iff.mp h
  have hs := Sound.setup hr
  obtain rfl := Option.some.inj ((Process.setup_eq c i).symm.trans hr)
  generalize i.dispositions.set c.ckptSig ⟨(Process.ckptAction i).plain, .xndSigtramp⟩ = d at hs
  refine ⟨hs.setFlag.setFlag, fun t ht u hu w hw => ?_, fun w hw => ?_, List.forall_mem_nil _⟩
  · obtain rfl := List.mem_singleton.mp ht
    obtain rfl := Option.some.inj ((Start.threads_process c i d).symm.trans hu)
    refine (Memory.flag_setFlag_of_ne i.apart).trans (Memory.flag_setFlag_self.trans ?_)
    exact Option.some.inj hw
  · exact Memory.flag_setFlag_self.trans (Option.some.inj hw)

/-! ## What the invariant says -/

theorem Process.xndSkipInterpose_eq (h : Sound c s) (area : Nat) :
    s.xndSkipInterpose area = true ↔ s.mem.flag area ≠ tsdXndInit := by
  have hstate : (s.mem.xndState == .xndUninitialized) = false := by
    rw [h.xndState]
    cases s.ckptPc <;> rfl
  rw [xndSkipInterpose, hstate, Bool.or_false, beq_iff_eq, Memory.xndTlvOk, beq_eq_false_iff_ne]

theorem Flagged.guarded (h : Flagged s) (hs : Sound c s) : s.Guarded where
  user t ht u hu hpc := by
    have hflag := h.user t ht u hu
    rw [Process.xndSkipInterpose_eq hs]
    cases hu' : u.pc <;> rw [hu'] at hflag
    case restart => exact absurd hu' hpc
    case aborted => exact absurd (.inr ⟨t, ht, u, hu, hu'⟩) hs.not_failed
    case barrier | arrived => simp [hflag _ rfl, tsdXndInit, tsdXndFini]
    all_goals simp [hflag _ rfl]
  ckpt hpc := by
    have hflag := h.ckpt
    rw [Process.xndSkipInterpose_eq hs]
    cases hck : s.ckptPc <;> rw [hck] at hflag hpc
    case restoreActions | restoreTls => cases hpc
    case aborted => exact absurd hck hs.alive
    case checkpoint | release => simp [hflag _ rfl, tsdXndInit, tsdXndFini]
    all_goals simp [hflag _ rfl]
  saved m hm t ht := by
    rw [Memory.xndTlvOk, h.saved m hm t ht]
    rfl

theorem isSome_flagSetup_sample : (Process.flagSetup sampleSetup sampleStart).isSome = true := rfl

def flagInit : Process := (Process.flagSetup sampleSetup sampleStart).get isSome_flagSetup_sample

/-- The area of a thread, and where it is. -/
def Process.place (s : Process) (t : Nat) : Option (Nat × Pc) :=
  (s.threads t).map fun u => (u.kernel.area, u.pc)

set_option maxRecDepth 10000 in
theorem place_follow_flags : (Machine.follow (Process.flagStep sampleSetup) Process.Settled flagInit
    (checkpointed ++ reborn :: released)).map (·.place 1) = some (some (600, .run)) := by decide

end Xnd.Resume
