import Xnd.Resume.Process

/-!
# What the program sees

The program sees its threads, each with its thread-local storage, its mask, the frames of the
handlers it is in and its alternate stack, and the dispositions of its signals (`View`).  While a
thread is in `thread_sighandler` these are what it will have when the handler returns; while it waits
to be made again they are what its descriptor and its stack hold.

What a program does changes its view (`View.apply`), and nothing else should: a checkpoint saves it
and a restart brings it back.
-/
namespace Xnd.Resume
open Thread (ThreadState XndState)

/-- A thread, as the program sees it. -/
@[ext] structure Visible where
  slots : Nat → Nat
  mask : SigSet
  frames : List Frame
  altstack : Option (Nat × Nat)
  onstack : Bool

/-- The process, as the program and the checkpoint thread see it. -/
@[ext] structure View where
  threads : Nat → Option Visible
  ckptSlots : Nat → Nat
  ckptMask : SigSet
  actions : Nat → SigAction

/-! ## What is done to a view -/

namespace Visible

/-- A thread of which the code was interrupted. -/
def interrupted (slots : Nat → Nat) (altstack : Option (Nat × Nat)) : List Frame → Visible
  | [] => ⟨slots, 0, [], altstack, false⟩
  | f :: rest => ⟨slots, f.mask, rest, altstack, f.onstack⟩

/-- The effect of a call. -/
def call (c : Setup) (actions : Nat → SigAction) (v : Visible) : Call → Visible
  | .setSlot slot word => { v with slots := put v.slots slot word }
  | .sigmask how set => { v with mask := pthreadSigmaskHook c.ckptSig how set v.mask }
  | .sigaltstack ss => { v with altstack := ss }
  | .sigaction .. | .signal .. => v
  | .deliver sig =>
      { v with
        mask := (v.mask ||| (actions sig).mask).sigaddset sig
        frames := ⟨v.mask, v.onstack⟩ :: v.frames
        onstack := v.onstack || ((actions sig).onStack && v.altstack.isSome) }
  | .sigreturn => interrupted v.slots v.altstack v.frames

end Visible

/-- What a program does. -/
inductive Op where
  | call (t : Nat) (call : Call)
  | create (t t' block : Nat)
  | exit (t : Nat)
  | ckptSlot (slot word : Nat)
  deriving DecidableEq, Repr

/-- The dispositions of the signals that are the program's. -/
def appActions (c : Setup) (f : Nat → SigAction) : Nat → SigAction :=
  fun sig => if c.Free sig then (f sig).plain else .zero

namespace View

/-- An action is installed, when the signal is the program's. -/
def setAction (c : Setup) (v : View) (sig : Nat) (a : SigAction) : View :=
  { v with actions := if c.Free sig then put v.actions sig a.plain else v.actions }

/-- The effect of a call on the dispositions. -/
def act (c : Setup) (v : View) : Call → View
  | .sigaction sig (some a) => v.setAction c sig a
  | .signal sig handler =>
      v.setAction c sig ⟨handler, 0, if handler = .sigDfl ∨ handler = .sigIgn then saRestart else 0⟩
  | _ => v

def apply (c : Setup) (v : View) : Op → View
  | .call t call =>
      { v.act c call with threads := put v.threads t ((v.threads t).map fun x => x.call c v.actions call) }
  | .create t t' block =>
      { v with threads := put v.threads t' ((v.threads t).map fun x =>
          ⟨fun slot => if slot = c.tlvKey then block else 0, x.mask, [], none, false⟩) }
  | .exit t => { v with threads := put v.threads t none }
  | .ckptSlot slot word => { v with ckptSlots := put v.ckptSlots slot word }

end View

/-- What an action of a run shows as. -/
def Act.event : Act → Option (VersionEvent Op)
  | .call t x => some (.op (.call t x))
  | .create t t' _ block => some (.op (.create t t' block))
  | .exit t => some (.op (.exit t))
  | .ckptSlot slot word => some (.op (.ckptSlot slot word))
  | .checkpoint => some .save
  | .restart n _ _ _ _ => some (.back n)
  | .user _ | .ckpt | .signal _ | .restoreThreads _ => none

/-! ## The view of a process -/

namespace Memory

/-- The slots of an area that are saved. -/
def tsd (m : Memory) (area : Nat) : Nat → Nat :=
  fun slot => if tsdStart ≤ slot ∧ slot < tsdEnd then m.slot area slot else 0

/-- A thread that is to be made again. -/
def savedVisible (m : Memory) (t : Nat) : Visible :=
  .interrupted (m.tsd (m.info t).tls) (m.info t).ss.registered (m.frames t)

/-- What an image shows. -/
def view (c : Setup) (m : Memory) : View where
  threads t := if t ∈ m.threadList then some (m.savedVisible t) else none
  ckptSlots := m.tsd m.ckptThread.tls
  ckptMask := m.ckptThread.sigblocked
  actions := appActions c m.sigState.saTable

variable {m : Memory} {area src dst slot word : Nat}

theorem slot_store (a k : Nat) : (m.store area slot word).slot a k =
    if a = area ∧ k = slot then word else m.slot a k := by
  by_cases ha : a = area
  · by_cases hk : k = slot
    · simp [store, ha, hk]
    · simp [store, ha, put_of_ne _ _ hk, hk]
  · simp [store, put_of_ne _ _ ha, ha]

/-- The saved slots depend on the words of the area. -/
theorem tsd_congr {m' : Memory} {a : Nat} (h : m'.slot a = m.slot a) : m'.tsd a = m.tsd a := by
  funext k
  rw [tsd, tsd, h]

theorem slot_store_of_ne {a : Nat} (h : a ≠ area) : (m.store area slot word).slot a = m.slot a :=
  put_of_ne _ _ h

theorem tsd_store (h : tsdStart ≤ slot ∧ slot < tsdEnd) :
    (m.store area slot word).tsd area = put (m.tsd area) slot word := by
  funext k
  rw [tsd, slot_store]
  by_cases hk : k = slot
  · subst hk
    rw [if_pos h, if_pos ⟨rfl, rfl⟩, put_self]
  · simp only [hk, and_false, if_false, put_of_ne _ _ hk]
    rfl

@[simp] theorem slot_setInfo (t : Nat) (f : ThreadInfo → ThreadInfo) : (m.setInfo t f).slot = m.slot := rfl

@[simp] theorem info_setInfo_self (t : Nat) (f : ThreadInfo → ThreadInfo) :
    (m.setInfo t f).info t = f (m.info t) := put_self _ _ _

theorem info_setInfo_of_ne {t t' : Nat} (f : ThreadInfo → ThreadInfo) (h : t' ≠ t) :
    (m.setInfo t f).info t' = m.info t' := put_of_ne _ _ h

/-- The loop of slots, over any list of them. -/
theorem slot_foldl_store (m : Memory) (src dst : Nat) (l : List Nat) (hl : l.Nodup) (a k : Nat) :
    (l.foldl (fun m slot => m.store dst slot (m.slot src slot)) m).slot a k =
      if a = dst ∧ k ∈ l then m.slot src k else m.slot a k := by
  induction l generalizing m with
  | nil => simp
  | cons slot l ih =>
      obtain ⟨hslot, hl⟩ := List.nodup_cons.mp hl
      rw [List.foldl_cons, ih _ hl]
      rw [slot_store, slot_store]
      by_cases ha : a = dst
      · by_cases hk : k = slot
        · subst hk
          simp [ha, hslot]
        · simp [ha, hk]
      · simp [ha]

/-- **What is copied.** -/
theorem slot_copySlots (m : Memory) (src dst a k : Nat) : (m.copySlots src dst).slot a k =
    if a = dst ∧ tsdStart ≤ k ∧ k < tsdEnd then m.slot src k else m.slot a k := by
  rw [copySlots, slot_foldl_store _ _ _ _ List.nodup_range']
  have hmem : k ∈ List.range' tsdStart (tsdEnd - tsdStart) ↔ tsdStart ≤ k ∧ k < tsdEnd := by
    rw [List.mem_range'_1]
    exact Iff.rfl
  simp only [hmem]

/-- The loop changes the slots only. -/
theorem copySlots_eq (m : Memory) (src dst : Nat) :
    m.copySlots src dst = { m with slot := (m.copySlots src dst).slot } := by
  have h : ∀ l : List Nat, ∀ m : Memory,
      l.foldl (fun m slot => m.store dst slot (m.slot src slot)) m =
        { m with slot := (l.foldl (fun m slot => m.store dst slot (m.slot src slot)) m).slot } := by
    intro l
    induction l with
    | nil => exact fun _ => rfl
    | cons slot l ih => exact fun m => (ih _).trans rfl
  exact h _ m

@[simp] theorem threadList_copySlots (m : Memory) (src dst : Nat) :
    (m.copySlots src dst).threadList = m.threadList := by rw [copySlots_eq]

@[simp] theorem threadList_threadRestoreTls (m : Memory) (th : ThreadInfo) (area : Nat) :
    (m.threadRestoreTls th area).threadList = m.threadList := threadList_copySlots m th.tls area

@[simp] theorem threadList_setInfo (m : Memory) (t : Nat) (f : ThreadInfo → ThreadInfo) :
    (m.setInfo t f).threadList = m.threadList := rfl

@[simp] theorem threadList_ckptSaveTls (m : Memory) (area : Nat) :
    (m.ckptSaveTls area).threadList = m.threadList := by
  rw [ckptSaveTls]
  split
  · rfl
  · exact threadList_copySlots m area _

theorem tsd_copySlots (m : Memory) (src dst a : Nat) :
    (m.copySlots src dst).tsd a = if a = dst then m.tsd src else m.tsd a := by
  by_cases ha : a = dst
  · rw [if_pos ha]
    funext k
    rw [tsd, tsd, slot_copySlots]
    by_cases hk : tsdStart ≤ k ∧ k < tsdEnd
    · rw [if_pos hk, if_pos ⟨ha, hk⟩, if_pos hk]
    · rw [if_neg hk, if_neg hk]
  · rw [if_neg ha]
    refine tsd_congr (funext fun k => ?_)
    rw [slot_copySlots, if_neg]
    exact fun h => ha h.1

end Memory

/-- A thread, by what memory holds and by what the kernel knows. -/
def visibleOf (m : Memory) (t : Nat) : Option UserThread → Visible
  | none => m.savedVisible t
  | some u =>
      match u.pc with
      | .restart => m.savedVisible t
      | .restartSig => .interrupted (m.tsd u.kernel.area) (m.info t).ss.registered (m.frames t)
      | .run =>
          ⟨m.tsd u.kernel.area, u.kernel.mask, m.frames t, u.kernel.altstack.registered,
            u.kernel.altstack.onstack⟩
      | _ => .interrupted (m.tsd u.kernel.area) u.kernel.altstack.registered (m.frames t)

/-- The checkpoint thread has not taken back its thread-local storage. -/
def CkptPc.beforeTls : CkptPc → Bool
  | .restoreActions | .restoreTls => true
  | _ => false

/-- The checkpoint thread has not taken back its mask. -/
def CkptPc.beforeSig : CkptPc → Bool
  | .restoreActions | .restoreTls | .restoreThreads | .restartArrival | .restartWait | .restoreSig => true
  | _ => false

namespace Process

def view (c : Setup) (s : Process) : View where
  threads t := if t ∈ s.mem.threadList then some (visibleOf s.mem t (s.threads t)) else none
  ckptSlots := s.mem.tsd (if s.ckptPc.beforeTls then s.mem.ckptThread.tls else s.ckpt.area)
  ckptMask := if s.ckptPc.beforeSig then s.mem.ckptThread.sigblocked else s.ckpt.mask
  actions := appActions c
    (if s.ckptPc = .restoreActions then s.mem.sigState.saTable else fun sig => (s.dispositions sig).action)

theorem view_threads_of_mem {c : Setup} {s : Process} {t : Nat} (ht : t ∈ s.mem.threadList) :
    (s.view c).threads t = some (visibleOf s.mem t (s.threads t)) := if_pos ht

theorem view_threads_of_not_mem {c : Setup} {s : Process} {t : Nat} (ht : t ∉ s.mem.threadList) :
    (s.view c).threads t = none := if_neg ht

/-- The current view, and what the images show. -/
def versions (c : Setup) (s : Process) : Versions View := ⟨s.view c, s.images.map (·.view c)⟩

end Process

/-! ## The invariant -/

/-- A thread can be made again from memory. -/
structure Saved (c : Setup) (m : Memory) (t : Nat) : Prop where
  frames : m.frames t ≠ []
  isRestart : m.isRestart (m.slot (m.info t).tls c.tlvKey) = true
  ss : (m.info t).ss.Ok

/-- The state of a thread that runs: the checkpoint signal was sent when the state says so. -/
def RunState (m : Memory) (t : Nat) (u : UserThread) : Prop :=
  (m.info t).state = .stRunning ∧ u.pending = false ∨ (m.info t).state = .stSignaled ∧ u.pending = true

/-- What memory holds of a thread at each of its places. -/
def Fits (c : Setup) (m : Memory) (t : Nat) : Option UserThread → Prop
  | none => Saved c m t
  | some u => u.kernel.altstack.Ok ∧
      match u.pc with
      | .run => RunState m t u
      | .handler => m.frames t ≠ [] ∧ u.pending = false ∧ (m.info t).state = .stSignaled
      | .saveSig =>
          m.frames t ≠ [] ∧ u.pending = false ∧ (m.info t).state = .stSuspinprog ∧
            (m.info t).tls = u.kernel.area
      | .context =>
          m.frames t ≠ [] ∧ u.pending = false ∧ (m.info t).state = .stSuspinprog ∧
            (m.info t).tls = u.kernel.area ∧ (m.info t).ss = u.kernel.altstack
      | .barrier | .arrived =>
          Saved c m t ∧ u.pending = false ∧ (m.info t).state = .stSuspended ∧
            (m.info t).tls = u.kernel.area ∧ (m.info t).ss = u.kernel.altstack
      | .sigreturn => m.frames t ≠ [] ∧ RunState m t u
      | .restart => Saved c m t ∧ u.pending = false ∧ u.kernel.altstack.registered = none
      | .restartSig =>
          m.frames t ≠ [] ∧ u.pending = false ∧ (m.info t).state = .stRunning ∧
            m.isRestart (m.slot u.kernel.area c.tlvKey) = true ∧ (m.info t).ss.Ok ∧
            u.kernel.altstack.registered = none
      | .restartBarrier | .restartArrived =>
          m.frames t ≠ [] ∧ u.pending = false ∧ (m.info t).state = .stRunning ∧
            m.isRestart (m.slot u.kernel.area c.tlvKey) = true
      | .aborted => False

/-- Where the user threads are while the checkpoint thread is at a place. -/
def CkptPc.Admits (pc : CkptPc) : Option UserThread → Prop
  | none =>
      match pc with
      | .restoreActions | .restoreTls | .restoreThreads => True
      | _ => False
  | some u =>
      match pc with
      | .wait =>
          (u.pc = .run ∨ u.pc = .sigreturn) ∧ u.pending = false ∨ u.pc = .arrived ∨ u.pc = .restartArrived
      | .saveTls | .saveSig | .suspend => (u.pc = .run ∨ u.pc = .sigreturn) ∧ u.pending = false
      | .scan =>
          u.pc = .run ∨ u.pc = .sigreturn ∨ u.pc = .handler ∨ u.pc = .saveSig ∨ u.pc = .context ∨
            u.pc = .barrier
      | .arrival => u.pc = .saveSig ∨ u.pc = .context ∨ u.pc = .barrier
      | .arrivalWait => u.pc = .saveSig ∨ u.pc = .context ∨ u.pc = .barrier ∨ u.pc = .arrived
      | .precheckpoint | .checkpoint | .release => u.pc = .arrived
      | .restartArrival | .restartWait =>
          u.pc = .restart ∨ u.pc = .restartSig ∨ u.pc = .restartBarrier ∨ u.pc = .restartArrived
      | .restoreSig | .restartRelease => u.pc = .restartArrived
      | .restoreActions | .restoreTls | .restoreThreads | .aborted => False

/-- `xnd_state` while the checkpoint thread is at a place. -/
def CkptPc.xndState : CkptPc → XndState
  | .wait => .xndRunning
  | .saveTls | .saveSig | .suspend => .xndCkptPending
  | .scan | .arrival => .xndSuspinprog
  | _ => .xndCkptinprog

/-- The checkpoint thread counts the threads at the barrier. -/
def CkptPc.counts : CkptPc → Bool
  | .arrival | .arrivalWait | .restartArrival | .restartWait => true
  | _ => false

/-- A thread has come to the barrier. -/
def Arrived (u : Option UserThread) : Bool :=
  match u with
  | none => false
  | some u => u.pc = .arrived ∨ u.pc = .restartArrived

/-- A process can be started from an image. -/
structure Image (c : Setup) (m : Memory) : Prop where
  nodup : m.threadList.Nodup
  saved : ∀ t ∈ m.threadList, Saved c m t
  apart : ∀ t ∈ m.threadList, ∀ t' ∈ m.threadList, (m.info t).tls = (m.info t').tls → t = t'
  ckptApart : ∀ t ∈ m.threadList, (m.info t).tls ≠ m.ckptThread.tls
  xndState : m.xndState = .xndCkptinprog
  lastCkptSig : m.sigState.lastCkptSig = c.ckptSig
  blocked : m.ckptThread.sigblocked.sigismember c.ckptSig = true

/-- What the checkpoint thread has saved. -/
structure CkptFits (c : Setup) (s : Process) : Prop where
  /-- Its thread-local storage, from `thread_save_tls` on. -/
  tls : s.ckptPc ∈ [.saveSig, .suspend, .scan, .arrival, .arrivalWait, .precheckpoint, .checkpoint] →
    s.mem.tsd s.mem.ckptThread.tls = s.mem.tsd s.ckpt.area
  /-- Its mask, from `thread_save_sig_state` on. -/
  sigblocked : s.ckptPc ∈ [.suspend, .scan, .arrival, .arrivalWait, .precheckpoint, .checkpoint] →
    s.mem.ckptThread.sigblocked = s.ckpt.mask
  /-- The checkpoint signal is blocked. -/
  blocked : (if s.ckptPc.beforeSig then s.mem.ckptThread.sigblocked else s.ckpt.mask).sigismember
    c.ckptSig = true
  /-- The dispositions, from `sig_state_save` to `xnd_checkpoint`. -/
  saTable : s.ckptPc = .checkpoint →
    appActions c s.mem.sigState.saTable = appActions c fun sig => (s.dispositions sig).action
  lastCkptSig : s.ckptPc = .checkpoint ∨ s.ckptPc = .restoreActions →
    s.mem.sigState.lastCkptSig = c.ckptSig

/-- **The invariant.** -/
structure Sound (c : Setup) (s : Process) : Prop where
  nodup : s.mem.threadList.Nodup
  fits : ∀ t ∈ s.mem.threadList, Fits c s.mem t (s.threads t)
  admits : ∀ t ∈ s.mem.threadList, s.ckptPc.Admits (s.threads t)
  apart : ∀ t ∈ s.mem.threadList, ∀ t' ∈ s.mem.threadList, ∀ a ∈ s.areas t, a ∈ s.areas t' → t = t'
  ckptApart : ∀ t ∈ s.mem.threadList, ∀ a ∈ s.areas t, a ≠ s.ckpt.area ∧ a ≠ s.mem.ckptThread.tls
  xndState : s.mem.xndState = s.ckptPc.xndState
  starts : s.ckptPc = .scan → s.mem.threadsArrived = 0
  counts : s.ckptPc.counts = true →
    s.mem.threadsArrived = s.mem.threadList.countP (fun t => Arrived (s.threads t)) ∧
      s.mem.threadsExpected = s.mem.threadList.length
  ckpt : CkptFits c s
  images : ∀ m ∈ s.images, Image c m
  alive : s.ckptPc ≠ .aborted

end Xnd.Resume
