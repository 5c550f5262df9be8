import Xnd.Suspend.Process

/-!
# What holds whatever is scheduled

The state of a thread fits to the place where it is, a lock is held by exactly the
thread whose code is in its section, and the list holds the threads that have begun
and are not dead.  `Regular` says this, and **every state is regular**.

The steps of a thread are described once: `Plain` for its own code, `Handles` for
`thread_sighandler`, and `step_cases` says that nothing else happens.
-/
namespace Xnd.Suspend
open Thread (ThreadState XndState)

namespace Pc

/-- Before `ST_RUNNING`. -/
def starting (pc : Pc) : Bool := pc matches unborn | addAcquire | addRelease | startLock | startRun

/-- Between `unsafe_enter` and `unsafe_exit`. -/
def inSection (pc : Pc) : Bool :=
  pc matches body | exit | createLock | createWait | createSleep | createUnlock | forkList |
    forkZombie | forkCkpt | forkDone | forkUnlockZombie | forkUnlockList | forkUnlockMtx

/-- A thread that is on the list, until it is dead. -/
def live (pc : Pc) : Bool := !(pc matches unborn | addAcquire | dead)

/-- Waiting for the thread that was created. -/
def creating (pc : Pc) : Bool := pc matches createLock | createWait | createSleep

/-- After `exiting = 1`. -/
def leaving (pc : Pc) : Bool := pc matches exitUnlock | dying | dead

end Pc

/-- The state that goes with a place in `thread_sighandler`. -/
def HandlerPc.Fits : HandlerPc → ThreadState → Prop
  | .out, st => st ≠ .stSuspinprog ∧ st ≠ .stSuspended
  | .signaled, st => st = .stSignaled
  | .suspinprog, st => st = .stSuspinprog
  | _, st => st = .stSuspended

namespace UserThread

/-- The state of a thread fits to where it is. -/
structure Fits (t : UserThread) : Prop where
  starting : t.pc.starting = true → t.state = .stEmbryo
  begun : t.pc = .startUnlock → t.state = .stRunning
  inSection : t.pc.inSection = true → t.state = .stUnsafe
  handler : t.handler.Fits t.state
  pending : t.pending = true → t.state = .stSignaled ∧ t.handler = .out

/-- The locks the thread `i` holds, by where it is. -/
def held (t : UserThread) (i : Nat) : List Lock :=
  match t.pc with
  | .addRelease => [.threadList]
  | .startRun | .startUnlock | .exitMark | .exitUnlock => [.thread i]
  | .createWait | .createUnlock | .joinWait | .joinUnlock => [.thread t.target]
  | .forkList | .forkUnlockMtx => [.ckptMtx]
  | .forkZombie | .forkUnlockList => [.threadList, .ckptMtx]
  | .forkCkpt | .forkUnlockZombie => [.zombieList, .threadList, .ckptMtx]
  | .forkDone => [.ckptThread, .zombieList, .threadList, .ckptMtx]
  | _ => []

end UserThread

/-- The locks the checkpoint thread holds, by where it is and the thread whose turn it
is. -/
def CkptPc.held (pc : CkptPc) (i : Option Nat) : List Lock :=
  match pc with
  | .acquire => [.ckptMtx]
  | .foreach | .testJoined | .lockThread | .unlockMtx => [.threadList, .ckptMtx]
  | .testRunning | .casRunning | .kill | .testSignaled | .probe | .testSuspended
  | .testSuspinprog | .testUnsafe | .testEmbryo | .unlockThread =>
      (i.map Lock.thread).toList ++ [.threadList, .ckptMtx]
  | .release | .reap | .reapProbe | .reapRelease => [.threadList]
  | _ => []

def CkptThread.held (c : CkptThread) : List Lock := c.pc.held c.todo.head?

@[simp] theorem CkptThread.held_mk (pc : CkptPc) (todo : List Nat) (suspended : Nat) (rescan : Bool)
    (exiting killed : Nat) :
    CkptThread.held ⟨pc, todo, suspended, rescan, exiting, killed⟩ = pc.held todo.head? := rfl

namespace Process
variable (s : Process)

@[simp] theorem held_ckptGoto (pc : CkptPc) :
    (s.ckptGoto pc).ckpt.held = pc.held s.ckpt.todo.head? := rfl

@[simp] theorem held_nextTurn (pc : CkptPc) :
    (s.nextTurn pc).ckpt.held = pc.held s.ckpt.todo.tail.head? := rfl

@[simp] theorem held_rescanLater :
    s.rescanLater.ckpt.held = CkptPc.held .unlockThread s.ckpt.todo.head? := rfl

@[simp] theorem held_count (i : Nat) :
    (s.count i).ckpt.held = CkptPc.held .unlockThread s.ckpt.todo.head? := rfl

end Process

/-- What a thread does in its own code, except that it creates a thread. -/
structure Plain (s s' : Process) (i : Nat) : Prop where
  threads : ∀ k, k ≠ i → s'.threads k = s.threads k
  moved : (s.threads i).pc ≠ .unborn ∧ (s.threads i).pc ≠ .dead
  frame : s'.next = s.next ∧ s'.xndState = s.xndState ∧ s'.threadsExpected = s.threadsExpected ∧
    s'.threadsArrived = s.threadsArrived ∧ s'.ckpt = s.ckpt ∧ s'.counted = s.counted ∧ s'.came = s.came
  handler : (s'.threads i).handler = (s.threads i).handler
  pending : (s'.threads i).pending = (s.threads i).pending
  fits : (s.threads i).Fits → (s.threads i).handler = .out → (s'.threads i).Fits
  signaled : (s.threads i).Fits → (s.threads i).state = .stSignaled →
    (s'.threads i).state = .stSignaled
  locks : (s'.lock = s.lock ∧ (s'.threads i).held i = (s.threads i).held i) ∨
    (∃ l, s.lock l = none ∧ s'.lock = put s.lock l (some (.user i)) ∧
      (s'.threads i).held i = l :: (s.threads i).held i) ∨
    (∃ l, s'.lock = put s.lock l none ∧ (s.threads i).held i = l :: (s'.threads i).held i ∧
      l ∉ (s'.threads i).held i)
  list : (s'.threadList = s.threadList ∧ (s.threads i).pc ≠ .addAcquire) ∨
    (s'.threadList = i :: s.threadList ∧ (s.threads i).pc = .addAcquire ∧ s.lock .threadList = none)
  live : (s'.threads i).pc.live = true → (s.threads i).pc.live = true ∨ (s.threads i).pc = .addAcquire
  joined : ∀ j, s'.joined j = true → s.joined j = true ∨ (s.threads j).pc = .dead
  exiting : ((s'.threads i).exiting = (s.threads i).exiting ∧
      ((s.threads i).pc.leaving = true → (s'.threads i).pc.leaving = true)) ∨
    ((s'.threads i).exiting = true ∧ (s'.threads i).pc.leaving = true)
  creating : (s.threads i).pc.creating = true →
    ((s'.threads i).pc.creating = true ∧ (s'.threads i).target = (s.threads i).target) ∨
      (s.threads (s.threads i).target).state ≠ .stEmbryo
  starting : (s'.threads i).pc.starting = true → (s.threads i).pc.starting = true
  grown : (s'.threads i).pc ≠ .unborn ∧ (s'.threads i).pc ≠ .addAcquire

/-- A place that comes after another one without a change of the state. -/
def Pc.Follows (pc pc' : Pc) : Prop :=
  (pc ≠ .unborn ∧ pc ≠ .dead) ∧ pc ≠ .addAcquire ∧ pc' ≠ .unborn ∧ pc' ≠ .addAcquire ∧
  pc' ≠ .startUnlock ∧ (pc'.starting = true → pc.starting = true) ∧
  (pc'.inSection = true → pc.inSection = true) ∧ (pc'.live = true → pc.live = true) ∧
  (pc.leaving = true → pc'.leaving = true)

instance (pc pc' : Pc) : Decidable (pc.Follows pc') := inferInstanceAs (Decidable (_ ∧ _))

/-- A thread outside the handler whose state is not `ST_SIGNALED` has no signal to come. -/
theorem UserThread.Fits.not_pending {t : UserThread} (h : t.Fits) (hs : t.state ≠ .stSignaled) :
    t.pending = false :=
  Bool.eq_false_iff.mpr fun hp => hs (h.pending hp).1

section Plain
variable {s : Process} {i : Nat} {pc pc' : Pc}

theorem UserThread.Fits.go {t : UserThread} (h : t.Fits) (hf : t.pc.Follows pc') :
    UserThread.Fits { t with pc := pc' } where
  starting hs := h.starting (hf.2.2.2.2.2.1 hs)
  begun hb := absurd hb hf.2.2.2.2.1
  inSection hs := h.inSection (hf.2.2.2.2.2.2.1 hs)
  handler := h.handler
  pending := h.pending

/-- A thread goes on, and takes or gives back a lock, or neither. -/
theorem plain_goto (lock' : Lock → Option Owner) (hpc : (s.threads i).pc = pc)
    (hf : pc.Follows pc')
    (hcreating : pc.creating = true → pc'.creating = true ∨
      (s.threads (s.threads i).target).state ≠ .stEmbryo)
    (hlocks : (lock' = s.lock ∧
        UserThread.held { s.threads i with pc := pc' } i = (s.threads i).held i) ∨
      (∃ l, s.lock l = none ∧ lock' = put s.lock l (some (.user i)) ∧
        UserThread.held { s.threads i with pc := pc' } i = l :: (s.threads i).held i) ∨
      (∃ l, lock' = put s.lock l none ∧
        (s.threads i).held i = l :: UserThread.held { s.threads i with pc := pc' } i ∧
        l ∉ UserThread.held { s.threads i with pc := pc' } i)) :
    Plain s { s.goto i pc' with lock := lock' } i := by
  have hself : ({ s.goto i pc' with lock := lock' } : Process).threads i =
      { s.threads i with pc := pc' } := put_self _ _ _
  subst hpc
  obtain ⟨hmoved, hadd, hunborn, hadd', hbegun, hstarting, hsection, hlive, hleaving⟩ := hf
  constructor
  case threads => exact fun k hk => put_of_ne _ hk _
  case moved => exact hmoved
  case frame => exact ⟨rfl, rfl, rfl, rfl, rfl, rfl, rfl⟩
  case list => exact .inl ⟨rfl, hadd⟩
  case joined => exact fun j hj => .inl hj
  all_goals rw [hself]
  case fits =>
    exact fun h _ => h.go ⟨hmoved, hadd, hunborn, hadd', hbegun, hstarting, hsection, hlive, hleaving⟩
  case signaled => exact fun _ h => h
  case locks => exact hlocks
  case live => exact fun h => .inl (hlive h)
  case exiting => exact .inl ⟨rfl, hleaving⟩
  case creating => exact fun h => (hcreating h).imp (fun hc => ⟨hc, rfl⟩) id
  case starting => exact hstarting
  case grown => exact ⟨hunborn, hadd'⟩

theorem plain_acquire {s' : Process} {l : Lock} (h : s.acquire i l pc' = some s')
    (hpc : (s.threads i).pc = pc) (hf : pc.Follows pc')
    (hcreating : pc.creating = true → pc'.creating = true)
    (hheld : UserThread.held { s.threads i with pc := pc' } i = l :: (s.threads i).held i) :
    Plain s s' i := by
  obtain ⟨hfree, rfl⟩ := guarded_eq_some.mp h
  exact plain_goto _ hpc hf (fun hc => .inl (hcreating hc)) (.inr (.inl ⟨l, hfree, rfl, hheld⟩))

theorem plain_release {s' : Process} {l : Lock} (h : s.release i l pc' = some s')
    (hpc : (s.threads i).pc = pc) (hf : pc.Follows pc')
    (hcreating : pc.creating = true → pc'.creating = true ∨
      (s.threads (s.threads i).target).state ≠ .stEmbryo)
    (hheld : (s.threads i).held i = l :: UserThread.held { s.threads i with pc := pc' } i)
    (hnot : l ∉ UserThread.held { s.threads i with pc := pc' } i) : Plain s s' i := by
  obtain rfl := Option.some.inj h
  exact plain_goto _ hpc hf hcreating (.inr (.inr ⟨l, rfl, hheld, hnot⟩))

/-- A thread goes on and changes its state or its flag, outside the hook of create and
of the list. -/
theorem plain_set {f : UserThread → UserThread} (hpc : (s.threads i).pc = pc)
    (hmoved : (pc ≠ .unborn ∧ pc ≠ .dead) ∧ pc ≠ .addAcquire ∧ pc.creating = false)
    (hgrown : (f (s.threads i)).pc ≠ .unborn ∧ (f (s.threads i)).pc ≠ .addAcquire)
    (hhandler : (f (s.threads i)).handler = (s.threads i).handler)
    (hpending : (f (s.threads i)).pending = (s.threads i).pending)
    (hfits : (s.threads i).Fits → (s.threads i).handler = .out → (f (s.threads i)).Fits)
    (hsignaled : (s.threads i).Fits → (s.threads i).state = .stSignaled →
      (f (s.threads i)).state = .stSignaled)
    (hheld : (f (s.threads i)).held i = (s.threads i).held i) (hlive : pc.live = true)
    (hexiting : (f (s.threads i)).exiting = (s.threads i).exiting ∧
        (pc.leaving = true → (f (s.threads i)).pc.leaving = true) ∨
      (f (s.threads i)).exiting = true ∧ (f (s.threads i)).pc.leaving = true)
    (hstarting : (f (s.threads i)).pc.starting = true → pc.starting = true) :
    Plain s (s.set i f) i := by
  have hself : (s.set i f).threads i = f (s.threads i) := put_self _ _ _
  subst hpc
  constructor
  case threads => exact fun k hk => put_of_ne _ hk _
  case moved => exact hmoved.1
  case frame => exact ⟨rfl, rfl, rfl, rfl, rfl, rfl, rfl⟩
  case list => exact .inl ⟨rfl, hmoved.2.1⟩
  case joined => exact fun j hj => .inl hj
  all_goals rw [hself]
  case handler => exact hhandler
  case pending => exact hpending
  case fits => exact hfits
  case signaled => exact hsignaled
  case locks => exact .inl ⟨rfl, hheld⟩
  case live => exact fun _ => .inl hlive
  case exiting => exact hexiting
  case creating => exact fun hc => absurd hc (by simp [hmoved.2.2])
  case starting => exact hstarting
  case grown => exact hgrown

end Plain

/-- The body of a wrapped call. -/
theorem body_cases {s s' : Process} {i : Nat} {ok : Bool} (hpc : (s.threads i).pc = .body)
    (h : s.body i ok = some s') : Plain s s' i ∨ s' = s.create i := by
  have leave : Plain s (s.goto i .exit) i :=
    plain_goto s.lock hpc (by decide) nofun (.inl ⟨rfl, by simp [UserThread.held, hpc]⟩)
  have join : ∀ j b, (b = true → (s.threads j).pc = .dead) →
      Plain s { s.goto i .exit with joined := put s.joined j b } i := fun j b hdead =>
    { leave with
      joined := by
        intro k hk
        by_cases hj : k = j
        · subst hj
          have hk : put s.joined k b k = true := hk
          rw [put_self] at hk
          exact .inr (hdead hk)
        · have hk : put s.joined j b k = true := hk
          rw [put_of_ne _ hj] at hk
          exact .inl hk }
  unfold Process.body at h
  simp only at h
  cases hcall : (s.threads i).call <;> simp only [hcall] at h
  case other =>
    obtain rfl := Option.some.inj h
    exact .inl leave
  case create =>
    split at h
    · obtain rfl := Option.some.inj h
      exact .inr rfl
    · obtain rfl := Option.some.inj h
      exact .inl leave
  case join =>
    split at h
    · obtain ⟨hdead, rfl⟩ := guarded_eq_some.mp h
      exact .inl (join _ _ fun _ => hdead)
    · obtain rfl := Option.some.inj h
      exact .inl (join _ _ nofun)
  case fork =>
    exact .inl (plain_acquire h hpc (by decide) nofun (by simp [UserThread.held, hpc]))

/-- **What a thread does in its own code.** -/
theorem userStep_cases {s s' : Process} {i : Nat} {ok : Bool} (h : s.userStep i ok = some s') :
    Plain s s' i ∨ ((s.threads i).pc = .body ∧ s' = s.create i) ∨ s' = s := by
  unfold Process.userStep at h
  simp only at h
  cases hpc : (s.threads i).pc <;> simp only [hpc] at h
  case unborn | run | dead => cases h
  case body => exact (body_cases hpc h).imp id fun hc => .inl ⟨rfl, hc⟩
  case enter =>
    split at h
    · have hrunning : (s.threads i).state = .stRunning := ‹_›
      obtain rfl := Option.some.inj h
      refine .inl (plain_set hpc (by decide) ⟨nofun, nofun⟩ rfl rfl (fun hfits hout => ?_)
        (fun _ hs => by simp [hrunning] at hs) (by simp [UserThread.held, hpc]) rfl (.inl ⟨rfl, nofun⟩) nofun)
      have hquiet := hfits.not_pending (by simp [hrunning])
      exact ⟨nofun, nofun, fun _ => rfl, by simp [HandlerPc.Fits, hout], by simp [hquiet]⟩
    · obtain rfl := Option.some.inj h
      exact .inr (.inr rfl)
  case exit =>
    obtain rfl := Option.some.inj h
    refine .inl (plain_set hpc (by decide) ⟨nofun, nofun⟩ rfl rfl (fun hfits hout => ?_)
      (fun _ hs => by simp [hs]) (by simp [UserThread.held, hpc]) rfl (.inl ⟨rfl, nofun⟩) nofun)
    have hnotSafe : (s.threads i).state = .stUnsafe := hfits.inSection (by simp [hpc, Pc.inSection])
    have hquiet := hfits.not_pending (by simp [hnotSafe])
    exact ⟨nofun, nofun, nofun, by simp [HandlerPc.Fits, hout, hnotSafe], by simp [hquiet]⟩
  case startRun =>
    obtain rfl := Option.some.inj h
    have embryo : (s.threads i).Fits → (s.threads i).state = .stEmbryo := fun hfits =>
      hfits.starting (by simp [hpc, Pc.starting])
    refine .inl (plain_set hpc (by decide) ⟨nofun, nofun⟩ rfl rfl (fun hfits hout => ?_)
      (fun hfits hs => by simp [embryo hfits] at hs) (by simp [UserThread.held, hpc]) rfl (.inl ⟨rfl, nofun⟩) nofun)
    have hquiet := hfits.not_pending (by simp [embryo hfits])
    exact ⟨nofun, fun _ => rfl, nofun, by simp [HandlerPc.Fits, hout], by simp [hquiet]⟩
  case exitMark =>
    obtain rfl := Option.some.inj h
    refine .inl (plain_set hpc (by decide) ⟨nofun, nofun⟩ rfl rfl (fun hfits hout => ?_)
      (fun _ hs => hs) (by simp [UserThread.held, hpc]) rfl (.inr ⟨rfl, rfl⟩) nofun)
    exact ⟨nofun, nofun, nofun, hfits.handler, hfits.pending⟩
  case dying =>
    obtain rfl := Option.some.inj h
    exact .inl (plain_goto s.lock hpc (by decide) nofun (.inl ⟨rfl, by simp [UserThread.held, hpc]⟩))
  case addAcquire =>
    obtain ⟨s₁, h₁, rfl⟩ := Option.map_eq_some_iff.mp h
    obtain ⟨hfree, rfl⟩ := guarded_eq_some.mp h₁
    have hself : (s.goto i .addRelease).threads i = { s.threads i with pc := .addRelease } :=
      put_self _ _ _
    left
    constructor
    case threads => exact fun k hk => put_of_ne _ hk _
    case moved => simp [hpc]
    case frame => exact ⟨rfl, rfl, rfl, rfl, rfl, rfl, rfl⟩
    case list => exact .inr ⟨rfl, hpc, hfree⟩
    case joined => exact fun j hj => .inl hj
    all_goals rw [show _ = _ from hself]
    case fits =>
      intro hfits _
      have hembryo : (s.threads i).state = .stEmbryo := hfits.starting (by simp [hpc, Pc.starting])
      exact ⟨fun _ => hembryo, nofun, nofun, hfits.handler, hfits.pending⟩
    case signaled => exact fun _ hs => hs
    case locks => exact .inr (.inl ⟨.threadList, hfree, rfl, by simp [UserThread.held, hpc]⟩)
    case live => exact fun _ => .inr hpc
    case exiting => exact .inl ⟨rfl, by simp [hpc, Pc.leaving]⟩
    case creating => simp [hpc, Pc.creating]
    case starting => simp [hpc, Pc.starting]
    case grown => exact ⟨nofun, nofun⟩
  case createWait =>
    split at h
    · exact .inl (plain_release h hpc (by decide) (fun _ => .inl rfl)
        (by simp [UserThread.held, hpc]) (by simp [UserThread.held]))
    · obtain rfl := Option.some.inj h
      exact .inl (plain_goto s.lock hpc (by decide) (fun _ => .inr ‹_›)
        (.inl ⟨rfl, by simp [UserThread.held, hpc]⟩))
  case joinWait =>
    split at h
    · obtain rfl := Option.some.inj h
      exact .inl (plain_goto s.lock hpc (by decide) nofun
        (.inl ⟨rfl, by simp [UserThread.held, hpc]⟩))
    · exact .inl (plain_release h hpc (by decide) nofun (by simp [UserThread.held, hpc])
        (by simp [UserThread.held]))
  case startLock | createLock | createSleep | joinLock | joinSleep | exitLock | forkList |
      forkZombie | forkCkpt =>
    exact .inl (plain_acquire h hpc (by decide) (by decide) (by simp [UserThread.held, hpc]))
  all_goals
    exact .inl (plain_release h hpc (by decide) nofun (by simp [UserThread.held, hpc])
      (by simp [UserThread.held]))

/-- The program calls a wrapper, joins a thread or ends one. -/
theorem plain_begin {s : Process} {i : Nat} {f : UserThread → UserThread} (hrun : s.Free i)
    (hf : (f (s.threads i)).state = (s.threads i).state ∧
      (f (s.threads i)).exiting = (s.threads i).exiting ∧
      (f (s.threads i)).pending = (s.threads i).pending ∧
      (f (s.threads i)).handler = (s.threads i).handler)
    (hpc : (f (s.threads i)).pc = .enter ∨ (f (s.threads i)).pc = .joinLock ∨
      (f (s.threads i)).pc = .exitLock) : Plain s (s.set i f) i := by
  obtain ⟨-, hpcrun⟩ := hrun
  obtain ⟨hstate, hexiting, hpending, hhandler⟩ := hf
  have hheld : (f (s.threads i)).held i = (s.threads i).held i := by
    rcases hpc with h | h | h <;> simp [UserThread.held, h, hpcrun]
  refine plain_set hpcrun (by decide) ?_ hhandler hpending (fun hfits _ => ?_) (fun _ hs => ?_) hheld
    rfl (.inl ⟨hexiting, nofun⟩) ?_
  · rcases hpc with h | h | h <;> rw [h] <;> exact ⟨nofun, nofun⟩
  · refine ⟨?_, ?_, ?_, ?_, ?_⟩
    · rcases hpc with h | h | h <;> rw [h] <;> exact nofun
    · rcases hpc with h | h | h <;> rw [h] <;> exact nofun
    · rcases hpc with h | h | h <;> rw [h] <;> exact nofun
    · rw [hhandler, hstate]
      exact hfits.handler
    · rw [hpending, hstate, hhandler]
      exact hfits.pending
  · rw [hstate, hs]
  · rcases hpc with h | h | h <;> rw [h] <;> exact nofun

/-! ## The checkpoint signal -/

/-- What a thread does in `thread_sighandler`, its arrival included. -/
structure Handles (s s' : Process) (i : Nat) : Prop where
  threads : ∀ k, k ≠ i → s'.threads k = s.threads k
  code : (s'.threads i).pc = (s.threads i).pc ∧ (s'.threads i).target = (s.threads i).target ∧
    (s'.threads i).exiting = (s.threads i).exiting
  frame : s'.next = s.next ∧ s'.threadList = s.threadList ∧ s'.joined = s.joined ∧ s'.lock = s.lock ∧
    s'.xndState = s.xndState ∧ s'.threadsExpected = s.threadsExpected ∧ s'.ckpt = s.ckpt ∧
    s'.counted = s.counted
  active : (s.threads i).pending = true ∨ (s.threads i).handler ≠ .out
  fits : (s.threads i).Fits → (s'.threads i).Fits

/-- A thread in the handler moves on. -/
theorem UserThread.Fits.handle {t : UserThread} (h : t.Fits) {st : ThreadState} {p : HandlerPc}
    (hst : t.state = .stSignaled ∨ t.state = .stSuspinprog ∨ t.state = .stSuspended)
    (hfit : p.Fits st) : UserThread.Fits { t with pending := false, state := st, handler := p } where
  starting hs := by
    have := h.starting hs
    rcases hst with h' | h' | h' <;> rw [h'] at this <;> cases this
  begun hb := by
    have := h.begun hb
    rcases hst with h' | h' | h' <;> rw [h'] at this <;> cases this
  inSection hs := by
    have := h.inSection hs
    rcases hst with h' | h' | h' <;> rw [h'] at this <;> cases this
  handler := hfit
  pending := nofun

/-- In the handler no signal is to come. -/
theorem UserThread.Fits.not_pending_of_handler {t : UserThread} (h : t.Fits) (hh : t.handler ≠ .out) :
    t.pending = false :=
  Bool.eq_false_iff.mpr fun hp => hh (h.pending hp).2

theorem handles_set {s : Process} {i : Nat} {f : UserThread → UserThread}
    (hcode : (f (s.threads i)).pc = (s.threads i).pc ∧
      (f (s.threads i)).target = (s.threads i).target ∧
      (f (s.threads i)).exiting = (s.threads i).exiting)
    (hactive : (s.threads i).pending = true ∨ (s.threads i).handler ≠ .out)
    (hfits : (s.threads i).Fits → (f (s.threads i)).Fits) : Handles s (s.set i f) i := by
  have hself : (s.set i f).threads i = f (s.threads i) := put_self _ _ _
  refine ⟨fun k hk => put_of_ne _ hk _, ?_, ⟨rfl, rfl, rfl, rfl, rfl, rfl, rfl, rfl⟩, hactive, ?_⟩
  · rw [hself]
    exact hcode
  · rw [hself]
    exact hfits

theorem handles_threadBarrier {s : Process} {i : Nat}
    (hh : (s.threads i).handler = .barrier ∨ (s.threads i).handler = .held) :
    Handles s (s.threadBarrier i) i := by
  have hne : (s.threads i).handler ≠ .out := by rcases hh with h | h <;> simp [h]
  have fits : ∀ hp : HandlerPc, hp.Fits .stSuspended → (s.threads i).Fits →
      UserThread.Fits { s.threads i with handler := hp } := by
    intro hp hfit hfits
    have hstate : (s.threads i).state = .stSuspended := by
      have := hfits.handler
      rcases hh with h | h <;> rw [h] at this <;> exact this
    have := hfits.handle (.inr (.inr hstate)) hfit
    rwa [← hfits.not_pending_of_handler hne, ← hstate] at this
  unfold Process.threadBarrier
  split
  · exact handles_set ⟨rfl, rfl, rfl⟩ (.inr hne) (fits .held rfl)
  · have hset := handles_set (s := s) (i := i) (f := fun t =>
      { t with handler := if s.xndState = .xndCkptinprog then .arrived else .released })
      ⟨rfl, rfl, rfl⟩ (.inr hne) (fits _ (by split <;> rfl))
    exact ⟨hset.threads, hset.code, hset.frame, hset.active, hset.fits⟩

/-- **What a thread does in the handler.** -/
theorem handlerStep_cases {s s' : Process} {i : Nat} (h : s.handlerStep i = some s') :
    Handles s s' i ∨ s' = s := by
  have moves : ∀ {st st' : ThreadState} {p : HandlerPc},
      (st = .stSignaled ∨ st = .stSuspinprog ∨ st = .stSuspended) → p.Fits st' →
      (s.threads i).state = st → (s.threads i).handler ≠ .out →
      Handles s (s.set i fun t => { t with state := st', handler := p }) i := by
    intro st st' p hst hfit hstate hne
    refine handles_set ⟨rfl, rfl, rfl⟩ (.inr hne) fun hfits => ?_
    have := hfits.handle (hstate ▸ hst) hfit
    rwa [← hfits.not_pending_of_handler hne] at this
  unfold Process.handlerStep at h
  simp only at h
  cases hh : (s.threads i).handler <;> simp only [hh] at h
  case out => cases h
  case signaled =>
    obtain ⟨hstate, rfl⟩ := guarded_eq_some.mp h
    exact .inl (moves (.inl rfl) rfl hstate (by simp [hh]))
  case suspinprog =>
    obtain ⟨hstate, rfl⟩ := guarded_eq_some.mp h
    exact .inl (moves (.inr (.inl rfl)) rfl hstate (by simp [hh]))
  case barrier =>
    obtain ⟨-, rfl⟩ := guarded_eq_some.mp h
    exact .inl (handles_threadBarrier (.inl hh))
  case held =>
    obtain ⟨-, rfl⟩ := guarded_eq_some.mp h
    exact .inl (handles_threadBarrier (.inr hh))
  case arrived =>
    obtain ⟨-, rfl⟩ := guarded_eq_some.mp h
    split
    · exact .inr rfl
    · refine .inl (handles_set ⟨rfl, rfl, rfl⟩ (.inr (by simp [hh])) fun hfits => ?_)
      have hstate : (s.threads i).state = .stSuspended := by
        have := hfits.handler
        rw [hh] at this
        exact this
      have := hfits.handle (.inr (.inr hstate)) (p := .released) rfl
      rwa [← hfits.not_pending_of_handler (by simp [hh]), ← hstate] at this
  case released =>
    obtain ⟨hstate, rfl⟩ := guarded_eq_some.mp h
    exact .inl (moves (.inr (.inr rfl)) ⟨nofun, nofun⟩ hstate (by simp [hh]))

/-- The checkpoint signal arrives. -/
theorem handles_deliver {s : Process} {i : Nat} (hpending : (s.threads i).pending = true) :
    Handles s (s.set i fun t => { t with pending := false, handler := .signaled }) i := by
  refine handles_set ⟨rfl, rfl, rfl⟩ (.inl hpending) fun hfits => ?_
  have hstate := (hfits.pending hpending).1
  have := hfits.handle (.inl hstate) (p := .signaled) rfl
  rwa [← hstate] at this

/-- **What a step is**: one of the checkpoint thread, one of a thread in its own code, or
one of a thread that the checkpoint signal has reached. -/
theorem step_cases {s s' : Process} {t : Turn} (h : step s t = some s') :
    (t = .ckpt ∧ s.ckptStep = some s') ∨
    (∃ i, (s.threads i).handler = .out ∧
      (Plain s s' i ∨ (s.threads i).pc = .body ∧ s' = s.create i)) ∨
    (∃ i, (t = .deliver i ∧ (s.threads i).handler = .out ∧ (s.threads i).pc ≠ .dead ∨
      t = .handler i ∧ s.handlerStep i = some s') ∧ Handles s s' i) ∨
    s' = s := by
  cases t with
  | user i ok =>
      simp only [step] at h
      split at h
      · rcases userStep_cases h with hp | hc | rfl
        · exact .inr (.inl ⟨i, ‹_›, .inl hp⟩)
        · exact .inr (.inl ⟨i, ‹_›, .inr hc⟩)
        · exact .inr (.inr (.inr rfl))
      · cases h
  | call i w =>
      obtain ⟨⟨hfree, -⟩, rfl⟩ := guarded_eq_some.mp h
      have := plain_begin (f := fun t => { t with pc := .enter, call := w }) hfree
        ⟨rfl, rfl, rfl, rfl⟩ (.inl rfl)
      exact .inr (.inl ⟨i, hfree.1, .inl this⟩)
  | join i t =>
      obtain ⟨⟨hfree, -⟩, rfl⟩ := guarded_eq_some.mp h
      have := plain_begin (f := fun th => { th with pc := .joinLock, call := .join, target := t })
        hfree ⟨rfl, rfl, rfl, rfl⟩ (.inr (.inl rfl))
      exact .inr (.inl ⟨i, hfree.1, .inl this⟩)
  | exit i =>
      obtain ⟨hfree, rfl⟩ := guarded_eq_some.mp h
      have := plain_begin (f := fun t => { t with pc := .exitLock }) hfree ⟨rfl, rfl, rfl, rfl⟩
        (.inr (.inr rfl))
      exact .inr (.inl ⟨i, hfree.1, .inl this⟩)
  | deliver i =>
      obtain ⟨⟨hpending, hout, hpc⟩, rfl⟩ := guarded_eq_some.mp h
      exact .inr (.inr (.inl ⟨i, .inl ⟨rfl, hout, hpc⟩, handles_deliver hpending⟩))
  | handler i =>
      rcases handlerStep_cases h with hh | rfl
      · exact .inr (.inr (.inl ⟨i, .inr ⟨rfl, h⟩, hh⟩))
      · exact .inr (.inr (.inr rfl))
  | ckpt => exact .inl ⟨rfl, h⟩

/-- What the checkpoint thread does to the user threads: nothing, or the compare-and-swap
to `ST_SIGNALED`, or `pthread_kill`. -/
def Signals (s s' : Process) : Prop :=
  s'.threads = s.threads ∨ ∃ i, s.ckpt.todo.head? = some i ∧
    (s.ckpt.pc = .casRunning ∧ (s.threads i).state = .stRunning ∧
        s'.threads = (s.set i fun t => { t with state := .stSignaled }).threads ∨
      s.ckpt.pc = .kill ∧ s'.threads = (s.set i fun t => { t with pending := true }).threads)

/-- No user thread moves. -/
def Still (s s' : Process) : Prop := ∀ k,
  (s'.threads k).pc = (s.threads k).pc ∧ (s'.threads k).handler = (s.threads k).handler ∧
    (s'.threads k).exiting = (s.threads k).exiting

/-- What the checkpoint thread does moves no user thread. -/
theorem Signals.still {s s' : Process} (h : Signals s s') : Still s s' := by
  intro k
  have set : ∀ {i : Nat} {f : UserThread → UserThread},
      (∀ t, (f t).pc = t.pc ∧ (f t).handler = t.handler ∧ (f t).exiting = t.exiting) →
      ((s.set i f).threads k).pc = (s.threads k).pc ∧
        ((s.set i f).threads k).handler = (s.threads k).handler ∧
        ((s.set i f).threads k).exiting = (s.threads k).exiting := by
    intro i f hf
    by_cases hk : k = i
    · subst hk
      rw [show (s.set k f).threads k = f (s.threads k) from put_self _ _ _]
      exact hf _
    · rw [show (s.set i f).threads k = s.threads k from put_of_ne _ hk _]
      exact ⟨rfl, rfl, rfl⟩
  rcases h with h | ⟨i, -, ⟨-, -, h⟩ | ⟨-, h⟩⟩
  · rw [h]
    exact ⟨rfl, rfl, rfl⟩
  · rw [h]
    exact set fun _ => ⟨rfl, rfl, rfl⟩
  · rw [h]
    exact set fun _ => ⟨rfl, rfl, rfl⟩

theorem scanStep_signals {s s' : Process} {i : Nat} (hhead : s.ckpt.todo.head? = some i)
    (hs : s.scanStep i = some s') : Signals s s' := by
  unfold Process.scanStep at hs
  simp only at hs
  cases hpc : s.ckpt.pc <;> simp only [hpc] at hs
  case casRunning =>
    split at hs <;> obtain rfl := Option.some.inj hs
    · exact .inr ⟨i, hhead, .inl ⟨hpc, ‹_›, rfl⟩⟩
    · exact .inl rfl
  case kill =>
    split at hs
    · obtain ⟨-, rfl⟩ := guarded_eq_some.mp hs
      exact .inl rfl
    · obtain rfl := Option.some.inj hs
      exact .inr ⟨i, hhead, .inr ⟨hpc, rfl⟩⟩
  case lockThread =>
    obtain ⟨-, rfl⟩ := guarded_eq_some.mp hs
    exact .inl rfl
  case probe =>
    split at hs
    · obtain ⟨-, rfl⟩ := guarded_eq_some.mp hs
      exact .inl rfl
    · obtain rfl := Option.some.inj hs
      exact .inl rfl
  case foreach | testJoined | testSuspended | testSuspinprog | testUnsafe | testEmbryo =>
    split at hs <;> obtain rfl := Option.some.inj hs <;> exact .inl rfl
  case testRunning | testSignaled | unlockThread =>
    obtain rfl := Option.some.inj hs
    exact .inl rfl
  all_goals cases hs

theorem reapStep_threads {s s' : Process} {i : Nat} (hs : s.reapStep i = some s') :
    s'.threads = s.threads := by
  unfold Process.reapStep at hs
  simp only at hs
  split at hs
  · split at hs
    · obtain rfl := Option.some.inj hs
      rfl
    · split at hs
      · obtain rfl := Option.some.inj hs
        rfl
      · obtain ⟨-, rfl⟩ := guarded_eq_some.mp hs
        rfl
  · split at hs
    · obtain ⟨-, rfl⟩ := guarded_eq_some.mp hs
      rfl
    · obtain rfl := Option.some.inj hs
      rfl
  · cases hs

/-- **The checkpoint thread changes a user thread twice only.** -/
theorem ckptStep_signals {s s' : Process} (h : s.ckptStep = some s') : Signals s s' := by
  unfold Process.ckptStep at h
  cases hpc : s.ckpt.pc <;> simp only [hpc] at h
  case wait | suspend | resetArrived | unlockMtx | release | setExpected | reapRelease | checkpoint =>
    obtain rfl := Option.some.inj h
    exact .inl rfl
  case again | acquire | reapAcquire | arrival | arrivalSleep | barrierRelease =>
    obtain ⟨-, rfl⟩ := guarded_eq_some.mp h
    exact .inl rfl
  case foreach =>
    cases htodo : s.ckpt.todo with
    | nil =>
        rw [htodo] at h
        obtain rfl := Option.some.inj h
        exact .inl rfl
    | cons i todo =>
        rw [htodo] at h
        exact scanStep_signals (by rw [htodo]; rfl) h
  case reap =>
    cases htodo : s.ckpt.todo with
    | nil =>
        rw [htodo] at h
        obtain rfl := Option.some.inj h
        exact .inl rfl
    | cons i todo =>
        rw [htodo] at h
        exact .inl (reapStep_threads h)
  case reapProbe =>
    obtain ⟨i, -, hi⟩ := Option.bind_eq_some_iff.mp h
    exact .inl (reapStep_threads hi)
  all_goals
    obtain ⟨i, hhead, hi⟩ := Option.bind_eq_some_iff.mp h
    exact scanStep_signals hhead hi

/-! ## The invariant -/

/-- **What holds whatever is scheduled.** -/
structure Regular (s : Process) : Prop where
  fits : ∀ i, (s.threads i).Fits
  held : ∀ l i, s.lock l = some (.user i) ↔ l ∈ (s.threads i).held i
  ckptHeld : ∀ l, s.lock l = some .ckpt ↔ l ∈ s.ckpt.held
  marked : s.ckpt.pc = .kill → ∀ i, s.ckpt.todo.head? = some i →
    (s.threads i).state = .stSignaled ∧ (s.threads i).handler = .out ∧ (s.threads i).pending = false
  unborn : ∀ i, s.next ≤ i → s.threads i = .unborn
  live : ∀ i, (s.threads i).pc.live = true → i ∈ s.threadList
  added : ∀ i ∈ s.threadList, (s.threads i).pc ≠ .unborn ∧ (s.threads i).pc ≠ .addAcquire
  nodup : s.threadList.Nodup
  joined : ∀ i, s.joined i = true → (s.threads i).pc = .dead
  exiting : ∀ i, (s.threads i).exiting = true → (s.threads i).pc.leaving = true
  creator : ∀ k, (s.threads k).pc.starting = true → (s.threads k).pc ≠ .unborn →
    ∃ p, (s.threads p).pc.creating = true ∧ (s.threads p).target = k

theorem regular_init : Regular .init := by
  have hthread : ∀ i, Process.init.threads i = .main ∨ Process.init.threads i = .unborn := by
    intro i
    by_cases hi : i = 0
    · exact .inl (if_pos hi)
    · exact .inr (if_neg hi)
  have hmain : ∀ i, (Process.init.threads i).pc = .run ∨ (Process.init.threads i).pc = .unborn :=
    fun i => (hthread i).imp (fun h => by rw [h]; rfl) fun h => by rw [h]; rfl
  constructor
  case fits =>
    intro i
    rcases hthread i with h | h <;> rw [h] <;> constructor <;>
      simp [UserThread.main, UserThread.unborn, Pc.starting, Pc.inSection, HandlerPc.Fits]
  case held =>
    intro l i
    refine iff_of_false nofun ?_
    rcases hmain i with h | h <;> simp [UserThread.held, h]
  case ckptHeld =>
    intro l
    exact iff_of_false nofun List.not_mem_nil
  case marked => exact nofun
  case unborn => exact fun i hi => if_neg (by simp only [Process.init] at hi; omega)
  case live =>
    intro i hi
    by_cases h0 : i = 0
    · simp [Process.init, h0]
    · rw [show Process.init.threads i = .unborn from if_neg h0] at hi
      cases hi
  case added =>
    intro i hi
    obtain rfl : i = 0 := by simpa [Process.init] using hi
    exact ⟨nofun, nofun⟩
  case nodup => exact List.nodup_singleton 0
  case joined => exact nofun
  case exiting =>
    intro i hi
    rcases hthread i with h | h <;> rw [h] at hi <;> cases hi
  case creator =>
    intro k hk hne
    rcases hmain k with h | h
    · rw [h] at hk
      cases hk
    · exact absurd h hne

namespace Regular
variable {s s' : Process} {i : Nat}

/-- Two threads do not hold one lock. -/
theorem held_unique (h : Regular s) {l : Lock} {k : Nat} (hi : l ∈ (s.threads i).held i)
    (hk : l ∈ (s.threads k).held k) : i = k := by
  have := ((h.held l i).mpr hi).symm.trans ((h.held l k).mpr hk)
  simpa using this

/-- The locks after a step of a thread in its own code. -/
theorem plain_held (h : Regular s) (hp : Plain s s' i) (l : Lock) (k : Nat) :
    s'.lock l = some (.user k) ↔ l ∈ (s'.threads k).held k := by
  by_cases hk : k = i
  · subst hk
    rcases hp.locks with ⟨hlock, hheld⟩ | ⟨m, hfree, hlock, hheld⟩ | ⟨m, hlock, hheld, hnot⟩
    · rw [hlock, hheld]
      exact h.held l k
    · rw [hlock, hheld, List.mem_cons]
      by_cases hl : l = m
      · simp [hl]
      · rw [put_of_ne _ hl, or_iff_right hl]
        exact h.held l k
    · rw [hlock]
      by_cases hl : l = m
      · subst hl
        simp [hnot]
      · rw [put_of_ne _ hl, h.held l k, hheld, List.mem_cons, or_iff_right hl]
  · rw [hp.threads k hk, ← h.held l k]
    rcases hp.locks with ⟨hlock, -⟩ | ⟨m, hfree, hlock, -⟩ | ⟨m, hlock, hheld, -⟩
    · rw [hlock]
    · rw [hlock]
      by_cases hl : l = m
      · subst hl
        simp [hfree, Ne.symm hk]
      · rw [put_of_ne _ hl]
    · rw [hlock]
      by_cases hl : l = m
      · subst hl
        have hown : s.lock l = some (.user i) := (h.held l i).mpr (hheld ▸ List.mem_cons_self)
        simp [hown, Ne.symm hk]
      · rw [put_of_ne _ hl]

/-- A thread in its own code leaves alone what the checkpoint thread holds. -/
theorem plain_ckpt (h : Regular s) (hp : Plain s s' i) (l : Lock) :
    s'.lock l = some .ckpt ↔ s.lock l = some .ckpt := by
  rcases hp.locks with ⟨hlock, -⟩ | ⟨m, hfree, hlock, -⟩ | ⟨m, hlock, hheld, -⟩
  · rw [hlock]
  · by_cases hl : l = m
    · rw [hlock, hl, put_self, hfree]
      exact iff_of_false nofun nofun
    · rw [hlock, put_of_ne _ hl]
  · have hown : s.lock m = some (.user i) := (h.held m i).mpr (hheld ▸ List.mem_cons_self)
    by_cases hl : l = m
    · rw [hlock, hl, put_self, hown]
      exact iff_of_false nofun nofun
    · rw [hlock, put_of_ne _ hl]

theorem plain (h : Regular s) (hp : Plain s s' i) (hout : (s.threads i).handler = .out) :
    Regular s' := by
  obtain ⟨hnext, -, -, -, hckpt, -, -⟩ := hp.frame
  have hi : (s.threads i).pc ≠ .unborn := hp.moved.1
  constructor
  case fits =>
    intro k
    by_cases hk : k = i
    · subst hk
      exact hp.fits (h.fits k) hout
    · rw [hp.threads k hk]
      exact h.fits k
  case held => exact h.plain_held hp
  case ckptHeld =>
    rw [hckpt]
    exact fun l => (h.plain_ckpt hp l).trans (h.ckptHeld l)
  case marked =>
    rw [hckpt]
    intro hkill k hk
    obtain ⟨hstate, hhandler, hpending⟩ := h.marked hkill k hk
    by_cases hki : k = i
    · subst hki
      exact ⟨hp.signaled (h.fits k) hstate, hp.handler.trans hhandler, hp.pending.trans hpending⟩
    · rw [hp.threads k hki]
      exact ⟨hstate, hhandler, hpending⟩
  case unborn =>
    rw [hnext]
    intro k hk
    have hki : k ≠ i := by
      rintro rfl
      exact hi (by rw [h.unborn k hk]; rfl)
    rw [hp.threads k hki]
    exact h.unborn k hk
  case live =>
    intro k hk
    by_cases hki : k = i
    · subst hki
      rcases hp.list with ⟨hlist, hadd⟩ | ⟨hlist, -, -⟩
      · rw [hlist]
        exact h.live k ((hp.live hk).resolve_right hadd)
      · rw [hlist]
        exact List.mem_cons_self
    · rw [hp.threads k hki] at hk
      rcases hp.list with ⟨hlist, -⟩ | ⟨hlist, -, -⟩
      · rw [hlist]
        exact h.live k hk
      · rw [hlist]
        exact List.mem_cons_of_mem _ (h.live k hk)
  case added =>
    intro k hk
    by_cases hki : k = i
    · subst hki
      exact hp.grown
    · rw [hp.threads k hki]
      rcases hp.list with ⟨hlist, -⟩ | ⟨hlist, -, -⟩
      · exact h.added k (hlist ▸ hk)
      · rw [hlist] at hk
        exact h.added k ((List.mem_cons.mp hk).resolve_left hki)
  case nodup =>
    rcases hp.list with ⟨hlist, -⟩ | ⟨hlist, hadd, -⟩
    · rw [hlist]
      exact h.nodup
    · rw [hlist]
      exact List.nodup_cons.mpr ⟨fun hm => (h.added i hm).2 hadd, h.nodup⟩
  case joined =>
    intro k hk
    have hdead : (s.threads k).pc = .dead := (hp.joined k hk).elim (h.joined k) id
    have hki : k ≠ i := by
      rintro rfl
      exact hp.moved.2 hdead
    rw [hp.threads k hki]
    exact hdead
  case exiting =>
    intro k hk
    by_cases hki : k = i
    · subst hki
      rcases hp.exiting with ⟨hsame, hleaving⟩ | ⟨-, hleaving⟩
      · exact hleaving (h.exiting k (hsame ▸ hk))
      · exact hleaving
    · rw [hp.threads k hki] at hk ⊢
      exact h.exiting k hk
  case creator =>
    intro k hk hne
    have hbefore : (s.threads k).pc.starting = true ∧ (s.threads k).pc ≠ .unborn := by
      by_cases hki : k = i
      · subst hki
        exact ⟨hp.starting hk, hi⟩
      · rw [hp.threads k hki] at hk hne
        exact ⟨hk, hne⟩
    obtain ⟨p, hcreating, htarget⟩ := h.creator k hbefore.1 hbefore.2
    by_cases hpi : p = i
    · subst hpi
      rcases hp.creating hcreating with ⟨hcreating', htarget'⟩ | hembryo
      · exact ⟨p, hcreating', htarget'.trans htarget⟩
      · exact absurd ((h.fits k).starting hbefore.1) (htarget ▸ hembryo)
    · exact ⟨p, by rw [hp.threads p hpi]; exact hcreating, by rw [hp.threads p hpi]; exact htarget⟩

/-- A thread is created. -/
theorem create (h : Regular s) (hpc : (s.threads i).pc = .body)
    (hout : (s.threads i).handler = .out) : Regular (s.create i) := by
  have hi : i < s.next := by
    by_contra hge
    have := h.unborn i (by omega)
    rw [this] at hpc
    cases hpc
  have hne : i ≠ s.next := by omega
  have hself : (s.create i).threads i =
      { s.threads i with pc := .createLock, target := s.next } := by
    show put _ s.next _ i = _
    rw [put_of_ne _ hne, put_self]
  have hnew : (s.create i).threads s.next = .newborn := put_self _ _ _
  have hothers : ∀ k, k ≠ i → k ≠ s.next → (s.create i).threads k = s.threads k := by
    intro k hki hkn
    show put _ s.next _ k = _
    rw [put_of_ne _ hkn, put_of_ne _ hki]
  -- Every thread is the creator, the new one or another one.
  have split : ∀ {P : Nat → UserThread → Prop}, P i { s.threads i with pc := .createLock, target := s.next } →
      P s.next .newborn → (∀ k, k ≠ i → k ≠ s.next → P k (s.threads k)) →
      ∀ k, P k ((s.create i).threads k) := by
    intro P hPi hPn hPk k
    by_cases hki : k = i
    · rw [hki, hself]
      exact hPi
    · by_cases hkn : k = s.next
      · rw [hkn, hnew]
        exact hPn
      · rw [hothers k hki hkn]
        exact hPk k hki hkn
  have hnotSafe : (s.threads i).state = .stUnsafe := (h.fits i).inSection (by simp [hpc, Pc.inSection])
  constructor
  case fits =>
    refine split ?_ ?_ fun k _ _ => h.fits k
    · have hquiet := (h.fits i).not_pending (by simp [hnotSafe])
      exact ⟨nofun, nofun, fun _ => hnotSafe, (h.fits i).handler, by simp [hquiet]⟩
    · exact ⟨fun _ => rfl, nofun, nofun, by simp [HandlerPc.Fits, UserThread.newborn, UserThread.unborn],
        nofun⟩
  case held =>
    intro l
    refine split (P := fun k t => s.lock l = some (.user k) ↔ l ∈ t.held k) ?_ ?_ fun k _ _ => h.held l k
    · rw [h.held l i]
      simp [UserThread.held, hpc]
    · rw [h.held l s.next, h.unborn s.next (Nat.le_refl _)]
      exact Iff.rfl
  case ckptHeld => exact h.ckptHeld
  case marked =>
    intro hkill
    refine split (P := fun k t => s.ckpt.todo.head? = some k →
      t.state = .stSignaled ∧ t.handler = .out ∧ t.pending = false) ?_ ?_ fun k _ _ => h.marked hkill k
    · intro hk
      have := (h.marked hkill i hk).1
      rw [hnotSafe] at this
      cases this
    · intro hk
      have := (h.marked hkill s.next hk).1
      rw [h.unborn s.next (Nat.le_refl _)] at this
      cases this
  case unborn =>
    intro k hk
    have hk : s.next + 1 ≤ k := hk
    rw [hothers k (by omega) (by omega)]
    exact h.unborn k (by omega)
  case live =>
    refine split (P := fun k t => t.pc.live = true → k ∈ s.threadList) ?_ nofun fun k _ _ => h.live k
    exact fun _ => h.live i (by simp [hpc, Pc.live])
  case added =>
    refine split (P := fun k t => k ∈ s.threadList → t.pc ≠ .unborn ∧ t.pc ≠ .addAcquire) ?_ ?_
      fun k _ _ => h.added k
    · exact fun _ => ⟨nofun, nofun⟩
    · intro hk
      have := (h.added s.next hk).1
      rw [h.unborn s.next (Nat.le_refl _)] at this
      exact absurd rfl this
  case nodup => exact h.nodup
  case joined =>
    refine split (P := fun k t => s.joined k = true → t.pc = .dead) ?_ ?_ fun k _ _ => h.joined k
    · intro hk
      have := h.joined i hk
      rw [hpc] at this
      cases this
    · intro hk
      have := h.joined s.next hk
      rw [h.unborn s.next (Nat.le_refl _)] at this
      cases this
  case exiting =>
    refine split (P := fun k t => t.exiting = true → t.pc.leaving = true) ?_ nofun fun k _ _ => h.exiting k
    intro hk
    have := h.exiting i hk
    rw [hpc] at this
    cases this
  case creator =>
    have keep : ∀ {k}, (∃ p, (s.threads p).pc.creating = true ∧ (s.threads p).target = k) →
        ∃ p, ((s.create i).threads p).pc.creating = true ∧ ((s.create i).threads p).target = k := by
      rintro k ⟨p, hcreating, htarget⟩
      have hpi : p ≠ i := by
        rintro rfl
        rw [hpc] at hcreating
        cases hcreating
      have hpn : p ≠ s.next := by
        rintro rfl
        rw [h.unborn s.next (Nat.le_refl _)] at hcreating
        cases hcreating
      exact ⟨p, by rw [hothers p hpi hpn]; exact hcreating, by rw [hothers p hpi hpn]; exact htarget⟩
    refine split (P := fun k t => t.pc.starting = true → t.pc ≠ .unborn →
      ∃ p, ((s.create i).threads p).pc.creating = true ∧ ((s.create i).threads p).target = k)
      nofun ?_ fun k _ _ hk hne => keep (h.creator k hk hne)
    exact fun _ _ => ⟨i, by rw [hself]; rfl, by rw [hself]⟩

/-- A thread changes its state, its flag of the signal or its place in the handler. -/
theorem recode (h : Regular s) (hthreads : ∀ k, k ≠ i → s'.threads k = s.threads k)
    (hcode : (s'.threads i).pc = (s.threads i).pc ∧ (s'.threads i).target = (s.threads i).target ∧
      (s'.threads i).exiting = (s.threads i).exiting)
    (hframe : s'.next = s.next ∧ s'.threadList = s.threadList ∧ s'.joined = s.joined ∧
      s'.lock = s.lock) (hborn : s.threads i ≠ .unborn) (hfits : (s'.threads i).Fits)
    (hheld : ∀ l, l ∈ s'.ckpt.held ↔ l ∈ s.ckpt.held)
    (hmarked : s'.ckpt.pc = .kill → ∀ k, s'.ckpt.todo.head? = some k →
      (s'.threads k).state = .stSignaled ∧ (s'.threads k).handler = .out ∧
        (s'.threads k).pending = false) : Regular s' := by
  obtain ⟨hnext, hlist, hjoined, hlock⟩ := hframe
  have hcodes : ∀ k, (s'.threads k).pc = (s.threads k).pc ∧
      (s'.threads k).target = (s.threads k).target ∧
      (s'.threads k).exiting = (s.threads k).exiting := by
    intro k
    by_cases hki : k = i
    · exact hki ▸ hcode
    · rw [hthreads k hki]
      exact ⟨rfl, rfl, rfl⟩
  constructor
  case fits =>
    intro k
    by_cases hki : k = i
    · exact hki ▸ hfits
    · rw [hthreads k hki]
      exact h.fits k
  case held =>
    intro l k
    have hk : (s'.threads k).held k = (s.threads k).held k := by
      simp only [UserThread.held, (hcodes k).1, (hcodes k).2.1]
    rw [hlock, hk]
    exact h.held l k
  case ckptHeld =>
    rw [hlock]
    exact fun l => (h.ckptHeld l).trans (hheld l).symm
  case marked => exact hmarked
  case unborn =>
    rw [hnext]
    intro k hk
    have hki : k ≠ i := by
      rintro rfl
      exact hborn (h.unborn k hk)
    rw [hthreads k hki]
    exact h.unborn k hk
  case live =>
    rw [hlist]
    exact fun k hk => h.live k (by rwa [(hcodes k).1] at hk)
  case added =>
    rw [hlist]
    intro k hk
    rw [(hcodes k).1]
    exact h.added k hk
  case nodup => exact hlist ▸ h.nodup
  case joined =>
    rw [hjoined]
    intro k hk
    rw [(hcodes k).1]
    exact h.joined k hk
  case exiting =>
    intro k hk
    rw [(hcodes k).2.2] at hk
    rw [(hcodes k).1]
    exact h.exiting k hk
  case creator =>
    intro k hk hne
    rw [(hcodes k).1] at hk hne
    obtain ⟨p, hcreating, ht⟩ := h.creator k hk hne
    exact ⟨p, by rw [(hcodes p).1]; exact hcreating, by rw [(hcodes p).2.1]; exact ht⟩

/-- A thread goes on in the handler. -/
theorem handles (h : Regular s) (hh : Handles s s' i) : Regular s' := by
  obtain ⟨hnext, hlist, hjoined, hlock, -, -, hckpt, -⟩ := hh.frame
  refine h.recode hh.threads hh.code ⟨hnext, hlist, hjoined, hlock⟩ ?_ (hh.fits (h.fits i))
    (fun l => by rw [hckpt]) ?_
  · intro hunborn
    rcases hh.active with hp | hne
    · rw [hunborn] at hp
      cases hp
    · exact hne (by rw [hunborn]; rfl)
  · rw [hckpt]
    intro hkill k hk
    obtain ⟨hstate, hhandler, hpending⟩ := h.marked hkill k hk
    have hki : k ≠ i := by
      rintro rfl
      rcases hh.active with hp | hne
      · rw [hpending] at hp
        cases hp
      · exact hne hhandler
    rw [hh.threads k hki]
    exact ⟨hstate, hhandler, hpending⟩

/-! ### The checkpoint thread -/

/-- What the checkpoint thread takes or gives back changes nothing for the others. -/
theorem user_lock_put {lock : Lock → Option Owner} {l : Lock} {v : Option Owner}
    (hl : lock l = none ∨ lock l = some .ckpt) (hv : v = none ∨ v = some .ckpt) (l' : Lock) (k : Nat) :
    put lock l v l' = some (.user k) ↔ lock l' = some (.user k) := by
  by_cases he : l' = l
  · subst he
    rw [put_self]
    rcases hl with h | h <;> rcases hv with rfl | rfl <;> simp [h]
  · rw [put_of_ne _ he]

/-- The checkpoint thread goes on: it moves its own place and its locks, and a thread that
leaves the list is dead. -/
theorem ckpt (h : Regular s) (hthreads : s'.threads = s.threads) (hnext : s'.next = s.next)
    (hjoined : s'.joined = s.joined)
    (hlist : s'.threadList = s.threadList ∨
      ∃ i, s'.threadList = s.threadList.erase i ∧ (s.threads i).pc = .dead)
    (hlock : ∀ l k, s'.lock l = some (.user k) ↔ s.lock l = some (.user k))
    (hheld : ∀ l, s'.lock l = some .ckpt ↔ l ∈ s'.ckpt.held) (hkill : s'.ckpt.pc ≠ .kill) :
    Regular s' := by
  constructor
  case fits => exact hthreads ▸ h.fits
  case held =>
    intro l k
    rw [hlock, hthreads]
    exact h.held l k
  case ckptHeld => exact hheld
  case marked => exact fun hk => absurd hk hkill
  case unborn => rw [hthreads, hnext]; exact h.unborn
  case live =>
    rw [hthreads]
    intro k hk
    rcases hlist with hl | ⟨i, hl, hdead⟩
    · rw [hl]
      exact h.live k hk
    · rw [hl]
      refine (List.mem_erase_of_ne ?_).mpr (h.live k hk)
      rintro rfl
      rw [hdead] at hk
      cases hk
  case added =>
    rw [hthreads]
    intro k hk
    rcases hlist with hl | ⟨i, hl, -⟩
    · exact h.added k (hl ▸ hk)
    · exact h.added k (List.mem_of_mem_erase (hl ▸ hk))
  case nodup =>
    rcases hlist with hl | ⟨i, hl, -⟩
    · rw [hl]
      exact h.nodup
    · rw [hl]
      exact h.nodup.erase i
  case joined => rw [hthreads, hjoined]; exact h.joined
  case exiting => rw [hthreads]; exact h.exiting
  case creator => rw [hthreads]; exact h.creator

/-- The checkpoint thread goes on without a lock. -/
theorem ckpt_goto (h : Regular s) {c : CkptThread}
    (hs' : s'.threads = s.threads ∧ s'.next = s.next ∧ s'.joined = s.joined ∧ s'.lock = s.lock ∧
      s'.threadList = s.threadList ∧ s'.ckpt = c)
    (hheld : ∀ l, l ∈ c.held ↔ l ∈ s.ckpt.held) (hkill : c.pc ≠ .kill) : Regular s' := by
  obtain ⟨hthreads, hnext, hjoined, hlock, hlist, rfl⟩ := hs'
  refine h.ckpt hthreads hnext hjoined (.inl hlist) (fun l k => by rw [hlock]) (fun l => ?_) hkill
  rw [hlock, h.ckptHeld, hheld]

/-- The checkpoint thread takes a lock. -/
theorem ckpt_acquire (h : Regular s) {c : CkptThread} {m : Lock} (hfree : s.lock m = none)
    (hs' : s'.threads = s.threads ∧ s'.next = s.next ∧ s'.joined = s.joined ∧
      s'.lock = put s.lock m (some .ckpt) ∧ s'.threadList = s.threadList ∧ s'.ckpt = c)
    (hheld : ∀ l, l ∈ c.held ↔ l = m ∨ l ∈ s.ckpt.held) (hkill : c.pc ≠ .kill) : Regular s' := by
  obtain ⟨hthreads, hnext, hjoined, hlock, hlist, rfl⟩ := hs'
  refine h.ckpt hthreads hnext hjoined (.inl hlist) (fun l k => ?_) (fun l => ?_) hkill
  · rw [hlock]
    exact user_lock_put (.inl hfree) (.inr rfl) l k
  · rw [hlock]
    rw [hheld]
    by_cases he : l = m
    · rw [he, put_self]
      exact iff_of_true rfl (.inl rfl)
    · rw [put_of_ne _ he, h.ckptHeld, or_iff_right he]

/-- The checkpoint thread gives a lock back, and may remove a dead thread. -/
theorem ckpt_release (h : Regular s) {c : CkptThread} {m : Lock} (hown : m ∈ s.ckpt.held)
    (hs' : s'.threads = s.threads ∧ s'.next = s.next ∧ s'.joined = s.joined ∧
      s'.lock = put s.lock m none ∧ s'.ckpt = c)
    (hlist : s'.threadList = s.threadList ∨
      ∃ i, s'.threadList = s.threadList.erase i ∧ (s.threads i).pc = .dead)
    (hheld : ∀ l, l ∈ c.held ↔ l ≠ m ∧ l ∈ s.ckpt.held) (hkill : c.pc ≠ .kill) : Regular s' := by
  obtain ⟨hthreads, hnext, hjoined, hlock, rfl⟩ := hs'
  refine h.ckpt hthreads hnext hjoined hlist (fun l k => ?_) (fun l => ?_) hkill
  · rw [hlock]
    exact user_lock_put (.inr ((h.ckptHeld m).mpr hown)) (.inl rfl) l k
  · rw [hlock, hheld]
    by_cases he : l = m
    · rw [he, put_self]
      exact iff_of_false nofun fun hm => hm.1 rfl
    · rw [put_of_ne _ he, h.ckptHeld, and_iff_right he]

/-- A dead thread is removed. -/
theorem ckpt_remove (h : Regular s) {c : CkptThread} (hdead : (s.threads i).pc = .dead)
    (hs' : s'.threads = s.threads ∧ s'.next = s.next ∧ s'.joined = s.joined ∧ s'.lock = s.lock ∧
      s'.threadList = s.threadList.erase i ∧ s'.ckpt = c)
    (hheld : ∀ l, l ∈ c.held ↔ l ∈ s.ckpt.held) (hkill : c.pc ≠ .kill) : Regular s' := by
  obtain ⟨hthreads, hnext, hjoined, hlock, hlist, rfl⟩ := hs'
  refine h.ckpt hthreads hnext hjoined (.inr ⟨i, hlist, hdead⟩) (fun l k => by rw [hlock])
    (fun l => ?_) hkill
  rw [hlock, h.ckptHeld, hheld]

/-- The turn of a thread whose lock the checkpoint thread holds: the thread is not in the
section of its own lock that ends `thread_start`. -/
theorem not_begun (h : Regular s) (hlocked : .thread i ∈ s.ckpt.held) :
    (s.threads i).pc ≠ .startUnlock := by
  intro hpc
  have hown := (h.held (.thread i) i).mpr (by simp [UserThread.held, hpc])
  rw [(h.ckptHeld _).mpr hlocked] at hown
  cases hown

/-- `suspend_threads` marks a thread in `ST_RUNNING`, whose lock it holds. -/
theorem ckpt_mark (h : Regular s) (hpc : s.ckpt.pc = .casRunning)
    (hhead : s.ckpt.todo.head? = some i) (hstate : (s.threads i).state = .stRunning) :
    Regular ((s.set i fun t => { t with state := .stSignaled }).ckptGoto .kill) := by
  have hfits := h.fits i
  have hself : ((s.set i fun t => { t with state := .stSignaled }).ckptGoto .kill).threads i =
      { s.threads i with state := .stSignaled } := put_self _ _ _
  have hquiet := hfits.not_pending (by simp [hstate])
  have hout : (s.threads i).handler = .out := by
    have := hfits.handler
    rw [hstate] at this
    cases hh : (s.threads i).handler <;> rw [hh] at this <;> first | rfl | cases this
  have hlocked : .thread i ∈ s.ckpt.held := by simp [CkptThread.held, CkptPc.held, hpc, hhead]
  refine h.recode (fun k hk => put_of_ne _ hk _) ?_ ⟨rfl, rfl, rfl, rfl⟩ ?_ ?_ ?_ ?_
  · rw [hself]
    exact ⟨rfl, rfl, rfl⟩
  · intro hunborn
    rw [hunborn] at hstate
    cases hstate
  · rw [hself]
    refine ⟨fun hs => ?_, fun hb => absurd hb (h.not_begun hlocked), fun hs => ?_, ?_, by simp [hquiet]⟩
    · have := hfits.starting hs
      rw [hstate] at this
      cases this
    · have := hfits.inSection hs
      rw [hstate] at this
      cases this
    · simp [hout, HandlerPc.Fits]
  · have hheld : s.ckpt.held = CkptPc.held .casRunning s.ckpt.todo.head? := by
      rw [CkptThread.held, hpc]
    rw [hheld]
    exact fun l => Iff.rfl
  · intro _ k hk
    obtain rfl : i = k := Option.some.inj (hhead.symm.trans hk)
    rw [hself]
    exact ⟨rfl, hout, hquiet⟩

/-- The signal is sent. -/
theorem ckpt_send (h : Regular s) (hpc : s.ckpt.pc = .kill) (hhead : s.ckpt.todo.head? = some i) :
    Regular (s.set i fun t => { t with pending := true }).rescanLater := by
  obtain ⟨hstate, hout, -⟩ := h.marked hpc i hhead
  have hfits := h.fits i
  have hself : (s.set i fun t => { t with pending := true }).rescanLater.threads i =
      { s.threads i with pending := true } := put_self _ _ _
  refine h.recode (fun k hk => put_of_ne _ hk _) ?_ ⟨rfl, rfl, rfl, rfl⟩ ?_ ?_ ?_ nofun
  · rw [hself]
    exact ⟨rfl, rfl, rfl⟩
  · intro hunborn
    rw [hunborn] at hstate
    cases hstate
  · rw [hself]
    exact ⟨hfits.starting, hfits.begun, hfits.inSection, hfits.handler, fun _ => ⟨hstate, hout⟩⟩
  · have hheld : s.ckpt.held = CkptPc.held .kill s.ckpt.todo.head? := by
      rw [CkptThread.held, hpc]
    rw [hheld]
    exact fun l => Iff.rfl

theorem scanStep (h : Regular s) (hhead : s.ckpt.todo.head? = some i)
    (hs : s.scanStep i = some s') : Regular s' := by
  have hheld : s.ckpt.held = s.ckpt.pc.held (some i) := by rw [CkptThread.held, hhead]
  unfold Process.scanStep at hs
  simp only at hs
  cases hpc : s.ckpt.pc <;> simp only [hpc] at hs <;> rw [hpc] at hheld
  case foreach =>
    split at hs
    · obtain rfl := Option.some.inj hs
      exact h.ckpt_goto ⟨rfl, rfl, rfl, rfl, rfl, rfl⟩ (by simp [hheld, CkptPc.held]) nofun
    · obtain rfl := Option.some.inj hs
      exact h.ckpt_goto ⟨rfl, rfl, rfl, rfl, rfl, rfl⟩ (by simp [hheld, CkptPc.held]) nofun
  case testJoined =>
    split at hs
    · obtain rfl := Option.some.inj hs
      exact h.ckpt_remove (h.joined i ‹_›) ⟨rfl, rfl, rfl, rfl, rfl, rfl⟩
        (by simp [hheld, CkptPc.held]) nofun
    · obtain rfl := Option.some.inj hs
      exact h.ckpt_goto ⟨rfl, rfl, rfl, rfl, rfl, rfl⟩ (by simp [hheld, CkptPc.held]) nofun
  case lockThread =>
    obtain ⟨hfree, rfl⟩ := guarded_eq_some.mp hs
    exact h.ckpt_acquire hfree ⟨rfl, rfl, rfl, rfl, rfl, rfl⟩
      (by simp [hheld, hhead, CkptPc.held]) nofun
  case testRunning =>
    obtain rfl := Option.some.inj hs
    refine h.ckpt_goto ⟨rfl, rfl, rfl, rfl, rfl, rfl⟩ ?_ ?_
    · split <;> simp [hheld, hhead, CkptPc.held]
    · split <;> exact nofun
  case casRunning =>
    split at hs
    · obtain rfl := Option.some.inj hs
      exact h.ckpt_mark hpc hhead ‹_›
    · obtain rfl := Option.some.inj hs
      exact h.ckpt_goto ⟨rfl, rfl, rfl, rfl, rfl, rfl⟩ (by simp [hheld, hhead, CkptPc.held]) nofun
  case kill =>
    split at hs
    · obtain ⟨-, rfl⟩ := guarded_eq_some.mp hs
      exact h.ckpt_release (m := .thread i) (by simp [hheld, CkptPc.held])
        ⟨rfl, rfl, rfl, rfl, rfl⟩ (.inr ⟨i, rfl, ‹_›⟩)
        (by intro l; cases l <;> simp [hheld, CkptPc.held, Process.dropThread]) nofun
    · obtain rfl := Option.some.inj hs
      exact h.ckpt_send hpc hhead
  case probe =>
    split at hs
    · obtain ⟨-, rfl⟩ := guarded_eq_some.mp hs
      exact h.ckpt_release (m := .thread i) (by simp [hheld, CkptPc.held])
        ⟨rfl, rfl, rfl, rfl, rfl⟩ (.inr ⟨i, rfl, ‹_›⟩)
        (by intro l; cases l <;> simp [hheld, CkptPc.held, Process.dropThread]) nofun
    · obtain rfl := Option.some.inj hs
      exact h.ckpt_goto ⟨rfl, rfl, rfl, rfl, rfl, rfl⟩ (by simp [hheld, hhead, CkptPc.held]) nofun
  case testSignaled =>
    obtain rfl := Option.some.inj hs
    refine h.ckpt_goto ⟨rfl, rfl, rfl, rfl, rfl, rfl⟩ ?_ ?_
    · split <;> simp [hheld, hhead, CkptPc.held]
    · split <;> exact nofun
  case testSuspended | testSuspinprog | testUnsafe | testEmbryo =>
    split at hs
    · obtain rfl := Option.some.inj hs
      exact h.ckpt_goto ⟨rfl, rfl, rfl, rfl, rfl, rfl⟩ (by simp [hheld, hhead, CkptPc.held]) nofun
    · obtain rfl := Option.some.inj hs
      exact h.ckpt_goto ⟨rfl, rfl, rfl, rfl, rfl, rfl⟩ (by simp [hheld, hhead, CkptPc.held]) nofun
  case unlockThread =>
    obtain rfl := Option.some.inj hs
    exact h.ckpt_release (m := .thread i) (by simp [hheld, CkptPc.held])
      ⟨rfl, rfl, rfl, rfl, rfl⟩ (.inl rfl) (by intro l; cases l <;> simp [hheld, CkptPc.held]) nofun
  all_goals cases hs

theorem reapStep (h : Regular s) (hs : s.reapStep i = some s') : Regular s' := by
  unfold Process.reapStep at hs
  simp only at hs
  cases hpc : s.ckpt.pc <;> simp only [hpc] at hs
  case reap =>
    have hheld : s.ckpt.held = [.threadList] := by rw [CkptThread.held, hpc]; rfl
    split at hs
    · obtain rfl := Option.some.inj hs
      exact h.ckpt_remove (h.joined i ‹_›) ⟨rfl, rfl, rfl, rfl, rfl, rfl⟩
        (by simp [hheld, CkptPc.held]) nofun
    · split at hs
      · obtain rfl := Option.some.inj hs
        exact h.ckpt_goto ⟨rfl, rfl, rfl, rfl, rfl, rfl⟩
          (by simp [hheld, CkptPc.held]) nofun
      · obtain ⟨-, rfl⟩ := guarded_eq_some.mp hs
        exact h.ckpt_goto ⟨rfl, rfl, rfl, rfl, rfl, rfl⟩ (by simp [hheld, CkptPc.held]) nofun
  case reapProbe =>
    have hheld : s.ckpt.held = [.threadList] := by rw [CkptThread.held, hpc]; rfl
    split at hs
    · obtain ⟨-, rfl⟩ := guarded_eq_some.mp hs
      exact h.ckpt_remove ‹_› ⟨rfl, rfl, rfl, rfl, rfl, rfl⟩
        (by simp [hheld, CkptPc.held]) nofun
    · obtain rfl := Option.some.inj hs
      exact h.ckpt_goto ⟨rfl, rfl, rfl, rfl, rfl, rfl⟩ (by simp [hheld, CkptPc.held]) nofun
  all_goals cases hs

/-- **A step of the checkpoint thread.** -/
theorem ckptStep (h : Regular s) (hs : s.ckptStep = some s') : Regular s' := by
  have hheld : s.ckpt.held = s.ckpt.pc.held s.ckpt.todo.head? := rfl
  have scan : ∀ {s' : Process}, s.ckpt.todo.head?.bind s.scanStep = some s' → Regular s' := by
    intro s' hs
    obtain ⟨i, hhead, hs⟩ := Option.bind_eq_some_iff.mp hs
    exact h.scanStep hhead hs
  unfold Process.ckptStep at hs
  cases hpc : s.ckpt.pc <;> simp only [hpc] at hs <;> rw [hpc] at hheld
  case wait | suspend | resetArrived | setExpected | checkpoint =>
    obtain rfl := Option.some.inj hs
    exact h.ckpt_goto ⟨rfl, rfl, rfl, rfl, rfl, rfl⟩ (by simp [hheld, CkptPc.held]) nofun
  case again =>
    obtain ⟨hfree, rfl⟩ := guarded_eq_some.mp hs
    exact h.ckpt_acquire hfree ⟨rfl, rfl, rfl, rfl, rfl, rfl⟩ (by simp [hheld, CkptPc.held]) nofun
  case acquire =>
    obtain ⟨hfree, rfl⟩ := guarded_eq_some.mp hs
    exact h.ckpt_acquire hfree ⟨rfl, rfl, rfl, rfl, rfl, rfl⟩
      (by simp [hheld, CkptPc.held]) nofun
  case unlockMtx =>
    obtain rfl := Option.some.inj hs
    exact h.ckpt_release (m := .ckptMtx) (by simp [hheld, CkptPc.held]) ⟨rfl, rfl, rfl, rfl, rfl⟩
      (.inl rfl) (by intro l; cases l <;> simp [hheld, CkptPc.held]) nofun
  case release | reapRelease =>
    obtain rfl := Option.some.inj hs
    refine h.ckpt_release (m := .threadList) (by simp [hheld, CkptPc.held]) ⟨rfl, rfl, rfl, rfl, rfl⟩
      (.inl rfl) ?_ ?_
    · split <;> intro l <;> cases l <;> simp [hheld, CkptPc.held]
    · split <;> exact nofun
  case reapAcquire =>
    obtain ⟨hfree, rfl⟩ := guarded_eq_some.mp hs
    exact h.ckpt_acquire hfree ⟨rfl, rfl, rfl, rfl, rfl, rfl⟩ (by simp [hheld, CkptPc.held]) nofun
  case arrival | arrivalSleep =>
    obtain ⟨-, rfl⟩ := guarded_eq_some.mp hs
    refine h.ckpt_goto ⟨rfl, rfl, rfl, rfl, rfl, rfl⟩ ?_ ?_
    · unfold Process.arrivalTest
      split <;> simp [hheld, CkptPc.held]
    · unfold Process.arrivalTest
      split <;> exact nofun
  case barrierRelease =>
    obtain ⟨-, rfl⟩ := guarded_eq_some.mp hs
    exact h.ckpt_goto ⟨rfl, rfl, rfl, rfl, rfl, rfl⟩ (by simp [hheld, CkptPc.held]) nofun
  case foreach =>
    cases htodo : s.ckpt.todo with
    | nil =>
        rw [htodo] at hs
        obtain rfl := Option.some.inj hs
        exact h.ckpt_goto ⟨rfl, rfl, rfl, rfl, rfl, rfl⟩ (by simp [hheld, CkptPc.held]) nofun
    | cons i todo =>
        rw [htodo] at hs
        exact h.scanStep (by rw [htodo]; rfl) hs
  case reap =>
    cases htodo : s.ckpt.todo with
    | nil =>
        rw [htodo] at hs
        obtain rfl := Option.some.inj hs
        exact h.ckpt_goto ⟨rfl, rfl, rfl, rfl, rfl, rfl⟩ (by simp [hheld, CkptPc.held]) nofun
    | cons i todo =>
        rw [htodo] at hs
        exact h.reapStep hs
  case reapProbe =>
    obtain ⟨i, -, hs⟩ := Option.bind_eq_some_iff.mp hs
    exact h.reapStep hs
  all_goals exact scan hs

/-- **One step.** -/
theorem step (h : Regular s) {t : Turn} (hs : Suspend.step s t = some s') : Regular s' := by
  rcases step_cases hs with ⟨-, hc⟩ | ⟨i, hout, hp | ⟨hpc, rfl⟩⟩ | ⟨i, -, hh⟩ | rfl
  · exact h.ckptStep hc
  · exact h.plain hp hout
  · exact h.create hpc hout
  · exact h.handles hh
  · exact h

end Regular

/-- **Every state is regular.** -/
theorem regular_of_runs {ok : Process → Turn → Prop} {s : Process}
    (h : Machine.Runs step ok .init s) : Regular s :=
  h.invariant (fun _ _ _ hr _ hs => hr.step hs) regular_init

end Xnd.Suspend
