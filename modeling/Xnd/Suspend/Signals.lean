import Xnd.Suspend.Process
import Xnd.Thread.Nesting

/-!
# The signals of the checkpoint thread

One user thread from `thread_start` on, and the checkpoint thread in its rounds.  The user
thread is a stack of what it is in the middle of: wrapped calls and handlers of the program, to
any depth and also on top of `thread_start`, `thread_exit` and `thread_sighandler`, and
`thread_sighandler` itself.  The checkpoint signal is on its way from `pthread_kill` on and may
arrive at any later step, whatever the thread is in the middle of.

What other threads contribute is left open: a pass may be made again, the checkpoint thread may
go on waiting.  The locks are left out, so the two parties meet in more orders than with them.

**Who may move the state** follows from where the signal is (`Invariant`): between the
compare-and-swap of `suspend_threads` and the one that `thread_sighandler` begins with, the
state is `ST_SIGNALED`, and there is one signal, which is about to be sent, on its way, or being
handled.
-/
namespace Xnd.Suspend.Signals
open Thread (ThreadState ThreadInfo XndState Frame Nested)

/-- In `thread_start`: at `thread_list_add`, and at `myself->state = ST_RUNNING`. -/
inductive StartPc where
  | listAdd | run
  deriving DecidableEq, Repr

/-- In `thread_exit`: at `myself->exiting = 1`, and at `pthread_exit`. -/
inductive ExitPc where
  | mark | die
  deriving DecidableEq, Repr

/-- In the first and in the second loop of `thread_barrier`. -/
inductive BarrierPc where
  | held | arrived
  deriving DecidableEq, Repr

/-- What a thread is in the middle of. -/
inductive Place where
  | start (pc : StartPc)
  /-- Code of the program, a wrapped call, or `thread_sighandler`. -/
  | code (f : Frame)
  | barrier (pc : BarrierPc)
  | exit (pc : ExitPc)
  deriving DecidableEq, Repr

/-- The two threads.  `received` is not in the source: the checkpoint signals that arrived
since `suspend_threads` last moved the state. -/
structure Pair where
  self : ThreadInfo
  /-- The innermost on top; none when the thread is gone. -/
  places : List Place
  exiting : Bool
  joined : Bool
  /-- The thread is in `thread_list`. -/
  listed : Bool
  /-- The signals that were sent and did not arrive yet. -/
  pending : Nat
  xndState : XndState
  ckpt : CkptPc
  /-- `rescan`, and `exiting != killed`. -/
  rescan : Bool
  received : Nat
  deriving DecidableEq, Repr

inductive Turn where
  /-- The user thread goes on. -/
  | next
  /-- The program, or the body of a wrapped call, calls a wrapper. -/
  | call
  /-- A signal of the program arrives. -/
  | interrupt
  /-- The program ends the thread. -/
  | exit
  /-- The checkpoint signal arrives. -/
  | deliver
  /-- Another thread joins this one, or fails to. -/
  | join (ok : Bool)
  /-- The checkpoint thread goes on.  `b` is what is left open: whether `pthread_kill`
  succeeds, and whether other threads make it go on scanning or waiting. -/
  | ckpt (b : Bool)
  deriving DecidableEq, Repr

namespace Pair
variable (s : Pair)

/-- A thread that was made by `pthread_create`. -/
def newborn (xndState : XndState) (ckpt : CkptPc) (rescan : Bool) : Pair :=
  ⟨⟨.stEmbryo, 0⟩, [.start .listAdd], false, false, false, 0, xndState, ckpt, rescan, 0⟩

/-- The main thread after `thread_list_init`. -/
def main : Pair :=
  ⟨⟨.stRunning, 0⟩, [.code .user], false, false, true, 0, .xndRunning, .wait, false, 0⟩

/-! ## The user thread -/

/-- `thread_sighandler` calls `thread_barrier` behind the second of its compare-and-swaps. -/
def callee : Frame → List Place
  | .suspinprog => [.barrier .held]
  | _ => []

/-- The next step of what is on top. -/
def next : Option Pair :=
  match s.places with
  | [] => none
  | .start .listAdd :: rest => some { s with places := .start .run :: rest, listed := true }
  | .start .run :: rest =>
      some { s with self := { s.self with state := .stRunning }, places := .code .user :: rest }
  | .code .user :: rest => some { s with places := if rest = [] then [.exit .mark] else rest }
  | .code f :: rest =>
      (Nested.next ⟨s.self, [f]⟩).map fun c =>
        { s with self := c.self, places := callee f ++ c.frames.map .code ++ rest }
  | .barrier .held :: rest =>
      if s.xndState = .xndSuspinprog then some s
      else some { s with places := .barrier .arrived :: rest }
  | .barrier .arrived :: rest =>
      if s.xndState = .xndCkptinprog then some s else some { s with places := rest }
  | .exit .mark :: rest => some { s with places := .exit .die :: rest, exiting := true }
  | .exit .die :: _ => some { s with places := [] }

/-- What `thread_sighandler` does first. -/
def arrive : List Place :=
  if s.self.state = .stCkptThread then s.places else .code .signaled :: s.places

/-! ## The checkpoint thread -/

def goto (pc : CkptPc) : Pair := { s with ckpt := pc }

/-- The thread is gone. -/
def drop (pc : CkptPc) : Pair := { s.goto pc with listed := false }

def rescanLater : Pair := { s.goto .unlockThread with rescan := true }

/-- The next step of the checkpoint thread. -/
def ckptNext (b : Bool) : Option Pair :=
  let state := s.self.state
  match s.ckpt with
  | .wait => some { s.goto .suspend with xndState := .xndCkptPending }
  -- suspend_threads
  | .suspend => some { s.goto .resetArrived with xndState := .xndSuspinprog }
  | .resetArrived => some (s.goto .again)
  | .again => some (s.goto .acquire)
  | .acquire => some { s.goto (if s.listed then .foreach else .unlockMtx) with rescan := false }
  | .foreach => some (s.goto (if s.exiting then .unlockMtx else .testJoined))
  | .testJoined => some (if s.joined then s.drop .unlockMtx else s.goto .lockThread)
  | .lockThread => some (s.goto .testRunning)
  | .testRunning => some (s.goto (if state = .stRunning then .casRunning else .testSignaled))
  | .casRunning =>
      if state = .stRunning then
        some { s.goto .kill with self := Nested.cas s.self .stRunning .stSignaled, received := 0 }
      else some (s.goto .testSignaled)
  | .kill =>
      if s.places = [] then some (s.drop .unlockMtx)
      else some { s.rescanLater with pending := if b then s.pending + 1 else s.pending }
  | .testSignaled => some (s.goto (if state = .stSignaled then .probe else .testSuspended))
  | .probe => some (if s.places = [] then s.drop .unlockMtx else s.rescanLater)
  | .testSuspended =>
      some (s.goto (if state = .stSuspended then .unlockThread else .testSuspinprog))
  | .testSuspinprog =>
      some (s.goto (if state = .stSuspinprog then .unlockThread else .testUnsafe))
  | .testUnsafe => some (if state = .stUnsafe then s.rescanLater else s.goto .testEmbryo)
  | .testEmbryo => some (if state = .stEmbryo then s.rescanLater else s.goto .unlockThread)
  | .unlockThread => some (s.goto .unlockMtx)
  | .unlockMtx => some (s.goto .release)
  | .release => some (s.goto (if s.rescan || b then .again else .setExpected))
  | .setExpected => some (s.goto .reapAcquire)
  -- wait_for_exiting_threads
  | .reapAcquire => some { s.goto (if s.listed then .reap else .reapRelease) with rescan := false }
  | .reap =>
      if s.joined then some (s.drop .reapRelease)
      else if s.exiting then some (s.goto .reapProbe)
      else guarded (state = .stSuspended ∨ state = .stSuspinprog) (s.goto .reapRelease)
  | .reapProbe =>
      some (if s.places = [] then s.drop .reapRelease
        else { s.goto .reapRelease with rescan := true })
  | .reapRelease => some (s.goto (if s.rescan || b then .reapAcquire else .arrival))
  -- barrier_arrival_wait, the checkpoint, barrier_release
  | .arrival => some { s.goto .arrivalSleep with xndState := .xndCkptinprog }
  | .arrivalSleep => some (s.goto (if b then .arrivalSleep else .checkpoint))
  | .checkpoint => some (s.goto .barrierRelease)
  | .barrierRelease => some { s.goto .wait with xndState := .xndRunning }

end Pair

def step : Machine Pair Turn
  | s, .next => s.next
  | s, .call =>
      match s.places with
      | .code .user :: _ | .code .body :: _ => some { s with places := .code .enter :: s.places }
      | _ => none
  | s, .interrupt => guarded (s.places ≠ []) { s with places := .code .user :: s.places }
  | s, .exit =>
      match s.places with
      | .code .user :: _ => some { s with places := .exit .mark :: s.places }
      | _ => none
  | s, .deliver =>
      guarded (0 < s.pending ∧ s.places ≠ [])
        { s with pending := s.pending - 1, received := s.received + 1, places := s.arrive }
  | s, .join ok => guarded (s.exiting = true ∧ (ok = true → s.places = [])) { s with joined := ok }
  | s, .ckpt b => s.ckptNext b

/-- The checkpoint thread is at the turn of a thread. -/
def InTurn (pc : CkptPc) : Prop :=
  pc = .foreach ∨ pc = .testJoined ∨ pc = .lockThread ∨ pc = .testRunning ∨ pc = .casRunning ∨
    pc = .kill ∨ pc = .testSignaled ∨ pc = .probe ∨ pc = .testSuspended ∨ pc = .testSuspinprog ∨
    pc = .testUnsafe ∨ pc = .testEmbryo ∨ pc = .unlockThread ∨ pc = .reap ∨ pc = .reapProbe

/-- **Any interleaving.**  A thread may be made while the checkpoint thread is anywhere, but not
in the thread's own turn. -/
def Reached (s : Pair) : Prop :=
  ∃ s₀, (s₀ = .main ∨ ∃ xndState pc rescan, ¬ InTurn pc ∧ s₀ = .newborn xndState pc rescan) ∧
    Machine.Runs step (fun _ _ => True) s₀ s

/-- The ways of the state. -/
inductive Edge : ThreadState → ThreadState → Prop where
  | started : Edge .stEmbryo .stRunning
  | enter : Edge .stRunning .stUnsafe
  | exit : Edge .stUnsafe .stRunning
  | signaled : Edge .stRunning .stSignaled
  | suspinprog : Edge .stSignaled .stSuspinprog
  | suspended : Edge .stSuspinprog .stSuspended
  | resumed : Edge .stSuspended .stRunning

/-- What the compare-and-swaps of `thread_sighandler` expect. -/
def asserted : Frame → Option ThreadState
  | .signaled => some .stSignaled
  | .suspinprog => some .stSuspinprog
  | .suspended => some .stSuspended
  | _ => none

/-! ## Where the signal is -/

/-- The compare-and-swap a place is at. -/
def Place.active : Place → Option Frame
  | .code f => if (asserted f).isSome then some f else none
  | _ => none

def Place.isStart : Place → Bool
  | .start _ => true
  | _ => false

section Simp
variable (pc : StartPc) (bpc : BarrierPc) (epc : ExitPc) (f : Frame)

@[simp] theorem active_start : Place.active (.start pc) = none := rfl
@[simp] theorem active_barrier : Place.active (.barrier bpc) = none := rfl
@[simp] theorem active_exit : Place.active (.exit epc) = none := rfl
@[simp] theorem isStart_start : Place.isStart (.start pc) = true := rfl
@[simp] theorem isStart_code : Place.isStart (.code f) = false := rfl
@[simp] theorem isStart_barrier : Place.isStart (.barrier bpc) = false := rfl
@[simp] theorem isStart_exit : Place.isStart (.exit epc) = false := rfl

end Simp

/-- Where `thread_sighandler` is in a state. -/
def handling : ThreadState → List Frame
  | .stSignaled => [.signaled]
  | .stSuspinprog => [.suspinprog]
  | .stSuspended => [.suspended]
  | _ => []

namespace Pair
variable (s : Pair)

def active : List Frame := s.places.filterMap Place.active

def starts : Nat := s.places.countP Place.isStart

/-- The signals that are about to be sent or on their way. -/
def inFlight : Nat := s.pending + if s.ckpt = .kill then 1 else 0

end Pair

/-- **The invariant.**  A thread may also have ended in a handler on top of `thread_sighandler`,
so that nothing is left of the latter. -/
structure Invariant (s : Pair) : Prop where
  active : s.active.Sublist (handling s.self.state)
  arrived : s.active.length ≤ s.received
  once : s.received + s.inFlight ≤ 1
  signaled : s.inFlight ≠ 0 → s.self.state = .stSignaled
  start : s.starts ≤ 1
  embryo : s.starts ≠ 0 → s.self.state = .stEmbryo
  user : s.self.state ≠ .stCkptThread

theorem invariant_main : Invariant .main := by
  refine ⟨List.Sublist.refl _, ?_, ?_, ?_, ?_, ?_, ?_⟩ <;> simp [Pair.main, Pair.active,
    Pair.inFlight, Pair.starts, Place.active, asserted]

theorem invariant_newborn (xndState : XndState) {pc : CkptPc} (rescan : Bool) (hpc : ¬ InTurn pc) :
    Invariant (.newborn xndState pc rescan) := by
  have hkill : pc ≠ .kill := fun h => hpc (by simp [h, InTurn])
  refine ⟨List.Sublist.refl _, ?_, ?_, ?_, ?_, ?_, ?_⟩ <;> simp [Pair.newborn, Pair.active,
    Pair.inFlight, Pair.starts, Place.active, hkill]

namespace Invariant
variable {s s' : Pair} {f : Frame} {rest : List Place} {e : ThreadState} (h : Invariant s)
include h

/-- The state stays, and there is not more going on than before. -/
theorem quiet (hstate : s'.self.state = s.self.state) (hactive : s'.active.Sublist s.active)
    (hstarts : s'.starts ≤ s.starts) (hreceived : s'.received = s.received)
    (hflight : s'.inFlight ≤ s.inFlight) : Invariant s' where
  active := hstate ▸ hactive.trans h.active
  arrived := by
    have := h.arrived
    have := hactive.length_le
    omega
  once := by
    have := h.once
    omega
  signaled hne := hstate ▸ h.signaled (by omega)
  start := hstarts.trans h.start
  embryo hne := hstate ▸ h.embryo (by omega)
  user := hstate ▸ h.user

/-- The state moves between two in which no signal is about. -/
theorem calm (hcalm : handling s.self.state = []) (hcalm' : handling s'.self.state = [])
    (hactive : s'.active.Sublist s.active) (hstarts : s'.starts = 0)
    (hreceived : s'.received = s.received) (hflight : s'.inFlight = s.inFlight)
    (huser : s'.self.state ≠ .stCkptThread) : Invariant s' where
  active := hcalm' ▸ hcalm ▸ hactive.trans h.active
  arrived := by
    have := h.arrived
    have := hactive.length_le
    omega
  once := by
    have := h.once
    omega
  signaled hne := by
    rw [h.signaled (hflight ▸ hne)] at hcalm
    cases hcalm
  start := by omega
  embryo hne := absurd hstarts hne
  user := huser

/-- A compare-and-swap of `thread_sighandler` finds the state that it expects. -/
theorem expected (hplaces : s.places = .code f :: rest) (hf : asserted f = some e) :
    s.self.state = e := by
  have hmem : f ∈ handling s.self.state :=
    h.active.subset (by simp [Pair.active, hplaces, Place.active, hf])
  revert hmem hf
  cases f <;> cases s.self.state <;> simp [handling, asserted]

/-- While one is open there is no other, and no signal about. -/
theorem alone (hplaces : s.places = .code f :: rest) (hf : asserted f = some e) :
    rest.filterMap Place.active = [] ∧ rest.countP Place.isStart = 0 ∧ s.received = 1 ∧
      s.inFlight = 0 := by
  have hstate := h.expected hplaces hf
  have hactive : s.active = f :: rest.filterMap Place.active := by
    simp [Pair.active, hplaces, Place.active, hf]
  have hstarts : s.starts = rest.countP Place.isStart := by
    simp [Pair.starts, hplaces]
  have hlen : (handling s.self.state).length ≤ 1 := by
    cases s.self.state <;> simp [handling]
  have hle := h.active.length_le
  have harrived := h.arrived
  have honce := h.once
  rw [hactive, List.length_cons] at hle harrived
  refine ⟨List.length_eq_zero_iff.mp (by omega), ?_, by omega, by omega⟩
  by_contra hne
  have hembryo := h.embryo (hstarts ▸ hne)
  rw [hstate] at hembryo
  subst hembryo
  revert hf
  cases f <;> simp [asserted]

/-- A compare-and-swap of `thread_sighandler`. -/
theorem swapped (hplaces : s.places = .code f :: rest) (hf : asserted f = some e)
    (hactive : s'.active = handling s'.self.state) (hstarts : s'.starts = 0)
    (hreceived : s'.received = s.received) (hflight : s'.inFlight = s.inFlight)
    (huser : s'.self.state ≠ .stCkptThread) : Invariant s' := by
  obtain ⟨-, -, hone, hnone⟩ := h.alone hplaces hf
  refine ⟨hactive ▸ List.Sublist.refl _, ?_, by omega, fun hne => absurd hnone (hflight ▸ hne),
    by omega, fun hne => absurd hstarts hne, huser⟩
  rw [hactive, hreceived, hone]
  cases s'.self.state <;> simp [handling]

end Invariant

/-! ## One step -/

section Step
variable {s s' : Pair} {f : Frame} {rest : List Place} {e : ThreadState}

/-- What a wrapped call does to the state, and to what the thread is in the middle of. -/
theorem next_call {self : ThreadInfo} {c : Nested} (hf : asserted f = none)
    (hnext : Nested.next ⟨self, [f]⟩ = some c) :
    (c.frames.map Place.code).filterMap Place.active = [] ∧
      (c.frames.map Place.code).countP Place.isStart = 0 ∧
      (c.self.state = self.state ∨ self.state = .stRunning ∧ c.self.state = .stUnsafe ∨
        self.state = .stUnsafe ∧ c.self.state = .stRunning) := by
  obtain ⟨state, depth⟩ := self
  cases f with
  | user => cases hnext
  | enter =>
      simp only [Nested.next] at hnext
      split at hnext <;> obtain rfl := Option.some.inj hnext
      · simp [Place.active, asserted]
      · by_cases hdepth : depth = 0#32 <;> simp [Place.active, asserted, hdepth]
  | claim =>
      simp only [Nested.next] at hnext
      split at hnext <;> obtain rfl := Option.some.inj hnext
      next hrunning =>
        obtain rfl : state = .stRunning := hrunning
        simp [Place.active, asserted, Nested.cas]
      next => simp [Place.active, asserted]
  | body =>
      obtain rfl := Option.some.inj hnext
      simp [Place.active, asserted]
  | leave =>
      simp only [Nested.next] at hnext
      split at hnext <;> obtain rfl := Option.some.inj hnext
      · simp
      · split <;> simp [Place.active, asserted]
  | unclaim =>
      obtain rfl := Option.some.inj hnext
      by_cases hunsafe : state = .stUnsafe <;> simp [Nested.cas, hunsafe]
  | signaled => cases hf
  | suspinprog => cases hf
  | suspended => cases hf

/-- What one of the two threads may do to the state. -/
def Moves (s s' : Pair) : Prop :=
  Invariant s' ∧ (s'.self.state = s.self.state ∨ Edge s.self.state s'.self.state)

/-- The state stays, and there is not more going on than before. -/
theorem Invariant.stay (h : Invariant s) (hstate : s'.self.state = s.self.state)
    (hactive : s'.active.Sublist s.active) (hstarts : s'.starts ≤ s.starts)
    (hreceived : s'.received = s.received) (hflight : s'.inFlight ≤ s.inFlight) : Moves s s' :=
  ⟨h.quiet hstate hactive hstarts hreceived hflight, .inl hstate⟩

/-- The checkpoint thread goes on, and neither moves the state nor sends anything. -/
theorem Invariant.stroll (h : Invariant s) (hself : s'.self = s.self) (hplaces : s'.places = s.places)
    (hpending : s'.pending = s.pending) (hreceived : s'.received = s.received)
    (hckpt : s'.ckpt ≠ .kill) : Moves s s' := by
  refine h.stay (congrArg _ hself) ?_ ?_ hreceived ?_
  · rw [Pair.active, Pair.active, hplaces]
  · rw [Pair.starts, Pair.starts, hplaces]
  · rw [Pair.inFlight, Pair.inFlight, hpending, if_neg hckpt]
    omega

/-- A place that is put on top, and is no compare-and-swap. -/
theorem Invariant.push (h : Invariant s) (p : Place) (hactive : p.active = none)
    (hstart : p.isStart = false) : Moves s { s with places := p :: s.places } :=
  h.stay rfl (by simp [Pair.active, hactive]) (by simp [Pair.starts, hstart]) rfl le_rfl

/-- A step of a wrapped call. -/
theorem Invariant.call (h : Invariant s) (hplaces : s.places = .code f :: rest)
    (hf : asserted f = none) (hcallee : Pair.callee f = []) {c : Nested}
    (hnext : Nested.next ⟨s.self, [f]⟩ = some c) :
    Moves s { s with self := c.self, places := Pair.callee f ++ c.frames.map .code ++ rest } := by
  obtain ⟨hactive, hstarts, hstate⟩ := next_call hf hnext
  have hactive' : ({ s with
      self := c.self, places := Pair.callee f ++ c.frames.map .code ++ rest } : Pair).active =
        s.active := by
    simp [Pair.active, hcallee, hactive, hplaces, Place.active, hf]
  have hstarts' : ({ s with
      self := c.self, places := Pair.callee f ++ c.frames.map .code ++ rest } : Pair).starts =
        s.starts := by
    simp [Pair.starts, hcallee, hstarts, hplaces]
  have hawake : s.self.state ≠ .stEmbryo → s.starts = 0 := fun hne => by
    by_contra hstart
    exact hne (h.embryo hstart)
  obtain hsame | ⟨hold, hnew⟩ | ⟨hold, hnew⟩ := hstate
  · exact h.stay hsame (by rw [hactive']) (by rw [hstarts']) rfl le_rfl
  · refine ⟨h.calm (by rw [hold]; rfl) (by rw [hnew]; rfl) (by rw [hactive'])
      (by rw [hstarts']; exact hawake (by simp [hold])) rfl rfl (by simp [hnew]), .inr ?_⟩
    rw [hold, hnew]
    exact .enter
  · refine ⟨h.calm (by rw [hold]; rfl) (by rw [hnew]; rfl) (by rw [hactive'])
      (by rw [hstarts']; exact hawake (by simp [hold])) rfl rfl (by simp [hnew]), .inr ?_⟩
    rw [hold, hnew]
    exact .exit

/-- What a compare-and-swap of `thread_sighandler` that succeeds does to the state, and to what
the thread is in the middle of. -/
theorem next_handler {self : ThreadInfo} {c : Nested} (hf : asserted f = some e)
    (hstate : self.state = e) (hnext : Nested.next ⟨self, [f]⟩ = some c) :
    (Pair.callee f ++ c.frames.map Place.code).filterMap Place.active = handling c.self.state ∧
      (Pair.callee f ++ c.frames.map Place.code).countP Place.isStart = 0 ∧
      Edge e c.self.state := by
  cases f with
  | signaled =>
      obtain rfl := Option.some.inj hf
      simp only [Nested.next, hstate, if_true] at hnext
      obtain rfl := Option.some.inj hnext
      simp [Pair.callee, Nested.cas, hstate, handling, Place.active, asserted, Edge.suspinprog]
  | suspinprog =>
      obtain rfl := Option.some.inj hf
      simp only [Nested.next, hstate, if_true] at hnext
      obtain rfl := Option.some.inj hnext
      simp [Pair.callee, List.filterMap_cons, Nested.cas, hstate, handling, Place.active, asserted,
        Edge.suspended]
  | suspended =>
      obtain rfl := Option.some.inj hf
      simp only [Nested.next, hstate, if_true] at hnext
      obtain rfl := Option.some.inj hnext
      simp [Pair.callee, Nested.cas, hstate, handling, Edge.resumed]
  | user | enter | claim | body | leave | unclaim => cases hf

/-- A compare-and-swap of `thread_sighandler`, and the way on to the next. -/
theorem Invariant.handler (h : Invariant s) (hplaces : s.places = .code f :: rest)
    (hf : asserted f = some e) {c : Nested} (hnext : Nested.next ⟨s.self, [f]⟩ = some c) :
    Moves s { s with self := c.self, places := Pair.callee f ++ c.frames.map .code ++ rest } := by
  have hstate := h.expected hplaces hf
  obtain ⟨hrest, hstart, -, -⟩ := h.alone hplaces hf
  obtain ⟨hactive, hstarts, hedge⟩ := next_handler hf hstate hnext
  have huser : c.self.state ≠ .stCkptThread := fun hckpt => by
    rw [hckpt] at hedge
    cases hedge
  refine ⟨h.swapped hplaces hf ?_ ?_ rfl rfl huser, .inr ?_⟩
  · rw [Pair.active, List.filterMap_append, hactive, hrest, List.append_nil]
  · rw [Pair.starts, List.countP_append, hstarts, hstart]
  · rw [hstate]
    exact hedge

/-- **The user thread.** -/
theorem Invariant.next (h : Invariant s) (hnext : s.next = some s') : Moves s s' := by
  unfold Pair.next at hnext
  split at hnext
  next => cases hnext
  next rest hplaces =>
    obtain rfl := Option.some.inj hnext
    exact h.stay rfl (by simp [Pair.active, List.filterMap_cons, hplaces, Place.active])
      (by simp [Pair.starts, List.countP_cons, hplaces]) rfl le_rfl
  next rest hplaces =>
    obtain rfl := Option.some.inj hnext
    have hstarts : s.starts = rest.countP Place.isStart + 1 := by
      simp [Pair.starts, List.countP_cons, hplaces]
    have hstate := h.embryo (by omega)
    have hone := h.start
    refine ⟨h.calm (by rw [hstate]; rfl) rfl ?_ ?_ rfl rfl (by simp), .inr ?_⟩
    · simp [Pair.active, List.filterMap_cons, hplaces, Place.active, asserted]
    · have hnone : rest.countP Place.isStart = 0 := by omega
      simpa [Pair.starts] using hnone
    · rw [hstate]
      exact .started
  next rest hplaces =>
    obtain rfl := Option.some.inj hnext
    refine h.stay rfl ?_ ?_ rfl le_rfl
    · by_cases hrest : rest = [] <;> simp [Pair.active, List.filterMap_cons, hplaces, Place.active, asserted, hrest]
    · by_cases hrest : rest = [] <;> simp [Pair.starts, hplaces, hrest]
  next f rest hnotUser hplaces =>
    obtain ⟨c, hc, rfl⟩ := Option.map_eq_some_iff.mp hnext
    cases hf : asserted f with
    | none => exact h.call hplaces hf (by cases f <;> first | rfl | cases hf) hc
    | some e => exact h.handler hplaces hf hc
  next rest hplaces =>
    split at hnext <;> obtain rfl := Option.some.inj hnext
    · exact h.stay rfl (List.Sublist.refl _) le_rfl rfl le_rfl
    · exact h.stay rfl (by simp [Pair.active, List.filterMap_cons, hplaces, Place.active])
        (by simp [Pair.starts, hplaces]) rfl le_rfl
  next rest hplaces =>
    split at hnext <;> obtain rfl := Option.some.inj hnext
    · exact h.stay rfl (List.Sublist.refl _) le_rfl rfl le_rfl
    · exact h.stay rfl (by simp [Pair.active, List.filterMap_cons, hplaces, Place.active])
        (by simp [Pair.starts, hplaces]) rfl le_rfl
  next rest hplaces =>
    obtain rfl := Option.some.inj hnext
    exact h.stay rfl (by simp [Pair.active, List.filterMap_cons, hplaces, Place.active])
      (by simp [Pair.starts, hplaces]) rfl le_rfl
  next rest hplaces =>
    obtain rfl := Option.some.inj hnext
    exact h.stay rfl (by simp [Pair.active]) (by simp [Pair.starts]) rfl le_rfl

/-- **The signal arrives.** -/
theorem Invariant.deliver (h : Invariant s) (hpending : 0 < s.pending) :
    Moves s { s with
      pending := s.pending - 1, received := s.received + 1, places := s.arrive } := by
  have honce := h.once
  have hflight : s.inFlight = s.pending + if s.ckpt = .kill then 1 else 0 := rfl
  have hstate : s.self.state = .stSignaled := h.signaled (by omega)
  have harrived := h.arrived
  have hnone : s.active = [] := List.length_eq_zero_iff.mp (by omega)
  have harrive : s.arrive = .code .signaled :: s.places := if_neg (by simp [hstate])
  have hactive : ({ s with
      pending := s.pending - 1, received := s.received + 1, places := s.arrive } : Pair).active =
        [.signaled] := by
    show s.arrive.filterMap Place.active = _
    rw [harrive]
    exact congrArg (Frame.signaled :: ·) hnone
  have hstarts : ({ s with
      pending := s.pending - 1, received := s.received + 1, places := s.arrive } : Pair).starts =
        s.starts := by
    simp [Pair.starts, harrive]
  refine ⟨⟨?_, ?_, ?_, fun _ => hstate, hstarts ▸ h.start, hstarts ▸ h.embryo, h.user⟩, .inl rfl⟩
  · rw [hactive, hstate]
    exact List.Sublist.refl _
  · rw [hactive]
    exact Nat.le_add_left ..
  · show s.received + 1 + (s.pending - 1 + if s.ckpt = .kill then 1 else 0) ≤ 1
    omega

/-- **`suspend_threads` moves the state.** -/
theorem Invariant.mark (h : Invariant s) (hrunning : s.self.state = .stRunning) :
    Moves s { s.goto .kill with
      self := Nested.cas s.self .stRunning .stSignaled, received := 0 } := by
  have hself : (Nested.cas s.self .stRunning .stSignaled).state = .stSignaled := by
    simp [Nested.cas, hrunning]
  have hnone : s.inFlight = 0 := by
    by_contra hne
    cases (h.signaled hne).symm.trans hrunning
  have hactive : s.active = [] := by
    have := h.active
    rw [hrunning] at this
    exact List.sublist_nil.mp this
  have hpending : s.pending = 0 := Nat.eq_zero_of_add_eq_zero_right hnone
  refine ⟨⟨?_, ?_, ?_, fun _ => hself, h.start, fun hne => ?_, by simp [hself]⟩, .inr ?_⟩
  · exact (show s.active = [] from hactive) ▸ List.nil_sublist _
  · exact Nat.le_of_eq (congrArg List.length hactive)
  · simp [Pair.inFlight, Pair.goto, hpending]
  · cases (h.embryo hne).symm.trans hrunning
  · rw [hrunning, hself]
    exact .signaled

/-- **The checkpoint thread.** -/
theorem Invariant.ckptNext {b : Bool} (h : Invariant s) (hnext : s.ckptNext b = some s') :
    Moves s s' := by
  unfold Pair.ckptNext at hnext
  cases hckpt : s.ckpt with
  | casRunning =>
      simp only [hckpt] at hnext
      split at hnext <;> obtain rfl := Option.some.inj hnext
      · exact h.mark ‹_›
      · exact h.stroll rfl rfl rfl rfl (by simp [Pair.goto])
  | kill =>
      simp only [hckpt] at hnext
      have hflight : s.inFlight = s.pending + 1 := by simp [Pair.inFlight, hckpt]
      split at hnext <;> obtain rfl := Option.some.inj hnext
      · exact h.stroll rfl rfl rfl rfl (by simp [Pair.drop, Pair.goto])
      · -- the signal that was about to be sent is on its way
        refine h.stay rfl (List.Sublist.refl _) le_rfl rfl ?_
        rw [hflight]
        cases b <;> simp [Pair.inFlight, Pair.rescanLater, Pair.goto]
  | reap =>
      simp only [hckpt] at hnext
      split at hnext
      · obtain rfl := Option.some.inj hnext
        exact h.stroll rfl rfl rfl rfl (by simp [Pair.drop, Pair.goto])
      · split at hnext
        · obtain rfl := Option.some.inj hnext
          exact h.stroll rfl rfl rfl rfl (by simp [Pair.goto])
        · obtain ⟨-, rfl⟩ := guarded_eq_some.mp hnext
          exact h.stroll rfl rfl rfl rfl (by simp [Pair.goto])
  | testJoined | probe | testUnsafe | testEmbryo | reapProbe =>
      simp only [hckpt, Option.some.injEq] at hnext
      subst hnext
      split
      · exact h.stroll rfl rfl rfl rfl (by simp [Pair.drop, Pair.rescanLater, Pair.goto])
      · exact h.stroll rfl rfl rfl rfl (by simp [Pair.rescanLater, Pair.goto])
  | acquire | foreach | testRunning | testSignaled | testSuspended | testSuspinprog | release
  | reapAcquire | reapRelease | arrivalSleep =>
      simp only [hckpt, Option.some.injEq] at hnext
      subst hnext
      exact h.stroll rfl rfl rfl rfl (by simp only [Pair.goto]; split <;> simp)
  | wait | suspend | resetArrived | again | lockThread | unlockThread | unlockMtx | setExpected
  | arrival | checkpoint | barrierRelease =>
      simp only [hckpt, Option.some.injEq] at hnext
      subst hnext
      exact h.stroll rfl rfl rfl rfl (by simp [Pair.goto])

/-- **One step.** -/
theorem Invariant.step {a : Turn} (h : Invariant s) (hstep : step s a = some s') : Moves s s' := by
  cases a with
  | next => exact h.next hstep
  | call =>
      rw [Signals.step] at hstep
      split at hstep
      · obtain rfl := Option.some.inj hstep
        exact h.push _ rfl rfl
      · obtain rfl := Option.some.inj hstep
        exact h.push _ rfl rfl
      · cases hstep
  | interrupt =>
      obtain ⟨-, rfl⟩ := guarded_eq_some.mp hstep
      exact h.push _ rfl rfl
  | exit =>
      rw [Signals.step] at hstep
      split at hstep
      · obtain rfl := Option.some.inj hstep
        exact h.push _ rfl rfl
      · cases hstep
  | deliver =>
      obtain ⟨⟨hpending, -⟩, rfl⟩ := guarded_eq_some.mp hstep
      exact h.deliver hpending
  | join ok =>
      obtain ⟨-, rfl⟩ := guarded_eq_some.mp hstep
      exact h.stay rfl (List.Sublist.refl _) le_rfl rfl le_rfl
  | ckpt b => exact h.ckptNext hstep

/-- **Any number of steps.** -/
theorem invariant_of_reached (hs : Reached s) : Invariant s := by
  obtain ⟨s₀, hstart, hruns⟩ := hs
  refine hruns.invariant (fun _ _ _ h _ hstep => (h.step hstep).1) ?_
  obtain rfl | ⟨xndState, pc, rescan, hpc, rfl⟩ := hstart
  · exact invariant_main
  · exact invariant_newborn xndState rescan hpc

end Step

/-- **The signals of the checkpoint thread.**  The state goes its ways only, of one suspension
there is one signal at most, none arrives outside of one, and the compare-and-swaps of
`thread_sighandler` find what they expect. -/
theorem suspensions_in_order {s : Pair} (hs : Reached s) :
    (∀ a s', step s a = some s' →
      s'.self.state = s.self.state ∨ Edge s.self.state s'.self.state) ∧
    s.received + s.pending ≤ 1 ∧ (s.pending ≠ 0 → s.self.state = .stSignaled) ∧
    ∀ f rest e, s.places = .code f :: rest → asserted f = some e →
      s.self.state = e ∧ s.next ≠ none := by
  have h := invariant_of_reached hs
  have honce := h.once
  have hflight : s.pending ≤ s.inFlight := Nat.le_add_right ..
  refine ⟨fun a s' hstep => (h.step hstep).2, by omega, fun hne => h.signaled (by omega),
    fun f rest e hplaces hf => ?_⟩
  have hstate := h.expected hplaces hf
  refine ⟨hstate, ?_⟩
  cases f with
  | signaled | suspinprog | suspended =>
      obtain rfl := Option.some.inj hf
      simp [Pair.next, hplaces, Nested.next, hstate]
  | user | enter | claim | body | leave | unclaim => cases hf

/-- A signal that arrives in the loop of `unsafe_enter`. -/
theorem suspensions_in_order_call : ∃ s, Reached s ∧
    (s.self.state = .stSuspinprog ∧ s.places = [.code .suspinprog, .code .claim, .code .user]) ∧
      s.received + s.pending ≤ 1 ∧ s.next ≠ none := by
  obtain ⟨s, hs, hend⟩ := Machine.exists_runs step (fun _ _ => True) .main
    (fun s => decide (s.self.state = .stSuspinprog ∧
      s.places = [.code .suspinprog, .code .claim, .code .user]))
    (List.replicate 11 (.ckpt true) ++ [.call, .next, .deliver, .next])
    (by decide +kernel)
  have hend := of_decide_eq_true hend
  have hreached : Reached s := ⟨.main, .inl rfl, hs⟩
  have hall := suspensions_in_order hreached
  exact ⟨s, hreached, hend, hall.2.1, (hall.2.2.2 _ _ _ hend.2 rfl).2⟩

end Xnd.Suspend.Signals
