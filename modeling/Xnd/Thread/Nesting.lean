import Xnd.Lib.Machine
import Xnd.Thread.Info

/-!
# Wrapped calls under signals

The two ends of the unsafe section are not atomic: `unsafe_enter` first counts
`wrapper_depth` up and then moves the state, `unsafe_exit` first counts it down.  A
signal handler of the program may run between the two and make wrapped calls of its
own, to any depth.

A thread is here its descriptor with the stack of what it is in the middle of, the
innermost on top.  `step` takes the next step of the top of the stack, begins a
wrapped call, or lets something arrive: a signal of the program, the mark of the
checkpoint thread, the checkpoint signal.

Between the two updates of one end, the thread is at the `window` of a frame.  A call
that is begun there finds the counter moved and the state not yet, and does the wrong
thing in both windows; `InOrder` is what holds as long as none is.
-/
namespace Xnd.Thread

/-- What a thread is in the middle of. -/
inductive Frame where
  /-- Code of the program, or of a signal handler of the program. -/
  | user
  /-- At the `wrapper_depth++` of `unsafe_enter`. -/
  | enter
  /-- In the loop of `unsafe_enter`. -/
  | claim
  /-- In the body of a wrapped call. -/
  | body
  /-- At the `--wrapper_depth` of `unsafe_exit`. -/
  | leave
  /-- At the `thread_state_cas` of `unsafe_exit`. -/
  | unclaim
  /-- At the three `thread_state_cas` of `thread_sighandler`. -/
  | signaled | suspinprog | suspended
  deriving DecidableEq, Repr

namespace Frame

/-- The frames of a wrapped call. -/
def isCall (f : Frame) : Bool := f matches enter | claim | body | leave | unclaim

/-- The frames that `wrapper_depth` counts. -/
def counted (f : Frame) : Bool := f matches claim | body | leave

/-- The frames that `ST_UNSAFE` stands for. -/
def held (f : Frame) : Bool := f matches body | leave | unclaim

/-- Between the two updates of one end. -/
def window (f : Frame) : Bool := f matches claim | unclaim

end Frame

/-- A thread with the stack of its frames. -/
structure Nested where
  self : ThreadInfo
  frames : List Frame
  deriving DecidableEq, Repr

/-- What happens next. -/
inductive Turn where
  /-- The innermost frame takes a step. -/
  | next
  /-- The program, or the body of a wrapped call, calls a wrapper. -/
  | call
  /-- A signal of the program arrives. -/
  | interrupt
  /-- `suspend_threads` moves the state and sends the checkpoint signal. -/
  | mark
  /-- The checkpoint signal arrives. -/
  | deliver
  deriving DecidableEq, Repr

namespace Nested

/-- A thread that begins to run code of the program. -/
def start : Nested := ⟨⟨.stRunning, 0⟩, [.user]⟩

/-- `thread_state_cas`. -/
def cas (self : ThreadInfo) (expected desired : ThreadState) : ThreadInfo :=
  if self.state = expected then { self with state := desired } else self

/-- The next step of the innermost frame.  A failed assertion of `thread_sighandler`
ends the process. -/
def next (c : Nested) : Option Nested :=
  match c.frames with
  | .enter :: rest =>
      if c.self.isExempt then some ⟨c.self, .body :: rest⟩
      else some ⟨{ c.self with wrapperDepth := c.self.wrapperDepth + 1 },
        (if c.self.wrapperDepth = 0 then .claim else .body) :: rest⟩
  | .claim :: rest =>
      if c.self.state = .stRunning then some ⟨cas c.self .stRunning .stUnsafe, .body :: rest⟩
      else some c
  | .body :: rest => some ⟨c.self, .leave :: rest⟩
  | .leave :: rest =>
      if c.self.isExempt then some ⟨c.self, rest⟩
      else some ⟨{ c.self with wrapperDepth := c.self.wrapperDepth - 1 },
        if c.self.wrapperDepth - 1 = 0 then .unclaim :: rest else rest⟩
  | .unclaim :: rest => some ⟨cas c.self .stUnsafe .stRunning, rest⟩
  | .user :: f :: rest => some ⟨c.self, f :: rest⟩
  | .signaled :: rest =>
      if c.self.state = .stSignaled then
        some ⟨cas c.self .stSignaled .stSuspinprog, .suspinprog :: rest⟩
      else none
  | .suspinprog :: rest =>
      if c.self.state = .stSuspinprog then
        some ⟨cas c.self .stSuspinprog .stSuspended, .suspended :: rest⟩
      else none
  | .suspended :: rest =>
      if c.self.state = .stSuspended then some ⟨cas c.self .stSuspended .stRunning, rest⟩
      else none
  | _ => none

def step (c : Nested) : Turn → Option Nested
  | .next => c.next
  | .call =>
      match c.frames with
      | .user :: _ | .body :: _ => some ⟨c.self, .enter :: c.frames⟩
      | _ => none
  | .interrupt => some ⟨c.self, .user :: c.frames⟩
  | .mark =>
      if c.self.state = .stRunning then some ⟨cas c.self .stRunning .stSignaled, c.frames⟩
      else none
  | .deliver =>
      if c.self.state = .stSignaled ∧ .signaled ∉ c.frames then
        some ⟨c.self, .signaled :: c.frames⟩
      else none

/-- The state is `ST_UNSAFE` in the body of every wrapped call, and in no loop of
`unsafe_enter`. -/
def Protected (c : Nested) : Prop :=
  (.body ∈ c.frames → c.self.state = .stUnsafe) ∧ (.claim ∈ c.frames → c.self.state ≠ .stUnsafe)

instance (c : Nested) : Decidable c.Protected := inferInstanceAs (Decidable (_ ∧ _))

/-- **The condition**: a wrapped call is begun only while no frame below is between the
two updates of `unsafe_enter` or of `unsafe_exit`, and while the counter has room for
the calls that are open. -/
def Clear (c : Nested) (t : Turn) : Prop :=
  t = .call → (∀ f ∈ c.frames, f.window = false) ∧ c.frames.countP Frame.isCall + 1 < 2 ^ 32

instance (c : Nested) (t : Turn) : Decidable (Clear c t) := inferInstanceAs (Decidable (_ → _))

/-- **The invariant of nesting.** -/
structure InOrder (c : Nested) : Prop where
  depth : c.self.wrapperDepth.toNat = c.frames.countP Frame.counted
  held : c.self.state = .stUnsafe ↔ ∃ f ∈ c.frames, f.held = true
  clear : c.frames.Pairwise fun above below =>
    (above.isCall = true → below.window = false) ∧ (above.window = true → below.counted = false)
  room : c.frames.countP Frame.isCall < 2 ^ 32
  awake : ¬ c.self.isExempt

theorem inOrder_start : InOrder start := by
  refine ⟨rfl, ?_, List.pairwise_singleton _ _, by decide, by decide⟩
  simp [start, Frame.held]

/-! ## The two ends without interruption -/

/-- `ThreadInfo.enter` is `unsafe_enter` when nothing arrives. -/
theorem runs_enter {self self' : ThreadInfo} (hawake : ¬ self.isExempt)
    (h : self.enter = some self') (rest : List Frame) :
    Machine.Runs step (fun _ _ => True) ⟨self, .enter :: rest⟩ ⟨self', .body :: rest⟩ := by
  have hfirst : step ⟨self, .enter :: rest⟩ .next =
      some ⟨{ self with wrapperDepth := self.wrapperDepth + 1 },
        (if self.wrapperDepth = 0 then .claim else .body) :: rest⟩ := if_neg hawake
  unfold ThreadInfo.enter at h
  split at h
  · split at h
    · have hrunning : self.state = .stRunning := ‹_›
      obtain rfl := Option.some.inj h
      rw [if_pos ‹self.wrapperDepth = 0›] at hfirst
      have hsecond : step ⟨{ self with wrapperDepth := self.wrapperDepth + 1 }, .claim :: rest⟩
          .next = some ⟨⟨.stUnsafe, self.wrapperDepth + 1⟩, .body :: rest⟩ := by
        simp [step, next, cas, hrunning]
      exact Relation.ReflTransGen.tail (.single ⟨.next, trivial, hfirst⟩) ⟨.next, trivial, hsecond⟩
    · cases h
  · obtain rfl := Option.some.inj h
    rw [if_neg ‹¬ self.wrapperDepth = 0›] at hfirst
    exact .single ⟨.next, trivial, hfirst⟩

/-- `ThreadInfo.exit` is `unsafe_exit` when nothing arrives. -/
theorem runs_exit {self : ThreadInfo} (hawake : ¬ self.isExempt) (rest : List Frame) :
    Machine.Runs step (fun _ _ => True) ⟨self, .leave :: rest⟩ ⟨self.exit, rest⟩ := by
  have hfirst : step ⟨self, .leave :: rest⟩ .next =
      some ⟨{ self with wrapperDepth := self.wrapperDepth - 1 },
        if self.wrapperDepth - 1 = 0 then .unclaim :: rest else rest⟩ := if_neg hawake
  by_cases hzero : self.wrapperDepth - 1 = 0
  · rw [if_pos hzero] at hfirst
    have hsecond : step ⟨{ self with wrapperDepth := self.wrapperDepth - 1 }, .unclaim :: rest⟩
        .next = some ⟨self.exit, rest⟩ := by
      by_cases hnotSafe : self.state = .stUnsafe
      · have hexit : self.exit = ⟨.stRunning, 0⟩ := if_pos ⟨hzero, hnotSafe⟩
        simp only [step, next, cas, hnotSafe, if_true, hexit, hzero]
      · simp [step, next, cas, ThreadInfo.exit, hnotSafe]
    exact Relation.ReflTransGen.tail (.single ⟨.next, trivial, hfirst⟩) ⟨.next, trivial, hsecond⟩
  · rw [if_neg hzero] at hfirst
    have hexit : self.exit = { self with wrapperDepth := self.wrapperDepth - 1 } :=
      if_neg fun h => hzero h.1
    rw [hexit]
    exact .single ⟨.next, trivial, hfirst⟩

/-! ## One step -/

/-- Where no frame is in a window, the counted frames are the ones that
`ST_UNSAFE` stands for. -/
theorem exists_held_iff {rest : List Frame} (hclear : ∀ f ∈ rest, f.window = false) :
    (∃ f ∈ rest, f.held = true) ↔ 0 < rest.countP Frame.counted := by
  rw [List.countP_pos_iff]
  refine exists_congr fun f => and_congr_right fun hf => ?_
  have := hclear f hf
  cases f <;> simp_all [Frame.held, Frame.counted, Frame.window]

namespace InOrder
variable {self self' : ThreadInfo} {f f' : Frame} {frames rest : List Frame}

theorem wrapped_clear (h : InOrder ⟨self, f :: rest⟩) (hf : f.isCall = true) :
    ∀ b ∈ rest, b.window = false := fun b hb =>
  ((List.pairwise_cons.mp h.clear).1 b hb).1 hf

theorem window_uncounted (h : InOrder ⟨self, f :: rest⟩) (hf : f.window = true) :
    rest.countP Frame.counted = 0 := by
  rw [List.countP_eq_zero]
  intro b hb
  have := ((List.pairwise_cons.mp h.clear).1 b hb).2 hf
  simp [this]

/-- A frame that is put on top, and is neither counted nor held. -/
theorem push (h : InOrder ⟨self, frames⟩) (hcounted : f.counted = false) (hheld : f.held = false)
    (hclear : f.isCall = true → ∀ b ∈ frames, b.window = false) (hwindow : f.window = false)
    (hroom : (f :: frames).countP Frame.isCall < 2 ^ 32) : InOrder ⟨self, f :: frames⟩ where
  depth := by
    rw [List.countP_cons, hcounted]
    exact h.depth
  held := by simpa [hheld] using h.held
  clear := List.pairwise_cons.mpr ⟨fun b hb => ⟨fun hc => hclear hc b hb, by simp [hwindow]⟩, h.clear⟩
  room := hroom
  awake := h.awake

/-- A frame of the program is neither counted nor held, nor are those of
`thread_sighandler`. -/
theorem push_plain (h : InOrder ⟨self, frames⟩) (hcall : f.isCall = false)
    (hcounted : f.counted = false) (hheld : f.held = false) (hwindow : f.window = false) :
    InOrder ⟨self, f :: frames⟩ := by
  refine h.push hcounted hheld (by simp [hcall]) hwindow ?_
  rw [List.countP_cons, hcall]
  exact h.room

/-- The frame on top goes away, or becomes one that is as little held. -/
theorem pop (h : InOrder ⟨self, f :: rest⟩) (hcounted : f.counted = false) (hheld : f.held = false) :
    InOrder ⟨self, rest⟩ where
  depth := by
    have := h.depth
    rwa [List.countP_cons, hcounted] at this
  held := by simpa [hheld] using h.held
  clear := (List.pairwise_cons.mp h.clear).2
  room := by
    have := h.room
    rw [List.countP_cons] at this
    exact Nat.lt_of_le_of_lt (Nat.le_add_right _ _) this
  awake := h.awake

/-- Another state that is neither `ST_UNSAFE` nor exempt. -/
theorem move (h : InOrder ⟨self, frames⟩) {state : ThreadState} (hold : self.state ≠ .stUnsafe)
    (hnew : state = .stRunning ∨ state = .stSignaled ∨ state = .stSuspinprog ∨
      state = .stSuspended) : InOrder ⟨{ self with state := state }, frames⟩ where
  depth := h.depth
  held := by
    have hnone : ¬ ∃ f ∈ frames, f.held = true := fun hf => hold (h.held.mpr hf)
    refine iff_of_false ?_ hnone
    rcases hnew with rfl | rfl | rfl | rfl <;> exact nofun
  clear := h.clear
  room := h.room
  awake := by
    rcases hnew with rfl | rfl | rfl | rfl <;> simp [ThreadInfo.isExempt]

/-- The counter and the open calls below a frame of a wrapped call. -/
theorem counted_le (h : InOrder ⟨self, f :: rest⟩) (hf : f.isCall = true) :
    rest.countP Frame.counted + 1 < 2 ^ 32 := by
  have hle : rest.countP Frame.counted ≤ rest.countP Frame.isCall :=
    List.countP_mono_left fun f _ => by cases f <;> simp [Frame.counted, Frame.isCall]
  have := h.room
  rw [List.countP_cons, if_pos hf] at this
  omega

/-- `wrapper_depth++`, and the way it sends the thread. -/
theorem enter (h : InOrder ⟨self, .enter :: rest⟩) :
    InOrder ⟨{ self with wrapperDepth := self.wrapperDepth + 1 },
      (if self.wrapperDepth = 0 then .claim else .body) :: rest⟩ := by
  have hclear := h.wrapped_clear rfl
  have hroom := h.counted_le rfl
  have hdepth : self.wrapperDepth.toNat = rest.countP Frame.counted := h.depth
  have hadd : (self.wrapperDepth + 1).toNat = rest.countP Frame.counted + 1 := by
    rw [BitVec.toNat_add, hdepth]
    exact Nat.mod_eq_of_lt hroom
  have hheld : self.state = .stUnsafe ↔ 0 < rest.countP Frame.counted := by
    rw [← exists_held_iff hclear]
    simpa [Frame.held] using h.held
  have hpair := (List.pairwise_cons.mp h.clear).2
  by_cases hzero : self.wrapperDepth = 0
  · have hnone : rest.countP Frame.counted = 0 := by
      rw [← hdepth, hzero]
      rfl
    rw [if_pos hzero]
    refine ⟨?_, ?_, List.pairwise_cons.mpr ⟨fun b hb => ⟨fun _ => hclear b hb, fun _ => ?_⟩, hpair⟩,
      h.room, h.awake⟩
    · show (self.wrapperDepth + 1).toNat = _
      rw [hadd, List.countP_cons]
      rfl
    · simpa [Frame.held] using h.held
    · simpa using List.countP_eq_zero.mp hnone b hb
  · have hpos : 0 < rest.countP Frame.counted := by
      rw [← hdepth]
      have : self.wrapperDepth.toNat ≠ 0 := fun h0 => hzero (BitVec.eq_of_toNat_eq h0)
      omega
    rw [if_neg hzero]
    refine ⟨?_, ?_, List.pairwise_cons.mpr ⟨fun b hb => ⟨fun _ => hclear b hb, nofun⟩, hpair⟩,
      h.room, h.awake⟩
    · show (self.wrapperDepth + 1).toNat = _
      rw [hadd, List.countP_cons]
      rfl
    · exact iff_of_true (hheld.mpr hpos) ⟨.body, List.mem_cons_self, rfl⟩

/-- The end of the loop of `unsafe_enter`. -/
theorem claim (h : InOrder ⟨self, .claim :: rest⟩) :
    InOrder ⟨{ self with state := .stUnsafe }, .body :: rest⟩ where
  depth := h.depth
  held := iff_of_true rfl ⟨.body, List.mem_cons_self, rfl⟩
  clear := List.pairwise_cons.mpr
    ⟨fun b hb => ⟨fun _ => h.wrapped_clear rfl b hb, nofun⟩, (List.pairwise_cons.mp h.clear).2⟩
  room := h.room
  awake := by simp [ThreadInfo.isExempt]

/-- The body ends. -/
theorem body (h : InOrder ⟨self, .body :: rest⟩) : InOrder ⟨self, .leave :: rest⟩ where
  depth := h.depth
  held := iff_of_true (h.held.mpr ⟨.body, List.mem_cons_self, rfl⟩) ⟨.leave, List.mem_cons_self, rfl⟩
  clear := List.pairwise_cons.mpr
    ⟨fun b hb => ⟨fun _ => h.wrapped_clear rfl b hb, nofun⟩, (List.pairwise_cons.mp h.clear).2⟩
  room := h.room
  awake := h.awake

/-- `--wrapper_depth`: the outermost call goes on to the state, the others return. -/
theorem leave (h : InOrder ⟨self, .leave :: rest⟩) :
    InOrder ⟨{ self with wrapperDepth := self.wrapperDepth - 1 },
      if self.wrapperDepth - 1 = 0 then .unclaim :: rest else rest⟩ := by
  have hclear := h.wrapped_clear rfl
  have hdepth : self.wrapperDepth.toNat = rest.countP Frame.counted + 1 := by
    have := h.depth
    rwa [List.countP_cons] at this
  have hsub : (self.wrapperDepth - 1).toNat = rest.countP Frame.counted := by
    have hlt := self.wrapperDepth.isLt
    have hone : (1 : BitVec 32).toNat = 1 := rfl
    rw [BitVec.toNat_sub, hdepth, hone]
    omega
  have hnotSafe : self.state = .stUnsafe := h.held.mpr ⟨.leave, List.mem_cons_self, rfl⟩
  have hpair := (List.pairwise_cons.mp h.clear).2
  have hcalls : rest.countP Frame.isCall + 1 < 2 ^ 32 := by
    have := h.room
    rwa [List.countP_cons] at this
  by_cases hzero : self.wrapperDepth - 1 = 0
  · have hnone : rest.countP Frame.counted = 0 := by
      rw [← hsub, hzero]
      rfl
    rw [if_pos hzero]
    refine ⟨?_, iff_of_true hnotSafe ⟨.unclaim, List.mem_cons_self, rfl⟩,
      List.pairwise_cons.mpr ⟨fun b hb => ⟨fun _ => hclear b hb, fun _ => ?_⟩, hpair⟩, h.room, h.awake⟩
    · exact hsub
    · simpa using List.countP_eq_zero.mp hnone b hb
  · have hpos : 0 < rest.countP Frame.counted := by
      rw [← hsub]
      have : (self.wrapperDepth - 1).toNat ≠ 0 := fun h0 => hzero (BitVec.eq_of_toNat_eq h0)
      omega
    rw [if_neg hzero]
    exact ⟨hsub, iff_of_true hnotSafe ((exists_held_iff hclear).mpr hpos), hpair, by simp only; omega, h.awake⟩

/-- The outermost call gives the state back. -/
theorem unclaim (h : InOrder ⟨self, .unclaim :: rest⟩) :
    InOrder ⟨cas self .stUnsafe .stRunning, rest⟩ := by
  have hnotSafe : self.state = .stUnsafe := h.held.mpr ⟨.unclaim, List.mem_cons_self, rfl⟩
  have hnone : ¬ ∃ f ∈ rest, f.held = true := by
    rw [exists_held_iff (h.wrapped_clear rfl), h.window_uncounted rfl]
    exact Nat.lt_irrefl 0
  have hroom := h.room
  rw [List.countP_cons] at hroom
  rw [cas, if_pos hnotSafe]
  exact ⟨h.depth, iff_of_false nofun hnone, (List.pairwise_cons.mp h.clear).2,
    Nat.lt_of_le_of_lt (Nat.le_add_right _ _) hroom, by simp [ThreadInfo.isExempt]⟩

/-- **The next step of the innermost frame.** -/
theorem next {c c' : Nested} (h : InOrder c) (hstep : c.next = some c') : InOrder c' := by
  obtain ⟨self, frames⟩ := c
  have hawake : ¬ self.isExempt := h.awake
  unfold Nested.next at hstep
  split at hstep
  case h_1 rest hframes =>
    obtain rfl : frames = _ := hframes
    rw [if_neg hawake] at hstep
    obtain rfl := Option.some.inj hstep
    exact h.enter
  case h_2 rest hframes =>
    obtain rfl : frames = _ := hframes
    split at hstep
    · have hrunning : self.state = .stRunning := ‹_›
      obtain rfl := Option.some.inj hstep
      rw [cas, if_pos hrunning]
      exact h.claim
    · obtain rfl := Option.some.inj hstep
      exact h
  case h_3 rest hframes =>
    obtain rfl : frames = _ := hframes
    obtain rfl := Option.some.inj hstep
    exact h.body
  case h_4 rest hframes =>
    obtain rfl : frames = _ := hframes
    rw [if_neg hawake] at hstep
    obtain rfl := Option.some.inj hstep
    exact h.leave
  case h_5 rest hframes =>
    obtain rfl : frames = _ := hframes
    obtain rfl := Option.some.inj hstep
    exact h.unclaim
  case h_6 f rest hframes =>
    obtain rfl : frames = _ := hframes
    obtain rfl := Option.some.inj hstep
    exact h.pop rfl rfl
  case h_7 rest hframes =>
    obtain rfl : frames = _ := hframes
    split at hstep
    · have hstate : self.state = .stSignaled := ‹_›
      obtain rfl := Option.some.inj hstep
      rw [cas, if_pos hstate]
      have hrest : InOrder ⟨{ self with state := .stSuspinprog }, rest⟩ :=
        (h.pop rfl rfl).move (by simp [hstate]) (by simp)
      exact hrest.push_plain rfl rfl rfl rfl
    · cases hstep
  case h_8 rest hframes =>
    obtain rfl : frames = _ := hframes
    split at hstep
    · have hstate : self.state = .stSuspinprog := ‹_›
      obtain rfl := Option.some.inj hstep
      rw [cas, if_pos hstate]
      have hrest : InOrder ⟨{ self with state := .stSuspended }, rest⟩ :=
        (h.pop rfl rfl).move (by simp [hstate]) (by simp)
      exact hrest.push_plain rfl rfl rfl rfl
    · cases hstep
  case h_9 rest hframes =>
    obtain rfl : frames = _ := hframes
    split at hstep
    · have hstate : self.state = .stSuspended := ‹_›
      obtain rfl := Option.some.inj hstep
      rw [cas, if_pos hstate]
      exact (h.pop rfl rfl).move (by simp [hstate]) (by simp)
    · cases hstep
  case h_10 => cases hstep

/-- **One turn.** -/
theorem step {c c' : Nested} {t : Turn} (h : InOrder c) (hclear : Clear c t)
    (hstep : c.step t = some c') : InOrder c' := by
  obtain ⟨self, frames⟩ := c
  cases t with
  | next => exact h.next hstep
  | call =>
      obtain ⟨hwindow, hroom⟩ := hclear rfl
      have hpush : InOrder ⟨self, .enter :: frames⟩ := by
        refine h.push rfl rfl (fun _ => hwindow) rfl ?_
        rw [List.countP_cons]
        exact hroom
      unfold Nested.step at hstep
      simp only at hstep
      split at hstep
      · obtain rfl := Option.some.inj hstep
        exact hpush
      · obtain rfl := Option.some.inj hstep
        exact hpush
      · cases hstep
  | interrupt =>
      obtain rfl := Option.some.inj hstep
      exact h.push_plain rfl rfl rfl rfl
  | mark =>
      unfold Nested.step at hstep
      simp only at hstep
      split at hstep
      · have hrunning : self.state = .stRunning := ‹_›
        obtain rfl := Option.some.inj hstep
        rw [cas, if_pos hrunning]
        exact h.move (by simp [hrunning]) (by simp)
      · cases hstep
  | deliver =>
      unfold Nested.step at hstep
      simp only at hstep
      split at hstep
      · obtain rfl := Option.some.inj hstep
        exact h.push_plain rfl rfl rfl rfl
      · cases hstep

/-- While a frame is in the loop of `unsafe_enter`, no frame holds the state: one above
it would have begun in the window, one below it would be counted. -/
theorem unclaimed {c : Nested} (h : InOrder c) (hclaim : .claim ∈ c.frames) :
    c.self.state ≠ .stUnsafe := by
  intro hnotSafe
  obtain ⟨f, hf, hheld⟩ := h.held.mp hnotSafe
  obtain ⟨above, below, hsplit⟩ := List.append_of_mem hclaim
  have hpair := h.clear
  rw [hsplit] at hf hpair
  obtain ⟨-, hbelow, habove⟩ := List.pairwise_append.mp hpair
  rcases List.mem_append.mp hf with hf | hf
  · have := (habove f hf .claim List.mem_cons_self).1
    cases f <;> simp_all [Frame.held, Frame.isCall, Frame.window]
  · rcases List.mem_cons.mp hf with rfl | hf
    · cases hheld
    · have := (List.pairwise_cons.mp hbelow).1 f hf
      cases f <;> simp_all [Frame.held, Frame.isCall, Frame.window, Frame.counted]

/-- While a frame is at the end of `unsafe_exit`, no frame is counted. -/
theorem uncounted {c : Nested} (h : InOrder c) (hunclaim : .unclaim ∈ c.frames) :
    c.self.wrapperDepth = 0 := by
  have hnone : c.frames.countP Frame.counted = 0 := by
    rw [List.countP_eq_zero]
    intro f hf
    obtain ⟨above, below, hsplit⟩ := List.append_of_mem hunclaim
    have hpair := h.clear
    rw [hsplit] at hf hpair
    obtain ⟨-, hbelow, habove⟩ := List.pairwise_append.mp hpair
    rcases List.mem_append.mp hf with hf | hf
    · have := (habove f hf .unclaim List.mem_cons_self).1
      cases f <;> simp_all [Frame.isCall, Frame.window, Frame.counted]
    · rcases List.mem_cons.mp hf with rfl | hf
      · exact nofun
      · have := ((List.pairwise_cons.mp hbelow).1 f hf).2 rfl
        simp [this]
  have hdepth := h.depth
  rw [hnone] at hdepth
  exact BitVec.eq_of_toNat_eq hdepth

theorem isProtected {c : Nested} (h : InOrder c) : c.Protected :=
  ⟨fun hbody => h.held.mpr ⟨.body, hbody, rfl⟩, h.unclaimed⟩

end InOrder

/-! ## Runs -/

/-- **Wrapped calls are protected** in every state a thread reaches, whatever arrives and
however deep it nests, as long as no call is begun in a window. -/
theorem runs_protected {c : Nested} (h : Machine.Runs step Clear start c) : c.Protected :=
  (h.invariant (fun _ _ _ hc hclear hstep => hc.step hclear hstep) inOrder_start).isProtected

/-- A handler makes a wrapped call in the body of another. -/
def nestedCall : List Turn :=
  [.call, .next, .next, .interrupt, .call, .next]

theorem runs_protected_nestedCall :
    Nested.Protected ⟨⟨.stUnsafe, 2⟩, [.body, .user, .body, .user]⟩ := by
  have hrun : Machine.follow step Clear start nestedCall =
      some ⟨⟨.stUnsafe, 2⟩, [.body, .user, .body, .user]⟩ := by decide
  exact runs_protected (Machine.runs_of_follow hrun)

/-- A call that is begun in a window goes wrong: its first step takes it to a body
without `ST_UNSAFE`, or to the loop with it. -/
theorem InOrder.not_protected {c c' c'' : Nested} (h : InOrder c)
    (hwindow : ∃ f ∈ c.frames, f.window = true) (hcall : c.step .call = some c')
    (hnext : c'.step .next = some c'') : ¬ c''.Protected := by
  obtain ⟨self, frames⟩ := c
  have hcalled : c' = ⟨self, .enter :: frames⟩ := by
    unfold Nested.step at hcall
    simp only at hcall
    split at hcall <;> cases hcall <;> rfl
  subst hcalled
  have hentered : c'' = ⟨{ self with wrapperDepth := self.wrapperDepth + 1 },
      (if self.wrapperDepth = 0 then .claim else .body) :: frames⟩ := by
    simp only [Nested.step, Nested.next, if_neg h.awake] at hnext
    exact (Option.some.inj hnext).symm
  subst hentered
  rintro ⟨hbody, hclaim⟩
  by_cases hzero : self.wrapperDepth = 0
  · -- Nothing is counted, so the window is that of `unsafe_exit`.
    have hnone : frames.countP Frame.counted = 0 := by
      rw [← h.depth, hzero]
      rfl
    obtain ⟨f, hf, hwin⟩ := hwindow
    have huncounted : ¬ f.counted = true := List.countP_eq_zero.mp hnone f hf
    have hnotSafe : self.state = .stUnsafe := by
      refine h.held.mpr ⟨f, hf, ?_⟩
      cases f <;> simp_all [Frame.window, Frame.held, Frame.counted]
    refine hclaim ?_ hnotSafe
    rw [if_pos hzero]
    exact List.mem_cons_self
  · -- Something is counted, so the window is that of `unsafe_enter`.
    have hclaimed : .claim ∈ frames := by
      obtain ⟨f, hf, hwin⟩ := hwindow
      cases f with
      | claim => exact hf
      | unclaim => exact absurd (h.uncounted hf) hzero
      | _ => cases hwin
    refine h.unclaimed hclaimed (hbody ?_)
    rw [if_neg hzero]
    exact List.mem_cons_self

/-- In both windows a handler is enough: a body runs in `ST_RUNNING`, and a loop of
`unsafe_enter` waits for the frame that it has interrupted. -/
theorem not_runs_protected :
    (∃ c, Machine.Runs step (fun _ _ => True) start c ∧ .body ∈ c.frames ∧
      c.self.state = .stRunning) ∧
    ∃ c, Machine.Runs step (fun _ _ => True) start c ∧ .claim ∈ c.frames ∧
      c.self.state = .stUnsafe := by
  have henter : Machine.follow step (fun _ _ => True) start
      [.call, .next, .interrupt, .call, .next] =
        some ⟨⟨.stRunning, 2⟩, [.body, .user, .claim, .user]⟩ := by decide
  have hexit : Machine.follow step (fun _ _ => True) start
      [.call, .next, .next, .next, .next, .interrupt, .call, .next] =
        some ⟨⟨.stUnsafe, 1⟩, [.claim, .user, .unclaim, .user]⟩ := by decide
  exact ⟨⟨_, Machine.runs_of_follow henter, by decide, rfl⟩,
    ⟨_, Machine.runs_of_follow hexit, by decide, rfl⟩⟩

end Nested

end Xnd.Thread
