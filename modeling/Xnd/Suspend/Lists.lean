import Xnd.Lib.LinkedList
import Xnd.Lib.Machine
import Xnd.Lib.Env
import Xnd.Thread.Info

/-!
# The lists of threads

`thread_list` and `zombie_list` are linked through the same two fields of a descriptor.  The
checkpoint thread takes descriptors off the one and puts them on the other or frees them, while
it goes through the list with a saved successor; meanwhile the program makes threads, ends them
and joins them, which moves the flags that the scan looks at.

The code of the checkpoint thread is a program that shares the memory with the user threads: each
read of a field is one step, and between any two steps the user threads may do anything
(`userStep`).  What is done to the links under a lock is one step too, since nobody else follows
them meanwhile.

A descriptor is **on a list, in transit, or freed** (`Sound.once`), and in transit only while a
lock is held.  What a scan comes to is the list it began with, since nobody else takes anything
off, and what is put on the list waits for the lock (`holds_foreachSafe`).

Three things are not in the source: where the descriptor is that is in transit, which descriptors
were freed and which have been joined, and what the scans came to.
-/
namespace Xnd.Suspend.Lists
open LinkedList
open Thread (ThreadState)
open Function (update)

inductive ListName where
  | thread | zombie
  deriving DecidableEq, Repr

/-- `struct thread_info`, as far as the lists go, and whether the thread is gone. -/
structure Descr where
  state : ThreadState
  exiting : Bool
  joined : Bool
  dead : Bool
  deriving DecidableEq, Repr

/-- The memory of the lists.  Descriptors are numbers in the order in which they are made. -/
structure Threads where
  cells : Cells Descr
  head : ListName → Option Nat
  /-- The lock of a list is held by the checkpoint thread. -/
  locked : ListName → Bool
  /-- The number of the next descriptor. -/
  next : Nat
  /-- Taken off a list, and neither on another nor freed. -/
  transit : Option Nat
  freed : List Nat
  /-- The descriptors whose `joined` was set at some time. -/
  everJoined : List Nat

/-- After `thread_list_init`: the main thread alone. -/
def Threads.init : Threads where
  cells p := if p = 0 then some ⟨⟨.stRunning, false, false, false⟩, none, none⟩ else none
  head
    | .thread => some 0
    | .zombie => none
  locked _ := false
  next := 1
  transit := none
  freed := []
  everJoined := []

/-! ## The user threads -/

inductive Act where
  /-- `thread_init`, `pthread_create` and `thread_list_add`. -/
  | create
  /-- Any step of a thread that moves its state. -/
  | move (p : Nat) (state : ThreadState)
  /-- `thread_exit`, and the end of the thread. -/
  | exit (p : Nat)
  | die (p : Nat)
  /-- `__pthread_join_hook`, from its second half on. -/
  | join (p : Nat) (ok : Bool)
  deriving DecidableEq, Repr

namespace Threads
variable (w : Threads)

/-- Assigns to fields of a descriptor. -/
def set (p : Nat) (f : Descr → Descr) : Threads := { w with cells := setData w.cells p f }

/-- The thread of a descriptor that was not freed is there. -/
def Alive (p : Nat) : Prop := ∃ d ∈ dataAt w.cells p, d.dead = false

/-- `thread_exit` has set `exiting`. -/
def Exiting (p : Nat) : Prop := ∃ d ∈ dataAt w.cells p, d.exiting = true

/-- The thread is gone. -/
def Dead (p : Nat) : Prop := ∃ d ∈ dataAt w.cells p, d.dead = true

instance (p : Nat) : Decidable (w.Alive p) := inferInstanceAs (Decidable (∃ d ∈ _, _))
instance (p : Nat) : Decidable (w.Exiting p) := inferInstanceAs (Decidable (∃ d ∈ _, _))
instance (p : Nat) : Decidable (w.Dead p) := inferInstanceAs (Decidable (∃ d ∈ _, _))

/-- `thread_list_add`, of a new descriptor. -/
def add : Threads :=
  { w with
    cells := push w.cells (w.head .thread) w.next ⟨.stEmbryo, false, false, false⟩
    head := update w.head .thread (some w.next)
    next := w.next + 1 }

/-- The end of `__pthread_join_hook`. -/
def join (p : Nat) (ok : Bool) : Threads :=
  { w.set p fun d => { d with joined := ok } with
    everJoined := if ok then p :: w.everJoined else w.everJoined }

end Threads

/-- `thread_list_add` waits for the lock; a join waits for `exiting`, and succeeds when the thread
is gone.  A descriptor that was freed is joined no more. -/
def userStep : Machine Threads Act
  | w, .create => guarded (w.locked .thread = false) w.add
  | w, .move p state => guarded (w.Alive p) (w.set p fun d => { d with state })
  | w, .exit p => guarded (w.Alive p) (w.set p fun d => { d with exiting := true })
  | w, .die p => guarded (w.Exiting p) (w.set p fun d => { d with dead := true })
  | w, .join p ok => guarded (w.Exiting p ∧ (ok = true → w.Dead p)) (w.join p ok)

/-! ## The accesses of the checkpoint thread -/

/-- What is one step. -/
inductive Access where
  | acquire (l : ListName)
  | release (l : ListName)
  /-- `head`, and the `next` of a descriptor. -/
  | head (l : ListName)
  | next (p : Nat)
  | state (p : Nat)
  | exiting (p : Nat)
  | joined (p : Nat)
  /-- `thread_state_cas(th, ST_RUNNING, ST_SIGNALED)`. -/
  | cas (p : Nat)
  /-- `pthread_kill` answers `ESRCH`. -/
  | gone (p : Nat)
  /-- The links of `thread_list_remove` and of `zombie_list_remove`. -/
  | unlink (l : ListName) (p : Nat)
  /-- The links of `zombie_list_add`. -/
  | push (p : Nat)
  /-- `thread_reap`. -/
  | reap (p : Nat)
  /-- The nodes of a list, which the model asks for to say what a scan comes to. -/
  | nodes (l : ListName)
  deriving DecidableEq, Repr

abbrev Access.Answer : Access → Type
  | .acquire _ | .release _ | .unlink _ _ | .push _ | .reap _ => Unit
  | .head _ | .next _ => Option Nat
  | .state _ => ThreadState
  | .exiting _ | .joined _ | .cas _ | .gone _ => Bool
  | .nodes _ => List Nat

namespace Threads
variable (w : Threads)

/-- The links of a removal, with its assertion. -/
def unlink (l : ListName) (p : Nat) : Option Threads := do
  let c ← w.cells p
  let (cells, head) ← takeOut w.cells (w.head l) p
  guarded (c.prev = none → w.head l = some p)
    { w with cells, head := update w.head l head, transit := some p }

/-- The links of `zombie_list_add`. -/
def zombiePush (p : Nat) : Option Threads := do
  let d ← dataAt w.cells p
  some { w with
    cells := push w.cells (w.head .zombie) p d
    head := update w.head .zombie (some p)
    transit := none }

/-- `thread_reap`. -/
def reap (p : Nat) : Option Threads := do
  let _ ← w.cells p
  some { w with cells := update w.cells p none, transit := none, freed := p :: w.freed }

end Threads

/-- An access; none when it is to a descriptor that was freed, or to a lock that the checkpoint
thread holds or does not hold, or when an assertion about the links fails. -/
def Access.run (w : Threads) : (c : Access) → Option (c.Answer × Threads)
  | .acquire l => guarded (w.locked l = false) ((), { w with locked := update w.locked l true })
  | .release l => guarded (w.locked l = true) ((), { w with locked := update w.locked l false })
  | .head l => some (w.head l, w)
  | .next p => (w.cells p).map fun c => (c.next, w)
  | .state p => (dataAt w.cells p).map fun d => (d.state, w)
  | .exiting p => (dataAt w.cells p).map fun d => (d.exiting, w)
  | .joined p => (dataAt w.cells p).map fun d => (d.joined, w)
  | .cas p => (dataAt w.cells p).map fun d =>
      if d.state = .stRunning then (true, w.set p fun d => { d with state := .stSignaled })
      else (false, w)
  | .gone p => (dataAt w.cells p).map fun d => (d.dead, w)
  | .unlink l p => (w.unlink l p).map fun w' => ((), w')
  | .push p => (w.zombiePush p).map fun w' => ((), w')
  | .reap p => (w.reap p).map fun w' => ((), w')
  | .nodes l => (LinkedList.nodes w.cells w.next (w.head l)).map fun ps => (ps, w)

/-- What a scan comes to. -/
structure Scan where
  /-- The nodes of the list when it began. -/
  began : List Nat
  visited : List Nat
  ended : Bool
  deriving DecidableEq, Repr

/-- Why the checkpoint thread stops: at a bad access, at another assertion, because a scan of the
model has run out of turns, or because the model ends a loop that scans again and again. -/
inductive Stop where
  | fault | assertion | running | again
  deriving DecidableEq, Repr

/-- Code of the checkpoint thread, with the scans it has made. -/
abbrev CkptM := Code (fun c : Access => Option c.Answer) (List Scan) Stop

/-- What an access answers, and what it leaves. -/
def Access.serve (w : Threads) (c : Access) : Option c.Answer × Threads :=
  match c.run w with
  | some (a, w') => (some a, w')
  | none => (none, w)

/-- The user threads, as the checkpoint thread sees them. -/
def users : World (fun c : Access => Option c.Answer) (List Scan) Threads :=
  Env.served Access.serve userStep

def access (c : Access) : CkptM c.Answer := do
  match ← Code.call c with
  | some a => pure a
  | none => Code.halt .fault

/-- `xnd_assert`. -/
def xndAssert (p : Prop) [Decidable p] : CkptM Unit :=
  if p then pure () else Code.halt .assertion

/-- `a || b`. -/
def either (a b : CkptM Bool) : CkptM Bool := do
  if ← a then return true else b

/-- `a && b`. -/
def both (a b : CkptM Bool) : CkptM Bool := do
  if ← a then b else return false

def isState (th : Nat) (state : ThreadState) : CkptM Bool := do
  return (← access (.state th)) = state

/-! ## The code of the checkpoint thread -/

/-- `zombie_list_add`. -/
def zombieListAdd (th : Nat) : CkptM Unit := do
  if ← access (.joined th) then access (.reap th)
  else
    access (.acquire .zombie)
    access (.push th)
    access (.release .zombie)

/-- `thread_list_remove`. -/
def threadListRemove (th : Nat) : CkptM Unit := do
  access (.unlink .thread th)
  if ← access (.joined th) then access (.reap th) else zombieListAdd th

/-- `zombie_list_remove`. -/
def zombieListRemove (zombie : Nat) : CkptM Unit := do
  xndAssert ((← access (.joined zombie)) = true)
  access (.unlink .zombie zombie)
  access (.reap zombie)

/-- `th ? th->next : NULL`. -/
def successor : Option Nat → CkptM (Option Nat)
  | none => pure none
  | some th => access (.next th)

/-- The loop of `THREAD_FOREACH_SAFE`, at its two variables. -/
def foreachSafe {β : Type} (body : Nat → β → CkptM β) :
    Nat → Option Nat → Option Nat → β → CkptM β
  | 0, _, _, _ => Code.halt .running
  | _ + 1, none, _, acc => pure acc
  | fuel + 1, some th, next, acc => do
      Code.modify fun
        | [] => []
        | scan :: scans => { scan with visited := scan.visited ++ [th] } :: scans
      let acc ← body th acc
      foreachSafe body fuel next (← successor next) acc

/-- `THREAD_FOREACH_SAFE`. -/
def threadForeachSafe {β : Type} (l : ListName) (body : Nat → β → CkptM β) (acc : β) :
    CkptM β := do
  let began ← access (.nodes l)
  Code.modify (⟨began, [], false⟩ :: ·)
  let th ← access (.head l)
  let next ← successor th
  let acc ← foreachSafe body (began.length + 1) th next acc
  Code.modify fun
    | [] => []
    | scan :: scans => { scan with ended := true } :: scans
  return acc

/-- A turn of `suspend_threads`, with `suspended` and `rescan`. -/
def suspendTurn (th : Nat) : Nat × Bool → CkptM (Nat × Bool)
  | (suspended, rescan) => do
      xndAssert ((← access (.state th)) ≠ .stCkptThread)
      if ← access (.exiting th) then return (suspended, rescan)
      if ← access (.joined th) then
        threadListRemove th
        return (suspended, rescan)
      -- the branches that call `pthread_kill`, with the signal or without
      if ← either (both (isState th .stRunning) (access (.cas th))) (isState th .stSignaled) then
        if ← access (.gone th) then
          threadListRemove th
          return (suspended, rescan)
        return (suspended, true)
      if ← either (isState th .stSuspended) (isState th .stSuspinprog) then
        return (suspended + 1, rescan)
      if ← either (isState th .stUnsafe) (isState th .stEmbryo) then return (suspended, true)
      return (suspended, rescan)

/-- `suspend_threads`; the result is `threads_expected`. -/
def suspendThreads : Nat → CkptM Nat
  | 0 => Code.halt .again
  | fuel + 1 => do
      access (.acquire .thread)
      let (suspended, rescan) ← threadForeachSafe .thread suspendTurn (0, false)
      access (.release .thread)
      if rescan then suspendThreads fuel else return suspended

/-- A turn of `wait_for_exiting_threads`, with `exiting` and `killed`. -/
def waitTurn (th : Nat) : Nat × Nat → CkptM (Nat × Nat)
  | (exiting, killed) => do
      if !(← either (access (.joined th)) (access (.exiting th))) then
        xndAssert ((← either (isState th .stSuspended) (isState th .stSuspinprog)) = true)
        return (exiting, killed)
      if ← access (.joined th) then
        threadListRemove th
        return (exiting, killed)
      if ← access (.exiting th) then
        if ← access (.gone th) then
          threadListRemove th
          return (exiting + 1, killed + 1)
        return (exiting + 1, killed)
      return (exiting, killed)

/-- `wait_for_exiting_threads`. -/
def waitForExitingThreads : Nat → CkptM Unit
  | 0 => Code.halt .again
  | fuel + 1 => do
      access (.acquire .thread)
      let (exiting, killed) ← threadForeachSafe .thread waitTurn (0, 0)
      access (.release .thread)
      if exiting ≠ killed then waitForExitingThreads fuel else return ()

/-- `zombie_list_filter`. -/
def zombieListFilter : CkptM Unit := do
  access (.acquire .zombie)
  threadForeachSafe .zombie
    (fun th _ => do if ← access (.joined th) then zombieListRemove th else return ()) ()
  access (.release .zombie)
  return ()

inductive Op where
  | suspendThreads | waitForExitingThreads | zombieListFilter
  deriving DecidableEq, Repr

/-- One after the other. -/
def runOps (fuel : Nat) : List Op → CkptM Unit
  | [] => pure ()
  | .suspendThreads :: ops => do
      let _ ← suspendThreads fuel
      runOps fuel ops
  | .waitForExitingThreads :: ops => do
      waitForExitingThreads fuel
      runOps fuel ops
  | .zombieListFilter :: ops => do
      zombieListFilter
      runOps fuel ops

/-! ## The memory -/

/-- **The memory is in order**, with the lists `ls`: every descriptor that was made is on a list,
in transit or freed, and no two of these; a descriptor is freed after its `joined` was set. -/
structure Sound (w : Threads) (ls : ListName → List Nat) : Prop where
  chain : ∀ l, Chain w.cells (w.head l) (ls l)
  once : ∀ q, w.transit.toList.count q + (ls .thread).count q + (ls .zombie).count q +
    w.freed.count q = if q < w.next then 1 else 0
  cells : ∀ q, (w.cells q).isSome ↔ q < w.next ∧ q ∉ w.freed
  joined : ∀ q d, dataAt w.cells q = some d → d.joined = true → q ∈ w.everJoined
  freed : ∀ q ∈ w.freed, q ∈ w.everJoined

theorem sound_init : Sound .init fun
    | .thread => [0]
    | .zombie => [] where
  chain l := by
    cases l with
    | thread => exact ⟨[(0, _)], some 0, rfl, rfl, none, rfl, rfl, rfl⟩
    | zombie => exact chain_nil
  once q := by
    by_cases hq : q = 0
    · subst hq
      rfl
    · have hlt : ¬ q < 1 := by omega
      simp [Threads.init, Ne.symm hq, hlt]
  cells q := by
    by_cases hq : q = 0 <;> simp [Threads.init, hq]
  joined q d hd hj := by
    by_cases hq : q = 0
    · simp only [dataAt, Threads.init, hq, if_true, Option.map_some, Option.some.injEq] at hd
      subst hd
      cases hj
    · simp [dataAt, Threads.init, hq] at hd
  freed q hq := by cases hq

namespace Sound
variable {w : Threads} {ls : ListName → List Nat} {l l' : ListName} {p q : Nat} {as bs : List Nat}
  (h : Sound w ls)
include h

theorem count_le_one (l : ListName) (q : Nat) : (ls l).count q ≤ 1 := by
  have honce := h.once q
  cases l <;> split at honce <;> omega

theorem nodup (l : ListName) : (ls l).Nodup := List.nodup_iff_count_le_one.mpr (h.count_le_one l)

/-- What is on a list is on no other, not in transit and not freed. -/
theorem only (hq : q ∈ ls l) : q < w.next ∧ q ∉ w.freed ∧ w.transit ≠ some q ∧
    ∀ l', l' ≠ l → q ∉ ls l' := by
  have hpos := List.count_pos_iff.mpr hq
  have honce := h.once q
  have hlt : q < w.next := by
    by_contra hge
    rw [if_neg hge] at honce
    cases l <;> omega
  rw [if_pos hlt] at honce
  refine ⟨hlt, fun hfreed => ?_, fun htransit => ?_, fun l' hne hq' => ?_⟩
  · have := List.count_pos_iff.mpr hfreed
    cases l <;> omega
  · rw [htransit] at honce
    simp only [Option.toList_some, List.count_singleton_self] at honce
    cases l <;> omega
  · have := List.count_pos_iff.mpr hq'
    cases l <;> cases l' <;> first | exact hne rfl | omega

/-- What is in transit is on no list, and not freed. -/
theorem moving (hp : w.transit = some p) :
    (∃ c, w.cells p = some c) ∧ (∀ l, p ∉ ls l) ∧ p ∉ w.freed := by
  have honce := h.once p
  rw [hp] at honce
  simp only [Option.toList_some, List.count_singleton_self] at honce
  have hlt : p < w.next := by
    by_contra hge
    rw [if_neg hge] at honce
    omega
  rw [if_pos hlt] at honce
  have hfreed : p ∉ w.freed := fun hmem => by
    have := List.count_pos_iff.mpr hmem
    omega
  refine ⟨Option.isSome_iff_exists.mp ((h.cells p).mpr ⟨hlt, hfreed⟩), fun l hmem => ?_, hfreed⟩
  have := List.count_pos_iff.mpr hmem
  cases l <;> omega

theorem exists_data (hq : q ∈ ls l) : ∃ d, dataAt w.cells q = some d := by
  obtain ⟨hlt, hfreed, -⟩ := h.only hq
  obtain ⟨c, hc⟩ := Option.isSome_iff_exists.mp ((h.cells q).mpr ⟨hlt, hfreed⟩)
  exact ⟨c.data, by simp [dataAt, hc]⟩

/-- A list is no longer than there are descriptors. -/
theorem length_le (l : ListName) : (ls l).length ≤ w.next := by
  have hsub : ls l ⊆ List.range w.next := fun q hq => List.mem_range.mpr (h.only hq).1
  simpa using ((h.nodup l).subperm hsub).length_le

/-- Flags are moved. -/
theorem set {f : Descr → Descr} (hf : ∀ d, dataAt w.cells p = some d → (f d).joined = true →
    d.joined = true ∨ p ∈ w.everJoined) : Sound (w.set p f) ls where
  chain l := (h.chain l).setData p f
  once := h.once
  cells q := by
    refine Iff.trans ?_ (h.cells q)
    by_cases hq : q = p
    · subst hq
      simp [Threads.set, setData]
    · simp [Threads.set, setData, hq]
  joined q d hd hj := by
    have hdata := dataAt_setData (h := w.cells) (p := p) (q := q) (f := f)
    rw [show dataAt (w.set p f).cells q = _ from hdata] at hd
    split at hd
    next hq =>
      subst hq
      obtain ⟨d', hd', rfl⟩ := Option.map_eq_some_iff.mp hd
      exact (hf d' hd' hj).elim (h.joined q d' hd') id
    next => exact h.joined q d hd hj
  freed := h.freed

/-- `thread_list_add`. -/
theorem add : Sound w.add (update ls .thread (w.next :: ls .thread)) where
  chain l := by
    have hnew : ∀ l, w.next ∉ ls l := fun l hq => Nat.lt_irrefl _ (h.only hq).1
    cases l with
    | thread => exact (h.chain .thread).push (List.nodup_cons.mpr ⟨hnew _, h.nodup _⟩) _
    | zombie =>
        refine (h.chain .zombie).congr fun q hq => push_of_ne (h.chain .thread) ?_ ?_
        · rintro rfl
          exact hnew _ hq
        · exact (h.only hq).2.2.2 .thread (by simp)
  once q := by
    have honce := h.once q
    show w.transit.toList.count q + (w.next :: ls .thread).count q + (ls .zombie).count q +
      w.freed.count q = if q < w.next + 1 then 1 else 0
    rw [List.count_cons]
    by_cases hq : q = w.next
    · subst hq
      simp only [Nat.lt_irrefl, if_false] at honce
      simp only [beq_self_eq_true, if_true, Nat.lt_succ_self]
      omega
    · have hiff : q < w.next + 1 ↔ q < w.next := by omega
      simp only [hiff, beq_iff_eq, Ne.symm hq, if_false]
      omega
  cells q := by
    have hdata : dataAt w.add.cells q = if q = w.next then
        some ⟨.stEmbryo, false, false, false⟩ else dataAt w.cells q := dataAt_push
    have hsome : (w.add.cells q).isSome = (dataAt w.add.cells q).isSome := by simp [dataAt]
    rw [hsome, hdata]
    by_cases hq : q = w.next
    · have hfresh : w.next ∉ w.freed := fun hmem => by
        have honce := h.once w.next
        have := List.count_pos_iff.mpr hmem
        simp only [Nat.lt_irrefl, if_false] at honce
        omega
      subst hq
      simpa [Threads.add] using hfresh
    · have hiff : q < w.next + 1 ↔ q < w.next := by omega
      have hcells := h.cells q
      simpa [Threads.add, hq, hiff, dataAt] using hcells
  joined q d hd hj := by
    rw [show dataAt w.add.cells q = _ from dataAt_push] at hd
    split at hd
    · obtain rfl := Option.some.inj hd
      cases hj
    · exact h.joined q d hd hj
  freed := h.freed

/-- **Taking off.** -/
theorem unlink (hl : ls l = as ++ p :: bs) (hnone : w.transit = none) :
    ∃ w', w.unlink l p = some w' ∧ Sound w' (update ls l (as ++ bs)) ∧ w'.transit = some p ∧
      w'.locked = w.locked ∧ w'.everJoined = w.everJoined := by
  have hchain := h.chain l
  have hnodup := h.nodup l
  rw [hl] at hchain hnodup
  obtain ⟨c, hc, -, hfirst⟩ := hchain.exists_cell
  obtain ⟨cells, head, htake, hchain', hframe⟩ := hchain.takeOut hnodup
  have hdata : ∀ q, dataAt cells q = dataAt w.cells q := fun q => dataAt_takeOut htake
  refine ⟨{ w with cells, head := update w.head l head, transit := some p }, ?_,
    ⟨fun l' => ?_, fun q => ?_, fun q => ?_, fun q d hd => h.joined q d (hdata q ▸ hd), h.freed⟩,
    rfl, rfl, rfl⟩
  · simpa [Threads.unlink, hc, htake, guarded] using hfirst
  · by_cases hl' : l' = l
    · subst hl'
      simpa using hchain'
    · simp only [Function.update_of_ne hl']
      refine (h.chain l').congr fun q hq => hframe q fun hmem => ?_
      refine (h.only hq).2.2.2 l (Ne.symm hl') (hl ▸ ?_)
      exact (List.append_sublist_append_left as).mpr (List.sublist_cons_self p bs) |>.subset hmem
  · have honce := h.once q
    have hcount : (ls l).count q = (as ++ bs).count q + [p].count q := by
      rw [hl, List.count_append, List.count_append, List.count_cons, List.count_singleton]
      omega
    rw [hnone] at honce
    cases l <;> simp only [Option.toList_none, Option.toList_some, List.count_nil,
      Function.update_self, Function.update_of_ne, ne_eq, reduceCtorEq, not_false_eq_true]
      at honce ⊢ <;> omega
  · rw [isSome_of_dataAt (hdata q)]
    exact h.cells q

/-- **Putting on `zombie_list`.** -/
theorem zombiePush (hp : w.transit = some p) :
    ∃ w', w.zombiePush p = some w' ∧ Sound w' (update ls .zombie (p :: ls .zombie)) ∧
      w'.transit = none ∧ w'.locked = w.locked ∧ w'.everJoined = w.everJoined := by
  obtain ⟨⟨c, hc⟩, hnot, -⟩ := h.moving hp
  have hdata : ∀ q, dataAt (push w.cells (w.head .zombie) p c.data) q = dataAt w.cells q :=
    fun q => by
      rw [dataAt_push]
      split
      next hq => rw [hq, dataAt, hc, Option.map_some]
      · rfl
  refine ⟨{ w with
      cells := push w.cells (w.head .zombie) p c.data
      head := update w.head .zombie (some p)
      transit := none }, by simp [Threads.zombiePush, dataAt, hc], ⟨fun l => ?_, fun q => ?_,
    fun q => ?_, fun q d hd => h.joined q d (hdata q ▸ hd), h.freed⟩, rfl, rfl, rfl⟩
  · cases l with
    | thread =>
        refine (h.chain .thread).congr fun q hq => push_of_ne (h.chain .zombie) ?_ ?_
        · rintro rfl
          exact hnot _ hq
        · exact (h.only hq).2.2.2 .zombie (by simp)
    | zombie => exact (h.chain .zombie).push (List.nodup_cons.mpr ⟨hnot _, h.nodup _⟩) _
  · have honce := h.once q
    rw [hp] at honce
    show [].count q + (ls .thread).count q + (p :: ls .zombie).count q + w.freed.count q = _
    rw [List.count_cons]
    simp only [Option.toList_some, List.count_singleton, List.count_nil] at honce ⊢
    omega
  · rw [isSome_of_dataAt (hdata q)]
    exact h.cells q

/-- **Freeing.** -/
theorem reap (hp : w.transit = some p) (hjoined : p ∈ w.everJoined) :
    ∃ w', w.reap p = some w' ∧ Sound w' ls ∧ w'.transit = none ∧ w'.locked = w.locked := by
  obtain ⟨⟨c, hc⟩, hnot, hfreed⟩ := h.moving hp
  have hother : ∀ q, q ≠ p → update w.cells p none q = w.cells q := fun q hq =>
    Function.update_of_ne hq _ _
  refine ⟨{ w with cells := update w.cells p none, transit := none, freed := p :: w.freed },
    by simp [Threads.reap, hc], ⟨fun l => ?_, fun q => ?_, fun q => ?_, fun q d hd => ?_,
    fun q hq => ?_⟩, rfl, rfl⟩
  · exact (h.chain l).congr fun q hq => hother q (by rintro rfl; exact hnot l hq)
  · have honce := h.once q
    rw [hp] at honce
    show [].count q + (ls .thread).count q + (ls .zombie).count q + (p :: w.freed).count q = _
    rw [List.count_cons]
    simp only [Option.toList_some, List.count_singleton, List.count_nil] at honce ⊢
    omega
  · by_cases hq : q = p
    · subst hq
      simp
    · have hcells := h.cells q
      simpa [hother q hq, hq] using hcells
  · by_cases hq : q = p
    · subst hq
      simp [dataAt] at hd
    · exact h.joined q d (by simpa [dataAt, hother q hq] using hd)
  · obtain rfl | hq := List.mem_cons.mp hq
    · exact hjoined
    · exact h.freed q hq

/-- A step of the user threads.  They take nothing off a list, and put nothing on one whose lock is
held. -/
theorem user {a : Act} {w' : Threads} (hstep : userStep w a = some w') :
    ∃ ls', Sound w' ls' ∧ ls' .zombie = ls .zombie ∧ (w.locked .thread = true → ls' = ls) ∧
      w'.locked = w.locked ∧ w'.transit = w.transit ∧ ∀ p ∈ w.everJoined, p ∈ w'.everJoined := by
  cases a with
  | create =>
      obtain ⟨hlocked, rfl⟩ := guarded_eq_some.mp hstep
      exact ⟨_, h.add, rfl, by simp [hlocked], rfl, rfl, fun _ hp => hp⟩
  | move p state =>
      obtain ⟨-, rfl⟩ := guarded_eq_some.mp hstep
      exact ⟨ls, h.set fun d _ hj => .inl hj, rfl, fun _ => rfl, rfl, rfl, fun _ hp => hp⟩
  | exit p =>
      obtain ⟨-, rfl⟩ := guarded_eq_some.mp hstep
      exact ⟨ls, h.set fun d _ hj => .inl hj, rfl, fun _ => rfl, rfl, rfl, fun _ hp => hp⟩
  | die p =>
      obtain ⟨-, rfl⟩ := guarded_eq_some.mp hstep
      exact ⟨ls, h.set fun d _ hj => .inl hj, rfl, fun _ => rfl, rfl, rfl, fun _ hp => hp⟩
  | join p ok =>
      obtain ⟨-, rfl⟩ := guarded_eq_some.mp hstep
      have hknown : Sound { w with everJoined := if ok then p :: w.everJoined else w.everJoined }
          ls := by
        refine ⟨h.chain, h.once, h.cells, fun q d hd hj => ?_, fun q hq => ?_⟩
        · cases ok <;> simp [h.joined q d hd hj]
        · cases ok <;> simp [h.freed q hq]
      refine ⟨ls, hknown.set (f := fun d => { d with joined := ok }) fun d _ hj => .inr ?_, rfl,
        fun _ => rfl, rfl, rfl, fun q hq => ?_⟩
      · obtain rfl : ok = true := hj
        exact List.mem_cons_self
      · cases ok <;> simp [Threads.join, hq]

end Sound

/-! ## What the checkpoint thread may rely on -/

/-- **What the checkpoint thread knows** between two steps: the locks it holds, what is in transit,
`zombie_list`, `thread_list` if it holds the lock, and some descriptors that have been joined. -/
structure At (L : ListName → Bool) (T : Option Nat) (ls : ListName → List Nat) (K : List Nat)
    (w : Threads) : Prop where
  locked : w.locked = L
  transit : w.transit = T
  idle : (∀ l, L l = false) → T = none
  known : ∀ p ∈ K, p ∈ w.everJoined
  sound : ∃ ls', Sound w ls' ∧ ls' .zombie = ls .zombie ∧ (L .thread = true → ls' = ls)

section At
variable {L : ListName → Bool} {T : Option Nat} {ls : ListName → List Nat} {K : List Nat}
  {w w' : Threads} {p q : Nat} {l : ListName} {as bs : List Nat}

/-- The user threads do not change it. -/
theorem At.stable (h : At L T ls K w) (hmove : users.moves w w') : At L T ls K w' := by
  obtain ⟨a, ha⟩ := hmove
  obtain ⟨ls', hsound, hzombie, hthread⟩ := h.sound
  obtain ⟨ls'', hsound', hzombie', hthread', hlocked, htransit, hjoined⟩ := hsound.user ha
  refine ⟨hlocked.trans h.locked, htransit.trans h.transit, h.idle,
    fun p hp => hjoined p (h.known p hp), ls'', hsound', hzombie'.trans hzombie, fun hL => ?_⟩
  rw [hthread' (by rw [h.locked]; exact hL), hthread hL]

/-- The list whose lock is held. -/
theorem At.list (h : At L T ls K w) (hl : L l = true) : ∃ ls', Sound w ls' ∧ ls' l = ls l ∧
    ls' .zombie = ls .zombie ∧ (L .thread = true → ls' = ls) := by
  obtain ⟨ls', hsound, hzombie, hthread⟩ := h.sound
  refine ⟨ls', hsound, ?_, hzombie, hthread⟩
  cases l with
  | thread => rw [hthread hl]
  | zombie => exact hzombie

/-- A descriptor on the list, or in transit, is there. -/
theorem At.exists_data (h : At L T ls K w) (hp : (L l = true ∧ p ∈ ls l) ∨ T = some p) :
    ∃ d, dataAt w.cells p = some d := by
  obtain ⟨hl, hmem⟩ | rfl := hp
  · obtain ⟨ls', hsound, heq, -⟩ := h.list hl
    exact hsound.exists_data (l := l) (heq ▸ hmem)
  · obtain ⟨ls', hsound, -⟩ := h.sound
    obtain ⟨⟨c, hc⟩, -⟩ := hsound.moving h.transit
    exact ⟨c.data, by simp [dataAt, hc]⟩

theorem At.forget (h : At L T ls K w) : At L T ls [] w :=
  { h with known := by simp }

end At

/-- The scans come to the nodes that were there, in order, and to all of them. -/
def ScansOk (scans : List Scan) : Prop :=
  ∀ scan ∈ scans, scan.visited <+: scan.began ∧ (scan.ended = true → scan.visited = scan.began)

/-- What holds whenever another thread looks. -/
def Fine (scans : List Scan) (w : Threads) : Prop :=
  (∃ ls, Sound w ls) ∧ ((∀ l, w.locked l = false) → w.transit = none) ∧ ScansOk scans

theorem At.fine {L : ListName → Bool} {T : Option Nat} {ls : ListName → List Nat} {K : List Nat}
    {w : Threads} {s : List Scan} (h : At L T ls K w) (hs : ScansOk s) : Fine s w := by
  obtain ⟨ls', hsound, -⟩ := h.sound
  refine ⟨⟨ls', hsound⟩, fun hfree => ?_, hs⟩
  rw [h.transit]
  exact h.idle (h.locked ▸ hfree)

/-- `m` leads to `fin`, or stops at an assertion or between two scans; until then everything is
fine whenever another thread looks. -/
abbrev Ok {α : Type} (m : CkptM α) (s : List Scan) (w : Threads)
    (fin : List Scan → α → Threads → Prop) : Prop :=
  Code.Wp users Fine (fun s e w => Fine s w ∧ e ≠ .fault ∧ e ≠ .running) m s w fin

section Ok
variable {s : List Scan} {w : Threads} {L : ListName → Bool} {T : Option Nat}
  {ls : ListName → List Nat} {K : List Nat}

theorem Ok.assert {b : Prop} [Decidable b] (hfine : Fine s w) :
    Ok (xndAssert b) s w fun s' _ w' => s' = s ∧ w' = w ∧ b := by
  unfold xndAssert
  split
  · exact ⟨rfl, rfl, ‹b›⟩
  · exact ⟨hfine, by simp, by simp⟩

/-- **The rule of an access.** -/
theorem Ok.access {c : Access} {Q : c.Answer → Threads → Prop} (h : At L T ls K w) (hs : ScansOk s)
    (hrun : ∀ w, At L T ls K w → ∃ a w', c.run w = some (a, w') ∧ Q a w') :
    Ok (access c) s w fun s' a w' => s' = s ∧ Q a w' := by
  refine Prog.Holds.call (At L T ls K) (fun _ _ hw hm => hw.stable hm) h (fun w hw => hw.fine hs)
    fun w r w' hw hans => ?_
  obtain ⟨a, w₁, hrun, hQ⟩ := hrun w hw
  have hserve : c.serve w = (some a, w₁) := by simp [Access.serve, hrun]
  obtain ⟨rfl, rfl⟩ := Prod.mk.inj (hans.trans hserve)
  exact ⟨rfl, hQ⟩

/-- A read. -/
theorem Ok.read {c : Access} (h : At L T ls K w) (hs : ScansOk s)
    (hrun : ∀ w, At L T ls K w → ∃ a, c.run w = some (a, w)) :
    Ok (Lists.access c) s w fun s' _ w' => s' = s ∧ At L T ls K w' :=
  Ok.access h hs fun w hw => by
    obtain ⟨a, ha⟩ := hrun w hw
    exact ⟨a, w, ha, hw⟩

end Ok

/-! ## The accesses -/

section Accesses
variable {s : List Scan} {w : Threads} {L : ListName → Bool} {T : Option Nat}
  {ls : ListName → List Nat} {K as bs : List Nat} {l : ListName} {p : Nat}

theorem ok_release (h : At L T ls K w) (hs : ScansOk s) (hl : L l = true) (hT : T = none) :
    Ok (access (.release l)) s w fun s' _ w' => s' = s ∧ At (update L l false) T ls K w' := by
  refine Ok.access h hs fun w hw => ⟨(), { w with locked := update w.locked l false },
    by simp [Access.run, guarded, hw.locked, hl], by rw [hw.locked], hw.transit, fun _ => hT,
    hw.known, ?_⟩
  obtain ⟨ls', hsound, heq, hzombie, hthread⟩ := hw.list hl
  refine ⟨ls', ⟨hsound.chain, hsound.once, hsound.cells, hsound.joined, hsound.freed⟩, hzombie,
    fun hL => hthread ?_⟩
  cases l with
  | thread => simp at hL
  | zombie => simpa using hL

/-- With the lock of `thread_list` its nodes are known. -/
theorem ok_acquire (h : At L T ls K w) (hs : ScansOk s) (hl : L l = false) :
    Ok (access (.acquire l)) s w fun s' _ w' => s' = s ∧
      ∃ ls', At (update L l true) T ls' K w' ∧ ls' .zombie = ls .zombie ∧
        (L .thread = true → ls' = ls) := by
  refine Ok.access h hs fun w hw => ?_
  obtain ⟨ls', hsound, hzombie, hthread⟩ := hw.sound
  refine ⟨(), { w with locked := update w.locked l true },
    by simp [Access.run, guarded, hw.locked, hl], ls', ⟨by rw [hw.locked], hw.transit,
    fun hfree => ?_, hw.known, ls', ?_, rfl, fun _ => rfl⟩, hzombie, hthread⟩
  · simpa using hfree l
  · exact ⟨hsound.chain, hsound.once, hsound.cells, hsound.joined, hsound.freed⟩

theorem ok_joined (h : At L T ls K w) (hs : ScansOk s)
    (hp : (L l = true ∧ p ∈ ls l) ∨ T = some p) :
    Ok (access (.joined p)) s w fun s' a w' => s' = s ∧ At L T ls K w' ∧
      (a = true → At L T ls [p] w') := by
  refine Ok.access h hs fun w hw => ?_
  obtain ⟨d, hd⟩ := hw.exists_data hp
  refine ⟨d.joined, w, by simp [Access.run, hd], hw, fun hj => { hw with known := ?_ }⟩
  obtain ⟨ls', hsound, -⟩ := hw.sound
  rintro q hq
  rw [List.mem_singleton.mp hq]
  exact hsound.joined p d hd hj

theorem ok_unlink (h : At L none ls K w) (hs : ScansOk s) (hl : L l = true)
    (hp : ls l = as ++ p :: bs) : Ok (access (.unlink l p)) s w fun s' _ w' => s' = s ∧
      At L (some p) (update ls l (as ++ bs)) K w' := by
  refine Ok.access h hs fun w hw => ?_
  obtain ⟨ls', hsound, heq, hzombie, hthread⟩ := hw.list hl
  obtain ⟨w', hrun, hsound', htransit, hlocked, hjoined⟩ :=
    hsound.unlink (heq.trans hp) hw.transit
  refine ⟨(), w', by simp [Access.run, hrun], hlocked.trans hw.locked, htransit, fun hfree => ?_,
    fun q hq => hjoined ▸ hw.known q hq, _, hsound', ?_, fun hL => by rw [hthread hL]⟩
  · rw [hfree l] at hl
    cases hl
  · cases l with
    | thread => exact hzombie
    | zombie => rfl

theorem ok_push (h : At L (some p) ls K w) (hs : ScansOk s) :
    Ok (access (.push p)) s w fun s' _ w' => s' = s ∧
      At L none (update ls .zombie (p :: ls .zombie)) K w' := by
  refine Ok.access h hs fun w hw => ?_
  obtain ⟨ls', hsound, hzombie, hthread⟩ := hw.sound
  obtain ⟨w', hrun, hsound', htransit, hlocked, hjoined⟩ := hsound.zombiePush hw.transit
  refine ⟨(), w', by simp [Access.run, hrun], hlocked.trans hw.locked, htransit, fun _ => rfl,
    fun q hq => hjoined ▸ hw.known q hq, _, hsound', by simp [hzombie],
    fun hL => by rw [hthread hL]⟩

theorem ok_reap (h : At L (some p) ls [p] w) (hs : ScansOk s) :
    Ok (access (.reap p)) s w fun s' _ w' => s' = s ∧ At L none ls [] w' := by
  refine Ok.access h hs fun w hw => ?_
  obtain ⟨ls', hsound, hzombie, hthread⟩ := hw.sound
  obtain ⟨w', hrun, hsound', htransit, hlocked⟩ :=
    hsound.reap hw.transit (hw.known p List.mem_cons_self)
  exact ⟨(), w', by simp [Access.run, hrun], hlocked.trans hw.locked, htransit, fun _ => rfl,
    by simp, ls', hsound', hzombie, hthread⟩

end Accesses

/-! ## The removals -/

section Removals
variable {s : List Scan} {w : Threads} {L : ListName → Bool} {ls : ListName → List Nat}
  {as bs : List Nat} {p : Nat}

theorem update_unlocked {l : ListName} (hl : L l = false) :
    update (update L l true) l false = L := by
  rw [Function.update_idem, ← hl, Function.update_eq_self]

theorem ok_zombieListAdd (h : At L (some p) ls [] w) (hs : ScansOk s) (hthread : L .thread = true)
    (hzombie : L .zombie = false) : Ok (zombieListAdd p) s w fun s' _ w' => s' = s ∧
      ∃ zs, At L none (update ls .zombie zs) [] w' := by
  refine (ok_joined (l := .thread) h hs (.inr rfl)).bind ?_
  rintro _ joined w ⟨rfl, hw, hjoined⟩
  cases joined with
  | true =>
      refine (ok_reap (hjoined rfl) hs).mono ?_
      rintro _ _ w ⟨rfl, hw⟩
      exact ⟨rfl, ls .zombie, by rwa [Function.update_eq_self]⟩
  | false =>
      refine (ok_acquire (l := .zombie) hw hs hzombie).bind ?_
      rintro _ _ w ⟨rfl, ls', hlocked, -, hsame⟩
      rw [hsame hthread] at hlocked
      refine (ok_push hlocked hs).bind ?_
      rintro _ _ w ⟨rfl, hw⟩
      refine (ok_release (l := .zombie) hw hs (by simp) rfl).mono ?_
      rintro _ _ w ⟨rfl, hw⟩
      rw [update_unlocked hzombie] at hw
      exact ⟨rfl, _, hw⟩

/-- **`thread_list_remove`**: the descriptor goes from `thread_list` to `zombie_list`, or is
freed. -/
theorem ok_threadListRemove (h : At L none ls [] w) (hs : ScansOk s) (hthread : L .thread = true)
    (hzombie : L .zombie = false) (hp : ls .thread = as ++ p :: bs) :
    Ok (threadListRemove p) s w fun s' _ w' => s' = s ∧
      ∃ ls', At L none ls' [] w' ∧ ls' .thread = as ++ bs := by
  refine (ok_unlink (l := .thread) h hs hthread hp).bind ?_
  rintro _ _ w ⟨rfl, hw⟩
  refine (ok_joined (l := .thread) hw hs (.inr rfl)).bind ?_
  rintro _ joined w ⟨rfl, hw, hjoined⟩
  cases joined with
  | true =>
      refine (ok_reap (hjoined rfl) hs).mono ?_
      rintro _ _ w ⟨rfl, hw⟩
      exact ⟨rfl, _, hw, Function.update_self ..⟩
  | false =>
      refine (ok_zombieListAdd hw hs hthread hzombie).mono ?_
      rintro _ _ w ⟨rfl, zs, hw⟩
      exact ⟨rfl, _, hw, by simp⟩

/-- **`zombie_list_remove`**: the descriptor is freed, unless the assertion fails. -/
theorem ok_zombieListRemove (h : At L none ls [] w) (hs : ScansOk s) (hzombie : L .zombie = true)
    (hp : ls .zombie = as ++ p :: bs) :
    Ok (zombieListRemove p) s w fun s' _ w' => s' = s ∧
      ∃ ls', At L none ls' [] w' ∧ ls' .zombie = as ++ bs := by
  have hmem : p ∈ ls .zombie := by simp [hp]
  refine (ok_joined (l := .zombie) h hs (.inl ⟨hzombie, hmem⟩)).bind ?_
  rintro _ joined w ⟨rfl, hw, hjoined⟩
  refine (Ok.assert (hw.fine hs)).bind ?_
  rintro _ _ _ ⟨rfl, rfl, hj⟩
  refine (ok_unlink (l := .zombie) (hjoined hj) hs hzombie hp).bind ?_
  rintro _ _ w ⟨rfl, hw⟩
  refine (ok_reap hw hs).mono ?_
  rintro _ _ w ⟨rfl, hw⟩
  exact ⟨rfl, _, hw, Function.update_self ..⟩

end Removals

/-! ## A scan -/

section Scans
variable {β : Type} {s : List Scan} {w : Threads} {L : ListName → Bool}
  {ls : ListName → List Nat} {l : ListName} {body : Nat → β → CkptM β}

/-- Only reads, and nothing that moves the lists. -/
def Keeps {α : Type} (L : ListName → Bool) (ls : ListName → List Nat) (m : CkptM α) : Prop :=
  ∀ s w, At L none ls [] w → ScansOk s → Ok m s w fun s' _ w' => s' = s ∧ At L none ls [] w'

/-- At the end the nodes `bs` are still the last ones of the list. -/
def Leaves {α : Type} (L : ListName → Bool) (ls : ListName → List Nat) (l : ListName)
    (bs : List Nat) (m : CkptM α) : Prop :=
  ∀ s w, At L none ls [] w → ScansOk s → Ok m s w fun s' _ w' => s' = s ∧
    ∃ ls' as, At L none ls' [] w' ∧ ls' l = as ++ bs

/-- **What a turn may do to the list**: nothing, or take off the node that it is at. -/
def TurnOk (L : ListName → Bool) (l : ListName) (body : Nat → β → CkptM β) : Prop :=
  ∀ ls as p bs acc, ls l = as ++ p :: bs → Leaves L ls l bs (body p acc)

theorem ok_next {as bs : List Nat} {p : Nat} (h : At L none ls [] w) (hs : ScansOk s)
    (hl : L l = true) (hp : ls l = as ++ p :: bs) :
    Ok (access (.next p)) s w fun s' a w' => s' = s ∧ At L none ls [] w' ∧ a = bs.head? := by
  refine Ok.access h hs fun w hw => ?_
  obtain ⟨ls', hsound, heq, -⟩ := hw.list hl
  have hchain := hsound.chain l
  rw [heq, hp] at hchain
  obtain ⟨c, hc, hnext, -⟩ := hchain.exists_cell
  exact ⟨c.next, w, by simp [Access.run, hc], hw, hnext⟩

theorem ok_successor {as todo : List Nat} (h : At L none ls [] w) (hs : ScansOk s)
    (hl : L l = true) (hp : ls l = as ++ todo) :
    Ok (successor todo.head?) s w fun s' a w' =>
      s' = s ∧ At L none ls [] w' ∧ a = todo.tail.head? := by
  cases todo with
  | nil => exact Code.Wp.pure ⟨rfl, h, rfl⟩
  | cons p bs => exact ok_next h hs hl hp

/-- **The loop comes to what was saved**: the nodes still to come are on the list until their
turn. -/
theorem ok_foreachSafe (hl : L l = true) (hbody : TurnOk L l body) (fuel : Nat)
    {todo as : List Nat} {scan : Scan} {acc : β} (h : At L none ls [] w)
    (hs : ScansOk (scan :: s)) (hp : ls l = as ++ todo) (hfuel : todo.length < fuel)
    (hbegan : scan.began = scan.visited ++ todo) (hopen : scan.ended = false) :
    Ok (foreachSafe body fuel todo.head? todo.tail.head? acc) (scan :: s) w fun s' _ w' =>
      s' = { scan with visited := scan.began } :: s ∧ ∃ ls', At L none ls' [] w' := by
  induction fuel generalizing w ls todo as scan acc with
  | zero => omega
  | succ fuel ih =>
      cases todo with
      | nil =>
          obtain ⟨began, visited, ended⟩ := scan
          obtain rfl : began = visited := by simpa using hbegan
          exact Code.Wp.pure ⟨rfl, ls, h⟩
      | cons p todo =>
          have hfront : (scan.visited ++ [p]) <+: scan.began := ⟨todo, by simp [hbegan]⟩
          have hs' : ScansOk ({ scan with visited := scan.visited ++ [p] } :: s) := by
            intro scan' hmem
            obtain rfl | hmem := List.mem_cons.mp hmem
            · exact ⟨hfront, fun hended => by simp [hopen] at hended⟩
            · exact hs scan' (List.mem_cons_of_mem _ hmem)
          refine Code.Wp.modify_bind ((hbody ls as p todo acc hp _ w h hs').bind ?_)
          rintro _ acc w ⟨rfl, ls', as', hw, hp'⟩
          refine (ok_successor hw hs' hl hp').bind ?_
          rintro _ _ w ⟨rfl, hw, rfl⟩
          exact ih hw hs' hp' (by simpa using hfuel) (by simp [hbegan]) hopen

theorem ok_nodes (h : At L none ls [] w) (hs : ScansOk s) (hl : L l = true) :
    Ok (access (.nodes l)) s w fun s' a w' => s' = s ∧ At L none ls [] w' ∧ a = ls l := by
  refine Ok.access h hs fun w hw => ?_
  obtain ⟨ls', hsound, heq, -⟩ := hw.list hl
  have hnodes := (hsound.chain l).nodes_eq (hsound.length_le l)
  exact ⟨ls' l, w, by simp [Access.run, hnodes], hw, heq⟩

theorem ok_head (h : At L none ls [] w) (hs : ScansOk s) (hl : L l = true) :
    Ok (access (.head l)) s w fun s' a w' => s' = s ∧ At L none ls [] w' ∧ a = (ls l).head? := by
  refine Ok.access h hs fun w hw => ?_
  obtain ⟨ls', hsound, heq, -⟩ := hw.list hl
  exact ⟨w.head l, w, rfl, hw, heq ▸ (hsound.chain l).head_eq⟩

/-- **A scan** comes to every node that was on the list when it began. -/
theorem ok_threadForeachSafe (hl : L l = true) (hbody : TurnOk L l body) {acc : β}
    (h : At L none ls [] w) (hs : ScansOk s) :
    Ok (threadForeachSafe l body acc) s w fun s' _ w' =>
      ScansOk s' ∧ ∃ ls', At L none ls' [] w' := by
  have hput : ∀ scan : Scan, scan.visited <+: scan.began →
      (scan.ended = true → scan.visited = scan.began) → ScansOk (scan :: s) :=
    fun scan hfront hall scan' hmem => by
      obtain rfl | hmem := List.mem_cons.mp hmem
      · exact ⟨hfront, hall⟩
      · exact hs scan' hmem
  have hs₁ : ScansOk (⟨ls l, [], false⟩ :: s) := hput _ List.nil_prefix (by simp)
  refine (ok_nodes h hs hl).bind ?_
  rintro _ _ w ⟨rfl, hw, rfl⟩
  refine Code.Wp.modify_bind ((ok_head hw hs₁ hl).bind ?_)
  rintro _ _ w ⟨rfl, hw, rfl⟩
  refine (ok_successor hw hs₁ hl (List.nil_append (ls l)).symm).bind ?_
  rintro _ _ w ⟨rfl, hw, rfl⟩
  refine (ok_foreachSafe hl hbody _ hw hs₁ (List.nil_append (ls l)).symm (Nat.lt_succ_self _) rfl
    rfl).bind ?_
  rintro _ acc w ⟨rfl, hw⟩
  exact Code.Wp.modify_bind (Code.Wp.pure ⟨hput _ (List.prefix_refl _) fun _ => rfl, hw⟩)

end Scans

/-! ## The turns -/

section Turns
variable {α β : Type} {L : ListName → Bool} {ls : ListName → List Nat} {as bs : List Nat}
  {l : ListName} {p : Nat} {m m' : CkptM α}

theorem Keeps.pure (a : α) : Keeps L ls (Pure.pure a) := fun _ _ h _ => Code.Wp.pure ⟨rfl, h⟩

theorem Keeps.bind {f : α → CkptM β} (hm : Keeps L ls m) (hf : ∀ a, Keeps L ls (f a)) :
    Keeps L ls (m >>= f) := fun s w h hs => by
  refine (hm s w h hs).bind ?_
  rintro _ a w ⟨rfl, hw⟩
  exact hf a _ w hw hs

theorem Keeps.ite {c : Prop} [Decidable c] (hm : Keeps L ls m) (hm' : Keeps L ls m') :
    Keeps L ls (if c then m else m') := fun s w h hs => 
  Code.Wp.ite (fun _ => hm s w h hs) fun _ => hm' s w h hs

theorem Keeps.assert {c : Prop} [Decidable c] : Keeps L ls (xndAssert c) := fun s w h hs => by
  refine (Ok.assert (h.fine hs)).mono ?_
  rintro _ _ _ ⟨rfl, rfl, -⟩
  exact ⟨rfl, h⟩

theorem Keeps.either {a b : CkptM Bool} (ha : Keeps L ls a) (hb : Keeps L ls b) :
    Keeps L ls (either a b) :=
  ha.bind fun _ => .ite (.pure true) hb

theorem Keeps.both {a b : CkptM Bool} (ha : Keeps L ls a) (hb : Keeps L ls b) :
    Keeps L ls (both a b) :=
  ha.bind fun _ => .ite hb (.pure false)

/-- A field of a descriptor on the list. -/
theorem Keeps.field {c : Access} {f : Descr → c.Answer}
    (hc : ∀ w, c.run w = (dataAt w.cells p).map fun d => (f d, w)) (hl : L l = true)
    (hp : p ∈ ls l) : Keeps L ls (access c) := fun _ _ h hs =>
  Ok.read h hs fun w hw => by
    obtain ⟨d, hd⟩ := hw.exists_data (.inl ⟨hl, hp⟩)
    exact ⟨f d, by rw [hc, hd, Option.map_some]⟩

section Field
variable (hl : L l = true) (hp : p ∈ ls l)
include hl hp

theorem Keeps.state : Keeps L ls (access (.state p)) :=
  .field (c := .state p) (f := Descr.state) (fun _ => rfl) hl hp

theorem Keeps.exiting : Keeps L ls (access (.exiting p)) :=
  .field (c := .exiting p) (f := Descr.exiting) (fun _ => rfl) hl hp

theorem Keeps.joined : Keeps L ls (access (.joined p)) :=
  .field (c := .joined p) (f := Descr.joined) (fun _ => rfl) hl hp

theorem Keeps.gone : Keeps L ls (access (.gone p)) :=
  .field (c := .gone p) (f := Descr.dead) (fun _ => rfl) hl hp

theorem Keeps.isState (state : ThreadState) : Keeps L ls (isState p state) :=
  (Keeps.state hl hp).bind fun _ => .pure _

theorem Keeps.cas : Keeps L ls (access (.cas p)) := fun _ _ h hs =>
  Ok.access h hs fun w hw => by
    obtain ⟨d, hd⟩ := hw.exists_data (.inl ⟨hl, hp⟩)
    obtain ⟨ls', hsound, hrest⟩ := hw.sound
    by_cases hrunning : d.state = .stRunning
    · exact ⟨true, w.set p fun d => { d with state := .stSignaled },
        by simp [Access.run, hd, hrunning], hw.locked, hw.transit, hw.idle, hw.known, ls',
        hsound.set fun d _ hj => .inl hj, hrest⟩
    · exact ⟨false, w, by simp [Access.run, hd, hrunning], hw⟩

end Field

theorem Keeps.leaves {f : α → CkptM β} (hm : Keeps L ls m) (hf : ∀ a, Leaves L ls l bs (f a)) :
    Leaves L ls l bs (m >>= f) := fun s w h hs => by
  refine (hm s w h hs).bind ?_
  rintro _ a w ⟨rfl, hw⟩
  exact hf a _ w hw hs

theorem Leaves.ite {c : Prop} [Decidable c] (hm : Leaves L ls l bs m) (hm' : Leaves L ls l bs m') :
    Leaves L ls l bs (if c then m else m') := fun s w h hs => 
  Code.Wp.ite (fun _ => hm s w h hs) fun _ => hm' s w h hs

/-- The descriptor stays on the list. -/
theorem Leaves.stay (hp : ls l = as ++ p :: bs) (a : α) : Leaves L ls l bs (Pure.pure a) :=
  fun _ _ h _ => Code.Wp.pure ⟨rfl, ls, as ++ [p], h, by simp [hp]⟩

/-- The descriptor is removed. -/
theorem Leaves.remove (hthread : L .thread = true) (hzombie : L .zombie = false)
    (hp : ls .thread = as ++ p :: bs) (a : α) :
    Leaves L ls .thread bs (threadListRemove p >>= fun _ => Pure.pure a) := fun s w h hs => by
  refine (ok_threadListRemove h hs hthread hzombie hp).bind ?_
  rintro _ _ w ⟨rfl, ls', hw, heq⟩
  exact Code.Wp.pure ⟨rfl, ls', as, hw, heq⟩

theorem turnOk_suspendTurn (hthread : L .thread = true) (hzombie : L .zombie = false) :
    TurnOk L .thread suspendTurn := by
  rintro ls as p bs ⟨suspended, rescan⟩ hp
  have hmem : p ∈ ls .thread := by simp [hp]
  have hstate : ∀ state, Keeps L ls (isState p state) := Keeps.isState hthread hmem
  refine (Keeps.state hthread hmem).leaves fun state => Keeps.assert.leaves fun _ => ?_
  refine (Keeps.exiting hthread hmem).leaves fun exiting => .ite (.stay hp _) ?_
  refine (Keeps.joined hthread hmem).leaves fun joined =>
    .ite (.remove hthread hzombie hp _) ?_
  refine (((hstate _).both (.cas hthread hmem)).either (hstate _)).leaves fun signaled =>
    .ite ?_ ?_
  · exact (Keeps.gone hthread hmem).leaves fun gone =>
      .ite (.remove hthread hzombie hp _) (.stay hp _)
  · refine ((hstate _).either (hstate _)).leaves fun counted => .ite (.stay hp _) ?_
    exact ((hstate _).either (hstate _)).leaves fun busy => .ite (.stay hp _) (.stay hp _)

theorem turnOk_waitTurn (hthread : L .thread = true) (hzombie : L .zombie = false) :
    TurnOk L .thread waitTurn := by
  rintro ls as p bs ⟨exiting, killed⟩ hp
  have hmem : p ∈ ls .thread := by simp [hp]
  have hstate : ∀ state, Keeps L ls (isState p state) := Keeps.isState hthread hmem
  refine ((Keeps.joined hthread hmem).either (.exiting hthread hmem)).leaves fun flagged =>
    .ite ?_ ?_
  · exact ((hstate _).either (hstate _)).leaves fun still =>
      Keeps.assert.leaves fun _ => .stay hp _
  · refine (Keeps.joined hthread hmem).leaves fun joined => .ite (.remove hthread hzombie hp _) ?_
    refine (Keeps.exiting hthread hmem).leaves fun leaving => .ite ?_ (.stay hp _)
    exact (Keeps.gone hthread hmem).leaves fun gone =>
      .ite (.remove hthread hzombie hp _) (.stay hp _)

theorem turnOk_filter (hzombie : L .zombie = true) : TurnOk L .zombie fun th (_ : Unit) => do
    if ← access (.joined th) then zombieListRemove th else return () := by
  intro ls as p bs _ hp
  have hmem : p ∈ ls .zombie := by simp [hp]
  refine (Keeps.joined hzombie hmem).leaves fun joined => .ite (fun s w h hs => ?_) (.stay hp _)
  refine (ok_zombieListRemove h hs hzombie hp).mono ?_
  rintro _ _ w ⟨rfl, ls', hw, heq⟩
  exact ⟨rfl, ls', as, hw, heq⟩

end Turns

/-! ## Runs -/

section Runs
variable {α β : Type} {s : List Scan} {w w' : Threads} {l : ListName}

/-- The checkpoint thread holds no lock. -/
def Idle (w : Threads) : Prop := ∃ ls, At (fun _ => false) none ls [] w

/-- A scan with its lock. -/
theorem ok_scan {body : Nat → β → CkptM β} {acc : β} {k : β → CkptM α}
    {fin : List Scan → α → Threads → Prop}
    (hbody : TurnOk (update (fun _ => false) l true) l body) (h : Idle w) (hs : ScansOk s)
    (hk : ∀ a s w, ScansOk s → Idle w → Ok (k a) s w fin) :
    Ok (do
      access (.acquire l)
      let a ← threadForeachSafe l body acc
      access (.release l)
      k a) s w fin := by
  obtain ⟨ls, hw⟩ := h
  refine (ok_acquire hw hs rfl).bind ?_
  rintro _ _ w ⟨rfl, ls', hw, -⟩
  refine (ok_threadForeachSafe (Function.update_self ..) hbody hw hs).bind ?_
  rintro s a w ⟨hs, ls', hw⟩
  refine (ok_release hw hs (Function.update_self ..) rfl).bind ?_
  rintro _ _ w ⟨rfl, hw⟩
  rw [update_unlocked rfl] at hw
  exact hk a _ w hs ⟨ls', hw⟩

theorem ok_suspendThreads (fuel : Nat) (h : Idle w) (hs : ScansOk s) :
    Ok (suspendThreads fuel) s w fun s' _ w' => ScansOk s' ∧ Idle w' := by
  induction fuel generalizing s w with
  | zero =>
      obtain ⟨ls, hw⟩ := h
      exact ⟨hw.fine hs, by simp, by simp⟩
  | succ fuel ih =>
      refine ok_scan (turnOk_suspendTurn (by simp) (by simp)) h hs
        fun ⟨suspended, rescan⟩ s w hs h => ?_
      exact Code.Wp.ite (fun _ => ih h hs) fun _ => Code.Wp.pure ⟨hs, h⟩

theorem ok_waitForExitingThreads (fuel : Nat) (h : Idle w) (hs : ScansOk s) :
    Ok (waitForExitingThreads fuel) s w fun s' _ w' => ScansOk s' ∧ Idle w' := by
  induction fuel generalizing s w with
  | zero =>
      obtain ⟨ls, hw⟩ := h
      exact ⟨hw.fine hs, by simp, by simp⟩
  | succ fuel ih =>
      refine ok_scan (turnOk_waitTurn (by simp) (by simp)) h hs fun ⟨exiting, killed⟩ s w hs h => ?_
      exact Code.Wp.ite (fun _ => ih h hs) fun _ => Code.Wp.pure ⟨hs, h⟩

theorem ok_zombieListFilter (h : Idle w) (hs : ScansOk s) :
    Ok zombieListFilter s w fun s' _ w' => ScansOk s' ∧ Idle w' :=
  ok_scan (turnOk_filter (by simp)) h hs fun _ _ _ hs h => Code.Wp.pure ⟨hs, h⟩

theorem ok_runOps (fuel : Nat) (ops : List Op) (h : Idle w) (hs : ScansOk s) :
    Ok (runOps fuel ops) s w fun s' _ w' => ScansOk s' ∧ Idle w' := by
  induction ops generalizing s w with
  | nil => exact Code.Wp.pure ⟨hs, h⟩
  | cons op ops ih =>
      cases op with
      | suspendThreads =>
          exact (ok_suspendThreads fuel h hs).bind fun _ _ _ ⟨hs, h⟩ => ih h hs
      | waitForExitingThreads =>
          exact (ok_waitForExitingThreads fuel h hs).bind fun _ _ _ ⟨hs, h⟩ => ih h hs
      | zombieListFilter => exact (ok_zombieListFilter h hs).bind fun _ _ _ ⟨hs, h⟩ => ih h hs

theorem Fine.moves (h : Fine s w) (hmoves : Relation.ReflTransGen users.moves w w') : Fine s w' := by
  induction hmoves with
  | refl => exact h
  | tail _ hmove ih =>
      obtain ⟨⟨ls, hsound⟩, htransit, hs⟩ := ih
      obtain ⟨a, ha⟩ := hmove
      obtain ⟨ls', hsound', -, -, hlocked, hsame, -⟩ := hsound.user ha
      exact ⟨⟨ls', hsound'⟩, fun hfree => hsame.trans (htransit (hlocked ▸ hfree)), hs⟩

theorem idle_init : Idle .init :=
  ⟨_, rfl, rfl, fun _ => rfl, by simp, _, sound_init, rfl, fun _ => rfl⟩

/-- **Every run.** -/
theorem fine_of_reach {fuel : Nat} {ops : List Op}
    {c : Prog (fun c : Access => Option c.Answer) (List Scan) Stop Unit × Threads}
    (h : users.Reach (runOps fuel ops []) .init c) :
    Fine c.1.state c.2 ∧ (∀ s, c.1 ≠ .halt s .fault) ∧ ∀ s, c.1 ≠ .halt s .running := by
  have hall : Ok (runOps fuel ops) [] .init fun s' _ w' => ScansOk s' ∧ Idle w' :=
    ok_runOps fuel ops idle_init (by simp [ScansOk])
  obtain ⟨p, w⟩ := c
  obtain ⟨w₁, hmoves, hp⟩ := Prog.Holds.reach hall h
  cases p with
  | ret s a =>
      obtain ⟨hs, ls, hw⟩ := hp
      exact ⟨(hw.fine hs).moves hmoves, nofun, nofun⟩
  | halt s e =>
      obtain ⟨hfine, hfault, hrunning⟩ := hp
      exact ⟨hfine.moves hmoves, fun _ heq => hfault (Prog.halt.inj heq).2,
        fun _ heq => hrunning (Prog.halt.inj heq).2⟩
  | call s d k => exact ⟨(hp w hmoves).1, nofun, nofun⟩

end Runs

/-- **The lists of threads**, whatever the threads do between any two steps of the scans. -/
theorem descriptors_accounted {fuel : Nat} {ops : List Op}
    {c : Prog (fun c : Access => Option c.Answer) (List Scan) Stop Unit × Threads}
    (h : users.Reach (runOps fuel ops []) .init c) :
    (∃ ts zs, Chain c.2.cells (c.2.head .thread) ts ∧ Chain c.2.cells (c.2.head .zombie) zs ∧
      ∀ q, c.2.transit.toList.count q + ts.count q + zs.count q + c.2.freed.count q =
        if q < c.2.next then 1 else 0) ∧
    ((∀ l, c.2.locked l = false) → c.2.transit = none) ∧
    (∀ q ∈ c.2.freed, q ∈ c.2.everJoined) ∧
    (∀ scan ∈ c.1.state,
      scan.visited <+: scan.began ∧ (scan.ended = true → scan.visited = scan.began)) ∧
    (∀ s, c.1 ≠ .halt s .fault) ∧ ∀ s, c.1 ≠ .halt s .running := by
  obtain ⟨⟨⟨ls, hsound⟩, htransit, hs⟩, hfault, hrunning⟩ := fine_of_reach h
  exact ⟨⟨ls .thread, ls .zombie, hsound.chain _, hsound.chain _, hsound.once⟩, htransit,
    hsound.freed, hs, hfault, hrunning⟩

/-- A thread that is joined while its descriptor is on the way to `zombie_list`. -/
def joinedLate : List (Option Act) :=
  [some .create, some (.exit 1), some (.die 1), some (.move 0 .stSuspended)] ++
    List.replicate 11 none ++ [some (.join 1 true)] ++ List.replicate 11 none

theorem descriptors_accounted_joinedLate : ∃ c, users.Reach
      (runOps 3 [.waitForExitingThreads, .zombieListFilter] []) .init c ∧ c.2.freed = [1] ∧
      c.2.transit = none ∧ 1 ∈ c.2.everJoined := by
  obtain ⟨c, hreach, hend⟩ := Env.exists_drive Access.serve userStep
    (runOps 3 [.waitForExitingThreads, .zombieListFilter] [], Threads.init) joinedLate
    (fun c => decide (c.2.freed = [1] ∧ ∀ l, l ∈ [ListName.thread, .zombie] → c.2.locked l = false))
    (by decide +kernel)
  obtain ⟨hfreed, hlocked⟩ := of_decide_eq_true hend
  have hall := descriptors_accounted hreach
  exact ⟨c, hreach, hfreed, hall.2.1 fun l => hlocked l (by cases l <;> simp),
    hall.2.2.1 1 (by simp [hfreed])⟩

end Xnd.Suspend.Lists
