import Xnd.Lib.Deadlock
import Xnd.Lib.Machine

/-!
# The order of the mutexes

A translation takes the mutex of the pid table, and `oob_mutex` under it when the table
does not know the id.  The handlers of `fork` take `oob_mutex` first and the mutex of
the table after it.  So a translation that asks the coordinator and a fork that is being
prepared can each wait for the other.

A call is here the list of the mutexes that it takes and gives back, in the order of the
code.  `places` are the points of these lists that a thread can be at, with what it
holds there; what is said of all of them is computed.
-/
namespace Xnd.Pid

inductive Mutex where
  | oobMutex | pidTable | ckptMtx
  /-- `thread_list.lock` -/
  | threadList
  /-- `zombie_list.lock` -/
  | zombieList
  /-- `ckpt_thread.lock` -/
  | ckptThread
  deriving DecidableEq, Repr

inductive LockOp where
  | acquire (l : Mutex)
  | release (l : Mutex)
  /-- `pid_table_virtual_to_real` or `pid_table_real_to_virtual`; after a miss,
  `virt_to_real_pid_from_coord` or `real_to_virt_pid_from_coord`. -/
  | lookup
  deriving DecidableEq, Repr

inductive Call where
  /-- `virtual_to_real_pid` and `real_to_virtual_pid` -/
  | translate
  /-- `pid_table_erase` in `__wait4_hook`, between `pid_table_acquire` and
  `pid_table_release` -/
  | erase
  | notifyCoordOfExit
  /-- `__fork_hook` -/
  | fork
  /-- `__fork_hook`, when `fork` fails: `xnd_atfork_failed` takes the place of the parent
  handler. -/
  | forkFailed
  deriving DecidableEq, Repr

/-- `xnd_atfork_prepare` -/
def atforkPrepare : List LockOp :=
  [.acquire .oobMutex, .acquire .pidTable, .acquire .ckptMtx, .acquire .threadList,
    .acquire .zombieList, .acquire .ckptThread]

/-- `xnd_atfork_parent`, and `xnd_atfork_failed`. -/
def atforkParent : List LockOp :=
  [.release .oobMutex, .release .pidTable, .release .ckptThread, .release .zombieList,
    .release .threadList, .release .ckptMtx]

/-- `pid_table_update` or `pid_table_erase` under the mutex of the table. -/
def changeTable : List LockOp := [.acquire .pidTable, .release .pidTable]

/-- `virt_to_real_pid_from_coord`, `real_to_virt_pid_from_coord` and `notify_coord_of_exit` -/
def askCoord : List LockOp := [.acquire .oobMutex, .release .oobMutex]

def Call.code : Call → List LockOp
  | .translate => [.acquire .pidTable, .lookup, .release .pidTable]
  | .erase => changeTable
  | .notifyCoordOfExit => askCoord
  | .fork => atforkPrepare ++ atforkParent ++ changeTable
  | .forkFailed => atforkPrepare ++ atforkParent

/-- What is left of the call a thread is in, and the mutexes it holds. -/
structure LockThread where
  code : List LockOp
  held : List Mutex
  deriving DecidableEq, Repr

namespace LockThread

def idle : LockThread := ⟨[], []⟩

/-- The thread after its next operation; whether the table knows the id. -/
def next (found : Bool) : LockThread → LockThread
  | ⟨.acquire l :: code, held⟩ => ⟨code, l :: held⟩
  | ⟨.release l :: code, held⟩ => ⟨code, held.erase l⟩
  | ⟨.lookup :: code, held⟩ => ⟨if found then code else askCoord ++ code, held⟩
  | th => th

/-- The mutex that the thread is about to take. -/
def wants (th : LockThread) : Option Mutex :=
  match th.code with
  | .acquire l :: _ => some l
  | _ => none

/-- In a translation that missed, about to take `oob_mutex`. -/
def missed (th : LockThread) : Prop := th.wants = some .oobMutex ∧ .pidTable ∈ th.held

/-- In the prepare handler, about to take the mutex of the table. -/
def preparing (th : LockThread) : Prop := th.wants = some .pidTable ∧ .oobMutex ∈ th.held

instance (th : LockThread) : Decidable th.missed := inferInstanceAs (Decidable (_ ∧ _))
instance (th : LockThread) : Decidable th.preparing := inferInstanceAs (Decidable (_ ∧ _))

end LockThread

/-- The user threads of a process. -/
abbrev Threads := List LockThread

inductive LockAction where
  | call (t : Nat) (c : Call)
  /-- The next operation of a thread; what a lookup there finds. -/
  | turn (t : Nat) (found : Bool)
  deriving DecidableEq, Repr

def lockStep : Machine Threads LockAction
  | s, .call t c => do
      let th ← s[t]?
      guarded (th.code = []) (s.set t { th with code := c.code })
  | s, .turn t found => do
      let th ← s[t]?
      guarded (th.code ≠ [] ∧ ∀ l ∈ th.wants, ∀ th' ∈ s, l ∉ th'.held) (s.set t (th.next found))

/-- A thread is about to take a mutex. -/
def Threads.Wants (s : Threads) (t : Nat) (l : Mutex) : Prop :=
  ∃ th, s[t]? = some th ∧ th.wants = some l

def Threads.Holds (s : Threads) (t : Nat) (l : Mutex) : Prop :=
  ∃ th, s[t]? = some th ∧ l ∈ th.held

/-- A translation and the prepare handler do not meet: `oob_mutex` is taken by the prepare
handler only when no translation that missed is about to take it, and a translation
misses only when nobody in the prepare handler is about to take the mutex of the table. -/
def Apart (s : Threads) : LockAction → Prop
  | .turn t found => ∀ th ∈ s[t]?,
      (th.code = Call.fork.code ∨ th.code = Call.forkFailed.code → ∀ th' ∈ s, ¬ th'.missed) ∧
      (th.code.head? = some .lookup → found = false → ∀ th' ∈ s, ¬ th'.preparing)
  | _ => True

instance (s : Threads) (a : LockAction) : Decidable (Apart s a) := by
  cases a <;> simp only [Apart] <;> infer_instance

/-! ## The places of a thread -/

/-- A thread, and what it is after up to `n` operations, whatever its lookups find. -/
def LockThread.run : Nat → LockThread → List LockThread
  | 0, th => [th]
  | n + 1, th => th :: (run n (th.next true) ++ if th.code.head? = some .lookup then
      run n (th.next false) else [])

/-- Every point that a thread can be at. -/
def places : List LockThread :=
  [Call.translate, .erase, .notifyCoordOfExit, .fork, .forkFailed].flatMap fun c =>
    LockThread.run (c.code.length + askCoord.length) ⟨c.code, []⟩

theorem next_mem_places : ∀ th ∈ places, ∀ found, th.next found ∈ places := by decide

theorem call_mem_places (c : Call) : ⟨c.code, []⟩ ∈ places := by
  cases c <;> decide

theorem held_of_idle : ∀ th ∈ places, th.code = [] → th.held = [] := by decide

/-- A translation misses at a lookup. -/
theorem lookup_of_missed : ∀ th ∈ places, ∀ found, th.code ≠ [] → (th.next found).missed →
    th.code.head? = some .lookup ∧ found = false := by decide

/-- The mutex of the table is wanted under `oob_mutex` after the first operation of a fork. -/
theorem fork_of_preparing : ∀ th ∈ places, ∀ found, th.code ≠ [] → (th.next found).preparing →
    th.code = Call.fork.code ∨ th.code = Call.forkFailed.code := by decide

/-- The order of the prepare handler. -/
def prepareRank : Mutex → Nat
  | .oobMutex => 0
  | .pidTable => 1
  | .ckptMtx => 2
  | .threadList => 3
  | .zombieList => 4
  | .ckptThread => 5

/-- The order of a translation, with the mutex of the table first. -/
def translateRank : Mutex → Nat
  | .pidTable => 0
  | .oobMutex => 1
  | l => prepareRank l

/-- All but a translation that missed follows the order of the prepare handler. -/
theorem prepareRank_lt : ∀ th ∈ places, ¬ th.missed → ∀ l ∈ th.wants, ∀ l' ∈ th.held,
    prepareRank l' < prepareRank l := by decide

/-- All but the prepare handler follows the order of a translation. -/
theorem translateRank_lt : ∀ th ∈ places, ¬ th.preparing → ∀ l ∈ th.wants, ∀ l' ∈ th.held,
    translateRank l' < translateRank l := by decide

/-! ## The invariant -/

structure LocksOk (s : Threads) : Prop where
  place : ∀ th ∈ s, th ∈ places
  apart : (∀ th ∈ s, ¬ th.missed) ∨ ∀ th ∈ s, ¬ th.preparing

theorem locksOk_init (n : Nat) : LocksOk (List.replicate n .idle) where
  place th h := by
    rw [List.eq_of_mem_replicate h]
    decide
  apart := by
    left
    intro th h
    rw [List.eq_of_mem_replicate h]
    decide

/-- One thread goes on, and brings no translation that missed to a prepare handler. -/
theorem LocksOk.set {s : Threads} (h : LocksOk s) (t : Nat) {th : LockThread} (hth : th ∈ places)
    (hmissed : th.missed → ∀ th' ∈ s, ¬ th'.preparing)
    (hpreparing : th.preparing → ∀ th' ∈ s, ¬ th'.missed) : LocksOk (s.set t th) where
  place th' h' := by
    rcases List.mem_or_eq_of_mem_set h' with h' | rfl
    · exact h.place th' h'
    · exact hth
  apart := by
    have hboth : ¬ (th.missed ∧ th.preparing) := by
      rintro ⟨⟨hm, -⟩, hp, -⟩
      rw [hm] at hp
      cases hp
    have hset : ∀ p : LockThread → Prop, ¬ p th → (∀ th' ∈ s, ¬ p th') → ∀ th' ∈ s.set t th, ¬ p th' := by
      intro p hp hs th' h'
      rcases List.mem_or_eq_of_mem_set h' with h' | rfl
      · exact hs th' h'
      · exact hp
    by_cases hm : th.missed
    · exact .inr (hset _ (fun hp => hboth ⟨hm, hp⟩) (hmissed hm))
    by_cases hp : th.preparing
    · exact .inl (hset _ hm (hpreparing hp))
    rcases h.apart with hs | hs
    · exact .inl (hset _ hm hs)
    · exact .inr (hset _ hp hs)

theorem LocksOk.step {s s' : Threads} {a : LockAction} (h : LocksOk s) (ha : Apart s a)
    (hs : lockStep s a = some s') : LocksOk s' := by
  cases a with
  | call t c =>
      obtain ⟨th, hget, hs⟩ := Option.bind_eq_some_iff.mp hs
      obtain ⟨hidle, rfl⟩ := guarded_eq_some.mp hs
      have hheld := held_of_idle th (h.place th (List.mem_of_getElem? hget)) hidle
      apply h.set t
      · rw [hheld]
        exact call_mem_places c
      · intro hm
        simp [LockThread.missed, hheld] at hm
      · intro hp
        simp [LockThread.preparing, hheld] at hp
  | turn t found =>
      obtain ⟨th, hget, hs⟩ := Option.bind_eq_some_iff.mp hs
      obtain ⟨⟨hcode, -⟩, rfl⟩ := guarded_eq_some.mp hs
      have hth := h.place th (List.mem_of_getElem? hget)
      obtain ⟨hfork, hlookup⟩ := ha th hget
      apply h.set t (next_mem_places th hth found)
      · intro hm
        obtain ⟨hhead, hfound⟩ := lookup_of_missed th hth found hcode hm
        exact hlookup hhead hfound
      · intro hp
        exact hfork (fork_of_preparing th hth found hcode hp)

/-- **No deadlock.**  In a run that keeps translations that miss and prepare handlers apart, no
threads wait for each other in a cycle. -/
theorem not_deadlocked_of_apart {n : Nat} {s : Threads}
    (hruns : lockStep.Runs Apart (List.replicate n .idle) s) : ¬ Deadlocked s.Wants s.Holds := by
  have h := hruns.invariant (fun _ _ _ hs ha hstep => LocksOk.step hs ha hstep) (locksOk_init n)
  have hordered : ∀ rank : Mutex → Nat,
      (∀ th ∈ s, ∀ l ∈ th.wants, ∀ l' ∈ th.held, rank l' < rank l) →
      ¬ Deadlocked s.Wants s.Holds := by
    intro rank hrank
    apply not_deadlocked rank
    rintro t l l' ⟨th, hget, hl⟩ ⟨th', hget', hl'⟩
    obtain rfl := Option.some.inj (hget.symm.trans hget')
    exact hrank th (List.mem_of_getElem? hget) l hl l' hl'
  rcases h.apart with hs | hs
  · exact hordered prepareRank fun th hth => prepareRank_lt th (h.place th hth) (hs th hth)
  · exact hordered translateRank fun th hth => translateRank_lt th (h.place th hth) (hs th hth)

/-- A thread forks while another translates an id that its table has. -/
theorem not_deadlocked_hit : ∃ s, lockStep.Runs Apart (List.replicate 2 .idle) s ∧
    ¬ Deadlocked s.Wants s.Holds ∧ s.map LockThread.wants = [some .ckptMtx, none] := by
  obtain ⟨s, hruns, hs⟩ := Machine.exists_runs lockStep Apart (List.replicate 2 .idle)
    (fun s => s.map LockThread.wants = [some .ckptMtx, none])
    [.call 0 .fork, .call 1 .translate, .turn 1 true, .turn 0 true, .turn 1 true, .turn 1 true,
      .turn 0 true] (by decide +kernel)
  exact ⟨s, hruns, not_deadlocked_of_apart hruns, of_decide_eq_true hs⟩

/-- A thread that translates an id its table does not have, and a thread that forks, wait for
each other. -/
theorem deadlocked_forkAndTranslate : ¬ ∀ n s,
    lockStep.Runs (fun _ _ => True) (List.replicate n .idle) s →
      ¬ Deadlocked (Threads.Wants s) (Threads.Holds s) := by
  intro hfree
  obtain ⟨s, hruns, hs⟩ := Machine.exists_runs lockStep (fun _ _ => True) (List.replicate 2 .idle)
    (fun s => s.map (fun th => (th.wants, th.held)) =
      [(some .pidTable, [.oobMutex]), (some .oobMutex, [.pidTable])])
    [.call 0 .fork, .call 1 .translate, .turn 1 true, .turn 0 true, .turn 1 false] (by decide +kernel)
  have hs : s.map (fun th => (th.wants, th.held)) = _ := of_decide_eq_true hs
  have hplace : ∀ (t : Nat) (l l' : Mutex), (s.map fun th => (th.wants, th.held))[t]? =
      some (some l, [l']) → s.Wants t l ∧ s.Holds t l' := by
    intro t l l' hget
    rw [List.getElem?_map] at hget
    obtain ⟨th, hth, hpair⟩ := Option.map_eq_some_iff.mp hget
    obtain ⟨hw, hh⟩ := Prod.mk.inj hpair
    exact ⟨⟨th, hth, hw⟩, th, hth, hh ▸ List.mem_singleton_self l'⟩
  obtain ⟨hw₀, hh₀⟩ := hplace 0 .pidTable .oobMutex (by rw [hs]; rfl)
  obtain ⟨hw₁, hh₁⟩ := hplace 1 .oobMutex .pidTable (by rw [hs]; rfl)
  exact hfree 2 s hruns (deadlocked_of_pair hw₀ hh₁ hw₁ hh₀)

end Xnd.Pid
