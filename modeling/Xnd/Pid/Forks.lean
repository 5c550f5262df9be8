import Xnd.Coord.PidTable
import Xnd.Lib.Machine

/-!
# Threads that fork

`coord_client_atfork_prepare` leaves the virtual id of the child to come in the
environment variable `XND_VIRTUAL_PID`, and `__fork_hook` reads it there once `fork`
has returned.  `oob_mutex` is held from the first handler to the second,
`coord_client_atfork_parent`, so another thread may prepare its own fork before the
first reads the variable.

The steps of a fork are the prepare handler, `fork`, the two calls of the parent
handler, the read of the variable and the update of the table.  The other mutexes of
the handlers are left out: they only take interleavings away.  A child sends its
handshake on the connection its parent made for it, and the coordinator, which serves
nobody else until then, answers with the id it reserved there.
-/
namespace Xnd.Pid
open Coord (PidTable)

/-- Where a thread is in `__fork_hook`; a child is its number in the order of the forks. -/
inductive ForkPc where
  | idle
  /-- After the prepare handler. -/
  | prepared
  /-- After `fork`. -/
  | forked (child : Nat)
  /-- After `pthread_mutex_unlock(&oob_mutex)` in the parent handler. -/
  | unlocked (child : Nat)
  /-- After `close(child_coord_fd)`. -/
  | closed (child : Nat)
  /-- After `env_get_pid_info`. -/
  | named (child : Nat) (virtRet : Int)
  deriving DecidableEq, Repr

structure Child where
  realPid : Int
  /-- `child_coord_fd` in its copy of the memory, as the connection. -/
  conn : Option Nat
  /-- `_virt_pid`, after its handshake. -/
  virtPid : Option Int
  deriving DecidableEq, Repr

/-- A process whose threads fork, with its children and what the coordinator has reserved. -/
structure ForkState where
  threads : List ForkPc
  oobMutex : Option Nat
  /-- `XND_VIRTUAL_PID` -/
  virtualPidEnv : Option Int
  /-- `child_coord_fd`, as the connection behind it. -/
  childCoordFd : Option Nat
  pidTable : PidTable
  children : List Child
  /-- What `__fork_hook` returned, and the child of that fork. -/
  returned : List (Int × Nat)
  -- the coordinator
  connections : Nat
  /-- The virtual id `coord_atfork` reserved on a connection. -/
  reserved : Nat → Option Int
  nextVirtPid : Int
  /-- The connection on which `coord_atfork` waits for the child. -/
  waiting : Option Nat

inductive ForkAction where
  /-- `coord_client_atfork_prepare` -/
  | prepare (t : Nat)
  | fork (t : Nat) (real : Int)
  /-- `coord_client_atfork_child` -/
  | handshake (child : Nat)
  | unlock (t : Nat)
  | close (t : Nat)
  | readEnv (t : Nat)
  | update (t : Nat)
  /-- The coordinator hands ids to other processes. -/
  | others (n : Nat)
  deriving DecidableEq, Repr

def ForkState.init (threads : Nat) (table : PidTable) (nextVirtPid : Int) : ForkState where
  threads := List.replicate threads .idle
  oobMutex := none
  virtualPidEnv := none
  childCoordFd := none
  pidTable := table
  children := []
  returned := []
  connections := 0
  reserved _ := none
  nextVirtPid := nextVirtPid
  waiting := none

def ForkState.goto (s : ForkState) (t : Nat) (pc : ForkPc) : ForkState :=
  { s with threads := s.threads.set t pc }

def forkStep : Machine ForkState ForkAction
  | s, .prepare t =>
      guarded (s.threads[t]? = some .idle ∧ s.oobMutex = none ∧ s.waiting = none)
        { s.goto t .prepared with
          oobMutex := some t
          virtualPidEnv := some s.nextVirtPid
          childCoordFd := some s.connections
          connections := s.connections + 1
          reserved := Function.update s.reserved s.connections (some s.nextVirtPid)
          nextVirtPid := s.nextVirtPid + 1
          waiting := some s.connections }
  | s, .fork t real =>
      guarded (s.threads[t]? = some .prepared)
        { s.goto t (.forked s.children.length) with
          children := s.children ++ [⟨real, s.childCoordFd, none⟩] }
  | s, .handshake c => do
      let child ← s.children[c]?
      let k ← child.conn
      guarded (s.waiting = some k)
        { s with
          children := s.children.set c { child with virtPid := s.reserved k }
          waiting := none }
  | s, .unlock t => do
      let .forked c ← s.threads[t]? | none
      some { s.goto t (.unlocked c) with oobMutex := none }
  | s, .close t => do
      let .unlocked c ← s.threads[t]? | none
      some { s.goto t (.closed c) with childCoordFd := none }
  | s, .readEnv t => do
      let .closed c ← s.threads[t]? | none
      let virt ← s.virtualPidEnv
      some (s.goto t (.named c virt))
  | s, .update t => do
      let .named c virt ← s.threads[t]? | none
      let child ← s.children[c]?
      some { s.goto t .idle with
        pidTable := s.pidTable.update virt child.realPid
        returned := (virt, c) :: s.returned }
  | s, .others n => some { s with nextVirtPid := s.nextVirtPid + n }

/-- What `__fork_hook` returned is the id that the child has, once it has one, and the table
of the parent maps it to the real id of that child. -/
def ForksMatch (s : ForkState) : Prop :=
  ∀ r ∈ s.returned, ∃ child, s.children[r.2]? = some child ∧
    (∀ virt, child.virtPid = some virt → virt = r.1) ∧
    s.pidTable.lookup r.1 = some child.realPid

instance (s : ForkState) : Decidable (ForksMatch s) := by
  unfold ForksMatch
  infer_instance

/-- The thread has given `oob_mutex` back and has not read the variable yet. -/
def ForkPc.unread : ForkPc → Bool
  | .unlocked _ | .closed _ => true
  | _ => false

/-- A fork is prepared only when no thread has yet to read the id of its own child. -/
def ReadBefore (s : ForkState) : ForkAction → Prop
  | .prepare _ => ∀ pc ∈ s.threads, pc.unread = false
  | _ => True

instance (s : ForkState) (a : ForkAction) : Decidable (ReadBefore s a) := by
  cases a <;> simp only [ReadBefore] <;> infer_instance

/-! ## The invariant -/

/-- From the prepare handler to the read of the variable. -/
def ForkPc.inWindow : ForkPc → Bool
  | .prepared | .forked _ | .unlocked _ | .closed _ => true
  | _ => false

/-- The mutex is held. -/
def ForkPc.holds : ForkPc → Bool
  | .prepared | .forked _ => true
  | _ => false

/-- The child whose fork the thread has made. -/
def ForkPc.child : ForkPc → Option Nat
  | .forked c | .unlocked c | .closed c | .named c _ => some c
  | _ => none

/-- The id reserved for a child. -/
def ForkState.Reserves (s : ForkState) (c : Nat) (virt : Int) : Prop :=
  ∃ child k, s.children[c]? = some child ∧ child.conn = some k ∧ s.reserved k = some virt

structure ForksOk (s : ForkState) : Prop where
  window : ∀ (t t' : Nat) (pc pc' : ForkPc), s.threads[t]? = some pc → s.threads[t']? = some pc' →
    pc.inWindow = true → pc'.inWindow = true → t = t'
  held : ∀ (t : Nat) (pc : ForkPc), s.threads[t]? = some pc → pc.holds = true →
    s.oobMutex = some t
  prepared : ∀ t : Nat, s.threads[t]? = some ForkPc.prepared → ∃ k, s.childCoordFd = some k ∧
    s.reserved k = s.virtualPidEnv ∧ (s.reserved k).isSome = true ∧
    ∀ child ∈ s.children, child.conn ≠ some k
  forked : ∀ (t : Nat) (pc : ForkPc) (c : Nat), s.threads[t]? = some pc → pc.inWindow = true →
    pc.child = some c → ∃ virt, s.virtualPidEnv = some virt ∧ s.Reserves c virt
  named : ∀ (t c : Nat) (virt : Int), s.threads[t]? = some (ForkPc.named c virt) →
    s.Reserves c virt
  conns : ∀ (c c' k : Nat) (child child' : Child), s.children[c]? = some child →
    s.children[c']? = some child' → child.conn = some k → child'.conn = some k → c = c'
  below : ∀ child ∈ s.children, ∀ k, child.conn = some k → k < s.connections
  ids : ∀ k virt, s.reserved k = some virt → k < s.connections ∧ virt < s.nextVirtPid
  distinct : ∀ k k' virt, s.reserved k = some virt → s.reserved k' = some virt → k = k'
  adopted : ∀ child ∈ s.children, ∀ virt, child.virtPid = some virt →
    ∃ k, child.conn = some k ∧ s.reserved k = some virt
  returned : ∀ r ∈ s.returned, s.Reserves r.2 r.1 ∧
    ∃ child, s.children[r.2]? = some child ∧ s.pidTable.lookup r.1 = some child.realPid

/-- An id is reserved for one child. -/
theorem ForksOk.child_unique {s : ForkState} (h : ForksOk s) {c c' : Nat} {virt : Int}
    (hc : s.Reserves c virt) (hc' : s.Reserves c' virt) : c = c' := by
  obtain ⟨child, k, hget, hk, hv⟩ := hc
  obtain ⟨child', k', hget', hk', hv'⟩ := hc'
  obtain rfl := h.distinct k k' virt hv hv'
  exact h.conns c c' k child child' hget hget' hk hk'

theorem ForksOk.forksMatch {s : ForkState} (h : ForksOk s) : ForksMatch s := by
  intro r hr
  obtain ⟨⟨child, k, hget, hk, hv⟩, child', hget', htable⟩ := h.returned r hr
  obtain rfl := Option.some.inj (hget.symm.trans hget')
  refine ⟨child, hget, fun virt hvirt => ?_, htable⟩
  obtain ⟨k', hk', hv'⟩ := h.adopted child (List.mem_of_getElem? hget) virt hvirt
  obtain rfl := Option.some.inj (hk.symm.trans hk')
  exact Option.some.inj (hv'.symm.trans hv)

theorem forksOk_init (n : Nat) (table : PidTable) (next : Int) :
    ForksOk (.init n table next) := by
  have hidle : ∀ (t : Nat) (pc : ForkPc), (List.replicate n ForkPc.idle)[t]? = some pc →
      pc = .idle :=
    fun t pc h => List.eq_of_mem_replicate (List.mem_of_getElem? h)
  constructor <;> simp only [ForkState.init] <;> grind [ForkPc.inWindow, ForkPc.holds, ForkPc.child]

/-! ## The steps -/

/-- A thread is where it went, or another one where it was. -/
theorem goto_cases {s : ForkState} {t t' : Nat} {pc pc' : ForkPc}
    (h : (s.threads.set t pc)[t']? = some pc') :
    (t' = t ∧ pc' = pc) ∨ (t' ≠ t ∧ s.threads[t']? = some pc') := by
  by_cases ht : t' = t
  · left
    rw [List.getElem?_set] at h
    grind
  · right
    rw [List.getElem?_set_ne (Ne.symm ht)] at h
    exact ⟨ht, h⟩

/-- The id of a child stays reserved. -/
theorem ForkState.Reserves.mono {s s' : ForkState} {c : Nat} {virt : Int}
    (h : s.Reserves c virt)
    (hchild : ∀ child, s.children[c]? = some child →
      ∃ child', s'.children[c]? = some child' ∧ child'.conn = child.conn)
    (hres : ∀ k virt, s.reserved k = some virt → s'.reserved k = some virt) :
    s'.Reserves c virt := by
  obtain ⟨child, k, hget, hk, hv⟩ := h
  obtain ⟨child', hget', hconn⟩ := hchild child hget
  exact ⟨child', k, hget', hconn.trans hk, hres k virt hv⟩

@[simp] theorem ForkPc.inWindow_of_holds {pc : ForkPc} (h : pc.holds = true) :
    pc.inWindow = true := by
  cases pc <;> simp_all [holds, inWindow]

theorem ForksOk.prepare {s s' : ForkState} {t : Nat} (h : ForksOk s)
    (hread : ReadBefore s (.prepare t)) (hs : forkStep s (.prepare t) = some s') : ForksOk s' := by
  obtain ⟨⟨hidle, hfree, -⟩, rfl⟩ := guarded_eq_some.mp hs
  -- nobody is between the prepare handler and the read
  have hout : ∀ (t' : Nat) (pc : ForkPc), s.threads[t']? = some pc → pc.inWindow = false := by
    intro t' pc hpc
    have hheld := h.held t' pc hpc
    have hunread := hread pc (List.mem_of_getElem? hpc)
    cases pc <;> simp_all [ForkPc.inWindow, ForkPc.holds, ForkPc.unread]
  have hnew : ∀ k virt, s.reserved k = some virt → k ≠ s.connections := by
    intro k virt hv
    have := h.ids k virt hv
    omega
  have hres : ∀ k virt, s.reserved k = some virt →
      Function.update s.reserved s.connections (some s.nextVirtPid) k = some virt := by
    intro k virt hv
    rw [Function.update_of_ne (hnew k virt hv)]
    exact hv
  have hcases : ∀ k virt,
      Function.update s.reserved s.connections (some s.nextVirtPid) k = some virt →
      (k = s.connections ∧ virt = s.nextVirtPid) ∨ s.reserved k = some virt := by
    intro k virt hv
    by_cases hk : k = s.connections
    · simp only [hk, Function.update_self, Option.some.injEq] at hv
      exact .inl ⟨hk, hv.symm⟩
    · rw [Function.update_of_ne hk] at hv
      exact .inr hv
  constructor
  case window =>
    intro t₁ t₂ pc₁ pc₂ h1 h2 hw1 hw2
    rcases goto_cases h1 with ⟨rfl, -⟩ | ⟨-, h1⟩
    · rcases goto_cases h2 with ⟨rfl, -⟩ | ⟨-, h2⟩
      · rfl
      · simp [hout t₂ pc₂ h2] at hw2
    · simp [hout t₁ pc₁ h1] at hw1
  case held =>
    intro t' pc ht hh
    rcases goto_cases ht with ⟨rfl, -⟩ | ⟨-, ht⟩
    · rfl
    · have := hout t' pc ht
      simp [ForkPc.inWindow_of_holds hh] at this
  case prepared =>
    intro t' _
    refine ⟨s.connections, rfl, Function.update_self .., by simp, ?_⟩
    intro child hchild hk
    exact Nat.lt_irrefl _ (h.below child hchild _ hk)
  case forked =>
    intro t' pc c ht hw hc
    rcases goto_cases ht with ⟨-, rfl⟩ | ⟨-, ht⟩
    · cases hc
    · simp [hout t' pc ht] at hw
  case named =>
    intro t' c virt ht
    rcases goto_cases ht with ⟨-, hpc⟩ | ⟨-, ht⟩
    · cases hpc
    · exact (h.named t' c virt ht).mono (fun child hget => ⟨child, hget, rfl⟩) hres
  case conns => exact h.conns
  case below => exact fun child hchild k hk => Nat.lt_succ_of_lt (h.below child hchild k hk)
  case ids =>
    intro k virt hv
    rcases hcases k virt hv with ⟨rfl, rfl⟩ | hv
    · simp only
      omega
    · have := h.ids k virt hv
      simp only
      omega
  case distinct =>
    intro k k' virt hv hv'
    rcases hcases k virt hv with ⟨rfl, rfl⟩ | hv <;> rcases hcases k' _ hv' with ⟨rfl, hk⟩ | hv'
    · rfl
    · have := (h.ids k' _ hv').2
      omega
    · have := (h.ids k _ hv).2
      omega
    · exact h.distinct k k' virt hv hv'
  case adopted =>
    intro child hchild virt hvirt
    obtain ⟨k, hk, hv⟩ := h.adopted child hchild virt hvirt
    exact ⟨k, hk, hres k virt hv⟩
  case returned =>
    intro r hr
    obtain ⟨hres', hchild⟩ := h.returned r hr
    exact ⟨hres'.mono (fun child hget => ⟨child, hget, rfl⟩) hres, hchild⟩

/-- A thread that has made its fork goes on, and nobody else is between the handler and the
read. -/
theorem ForksOk.advance {s : ForkState} (h : ForksOk s) {t : Nat} {pc : ForkPc} (pc' : ForkPc)
    (ht : s.threads[t]? = some pc) (hw : pc.inWindow = true) (hpc' : pc'.holds = false)
    (hchild : pc'.child = pc.child) (hnamed : ∀ c virt, pc' = .named c virt → s.Reserves c virt)
    (oob fd : Option Nat) :
    ForksOk { s.goto t pc' with oobMutex := oob, childCoordFd := fd } where
  window t₁ t₂ pc₁ pc₂ h1 h2 hw1 hw2 := by
    rcases goto_cases h1 with ⟨rfl, -⟩ | ⟨-, h1'⟩ <;> rcases goto_cases h2 with ⟨rfl, -⟩ | ⟨-, h2'⟩
    · rfl
    · exact h.window t₁ t₂ pc pc₂ ht h2' hw hw2
    · exact h.window t₁ t₂ pc₁ pc h1' ht hw1 hw
    · exact h.window t₁ t₂ pc₁ pc₂ h1' h2' hw1 hw2
  held t' pc₁ ht' hh := by
    rcases goto_cases ht' with ⟨rfl, rfl⟩ | ⟨hne, ht'⟩
    · rw [hpc'] at hh
      cases hh
    · exact absurd (h.window t' t pc₁ pc ht' ht (ForkPc.inWindow_of_holds hh) hw) hne
  prepared t' ht' := by
    rcases goto_cases ht' with ⟨rfl, rfl⟩ | ⟨hne, ht'⟩
    · cases hpc'
    · exact absurd (h.window t' t .prepared pc ht' ht rfl hw) hne
  forked t' pc₁ c ht' hw' hc := by
    rcases goto_cases ht' with ⟨rfl, rfl⟩ | ⟨hne, ht'⟩
    · exact h.forked t' pc c ht hw (hchild ▸ hc)
    · exact absurd (h.window t' t pc₁ pc ht' ht hw' hw) hne
  named t' c virt ht' := by
    rcases goto_cases ht' with ⟨rfl, hpc⟩ | ⟨-, ht'⟩
    · exact hnamed c virt hpc.symm
    · exact h.named t' c virt ht'
  conns := h.conns
  below := h.below
  ids := h.ids
  distinct := h.distinct
  adopted := h.adopted
  returned := h.returned

/-- A child that is there before is there after another was added. -/
theorem getElem?_snoc_of_some {α : Type} {l : List α} {x a : α} {i : Nat} (h : l[i]? = some a) :
    (l ++ [x])[i]? = some a := by
  rw [List.getElem?_append_left (List.getElem?_eq_some_iff.mp h).1]
  exact h

theorem getElem?_snoc_cases {α : Type} {l : List α} {x a : α} {i : Nat}
    (h : (l ++ [x])[i]? = some a) : l[i]? = some a ∨ (i = l.length ∧ a = x) := by
  by_cases hi : i < l.length
  · left
    rw [List.getElem?_append_left hi] at h
    exact h
  · right
    rw [List.getElem?_append_right (Nat.not_lt.mp hi)] at h
    have : i - l.length = 0 := by
      by_contra hne
      simp [hne] at h
    rw [this] at h
    exact ⟨by omega, (Option.some.inj h).symm⟩

theorem ForksOk.fork {s s' : ForkState} {t : Nat} {real : Int} (h : ForksOk s)
    (hs : forkStep s (.fork t real) = some s') : ForksOk s' := by
  obtain ⟨ht, rfl⟩ := guarded_eq_some.mp hs
  obtain ⟨k, hfd, henv, hsome, hfresh⟩ := h.prepared t ht
  obtain ⟨virt, hvirt⟩ := Option.isSome_iff_exists.mp hsome
  have hmono : ∀ c virt, s.Reserves c virt → ForkState.Reserves
      { s.goto t (.forked s.children.length) with
        children := s.children ++ [⟨real, s.childCoordFd, none⟩] } c virt :=
    fun c virt hc => hc.mono (fun child hget => ⟨child, getElem?_snoc_of_some hget, rfl⟩)
      fun _ _ => id
  have hother : ∀ (t' : Nat) (pc : ForkPc), t' ≠ t → s.threads[t']? = some pc →
      pc.inWindow = false := by
    intro t' pc hne ht'
    by_contra hw
    exact hne (h.window t' t pc .prepared ht' ht (Bool.of_not_eq_false hw) rfl)
  constructor
  case window =>
    intro t₁ t₂ pc₁ pc₂ h1 h2 hw1 hw2
    rcases goto_cases h1 with ⟨rfl, -⟩ | ⟨hne, h1⟩
    · rcases goto_cases h2 with ⟨rfl, -⟩ | ⟨hne, h2⟩
      · rfl
      · simp [hother t₂ pc₂ hne h2] at hw2
    · simp [hother t₁ pc₁ hne h1] at hw1
  case held =>
    intro t' pc ht' hh
    rcases goto_cases ht' with ⟨rfl, -⟩ | ⟨hne, ht'⟩
    · exact h.held t' .prepared ht rfl
    · have := hother t' pc hne ht'
      simp [ForkPc.inWindow_of_holds hh] at this
  case prepared =>
    intro t' ht'
    rcases goto_cases ht' with ⟨-, hpc⟩ | ⟨hne, ht'⟩
    · cases hpc
    · cases hother t' .prepared hne ht'
  case forked =>
    intro t' pc c ht' hw hc
    rcases goto_cases ht' with ⟨-, rfl⟩ | ⟨hne, ht'⟩
    · obtain rfl := Option.some.inj hc
      refine ⟨virt, henv ▸ hvirt, ⟨real, some k, none⟩, k, ?_, rfl, hvirt⟩
      simp [hfd]
    · simp [hother t' pc hne ht'] at hw
  case named =>
    intro t' c virt ht'
    rcases goto_cases ht' with ⟨-, hpc⟩ | ⟨-, ht'⟩
    · cases hpc
    · exact hmono c virt (h.named t' c virt ht')
  case conns =>
    intro c c' k' child child' hget hget' hk hk'
    rcases getElem?_snoc_cases hget with hget | ⟨rfl, rfl⟩ <;>
      rcases getElem?_snoc_cases hget' with hget' | ⟨rfl, rfl⟩
    · exact h.conns c c' k' child child' hget hget' hk hk'
    · rw [hfd] at hk'
      exact absurd (hk.trans hk'.symm) (hfresh child (List.mem_of_getElem? hget))
    · rw [hfd] at hk
      exact absurd (hk'.trans hk.symm) (hfresh child' (List.mem_of_getElem? hget'))
    · rfl
  case below =>
    intro child hchild k' hk'
    rcases List.mem_append.mp hchild with hchild | hchild
    · exact h.below child hchild k' hk'
    · obtain rfl := List.mem_singleton.mp hchild
      obtain rfl := Option.some.inj (hfd.symm.trans hk')
      exact (h.ids k virt hvirt).1
  case ids => exact h.ids
  case distinct => exact h.distinct
  case adopted =>
    intro child hchild virt' hvirt'
    rcases List.mem_append.mp hchild with hchild | hchild
    · exact h.adopted child hchild virt' hvirt'
    · obtain rfl := List.mem_singleton.mp hchild
      cases hvirt'
  case returned =>
    intro r hr
    obtain ⟨hres, child, hget, htable⟩ := h.returned r hr
    exact ⟨hmono r.2 r.1 hres, child, getElem?_snoc_of_some hget, htable⟩

/-- The coordinator answers a child with the id reserved on its connection. -/
theorem ForksOk.handshake {s s' : ForkState} {c : Nat} (h : ForksOk s)
    (hs : forkStep s (.handshake c) = some s') : ForksOk s' := by
  simp only [forkStep, Option.bind_eq_bind, Option.bind_eq_some_iff, guarded_eq_some] at hs
  obtain ⟨child, hget, k, hk, -, rfl⟩ := hs
  have hlt := (List.getElem?_eq_some_iff.mp hget).1
  have hcases : ∀ (c' : Nat) (child' : Child),
      (s.children.set c { child with virtPid := s.reserved k })[c']? = some child' →
      ∃ child₀, s.children[c']? = some child₀ ∧ child'.conn = child₀.conn ∧
        child'.realPid = child₀.realPid ∧
        (child'.virtPid = child₀.virtPid ∨ child'.virtPid = s.reserved k ∧ child'.conn = some k) := by
    intro c' child' hget'
    by_cases hc : c' = c
    · subst hc
      rw [List.getElem?_set_self hlt] at hget'
      obtain rfl := Option.some.inj hget'
      exact ⟨child, hget, rfl, rfl, .inr ⟨rfl, hk⟩⟩
    · rw [List.getElem?_set_ne (Ne.symm hc)] at hget'
      exact ⟨child', hget', rfl, rfl, .inl rfl⟩
  have hthere : ∀ (c' : Nat) (child₀ : Child), s.children[c']? = some child₀ → ∃ child',
      (s.children.set c { child with virtPid := s.reserved k })[c']? = some child' ∧
        child'.conn = child₀.conn ∧ child'.realPid = child₀.realPid := by
    intro c' child₀ hget'
    by_cases hc : c' = c
    · subst hc
      obtain rfl := Option.some.inj (hget.symm.trans hget')
      exact ⟨_, List.getElem?_set_self hlt, rfl, rfl⟩
    · exact ⟨child₀, (List.getElem?_set_ne (Ne.symm hc)).trans hget', rfl, rfl⟩
  have hmono : ∀ c' virt, s.Reserves c' virt → ForkState.Reserves
      { s with children := s.children.set c { child with virtPid := s.reserved k }
               waiting := none } c' virt := by
    intro c' virt hc'
    refine hc'.mono ?_ fun _ _ => id
    intro child₀ hget'
    obtain ⟨child', h1, h2, -⟩ := hthere c' child₀ hget'
    exact ⟨child', h1, h2⟩
  constructor
  case window => exact h.window
  case held => exact h.held
  case prepared =>
    intro t ht
    obtain ⟨k', hfd, henv, hsome, hfresh⟩ := h.prepared t ht
    refine ⟨k', hfd, henv, hsome, fun child' hchild' => ?_⟩
    obtain ⟨c', hget'⟩ := List.mem_iff_getElem?.mp hchild'
    obtain ⟨child₀, hget₀, hconn, -⟩ := hcases c' child' hget'
    exact hconn ▸ hfresh child₀ (List.mem_of_getElem? hget₀)
  case forked =>
    intro t pc c' ht hw hc
    obtain ⟨virt, henv, hres⟩ := h.forked t pc c' ht hw hc
    exact ⟨virt, henv, hmono c' virt hres⟩
  case named => exact fun t c' virt ht => hmono c' virt (h.named t c' virt ht)
  case conns =>
    intro c₁ c₂ k' child₁ child₂ h1 h2 hk1 hk2
    obtain ⟨child₁', h1, he1, -⟩ := hcases c₁ child₁ h1
    obtain ⟨child₂', h2, he2, -⟩ := hcases c₂ child₂ h2
    exact h.conns c₁ c₂ k' child₁' child₂' h1 h2 (he1 ▸ hk1) (he2 ▸ hk2)
  case below =>
    intro child' hchild' k' hk'
    obtain ⟨c', hget'⟩ := List.mem_iff_getElem?.mp hchild'
    obtain ⟨child₀, hget₀, hconn, -⟩ := hcases c' child' hget'
    exact h.below child₀ (List.mem_of_getElem? hget₀) k' (hconn ▸ hk')
  case ids => exact h.ids
  case distinct => exact h.distinct
  case adopted =>
    intro child' hchild' virt hvirt
    obtain ⟨c', hget'⟩ := List.mem_iff_getElem?.mp hchild'
    obtain ⟨child₀, hget₀, hconn, -, hold | ⟨hnew, hk'⟩⟩ := hcases c' child' hget'
    · obtain ⟨k', hk', hv⟩ := h.adopted child₀ (List.mem_of_getElem? hget₀) virt (hold ▸ hvirt)
      exact ⟨k', hconn ▸ hk', hv⟩
    · exact ⟨k, hk', hnew ▸ hvirt⟩
  case returned =>
    intro r hr
    obtain ⟨hres, child₀, hget₀, htable⟩ := h.returned r hr
    obtain ⟨child', hget', -, hreal⟩ := hthere r.2 child₀ hget₀
    exact ⟨hmono r.2 r.1 hres, child', hget', hreal ▸ htable⟩

/-- The table gets the entry of a child under the id reserved for it, which no other child
has. -/
theorem ForksOk.update {s s' : ForkState} {t : Nat} (h : ForksOk s)
    (hs : forkStep s (.update t) = some s') : ForksOk s' := by
  simp only [forkStep, Option.bind_eq_bind, Option.bind_eq_some_iff] at hs
  obtain ⟨pc, ht, hs⟩ := hs
  cases pc with
  | named c virt =>
      obtain ⟨child, hget, hs⟩ := Option.bind_eq_some_iff.mp hs
      obtain rfl := Option.some.inj hs
      have hres := h.named t c virt ht
      constructor
      case window =>
        intro t₁ t₂ pc₁ pc₂ h1 h2 hw1 hw2
        rcases goto_cases h1 with ⟨-, rfl⟩ | ⟨-, h1⟩
        · cases hw1
        rcases goto_cases h2 with ⟨-, rfl⟩ | ⟨-, h2⟩
        · cases hw2
        exact h.window t₁ t₂ pc₁ pc₂ h1 h2 hw1 hw2
      case held =>
        intro t' pc ht' hh
        rcases goto_cases ht' with ⟨-, rfl⟩ | ⟨-, ht'⟩
        · cases hh
        · exact h.held t' pc ht' hh
      case prepared =>
        intro t' ht'
        rcases goto_cases ht' with ⟨-, hpc⟩ | ⟨-, ht'⟩
        · cases hpc
        · exact h.prepared t' ht'
      case forked =>
        intro t' pc c' ht' hw hc
        rcases goto_cases ht' with ⟨-, rfl⟩ | ⟨-, ht'⟩
        · cases hw
        · exact h.forked t' pc c' ht' hw hc
      case named =>
        intro t' c' virt' ht'
        rcases goto_cases ht' with ⟨-, hpc⟩ | ⟨-, ht'⟩
        · cases hpc
        · exact h.named t' c' virt' ht'
      case conns => exact h.conns
      case below => exact h.below
      case ids => exact h.ids
      case distinct => exact h.distinct
      case adopted => exact h.adopted
      case returned =>
        intro r hr
        by_cases hv : r.1 = virt
        · have hr' : s.Reserves r.2 r.1 := by
            rcases List.mem_cons.mp hr with rfl | hr
            · exact hres
            · exact (h.returned r hr).1
          obtain rfl := h.child_unique (hv ▸ hr') hres
          refine ⟨hr', child, hget, ?_⟩
          rw [hv]
          exact s.pidTable.lookup_update_self virt child.realPid
        · rcases List.mem_cons.mp hr with rfl | hr
          · exact absurd rfl hv
          · obtain ⟨hr', child', hget', htable⟩ := h.returned r hr
            refine ⟨hr', child', hget', ?_⟩
            rw [← htable]
            exact s.pidTable.lookup_update_of_ne hv
  | _ => cases hs

theorem ForksOk.others {s : ForkState} (h : ForksOk s) (n : Nat) :
    ForksOk { s with nextVirtPid := s.nextVirtPid + n } where
  window := h.window
  held := h.held
  prepared := h.prepared
  forked := h.forked
  named := h.named
  conns := h.conns
  below := h.below
  ids k virt hv := by
    have := h.ids k virt hv
    simp only
    omega
  distinct := h.distinct
  adopted := h.adopted
  returned := h.returned

theorem ForksOk.step {s s' : ForkState} {a : ForkAction} (h : ForksOk s) (ha : ReadBefore s a)
    (hs : forkStep s a = some s') : ForksOk s' := by
  cases a with
  | prepare t => exact h.prepare ha hs
  | fork t real => exact h.fork hs
  | handshake c => exact h.handshake hs
  | unlock t =>
      simp only [forkStep, Option.bind_eq_bind, Option.bind_eq_some_iff] at hs
      obtain ⟨pc, ht, hs⟩ := hs
      cases pc with
      | forked c =>
          obtain rfl := Option.some.inj hs
          exact h.advance (.unlocked c) ht rfl rfl rfl (fun c virt hpc => by cases hpc) none _
      | _ => cases hs
  | close t =>
      simp only [forkStep, Option.bind_eq_bind, Option.bind_eq_some_iff] at hs
      obtain ⟨pc, ht, hs⟩ := hs
      cases pc with
      | unlocked c =>
          obtain rfl := Option.some.inj hs
          exact h.advance (.closed c) ht rfl rfl rfl (fun c virt hpc => by cases hpc) _ none
      | _ => cases hs
  | readEnv t =>
      simp only [forkStep, Option.bind_eq_bind, Option.bind_eq_some_iff] at hs
      obtain ⟨pc, ht, hs⟩ := hs
      cases pc with
      | closed c =>
          obtain ⟨virt, hvirt, hs⟩ := Option.bind_eq_some_iff.mp hs
          obtain rfl := Option.some.inj hs
          obtain ⟨virt', hvirt', hres⟩ := h.forked t (.closed c) c ht rfl rfl
          obtain rfl := Option.some.inj (hvirt.symm.trans hvirt')
          refine h.advance (.named c virt) ht rfl rfl rfl ?_ _ _
          intro c' virt' hpc
          obtain ⟨rfl, rfl⟩ := ForkPc.named.inj hpc
          exact hres
      | _ => cases hs
  | update t => exact h.update hs
  | others n =>
      obtain rfl := Option.some.inj hs
      exact h.others n

/-- **Concurrent forks.**  In a run in which a fork is prepared only when no thread has yet to
read the id of its own child, every `__fork_hook` that returned has returned the id of its
child, under which the table has the child's real id. -/
theorem forksMatch_of_readBefore {n : Nat} {table : PidTable} {next : Int} {s : ForkState}
    (h : forkStep.Runs ReadBefore (.init n table next) s) : ForksMatch s :=
  (h.invariant (fun _ _ _ hs ha hstep => ForksOk.step hs ha hstep) (forksOk_init n table next)).forksMatch

/-- Two threads fork, one after the other. -/
theorem forksMatch_oneByOne : ∃ s, forkStep.Runs ReadBefore (.init 2 .empty 5) s ∧ ForksMatch s ∧
    s.returned = [(6, 1), (5, 0)] := by
  obtain ⟨s, hruns, hs⟩ := Machine.exists_runs forkStep ReadBefore (.init 2 .empty 5)
    (fun s => s.returned = [(6, 1), (5, 0)])
    [.prepare 0, .fork 0 200, .handshake 0, .unlock 0, .close 0, .readEnv 0, .prepare 1, .fork 1 201,
      .update 0, .unlock 1, .handshake 1, .close 1, .readEnv 1, .update 1] (by decide)
  exact ⟨s, hruns, forksMatch_of_readBefore hruns, of_decide_eq_true hs⟩

/-- A thread prepares its fork before another has read the id of its child, which then gets
the id of the child to come. -/
theorem not_forksMatch_twoThreads : ¬ ∀ n table next s,
    forkStep.Runs (fun _ _ => True) (.init n table next) s → ForksMatch s := by
  intro hmatch
  obtain ⟨s, hruns, hs⟩ := Machine.exists_runs forkStep (fun _ _ => True) (.init 2 .empty 5)
    (fun s => ¬ ForksMatch s)
    [.prepare 0, .fork 0 200, .handshake 0, .unlock 0, .close 0, .prepare 1, .readEnv 0, .update 0]
    (by decide)
  exact of_decide_eq_true hs (hmatch 2 .empty 5 s hruns)

end Xnd.Pid
