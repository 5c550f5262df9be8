import Xnd.Coord.State
import Xnd.Lib.LinkedList

/-!
# `proc_list` in memory

`struct proc_list` is a head and a size over processes linked in memory.  The
functions below are the ones of `proc_list.c`, pointer by pointer; a read of an
address that holds no process, because it was freed, is a fault.

`Rep s l` says that the list is the sequence `l` and that its size is the number
of its nodes.  Adding puts a node in front, removing deletes the given node, and
the searches find the first node, so that the code over this memory can be
followed on the sequence.
-/
namespace Xnd.Coord
open LinkedList

/-- The memory of the coordinator that `proc_list` and `pid_table` are in, and the
two local variables of a traversal that removes nodes (`p` and `next` of
`proc_foreach_safe`). -/
structure ProcMem where
  cells : Cells Proc
  head : Option Nat
  size : Nat
  table : PidTable
  p : Option Nat
  next : Option Nat

abbrev MemM := CoordM ProcMem

/-- A pointer that is followed. -/
def orFault {α : Type} : Option α → MemM α
  | some a => pure a
  | none => Code.halt .fault

def deref (p : Nat) : MemM (Cell Proc) := do orFault ((← Code.get).cells p)

def memInit : ProcMem := ⟨fun _ => none, none, 0, .empty, none, none⟩

/-- `proc_exit_callback`. -/
def procExitCallback (p : Proc) : MemM Unit := do
  closeIfOpen p.fd
  closeIfOpen p.oobFd
  Code.modify fun s => { s with table := s.table.erase p.virtPid }

/-- `proc_list_add`, of a process at a fresh address. -/
def procListAdd (p : Nat) (a : Proc) : MemM Unit :=
  Code.modify fun s =>
    { s with cells := push s.cells s.head p a, head := some p, size := s.size + 1 }

/-- `proc_list_remove`. -/
def procListRemove (p : Nat) : MemM Unit := do
  let c ← deref p
  let s ← Code.get
  xndAssert .listLinks (if s.head = some p then c.prev = none else c.prev ≠ none)
  let (cells, head) ← orFault (mendNext s.cells s.head p c)
  let cells ← orFault (mendPrev cells c)
  Code.modify fun s => { s with cells, head }
  procExitCallback c.data
  Code.modify fun s => { s with cells := Function.update s.cells p none, size := s.size - 1 }

/-- `proc_list_find_by_real_pid`. -/
def procListFindByRealPid (real : Int) : MemM (Option Nat) := do
  let s ← Code.get
  orFault (findFrom s.cells (·.realPid = real) s.size s.head)

/-- `proc_list_virt_to_real`. -/
def procListVirtToReal (virt : Int) : MemM Int := do
  let s ← Code.get
  match ← orFault (findFrom s.cells (·.virtPid = virt) s.size s.head) with
  | some p => return (← deref p).data.realPid
  | none => return -1

/-- `proc_list_real_to_virt`. -/
def procListRealToVirt (real : Int) : MemM Int := do
  match ← procListFindByRealPid real with
  | some p => return (← deref p).data.virtPid
  | none => return -1

/-- The loop of `proc_foreach_safe`, at its two variables. -/
def foreachSafeLoop (body : Nat → MemM Unit) : Nat → MemM Unit
  | 0 => Code.halt .running
  | fuel + 1 => do
      match (← Code.get).p with
      | none => return ()
      | some p =>
          let c ← deref p
          Code.modify fun s => { s with next := c.next }
          body p
          Code.modify fun s => { s with p := s.next }
          foreachSafeLoop body fuel

/-- `proc_foreach_safe`. -/
def procForeachSafe (body : Nat → MemM Unit) : MemM Unit := do
  Code.modify fun s => { s with p := s.head }
  foreachSafeLoop body ((← Code.get).size + 1)

/-- `proc_list_filter`. -/
def procListFilter : MemM Unit :=
  procForeachSafe fun p => do
    let c ← deref p
    let gone ← sysProbe c.data.realPid
    if gone then procListRemove p else pure ()

/-- `proc_list_destroy`, without the list itself. -/
def procListDestroy : MemM Unit :=
  procForeachSafe fun p => do
    let c ← deref p
    procExitCallback c.data
    Code.modify fun s => { s with cells := Function.update s.cells p none }

/-! ## The sequence -/

/-- The list is `l`, and its size is the number of its nodes. -/
structure Rep (s : ProcMem) (l : List (Nat × Proc)) : Prop where
  cells : Represents s.cells s.head l
  size : s.size = l.length

theorem rep_memInit : Rep memInit [] := ⟨.empty, rfl⟩

/-- No fault, and `fin` at a return, whatever the answers allowed by `ok`. -/
def Safe {α : Type} (ok : ProcMem → (c : CoordCall) → c.Answer → Prop) (m : MemM α) (s : ProcMem)
    (fin : ProcMem → α → Prop) : Prop :=
  (m s).Holds (.answering ok) (fun _ _ => True) (fun _ e _ => e ≠ .fault) (fun s a _ => fin s a) ()

section Safe
variable {ok : ProcMem → (c : CoordCall) → c.Answer → Prop} {α β : Type} {s : ProcMem}

theorem Safe.mono {m : MemM α} {fin fin' : ProcMem → α → Prop} (h : Safe ok m s fin)
    (hf : ∀ s a, fin s a → fin' s a) : Safe ok m s fin' :=
  Prog.Holds.mono h fun s a _ => hf s a

theorem Safe.bind {m : MemM α} {f : α → MemM β} {M : ProcMem → α → Prop}
    {fin : ProcMem → β → Prop} (hm : Safe ok m s M) (hf : ∀ s a, M s a → Safe ok (f a) s fin) :
    Safe ok (m >>= f) s fin :=
  Prog.Holds.bind hm fun s a _ => hf s a

theorem Safe.pure {a : α} {fin : ProcMem → α → Prop} (h : fin s a) : Safe ok (Pure.pure a) s fin := h

theorem Safe.halt {e : CoordStop} (he : e ≠ .fault) {fin : ProcMem → α → Prop} :
    Safe ok (Code.halt e) s fin := he

theorem Safe.call {c : CoordCall} {fin : ProcMem → c.Answer → Prop}
    (h : ∀ r, ok s c r → fin s r) : Safe ok (Code.call c) s fin :=
  Prog.holds_call_answering trivial fun r hr => h r hr

theorem Safe.ite {p : Prop} [Decidable p] {m m' : MemM α} {fin : ProcMem → α → Prop}
    (hm : p → Safe ok m s fin) (hm' : ¬ p → Safe ok m' s fin) :
    Safe ok (if p then m else m') s fin := by
  split
  · exact hm ‹_›
  · exact hm' ‹_›

theorem Safe.xndAssert {failed : CoordAssertion} {b : Prop} [Decidable b]
    {fin : ProcMem → Unit → Prop} (h : b → fin s ()) : Safe ok (xndAssert failed b) s fin :=
  Safe.ite (fun hb => Safe.pure (h hb)) fun _ => Safe.halt CoordStop.noConfusion

theorem Safe.get_bind {f : ProcMem → MemM β} {fin : ProcMem → β → Prop} (h : Safe ok (f s) s fin) :
    Safe ok (Code.get >>= f) s fin := h

theorem Safe.modify_bind {g : ProcMem → ProcMem} {f : Unit → MemM β} {fin : ProcMem → β → Prop}
    (h : Safe ok (f ()) (g s) fin) : Safe ok (Code.modify g >>= f) s fin := h

/-- A step that only reads the memory: what it returns when no pointer it follows
is stale. -/
theorem Safe.orFault {o : Option α} {a : α} (ho : o = some a) {fin : ProcMem → α → Prop}
    (h : fin s a) : Safe ok (orFault o) s fin := by
  subst ho
  exact h

end Safe

/-! ## The functions on the sequence -/

section Functions
variable {ok : ProcMem → (c : CoordCall) → c.Answer → Prop} {s : ProcMem}
  {l as bs : List (Nat × Proc)} {p : Nat} {a : Proc}

/-- The locals of the traversal are what they were. -/
def SameLocals (s s' : ProcMem) : Prop := s'.p = s.p ∧ s'.next = s.next

theorem safe_deref (hr : Rep s (as ++ (p, a) :: bs)) :
    Safe ok (deref p) s fun s' c => s' = s ∧ c.data = a ∧ s.cells p = some c := by
  obtain ⟨next, prev, hc⟩ := hr.cells.exists_cell
  exact Safe.orFault hc ⟨rfl, rfl, hc⟩

theorem safe_procExitCallback (a : Proc) :
    Safe ok (procExitCallback a) s fun s' _ => s' = { s with table := s.table.erase a.virtPid } := by
  have step : ∀ fd : Int, Safe ok (closeIfOpen fd) s fun s' _ => s' = s :=
    fun fd => .ite (fun _ => .call fun _ _ => rfl) fun _ => .pure rfl
  refine (step a.fd).bind ?_
  rintro _ _ rfl
  refine (step a.oobFd).bind ?_
  rintro _ _ rfl
  exact Safe.pure rfl

/-- **Removal deletes the node.** -/
theorem safe_procListRemove (hr : Rep s (as ++ (p, a) :: bs)) :
    Safe ok (procListRemove p) s fun s' _ => Rep s' (as ++ bs) ∧ SameLocals s s' := by
  obtain ⟨h', head', hu, hrep⟩ := hr.cells.unlink
  obtain ⟨c, h₁, h₂, hc, hn, hp, rfl⟩ := unlink_eq_some.mp hu
  have hsize : s.size - 1 = (as ++ bs).length := by
    have := hr.size
    simp only [List.length_append, List.length_cons] at this ⊢
    omega
  refine Safe.bind (M := fun s' c' => s' = s ∧ c' = c) (Safe.orFault hc ⟨rfl, rfl⟩) ?_
  rintro s c ⟨rfl, rfl⟩
  refine Safe.get_bind (Safe.bind (M := fun s' _ => s' = s) (Safe.xndAssert fun _ => rfl) ?_)
  rintro s _ rfl
  refine Safe.bind (M := fun s' r => s' = s ∧ r = (h₁, head')) (Safe.orFault hn ⟨rfl, rfl⟩) ?_
  rintro s _ ⟨rfl, rfl⟩
  refine Safe.bind (M := fun s' r => s' = s ∧ r = h₂) (Safe.orFault hp ⟨rfl, rfl⟩) ?_
  rintro s _ ⟨rfl, rfl⟩
  refine Safe.modify_bind ((safe_procExitCallback _).bind ?_)
  rintro _ _ rfl
  exact Safe.pure ⟨⟨hrep, hsize⟩, rfl, rfl⟩

theorem safe_procListFind {P : Proc → Bool} (hr : Rep s l) :
    Safe ok (orFault (findFrom s.cells P s.size s.head)) s fun s' r =>
      s' = s ∧ r = (l.find? fun n => P n.2).map Prod.fst := by
  obtain ⟨last, hs⟩ := hr.cells.seg
  exact Safe.orFault (findFrom_eq hs (Nat.le_of_eq hr.size.symm)) ⟨rfl, rfl⟩

/-- A node that is found is on the list. -/
theorem exists_split_of_find {P : Nat × Proc → Bool} {n : Nat × Proc} (h : l.find? P = some n) :
    ∃ as bs, l = as ++ n :: bs :=
  List.append_of_mem (List.mem_of_find?_eq_some h)

theorem safe_procListVirtToReal (hr : Rep s l) (virt : Int) :
    Safe ok (procListVirtToReal virt) s fun s' _ => s' = s := by
  refine Safe.get_bind ((safe_procListFind hr).bind ?_)
  rintro s _ ⟨rfl, rfl⟩
  cases hf : l.find? fun n => decide (n.2.virtPid = virt) with
  | none => exact Safe.pure rfl
  | some n =>
      obtain ⟨as, bs, rfl⟩ := exists_split_of_find hf
      refine (safe_deref hr).bind ?_
      rintro s _ ⟨rfl, -⟩
      exact Safe.pure rfl

theorem safe_procListRealToVirt (hr : Rep s l) (real : Int) :
    Safe ok (procListRealToVirt real) s fun s' _ => s' = s := by
  refine Safe.bind (Safe.get_bind (safe_procListFind hr)) ?_
  rintro s _ ⟨rfl, rfl⟩
  cases hf : l.find? fun n => decide (n.2.realPid = real) with
  | none => exact Safe.pure rfl
  | some n =>
      obtain ⟨as, bs, rfl⟩ := exists_split_of_find hf
      refine (safe_deref hr).bind ?_
      rintro s _ ⟨rfl, -⟩
      exact Safe.pure rfl

/-! ### Traversals -/

/-- **A traversal that removes nodes.**  It is sound for an assertion about the
nodes still to come when the body keeps the assertion and the saved successor is
still the first of them. -/
theorem safe_foreachSafeLoop {body : Nat → MemM Unit} {J : ProcMem → List (Nat × Proc) → Prop}
    (hlocals : ∀ s n q rest, J s rest → J { s with next := n, p := q } rest)
    (hcell : ∀ s p a bs, J s ((p, a) :: bs) →
      ∃ c, s.cells p = some c ∧ c.data = a ∧ c.next = front bs)
    (hbody : ∀ (s : ProcMem) p a bs, J s ((p, a) :: bs) → s.p = some p → s.next = front bs →
      Safe ok (body p) s fun s' _ => ∃ bs', J s' bs' ∧ s'.next = front bs' ∧ bs'.length ≤ bs.length)
    (fuel : Nat) (hJ : J s bs) (hp : s.p = front bs) (hf : bs.length < fuel) :
    Safe ok (foreachSafeLoop body fuel) s fun s' _ => J s' [] := by
  induction fuel generalizing s bs with
  | zero => omega
  | succ fuel ih =>
      refine Safe.get_bind ?_
      rw [hp]
      cases bs with
      | nil => exact Safe.pure hJ
      | cons n bs =>
          obtain ⟨p, a⟩ := n
          obtain ⟨c, hc, rfl, hnext⟩ := hcell s p a bs hJ
          refine Safe.bind (M := fun s' c' => s' = s ∧ c' = c) (Safe.orFault hc ⟨rfl, rfl⟩) ?_
          rintro s c ⟨rfl, rfl⟩
          refine Safe.modify_bind ((hbody { s with next := c.next } p c.data bs
            (hlocals s _ s.p _ hJ) hp hnext).bind ?_)
          rintro s' _ ⟨bs', hJ', hn, hlen⟩
          rw [List.length_cons] at hf
          exact Safe.modify_bind (ih (hlocals s' s'.next _ _ hJ') hn (by omega))

/-- The cell of a node in front of `bs`. -/
theorem Rep.exists_cell (hr : Rep s (as ++ (p, a) :: bs)) :
    ∃ c, s.cells p = some c ∧ c.data = a ∧ c.next = front bs := by
  obtain ⟨last, hs⟩ := hr.cells.seg
  obtain ⟨_, _, -, -, next, hc, hbs⟩ := seg_append.mp hs
  exact ⟨_, hc, rfl, hbs.start_eq⟩

/-- A traversal of the whole list that leaves a list at every step. -/
theorem safe_procForeachSafe {body : Nat → MemM Unit}
    (hbody : ∀ (s : ProcMem) as p a bs, Rep s (as ++ (p, a) :: bs) → s.p = some p →
      s.next = front bs → Safe ok (body p) s fun s' _ =>
        ∃ as' bs', Rep s' (as' ++ bs') ∧ s'.next = front bs' ∧ bs'.length ≤ bs.length)
    (hr : Rep s l) : Safe ok (procForeachSafe body) s fun s' _ => ∃ l', Rep s' l' := by
  refine Safe.modify_bind (Safe.get_bind ?_)
  obtain ⟨last, hs⟩ := hr.cells.seg
  refine Safe.mono (safe_foreachSafeLoop (J := fun s rest => ∃ as, Rep s (as ++ rest))
    (fun s n q rest ⟨as, h⟩ => ⟨as, h.cells, h.size⟩) (fun s p a bs ⟨as, h⟩ => h.exists_cell)
    (fun s p a bs ⟨as, h⟩ hp hn => (hbody s as p a bs h hp hn).mono ?_) _
    ⟨[], hr.cells, hr.size⟩ hs.start_eq (Nat.lt_succ_of_le (Nat.le_of_eq hr.size.symm))) ?_
  · rintro s' _ ⟨as', bs', hr', hn', hlen⟩
    exact ⟨bs', ⟨as', hr'⟩, hn', hlen⟩
  · rintro s' _ ⟨as, hr'⟩
    exact ⟨_, hr'⟩

theorem safe_procListFilter (hr : Rep s l) :
    Safe ok procListFilter s fun s' _ => ∃ l', Rep s' l' := by
  refine safe_procForeachSafe (fun s as p a bs hr _ hn => ?_) hr
  refine (safe_deref hr).bind ?_
  rintro s c ⟨rfl, rfl, -⟩
  refine Safe.bind (M := fun s' _ => s' = s) (Safe.call fun _ _ => rfl) ?_
  rintro s gone rfl
  refine Safe.ite (fun _ => ?_) fun _ => Safe.pure ?_
  · exact (safe_procListRemove hr).mono fun s' _ h => ⟨as, bs, h.1, h.2.2.trans hn, Nat.le_refl _⟩
  · exact ⟨as ++ [(p, c.data)], bs, by simpa using hr, hn, Nat.le_refl _⟩

/-- The destruction of the list frees each node after it has read it; what is left
is a segment that begins at the saved successor. -/
theorem safe_procListDestroy (hr : Rep s l) : Safe ok procListDestroy s fun _ _ => True := by
  refine Safe.modify_bind (Safe.get_bind ?_)
  obtain ⟨last, hs⟩ := hr.cells.seg
  refine Safe.mono (safe_foreachSafeLoop
    (J := fun s rest => (∃ prev last, Seg s.cells prev (front rest) rest last none) ∧
      (rest.map Prod.fst).Nodup)
    (fun s n q rest h => h) ?_ ?_ _ ⟨⟨none, last, hs.start_eq ▸ hs⟩, hr.cells.nodup⟩ hs.start_eq
    (Nat.lt_succ_of_le (Nat.le_of_eq hr.size.symm))) fun _ _ _ => trivial
  · rintro s p a bs ⟨⟨prev, last, -, next, hc, hbs⟩, -⟩
    exact ⟨_, hc, rfl, hbs.start_eq⟩
  · rintro s p a bs ⟨⟨prev, last, -, next, hc, hbs⟩, hnodup⟩ - hn
    refine Safe.bind (M := fun s' c' => s' = s ∧ c' = ⟨a, next, prev⟩)
      (Safe.orFault hc ⟨rfl, rfl⟩) ?_
    rintro s _ ⟨rfl, rfl⟩
    refine (safe_procExitCallback a).bind ?_
    rintro _ _ rfl
    obtain ⟨hp, hnodup⟩ := List.nodup_cons.mp hnodup
    refine Safe.pure ⟨bs, ⟨⟨some p, last, ?_⟩, hnodup⟩, hn, Nat.le_refl _⟩
    rw [hbs.start_eq] at hbs
    exact hbs.congr fun q hq => Function.update_of_ne (by rintro rfl; exact hp hq) _ _

end Functions

end Xnd.Coord
