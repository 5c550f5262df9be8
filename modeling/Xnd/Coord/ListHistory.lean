import Xnd.Coord.ProcList

/-!
# Histories of `proc_list`

The functions of `proc_list.c` again, for nodes of any kind that has the fields of
`struct proc`, and with the two things that they ask of others left open: `kill`, and the
function that the field `cleanup` points to.

**A history refines its sequence** (`history_refines`): whatever nodes are added, removed and
filtered out, the memory is the sequence that results, and the cleanup of each node that is
removed is called once, when it is removed.  The functions of `ProcList.lean` are the ones
here, for processes whose cleanup is `proc_exit_callback` (`embed_remove`, `embed_filter`).

A traversal that ends takes no more turns than the list has nodes, so its fuel is one more.
-/
namespace Xnd.Coord.ProcList
open LinkedList Code

/-- The nodes of a list: what is in `struct proc`, and whether `cleanup` is set. -/
class ProcNode (α : Type) where
  proc : α → Proc
  hasCleanup : α → Bool

export ProcNode (proc hasCleanup)

/-- What the list asks of others. -/
inductive ListCall (α : Type) where
  /-- `kill(pid, 0)`. -/
  | kill (pid : Int)
  /-- `p->cleanup(p)`. -/
  | cleanup (p : Nat) (a : α)
  deriving DecidableEq

/-- The answers; that of `kill` is `errno`, where it fails. -/
def ListCall.Answer {α : Type} : ListCall α → Type
  | .kill _ => Option Nat
  | .cleanup _ _ => Unit

def esrch : Nat := 3

/-- The memory of a list, and the variables of `proc_foreach_safe`. -/
structure ListMem (α : Type) where
  cells : Cells α
  head : Option Nat
  size : Nat
  p : Option Nat
  next : Option Nat

abbrev ListM (α : Type) := Code (ListCall.Answer (α := α)) (ListMem α) CoordStop

/-- `proc_list_init`. -/
def init {α : Type} : ListMem α := ⟨fun _ => none, none, 0, none, none⟩

section Functions
variable {α : Type} [ProcNode α]

/-- A pointer that is followed. -/
def orFault {α β : Type} : Option β → ListM α β
  | some b => pure b
  | none => Code.halt .fault

def deref {α : Type} (p : Nat) : ListM α (Cell α) := do orFault ((← Code.get).cells p)

/-- `xnd_assert`. -/
def xndAssert {α : Type} (b : Prop) [Decidable b] : ListM α Unit :=
  if b then pure () else Code.halt (.assertion .listLinks)

/-- `kill(pid, 0)`. -/
def sysKill {α : Type} (pid : Int) : ListM α (Option Nat) := Code.call (ListCall.kill pid)

/-- `proc_list_add`. -/
def add (p : Nat) (a : α) : ListM α Unit :=
  Code.modify fun s =>
    { s with cells := push s.cells s.head p a, head := some p, size := s.size + 1 }

/-- `if (p->cleanup) p->cleanup(p)`. -/
def callCleanup (p : Nat) (a : α) : ListM α Unit :=
  if hasCleanup a = true then Code.call (ListCall.cleanup p a) else pure ()

/-- `proc_list_remove`. -/
def remove (p : Nat) : ListM α Unit := do
  let c ← deref p
  let s ← Code.get
  xndAssert (if s.head = some p then c.prev = none else c.prev ≠ none)
  let (cells, head) ← orFault (mendNext s.cells s.head p c)
  let cells ← orFault (mendPrev cells c)
  Code.modify fun s => { s with cells, head }
  callCleanup p c.data
  Code.modify fun s => { s with cells := Function.update s.cells p none, size := s.size - 1 }

/-- The loop of `proc_foreach_safe`. -/
def foreachSafeLoop {α : Type} (body : Nat → ListM α Unit) : Nat → ListM α Unit
  | 0 => Code.halt .running
  | fuel + 1 => do
      match (← Code.get).p with
      | none => return ()
      | some p =>
          let c ← deref p
          Code.modify fun s => { s with next := c.next }
          body p
          Code.modify fun s => { s with p := s.next }
          foreachSafeLoop body fuel

/-- `proc_foreach_safe`. -/
def foreachSafe {α : Type} (body : Nat → ListM α Unit) : ListM α Unit := do
  Code.modify fun s => { s with p := s.head }
  foreachSafeLoop body ((← Code.get).size + 1)

/-- `proc_list_filter`. -/
def filter : ListM α Unit :=
  foreachSafe fun p => do
    let c ← deref p
    let err ← sysKill (proc c.data).realPid
    if err = some esrch then remove p else pure ()

/-- The loop of `proc_foreach` in the three searches. -/
def find (P : Proc → Bool) : ListM α (Option Nat) := do
  let s ← Code.get
  orFault (findFrom s.cells (fun a => P (proc a)) s.size s.head)

/-- `proc_list_find_by_real_pid`. -/
def findByRealPid (real : Int) : ListM α (Option Nat) := find (·.realPid == real)

/-- `proc_list_find_by_virt_pid`. -/
def findByVirtPid (virt : Int) : ListM α (Option Nat) := find (·.virtPid == virt)

/-- `proc_list_find_by_xnd_pid`. -/
def findByXndPid (xndPid : Nat) : ListM α (Option Nat) := find (·.xndPid == xndPid)

end Functions

/-! ## Histories -/

/-- A call of one of the functions that change a list; with that of `proc_list_filter` comes
what `kill` answers in it. -/
inductive Op (α : Type) where
  | add (p : Nat) (a : α)
  | remove (p : Nat)
  | filter (kill : Int → Option Nat)

namespace Op
variable {α : Type} [ProcNode α]

def run : Op α → ListM α Unit
  | .add p a => ProcList.add p a
  | .remove p => ProcList.remove p
  | .filter _ => ProcList.filter

/-- The process is dead. -/
def dead (kill : Int → Option Nat) (n : Nat × α) : Bool :=
  kill (proc n.2).realPid == some esrch

/-- A node that is added is fresh, and one that is removed is on the list. -/
def Allowed (l : List (Nat × α)) : Op α → Prop
  | .add p _ => p ∉ l.map Prod.fst
  | .remove p => p ∈ l.map Prod.fst
  | .filter _ => True

instance (l : List (Nat × α)) : (op : Op α) → Decidable (op.Allowed l)
  | .add p _ => inferInstanceAs (Decidable (p ∉ l.map Prod.fst))
  | .remove p => inferInstanceAs (Decidable (p ∈ l.map Prod.fst))
  | .filter _ => inferInstanceAs (Decidable True)

/-- The sequence after the operation. -/
def after (l : List (Nat × α)) : Op α → List (Nat × α)
  | .add p a => (p, a) :: l
  | .remove p => l.filter fun n => n.1 ≠ p
  | .filter kill => l.filter fun n => !dead kill n

/-- The nodes that the operation removes. -/
def removed (l : List (Nat × α)) : Op α → List (Nat × α)
  | .add _ _ => []
  | .remove p => l.filter fun n => n.1 = p
  | .filter kill => l.filter (dead kill)

end Op

/-- The calls that the removal of a node makes. -/
def cleanupCalls {α : Type} [ProcNode α] (n : Nat × α) : List (Event (ListCall.Answer (α := α))) :=
  if hasCleanup n.2 = true then [⟨.cleanup n.1 n.2, ()⟩] else []

/-- The calls of `proc_list_filter` at a node. -/
def filterCalls {α : Type} [ProcNode α] (kill : Int → Option Nat) (n : Nat × α) :
    List (Event (ListCall.Answer (α := α))) :=
  [⟨.kill (proc n.2).realPid, kill (proc n.2).realPid⟩] ++
    if Op.dead kill n = true then cleanupCalls n else []

/-- The calls that an operation makes. -/
def Op.calls {α : Type} [ProcNode α] (l : List (Nat × α)) :
    Op α → List (Event (ListCall.Answer (α := α)))
  | .add _ _ => []
  | .remove p => (l.filter fun n => n.1 = p).flatMap cleanupCalls
  | .filter kill => l.flatMap fun n =>
      ⟨.kill (proc n.2).realPid, kill (proc n.2).realPid⟩ ::
        if dead kill n = true then cleanupCalls n else []

section History
variable {α : Type} [ProcNode α]

def runAll : List (Op α) → ListM α Unit
  | [] => pure ()
  | op :: ops => do op.run; runAll ops

def Allowed : List (Nat × α) → List (Op α) → Prop
  | _, [] => True
  | l, op :: ops => op.Allowed l ∧ Allowed (op.after l) ops

def after : List (Nat × α) → List (Op α) → List (Nat × α)
  | l, [] => l
  | l, op :: ops => after (op.after l) ops

def removed : List (Nat × α) → List (Op α) → List (Nat × α)
  | _, [] => []
  | l, op :: ops => op.removed l ++ removed (op.after l) ops

def calls : List (Nat × α) → List (Op α) → List (Event (ListCall.Answer (α := α)))
  | _, [] => []
  | l, op :: ops => op.calls l ++ calls (op.after l) ops

end History

/-- The nodes whose cleanup is called. -/
def cleaned {α : Type} (t : List (Event (ListCall.Answer (α := α)))) : List (Nat × α) :=
  t.filterMap fun e => match e.call with
    | .cleanup p a => some (p, a)
    | .kill _ => none

/-- The memory is the sequence `l`. -/
structure IsList {α : Type} (s : ListMem α) (l : List (Nat × α)) : Prop where
  cells : Represents s.cells s.head l
  nodup : (l.map Prod.fst).Nodup
  headPrev : ∀ p c, s.head = some p → s.cells p = some c → c.prev = none
  inverse : ∀ p q c d, s.cells p = some c → s.cells q = some d →
    (c.next = some q ↔ d.prev = some p)
  size : s.size = l.length

/-- The searches return the first node of `l` that matches, or `NULL`. -/
structure FindsFirst {α : Type} [ProcNode α] (s : ListMem α) (l : List (Nat × α)) : Prop where
  realPid : ∀ real, findByRealPid real s =
    .ret s ((l.find? fun n => (proc n.2).realPid == real).map Prod.fst)
  virtPid : ∀ virt, findByVirtPid virt s =
    .ret s ((l.find? fun n => (proc n.2).virtPid == virt).map Prod.fst)
  xndPid : ∀ xndPid, findByXndPid xndPid s =
    .ret s ((l.find? fun n => (proc n.2).xndPid == xndPid).map Prod.fst)

/-! ## The functions on the sequence -/

/-- The memory holds the sequence. -/
structure Linked {α : Type} (s : ListMem α) (l : List (Nat × α)) : Prop where
  cells : Represents s.cells s.head l
  size : s.size = l.length

theorem linked_init {α : Type} : Linked (init : ListMem α) [] := ⟨.empty, rfl⟩

section
variable {α : Type} {s : ListMem α} {l as bs : List (Nat × α)} {p : Nat} {a : α}

theorem Linked.isList (hl : Linked s l) : IsList s l where
  cells := hl.cells
  nodup := hl.cells.nodup
  headPrev _ _ hhead hp := (hl.cells.head_iff_prev hp).mp hhead
  inverse _ _ _ _ hp hq := hl.cells.next_iff_prev hp hq
  size := hl.size

/-- The cell of a node in front of `bs`. -/
theorem Linked.exists_cell (hl : Linked s (as ++ (p, a) :: bs)) :
    ∃ c, s.cells p = some c ∧ c.data = a ∧ c.next = bs.head?.map Prod.fst := by
  obtain ⟨last, hs⟩ := hl.cells.seg
  obtain ⟨_, _, -, -, next, hc, hbs⟩ := seg_append.mp hs
  exact ⟨_, hc, rfl, hbs.start_eq⟩

/-- **Adding is `cons`.** -/
theorem linked_push (hl : Linked s l) (hp : p ∉ l.map Prod.fst) :
    Linked { s with cells := push s.cells s.head p a, head := some p, size := s.size + 1 }
      ((p, a) :: l) where
  cells := hl.cells.push (Option.not_isSome_iff_eq_none.mp fun h => hp ((hl.cells.only p).mp h))
  size := congrArg (· + 1) hl.size

/-- A pointer to a node of the list is followed. -/
theorem deref_eq {c : Cell α} (hc : s.cells p = some c) : deref p s = .ret s c := by
  change orFault (s.cells p) s = _
  rw [hc]
  rfl

variable [ProcNode α]

/-- The searches find the first node. -/
theorem find_eq (hl : Linked s l) (P : Proc → Bool) :
    find P s = .ret s ((l.find? fun n => P (proc n.2)).map Prod.fst) := by
  obtain ⟨last, hs⟩ := hl.cells.seg
  have hfind := findFrom_eq (P := fun a => P (proc a)) hs (Nat.le_of_eq hl.size.symm)
  change orFault (findFrom s.cells (fun a => P (proc a)) s.size s.head) s = _
  rw [hfind]
  rfl

theorem Linked.findsFirst (hl : Linked s l) : FindsFirst s l where
  realPid _ := find_eq hl _
  virtPid _ := find_eq hl _
  xndPid _ := find_eq hl _

variable [DecidableEq α]

theorem execs_callCleanup {P : ListMem α → Unit → Prop} (h : P s ()) :
    Execs (callCleanup p a) s (cleanupCalls (p, a)) P := by
  rw [callCleanup, cleanupCalls]
  cases hasCleanup a with
  | true => exact ⟨s, (), Prog.exec_call.mpr ⟨(), [], rfl, rfl⟩, h⟩
  | false => exact .pure h

/-- **Removing deletes the node**, and calls its cleanup. -/
theorem execs_remove (hl : Linked s (as ++ (p, a) :: bs)) :
    Execs (remove p) s (cleanupCalls (p, a)) fun s' _ => Linked s' (as ++ bs) ∧ s'.next = s.next := by
  obtain ⟨_, head', hu, hrep⟩ := hl.cells.unlink
  obtain ⟨c, h₁, h₂, hc, hn, hp, rfl⟩ := unlink_eq_some.mp hu
  obtain ⟨c', hc', rfl, -⟩ := hl.exists_cell
  cases hc.symm.trans hc'
  -- The assertion holds: the head is the node that has none before it.
  have hassert : if s.head = some p then c.prev = none else c.prev ≠ none := by
    have hiff := hl.cells.head_iff_prev hc
    split
    · exact hiff.mp ‹_›
    · exact mt hiff.mpr ‹_›
  have hsize : s.size - 1 = (as ++ bs).length := by
    have := hl.size
    simp only [List.length_append, List.length_cons] at this ⊢
    omega
  refine .read_bind (deref_eq hc) (.get_bind ?_)
  rw [xndAssert, if_pos hassert, hn]
  refine .read_bind rfl (.read_bind rfl ?_)
  dsimp only
  rw [hp]
  refine .read_bind rfl (.modify_bind ?_)
  rw [← List.append_nil (cleanupCalls (p, c.data))]
  refine (execs_callCleanup (P := fun s' _ => s' = { s with cells := h₂, head := head' }) rfl).bind ?_
  rintro _ _ rfl
  exact .modify ⟨⟨hrep, hsize⟩, rfl⟩

/-- The body of `proc_list_filter`. -/
def filterBody (p : Nat) : ListM α Unit := do
  let c ← deref p
  let err ← sysKill (proc c.data).realPid
  if err = some esrch then remove p else pure ()

/-- A node is removed if its process is dead. -/
theorem execs_filterBody (kill : Int → Option Nat) (hl : Linked s (as ++ (p, a) :: bs)) :
    Execs (filterBody p) s (filterCalls kill (p, a)) fun s' _ =>
      Linked s' (as ++ ([(p, a)].filter fun n => !Op.dead kill n) ++ bs) ∧ s'.next = s.next := by
  obtain ⟨c, hc, rfl, -⟩ := hl.exists_cell
  refine .read_bind (deref_eq hc) ?_
  rw [filterCalls]
  refine (Execs.call (P := fun s' err => s' = s ∧ err = kill (proc c.data).realPid)
    ⟨rfl, rfl⟩).bind ?_
  rintro _ _ ⟨rfl, rfl⟩
  have hdead : Op.dead kill (p, c.data) = true ↔ kill (proc c.data).realPid = some esrch :=
    beq_iff_eq
  by_cases hesrch : kill (proc c.data).realPid = some esrch
  · rw [if_pos hesrch, if_pos (hdead.mpr hesrch), List.filter_singleton, hdead.mpr hesrch]
    exact (execs_remove hl).mono fun s' _ h => by simpa using h
  · have hlive := Bool.eq_false_iff.mpr (mt hdead.mp hesrch)
    rw [if_neg hesrch, if_neg (mt hdead.mp hesrch), List.filter_singleton, hlive]
    exact .pure ⟨by simpa using hl, rfl⟩

/-- The loop of `proc_list_filter` from a node on: the induction is on the nodes still to
come, and the saved successor is the first of them after each turn. -/
theorem execs_filterLoop (kill : Int → Option Nat) (hl : Linked s (as ++ bs))
    (hp : s.p = bs.head?.map Prod.fst) {fuel : Nat} (hfuel : bs.length < fuel) :
    Execs (foreachSafeLoop filterBody fuel) s (bs.flatMap (filterCalls kill)) fun s' _ =>
      Linked s' (as ++ bs.filter fun n => !Op.dead kill n) := by
  induction bs generalizing s as fuel with
  | nil =>
      obtain ⟨fuel, rfl⟩ := Nat.exists_eq_succ_of_ne_zero (Nat.ne_of_gt hfuel)
      refine .get_bind ?_
      rw [hp]
      exact .pure hl
  | cons n bs ih =>
      obtain ⟨p, a⟩ := n
      obtain ⟨fuel, rfl⟩ := Nat.exists_eq_succ_of_ne_zero (Nat.ne_of_gt (Nat.zero_lt_of_lt hfuel))
      obtain ⟨c, hc, rfl, hnext⟩ := hl.exists_cell
      refine .get_bind ?_
      rw [hp, List.flatMap_cons]
      refine .read_bind (deref_eq hc) (.modify_bind ?_)
      refine (execs_filterBody (s := { s with next := c.next }) kill ⟨hl.cells, hl.size⟩).bind ?_
      rintro s' _ ⟨hl', hnext'⟩
      -- The body has kept the successor that was saved before it ran.
      have hadvanced : Linked { s' with p := s'.next }
          (as ++ ([(p, c.data)].filter fun n => !Op.dead kill n) ++ bs) := ⟨hl'.cells, hl'.size⟩
      refine .modify_bind ((ih hadvanced (hnext'.trans hnext) (Nat.lt_of_succ_lt_succ hfuel)).mono
        fun s'' _ h => ?_)
      rwa [List.append_assoc, ← List.filter_append, List.singleton_append] at h

/-- **Filtering keeps exactly the live nodes, in order.** -/
theorem execs_filter (kill : Int → Option Nat) (hl : Linked s l) :
    Execs filter s (l.flatMap (filterCalls kill)) fun s' _ =>
      Linked s' (l.filter fun n => !Op.dead kill n) := by
  obtain ⟨last, hs⟩ := hl.cells.seg
  have hstart : Linked { s with p := s.head } ([] ++ l) := ⟨hl.cells, hl.size⟩
  exact .modify_bind (.get_bind (execs_filterLoop kill hstart hs.start_eq
    (Nat.lt_succ_of_le (Nat.le_of_eq hl.size.symm))))

omit [ProcNode α] [DecidableEq α] in
/-- A node is the only one at its address. -/
theorem filter_address (hnodup : ((as ++ (p, a) :: bs).map Prod.fst).Nodup) :
    ((as ++ (p, a) :: bs).filter fun n => n.1 ≠ p) = as ++ bs ∧
      ((as ++ (p, a) :: bs).filter fun n => n.1 = p) = [(p, a)] := by
  rw [List.map_append, List.map_cons, List.nodup_append, List.nodup_cons] at hnodup
  have hne : ∀ n ∈ as ++ bs, n.1 ≠ p := by
    intro n hn he
    rcases List.mem_append.mp hn with hn | hn
    · exact hnodup.2.2 _ (List.mem_map_of_mem hn) _ List.mem_cons_self he
    · have hmem : n.1 ∈ bs.map Prod.fst := List.mem_map_of_mem hn
      exact hnodup.2.1.1 (he ▸ hmem)
  have hkeep : ∀ n ∈ as ++ bs, decide (n.1 ≠ p) = true := fun n hn => decide_eq_true (hne n hn)
  have hdrop : ∀ n ∈ as ++ bs, ¬ decide (n.1 = p) = true := fun n hn => by simpa using hne n hn
  have hkept := List.filter_eq_self.mpr hkeep
  have hdropped := List.filter_eq_nil_iff.mpr hdrop
  rw [List.filter_append] at hkept hdropped
  obtain ⟨has, hbs⟩ := List.append_eq_nil_iff.mp hdropped
  constructor
  · rw [List.filter_append, List.filter_cons_of_neg (by simp), hkept]
  · rw [List.filter_append, List.filter_cons_of_pos (by simp), has, hbs, List.nil_append]

/-- **One operation** acts on the sequence, and makes the calls that it is to make. -/
theorem execs_op {op : Op α} (hl : Linked s l) (hop : op.Allowed l) :
    Execs op.run s (op.calls l) fun s' _ => Linked s' (op.after l) := by
  cases op with
  | add p a => exact .modify (linked_push hl hop)
  | remove p =>
      obtain ⟨n, hn, rfl⟩ := List.mem_map.mp hop
      obtain ⟨as, bs, rfl⟩ := List.append_of_mem hn
      obtain ⟨p, a⟩ := n
      obtain ⟨hafter, hremoved⟩ := filter_address hl.cells.nodup
      rw [Op.after, Op.calls, hafter, hremoved, List.flatMap_singleton]
      exact (execs_remove hl).mono fun _ _ h => h.1
  | filter kill => exact execs_filter kill hl

/-- A history acts on the sequence. -/
theorem execs_runAll {ops : List (Op α)} (hl : Linked s l) (hops : Allowed l ops) :
    Execs (runAll ops) s (calls l ops) fun s' _ => Linked s' (after l ops) := by
  induction ops generalizing s l with
  | nil => exact .pure hl
  | cons op ops ih => exact (execs_op hl hops.1).bind fun s' _ hl' => ih hl' hops.2

omit [ProcNode α] [DecidableEq α] in
theorem cleaned_append (t t' : List (Event (ListCall.Answer (α := α)))) :
    cleaned (t ++ t') = cleaned t ++ cleaned t' := List.filterMap_append

omit [DecidableEq α] in
theorem cleaned_cleanupCalls (n : Nat × α) :
    cleaned (cleanupCalls n) = [n].filter fun n => hasCleanup n.2 := by
  rw [cleanupCalls, List.filter_singleton]
  cases hasCleanup n.2 <;> rfl

omit [ProcNode α] [DecidableEq α] in
theorem cleaned_flatMap {f : Nat × α → List (Event (ListCall.Answer (α := α)))}
    {p : Nat × α → Bool} (hf : ∀ n, cleaned (f n) = [n].filter p) (l : List (Nat × α)) :
    cleaned (l.flatMap f) = l.filter p := by
  induction l with
  | nil => rfl
  | cons n l ih =>
      rw [List.flatMap_cons, cleaned_append, hf, ih, ← List.filter_append, List.singleton_append]

omit [DecidableEq α] in
/-- The cleanups that an operation calls are those of the nodes it removes. -/
theorem cleaned_op (op : Op α) (l : List (Nat × α)) :
    cleaned (op.calls l) = (op.removed l).filter fun n => hasCleanup n.2 := by
  cases op with
  | add p a => rfl
  | remove p => exact cleaned_flatMap cleaned_cleanupCalls _
  | filter kill =>
      have hnode (n : Nat × α) : cleaned (filterCalls kill n) =
          [n].filter fun n => hasCleanup n.2 && Op.dead kill n := by
        rw [filterCalls, cleaned_append, List.filter_singleton]
        cases Op.dead kill n with
        | true => rw [if_pos rfl, cleaned_cleanupCalls, List.filter_singleton, Bool.and_true]; rfl
        | false => rw [Bool.and_false]; rfl
      rw [Op.removed, List.filter_filter]
      exact cleaned_flatMap hnode l

omit [DecidableEq α] in
theorem cleaned_calls (ops : List (Op α)) (l : List (Nat × α)) :
    cleaned (calls l ops) = (removed l ops).filter fun n => hasCleanup n.2 := by
  induction ops generalizing l with
  | nil => rfl
  | cons op ops ih => rw [calls, cleaned_append, cleaned_op, ih, removed, List.filter_append]

/-- **A history refines its sequence.**  The memory is the sequence that results; each node
that was removed had its cleanup called once; and the searches find the first node. -/
theorem history_refines {ops : List (Op α)} (h : Allowed [] ops) :
    ∃ s, (runAll ops init).exec (calls [] ops) = some (s, ()) ∧ IsList s (after [] ops) ∧
      cleaned (calls [] ops) = (removed [] ops).filter (fun n => hasCleanup n.2) ∧
      FindsFirst s (after [] ops) := by
  obtain ⟨s, _, hexec, hl⟩ := execs_runAll linked_init h
  exact ⟨s, hexec, hl.isList, cleaned_calls ops [], hl.findsFirst⟩

end

/-! ## In the coordinator -/

/-- The processes of the coordinator, whose cleanup is `proc_exit_callback`. -/
instance : ProcNode Proc := ⟨id, fun _ => true⟩

def launched (virtPid realPid : Int) : Proc :=
  ⟨4, 5, 1000, 0, 1000, virtPid, realPid, 0, 0, false, .running⟩

/-- Three processes, of which the second dies and the third leaves. -/
def threeLaunched : List (Op Proc) :=
  [.add 1 (launched 1 100), .add 2 (launched 2 101), .add 3 (launched 3 102),
    .filter fun pid => if pid = 101 then some esrch else none, .remove 3]

theorem history_refines_threeLaunched :
    ∃ s, (runAll threeLaunched init).exec (calls [] threeLaunched) = some (s, ()) ∧
      IsList s (after [] threeLaunched) ∧ cleaned (calls [] threeLaunched) =
        (removed [] threeLaunched).filter (fun n => hasCleanup n.2) ∧
      FindsFirst s (after [] threeLaunched) := by
  refine history_refines ⟨?_, ?_, ?_, trivial, ?_, trivial⟩ <;> decide

example : after [] threeLaunched = [(1, launched 1 100)] ∧
    cleaned (calls [] threeLaunched) = [(2, launched 2 101), (3, launched 3 102)] := by decide

/-- The part of the coordinator's memory that is the list. -/
def listMem (s : ProcMem) : ListMem Proc := ⟨s.cells, s.head, s.size, s.p, s.next⟩

def withList (s : ProcMem) (m : ListMem Proc) : ProcMem :=
  { s with cells := m.cells, head := m.head, size := m.size, p := m.p, next := m.next }

/-- What the coordinator does where the list calls others. -/
def coordCall : (c : ListCall Proc) → MemM c.Answer
  | .kill pid => do return if ← sysProbe pid then some esrch else none
  | .cleanup _ a => procExitCallback a

variable {β γ : Type}

/-- A program of the list, in the coordinator. -/
def embedProg : Prog (ListCall.Answer (α := Proc)) (ListMem Proc) CoordStop β → ProcMem →
    Prog CoordCall.Answer ProcMem CoordStop β
  | .ret m b, s => .ret (withList s m) b
  | .halt m e, s => .halt (withList s m) e
  | .call m c k, s => (coordCall c (withList s m)).bind fun r s' => embedProg (k r) s'

def embed (m : ListM Proc β) : MemM β := fun s => embedProg (m (listMem s)) s

theorem embedProg_withList (q : Prog ListCall.Answer (ListMem Proc) CoordStop β) (s : ProcMem)
    (m : ListMem Proc) : embedProg q (withList s m) = embedProg q s := by
  cases q <;> rfl

theorem embed_bind (m : ListM Proc β) (f : β → ListM Proc γ) :
    embed (m >>= f) = embed m >>= fun b => embed (f b) := by
  have hprog (q : Prog ListCall.Answer (ListMem Proc) CoordStop β) (s : ProcMem) :
      embedProg (q.bind f) s = (embedProg q s).bind fun b => embed (f b) := by
    induction q generalizing s with
    | ret m b => exact (embedProg_withList (f b m) s m).symm
    | halt m e => rfl
    | call m c k ih =>
        have hk : (fun r s' => embedProg ((k r).bind f) s') =
            fun r s' => (embedProg (k r) s').bind fun b => embed (f b) :=
          funext fun r => funext fun s' => ih r s'
        exact (congrArg (Prog.bind (coordCall c (withList s m))) hk).trans
          (Prog.bind_assoc _ _ _).symm
  exact funext fun s => hprog (m (listMem s)) s

theorem embed_get_bind (f : ListMem Proc → ListM Proc β) :
    embed (Code.get >>= f) = Code.get >>= fun s => embed (f (listMem s)) := rfl

theorem embed_orFault (o : Option β) : embed (orFault o) = Coord.orFault o := by
  cases o <;> rfl

theorem embed_deref (p : Nat) : embed (deref p) = Coord.deref p := by
  rw [deref, embed_get_bind]
  exact bind_congr fun s => embed_orFault (s.cells p)

theorem embed_xndAssert (b : Prop) [Decidable b] :
    embed (xndAssert b) = Coord.xndAssert .listLinks b := by
  unfold xndAssert Coord.xndAssert
  split <;> rfl

theorem embed_callCleanup (p : Nat) (a : Proc) : embed (callCleanup p a) = procExitCallback a := by
  funext s
  change (procExitCallback a s).bind (fun r s' => .ret (withList s' (listMem s)) r) = _
  unfold procExitCallback closeIfOpen
  split <;> split <;> rfl

/-- **`proc_list_remove` of the coordinator** is the one of this module. -/
theorem embed_remove (p : Nat) : embed (remove p) = procListRemove p := by
  rw [remove, embed_bind, embed_deref]
  refine bind_congr fun c => ?_
  rw [embed_get_bind]
  refine bind_congr fun s => ?_
  rw [embed_bind, embed_xndAssert]
  refine bind_congr fun _ => ?_
  rw [embed_bind, embed_orFault]
  refine bind_congr fun r => ?_
  obtain ⟨cells, head⟩ := r
  rw [embed_bind, embed_orFault]
  refine bind_congr fun cells => ?_
  rw [embed_bind]
  refine bind_congr fun _ => ?_
  rw [embed_bind, embed_callCleanup]
  rfl

theorem embed_foreachSafeLoop {body : Nat → ListM Proc Unit} {body' : Nat → MemM Unit}
    (hbody : ∀ p, embed (body p) = body' p) (fuel : Nat) :
    embed (foreachSafeLoop body fuel) = Coord.foreachSafeLoop body' fuel := by
  induction fuel with
  | zero => rfl
  | succ fuel ih =>
      rw [foreachSafeLoop, Coord.foreachSafeLoop, embed_get_bind]
      refine bind_congr fun s => ?_
      rw [show (listMem s).p = s.p from rfl]
      cases s.p with
      | none => rfl
      | some p =>
          dsimp only
          rw [embed_bind, embed_deref]
          refine bind_congr fun c => ?_
          rw [embed_bind]
          refine bind_congr fun _ => ?_
          rw [embed_bind, hbody]
          refine bind_congr fun _ => ?_
          rw [embed_bind, ih]
          rfl

theorem embed_add (p : Nat) (a : Proc) : embed (add p a) = procListAdd p a := rfl

theorem embed_findByRealPid (real : Int) :
    embed (findByRealPid real) = procListFindByRealPid real := by
  rw [findByRealPid, find, embed_get_bind]
  exact bind_congr fun s => embed_orFault _

theorem embed_sysKill (pid : Int) : embed (sysKill pid) =
    sysProbe pid >>= fun gone => pure (if gone = true then some esrch else none) := rfl

/-- **`proc_list_filter` of the coordinator** is the one of this module. -/
theorem embed_filter : embed filter = procListFilter := by
  have hbody (p : Nat) : embed (filterBody p) = (do
      let c ← Coord.deref p
      let gone ← sysProbe c.data.realPid
      if gone then procListRemove p else pure ()) := by
    rw [filterBody, embed_bind, embed_deref]
    refine bind_congr fun c => ?_
    rw [embed_bind, embed_sysKill, bind_assoc]
    refine bind_congr fun gone => ?_
    cases gone with
    | true => exact embed_remove p
    | false => rfl
  change embed (foreachSafe filterBody) = _
  rw [foreachSafe, embed_bind]
  refine bind_congr fun _ => ?_
  rw [embed_get_bind]
  exact bind_congr fun s => embed_foreachSafeLoop hbody _

end Xnd.Coord.ProcList
