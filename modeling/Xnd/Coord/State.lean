import Xnd.Coord.Msg
import Xnd.Coord.PidTable

/-!
# The memory of the coordinator

`CoordInfo` is `coord_info` with `proc_list` and `pid_table`.  The list is the sequence of
its nodes, each an address with the process that is there; addresses are not used
again, so an address that is not on the list is one whose process was freed.

The functions of `proc_list.c` are here functions on the sequence.  A traversal with
`proc_foreach_safe` keeps the address of the successor, as the macro does, and
faults when it comes to an address that has been freed (`seqSafeLoop`).  Its two
rules are for bodies that keep an invariant (`wp_seqSafeLoop_keep`), and for
bodies that remove at most the process of the turn, which leave the rest of the
sequence to come (`wp_seqSafeLoop`).
-/
namespace Xnd.Coord

/-- `coord_info`, `proc_list` and `pid_table`. -/
structure CoordInfo where
  procs : List (Nat × Proc)
  /-- The address of the next `struct proc`. -/
  brk : Nat
  table : PidTable
  listenFd : Int
  xndUuid : Nat
  epoch : Nat
  nextVirtPid : Int
  nextXndPid : Nat
  numPeers : Nat
  ckptInterval : Int

abbrev InfoM := CoordM CoordInfo

/-- `coord_init`. -/
def coordInit (listenFd : Int) (uuid : Nat) (ckptInterval : Int) : CoordInfo where
  procs := []
  brk := 1
  table := .empty
  listenFd := listenFd
  xndUuid := uuid
  epoch := 0
  nextVirtPid := 1
  nextXndPid := 1000
  numPeers := 0
  ckptInterval := ckptInterval

/-- The address of the first node. -/
def front (l : List (Nat × Proc)) : Option Nat := l.head?.map Prod.fst

namespace CoordInfo
variable (s : CoordInfo)

/-- The process at an address. -/
def proc (p : Nat) : Option Proc := (s.procs.find? (·.1 = p)).map Prod.snd

/-- The successor of a node; `none` when the address is not on the list. -/
def next (p : Nat) : Option (Option Nat) :=
  match s.procs.dropWhile (·.1 ≠ p) with
  | [] => none
  | _ :: rest => some (front rest)

/-- Assigns to fields of the process at an address. -/
def setProc (p : Nat) (f : Proc → Proc) : CoordInfo :=
  { s with procs := s.procs.map fun n => if n.1 = p then (n.1, f n.2) else n }

/-- Unlinks a node. -/
def drop (p : Nat) : CoordInfo := { s with procs := s.procs.filter (·.1 ≠ p) }

/-- Puts a new process in front. -/
def push (a : Proc) : CoordInfo := { s with procs := (s.brk, a) :: s.procs, brk := s.brk + 1 }

/-- The first node whose process satisfies `P`. -/
def find (P : Proc → Bool) : Option (Nat × Proc) := s.procs.find? fun n => P n.2

end CoordInfo

/-- The process at an address, which is read. -/
def listProc (p : Nat) : InfoM Proc := do
  match (← Code.get).proc p with
  | some a => pure a
  | none => Code.halt .fault

def listExitCallback (a : Proc) : InfoM Unit := do
  closeIfOpen a.fd
  closeIfOpen a.oobFd
  Code.modify fun s => { s with table := s.table.erase a.virtPid }

/-- `proc_list_remove`. -/
def listRemove (p : Nat) : InfoM Unit := do
  let a ← listProc p
  Code.modify fun s => s.drop p
  listExitCallback a

section Traversal
variable {β : Type}

/-- The loop of `proc_foreach_safe` from the node at `p` on; the body carries a value
along. -/
def seqSafeLoop (body : Nat → β → InfoM β) : Nat → Option Nat → β → InfoM β
  | 0, _, _ => Code.halt .running
  | _ + 1, none, b => pure b
  | fuel + 1, some p, b => do
      match (← Code.get).next p with
      | none => Code.halt .fault
      | some next =>
          let b ← body p b
          seqSafeLoop body fuel next b

/-- `proc_foreach_safe`. -/
def seqForeachSafe (b : β) (body : Nat → β → InfoM β) : InfoM β := do
  let s ← Code.get
  seqSafeLoop body (s.procs.length + 1) (front s.procs) b

/-- The loop of `proc_foreach`, whose body removes nothing. -/
def seqForeach (body : Nat → Proc → β → InfoM β) : List Nat → β → InfoM β
  | [], b => pure b
  | p :: rest, b => do
      let a ← listProc p
      let b ← body p a b
      seqForeach body rest b

end Traversal

/-- `proc_list_filter`. -/
def listFilter : InfoM Unit :=
  seqForeachSafe () fun p _ => do
    let a ← listProc p
    let gone ← sysProbe a.realPid
    if gone then listRemove p else pure ()

/-! ## The sequence under the operations -/

namespace CoordInfo
variable {s : CoordInfo} {p : Nat} {a : Proc} {as rest : List (Nat × Proc)}

theorem proc_eq_some (hs : s.procs = as ++ (p, a) :: rest) (hp : p ∉ as.map Prod.fst) :
    s.proc p = some a := by
  have has : as.find? (fun n => decide (n.1 = p)) = none := by
    rw [List.find?_eq_none]
    intro n hn
    simpa using fun he : n.1 = p => hp (he ▸ List.mem_map_of_mem hn)
  rw [proc, hs, List.find?_append, has]
  simp

theorem next_eq_some (hs : s.procs = as ++ (p, a) :: rest) (hp : p ∉ as.map Prod.fst) :
    s.next p = some (front rest) := by
  have has : ∀ n ∈ as, n.1 ≠ p := fun n hn he => hp (he ▸ List.mem_map_of_mem hn)
  have hdrop : s.procs.dropWhile (fun n => decide (n.1 ≠ p)) = (p, a) :: rest := by
    rw [hs, List.dropWhile_append_of_pos (by simpa using has)]
    simp
  rw [next, hdrop]

theorem mem_procs_of_proc (h : s.proc p = some a) : (p, a) ∈ s.procs := by
  obtain ⟨n, hn, rfl⟩ := Option.map_eq_some_iff.mp h
  have hp : n.1 = p := by simpa using List.find?_some hn
  exact hp ▸ List.mem_of_find?_eq_some hn

theorem mem_procs_of_find {P : Proc → Bool} {n : Nat × Proc} (h : s.find P = some n) :
    n ∈ s.procs ∧ P n.2 = true :=
  ⟨List.mem_of_find?_eq_some h, by simpa using List.find?_some h⟩

/-- Dropping the node in the middle. -/
theorem drop_procs (hs : s.procs = as ++ (p, a) :: rest) (hp : p ∉ (as ++ rest).map Prod.fst) :
    (s.drop p).procs = as ++ rest := by
  have hne : ∀ n ∈ as ++ rest, n.1 ≠ p := fun n hn he => hp (he ▸ List.mem_map_of_mem hn)
  have has : as.filter (fun n => decide (n.1 ≠ p)) = as :=
    List.filter_eq_self.mpr fun n hn => by simpa using hne n (List.mem_append_left _ hn)
  have hrest : rest.filter (fun n => decide (n.1 ≠ p)) = rest :=
    List.filter_eq_self.mpr fun n hn => by simpa using hne n (List.mem_append_right _ hn)
  show s.procs.filter _ = _
  rw [hs, List.filter_append, List.filter_cons, has, hrest]
  simp

/-- Assigning to the node in the middle. -/
theorem setProc_procs {f : Proc → Proc} (hs : s.procs = as ++ (p, a) :: rest)
    (hp : p ∉ (as ++ rest).map Prod.fst) : (s.setProc p f).procs = as ++ (p, f a) :: rest := by
  have hne : ∀ n ∈ as ++ rest, n.1 ≠ p := fun n hn he => hp (he ▸ List.mem_map_of_mem hn)
  have hmap : ∀ l : List (Nat × Proc), (∀ n ∈ l, n.1 ≠ p) →
      l.map (fun n => if n.1 = p then (n.1, f n.2) else n) = l := fun l hl => by
    exact (List.map_congr_left fun n hn => if_neg (hl n hn)).trans (List.map_id' l)
  show s.procs.map _ = _
  rw [hs, List.map_append, List.map_cons, hmap as fun n hn => hne n (List.mem_append_left _ hn),
    hmap rest fun n hn => hne n (List.mem_append_right _ hn)]
  simp

end CoordInfo

/-! ## Rules for the traversals -/

section Rules
variable {W β : Type} {𝒲 : World CoordCall.Answer CoordInfo W} {inv : CoordInfo → W → Prop}
  {ends : CoordInfo → CoordStop → W → Prop} {s : CoordInfo} {w : W}

open Code

theorem wp_listProc {p : Nat} {fin : CoordInfo → Proc → W → Prop}
    (hnone : s.proc p = none → ends s .fault w) (hsome : ∀ a, s.proc p = some a → fin s a w) :
    Wp 𝒲 inv ends (listProc p) s w fin := by
  refine Wp.get_bind ?_
  cases ha : s.proc p with
  | none => exact Wp.halt (hnone ha)
  | some a => exact Wp.pure (hsome a ha)

/-- A traversal whose body keeps an invariant keeps it. -/
theorem wp_seqSafeLoop_keep {I : CoordInfo → W → Prop} {body : Nat → β → InfoM β}
    (hends : ∀ s w, I s w → ends s .running w ∧ ends s .fault w)
    (hbody : ∀ p b s w, I s w → Wp 𝒲 inv ends (body p b) s w fun s _ w => I s w)
    (fuel : Nat) (p : Option Nat) (b : β) (h : I s w) :
    Wp 𝒲 inv ends (seqSafeLoop body fuel p b) s w fun s _ w => I s w := by
  induction fuel generalizing p b s w with
  | zero => exact Wp.halt (hends s w h).1
  | succ fuel ih =>
      cases p with
      | none => exact Wp.pure h
      | some p =>
          refine Wp.get_bind ?_
          cases s.next p with
          | none => exact Wp.halt (hends s w h).2
          | some next => exact (hbody p b s w h).bind fun s b w h => ih next b h

theorem wp_seqForeachSafe_keep {I : CoordInfo → W → Prop} {body : Nat → β → InfoM β} {b : β}
    (hends : ∀ s w, I s w → ends s .running w ∧ ends s .fault w)
    (hbody : ∀ p b s w, I s w → Wp 𝒲 inv ends (body p b) s w fun s _ w => I s w) (h : I s w) :
    Wp 𝒲 inv ends (seqForeachSafe b body) s w fun s _ w => I s w :=
  Wp.get_bind (wp_seqSafeLoop_keep hends hbody _ _ _ h)

/-- A traversal whose body leaves the rest of the sequence to come.  `J` is an
assertion about that rest. -/
theorem wp_seqSafeLoop {J : List (Nat × Proc) → β → CoordInfo → W → Prop}
    {body : Nat → β → InfoM β}
    (hnext : ∀ p a rest b s w, J ((p, a) :: rest) b s w → s.next p = some (front rest))
    (hbody : ∀ p a rest b s w, J ((p, a) :: rest) b s w →
      Wp 𝒲 inv ends (body p b) s w fun s b w => J rest b s w)
    {rest : List (Nat × Proc)} {fuel : Nat} (hf : rest.length < fuel) {b : β} (h : J rest b s w) :
    Wp 𝒲 inv ends (seqSafeLoop body fuel (front rest) b) s w fun s b w => J [] b s w := by
  induction fuel generalizing rest b s w with
  | zero => omega
  | succ fuel ih =>
      cases rest with
      | nil => exact Wp.pure h
      | cons n rest =>
          obtain ⟨p, a⟩ := n
          refine Wp.get_bind ?_
          rw [hnext p a rest b s w h]
          refine (hbody p a rest b s w h).bind fun s b w h => ih ?_ h
          rw [List.length_cons] at hf
          omega

theorem wp_seqForeachSafe {J : List (Nat × Proc) → β → CoordInfo → W → Prop}
    {body : Nat → β → InfoM β} {b : β}
    (hnext : ∀ p a rest b s w, J ((p, a) :: rest) b s w → s.next p = some (front rest))
    (hbody : ∀ p a rest b s w, J ((p, a) :: rest) b s w →
      Wp 𝒲 inv ends (body p b) s w fun s b w => J rest b s w) (h : J s.procs b s w) :
    Wp 𝒲 inv ends (seqForeachSafe b body) s w fun s b w => J [] b s w :=
  Wp.get_bind (wp_seqSafeLoop hnext hbody (Nat.lt_succ_self _) h)

/-- A traversal that removes nothing. -/
theorem wp_seqForeach {J : List (Nat × Proc) → β → CoordInfo → W → Prop}
    {body : Nat → Proc → β → InfoM β}
    (hproc : ∀ p a rest b s w, J ((p, a) :: rest) b s w → s.proc p = some a)
    (hbody : ∀ p a rest b s w, J ((p, a) :: rest) b s w →
      Wp 𝒲 inv ends (body p a b) s w fun s b w => J rest b s w)
    {rest : List (Nat × Proc)} {b : β} (h : J rest b s w) :
    Wp 𝒲 inv ends (seqForeach body (rest.map Prod.fst) b) s w fun s b w => J [] b s w := by
  induction rest generalizing b s w with
  | nil => exact Wp.pure h
  | cons n rest ih =>
      obtain ⟨p, a⟩ := n
      have ha := hproc p a rest b s w h
      refine Wp.bind (M := fun s' a' w' => s' = s ∧ a' = a ∧ w' = w) (wp_listProc ?_ ?_) ?_
      · rw [ha]
        exact nofun
      · rintro a' ha'
        exact ⟨rfl, Option.some.inj (ha'.symm.trans ha), rfl⟩
      · rintro s a w ⟨rfl, rfl, rfl⟩
        exact (hbody p a rest b s w h).bind fun s b w h => ih h

end Rules

end Xnd.Coord
