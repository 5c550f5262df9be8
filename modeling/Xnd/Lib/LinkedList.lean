import Mathlib.Logic.Function.Basic
import Mathlib.Data.List.Nodup

/-!
# Doubly linked lists in memory

The nodes of an intrusive list are cells of a memory: each holds its data and the
addresses of its two neighbours, and a freed or never allocated address holds
nothing.  `Seg` reads a stretch of the list off the memory, with the links that
lead into it and out of it; `Represents` says that the cells reachable from a
head are a given sequence, without repetition, and that nothing else is
allocated.

The operations are the ones of C: `push` writes a fresh node in front, `unlink`
mends the links around a node and frees it, `findFrom` walks along `next`.  An
operation that would follow a link to an address without a cell has no result.
On a represented list each has one, and acts on the sequence (`Represents.push`,
`Represents.unlink`, `findFrom_eq`).
-/
namespace Xnd.LinkedList

variable {α : Type}

/-- A node: its data and its neighbours. -/
structure Cell (α : Type) where
  data : α
  next : Option Nat
  prev : Option Nat
  deriving DecidableEq, Repr

/-- A memory of nodes. -/
abbrev Cells (α : Type) := Nat → Option (Cell α)

/-- The cells from `start` up to `stop` hold `l`; the first one points back to
`prev`, and `last` is the address in front of `stop`. -/
def Seg (h : Cells α) : Option Nat → Option Nat → List (Nat × α) → Option Nat → Option Nat → Prop
  | prev, start, [], last, stop => prev = last ∧ start = stop
  | prev, start, (p, a) :: l, last, stop =>
      start = some p ∧ ∃ next, h p = some ⟨a, next, prev⟩ ∧ Seg h (some p) next l last stop

/-- The list at `head` holds `l`, and no other cell is allocated. -/
structure Represents (h : Cells α) (head : Option Nat) (l : List (Nat × α)) : Prop where
  seg : ∃ last, Seg h none head l last none
  nodup : (l.map Prod.fst).Nodup
  only : ∀ p, (h p).isSome ↔ p ∈ l.map Prod.fst

/-! ## Operations -/

def setPrev (h : Cells α) (p : Nat) (v : Option Nat) : Cells α :=
  Function.update h p ((h p).map fun c => { c with prev := v })

def setNext (h : Cells α) (p : Nat) (v : Option Nat) : Cells α :=
  Function.update h p ((h p).map fun c => { c with next := v })

/-- Writes a node at `p` and links it in front of the list. -/
def push (h : Cells α) (head : Option Nat) (p : Nat) (a : α) : Cells α :=
  let h := Function.update h p (some ⟨a, head, none⟩)
  match head with
  | none => h
  | some q => setPrev h q (some p)

/-- Lets what points forward to `p`, whose cell is `c`, point past it; the result
has the new head. -/
def mendNext (h : Cells α) (head : Option Nat) (p : Nat) (c : Cell α) :
    Option (Cells α × Option Nat) :=
  if head = some p then some (h, c.next)
  else do
    let q ← c.prev
    let _ ← h q
    some (setNext h q c.next, head)

/-- Lets what points back to the cell `c` point past it. -/
def mendPrev (h : Cells α) (c : Cell α) : Option (Cells α) :=
  match c.next with
  | none => some h
  | some q => (h q).map fun _ => setPrev h q c.prev

/-- Mends the links around the node at `p` and frees it; the result has the new
head. -/
def unlink (h : Cells α) (head : Option Nat) (p : Nat) : Option (Cells α × Option Nat) := do
  let c ← h p
  let (h, head) ← mendNext h head p c
  let h ← mendPrev h c
  some (Function.update h p none, head)

/-- Changes the data of the node at `p`, if there is one. -/
def setData (h : Cells α) (p : Nat) (f : α → α) : Cells α :=
  Function.update h p ((h p).map fun c => { c with data := f c.data })

/-- The first node from `start` on whose data satisfy `P`. -/
def findFrom (h : Cells α) (P : α → Bool) : Nat → Option Nat → Option (Option Nat)
  | _, none => some none
  | 0, some _ => none
  | fuel + 1, some p => do
      let c ← h p
      if P c.data then some (some p) else findFrom h P fuel c.next

/-- The data of the nodes from `start` on. -/
def walk (h : Cells α) : Nat → Option Nat → Option (List α)
  | _, none => some []
  | 0, some _ => none
  | fuel + 1, some p => do
      let c ← h p
      let l ← walk h fuel c.next
      some (c.data :: l)

theorem isSome_setPrev {h : Cells α} {q p : Nat} {v : Option Nat} :
    (setPrev h q v p).isSome ↔ (h p).isSome := by
  by_cases hp : p = q
  · subst hp; simp [setPrev]
  · simp [setPrev, hp]

theorem isSome_setNext {h : Cells α} {q p : Nat} {v : Option Nat} :
    (setNext h q v p).isSome ↔ (h p).isSome := by
  by_cases hp : p = q
  · subst hp; simp [setNext]
  · simp [setNext, hp]

/-! ## Segments -/

section Seg
variable {h h' : Cells α} {prev start last stop : Option Nat} {l as bs : List (Nat × α)}

theorem seg_append :
    Seg h prev start (as ++ bs) last stop ↔
      ∃ last' stop', Seg h prev start as last' stop' ∧ Seg h last' stop' bs last stop := by
  induction as generalizing prev start with
  | nil =>
      constructor
      · exact fun hs => ⟨prev, start, ⟨rfl, rfl⟩, hs⟩
      · rintro ⟨_, _, ⟨rfl, rfl⟩, hs⟩
        exact hs
  | cons a as ih =>
      obtain ⟨p, a⟩ := a
      simp only [List.cons_append, Seg, ih]
      constructor
      · rintro ⟨rfl, next, hp, last', stop', h₁, h₂⟩
        exact ⟨last', stop', ⟨rfl, next, hp, h₁⟩, h₂⟩
      · rintro ⟨last', stop', ⟨rfl, next, hp, h₁⟩, h₂⟩
        exact ⟨rfl, next, hp, last', stop', h₁, h₂⟩

/-- A segment up to the end begins at its first node. -/
theorem Seg.start_eq (hs : Seg h prev start l last none) : start = l.head?.map Prod.fst := by
  cases l with
  | nil => exact hs.2
  | cons a l => exact hs.1

/-- A segment depends on its own cells only. -/
theorem Seg.congr (hs : Seg h prev start l last stop)
    (hh : ∀ p ∈ l.map Prod.fst, h' p = h p) : Seg h' prev start l last stop := by
  induction l generalizing prev start with
  | nil => exact hs
  | cons a l ih =>
      obtain ⟨p, a⟩ := a
      obtain ⟨rfl, next, hp, hs⟩ := hs
      refine ⟨rfl, next, ?_, ih hs fun q hq => hh q (List.mem_cons_of_mem _ hq)⟩
      rw [hh p List.mem_cons_self, hp]

/-- Turning the link out of the last cell. -/
theorem Seg.setNext {q : Nat} {b : α} {v : Option Nat}
    (hs : Seg h prev start (as ++ [(q, b)]) last stop) (hq : q ∉ as.map Prod.fst) :
    Seg (setNext h q v) prev start (as ++ [(q, b)]) (some q) v := by
  obtain ⟨last', stop', h₁, rfl, next, hb, rfl, rfl⟩ := seg_append.mp hs
  refine seg_append.mpr ⟨last', _, h₁.congr fun p hp => ?_, rfl, v, ?_, rfl, rfl⟩
  · exact Function.update_of_ne (by rintro rfl; exact hq hp) _ _
  · simp [LinkedList.setNext, hb]

/-- Turning the link out of the first cell. -/
theorem Seg.setPrev {q : Nat} {b : α} {v : Option Nat}
    (hs : Seg h prev start ((q, b) :: bs) last stop) (hq : q ∉ bs.map Prod.fst) :
    Seg (setPrev h q v) v start ((q, b) :: bs) last stop := by
  obtain ⟨rfl, next, hb, hs⟩ := hs
  refine ⟨rfl, next, by simp [LinkedList.setPrev, hb], hs.congr fun p hp => ?_⟩
  exact Function.update_of_ne (by rintro rfl; exact hq hp) _ _

theorem Seg.setData {p : Nat} {f : α → α} (hs : Seg h prev start l last stop) :
    Seg (setData h p f) prev start (l.map fun n => (n.1, if n.1 = p then f n.2 else n.2))
      last stop := by
  induction l generalizing prev start with
  | nil => exact hs
  | cons b l ih =>
      obtain ⟨q, b⟩ := b
      obtain ⟨rfl, next, hq, hs⟩ := hs
      refine ⟨rfl, next, ?_, ih hs⟩
      by_cases hqp : q = p
      · subst hqp
        simp [LinkedList.setData, hq]
      · simp [LinkedList.setData, hqp, hq]

end Seg

/-! ## Mending links -/

section Mend
variable {h : Cells α} {head next prev last : Option Nat} {as bs : List (Nat × α)} {p : Nat} {a : α}

theorem mendNext_spec (next : Option Nat) (a : α) (has : Seg h none head as prev (some p))
    (hnodup : (as.map Prod.fst).Nodup) (hp : p ∉ as.map Prod.fst) :
    ∃ h' head', mendNext h head p ⟨a, next, prev⟩ = some (h', head') ∧
      Seg h' none head' as prev next ∧ (∀ q ∉ as.map Prod.fst, h' q = h q) ∧
      ∀ q, (h' q).isSome ↔ (h q).isSome := by
  rcases List.eq_nil_or_concat as with rfl | ⟨as, ⟨q, b⟩, rfl⟩
  · obtain ⟨rfl, rfl⟩ := has
    exact ⟨h, next, by simp [mendNext], ⟨rfl, rfl⟩, fun _ _ => rfl, fun _ => Iff.rfl⟩
  · rw [List.concat_eq_append] at *
    have hhead : head ≠ some p := by
      rintro rfl
      cases as with
      | nil => exact hp (by simp [Option.some.inj has.1])
      | cons c as => exact hp (by simp [(Option.some.inj has.1)])
    obtain ⟨last', stop', -, -, next', hq, rfl, -⟩ := seg_append.mp has
    have hqas : q ∉ as.map Prod.fst := by
      rw [List.map_append, List.nodup_append] at hnodup
      exact fun hm => hnodup.2.2 q hm q (by simp) rfl
    refine ⟨setNext h q next, head, ?_, has.setNext hqas, fun r hr => ?_, fun r => isSome_setNext⟩
    · simp [mendNext, hhead, hq]
    · refine Function.update_of_ne ?_ _ _
      rintro rfl
      exact hr (by simp)

theorem mendPrev_spec (prev : Option Nat) (a : α) (hbs : Seg h (some p) next bs last none)
    (hnodup : (bs.map Prod.fst).Nodup) :
    ∃ h' last', mendPrev h ⟨a, next, prev⟩ = some h' ∧ Seg h' prev next bs last' none ∧
      (∀ q ∉ bs.map Prod.fst, h' q = h q) ∧ ∀ q, (h' q).isSome ↔ (h q).isSome := by
  cases bs with
  | nil =>
      obtain ⟨-, rfl⟩ := hbs
      exact ⟨h, prev, rfl, ⟨rfl, rfl⟩, fun _ _ => rfl, fun _ => Iff.rfl⟩
  | cons b bs =>
      obtain ⟨q, b⟩ := b
      obtain ⟨rfl, next', hq, -⟩ := id hbs
      refine ⟨setPrev h q prev, last, by simp [mendPrev, hq],
        hbs.setPrev (List.nodup_cons.mp hnodup).1, fun r hr => ?_, fun r => isSome_setPrev⟩
      refine Function.update_of_ne ?_ _ _
      rintro rfl
      exact hr List.mem_cons_self

end Mend

/-! ## What the operations do to the sequence -/

namespace Represents
variable {h : Cells α} {head : Option Nat} {l as bs : List (Nat × α)} {p : Nat} {a : α}

theorem empty : Represents (fun _ => none : Cells α) none [] :=
  ⟨⟨none, rfl, rfl⟩, List.nodup_nil, by simp⟩

theorem push (hr : Represents h head l) (hp : h p = none) :
    Represents (push h head p a) (some p) ((p, a) :: l) := by
  have hfresh : p ∉ l.map Prod.fst := fun hm => by
    have := (hr.only p).mpr hm
    rw [hp] at this
    cases this
  have hself : Function.update h p (some ⟨a, head, none⟩) p = some ⟨a, head, none⟩ :=
    Function.update_self _ _ _
  obtain ⟨last, hs⟩ := hr.seg
  have hs' : Seg (Function.update h p (some ⟨a, head, none⟩)) none head l last none :=
    hs.congr fun q hq => Function.update_of_ne (by rintro rfl; exact hfresh hq) _ _
  refine ⟨?_, List.nodup_cons.mpr ⟨hfresh, hr.nodup⟩, fun q => ?_⟩
  · cases l with
    | nil =>
        obtain ⟨-, rfl⟩ := hs
        exact ⟨some p, rfl, none, hself, rfl, rfl⟩
    | cons b l =>
        obtain ⟨q, b⟩ := b
        obtain ⟨rfl, -⟩ := id hs
        have hq : q ∉ l.map Prod.fst := (List.nodup_cons.mp hr.nodup).1
        have hne : p ≠ q := by rintro rfl; exact hfresh List.mem_cons_self
        refine ⟨last, rfl, some q, ?_, hs'.setPrev hq⟩
        show LinkedList.setPrev _ q (some p) p = _
        rw [LinkedList.setPrev, Function.update_of_ne hne, hself]
  · have hupdate : (Function.update h p (some ⟨a, head, none⟩) q).isSome ↔
        q ∈ p :: l.map Prod.fst := by
      by_cases hq : q = p
      · subst hq; simp
      · rw [Function.update_of_ne hq, hr.only q, List.mem_cons, or_iff_right hq]
    cases head with
    | none => exact hupdate
    | some r => exact isSome_setPrev.trans hupdate

/-- Every node of the list has a cell. -/
theorem exists_cell (hr : Represents h head (as ++ (p, a) :: bs)) :
    ∃ next prev, h p = some ⟨a, next, prev⟩ := by
  obtain ⟨last, hs⟩ := hr.seg
  obtain ⟨last', stop', -, -, next, hp, -⟩ := seg_append.mp hs
  exact ⟨next, last', hp⟩

/-- **Unlinking deletes one node.** -/
theorem unlink (hr : Represents h head (as ++ (p, a) :: bs)) :
    ∃ h' head', unlink h head p = some (h', head') ∧ Represents h' head' (as ++ bs) := by
  obtain ⟨last, hs⟩ := hr.seg
  obtain ⟨last', stop', has, rfl, next, hp, hbs⟩ := seg_append.mp hs
  have hnodup := hr.nodup
  simp only [List.map_append, List.map_cons, List.nodup_append, List.nodup_cons] at hnodup
  obtain ⟨hnas, ⟨hpbs, hnbs⟩, hdisj⟩ := hnodup
  have hpas : p ∉ as.map Prod.fst := fun hm => hdisj p hm p List.mem_cons_self rfl
  obtain ⟨h₁, head', hm₁, has₁, hframe₁, hsome₁⟩ :=
    mendNext_spec next a has hnas hpas
  have hbs₁ : Seg h₁ (some p) next bs last none := hbs.congr fun q hq =>
    hframe₁ q fun hqa => hdisj q hqa q (List.mem_cons_of_mem _ hq) rfl
  obtain ⟨h₂, last'', hm₂, hbs₂, hframe₂, hsome₂⟩ :=
    mendPrev_spec last' a hbs₁ hnbs
  refine ⟨Function.update h₂ p none, head', by simp [LinkedList.unlink, hp, hm₁, hm₂], ?_⟩
  have hfree : ∀ q, q ≠ p → Function.update h₂ p none q = h₂ q := fun q hq =>
    Function.update_of_ne hq _ _
  refine ⟨⟨last'', seg_append.mpr ⟨last', next, ?_, ?_⟩⟩, ?_, fun q => ?_⟩
  · refine has₁.congr fun q hq => ?_
    rw [hfree q (by rintro rfl; exact hpas hq), hframe₂ q fun hqb =>
      hdisj q hq q (List.mem_cons_of_mem _ hqb) rfl]
  · exact hbs₂.congr fun q hq => hfree q (by rintro rfl; exact hpbs hq)
  · rw [List.map_append, List.nodup_append]
    exact ⟨hnas, hnbs, fun q hq r hr => hdisj q hq r (List.mem_cons_of_mem _ hr)⟩
  · by_cases hq : q = p
    · subst hq
      simp [hpas, hpbs]
    · rw [hfree q hq, hsome₂, hsome₁, hr.only]
      simp [hq]

/-- The first node is the one without a node in front of it. -/
theorem head_iff_prev {c : Cell α} (hr : Represents h head l) (hp : h p = some c) :
    head = some p ↔ c.prev = none := by
  obtain ⟨n, hn, rfl⟩ := List.mem_map.mp ((hr.only p).mp (by rw [hp]; rfl))
  obtain ⟨as, bs, rfl⟩ := List.append_of_mem hn
  obtain ⟨last, hs⟩ := hr.seg
  obtain ⟨last', stop', has, rfl, next, hc, -⟩ := seg_append.mp hs
  cases hp.symm.trans hc
  rcases List.eq_nil_or_concat as with rfl | ⟨as, ⟨q, b⟩, rfl⟩
  · exact iff_of_true has.2 has.1.symm
  · have hnodup := hr.nodup
    rw [List.concat_eq_append] at *
    obtain ⟨_, _, hfront, -, _, -, rfl, -⟩ := seg_append.mp has
    refine iff_of_false (fun hhead => ?_) nofun
    have hfirst : head = ((as ++ [(q, b)]).map Prod.fst).head? := by
      cases as with
      | nil => exact has.1
      | cons a as => exact has.1
    rw [hhead] at hfirst
    have hmem := List.mem_of_head? hfirst.symm
    rw [List.map_append, List.nodup_append] at hnodup
    exact hnodup.2.2 _ hmem _ List.mem_cons_self rfl

/-- The links forward and back are inverse to one another. -/
theorem next_iff_prev {q : Nat} {c d : Cell α} (hr : Represents h head l) (hp : h p = some c)
    (hq : h q = some d) : c.next = some q ↔ d.prev = some p := by
  obtain ⟨last, hs⟩ := hr.seg
  constructor
  · intro hnext
    obtain ⟨n, hn, rfl⟩ := List.mem_map.mp ((hr.only p).mp (by rw [hp]; rfl))
    obtain ⟨as, bs, rfl⟩ := List.append_of_mem hn
    obtain ⟨_, _, -, -, next, hc, hbs⟩ := seg_append.mp hs
    cases hp.symm.trans hc
    subst hnext
    cases bs with
    | nil => cases hbs.2
    | cons m bs =>
        obtain ⟨hm, _, hd, -⟩ := hbs
        cases hm
        rw [Option.some.inj (hq.symm.trans hd)]
  · intro hprev
    obtain ⟨n, hn, rfl⟩ := List.mem_map.mp ((hr.only q).mp (by rw [hq]; rfl))
    obtain ⟨as, bs, rfl⟩ := List.append_of_mem hn
    obtain ⟨last', stop', has, rfl, next, hd, -⟩ := seg_append.mp hs
    cases hq.symm.trans hd
    subst hprev
    rcases List.eq_nil_or_concat as with rfl | ⟨as, ⟨r, b⟩, rfl⟩
    · cases has.1
    · rw [List.concat_eq_append] at has
      obtain ⟨_, _, -, -, next', hc, hlast, hstop⟩ := seg_append.mp has
      cases hlast
      rw [Option.some.inj (hp.symm.trans hc)]
      exact hstop

/-- Changing the data of a node leaves the links alone. -/
theorem setData (hr : Represents h head l) (p : Nat) (f : α → α) :
    Represents (setData h p f) head (l.map fun n => (n.1, if n.1 = p then f n.2 else n.2)) := by
  have hfst : (l.map fun n => (n.1, if n.1 = p then f n.2 else n.2)).map Prod.fst =
      l.map Prod.fst := by
    rw [List.map_map]
    rfl
  obtain ⟨last, hs⟩ := hr.seg
  refine ⟨⟨last, hs.setData⟩, hfst ▸ hr.nodup, fun q => ?_⟩
  rw [hfst, ← hr.only q]
  by_cases hq : q = p
  · subst hq
    simp [LinkedList.setData]
  · rw [LinkedList.setData, Function.update_of_ne hq]

end Represents

/-- The steps of a removal that has a result. -/
theorem unlink_eq_some {h h' : Cells α} {head head' : Option Nat} {p : Nat} :
    unlink h head p = some (h', head') ↔
      ∃ c h₁ h₂, h p = some c ∧ mendNext h head p c = some (h₁, head') ∧
        mendPrev h₁ c = some h₂ ∧ h' = Function.update h₂ p none := by
  simp only [unlink, Option.bind_eq_bind, Option.bind_eq_some_iff, Option.some.injEq, Prod.mk.injEq,
    Prod.exists]
  constructor
  · rintro ⟨c, hc, h₁, _, hn, h₂, hp, rfl, rfl⟩
    exact ⟨c, h₁, h₂, hc, hn, hp, rfl⟩
  · rintro ⟨c, h₁, h₂, hc, hn, hp, rfl⟩
    exact ⟨c, hc, h₁, head', hn, h₂, hp, rfl, rfl⟩

/-- A walk that may run far enough finds what the sequence holds. -/
theorem findFrom_eq {h : Cells α} {P : α → Bool} {prev start last : Option Nat}
    {l : List (Nat × α)} (hs : Seg h prev start l last none) {fuel : Nat} (hf : l.length ≤ fuel) :
    findFrom h P fuel start = some ((l.find? fun n => P n.2).map Prod.fst) := by
  induction l generalizing prev start fuel with
  | nil =>
      obtain ⟨-, rfl⟩ := hs
      cases fuel <;> rfl
  | cons b l ih =>
      obtain ⟨p, a⟩ := b
      obtain ⟨rfl, next, hp, hs⟩ := hs
      obtain ⟨fuel, rfl⟩ : ∃ k, fuel = k + 1 := ⟨fuel - 1, by rw [List.length_cons] at hf; omega⟩
      have ih := ih hs (Nat.le_of_succ_le_succ hf)
      cases hP : P a <;> simp [findFrom, hp, hP, ih]

theorem walk_eq {h : Cells α} {prev start last : Option Nat} {l : List (Nat × α)}
    (hs : Seg h prev start l last none) {fuel : Nat} (hf : l.length ≤ fuel) :
    walk h fuel start = some (l.map Prod.snd) := by
  induction l generalizing prev start fuel with
  | nil =>
      obtain ⟨-, rfl⟩ := hs
      cases fuel <;> rfl
  | cons b l ih =>
      obtain ⟨p, a⟩ := b
      obtain ⟨rfl, next, hp, hs⟩ := hs
      obtain ⟨fuel, rfl⟩ : ∃ k, fuel = k + 1 := ⟨fuel - 1, by rw [List.length_cons] at hf; omega⟩
      simp [walk, hp, ih hs (Nat.le_of_succ_le_succ hf)]

/-! ## Several lists in one memory

`Chain` names the nodes of one list, whatever else the memory holds.  The operations below leave
the other lists alone (`push_of_ne`, `Chain.takeOut`), and all data. -/

/-- The list at `head` has the nodes `ps`. -/
def Chain (h : Cells α) (head : Option Nat) (ps : List Nat) : Prop :=
  ∃ l last, l.map Prod.fst = ps ∧ Seg h none head l last none

/-- Lets what points forward to the cell `c` point past it, as its own link back says; the
result has the new head. -/
def passNext (h : Cells α) (head : Option Nat) (c : Cell α) : Option (Cells α × Option Nat) :=
  match c.prev with
  | none => some (h, c.next)
  | some q => (h q).map fun _ => (setNext h q c.next, head)

/-- Mends the links around the node at `p`, and leaves it allocated; the result has the new
head. -/
def takeOut (h : Cells α) (head : Option Nat) (p : Nat) : Option (Cells α × Option Nat) := do
  let c ← h p
  let (h, head) ← passNext h head c
  let h ← mendPrev h c
  some (h, head)

/-- The nodes from `start` on. -/
def nodes (h : Cells α) : Nat → Option Nat → Option (List Nat)
  | _, none => some []
  | 0, some _ => none
  | fuel + 1, some p => do
      let c ← h p
      let ps ← nodes h fuel c.next
      some (p :: ps)

/-- The data at an address. -/
def dataAt (h : Cells α) (p : Nat) : Option α := (h p).map Cell.data

section Data
variable {h h' : Cells α} {p q : Nat} {v : Option Nat} {a : α} {c : Cell α} {head head' : Option Nat}

@[simp] theorem dataAt_setPrev : dataAt (setPrev h q v) p = dataAt h p := by
  by_cases hp : p = q
  · subst hp
    cases hq : h p <;> simp [dataAt, setPrev, hq]
  · simp [dataAt, setPrev, hp]

@[simp] theorem dataAt_setNext : dataAt (setNext h q v) p = dataAt h p := by
  by_cases hp : p = q
  · subst hp
    cases hq : h p <;> simp [dataAt, setNext, hq]
  · simp [dataAt, setNext, hp]

theorem dataAt_mendPrev (hm : mendPrev h c = some h') : dataAt h' p = dataAt h p := by
  unfold mendPrev at hm
  split at hm
  · rw [Option.some.inj hm]
  · obtain ⟨_, -, rfl⟩ := Option.map_eq_some_iff.mp hm
    exact dataAt_setPrev

theorem dataAt_passNext (hm : passNext h head c = some (h', head')) :
    dataAt h' p = dataAt h p := by
  unfold passNext at hm
  split at hm
  · rw [(Prod.mk.inj (Option.some.inj hm)).1]
  · obtain ⟨_, -, hpair⟩ := Option.map_eq_some_iff.mp hm
    rw [← (Prod.mk.inj hpair).1]
    exact dataAt_setNext

theorem dataAt_takeOut (ht : takeOut h head q = some (h', head')) : dataAt h' p = dataAt h p := by
  simp only [takeOut, Option.bind_eq_bind, Option.bind_eq_some_iff, Option.some.injEq,
    Prod.mk.injEq, Prod.exists] at ht
  obtain ⟨c, -, h₁, _, hpass, h₂, hprev, rfl, -⟩ := ht
  rw [dataAt_mendPrev hprev, dataAt_passNext hpass]

theorem dataAt_push : dataAt (push h head p a) q = if q = p then some a else dataAt h q := by
  have hupdate : dataAt (Function.update h p (some ⟨a, head, none⟩)) q =
      if q = p then some a else dataAt h q := by
    by_cases hq : q = p
    · subst hq
      simp [dataAt]
    · simp [dataAt, hq]
  unfold push
  split
  · exact hupdate
  · rw [dataAt_setPrev, hupdate]

theorem dataAt_setData {f : α → α} :
    dataAt (setData h p f) q = if q = p then (dataAt h q).map f else dataAt h q := by
  by_cases hq : q = p
  · subst hq
    cases hc : h q <;> simp [dataAt, setData, hc]
  · simp [dataAt, setData, hq]

theorem isSome_of_dataAt (hd : dataAt h' p = dataAt h p) : (h' p).isSome = (h p).isSome := by
  simpa [dataAt] using congrArg Option.isSome hd

end Data

section Chain
variable {h h' : Cells α} {head : Option Nat} {ps as bs : List Nat} {p : Nat} {a : α}

theorem chain_nil : Chain h none [] := ⟨[], none, rfl, rfl, rfl⟩

/-- A list depends on its own nodes only. -/
theorem Chain.congr (hc : Chain h head ps) (hh : ∀ p ∈ ps, h' p = h p) : Chain h' head ps := by
  obtain ⟨l, last, rfl, hs⟩ := hc
  exact ⟨l, last, rfl, hs.congr hh⟩

theorem Chain.setData (hc : Chain h head ps) (p : Nat) (f : α → α) :
    Chain (setData h p f) head ps := by
  obtain ⟨l, last, rfl, hs⟩ := hc
  refine ⟨_, last, ?_, hs.setData⟩
  rw [List.map_map]
  rfl

/-- A node of the list, the one that comes after it, and whether it is the first one. -/
theorem Chain.exists_cell (hc : Chain h head (as ++ p :: bs)) :
    ∃ c, h p = some c ∧ c.next = bs.head? ∧ (c.prev = none → head = some p) := by
  obtain ⟨l, last, hl, hs⟩ := hc
  obtain ⟨as, rest, rfl, rfl, hrest⟩ := List.map_eq_append_iff.mp hl
  obtain ⟨⟨p, a⟩, bs, rfl, rfl, rfl⟩ := List.map_eq_cons_iff.mp hrest
  obtain ⟨last', stop', has, rfl, next, hp, hbs⟩ := seg_append.mp hs
  refine ⟨_, hp, hbs.start_eq.trans (List.head?_map ..).symm, ?_⟩
  rintro rfl
  rcases List.eq_nil_or_concat as with rfl | ⟨as, ⟨q, b⟩, rfl⟩
  · exact has.2
  · rw [List.concat_eq_append] at has
    obtain ⟨_, _, -, -, _, -, hprev, -⟩ := seg_append.mp has
    cases hprev

theorem Chain.head_eq (hc : Chain h head ps) : head = ps.head? := by
  obtain ⟨l, last, rfl, hs⟩ := hc
  exact hs.start_eq.trans (List.head?_map ..).symm

/-- Writing a node in front of the list. -/
theorem Chain.push (hc : Chain h head ps) (hnodup : (p :: ps).Nodup) (a : α) :
    Chain (push h head p a) (some p) (p :: ps) := by
  obtain ⟨l, last, rfl, hs⟩ := hc
  obtain ⟨hfresh, hnodup⟩ := List.nodup_cons.mp hnodup
  have hself : Function.update h p (some ⟨a, head, none⟩) p = some ⟨a, head, none⟩ :=
    Function.update_self _ _ _
  have hs' : Seg (Function.update h p (some ⟨a, head, none⟩)) none head l last none :=
    hs.congr fun q hq => Function.update_of_ne (by rintro rfl; exact hfresh hq) _ _
  cases l with
  | nil =>
      obtain ⟨-, rfl⟩ := hs
      exact ⟨[(p, a)], some p, rfl, rfl, none, hself, rfl, rfl⟩
  | cons b l =>
      obtain ⟨q, b⟩ := b
      obtain ⟨rfl, -⟩ := id hs
      have hq : q ∉ l.map Prod.fst := (List.nodup_cons.mp hnodup).1
      have hne : p ≠ q := by rintro rfl; exact hfresh List.mem_cons_self
      refine ⟨(p, a) :: (q, b) :: l, last, rfl, rfl, some q, ?_, hs'.setPrev hq⟩
      show LinkedList.setPrev _ q (some p) p = _
      rw [LinkedList.setPrev, Function.update_of_ne hne, hself]

/-- What is not on the list stays as it is. -/
theorem push_of_ne (hc : Chain h head ps) {q : Nat} (hqp : q ≠ p) (hq : q ∉ ps) :
    push h head p a q = h q := by
  unfold LinkedList.push
  split
  · exact Function.update_of_ne hqp _ _
  next r =>
    have hr : r ∈ ps := List.mem_of_head? (hc.head_eq.symm)
    rw [setPrev, Function.update_of_ne (by rintro rfl; exact hq hr), Function.update_of_ne hqp]

/-- The node is the first one exactly when it has nothing in front of it. -/
theorem passNext_eq_mendNext {as : List (Nat × α)} {prev next : Option Nat}
    (has : Seg h none head as prev (some p)) (hp : p ∉ as.map Prod.fst) (a : α) :
    passNext h head ⟨a, next, prev⟩ = mendNext h head p ⟨a, next, prev⟩ := by
  rcases List.eq_nil_or_concat as with rfl | ⟨as, ⟨q, b⟩, rfl⟩
  · obtain ⟨rfl, rfl⟩ := has
    simp [passNext, mendNext]
  · rw [List.concat_eq_append] at *
    have hhead : head ≠ some p := by
      rintro rfl
      cases as with
      | nil => exact hp (by simp [Option.some.inj has.1])
      | cons c as => exact hp (by simp [(Option.some.inj has.1)])
    obtain ⟨_, _, -, -, next', hq, rfl, -⟩ := seg_append.mp has
    simp [passNext, mendNext, hhead, hq]

/-- **Taking out a node.**  Its own cell is left alone, and so is what is not on the list. -/
theorem Chain.takeOut (hc : Chain h head (as ++ p :: bs)) (hnodup : (as ++ p :: bs).Nodup) :
    ∃ h' head', takeOut h head p = some (h', head') ∧ Chain h' head' (as ++ bs) ∧
      ∀ q ∉ as ++ bs, h' q = h q := by
  obtain ⟨l, last, hl, hs⟩ := hc
  obtain ⟨as, rest, rfl, rfl, hrest⟩ := List.map_eq_append_iff.mp hl
  obtain ⟨⟨p, a⟩, bs, rfl, rfl, rfl⟩ := List.map_eq_cons_iff.mp hrest
  obtain ⟨last', stop', has, rfl, next, hp, hbs⟩ := seg_append.mp hs
  simp only [List.nodup_append, List.nodup_cons] at hnodup
  obtain ⟨hnas, ⟨hpbs, hnbs⟩, hdisj⟩ := hnodup
  have hpas : p ∉ as.map Prod.fst := fun hm => hdisj p hm p List.mem_cons_self rfl
  obtain ⟨h₁, head', hm₁, has₁, hframe₁, -⟩ := mendNext_spec next a has hnas hpas
  have hbs₁ : Seg h₁ (some p) next bs last none := hbs.congr fun q hq =>
    hframe₁ q fun hqa => hdisj q hqa q (List.mem_cons_of_mem _ hq) rfl
  obtain ⟨h₂, last'', hm₂, hbs₂, hframe₂, -⟩ := mendPrev_spec last' a hbs₁ hnbs
  have hpass := (passNext_eq_mendNext has hpas a).trans hm₁
  refine ⟨h₂, head', by simp [LinkedList.takeOut, hp, hpass, hm₂],
    ⟨as ++ bs, last'', List.map_append .., ?_⟩, fun q hq => ?_⟩
  · refine seg_append.mpr ⟨last', next, has₁.congr fun q hq => ?_, hbs₂⟩
    exact hframe₂ q fun hqb => hdisj q hq q (List.mem_cons_of_mem _ hqb) rfl
  · obtain ⟨hqa, hqb⟩ := not_or.mp (mt List.mem_append.mpr hq)
    rw [hframe₂ q hqb, hframe₁ q hqa]

/-- The nodes of a list can be read off the memory. -/
theorem Chain.nodes_eq (hc : Chain h head ps) {fuel : Nat} (hf : ps.length ≤ fuel) :
    nodes h fuel head = some ps := by
  obtain ⟨l, last, rfl, hs⟩ := hc
  rw [List.length_map] at hf
  suffices H : ∀ {prev start : Option Nat}, Seg h prev start l last none →
      nodes h fuel start = some (l.map Prod.fst) from H hs
  clear hs
  induction l generalizing fuel with
  | nil =>
      rintro prev _ ⟨-, rfl⟩
      cases fuel <;> rfl
  | cons b l ih =>
      obtain ⟨p, a⟩ := b
      rintro prev _ ⟨rfl, next, hp, hs⟩
      obtain ⟨fuel, rfl⟩ : ∃ k, fuel = k + 1 := ⟨fuel - 1, by rw [List.length_cons] at hf; omega⟩
      simp [nodes, hp, ih (Nat.le_of_succ_le_succ hf) hs]

end Chain

end Xnd.LinkedList
