import Mathlib.Data.List.Basic
import Mathlib.Data.List.Pairwise
import Mathlib.Order.Basic
import Mathlib.Order.Lattice

/-!
# Nested maps

A map of ranges: its entries are leaves, or submaps with entries of their own.  Down to a
limit on the depth such a map is a list of items (`Entries.view`): the leaves, and the
submaps at the limit, which stay closed.

Whoever walks through it does not know how deep it is.  They ask for the first item at or
after a place; for a submap they ask once more, one level deeper, and after a leaf they go
on with the depth of this leaf.  **They come to every leaf, in order and once**:
`visit_eq_foldlM`.  Who asks at the same depth again finds the same submap again, and
**never comes to an end**: `visitClosed_spec`.
-/
namespace Xnd

/-- The entries of a map, in order. -/
inductive Entries (K α : Type) where
  | nil
  | leaf (lo hi : K) (info : α) (rest : Entries K α)
  | submap (lo hi : K) (info : α) (inner rest : Entries K α)

/-- A leaf: a range, and what is known of it. -/
structure Leaf (K α : Type) where
  lo : K
  hi : K
  info : α

/-- What is found at a limit: a leaf, or a submap with its entries. -/
structure Item (K α : Type) extends Leaf K α where
  depth : Nat
  inner : Option (Entries K α)

namespace Entries
variable {K α : Type}

/-- How deep the submaps are. -/
def height : Entries K α → Nat
  | nil => 0
  | leaf _ _ _ rest => rest.height
  | submap _ _ _ inner rest => max (inner.height + 1) rest.height

/-- The leaves of all depths. -/
def leaves : Entries K α → List (Leaf K α)
  | nil => []
  | leaf lo hi info rest => ⟨lo, hi, info⟩ :: rest.leaves
  | submap _ _ _ inner rest => inner.leaves ++ rest.leaves

/-- The items of entries at the depth `k`, when at most `n` levels more are opened. -/
def view (k : Nat) : Nat → Entries K α → List (Item K α)
  | _, nil => []
  | n, leaf lo hi info rest => ⟨⟨lo, hi, info⟩, k, none⟩ :: view k n rest
  | 0, submap lo hi info inner rest => ⟨⟨lo, hi, info⟩, k, some inner⟩ :: view k 0 rest
  | n + 1, submap _ _ _ inner rest => view (k + 1) n inner ++ view k (n + 1) rest

end Entries

namespace Item
variable {K α : Type}

/-- The leaves of an item. -/
def leaves (i : Item K α) : List (Leaf K α) :=
  match i.inner with
  | none => [i.toLeaf]
  | some inner => inner.leaves

/-- An item one level deeper. -/
def expand (i : Item K α) : List (Item K α) :=
  match i.inner with
  | none => [i]
  | some inner => inner.view (i.depth + 1) 0

end Item

namespace Entries
variable {K α : Type}

/-- A view has all leaves. -/
theorem flatMap_leaves_view (es : Entries K α) (k n : Nat) :
    (es.view k n).flatMap Item.leaves = es.leaves := by
  induction es generalizing k n with
  | nil => simp [view, leaves]
  | leaf lo hi info rest ih => simp [view, leaves, ih, Item.leaves]
  | submap lo hi info inner rest ihInner ih =>
      cases n with
      | zero => simp [view, leaves, ih, Item.leaves]
      | succ n => simp [view, leaves, ih, ihInner]

/-- One more level is that of the items of the view. -/
theorem view_succ (es : Entries K α) (k n : Nat) :
    es.view k (n + 1) = (es.view k n).flatMap Item.expand := by
  induction es generalizing k n with
  | nil => simp [view]
  | leaf lo hi info rest ih => simp [view, ih, Item.expand]
  | submap lo hi info inner rest ihInner ih =>
      cases n with
      | zero => simp [view, ih, Item.expand]
      | succ n => rw [view, ihInner, ih, view, List.flatMap_append]

/-- The depth of an item is between that of the entries and the limit. -/
theorem depth_view {es : Entries K α} {k n : Nat} {i : Item K α} (h : i ∈ es.view k n) :
    k ≤ i.depth ∧ i.depth ≤ k + n := by
  induction es generalizing k n with
  | nil => simp [view] at h
  | leaf lo hi info rest ih =>
      obtain rfl | h := List.mem_cons.mp (by rwa [view] at h)
      · exact ⟨Nat.le_refl _, Nat.le_add_right ..⟩
      · exact ih h
  | submap lo hi info inner rest ihInner ih =>
      cases n with
      | zero =>
          obtain rfl | h := List.mem_cons.mp (by rwa [view] at h)
          · exact ⟨Nat.le_refl _, Nat.le_add_right ..⟩
          · exact ih h
      | succ n =>
          obtain h | h := List.mem_append.mp (by rwa [view] at h)
          · have := ihInner h
            omega
          · exact ih h

/-- A submap that is found closed is at the limit, and there is a level below it. -/
theorem closed_view {es inner : Entries K α} {k n : Nat} {i : Item K α} (h : i ∈ es.view k n)
    (hinner : i.inner = some inner) : i.depth = k + n ∧ n < es.height := by
  induction es generalizing k n with
  | nil => simp [view] at h
  | leaf lo hi info rest ih =>
      obtain rfl | h := List.mem_cons.mp (by rwa [view] at h)
      · cases hinner
      · exact ih h
  | submap lo hi info inner' rest ihInner ih =>
      rw [height]
      cases n with
      | zero =>
          obtain rfl | h := List.mem_cons.mp (by rwa [view] at h)
          · exact ⟨rfl, by omega⟩
          · have := ih h
            omega
      | succ n =>
          obtain h | h := List.mem_append.mp (by rwa [view] at h)
          · have := ihInner h
            omega
          · have := ih h
            omega

/-- A leaf is found with its own depth as the limit. -/
theorem leaf_view {es : Entries K α} {k n : Nat} {i : Item K α} (h : i ∈ es.view k n)
    (hleaf : i.inner = none) : i ∈ es.view k (i.depth - k) := by
  induction es generalizing k n with
  | nil => simp [view] at h
  | leaf lo hi info rest ih =>
      obtain rfl | h := List.mem_cons.mp (by rwa [view] at h)
      · rw [view]
        exact List.mem_cons_self
      · rw [view]
        exact List.mem_cons_of_mem _ (ih h)
  | submap lo hi info inner' rest ihInner ih =>
      -- a leaf after the submap is found whether the submap is opened or not
      have hrest : i ∈ rest.view k (i.depth - k) →
          i ∈ (submap lo hi info inner' rest).view k (i.depth - k) := fun h => by
        cases hd : i.depth - k with
        | zero =>
            rw [hd] at h
            rw [view]
            exact List.mem_cons_of_mem _ h
        | succ d =>
            rw [hd] at h
            rw [view]
            exact List.mem_append_right _ h
      cases n with
      | zero =>
          obtain rfl | h := List.mem_cons.mp (by rwa [view] at h)
          · cases hleaf
          · exact hrest (ih h)
      | succ n =>
          obtain h | h := List.mem_append.mp (by rwa [view] at h)
          · have hdepth := (depth_view h).1
            obtain ⟨d, hd⟩ : ∃ d, i.depth - k = d + 1 := ⟨i.depth - k - 1, by omega⟩
            have hinner := ihInner h
            rw [show i.depth - (k + 1) = d by omega] at hinner
            rw [hd, view]
            exact List.mem_append_left _ hinner
          · exact hrest (ih h)

end Entries

section Order
variable {K α : Type} [LinearOrder K]

/-- The entries are in order and disjoint, between `lo` and `hi`, none is empty, and those
of a submap are within it. -/
def Entries.Ordered (lo hi : K) : Entries K α → Prop
  | .nil => True
  | .leaf l h _ rest => lo ≤ l ∧ l < h ∧ h ≤ hi ∧ rest.Ordered h hi
  | .submap l h _ inner rest =>
      lo ≤ l ∧ l < h ∧ h ≤ hi ∧ inner.Ordered l h ∧ rest.Ordered h hi

/-- A range that is not empty, between `lo` and `hi`. -/
structure Leaf.Within (lo hi : K) (l : Leaf K α) : Prop where
  le_lo : lo ≤ l.lo
  lt : l.lo < l.hi
  hi_le : l.hi ≤ hi

theorem Leaf.Within.mono {lo lo' hi hi' : K} {l : Leaf K α} (h : l.Within lo hi) (hlo : lo' ≤ lo)
    (hhi : hi ≤ hi') : l.Within lo' hi' :=
  ⟨hlo.trans h.le_lo, h.lt, h.hi_le.trans hhi⟩

/-- The first range ends before the other begins. -/
def Leaf.Before (l l' : Leaf K α) : Prop := l.hi ≤ l'.lo

namespace Entries
variable {lo hi : K} {es : Entries K α}

theorem Ordered.mono {lo' : K} (h : es.Ordered lo hi) (hlo : lo' ≤ lo) : es.Ordered lo' hi := by
  cases es with
  | nil => trivial
  | leaf l u info rest => exact ⟨hlo.trans h.1, h.2⟩
  | submap l u info inner rest => exact ⟨hlo.trans h.1, h.2⟩

theorem within_leaves (h : es.Ordered lo hi) {l : Leaf K α} (hl : l ∈ es.leaves) :
    l.Within lo hi := by
  induction es generalizing lo hi with
  | nil => simp [leaves] at hl
  | leaf lo' hi' info rest ih =>
      obtain ⟨hlo, hlt, hhi, hrest⟩ := h
      obtain rfl | hl := List.mem_cons.mp (by rwa [leaves] at hl)
      · exact ⟨hlo, hlt, hhi⟩
      · exact (ih hrest hl).mono (hlo.trans hlt.le) (le_refl _)
  | submap lo' hi' info inner rest ihInner ih =>
      obtain ⟨hlo, hlt, hhi, hinner, hrest⟩ := h
      obtain hl | hl := List.mem_append.mp (by rwa [leaves] at hl)
      · exact (ihInner hinner hl).mono hlo hhi
      · exact (ih hrest hl).mono (hlo.trans hlt.le) (le_refl _)

theorem pairwise_leaves (h : es.Ordered lo hi) : es.leaves.Pairwise Leaf.Before := by
  induction es generalizing lo hi with
  | nil => exact .nil
  | leaf lo' hi' info rest ih =>
      obtain ⟨-, -, -, hrest⟩ := h
      exact .cons (fun l hl => (within_leaves hrest hl).le_lo) (ih hrest)
  | submap lo' hi' info inner rest ihInner ih =>
      obtain ⟨-, -, -, hinner, hrest⟩ := h
      refine List.pairwise_append.mpr ⟨ihInner hinner, ih hrest, fun l hl l' hl' => ?_⟩
      exact (within_leaves hinner hl).hi_le.trans (within_leaves hrest hl').le_lo

theorem within_view (h : es.Ordered lo hi) {k n : Nat} {i : Item K α} (hi' : i ∈ es.view k n) :
    i.toLeaf.Within lo hi ∧ ∀ inner, i.inner = some inner → inner.Ordered i.lo i.hi := by
  induction es generalizing lo hi k n with
  | nil => simp [view] at hi'
  | leaf l u info rest ih =>
      obtain ⟨hlo, hlt, hhi, hrest⟩ := h
      obtain rfl | hmem := List.mem_cons.mp (by rwa [view] at hi')
      · exact ⟨⟨hlo, hlt, hhi⟩, nofun⟩
      · obtain ⟨hwithin, hinner⟩ := ih hrest hmem
        exact ⟨hwithin.mono (hlo.trans hlt.le) (le_refl _), hinner⟩
  | submap l u info inner rest ihInner ih =>
      obtain ⟨hlo, hlt, hhi, hsub, hrest⟩ := h
      have after : ∀ {n}, i ∈ rest.view k n →
          i.toLeaf.Within lo hi ∧ ∀ inner, i.inner = some inner → inner.Ordered i.lo i.hi :=
        fun hmem => ⟨(ih hrest hmem).1.mono (hlo.trans hlt.le) (le_refl _), (ih hrest hmem).2⟩
      cases n with
      | zero =>
          obtain rfl | hmem := List.mem_cons.mp (by rwa [view] at hi')
          · exact ⟨⟨hlo, hlt, hhi⟩, fun inner hinner => Option.some.inj hinner ▸ hsub⟩
          · exact after hmem
      | succ n =>
          obtain hmem | hmem := List.mem_append.mp (by rwa [view] at hi')
          · exact ⟨(ihInner hsub hmem).1.mono hlo hhi, (ihInner hsub hmem).2⟩
          · exact after hmem

theorem pairwise_view (h : es.Ordered lo hi) (k n : Nat) :
    (es.view k n).Pairwise fun i j => i.toLeaf.Before j.toLeaf := by
  induction es generalizing lo hi k n with
  | nil => simp [view]
  | leaf l u info rest ih =>
      obtain ⟨-, -, -, hrest⟩ := h
      rw [view]
      exact .cons (fun i hi => (within_view hrest hi).1.le_lo) (ih hrest k n)
  | submap l u info inner rest ihInner ih =>
      obtain ⟨-, -, -, hsub, hrest⟩ := h
      cases n with
      | zero =>
          rw [view]
          exact .cons (fun i hi => (within_view hrest hi).1.le_lo) (ih hrest k 0)
      | succ n =>
          rw [view]
          refine List.pairwise_append.mpr ⟨ihInner hsub _ _, ih hrest _ _, fun i hi j hj => ?_⟩
          exact (within_view hsub hi).1.hi_le.trans (within_view hrest hj).1.le_lo

end Entries

/-! ## The walk -/

namespace Entries
variable {lo hi addr : K} {es : Entries K α} {n : Nat} {i : Item K α}

/-- The first item at or after `addr`, when at most `n` levels are opened. -/
def next (es : Entries K α) (addr : K) (n : Nat) : Option (Item K α) :=
  (es.view 0 n).find? fun i => decide (addr < i.hi)

/-- The leaves from `addr` on. -/
def leavesFrom (es : Entries K α) (addr : K) : List (Leaf K α) :=
  es.leaves.filter fun l => decide (addr ≤ l.lo)

/-- No item at the limit `n` has `addr` inside it. -/
def Aligned (es : Entries K α) (addr : K) (n : Nat) : Prop :=
  ∀ i ∈ es.view 0 n, i.hi ≤ addr ∨ addr ≤ i.lo

/-- What is found is the first item that ends after `addr`. -/
theorem next_eq_some (h : es.Ordered lo hi) (hnext : es.next addr n = some i) :
    i ∈ es.view 0 n ∧ addr < i.hi ∧
      ∀ j ∈ es.view 0 n, j.hi ≤ addr ∨ j = i ∨ i.hi ≤ j.lo := by
  obtain ⟨hlt, before, after, hview, hbefore⟩ := List.find?_eq_some_iff_append.mp hnext
  have hpairwise := pairwise_view h 0 n
  rw [hview] at hpairwise ⊢
  obtain ⟨-, hafter, -⟩ := List.pairwise_append.mp hpairwise
  refine ⟨List.mem_append_right _ List.mem_cons_self, of_decide_eq_true hlt, fun j hj => ?_⟩
  obtain hj | hj := List.mem_append.mp hj
  · have := hbefore j hj
    simp only [Bool.not_eq_true', decide_eq_false_iff_not, not_lt] at this
    exact .inl this
  · obtain rfl | hj := List.mem_cons.mp hj
    · exact .inr (.inl rfl)
    · exact .inr (.inr ((List.pairwise_cons.mp hafter).1 j hj))

/-- A leaf is in an item of the view, or is one. -/
theorem exists_item (h : es.Ordered lo hi) (n : Nat) {l : Leaf K α} (hl : l ∈ es.leaves) :
    ∃ i ∈ es.view 0 n, l.Within i.lo i.hi ∧ (i.inner = none → l = i.toLeaf) := by
  rw [← flatMap_leaves_view es 0 n] at hl
  obtain ⟨i, hi', hl⟩ := List.mem_flatMap.mp hl
  obtain ⟨hwithin, hinner⟩ := within_view h hi'
  refine ⟨i, hi', ?_⟩
  rw [Item.leaves] at hl
  split at hl
  case h_1 =>
    obtain rfl := List.mem_singleton.mp hl
    exact ⟨⟨le_refl _, hwithin.lt, le_refl _⟩, fun _ => rfl⟩
  case h_2 inner hsome =>
    exact ⟨within_leaves (hinner inner hsome) hl, fun hnone => by simp [hnone] at hsome⟩

/-- Nothing is found: no leaf is left. -/
theorem leavesFrom_of_next_none (h : es.Ordered lo hi) (hnext : es.next addr n = none) :
    es.leavesFrom addr = [] := by
  refine List.filter_eq_nil_iff.mpr fun l hl hle => ?_
  obtain ⟨i, hi', hwithin, -⟩ := exists_item h n hl
  have hend := List.find?_eq_none.mp hnext i hi'
  exact hend (decide_eq_true
    ((of_decide_eq_true hle).trans_lt (hwithin.lt.trans_le hwithin.hi_le)))

/-- An item is found: it is not before `addr`, and no leaf from `addr` on is before it. -/
theorem le_of_next (h : es.Ordered lo hi) (hal : es.Aligned addr n)
    (hnext : es.next addr n = some i) :
    addr ≤ i.lo ∧ ∀ l ∈ es.leaves, addr ≤ l.lo → l.Within i.lo i.hi ∧
      (i.inner = none → l = i.toLeaf) ∨ i.hi ≤ l.lo := by
  obtain ⟨hmem, hlt, hothers⟩ := next_eq_some h hnext
  refine ⟨(hal i hmem).resolve_left (not_le.mpr hlt), fun l hl hle => ?_⟩
  obtain ⟨j, hj, hwithin, hleaf⟩ := exists_item h n hl
  obtain hend | rfl | hafter := hothers j hj
  · have := hle.trans_lt (hwithin.lt.trans_le (hwithin.hi_le.trans hend))
    exact absurd this (lt_irrefl _)
  · exact .inl ⟨hwithin, hleaf⟩
  · exact .inr (hafter.trans hwithin.le_lo)

/-- **A submap is found**: no leaf is passed, and one level deeper nothing has its beginning
inside. -/
theorem leavesFrom_of_next_submap (h : es.Ordered lo hi) (hal : es.Aligned addr n)
    (hnext : es.next addr n = some i) {inner : Entries K α} (hinner : i.inner = some inner) :
    es.leavesFrom i.lo = es.leavesFrom addr ∧ es.Aligned i.lo (i.depth + 1) := by
  obtain ⟨hmem, hlt, hothers⟩ := next_eq_some h hnext
  obtain ⟨hle, hleaves⟩ := le_of_next h hal hnext
  have hdepth : i.depth = n := (closed_view hmem hinner).1.trans (Nat.zero_add n)
  constructor
  · refine List.filter_congr fun l hl => decide_eq_decide.mpr ⟨hle.trans, fun hfrom => ?_⟩
    obtain ⟨hwithin, -⟩ | hafter := hleaves l hl hfrom
    · exact hwithin.le_lo
    · exact ((within_view h hmem).1.lt.trans_le hafter).le
  · intro g hg
    rw [hdepth, view_succ] at hg
    obtain ⟨j, hj, hg⟩ := List.mem_flatMap.mp hg
    -- `g` is the item `j` of the view or inside it
    have hwithin : g.toLeaf.Within j.lo j.hi := by
      obtain ⟨hj', hsub⟩ := within_view h hj
      rw [Item.expand] at hg
      split at hg
      case h_1 =>
        obtain rfl := List.mem_singleton.mp hg
        exact ⟨le_refl _, hj'.lt, le_refl _⟩
      case h_2 inner' hsome => exact (within_view (hsub inner' hsome) hg).1
    obtain hend | rfl | hafter := hothers j hj
    · exact .inl (hwithin.hi_le.trans (hend.trans hle))
    · exact .inr hwithin.le_lo
    · exact .inr ((within_view h hmem).1.lt.le.trans (hafter.trans hwithin.le_lo))

/-- Of leaves in order, those from one on are this one and those after it. -/
theorem filter_le_lo {ls : List (Leaf K α)} {l : Leaf K α} (hl : l ∈ ls)
    (hpairwise : ls.Pairwise Leaf.Before) (hlt : ∀ m ∈ ls, m.lo < m.hi)
    (hfrom : ∀ m ∈ ls, addr ≤ m.lo → m = l ∨ l.hi ≤ m.lo) (hle : addr ≤ l.lo) :
    ls.filter (fun m => decide (addr ≤ m.lo)) = l :: ls.filter fun m => decide (l.hi ≤ m.lo) := by
  obtain ⟨before, after, rfl⟩ := List.append_of_mem hl
  obtain ⟨-, hafter, hbefore⟩ := List.pairwise_append.mp hpairwise
  have hself := hlt l hl
  have hnone : ∀ m ∈ before, ¬ addr ≤ m.lo ∧ ¬ l.hi ≤ m.lo := fun m hm => by
    have hm' := List.mem_append_left (l :: after) hm
    have hm_lt : m.lo < l.lo := (hlt m hm').trans_le (hbefore m hm l List.mem_cons_self)
    refine ⟨fun haddr => ?_, fun hend => lt_irrefl _ ((hself.trans_le hend).trans hm_lt)⟩
    obtain rfl | hend := hfrom m hm' haddr
    · exact lt_irrefl _ hm_lt
    · exact lt_irrefl _ ((hself.trans_le hend).trans hm_lt)
  have hall : ∀ m ∈ after, addr ≤ m.lo ∧ l.hi ≤ m.lo := fun m hm => by
    have hend : l.hi ≤ m.lo := (List.pairwise_cons.mp hafter).1 m hm
    exact ⟨hle.trans (hself.le.trans hend), hend⟩
  have hdrop : ∀ {p : Leaf K α → Bool}, (∀ m ∈ before, p m = false) → before.filter p = [] :=
    fun h => List.filter_eq_nil_iff.mpr fun m hm => by simp [h m hm]
  have hkeep : ∀ {p : Leaf K α → Bool}, (∀ m ∈ after, p m = true) → after.filter p = after :=
    fun h => List.filter_eq_self.mpr h
  rw [List.filter_append, List.filter_append, List.filter_cons_of_pos (by simpa using hle),
    List.filter_cons_of_neg (by simpa using hself),
    hdrop fun m hm => decide_eq_false (hnone m hm).1,
    hdrop fun m hm => decide_eq_false (hnone m hm).2,
    hkeep fun m hm => decide_eq_true (hall m hm).1,
    hkeep fun m hm => decide_eq_true (hall m hm).2]
  rfl

/-- **A leaf is found**: it is the first of the leaves that are left, and at its depth nothing
has its end inside. -/
theorem leavesFrom_of_next_leaf (h : es.Ordered lo hi) (hal : es.Aligned addr n)
    (hnext : es.next addr n = some i) (hleaf : i.inner = none) :
    es.leavesFrom addr = i.toLeaf :: es.leavesFrom i.hi ∧ es.Aligned i.hi i.depth := by
  obtain ⟨hmem, hlt, hothers⟩ := next_eq_some h hnext
  obtain ⟨hle, hleaves⟩ := le_of_next h hal hnext
  constructor
  · refine filter_le_lo ?_ (pairwise_leaves h) (fun m hm => (within_leaves h hm).lt)
      (fun m hm hfrom => ?_) hle
    · rw [← flatMap_leaves_view es 0 n]
      refine List.mem_flatMap.mpr ⟨i, hmem, ?_⟩
      rw [Item.leaves, hleaf]
      exact List.mem_singleton_self _
    · exact (hleaves m hm hfrom).imp (fun hin => hin.2 hleaf) id
  · have hown : i ∈ es.view 0 i.depth := leaf_view hmem hleaf
    obtain ⟨before, after, hview⟩ := List.append_of_mem hown
    have hpairwise := pairwise_view h 0 i.depth
    intro g hg
    rw [hview] at hpairwise hg
    obtain ⟨-, hafter, hbefore⟩ := List.pairwise_append.mp hpairwise
    obtain hg | hg := List.mem_append.mp hg
    · exact .inl ((hbefore g hg i List.mem_cons_self).trans (within_view h hmem).1.lt.le)
    · obtain rfl | hg := List.mem_cons.mp hg
      · exact .inl (le_refl _)
      · exact .inr ((List.pairwise_cons.mp hafter).1 g hg)

end Entries
end Order

section Walk
variable {K α ε σ : Type}

/-- The walk, for `n` turns at most: `next` finds an item, and `body` takes a leaf and may
end the walk.  No result: the walk is not over. -/
def visit (next : K → Nat → Option (Item K α)) (body : σ → Leaf K α → Except ε σ) :
    Nat → K → Nat → σ → Option (Except ε σ)
  | 0, _, _, _ => none
  | n + 1, addr, depth, s =>
      match next addr depth with
      | none => some (.ok s)
      | some i =>
          if i.inner.isSome then visit next body n i.lo (i.depth + 1) s
          else
            match body s i.toLeaf with
            | .error e => some (.error e)
            | .ok s => visit next body n i.hi i.depth s

variable [LinearOrder K]

/-- From an aligned place on, the walk is over after some turns.  The induction is on the
leaves that are left and, while they stay the same, on the levels that are left. -/
theorem visit_of_aligned {es : Entries K α} {lo hi : K} (h : es.Ordered lo hi)
    (body : σ → Leaf K α → Except ε σ) {addr : K} {depth : Nat} (hal : es.Aligned addr depth)
    (s : σ) :
    ∃ n, ∀ m ≥ n, visit es.next body m addr depth s =
      some ((es.leavesFrom addr).foldlM body s) := by
  cases hnext : es.next addr depth with
  | none =>
      refine ⟨1, fun m hm => ?_⟩
      obtain ⟨m, rfl⟩ := Nat.exists_eq_add_of_le' hm
      rw [visit, hnext, Entries.leavesFrom_of_next_none h hnext]
      rfl
  | some i =>
      cases hinner : i.inner with
      | some inner =>
          obtain ⟨hleaves, hal'⟩ := Entries.leavesFrom_of_next_submap h hal hnext hinner
          obtain ⟨hdepth, hheight⟩ :=
            Entries.closed_view (Entries.next_eq_some h hnext).1 hinner
          obtain ⟨n, hn⟩ := visit_of_aligned h body hal' s
          refine ⟨n + 1, fun m hm => ?_⟩
          obtain ⟨m, rfl⟩ : ∃ m', m = m' + 1 := ⟨m - 1, by omega⟩
          rw [visit, hnext, ← hleaves]
          simp only [hinner, Option.isSome_some, if_true]
          exact hn m (by omega)
      | none =>
          obtain ⟨hleaves, hal'⟩ := Entries.leavesFrom_of_next_leaf h hal hnext hinner
          cases hbody : body s i.toLeaf with
          | error e =>
              refine ⟨1, fun m hm => ?_⟩
              obtain ⟨m, rfl⟩ := Nat.exists_eq_add_of_le' hm
              rw [visit, hnext, hleaves, List.foldlM_cons, hbody]
              simp only [hinner, Option.isSome_none, Bool.false_eq_true, if_false, hbody]
              rfl
          | ok s' =>
              obtain ⟨n, hn⟩ := visit_of_aligned h body hal' s'
              refine ⟨n + 1, fun m hm => ?_⟩
              obtain ⟨m, rfl⟩ : ∃ m', m = m' + 1 := ⟨m - 1, by omega⟩
              rw [visit, hnext, hleaves, List.foldlM_cons, hbody]
              simp only [hinner, Option.isSome_none, Bool.false_eq_true, if_false, hbody]
              exact hn m (by omega)
termination_by ((es.leavesFrom addr).length, es.height - depth)
decreasing_by
  · rw [hleaves]
    exact .left _ _ (Nat.lt_succ_self _)
  · rw [hleaves]
    exact .right _ (by omega)

/-- **The walk comes to every leaf, in order and once**, and then it is over. -/
theorem visit_eq_foldlM {es : Entries K α} {lo hi : K} (h : es.Ordered lo hi)
    (body : σ → Leaf K α → Except ε σ) (s : σ) :
    ∃ n, ∀ m ≥ n, visit es.next body m lo 0 s = some (es.leaves.foldlM body s) := by
  have hal : es.Aligned lo 0 := fun i hi => .inr (Entries.within_view h hi).1.le_lo
  have hall : es.leavesFrom lo = es.leaves :=
    List.filter_eq_self.mpr fun l hl => decide_eq_true (Entries.within_leaves h hl).le_lo
  have hvisit := visit_of_aligned h body hal s
  rwa [hall] at hvisit

/-! ### A walk that opens nothing -/

omit [LinearOrder K] in
/-- The walk that asks at the same depth again when it finds a submap. -/
def visitClosed (next : K → Nat → Option (Item K α)) (body : σ → Leaf K α → Except ε σ) :
    Nat → K → Nat → σ → Option (Except ε σ)
  | 0, _, _, _ => none
  | n + 1, addr, depth, s =>
      match next addr depth with
      | none => some (.ok s)
      | some i =>
          if i.inner.isSome then visitClosed next body n i.lo i.depth s
          else
            match body s i.toLeaf with
            | .error e => some (.error e)
            | .ok s => visitClosed next body n i.hi i.depth s

omit [LinearOrder K] in
/-- What becomes of entries that are not opened.  No result: a submap is come to. -/
def Entries.closedRun (body : σ → Leaf K α → Except ε σ) : Entries K α → σ → Option (Except ε σ)
  | .nil, s => some (.ok s)
  | .leaf lo hi info rest, s =>
      match body s ⟨lo, hi, info⟩ with
      | .error e => some (.error e)
      | .ok s => rest.closedRun body s
  | .submap _ _ _ _ _, _ => none

/-- What is found first among `before` and the entries `es`, when all `before` end at the
place or earlier. -/
theorem find?_append_view {before : List (Item K α)} {es : Entries K α} {lo hi addr : K}
    (h : es.Ordered lo hi) (hbefore : ∀ b ∈ before, b.hi ≤ addr) (haddr : addr ≤ lo) :
    (before ++ es.view 0 0).find? (fun i => decide (addr < i.hi)) = (es.view 0 0).head? := by
  have hnone : before.find? (fun i => decide (addr < i.hi)) = none :=
    List.find?_eq_none.mpr fun b hb => by simpa using hbefore b hb
  rw [List.find?_append, hnone, Option.none_or]
  cases es with
  | nil => rfl
  | leaf l u info rest =>
      rw [Entries.view]
      exact List.find?_cons_of_pos (decide_eq_true (haddr.trans_lt (h.1.trans_lt h.2.1)))
  | submap l u info inner rest =>
      rw [Entries.view]
      exact List.find?_cons_of_pos (decide_eq_true (haddr.trans_lt (h.1.trans_lt h.2.1)))

/-- The closed walk from a place on, with the entries before it passed. -/
theorem visitClosed_of_append {all es : Entries K α} {before : List (Item K α)} {lo hi : K}
    (h : es.Ordered lo hi) (body : σ → Leaf K α → Except ε σ) {addr : K}
    (hall : all.view 0 0 = before ++ es.view 0 0) (hbefore : ∀ b ∈ before, b.hi ≤ addr)
    (haddr : addr ≤ lo) (s : σ) :
    (∀ r, es.closedRun body s = some r →
      ∃ n, ∀ m ≥ n, visitClosed all.next body m addr 0 s = some r) ∧
    (es.closedRun body s = none → ∀ m, visitClosed all.next body m addr 0 s = none) := by
  have hnext : all.next addr 0 = (es.view 0 0).head? := by
    rw [Entries.next, hall]
    exact find?_append_view h hbefore haddr
  induction es generalizing before lo addr s with
  | nil =>
      refine ⟨fun r hr => ⟨1, fun m hm => ?_⟩, nofun⟩
      obtain ⟨m, rfl⟩ := Nat.exists_eq_add_of_le' hm
      rw [visitClosed, hnext]
      exact hr
  | submap l u info inner rest ihInner ih =>
      refine ⟨nofun, fun _ m => ?_⟩
      have hown : (Entries.submap l u info inner rest).Ordered l hi := ⟨le_refl _, h.2⟩
      have hagain : all.next l 0 = some ⟨⟨l, u, info⟩, 0, some inner⟩ := by
        rw [Entries.next, hall]
        exact find?_append_view hown (fun b hb => (hbefore b hb).trans (haddr.trans h.1)) (le_refl _)
      -- from the beginning of the submap on, each turn finds it once more
      have hstuck : ∀ m, visitClosed all.next body m l 0 s = none := fun m => by
        induction m with
        | zero => rfl
        | succ m ihm => simpa [visitClosed, hagain] using ihm
      cases m with
      | zero => rfl
      | succ m => simpa [visitClosed, hnext, Entries.view] using hstuck m
  | leaf l u info rest ih =>
      obtain ⟨hlo, hlt, -, hrest⟩ := h
      rw [Entries.view] at hnext
      cases hbody : body s ⟨l, u, info⟩ with
      | error e =>
          refine ⟨fun r hr => ⟨1, fun m hm => ?_⟩, fun hr => ?_⟩
          · obtain ⟨m, rfl⟩ := Nat.exists_eq_add_of_le' hm
            rw [Entries.closedRun, hbody] at hr
            rw [visitClosed, hnext]
            simpa [hbody] using hr
          · rw [Entries.closedRun, hbody] at hr
            cases hr
      | ok s' =>
          have hgo : ∀ m, visitClosed all.next body (m + 1) addr 0 s =
              visitClosed all.next body m u 0 s' := fun m => by
            rw [visitClosed, hnext]
            simp [hbody]
          have hall' : all.view 0 0 = (before ++ [⟨⟨l, u, info⟩, 0, none⟩]) ++ rest.view 0 0 := by
            rw [hall, Entries.view, List.append_assoc]
            rfl
          have hbefore' : ∀ b ∈ before ++ [(⟨⟨l, u, info⟩, 0, none⟩ : Item K α)], b.hi ≤ u :=
            fun b hb => by
              obtain hb | hb := List.mem_append.mp hb
              · exact (hbefore b hb).trans (haddr.trans (hlo.trans hlt.le))
              · obtain rfl := List.mem_singleton.mp hb
                exact le_refl _
          obtain ⟨hends, hloops⟩ := ih hrest hall' hbefore' (le_refl _) s' (by
            rw [Entries.next, hall']
            exact find?_append_view hrest hbefore' (le_refl _))
          rw [Entries.closedRun, hbody]
          refine ⟨fun r hr => ?_, fun hr m => ?_⟩
          · obtain ⟨n, hn⟩ := hends r hr
            refine ⟨n + 1, fun m hm => ?_⟩
            obtain ⟨m, rfl⟩ : ∃ m', m = m' + 1 := ⟨m - 1, by omega⟩
            rw [hgo]
            exact hn m (by omega)
          · cases m with
            | zero => rfl
            | succ m => rw [hgo, hloops hr]

/-- **A walk that opens nothing** is over when no submap is come to, and otherwise it never
ends. -/
theorem visitClosed_spec {es : Entries K α} {lo hi : K} (h : es.Ordered lo hi)
    (body : σ → Leaf K α → Except ε σ) (s : σ) :
    (∀ r, es.closedRun body s = some r →
      ∃ n, ∀ m ≥ n, visitClosed es.next body m lo 0 s = some r) ∧
    (es.closedRun body s = none → ∀ m, visitClosed es.next body m lo 0 s = none) :=
  visitClosed_of_append h body (List.nil_append _).symm nofun (le_refl _) s

end Walk

end Xnd
