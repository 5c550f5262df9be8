import Mathlib.Data.List.Nodup
import Xnd.Lib.DoWhile

/-!
# Walks along a chain

Records point to the next one, and the last of them nowhere.  `forLoop` runs a body at one
record after another; the body may write to the records, also to those that are still to
come.  An iterator that stops only at some of the records looks for the next one with
`search`.

**An iterator is a test in the body** (`returns_visit_iff`): running a body at the records
that `search` finds is running it at those of all records that pass the test, whatever the
body does.  What that comes to on a chain that the body leaves alone is `returns_walk`.
-/
namespace Xnd.Walk

variable {σ α ε : Type} [DecidableEq α]

/-- `for (; p != NULL; p = advance(p)) body`, where the body may halt the program. -/
def forLoop (null : α) (advance : Nat → σ → α → Option α) (body : α → σ → Except ε σ) :
    Nat → σ → α → Option (Except ε σ)
  | 0, _, _ => none
  | fuel + 1, s, p =>
      if p = null then some (.ok s)
      else match body p s with
        | .error e => some (.error e)
        | .ok s => (advance fuel s p).bind fun p => forLoop null advance body fuel s p

/-- Records in a state: the next one, and a test. -/
structure Records (σ α : Type) where
  null : α
  next : σ → α → α
  test : σ → α → Bool

namespace Records
variable (R : Records σ α) (body : α → σ → Except ε σ)

/-- The first record from `p` on that passes the test. -/
def search : Nat → σ → α → Option α
  | 0, _, _ => none
  | fuel + 1, s, p =>
      if p = R.null then some p else if R.test s p = true then some p
      else search fuel s (R.next s p)

/-- The next record behind `p` that passes it. -/
def searchNext (fuel : Nat) (s : σ) (p : α) : Option α :=
  if p = R.null then some p else R.search fuel s (R.next s p)

/-- The body at every record that is found. -/
def visit (s : σ) (p : α) (fuel : Nat) : Option (Except ε σ) :=
  (R.search fuel s p).bind fun p => forLoop R.null R.searchNext body fuel s p

/-- The body at every record that passes the test when the walk comes to it. -/
def walk (s : σ) (p : α) (fuel : Nat) : Option (Except ε σ) :=
  forLoop R.null (fun _ s p => some (R.next s p))
    (fun p s => if R.test s p = true then body p s else .ok s) fuel s p

variable {R body} {s : σ} {p q : α}

theorem search_succ {fuel : Nat} (h : R.search fuel s p = some q) :
    R.search (fuel + 1) s p = some q := by
  induction fuel generalizing p with
  | zero => cases h
  | succ fuel ih =>
      rw [search] at h ⊢
      split
      · rwa [if_pos ‹_›] at h
      · rw [if_neg ‹_›] at h
        split
        · rwa [if_pos ‹_›] at h
        · rw [if_neg ‹_›] at h
          exact ih h

theorem searchNext_succ {fuel : Nat} (h : R.searchNext fuel s p = some q) :
    R.searchNext (fuel + 1) s p = some q := by
  rw [searchNext] at h ⊢
  split
  · rwa [if_pos ‹_›] at h
  · rw [if_neg ‹_›] at h
    exact search_succ h

/-- What is found is the end of the chain, or passes the test. -/
theorem test_of_search {fuel : Nat} (h : R.search fuel s p = some q) :
    q = R.null ∨ R.test s q = true := by
  induction fuel generalizing p with
  | zero => cases h
  | succ fuel ih =>
      rw [search] at h
      split at h
      · obtain rfl := Option.some.inj h
        exact .inl ‹_›
      · split at h
        · obtain rfl := Option.some.inj h
          exact .inr ‹_›
        · exact ih h

end Records

theorem forLoop_succ {null : α} {advance : Nat → σ → α → Option α} {body : α → σ → Except ε σ}
    (hadvance : ∀ fuel s p q, advance fuel s p = some q → advance (fuel + 1) s p = some q)
    {fuel : Nat} {s : σ} {p : α} {r : Except ε σ}
    (h : forLoop null advance body fuel s p = some r) :
    forLoop null advance body (fuel + 1) s p = some r := by
  induction fuel generalizing s p with
  | zero => cases h
  | succ fuel ih =>
      rw [forLoop] at h ⊢
      split
      · rwa [if_pos ‹_›] at h
      · rw [if_neg ‹_›] at h
        split at h
        · exact h
        · obtain ⟨q, hq, hrest⟩ := Option.bind_eq_some_iff.mp h
          exact Option.bind_eq_some_iff.mpr ⟨q, hadvance _ _ _ _ hq, ih hrest⟩

namespace Records
variable {R : Records σ α} {body : α → σ → Except ε σ} {s : σ} {p q : α} {r : Except ε σ}

theorem visit_succ {fuel : Nat} (h : R.visit body s p fuel = some r) :
    R.visit body s p (fuel + 1) = some r := by
  obtain ⟨q, hq, hrest⟩ := Option.bind_eq_some_iff.mp h
  exact Option.bind_eq_some_iff.mpr
    ⟨q, search_succ hq, forLoop_succ (fun _ _ _ _ => searchNext_succ) hrest⟩

theorem walk_succ {fuel : Nat} (h : R.walk body s p fuel = some r) :
    R.walk body s p (fuel + 1) = some r := by
  have hadvance : ∀ fuel s p q, (fun (_ : Nat) s p => some (R.next s p)) fuel s p = some q →
      (fun (_ : Nat) s p => some (R.next s p)) (fuel + 1) s p = some q := fun _ _ _ _ h => h
  exact forLoop_succ hadvance h

/-- A turn of the walk at a record. -/
theorem walk_add_one (hp : p ≠ R.null) (fuel : Nat) :
    R.walk body s p (fuel + 1) =
      match (if R.test s p = true then body p s else .ok s) with
      | .error e => some (.error e)
      | .ok s => R.walk body s (R.next s p) fuel := by
  rw [walk, forLoop, if_neg hp]
  rfl

/-- The walk does nothing at the records that are not found. -/
theorem walk_of_search {fuel : Nat} (h : R.search fuel s p = some q) {n : Nat}
    (hwalk : R.walk body s q n = some r) : ∃ n, R.walk body s p n = some r := by
  induction fuel generalizing p with
  | zero => cases h
  | succ fuel ih =>
      rw [search] at h
      split at h
      · obtain rfl := Option.some.inj h
        exact ⟨n, hwalk⟩
      · split at h
        · obtain rfl := Option.some.inj h
          exact ⟨n, hwalk⟩
        · rename_i hnull htest
          obtain ⟨k, hk⟩ := ih h
          refine ⟨k + 1, ?_⟩
          rw [walk_add_one hnull, if_neg htest]
          exact hk

/-- A record that the iterator stops at is one where the walk runs the body. -/
theorem walk_of_forLoop {fuel : Nat} (hq : q = R.null ∨ R.test s q = true)
    (h : forLoop R.null R.searchNext body fuel s q = some r) :
    ∃ n, R.walk body s q n = some r := by
  induction fuel generalizing s q with
  | zero => cases h
  | succ fuel ih =>
      rw [forLoop] at h
      by_cases hnull : q = R.null
      · rw [if_pos hnull] at h
        exact ⟨1, by rw [walk, forLoop, if_pos hnull, h]⟩
      · rw [if_neg hnull] at h
        have htest := hq.resolve_left hnull
        split at h
        · rename_i e hbody
          exact ⟨1, by rw [walk_add_one hnull, if_pos htest, hbody, ← h]⟩
        · rename_i t hbody
          obtain ⟨q', hq', hrest⟩ := Option.bind_eq_some_iff.mp h
          rw [searchNext, if_neg hnull] at hq'
          obtain ⟨k, hk⟩ := ih (test_of_search hq') hrest
          obtain ⟨n, hn⟩ := walk_of_search hq' hk
          exact ⟨n + 1, by rw [walk_add_one hnull, if_pos htest, hbody]; exact hn⟩

theorem visit_of_walk {n : Nat} (h : R.walk body s p n = some r) :
    ∃ fuel, R.visit body s p fuel = some r := by
  induction n generalizing s p with
  | zero => cases h
  | succ n ih =>
      by_cases hnull : p = R.null
      · rw [walk, forLoop, if_pos hnull] at h
        refine ⟨1, Option.bind_eq_some_iff.mpr ⟨p, ?_, ?_⟩⟩
        · rw [search, if_pos hnull]
        · rw [forLoop, if_pos hnull, h]
      · rw [walk_add_one hnull] at h
        by_cases htest : R.test s p = true
        · rw [if_pos htest] at h
          have hfound : ∀ fuel, R.search (fuel + 1) s p = some p := fun fuel => by
            rw [search, if_neg hnull, if_pos htest]
          split at h
          · rename_i e hbody
            refine ⟨1, Option.bind_eq_some_iff.mpr ⟨p, hfound 0, ?_⟩⟩
            rw [forLoop, if_neg hnull, hbody]
            exact h
          · rename_i t hbody
            obtain ⟨fuel, hfuel⟩ := ih h
            refine ⟨fuel + 1, Option.bind_eq_some_iff.mpr ⟨p, hfound fuel, ?_⟩⟩
            rw [forLoop, if_neg hnull, hbody]
            show (R.searchNext fuel t p).bind _ = some r
            rw [searchNext, if_neg hnull]
            exact hfuel
        · rw [if_neg htest] at h
          obtain ⟨fuel, hfuel⟩ := ih h
          obtain ⟨q, hq, hrest⟩ := Option.bind_eq_some_iff.mp hfuel
          refine ⟨fuel + 1, Option.bind_eq_some_iff.mpr ⟨q, ?_, ?_⟩⟩
          · rw [search, if_neg hnull, if_neg htest, hq]
          · exact forLoop_succ (fun _ _ _ _ => searchNext_succ) hrest

/-- **An iterator is a test in the body.** -/
theorem returns_visit_iff : Returns (R.visit body s p) r ↔ Returns (R.walk body s p) r := by
  constructor
  · rintro ⟨n, hn⟩
    obtain ⟨q, hq, hrest⟩ := Option.bind_eq_some_iff.mp (hn n (Nat.le_refl n))
    obtain ⟨k, hk⟩ := walk_of_forLoop (test_of_search hq) hrest
    obtain ⟨fuel, hfuel⟩ := walk_of_search hq hk
    exact returns_of_succ (fun _ _ => walk_succ) hfuel
  · rintro ⟨n, hn⟩
    obtain ⟨fuel, hfuel⟩ := visit_of_walk (hn n (Nat.le_refl n))
    exact returns_of_succ (fun _ _ => visit_succ) hfuel

/-- Only what the body does where the test is passed matters. -/
theorem walk_congr {body' : α → σ → Except ε σ}
    (h : ∀ s p, R.test s p = true → body p s = body' p s) : R.walk body s p = R.walk body' s p := by
  have hbody : (fun p s => if R.test s p = true then body p s else .ok s) =
      fun p s => if R.test s p = true then body' p s else .ok s :=
    funext fun p => funext fun s => ite_congr rfl (h s p) fun _ => rfl
  unfold walk
  rw [hbody]

end Records

/-! ## Chains -/

/-- The records from `p` on are those of a list, and behind the last one there is none. -/
def Chain (null : α) (next : α → α) : α → List α → Prop
  | p, [] => p = null
  | p, q :: l => p = q ∧ q ≠ null ∧ Chain null next (next q) l

namespace Chain
variable {null : α} {next next' : α → α} {p : α} {l : List α}

omit [DecidableEq α] in
theorem congr (h : Chain null next p l) (hnext : ∀ q ∈ l, next' q = next q) :
    Chain null next' p l := by
  induction l generalizing p with
  | nil => exact h
  | cons q l ih =>
      obtain ⟨rfl, hnull, hl⟩ := h
      refine ⟨rfl, hnull, ?_⟩
      rw [hnext p List.mem_cons_self]
      exact ih hl fun q hq => hnext q (List.mem_cons_of_mem _ hq)

omit [DecidableEq α] in
/-- The records are those that the first one leads to. -/
theorem unique {l' : List α} (h : Chain null next p l) (h' : Chain null next p l') : l = l' := by
  induction l generalizing p l' with
  | nil =>
      cases l' with
      | nil => rfl
      | cons q l' => exact absurd (h'.1.symm.trans h) h'.2.1
  | cons q l ih =>
      obtain ⟨rfl, hnull, hl⟩ := h
      cases l' with
      | nil => exact absurd h' hnull
      | cons q' l' =>
          obtain ⟨rfl, -, hl'⟩ := h'
          rw [ih hl hl']

omit [DecidableEq α] in
/-- From each of the records on there is a part of the chain. -/
theorem exists_suffix (h : Chain null next p l) {q : α} (hq : q ∈ l) :
    ∃ l', Chain null next q l' ∧ l'.length ≤ l.length := by
  induction l generalizing p with
  | nil => cases hq
  | cons q' l ih =>
      rcases List.mem_cons.mp hq with rfl | hq
      · exact ⟨q :: l, ⟨rfl, h.2⟩, Nat.le_refl _⟩
      · obtain ⟨l', hl', hle⟩ := ih h.2.2 hq
        exact ⟨l', hl', Nat.le_succ_of_le hle⟩

omit [DecidableEq α] in
/-- A chain that ends comes to no record twice. -/
theorem nodup (h : Chain null next p l) : l.Nodup := by
  induction l generalizing p with
  | nil => exact List.nodup_nil
  | cons q l ih =>
      refine List.nodup_cons.mpr ⟨fun hq => ?_, ih h.2.2⟩
      obtain ⟨l', hl', hle⟩ := h.2.2.exists_suffix hq
      have heq : q :: l = l' := unique ⟨rfl, h.2⟩ hl'
      rw [← heq] at hle
      exact Nat.not_succ_le_self _ hle

end Chain

/-- What a body does that leaves the chain alone, and the test at every other record. -/
structure Local (R : Records σ α) (L : List α) (step : α → σ → σ) : Prop where
  next : ∀ s, ∀ a ∈ L, ∀ b ∈ L, R.next (step a s) b = R.next s b
  test : ∀ s, ∀ a ∈ L, ∀ b ∈ L, a ≠ b → R.test (step a s) b = R.test s b

/-- **What the walk comes to** on a chain: the body at each of the records that pass the test at
its start, one after another. -/
theorem Records.returns_walk {R : Records σ α} {L l : List α} {step : α → σ → σ}
    (hstep : Local R L step) {s : σ} {p : α} (hchain : Chain R.null (R.next s) p l)
    (hl : ∀ a ∈ l, a ∈ L) (hnodup : l.Nodup) :
    Returns (R.walk (ε := ε) (fun a s => .ok (step a s)) s p)
      (.ok ((l.filter (R.test s)).foldl (fun s a => step a s) s)) := by
  induction l generalizing s p with
  | nil => exact returns_of_succ (fun _ _ => walk_succ) (n := 1) (if_pos hchain)
  | cons q l ih =>
      obtain ⟨rfl, hnull, hchain⟩ := hchain
      obtain ⟨hp, hl⟩ := List.forall_mem_cons.mp hl
      obtain ⟨hnotin, hnodup⟩ := List.nodup_cons.mp hnodup
      by_cases htest : R.test s p = true
      · have hnext : R.next (step p s) p = R.next s p := hstep.next s p hp p hp
        have hrest : Chain R.null (R.next (step p s)) (R.next (step p s) p) l := by
          rw [hnext]
          exact hchain.congr fun b hb => hstep.next s p hp b (hl b hb)
        have hfilter : l.filter (R.test (step p s)) = l.filter (R.test s) := by
          refine List.filter_congr fun b hb => hstep.test s p hp b (hl b hb) ?_
          rintro rfl
          exact hnotin hb
        rw [List.filter_cons_of_pos htest, List.foldl_cons, ← hfilter]
        refine (ih hrest hl hnodup).succ fun fuel => ?_
        rw [walk_add_one hnull, if_pos htest]
      · rw [List.filter_cons_of_neg htest]
        refine (ih hchain hl hnodup).succ fun fuel => ?_
        rw [walk_add_one hnull, if_neg htest]

end Xnd.Walk
