import Mathlib.Data.List.Basic
import Mathlib.Logic.Function.Iterate
import Mathlib.Logic.Relation

/-!
# Records that carry their sizes

A table of records, one behind the other, where each says how far it is to the next one:
`get o` is the record at the offset `o`, and `next o a` the offset behind it. A walk visits
the records from an offset on, and a visit either stops the walk or goes on with a new
state: `walkBelow` goes on while the offset is below a limit, `walkFor` for a number of
records.

* If every record that is reached moves the offset forward, then `walkBelow` ends
  (`walkBelow_ends`); a record that does not, and that no visit stops at, keeps it for ever
  (`walkBelow_never`).
* On a chain of records both are the same fold (`walkFor_chain`, `walkBelow_chain`).
-/
namespace Xnd.SizedWalk

variable {α σ ρ ι : Type}

/-- How a walk ends. -/
inductive Walk (ρ σ : Type) where
  | found (r : ρ)
  | ended (s : σ)
  deriving DecidableEq, Repr

section
variable (get : Nat → α) (next : Nat → α → Nat) (limit : Nat) (visit : σ → α → ρ ⊕ σ)

/-- The records while the offset is below `limit`, `n` at most. -/
def walkBelow : Nat → Nat → σ → Option (Walk ρ σ)
  | 0, _, _ => none
  | n + 1, o, s =>
      if o < limit then
        match visit s (get o) with
        | .inl r => some (.found r)
        | .inr s' => walkBelow n (next o (get o)) s'
      else some (.ended s)

/-- `n` records. -/
def walkFor : Nat → Nat → σ → Walk ρ σ
  | 0, _, s => .ended s
  | n + 1, o, s =>
      match visit s (get o) with
      | .inl r => .found r
      | .inr s' => walkFor n (next o (get o)) s'

/-- Visits of a list of records. -/
def fold : σ → List α → Walk ρ σ
  | s, [] => .ended s
  | s, a :: as =>
      match visit s a with
      | .inl r => .found r
      | .inr s' => fold s' as

/-- The visit that stops nowhere and keeps what it sees. -/
def record (seen : List α) (a : α) : ρ ⊕ List α := .inr (seen ++ [a])

/-- From one offset below the limit to the next. -/
def Step (o o' : Nat) : Prop := o < limit ∧ next o (get o) = o'

/-- The offset `o` is reached from `start`. -/
def Reaches (start o : Nat) : Prop := Relation.ReflTransGen (Step get next limit) start o

/-- Some record that is reached does not move the offset. -/
def Stalls (start : Nat) : Prop :=
  ∃ o, Reaches get next limit start o ∧ o < limit ∧ next o (get o) = o

/-- The records from `o` to `e`, one behind the other. -/
def Chain : Nat → List α → Nat → Prop
  | o, [], e => o = e
  | o, a :: as, e => get o = a ∧ Chain (next o a) as e

end

section
variable {get : Nat → α} {next : Nat → α → Nat} {limit : Nat} {visit : σ → α → ρ ⊕ σ}

/-- **A walk ends** when every record that it reaches moves the offset forward. -/
theorem walkBelow_ends (hle : ∀ o a, o ≤ next o a) {start : Nat}
    (h : ¬ Stalls get next limit start) (visit : σ → α → ρ ⊕ σ) (s : σ) :
    ∃ n w, walkBelow get next limit visit n start s = some w := by
  have key : ∀ d o s, limit - o ≤ d → Reaches get next limit start o →
      ∃ n w, walkBelow get next limit visit n o s = some w := by
    intro d
    induction d with
    | zero =>
        intro o s hd _
        exact ⟨1, .ended s, if_neg (by omega)⟩
    | succ d ih =>
        intro o s hd hreach
        by_cases hlt : o < limit
        · cases hv : visit s (get o) with
          | inl r => exact ⟨1, .found r, by simp [walkBelow, hlt, hv]⟩
          | inr s' =>
              have hne : next o (get o) ≠ o := fun heq => h ⟨o, hreach, hlt, heq⟩
              have hmore := hle o (get o)
              obtain ⟨n, w, hw⟩ := ih (next o (get o)) s' (by omega) (hreach.tail ⟨hlt, rfl⟩)
              exact ⟨n + 1, w, by simp [walkBelow, hlt, hv, hw]⟩
        · exact ⟨1, .ended s, if_neg hlt⟩
  exact key _ start s (Nat.le_refl _) .refl

/-- A walk that has ended stays as it is when it may take more records. -/
theorem walkBelow_le {n m o : Nat} {s : σ} {w : Walk ρ σ}
    (h : walkBelow get next limit visit n o s = some w) (hle : n ≤ m) :
    walkBelow get next limit visit m o s = some w := by
  induction n generalizing m o s with
  | zero => cases h
  | succ n ih =>
      obtain ⟨m, rfl⟩ := Nat.exists_eq_add_of_le' (Nat.zero_lt_of_lt hle)
      rw [walkBelow] at h ⊢
      split at h
      · next hlt =>
          rw [if_pos hlt]
          cases hv : visit s (get o) with
          | inl r => rwa [hv] at h
          | inr s' =>
              simp only [hv] at h
              exact ih h (Nat.le_of_succ_le_succ hle)
      · next hlt => rwa [if_neg hlt]

/-- A walk does not leave a record that does not move the offset. -/
theorem walkBelow_stalled {o : Nat} (hlt : o < limit) (hnext : next o (get o) = o)
    {P : σ → Prop} (hpass : ∀ s, P s → ∃ s', visit s (get o) = .inr s' ∧ P s') (n : Nat) {s : σ}
    (hs : P s) : walkBelow get next limit visit n o s = none := by
  induction n generalizing s with
  | zero => rfl
  | succ n ih =>
      obtain ⟨s', hv, hs'⟩ := hpass s hs
      simp only [walkBelow, if_pos hlt, hv, hnext, ih hs']

/-- **A walk that stalls never ends**, if no visit stops it; `P` is what the visits keep. -/
theorem walkBelow_never {start : Nat} (h : Stalls get next limit start) {P : σ → Prop}
    (hpass : ∀ o s, o < limit → P s → ∃ s', visit s (get o) = .inr s' ∧ P s') {s : σ}
    (hs : P s) (n : Nat) : walkBelow get next limit visit n start s = none := by
  obtain ⟨o, hreach, hlt, hnext⟩ := h
  induction hreach using Relation.ReflTransGen.head_induction_on generalizing n s with
  | refl => exact walkBelow_stalled hlt hnext (fun s => hpass o s hlt) n hs
  | head hstep _ ih =>
      obtain ⟨hlt', hnext'⟩ := hstep
      cases n with
      | zero => rfl
      | succ n =>
          obtain ⟨s', hv, hs'⟩ := hpass _ s hlt' hs
          simp only [walkBelow, if_pos hlt', hv, hnext', ih hs' n]

/-- A walk over as many records as a chain has folds the chain. -/
theorem walkFor_chain {o e : Nat} {as : List α} (h : Chain get next o as e)
    (visit : σ → α → ρ ⊕ σ) (s : σ) :
    walkFor get next visit as.length o s = fold visit s as := by
  induction as generalizing o s with
  | nil => rfl
  | cons a as ih =>
      obtain ⟨hget, hrest⟩ := h
      simp only [List.length_cons, walkFor, hget, fold]
      cases visit s a with
      | inl r => rfl
      | inr s' => exact ih hrest s'

/-- The end of a chain is not before its start. -/
theorem Chain.le (hle : ∀ o a, o ≤ next o a) {o e : Nat} {as : List α}
    (h : Chain get next o as e) : o ≤ e := by
  induction as generalizing o with
  | nil => exact Nat.le_of_eq h
  | cons a as ih => exact Nat.le_trans (hle o a) (ih h.2)

/-- The offsets of a chain only matter up to its end. -/
theorem Chain.congr {next' : Nat → α → Nat} (hle : ∀ o a, o ≤ next o a) {o e : Nat}
    {as : List α} (h : Chain get next o as e)
    (heq : ∀ o a, next o a ≤ e → next' o a = next o a) : Chain get next' o as e := by
  induction as generalizing o with
  | nil => exact h
  | cons a as ih => exact ⟨h.1, (heq o a (Chain.le hle h.2)).symm ▸ ih h.2⟩

/-- A chain only reads the records that it has. -/
theorem Chain.congr_get {get' : Nat → α} (hle : ∀ o a, o ≤ next o a) {o e : Nat} {as : List α}
    (h : Chain get next o as e)
    (hget : ∀ o, ∀ a ∈ as, get o = a → next o a ≤ e → get' o = a) : Chain get' next o as e := by
  induction as generalizing o with
  | nil => exact h
  | cons a as ih =>
      exact ⟨hget o a List.mem_cons_self h.1 (Chain.le hle h.2),
        ih h.2 fun o b hb => hget o b (List.mem_cons_of_mem _ hb)⟩

theorem Chain.append {o m e : Nat} {as bs : List α} (h : Chain get next o as m)
    (h' : Chain get next m bs e) : Chain get next o (as ++ bs) e := by
  induction as generalizing o with
  | nil =>
      obtain rfl : o = m := h
      exact h'
  | cons a as ih => exact ⟨h.1, ih h.2⟩

/-- A walk up to the end of a chain whose records all move the offset folds the chain. -/
theorem walkBelow_chain (hle : ∀ o a, o ≤ next o a) {o : Nat} {as : List α}
    (h : Chain get next o as limit) (hpos : ∀ o, ∀ a ∈ as, next o a ≠ o)
    (visit : σ → α → ρ ⊕ σ) (s : σ) :
    ∃ n, walkBelow get next limit visit n o s = some (fold visit s as) := by
  induction as generalizing o s with
  | nil =>
      have hoe : o = limit := h
      exact ⟨1, if_neg (by omega)⟩
  | cons a as ih =>
      obtain ⟨hget, hrest⟩ := h
      have hbelow : o < limit := by
        have := Chain.le hle hrest
        have := hle o a
        have := hpos o a List.mem_cons_self
        omega
      cases hv : visit s a with
      | inl r => exact ⟨1, by simp [walkBelow, hbelow, hget, hv, fold]⟩
      | inr s' =>
          obtain ⟨n, hn⟩ := ih hrest (fun o b hb => hpos o b (List.mem_cons_of_mem _ hb)) s'
          exact ⟨n + 1, by simp [walkBelow, hbelow, hget, hv, fold, hn]⟩

theorem fold_record (seen as : List α) :
    (fold record seen as : Walk ρ (List α)) = .ended (seen ++ as) := by
  induction as generalizing seen with
  | nil => rw [fold, List.append_nil]
  | cons a as ih =>
      show fold record (seen ++ [a]) as = _
      rw [ih, List.append_assoc]
      rfl

/-- What a walk that has ended has seen: a chain of records that all move the offset. -/
theorem walkBelow_record {n o : Nat} {seen seen' : List α}
    (h : (walkBelow get next limit record n o seen : Option (Walk ρ (List α))) =
      some (.ended seen')) :
    ∃ as e, seen' = seen ++ as ∧ Chain get next o as e ∧ ∀ a ∈ as, ∃ o, next o a ≠ o := by
  induction n generalizing o seen with
  | zero => cases h
  | succ n ih =>
      rw [walkBelow] at h
      split at h
      · next hlt =>
          obtain ⟨as, e, hseen, hchain, has⟩ := ih h
          refine ⟨get o :: as, e, by rw [hseen, List.append_assoc]; rfl, ⟨rfl, hchain⟩, ?_⟩
          intro b hb
          rcases List.mem_cons.mp hb with rfl | hb
          · refine ⟨o, fun hnext => ?_⟩
            have hnone : (walkBelow get next limit record n o (seen ++ [get o]) :
                Option (Walk ρ (List α))) = none :=
              walkBelow_stalled hlt hnext
                (fun s (_ : True) => ⟨s ++ [get o], rfl, trivial⟩) n trivial
            simp only [record, hnext] at h
            cases hnone.symm.trans h
          · exact has b hb
      · cases h
        exact ⟨[], o, (List.append_nil _).symm, rfl, nofun⟩

/-- The visit that counts the records with `p` and stops at the one that is counted as
`k`. -/
def nth (p : α → Bool) (k : ι) [DecidableEq ι] (succ : ι → ι) (r : α → ρ) (i : ι) (a : α) :
    ρ ⊕ ι :=
  if p a = true then if i = k then .inl (r a) else .inr (succ i) else .inr i

/-- **The record that is counted as `k`** is the `m`-th one with `p`, if the count gets to
`k` after `m` of them and not before. -/
theorem fold_nth {p : α → Bool} {k : ι} [DecidableEq ι] {succ : ι → ι} {r : α → ρ} {m : Nat}
    {i : ι} (hm : succ^[m] i = k) (hbefore : ∀ j < m, succ^[j] i ≠ k) (as : List α) :
    fold (nth p k succ r) i as =
      match (as.filter p)[m]? with
      | some a => .found (r a)
      | none => .ended (succ^[(as.filter p).length] i) := by
  induction as generalizing i m with
  | nil => rfl
  | cons a as ih =>
      by_cases hp : p a = true
      · rw [fold, nth, if_pos hp, List.filter_cons_of_pos hp]
        cases m with
        | zero =>
            have hik : i = k := hm
            rw [if_pos hik]
            rfl
        | succ m =>
            have hik : i ≠ k := hbefore 0 (Nat.succ_pos m)
            rw [if_neg hik]
            exact ih hm fun j hj => hbefore (j + 1) (Nat.succ_lt_succ hj)
      · rw [fold, nth, if_neg hp, List.filter_cons_of_neg hp]
        exact ih hm hbefore

/-- The visit that stops at the first record with `p`. -/
def first (p : α → Bool) (r : α → ρ) (_ : Unit) (a : α) : ρ ⊕ Unit :=
  if p a = true then .inl (r a) else .inr ()

theorem fold_first (p : α → Bool) (r : α → ρ) (as : List α) :
    fold (first p r) () as =
      match as.find? p with
      | some a => .found (r a)
      | none => .ended () := by
  induction as with
  | nil => rfl
  | cons a as ih =>
      by_cases hp : p a = true
      · rw [fold, first, if_pos hp, List.find?_cons_of_pos hp]
      · rw [fold, first, if_neg hp, List.find?_cons_of_neg hp]
        exact ih

end

end Xnd.SizedWalk
