import Mathlib.Logic.Function.Iterate
import Mathlib.Order.Lattice.Nat

/-!
# `do … while`

A loop that may not end is computed with a bound on its turns, and returns what it does
from some bound on (`Returns`).  `body s` is the state after a turn, and whether there is
another one.  **The rule of the loop** is `doWhile_rule`: an invariant holds at the start of
every turn, and there is a last one or there is none.
-/
namespace Xnd

variable {σ α : Type}

/-- What is computed from some bound on. -/
def Returns (p : Nat → Option α) (a : α) : Prop := ∃ n, ∀ fuel, n ≤ fuel → p fuel = some a

theorem Returns.unique {p : Nat → Option α} {a b : α} (ha : Returns p a) (hb : Returns p b) :
    a = b := by
  obtain ⟨m, hm⟩ := ha
  obtain ⟨n, hn⟩ := hb
  have hboth := hm (max m n) (Nat.le_max_left m n)
  rw [hn (max m n) (Nat.le_max_right m n)] at hboth
  exact (Option.some.inj hboth).symm

/-- What takes one turn more. -/
theorem Returns.succ {p q : Nat → Option α} {a : α} (hp : Returns p a)
    (h : ∀ fuel, q (fuel + 1) = p fuel) : Returns q a := by
  obtain ⟨n, hn⟩ := hp
  refine ⟨n + 1, fun fuel hfuel => ?_⟩
  obtain ⟨d, rfl⟩ := Nat.exists_eq_add_of_le hfuel
  rw [Nat.add_right_comm, h]
  exact hn (n + d) (Nat.le_add_right n d)

/-- A result at one bound, where a larger bound keeps every result. -/
theorem returns_of_succ {β : Type} {p : Nat → Option β} {b : β}
    (hsucc : ∀ fuel c, p fuel = some c → p (fuel + 1) = some c) {n : Nat} (h : p n = some b) :
    Returns p b := by
  refine ⟨n, fun fuel hfuel => ?_⟩
  induction fuel, hfuel using Nat.le_induction with
  | base => exact h
  | succ fuel _ ih => exact hsucc fuel b ih

/-- At most `fuel` turns. -/
def doWhile (body : σ → σ × Bool) : Nat → σ → Option σ
  | 0, _ => none
  | fuel + 1, s => if (body s).2 = true then doWhile body fuel (body s).1 else some (body s).1

variable {body : σ → σ × Bool} {s : σ}

/-- The state before turn `k`, when there is one. -/
def before (body : σ → σ × Bool) (s : σ) (k : Nat) : σ := (fun s => (body s).1)^[k] s

theorem before_succ (k : Nat) : before body s (k + 1) = (body (before body s k)).1 :=
  Function.iterate_succ_apply' _ k s

theorem before_head (k : Nat) : before body s (k + 1) = before body (body s).1 k := rfl

/-- The turns before `k` all go on to the next one. -/
theorem doWhile_add {k : Nat} (h : ∀ j < k, (body (before body s j)).2 = true) (fuel : Nat) :
    doWhile body (k + fuel) s = doWhile body fuel (before body s k) := by
  induction k generalizing s with
  | zero => rw [Nat.zero_add]; rfl
  | succ k ih =>
      have hfirst : (body s).2 = true := h 0 (Nat.succ_pos k)
      rw [Nat.add_right_comm, doWhile, if_pos hfirst, before_head]
      exact ih fun j hj => h (j + 1) (Nat.succ_lt_succ hj)

theorem doWhile_le {k : Nat} (h : ∀ j < k, (body (before body s j)).2 = true) :
    doWhile body k s = none := doWhile_add h 0

variable (body) in
/-- A turn that is the last one. -/
theorem returns_doWhile {k : Nat} (h : ∀ j < k, (body (before body s j)).2 = true)
    (hlast : (body (before body s k)).2 = false) :
    Returns (doWhile body · s) (body (before body s k)).1 := by
  refine ⟨k + 1, fun fuel hfuel => ?_⟩
  obtain ⟨d, rfl⟩ := Nat.exists_eq_add_of_le hfuel
  calc doWhile body (k + 1 + d) s = doWhile body (k + (d + 1)) s := by
        rw [Nat.add_assoc, Nat.add_comm 1 d]
    _ = doWhile body (d + 1) (before body s k) := doWhile_add h _
    _ = some (body (before body s k)).1 := by
        rw [doWhile, if_neg (by rw [hlast]; decide)]

variable (body) in
/-- **The rule of the loop.** -/
theorem doWhile_rule {I : σ → Prop} (hs : I s)
    (hstep : ∀ s, I s → (body s).2 = true → I (body s).1) :
    (∃ t, I t ∧ (body t).2 = false ∧ Returns (doWhile body · s) (body t).1) ∨
      (∀ fuel, doWhile body fuel s = none) ∧
        ∀ k, I (before body s k) ∧ (body (before body s k)).2 = true := by
  have hinv : ∀ k, (∀ j < k, (body (before body s j)).2 = true) → I (before body s k) := by
    intro k hgo
    induction k with
    | zero => exact hs
    | succ k ih =>
        rw [before_succ]
        exact hstep _ (ih fun j hj => hgo j (Nat.lt_succ_of_lt hj)) (hgo k (Nat.lt_succ_self k))
  by_cases hend : ∃ k, (body (before body s k)).2 = false
  · -- the first turn that does not go on is the last one
    have hbefore : ∀ j < Nat.find hend, (body (before body s j)).2 = true := fun j hj =>
      Bool.eq_true_of_not_eq_false (Nat.find_min hend hj)
    exact .inl ⟨_, hinv _ hbefore, Nat.find_spec hend,
      returns_doWhile body hbefore (Nat.find_spec hend)⟩
  · have hgo : ∀ k, (body (before body s k)).2 = true := fun k =>
      Bool.eq_true_of_not_eq_false fun hk => hend ⟨k, hk⟩
    exact .inr ⟨fun fuel => doWhile_le fun j _ => hgo j,
      fun k => ⟨hinv k fun j _ => hgo j, hgo k⟩⟩

/-- What every turn keeps holds at the end. -/
theorem doWhile_keeps {I : σ → Prop} (hstep : ∀ s, I s → I (body s).1) {fuel : Nat} {s r : σ}
    (hs : I s) (h : doWhile body fuel s = some r) : I r := by
  induction fuel generalizing s with
  | zero => cases h
  | succ fuel ih =>
      rw [doWhile] at h
      split at h
      · exact ih (hstep s hs) h
      · obtain rfl := Option.some.inj h
        exact hstep s hs

/-- A number that grows, or stays as it is, but not past a bound: from some turn on it stays. -/
theorem exists_stays {f : Nat → Nat} (hmono : Monotone f) {b : Nat} (hle : ∀ k, f k ≤ b) :
    ∃ m, ∀ k, m ≤ k → f k = f m := by
  have hbdd : BddAbove (Set.range f) := by
    refine ⟨b, ?_⟩
    rintro _ ⟨k, rfl⟩
    exact hle k
  obtain ⟨m, hm⟩ := Nat.sSup_mem (Set.range_nonempty f) hbdd
  refine ⟨m, fun k hk => Nat.le_antisymm ?_ (hmono hk)⟩
  rw [hm]
  exact le_csSup hbdd ⟨k, rfl⟩

end Xnd
