import Mathlib.Data.List.FinRange

/-!
# Loops over an array

`forRange f s` runs the body `f` for the indices `0, 1, …, n - 1` in this order and
stops at the first turn that fails.  The invariant of such a loop speaks of the number of
turns that were taken: **the rule of the loop** is `forRange_invariant`.
-/
namespace Xnd

variable {σ : Type} {n : Nat}

/-- `for (i = 0; i < n; i++)`, of a body that may fail. -/
def forRange (f : σ → Fin n → Option σ) (s : σ) : Option σ := (List.finRange n).foldlM f s

/-- The turns that are left after the first `k`. -/
theorem forRange_drop {f : σ → Fin n → Option σ} {P : Nat → σ → Prop}
    (hstep : ∀ (i : Fin n) s s', P i s → f s i = some s' → P (i + 1) s') {d k : Nat}
    (hk : k + d = n) {s s' : σ} (hs : P k s)
    (h : ((List.finRange n).drop k).foldlM f s = some s') : P n s' := by
  induction d generalizing k s with
  | zero =>
      have hnil : (List.finRange n).drop k = [] := List.drop_eq_nil_of_le (by simp; omega)
      rw [hnil] at h
      obtain rfl := Option.some.inj h
      obtain rfl : k = n := by omega
      exact hs
  | succ d ih =>
      have hlt : k < n := by omega
      rw [List.drop_eq_getElem_cons (by simpa using hlt), List.getElem_finRange] at h
      obtain ⟨t, ht, h⟩ := Option.bind_eq_some_iff.mp h
      exact ih (k := k + 1) (by omega) (hstep ⟨k, hlt⟩ s t hs ht) h

/-- **The rule of the loop.** -/
theorem forRange_invariant {f : σ → Fin n → Option σ} {P : Nat → σ → Prop}
    (hstep : ∀ (i : Fin n) s s', P i s → f s i = some s' → P (i + 1) s') {s s' : σ}
    (hs : P 0 s) (h : forRange f s = some s') : P n s' :=
  forRange_drop hstep (Nat.zero_add n) hs h

end Xnd
