import Mathlib.Algebra.Group.Action.Defs
import Mathlib.Algebra.Order.BigOperators.Group.List
import Mathlib.Algebra.Order.Ring.Nat
import Xnd.Lib.Machine

/-!
# Machines that come to rest

When every action of a kind lowers a measure, a run of such actions is no longer than the measure
where it begins (`follow_length`).

The measure of a coordinator with its workers has two digits: how far the coordinator is, and the sum
of how far each worker is.  A step of a worker lowers the second (`phased_lt_of_sum`), and a step of the
coordinator lowers the first, whatever it does to the second (`phased_lt_of_phase`).
-/
namespace Xnd

namespace Machine
variable {σ α : Type} {step : Machine σ α} {ok : σ → α → Prop} [∀ s a, Decidable (ok s a)]
  {I : σ → Prop} {measure : σ → Nat}

/-- **The rule of rest.** -/
theorem follow_length
    (hstep : ∀ s a s', I s → ok s a → step s a = some s' → I s' ∧ measure s' < measure s)
    {s s' : σ} {as : List α} (hs : I s) (h : follow step ok s as = some s') :
    I s' ∧ as.length + measure s' ≤ measure s := by
  induction as generalizing s with
  | nil =>
      obtain rfl := Option.some.inj h
      exact ⟨hs, (Nat.zero_add _).le⟩
  | cons a as ih =>
      rw [follow] at h
      split at h
      next hok =>
        obtain ⟨t, ht, hrest⟩ := Option.bind_eq_some_iff.mp h
        obtain ⟨ht, hlt⟩ := hstep s a t hs hok ht
        obtain ⟨hs', hle⟩ := ih ht hrest
        refine ⟨hs', ?_⟩
        rw [List.length_cons]
        omega
      next => cases h

end Machine

section Phased
variable {α : Type} {l : List α} {f g : α → Nat} {bound phase phase' : Nat}

/-- The digit of the phase, and the sum over the workers, none of which is above the bound. -/
def phased (bound phase : Nat) (l : List α) (f : α → Nat) : Nat :=
  phase * (bound * l.length + 1) + (l.map f).sum

theorem sum_map_le (h : ∀ x ∈ l, f x ≤ bound) : (l.map f).sum ≤ bound * l.length := by
  have hle := List.sum_le_card_nsmul (l.map f) bound fun y hy => by
    obtain ⟨x, hx, rfl⟩ := List.mem_map.mp hy
    exact h x hx
  rwa [List.length_map, smul_eq_mul, Nat.mul_comm] at hle

theorem phased_le (hf : ∀ x ∈ l, f x ≤ bound) (hphase : phase' ≤ phase) :
    phased bound phase' l f ≤ phase * (bound * l.length + 1) + bound * l.length :=
  Nat.add_le_add (Nat.mul_le_mul_right _ hphase) (sum_map_le hf)

/-- The coordinator moves. -/
theorem phased_lt_of_phase (hg : ∀ x ∈ l, g x ≤ bound) (hphase : phase' < phase) :
    phased bound phase' l g < phased bound phase l f := by
  have hmul : (phase' + 1) * (bound * l.length + 1) ≤ phase * (bound * l.length + 1) :=
    Nat.mul_le_mul_right _ hphase
  have hsum := sum_map_le hg
  rw [Nat.succ_mul] at hmul
  rw [phased, phased]
  omega

/-- A worker moves. -/
theorem phased_lt_of_sum (hsum : (l.map g).sum < (l.map f).sum) :
    phased bound phase l g < phased bound phase l f := Nat.add_lt_add_left hsum _

/-- One worker moves, and the others stay. -/
theorem sum_map_lt {x : α} (hx : x ∈ l) (hlt : g x < f x) (hother : ∀ y ∈ l, y ≠ x → g y = f y) :
    (l.map g).sum < (l.map f).sum := by
  refine List.sum_lt_sum g f (fun y hy => ?_) ⟨x, hx, hlt⟩
  by_cases hne : y = x
  · exact hne ▸ hlt.le
  · exact (hother y hy hne).le

end Phased

end Xnd
