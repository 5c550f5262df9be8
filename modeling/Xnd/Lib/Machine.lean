import Mathlib.Logic.Relation

/-!
# Machines

A machine has states and takes actions: `step s a` is the state after the action
`a`, and `none` when the action cannot be taken in `s`.  Actions are chosen from
outside, so the interleavings of a concurrent program are the runs of a machine
whose actions say whose turn it is.

`Runs` are the runs in which every action satisfies a condition on the state it is
taken in.  **The rule of runs** is `Runs.invariant`; a run on fixed actions is
computed by `follow`.
-/
namespace Xnd
open Relation

abbrev Machine (σ α : Type) := σ → α → Option σ

/-- A step that is possible when its guard holds. -/
def guarded {σ : Type} (p : Prop) [Decidable p] (s : σ) : Option σ := if p then some s else none

@[simp, grind =] theorem guarded_eq_some {σ : Type} {p : Prop} [Decidable p] {s s' : σ} :
    guarded p s = some s' ↔ p ∧ s = s' := by
  simp [guarded]

namespace Machine
variable {σ α : Type} (step : Machine σ α) (ok : σ → α → Prop)

/-- One action that is allowed. -/
def Step (s s' : σ) : Prop := ∃ a, ok s a ∧ step s a = some s'

/-- Any number of actions, each allowed where it is taken. -/
def Runs : σ → σ → Prop := ReflTransGen (Step step ok)

variable {step ok}

/-- **The rule of runs.** -/
theorem Runs.invariant {I : σ → Prop}
    (hstep : ∀ s a s', I s → ok s a → step s a = some s' → I s') {s s' : σ}
    (h : Runs step ok s s') (hs : I s) : I s' := by
  induction h with
  | refl => exact hs
  | tail _ hlast ih =>
      obtain ⟨a, ha, hs'⟩ := hlast
      exact hstep _ a _ ih ha hs'

/-- A run is one of a weaker condition. -/
theorem Runs.mono {ok' : σ → α → Prop} (hok : ∀ s a, ok s a → ok' s a) {s s' : σ}
    (h : Runs step ok s s') : Runs step ok' s s' :=
  ReflTransGen.mono (fun _ _ ⟨a, ha, hs⟩ => ⟨a, hok _ a ha, hs⟩) _ _ h

section Follow
variable (step ok) [∀ s a, Decidable (ok s a)]

/-- The state after the actions of a list, when each is possible and allowed. -/
def follow : σ → List α → Option σ
  | s, [] => some s
  | s, a :: as => if ok s a then (step s a).bind fun s' => follow s' as else none

variable {step ok}

theorem runs_of_follow {s s' : σ} {as : List α} (h : follow step ok s as = some s') :
    Runs step ok s s' := by
  induction as generalizing s with
  | nil =>
      obtain rfl := Option.some.inj h
      exact .refl
  | cons a as ih =>
      rw [follow] at h
      split at h
      · obtain ⟨t, ht, hrest⟩ := Option.bind_eq_some_iff.mp h
        exact ReflTransGen.head ⟨a, ‹ok s a›, ht⟩ (ih hrest)
      · cases h

/-- A run that ends in a state with a property that can be computed. -/
theorem exists_runs (step : Machine σ α) (ok : σ → α → Prop) [∀ s a, Decidable (ok s a)] (s : σ)
    (p : σ → Bool) (as : List α) (h : (follow step ok s as).any p = true) : ∃ s', Runs step ok s s' ∧ p s' = true := by
  obtain ⟨s', hs', hp⟩ := (Option.any_eq_true ..).mp h
  exact ⟨s', runs_of_follow hs', hp⟩

end Follow

end Machine

end Xnd
