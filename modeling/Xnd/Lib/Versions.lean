import Mathlib.Data.List.Basic
import Xnd.Lib.Machine

/-!
# Versions

A system that can be saved and brought back is, to its user, a current version and the versions that
were saved.  What the user does changes the current one; a save adds it to the others; going back
makes one of them current.  Nothing else is visible.

A machine **has versions** when each of its steps shows as one such event or as none
(`Follows.of_steps`): however its own steps are ordered, what there is to see after a run is what the
events of the run come to.
-/
namespace Xnd

/-- What a user sees happen. -/
inductive VersionEvent (ω : Type) where
  | op (o : ω)
  | save
  | back (n : Nat)
  deriving DecidableEq, Repr

/-- What a user sees. -/
structure Versions (τ : Type) where
  current : τ
  saved : List τ

namespace Versions
variable {τ ω : Type} (f : τ → ω → τ)

/-- The effect of an event.  Going back to a version that there is not changes nothing. -/
def apply (v : Versions τ) : VersionEvent ω → Versions τ
  | .op o => { v with current := f v.current o }
  | .save => { v with saved := v.saved ++ [v.current] }
  | .back n => { v with current := (v.saved[n]?).getD v.current }

/-- A condition of all versions that the operations keep. -/
theorem apply_keeps {P : τ → Prop} {v : Versions τ} {e : VersionEvent ω}
    (hop : ∀ o, e = .op o → P (f v.current o)) (hcur : P v.current) (hsaved : ∀ x ∈ v.saved, P x) :
    P (v.apply f e).current ∧ ∀ x ∈ (v.apply f e).saved, P x := by
  cases e with
  | op o => exact ⟨hop o rfl, hsaved⟩
  | save =>
      refine ⟨hcur, fun x hx => ?_⟩
      rcases List.mem_append.mp hx with hx | hx
      · exact hsaved x hx
      · exact List.mem_singleton.mp hx ▸ hcur
  | back n =>
      refine ⟨?_, hsaved⟩
      rw [apply]
      cases hn : v.saved[n]? with
      | none => exact hcur
      | some x => exact hsaved x (List.mem_of_getElem? hn)

end Versions

namespace Machine
variable {σ α τ ω : Type} {step : Machine σ α} {ok : σ → α → Prop}

/-- The state shows what the events come to. -/
def Shows (f : τ → ω → τ) (event : α → Option (VersionEvent ω)) (view : σ → Versions τ) (s : σ)
    (as : List α) (s' : σ) : Prop :=
  view s' = (as.filterMap event).foldl (Versions.apply f) (view s)

variable [∀ s a, Decidable (ok s a)] {f : τ → ω → τ} {event : α → Option (VersionEvent ω)}
  {view : σ → Versions τ} {I : σ → Prop}

/-- **The rule of versions**: when every step keeps the invariant and shows as its event, a run
shows as its events. -/
theorem shows_of_steps
    (hstep : ∀ s a s', I s → ok s a → step s a = some s' →
      I s' ∧ view s' = ((event a).toList).foldl (Versions.apply f) (view s))
    {s s' : σ} {as : List α} (hs : I s) (h : follow step ok s as = some s') :
    I s' ∧ Shows f event view s as s' := by
  induction as generalizing s with
  | nil =>
      obtain rfl := Option.some.inj h
      exact ⟨hs, rfl⟩
  | cons a as ih =>
      rw [follow] at h
      split at h
      next hok =>
        obtain ⟨t, ht, hrest⟩ := Option.bind_eq_some_iff.mp h
        obtain ⟨hinv, hview⟩ := hstep s a t hs hok ht
        obtain ⟨hinv', hshows⟩ := ih hinv hrest
        refine ⟨hinv', hshows.trans ?_⟩
        rw [hview]
        cases he : event a with
        | none => rw [List.filterMap_cons_none he]; rfl
        | some e => rw [List.filterMap_cons_some he]; rfl
      next => cases h

end Machine

end Xnd
