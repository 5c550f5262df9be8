/-!
# A copy that is updated late

Threads change an original and afterwards, in a step of its own, each makes the same
change to a copy.  The changes that the copy lacks are in the order in which they were
made to the original.  When a change is made to the copy it overtakes those before it,
which does no harm if it commutes with them: **the rule of the copy** is that the
changes that are left still lead from the copy to the original.
-/
namespace Xnd

variable {τ α σ : Type}

/-- The change of a thread in a list of changes, with those before it and after it. -/
def takeOf [DecidableEq τ] (t : τ) : List (τ × α) → Option (List (τ × α) × α × List (τ × α))
  | [] => none
  | (t', a) :: l =>
      if t' = t then some ([], a, l)
      else (takeOf t l).map fun x => ((t', a) :: x.1, x.2)

theorem eq_of_takeOf [DecidableEq τ] {t : τ} {l before after : List (τ × α)} {a : α}
    (h : takeOf t l = some (before, a, after)) : l = before ++ (t, a) :: after := by
  induction l generalizing before with
  | nil => cases h
  | cons p l ih =>
      obtain ⟨t', b⟩ := p
      rw [takeOf] at h
      split at h
      case isTrue ht =>
        simp only [Option.some.injEq, Prod.mk.injEq] at h
        obtain ⟨rfl, rfl, rfl⟩ := h
        rw [ht, List.nil_append]
      case isFalse =>
        obtain ⟨⟨before', x⟩, hx, h⟩ := Option.map_eq_some_iff.mp h
        obtain ⟨rfl, rfl⟩ := Prod.mk.inj h
        rw [ih hx, List.cons_append]

variable (apply : σ → α → σ)

/-- The changes of a list, made in this order. -/
def applyAll (s : σ) (l : List (τ × α)) : σ := l.foldl (fun s p => apply s p.2) s

/-- Two changes that may be made in either order. -/
def Commutes (a b : α) : Prop := ∀ s, apply (apply s a) b = apply (apply s b) a

/-- The changes that are left lead from the copy to the original. -/
def Late (original copy : σ) (left : List (τ × α)) : Prop := applyAll apply copy left = original

variable {apply}

theorem applyAll_append (s : σ) (l l' : List (τ × α)) :
    applyAll apply s (l ++ l') = applyAll apply (applyAll apply s l) l' := List.foldl_append

/-- A change is made before those that it commutes with. -/
theorem applyAll_overtake {a : α} {l : List (τ × α)} (h : ∀ p ∈ l, Commutes apply a p.2) (s : σ) :
    applyAll apply (apply s a) l = apply (applyAll apply s l) a := by
  induction l generalizing s with
  | nil => rfl
  | cons p l ih =>
      calc applyAll apply (apply s a) (p :: l)
        _ = applyAll apply (apply (apply s a) p.2) l := rfl
        _ = applyAll apply (apply (apply s p.2) a) l := by rw [h p List.mem_cons_self s]
        _ = apply (applyAll apply s (p :: l)) a :=
          ih (fun q hq => h q (List.mem_cons_of_mem _ hq)) (apply s p.2)

namespace Late
variable {original copy : σ} {left before after : List (τ × α)} {a : α}

/-- A change is made to the original. -/
theorem make (h : Late apply original copy left) (t : τ) (a : α) :
    Late apply (apply original a) copy (left ++ [(t, a)]) := by
  rw [Late, applyAll_append, h]
  rfl

/-- **The rule of the copy**: a change is made to the copy. -/
theorem deliver {t : τ} (h : Late apply original copy (before ++ (t, a) :: after))
    (hbefore : ∀ p ∈ before, Commutes apply a p.2) :
    Late apply original (apply copy a) (before ++ after) := by
  rw [Late, applyAll_append, applyAll_overtake hbefore]
  rw [Late, applyAll_append] at h
  exact h

/-- No change is left. -/
theorem eq (h : Late apply original copy ([] : List (τ × α))) : copy = original := h

end Late

end Xnd
