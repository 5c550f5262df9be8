import Xnd.Lib.Prog

/-!
# Two runs of a program

An oracle answers the calls of a program by their number; against an oracle a program
has one run, which is the calls it makes and how it ends (`Prog.run`).

`Prog.Alike` relates two programs that make corresponding calls and go on alike on
corresponding answers.  It composes along `bind`, and **the rule of two runs**,
`Alike.run`, says that such programs have corresponding runs against corresponding
oracles.
-/
namespace Xnd

variable {κ : Type} {ρ : κ → Type} {σ ε α β α' β' : Type}

/-- Answers to the calls of a program, by the number of the call. -/
abbrev Oracle {κ : Type} (ρ : κ → Type) := Nat → (c : κ) → ρ c

/-- The calls of a run, the state it ends in, and what it returns or halts with. -/
structure Run (κ σ ε α : Type) where
  calls : List κ
  final : σ
  result : Except ε α

namespace Prog

/-- The run of a program against an oracle, from the call with the number `n`. -/
def run (o : Oracle ρ) : Nat → Prog ρ σ ε α → Run κ σ ε α
  | _, .ret s a => ⟨[], s, .ok a⟩
  | _, .halt s e => ⟨[], s, .error e⟩
  | n, .call _ c k =>
      let r := run o (n + 1) (k (o n c))
      { r with calls := c :: r.calls }

/-- Every call satisfies `P`, and what is returned `fin`. -/
def Calls (P : κ → Prop) (fin : σ → α → Prop) : Prog ρ σ ε α → Prop
  | .ret s a => fin s a
  | .call _ c k => P c ∧ ∀ r, Calls P fin (k r)
  | .halt _ _ => True

theorem Calls.bind {P : κ → Prop} {mid : σ → α → Prop} {fin : σ → β → Prop} {p : Prog ρ σ ε α}
    {f : α → σ → Prog ρ σ ε β} (hp : p.Calls P mid) (hf : ∀ s a, mid s a → (f a s).Calls P fin) :
    (p.bind f).Calls P fin := by
  induction p with
  | ret s a => exact hf s a hp
  | call s c k ih => exact ⟨hp.1, fun r => ih r (hp.2 r)⟩
  | halt => trivial

/-- The calls of a run. -/
theorem Calls.run {P : κ → Prop} {fin : σ → α → Prop} {p : Prog ρ σ ε α} (hp : p.Calls P fin)
    (o : Oracle ρ) (n : Nat) : ∀ c ∈ (p.run o n).calls, P c := by
  induction p generalizing n with
  | ret | halt => exact fun c hc => nomatch hc
  | call s c k ih =>
      intro c' hc'
      obtain rfl | hc' := List.mem_cons.mp hc'
      · exact hp.1
      · exact ih _ (hp.2 _) _ c' hc'

section Alike
variable (f : κ → κ) (G : (c : κ) → ρ c → ρ (f c) → Prop) (S : σ → σ → Prop)

/-- Programs that make corresponding calls, from corresponding states, and do so again after
corresponding answers. -/
def Alike (R : α → β → Prop) : Prog ρ σ ε α → Prog ρ σ ε β → Prop
  | .ret s a, .ret s' b => S s s' ∧ R a b
  | .halt s e, .halt s' e' => S s s' ∧ e = e'
  | .call s c k, .call s' c' k' => S s s' ∧ ∃ h : f c = c',
      ∀ r r', G c r r' → Alike R (k r) (k' (h ▸ r'))
  | _, _ => False

variable {f G S} {R : α → β → Prop} {Q : α' → β' → Prop}

theorem Alike.bind {p : Prog ρ σ ε α} {p' : Prog ρ σ ε β} {g : α → σ → Prog ρ σ ε α'}
    {g' : β → σ → Prog ρ σ ε β'} (hp : Alike f G S R p p')
    (hg : ∀ a b s s', R a b → S s s' → Alike f G S Q (g a s) (g' b s')) :
    Alike f G S Q (p.bind g) (p'.bind g') := by
  induction p generalizing p' with
  | ret s a =>
      cases p' with
      | ret s' b => exact hg a b s s' hp.2 hp.1
      | _ => exact hp.elim
  | call s c k ih =>
      cases p' with
      | call s' c' k' =>
          obtain ⟨hs, hc, hk⟩ := hp
          exact ⟨hs, hc, fun r r' hr => ih r (hk r r' hr)⟩
      | _ => exact hp.elim
  | halt s e =>
      cases p' with
      | halt s' e' => exact hp
      | _ => exact hp.elim

/-- **The rule of two runs.** -/
theorem Alike.run {o o' : Oracle ρ} (ho : ∀ n c, G c (o n c) (o' n (f c))) {p : Prog ρ σ ε α}
    {p' : Prog ρ σ ε α} (h : Alike f G S Eq p p') (n : Nat) :
    (p'.run o' n).calls = (p.run o n).calls.map f ∧
      (p'.run o' n).result = (p.run o n).result ∧ S (p.run o n).final (p'.run o' n).final := by
  induction p generalizing p' n with
  | ret s a =>
      cases p' with
      | ret s' b =>
          obtain ⟨hs, rfl⟩ := h
          exact ⟨rfl, rfl, hs⟩
      | _ => exact h.elim
  | call s c k ih =>
      cases p' with
      | call s' c' k' =>
          obtain ⟨-, rfl, hk⟩ := h
          obtain ⟨hcalls, hresult, hfinal⟩ := ih (o n c) (hk _ _ (ho n c)) (n + 1)
          exact ⟨congrArg (f c :: ·) hcalls, hresult, hfinal⟩
      | _ => exact h.elim
  | halt s e =>
      cases p' with
      | halt s' e' =>
          obtain ⟨hs, rfl⟩ := h
          exact ⟨rfl, rfl, hs⟩
      | _ => exact h.elim

end Alike

end Prog

namespace Code
variable (f : κ → κ) (G : (c : κ) → ρ c → ρ (f c) → Prop) (S : σ → σ → Prop)

/-- Code that goes alike from corresponding states. -/
def Alike (R : α → β → Prop) (m : Code ρ σ ε α) (m' : Code ρ σ ε β) : Prop :=
  ∀ s s', S s s' → Prog.Alike f G S R (m s) (m' s')

variable {f G S} {R : α → β → Prop} {Q : α' → β' → Prop}

theorem Alike.pure {a : α} {b : β} (h : R a b) :
    Alike f G S R (Pure.pure a : Code ρ σ ε α) (Pure.pure b) :=
  fun _ _ hs => ⟨hs, h⟩

theorem Alike.bind {m : Code ρ σ ε α} {m' : Code ρ σ ε β} {g : α → Code ρ σ ε α'}
    {g' : β → Code ρ σ ε β'} (hm : Alike f G S R m m')
    (hg : ∀ a b, R a b → Alike f G S Q (g a) (g' b)) : Alike f G S Q (m >>= g) (m' >>= g') :=
  fun s s' hs => (hm s s' hs).bind fun a b s s' hab hs => hg a b hab s s' hs

theorem Alike.mono {m : Code ρ σ ε α} {m' : Code ρ σ ε β} {R' : α → β → Prop}
    (hm : Alike f G S R m m') (hR : ∀ a b, R a b → R' a b) : Alike f G S R' m m' := by
  have h := hm.bind (fun a b hab => Alike.pure (hR a b hab))
  rwa [bind_pure, bind_pure] at h

theorem Alike.call (c : κ) : Alike f G S (G c) (Code.call c : Code ρ σ ε (ρ c)) (Code.call (f c)) :=
  fun _ _ hs => ⟨hs, rfl, fun _ _ hr => ⟨hs, hr⟩⟩

theorem Alike.halt (e : ε) : Alike f G S R (Code.halt e : Code ρ σ ε α) (Code.halt e) :=
  fun _ _ hs => ⟨hs, rfl⟩

theorem Alike.get : Alike f G S S (Code.get : Code ρ σ ε σ) Code.get := fun _ _ hs => ⟨hs, hs⟩

theorem Alike.modify {g g' : σ → σ} (h : ∀ s s', S s s' → S (g s) (g' s')) :
    Alike f G S Eq (Code.modify g : Code ρ σ ε Unit) (Code.modify g') :=
  fun s s' hs => ⟨h s s' hs, rfl⟩

theorem Alike.ite {p p' : Prop} [Decidable p] [Decidable p'] (hp : p ↔ p') {m₁ m₂ : Code ρ σ ε α}
    {m₁' m₂' : Code ρ σ ε β} (h₁ : p → Alike f G S R m₁ m₁') (h₂ : ¬ p → Alike f G S R m₂ m₂') :
    Alike f G S R (if p then m₁ else m₂) (if p' then m₁' else m₂') := by
  by_cases h : p
  · rw [if_pos h, if_pos (hp.mp h)]
    exact h₁ h
  · rw [if_neg h, if_neg (fun h' => h (hp.mpr h'))]
    exact h₂ h

end Code

end Xnd
