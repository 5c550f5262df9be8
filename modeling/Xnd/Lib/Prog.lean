import Mathlib.Logic.Relation

/-!
# Programs that call their environment

A program of this library computes on a state of its own and now and then calls
its environment: a system call, a message, a read of the clock.  A call `c` is
answered by a value of type `ρ c`, and nothing is fixed about the answer.  The
program is the tree of what it does for every answer (`Prog`), and each call
shows the state the program is in when it makes it, so a statement about the
state *during* a run is a statement about the nodes of the tree.  The trees are
finite: a loop of the source that need not end runs on fuel and halts when the
fuel is used up.

`Code` is the monad programs are written in.

Runs come in two forms.  A **trace** is a list of calls with their answers;
`exec` follows it, and `Prog.exec_bind` splits it where the program splits.  A
**world** says which answers are possible and how it moves on by itself between
calls (`World`); `World.Reach` is the interleaving of the program with it.

**The rule of runs** is `Holds.reach`.  `Holds` is a weakest precondition, computed
along the tree, in which the world may take any of its own steps before each
call; it composes along `bind` (`Holds.bind`), and what it says of the nodes is
true in every state the interleaving reaches.
-/
namespace Xnd
open Relation

/-- A program over the calls `κ`, with state `σ`, that returns an `α` or halts
with an `ε`. -/
inductive Prog {κ : Type} (ρ : κ → Type) (σ ε α : Type) where
  | ret (s : σ) (a : α)
  | call (s : σ) (c : κ) (k : ρ c → Prog ρ σ ε α)
  | halt (s : σ) (e : ε)

variable {κ : Type} {ρ : κ → Type} {σ ε α β : Type}

namespace Prog

def bind : Prog ρ σ ε α → (α → σ → Prog ρ σ ε β) → Prog ρ σ ε β
  | .ret s a, f => f a s
  | .call s c k, f => .call s c fun r => (k r).bind f
  | .halt s e, _ => .halt s e

/-- The state the program shows. -/
def state : Prog ρ σ ε α → σ
  | .ret s _ => s
  | .call s _ _ => s
  | .halt s _ => s

/-- How the program has halted. -/
def stop : Prog ρ σ ε α → Option ε
  | .halt _ e => some e
  | _ => none

@[simp] theorem bind_ret (s : σ) (a : α) (f : α → σ → Prog ρ σ ε β) :
    (Prog.ret s a : Prog ρ σ ε α).bind f = f a s := rfl

@[simp] theorem bind_call (s : σ) (c : κ) (k : ρ c → Prog ρ σ ε α) (f : α → σ → Prog ρ σ ε β) :
    (Prog.call s c k).bind f = .call s c fun r => (k r).bind f := rfl

@[simp] theorem bind_halt (s : σ) (e : ε) (f : α → σ → Prog ρ σ ε β) :
    (Prog.halt s e : Prog ρ σ ε α).bind f = .halt s e := rfl

theorem bind_assoc {γ : Type} (p : Prog ρ σ ε α) (f : α → σ → Prog ρ σ ε β)
    (g : β → σ → Prog ρ σ ε γ) : (p.bind f).bind g = p.bind fun a s => (f a s).bind g := by
  induction p with
  | ret => rfl
  | call s c k ih => simp only [bind_call, ih]
  | halt => rfl

theorem bind_pure (p : Prog ρ σ ε α) : (p.bind fun a s => .ret s a) = p := by
  induction p with
  | ret => rfl
  | call s c k ih => simp only [bind_call, ih]
  | halt => rfl

end Prog

/-! ## The monad of programs -/

/-- Code that runs from a state. -/
def Code {κ : Type} (ρ : κ → Type) (σ ε α : Type) : Type := σ → Prog ρ σ ε α

namespace Code

instance : Monad (Code ρ σ ε) where
  pure a := fun s => .ret s a
  bind m f := fun s => (m s).bind f

instance : LawfulMonad (Code ρ σ ε) := LawfulMonad.mk' _
  (fun m => funext fun s => Prog.bind_pure (m s)) (fun _ _ => rfl)
  (fun m _ _ => funext fun s => Prog.bind_assoc (m s) _ _)

/-- Reads the state. -/
def get : Code ρ σ ε σ := fun s => .ret s s

/-- Changes the state. -/
def modify (f : σ → σ) : Code ρ σ ε Unit := fun s => .ret (f s) ()

/-- Calls the environment. -/
def call (c : κ) : Code ρ σ ε (ρ c) := fun s => .call s c (.ret s)

/-- Ends the program. -/
def halt (e : ε) : Code ρ σ ε α := fun s => .halt s e

section Apply
variable (s : σ)

@[simp] theorem pure_apply (a : α) : (pure a : Code ρ σ ε α) s = .ret s a := rfl

@[simp] theorem bind_apply (m : Code ρ σ ε α) (f : α → Code ρ σ ε β) :
    (m >>= f) s = (m s).bind f := rfl

@[simp] theorem map_apply (f : α → β) (m : Code ρ σ ε α) :
    (f <$> m) s = (m s).bind fun a s => .ret s (f a) := rfl

@[simp] theorem get_apply : (get : Code ρ σ ε σ) s = .ret s s := rfl

@[simp] theorem modify_apply (f : σ → σ) : (modify f : Code ρ σ ε Unit) s = .ret (f s) () := rfl

@[simp] theorem call_apply (c : κ) : (call c : Code ρ σ ε (ρ c)) s = .call s c (.ret s) := rfl

@[simp] theorem halt_apply (e : ε) : (halt e : Code ρ σ ε α) s = .halt s e := rfl

@[simp] theorem ite_apply (p : Prop) [Decidable p] (m m' : Code ρ σ ε α) :
    (if p then m else m') s = if p then m s else m' s := by split <;> rfl

end Apply

end Code

/-! ## Traces -/

/-- A call with its answer. -/
structure Event {κ : Type} (ρ : κ → Type) where
  call : κ
  answer : ρ call

namespace Prog
variable [DecidableEq κ]

/-- The result of the program on a trace, when the trace is exactly the calls it
makes. -/
def exec : Prog ρ σ ε α → List (Event ρ) → Option (σ × α)
  | .ret s a, [] => some (s, a)
  | .call _ c k, e :: t => if h : e.call = c then exec (k (h ▸ e.answer)) t else none
  | _, _ => none

@[simp] theorem exec_ret {s s' : σ} {a a' : α} {t : List (Event ρ)} :
    exec (.ret s a : Prog ρ σ ε α) t = some (s', a') ↔ t = [] ∧ s = s' ∧ a = a' := by
  cases t <;> simp [exec]

@[simp] theorem exec_halt {s : σ} {e : ε} {t : List (Event ρ)} :
    exec (.halt s e : Prog ρ σ ε α) t = none := by
  cases t <;> rfl

@[simp] theorem exec_call {s s' : σ} {c : κ} {k : ρ c → Prog ρ σ ε α} {a : α}
    {t : List (Event ρ)} :
    exec (.call s c k) t = some (s', a) ↔
      ∃ r t', t = ⟨c, r⟩ :: t' ∧ exec (k r) t' = some (s', a) := by
  cases t with
  | nil => simp [exec]
  | cons e t =>
      obtain ⟨c', r⟩ := e
      constructor
      · intro h
        rw [exec] at h
        split at h
        · rename_i hc
          subst hc
          exact ⟨r, t, rfl, h⟩
        · cases h
      · rintro ⟨r', t', he, h⟩
        cases he
        simpa [exec] using h

/-- A trace splits where the program does. -/
theorem exec_bind {p : Prog ρ σ ε α} {f : α → σ → Prog ρ σ ε β} {s' : σ} {b : β}
    {t : List (Event ρ)} :
    exec (p.bind f) t = some (s', b) ↔
      ∃ s a t₁ t₂, t = t₁ ++ t₂ ∧ exec p t₁ = some (s, a) ∧ exec (f a s) t₂ = some (s', b) := by
  induction p generalizing t with
  | ret s a =>
      constructor
      · exact fun h => ⟨s, a, [], t, rfl, exec_ret.mpr ⟨rfl, rfl, rfl⟩, h⟩
      · rintro ⟨s₁, a₁, t₁, t₂, rfl, h₁, h₂⟩
        obtain ⟨rfl, rfl, rfl⟩ := exec_ret.mp h₁
        exact h₂
  | call s c k ih =>
      rw [bind_call, exec_call]
      constructor
      · rintro ⟨r, t', rfl, h⟩
        obtain ⟨s₁, a, t₁, t₂, rfl, h₁, h₂⟩ := (ih r).mp h
        exact ⟨s₁, a, _ :: t₁, t₂, rfl, exec_call.mpr ⟨r, t₁, rfl, h₁⟩, h₂⟩
      · rintro ⟨s₁, a, t₁, t₂, rfl, h₁, h₂⟩
        obtain ⟨r, t', rfl, hk⟩ := exec_call.mp h₁
        exact ⟨r, t' ++ t₂, rfl, (ih r).mpr ⟨s₁, a, t', t₂, rfl, hk, h₂⟩⟩
  | halt => simp

/-- Every call the program can come to satisfies `P`. -/
def CallsOnly (P : κ → Prop) : Prog ρ σ ε α → Prop
  | .ret _ _ => True
  | .call _ c k => P c ∧ ∀ r, CallsOnly P (k r)
  | .halt _ _ => True

section CallsOnly
variable {P : κ → Prop}

omit [DecidableEq κ] in
theorem CallsOnly.bind {p : Prog ρ σ ε α} {f : α → σ → Prog ρ σ ε β} (hp : p.CallsOnly P)
    (hf : ∀ a s, (f a s).CallsOnly P) : (p.bind f).CallsOnly P := by
  induction p with
  | ret s a => exact hf a s
  | call s c k ih => exact ⟨hp.1, fun r => ih r (hp.2 r)⟩
  | halt => exact trivial

theorem CallsOnly.of_exec {p : Prog ρ σ ε α} (hp : p.CallsOnly P) {t : List (Event ρ)} {s : σ}
    {a : α} (h : exec p t = some (s, a)) : ∀ e ∈ t, P e.call := by
  induction p generalizing t with
  | ret => simp [(exec_ret.mp h).1]
  | call s c k ih =>
      obtain ⟨r, t', rfl, hk⟩ := exec_call.mp h
      intro e he
      rcases List.mem_cons.mp he with rfl | he
      · exact hp.1
      · exact ih r (hp.2 r) hk e he
  | halt => simp at h

end CallsOnly

end Prog

/-! ## Worlds -/

/-- An environment with states `W` for programs with states `σ`: how it may answer
a call, and what it may do on its own. -/
structure World {κ : Type} (ρ : κ → Type) (σ W : Type) where
  answer : σ → (c : κ) → W → ρ c → W → Prop
  moves : W → W → Prop

section World
variable {W : Type} (𝒲 : World ρ σ W)

/-- The steps of a program in a world. -/
inductive World.Step : Prog ρ σ ε α × W → Prog ρ σ ε α × W → Prop
  | move {p w w'} (h : 𝒲.moves w w') : World.Step (p, w) (p, w')
  | reply {s c k w r w'} (h : 𝒲.answer s c w r w') : World.Step (.call s c k, w) (k r, w')

/-- The configurations of the interleaving that begins with `p` in `w`. -/
def World.Reach (p : Prog ρ σ ε α) (w : W) : Prog ρ σ ε α × W → Prop :=
  ReflTransGen 𝒲.Step (p, w)

namespace Prog

/-- **The weakest precondition** for `inv` to hold of the program's state and the
world whenever the program makes a call, `ends` when it halts and `fin` when it
returns.  Before each call the world may have moved on by itself. -/
def Holds (inv : σ → W → Prop) (ends : σ → ε → W → Prop) (fin : σ → α → W → Prop) :
    Prog ρ σ ε α → W → Prop
  | .ret s a, w => fin s a w
  | .halt s e, w => ends s e w
  | .call s c k, w => ∀ w', ReflTransGen 𝒲.moves w w' →
      inv s w' ∧ ∀ r w'', 𝒲.answer s c w' r w'' → Holds inv ends fin (k r) w''

variable {𝒲} {inv : σ → W → Prop} {ends : σ → ε → W → Prop} {fin : σ → α → W → Prop}

@[simp] theorem holds_ret {s : σ} {a : α} {w : W} :
    Holds 𝒲 inv ends fin (.ret s a) w ↔ fin s a w := Iff.rfl

@[simp] theorem holds_halt {s : σ} {e : ε} {w : W} :
    Holds 𝒲 inv ends fin (.halt s e) w ↔ ends s e w := Iff.rfl

/-- A call, from an assertion that the world preserves when it moves. -/
theorem Holds.call {s : σ} {c : κ} {k : ρ c → Prog ρ σ ε α} {w : W} (P : W → Prop)
    (stable : ∀ w w', P w → 𝒲.moves w w' → P w') (hw : P w) (hinv : ∀ w, P w → inv s w)
    (hk : ∀ w r w', P w → 𝒲.answer s c w r w' → Holds 𝒲 inv ends fin (k r) w') :
    Holds 𝒲 inv ends fin (.call s c k) w := by
  intro w' hmoves
  have hP : P w' := by
    induction hmoves with
    | refl => exact hw
    | tail _ hm ih => exact stable _ _ ih hm
  exact ⟨hinv w' hP, fun r w'' => hk w' r w'' hP⟩

/-- The precondition of a sequence. -/
theorem holds_bind {p : Prog ρ σ ε α} {f : α → σ → Prog ρ σ ε β} {fin : σ → β → W → Prop}
    {w : W} :
    Holds 𝒲 inv ends fin (p.bind f) w ↔
      Holds 𝒲 inv ends (fun s a w => Holds 𝒲 inv ends fin (f a s) w) p w := by
  induction p generalizing w with
  | ret => exact Iff.rfl
  | call s c k ih =>
      simp only [bind_call, Holds]
      exact forall₂_congr fun w' _ => and_congr_right fun _ => forall₃_congr fun r w'' _ => ih r
  | halt => exact Iff.rfl

theorem Holds.mono {fin' : σ → α → W → Prop} {p : Prog ρ σ ε α} {w : W}
    (h : Holds 𝒲 inv ends fin p w) (hfin : ∀ s a w, fin s a w → fin' s a w) :
    Holds 𝒲 inv ends fin' p w := by
  induction p generalizing w with
  | ret s a => exact hfin s a w h
  | call s c k ih =>
      exact fun w' hm => ⟨(h w' hm).1, fun r w'' ha => ih r ((h w' hm).2 r w'' ha)⟩
  | halt => exact h

/-- Weaker assertions about the run. -/
theorem Holds.weaken {inv' : σ → W → Prop} {ends' : σ → ε → W → Prop} {p : Prog ρ σ ε α} {w : W}
    (h : Holds 𝒲 inv ends fin p w) (hinv : ∀ s w, inv s w → inv' s w)
    (hends : ∀ s e w, ends s e w → ends' s e w) : Holds 𝒲 inv' ends' fin p w := by
  induction p generalizing w with
  | ret => exact h
  | call s c k ih =>
      exact fun w' hm => ⟨hinv s w' (h w' hm).1, fun r w'' ha => ih r ((h w' hm).2 r w'' ha)⟩
  | halt s e => exact hends s e w h

/-- A sequence, from what its first part establishes. -/
theorem Holds.bind {mid : σ → α → W → Prop} {p : Prog ρ σ ε α} {f : α → σ → Prog ρ σ ε β}
    {fin : σ → β → W → Prop} {w : W} (hp : Holds 𝒲 inv ends mid p w)
    (hf : ∀ s a w, mid s a w → Holds 𝒲 inv ends fin (f a s) w) :
    Holds 𝒲 inv ends fin (p.bind f) w :=
  holds_bind.mpr (hp.mono hf)

/-- What holds before a step holds after it, up to moves of the world that the
program has not seen yet. -/
theorem Holds.step {p p' : Prog ρ σ ε α} {w₀ w w' : W} (h : Holds 𝒲 inv ends fin p w₀)
    (hm : ReflTransGen 𝒲.moves w₀ w) (hs : 𝒲.Step (p, w) (p', w')) :
    ∃ w₁, ReflTransGen 𝒲.moves w₁ w' ∧ Holds 𝒲 inv ends fin p' w₁ := by
  cases hs with
  | move hmove => exact ⟨w₀, hm.tail hmove, h⟩
  | reply hans => exact ⟨w', .refl, (h w hm).2 _ _ hans⟩

/-- **The rule of runs.** -/
theorem Holds.reach {p p' : Prog ρ σ ε α} {w w' : W} (h : Holds 𝒲 inv ends fin p w)
    (hr : 𝒲.Reach p w (p', w')) :
    ∃ w₁, ReflTransGen 𝒲.moves w₁ w' ∧ Holds 𝒲 inv ends fin p' w₁ := by
  suffices H : ∀ c, 𝒲.Reach p w c →
      ∃ w₁, ReflTransGen 𝒲.moves w₁ c.2 ∧ Holds 𝒲 inv ends fin c.1 w₁ from H _ hr
  intro c hc
  induction hc with
  | refl => exact ⟨w, .refl, h⟩
  | @tail b c _ hs ih =>
      obtain ⟨w₁, hm, hb⟩ := ih
      exact hb.step hm hs

/-- Whenever a run is about to make a call, the invariant holds. -/
theorem Holds.reach_call {p : Prog ρ σ ε α} {s : σ} {c : κ} {k : ρ c → Prog ρ σ ε α} {w w' : W}
    (h : Holds 𝒲 inv ends fin p w) (hr : 𝒲.Reach p w (.call s c k, w')) : inv s w' := by
  obtain ⟨w₁, hm, hp⟩ := h.reach hr
  exact (hp w' hm).1

/-- A run never halts in a way the precondition excludes. -/
theorem Holds.reach_halt {p : Prog ρ σ ε α} {s : σ} {e : ε} {w w' : W}
    (h : Holds 𝒲 inv ends fin p w) (hr : 𝒲.Reach p w (.halt s e, w')) :
    ∃ w₁, ReflTransGen 𝒲.moves w₁ w' ∧ ends s e w₁ :=
  h.reach hr

theorem Holds.reach_ret {p : Prog ρ σ ε α} {s : σ} {a : α} {w w' : W}
    (h : Holds 𝒲 inv ends fin p w) (hr : 𝒲.Reach p w (.ret s a, w')) :
    ∃ w₁, ReflTransGen 𝒲.moves w₁ w' ∧ fin s a w₁ :=
  h.reach hr

/-- Two things that hold along a program hold together. -/
theorem Holds.and {inv' : σ → W → Prop} {ends' : σ → ε → W → Prop} {fin' : σ → α → W → Prop}
    {p : Prog ρ σ ε α} {w : W} (h : Holds 𝒲 inv ends fin p w) (h' : Holds 𝒲 inv' ends' fin' p w) :
    Holds 𝒲 (fun s w => inv s w ∧ inv' s w) (fun s e w => ends s e w ∧ ends' s e w)
      (fun s a w => fin s a w ∧ fin' s a w) p w := by
  induction p generalizing w with
  | ret => exact ⟨h, h'⟩
  | call s c k ih =>
      intro w' hm
      obtain ⟨hi, hk⟩ := h w' hm
      obtain ⟨hi', hk'⟩ := h' w' hm
      exact ⟨⟨hi, hi'⟩, fun r w'' ha => ih r (hk r w'' ha) (hk' r w'' ha)⟩
  | halt => exact ⟨h, h'⟩

/-- What holds in a world holds in one with fewer answers. -/
theorem Holds.restrict {𝒲' : World ρ σ W} {p : Prog ρ σ ε α} {w : W}
    (h : Holds 𝒲 inv ends fin p w) (hans : ∀ s c w r w', 𝒲'.answer s c w r w' → 𝒲.answer s c w r w')
    (hmoves : ∀ w w', 𝒲'.moves w w' → 𝒲.moves w w') : Holds 𝒲' inv ends fin p w := by
  induction p generalizing w with
  | ret => exact h
  | call s c k ih =>
      intro w' hm
      obtain ⟨hi, hk⟩ := h w' (ReflTransGen.mono hmoves _ _ hm)
      exact ⟨hi, fun r w'' ha => ih r (hk r w'' (hans _ _ _ _ _ ha))⟩
  | halt => exact h

/-- In a world that answers every call, a program that never halts returns. -/
theorem Holds.exists_ret (total : ∀ s c w, ∃ r w', 𝒲.answer s c w r w') {p : Prog ρ σ ε α} {w : W}
    (h : Holds 𝒲 inv (fun _ _ _ => False) fin p w) :
    ∃ s a w', 𝒲.Reach p w (.ret s a, w') ∧ fin s a w' := by
  induction p generalizing w with
  | ret s a => exact ⟨s, a, w, .refl, h⟩
  | call s c k ih =>
      obtain ⟨r, w', ha⟩ := total s c w
      obtain ⟨s', a, w'', hr, hfin⟩ := ih r ((h w .refl).2 r w' ha)
      exact ⟨s', a, w'', (ReflTransGen.single (.reply ha)).trans hr, hfin⟩
  | halt => exact h.elim

end Prog

/-- The first part of a sequence runs as it does alone. -/
theorem World.Reach.bind {p : Prog ρ σ ε α} {w : W} {c : Prog ρ σ ε α × W} (h : 𝒲.Reach p w c)
    (f : α → σ → Prog ρ σ ε β) : 𝒲.Reach (p.bind f) w (c.1.bind f, c.2) := by
  induction h with
  | refl => exact .refl
  | tail _ hs ih =>
      cases hs with
      | move hm => exact ih.tail (.move hm)
      | reply ha => exact ih.tail (.reply ha)

/-- Runs of one world are runs of another, as far as `f` shows. -/
theorem World.Reach.map {V : Type} {𝒱 : World ρ σ V} (f : W → V) {J : W → Prop}
    (hans : ∀ s c w r w', J w → 𝒲.answer s c w r w' → J w' ∧ 𝒱.answer s c (f w) r (f w'))
    (hmoves : ∀ w w', J w → 𝒲.moves w w' → J w' ∧ (f w = f w' ∨ 𝒱.moves (f w) (f w')))
    {p : Prog ρ σ ε α} {w : W} (hw : J w) {c : Prog ρ σ ε α × W} (h : 𝒲.Reach p w c) :
    J c.2 ∧ 𝒱.Reach p (f w) (c.1, f c.2) := by
  induction h with
  | refl => exact ⟨hw, .refl⟩
  | tail _ hs ih =>
      obtain ⟨hJ, hr⟩ := ih
      cases hs with
      | move hm =>
          obtain ⟨hJ', heq | hm'⟩ := hmoves _ _ hJ hm
          · exact ⟨hJ', heq ▸ hr⟩
          · exact ⟨hJ', hr.tail (.move hm')⟩
      | reply ha =>
          obtain ⟨hJ', ha'⟩ := hans _ _ _ _ _ hJ ha
          exact ⟨hJ', hr.tail (.reply ha')⟩

/-! ### The precondition of code -/

/-- `Holds`, of code that is run from a state. -/
def Code.Wp (inv : σ → W → Prop) (ends : σ → ε → W → Prop) (m : Code ρ σ ε α) (s : σ) (w : W)
    (fin : σ → α → W → Prop) : Prop :=
  (m s).Holds 𝒲 inv ends fin w

namespace Code
variable {𝒲} {inv : σ → W → Prop} {ends : σ → ε → W → Prop} {fin : σ → α → W → Prop} {s : σ} {w : W}

theorem Wp.mono {m : Code ρ σ ε α} {fin' : σ → α → W → Prop} (h : Wp 𝒲 inv ends m s w fin)
    (hf : ∀ s a w, fin s a w → fin' s a w) : Wp 𝒲 inv ends m s w fin' :=
  Prog.Holds.mono h hf

theorem Wp.weaken {m : Code ρ σ ε α} {inv' : σ → W → Prop} {ends' : σ → ε → W → Prop}
    (h : Wp 𝒲 inv ends m s w fin) (hinv : ∀ s w, inv s w → inv' s w)
    (hends : ∀ s e w, ends s e w → ends' s e w) : Wp 𝒲 inv' ends' m s w fin :=
  Prog.Holds.weaken h hinv hends

theorem Wp.bind {m : Code ρ σ ε α} {f : α → Code ρ σ ε β} {M : σ → α → W → Prop}
    {fin : σ → β → W → Prop} (hm : Wp 𝒲 inv ends m s w M)
    (hf : ∀ s a w, M s a w → Wp 𝒲 inv ends (f a) s w fin) : Wp 𝒲 inv ends (m >>= f) s w fin :=
  Prog.Holds.bind hm hf

theorem Wp.pure {a : α} (h : fin s a w) : Wp 𝒲 inv ends (Pure.pure a) s w fin := h

theorem Wp.halt {e : ε} (h : ends s e w) : Wp 𝒲 inv ends (Code.halt e) s w fin := h

theorem Wp.modify {g : σ → σ} {fin : σ → Unit → W → Prop} (h : fin (g s) () w) :
    Wp 𝒲 inv ends (Code.modify g) s w fin := h

theorem Wp.get_bind {f : σ → Code ρ σ ε α} (h : Wp 𝒲 inv ends (f s) s w fin) :
    Wp 𝒲 inv ends (Code.get >>= f) s w fin := h

theorem Wp.modify_bind {g : σ → σ} {f : Unit → Code ρ σ ε α}
    (h : Wp 𝒲 inv ends (f ()) (g s) w fin) : Wp 𝒲 inv ends (Code.modify g >>= f) s w fin := h

theorem Wp.ite {p : Prop} [Decidable p] {m m' : Code ρ σ ε α} (hm : p → Wp 𝒲 inv ends m s w fin)
    (hm' : ¬ p → Wp 𝒲 inv ends m' s w fin) : Wp 𝒲 inv ends (if p then m else m') s w fin := by
  split
  · exact hm ‹_›
  · exact hm' ‹_›

/-- A call, from an assertion that the world preserves when it moves. -/
theorem Wp.call {c : κ} {fin : σ → ρ c → W → Prop} (P : W → Prop)
    (stable : ∀ w w', P w → 𝒲.moves w w' → P w') (hw : P w) (hinv : ∀ w, P w → inv s w)
    (hk : ∀ w r w', P w → 𝒲.answer s c w r w' → fin s r w') :
    Wp 𝒲 inv ends (Code.call c) s w fin :=
  Prog.Holds.call P stable hw hinv hk

/-! ### Code that keeps an invariant -/

/-- The code keeps `I`: if it holds when the code begins, it holds when it returns, and
in between `inv` does. -/
def Keeps (inv : σ → W → Prop) (ends : σ → ε → W → Prop) (I : σ → W → Prop) (m : Code ρ σ ε α) :
    Prop :=
  ∀ s w, I s w → Wp 𝒲 inv ends m s w fun s _ w => I s w

section Keeps
variable {I : σ → W → Prop}

theorem Keeps.pure (a : α) : Keeps (𝒲 := 𝒲) inv ends I (Pure.pure a : Code ρ σ ε α) :=
  fun _ _ h => Wp.pure h

theorem Keeps.get : Keeps (𝒲 := 𝒲) inv ends I (Code.get : Code ρ σ ε σ) := fun _ _ h => h

theorem Keeps.bind {m : Code ρ σ ε α} {f : α → Code ρ σ ε β} (hm : Keeps (𝒲 := 𝒲) inv ends I m)
    (hf : ∀ a, Keeps (𝒲 := 𝒲) inv ends I (f a)) : Keeps (𝒲 := 𝒲) inv ends I (m >>= f) :=
  fun s w h => (hm s w h).bind fun s a w h => hf a s w h

theorem Keeps.halt {e : ε} (h : ∀ s w, I s w → ends s e w) :
    Keeps (𝒲 := 𝒲) inv ends I (Code.halt e : Code ρ σ ε α) := fun s w hI => Wp.halt (h s w hI)

theorem Keeps.modify {g : σ → σ} (h : ∀ s w, I s w → I (g s) w) :
    Keeps (𝒲 := 𝒲) inv ends I (Code.modify g : Code ρ σ ε Unit) := fun s w hI => Wp.modify (h s w hI)

theorem Keeps.ite {p : Prop} [Decidable p] {m m' : Code ρ σ ε α}
    (hm : p → Keeps (𝒲 := 𝒲) inv ends I m) (hm' : ¬ p → Keeps (𝒲 := 𝒲) inv ends I m') :
    Keeps (𝒲 := 𝒲) inv ends I (if p then m else m') :=
  fun s w h => Wp.ite (fun hp => hm hp s w h) fun hp => hm' hp s w h

theorem Keeps.call {c : κ} (hinv : ∀ s w, I s w → inv s w)
    (hmoves : ∀ s w w', I s w → 𝒲.moves w w' → I s w')
    (hans : ∀ s w r w', I s w → 𝒲.answer s c w r w' → I s w') :
    Keeps (𝒲 := 𝒲) inv ends I (Code.call c : Code ρ σ ε (ρ c)) :=
  fun s _ h => Wp.call (I s) (fun w w' => hmoves s w w') h (fun w => hinv s w)
    fun w r w' => hans s w r w'

/-- The rule of runs for code that keeps an invariant. -/
theorem Keeps.reach {m : Code ρ σ ε α} (hm : Keeps (𝒲 := 𝒲) inv ends I m)
    (hmoves : ∀ s w w', I s w → 𝒲.moves w w' → I s w')
    (hends : ∀ s e w w', ends s e w → 𝒲.moves w w' → ends s e w') {s : σ} {w w' : W} (h : I s w)
    {p : Prog ρ σ ε α} (hr : 𝒲.Reach (m s) w (p, w')) :
    match p with
    | .halt s e => ends s e w'
    | .call s _ _ => inv s w'
    | .ret s _ => I s w' := by
  obtain ⟨w₁, hm₁, hp⟩ := (hm s w h).reach hr
  have lift : ∀ {P : W → Prop}, (∀ w w', P w → 𝒲.moves w w' → P w') → P w₁ → P w' := by
    intro P hP h₁
    clear hr
    induction hm₁ with
    | refl => exact h₁
    | tail _ hstep ih => exact hP _ _ ih hstep
  cases p with
  | ret s a => exact lift (fun w w' => hmoves s w w') hp
  | call s c k => exact (hp w' hm₁).1
  | halt s e => exact lift (fun w w' => hends s e w w') hp

end Keeps

end Code

namespace Code

/-- Some run of the code, finished or not, brings the world to `P`. -/
def Leads (m : Code ρ σ ε α) (s : σ) (w : W) (P : W → Prop) : Prop :=
  ∃ p w', 𝒲.Reach (m s) w (p, w') ∧ P w'

variable {𝒲} {inv : σ → W → Prop} {s : σ} {w : W} {P : W → Prop}

theorem Leads.now {m : Code ρ σ ε α} (h : P w) : Leads 𝒲 m s w P := ⟨m s, w, .refl, h⟩

theorem Leads.first {m : Code ρ σ ε α} {f : α → Code ρ σ ε β} (h : Leads 𝒲 m s w P) :
    Leads 𝒲 (m >>= f) s w P := by
  obtain ⟨p, w', hr, hP⟩ := h
  exact ⟨_, w', World.Reach.bind 𝒲 hr _, hP⟩

theorem Leads.get_bind {f : σ → Code ρ σ ε α} (h : Leads 𝒲 (f s) s w P) :
    Leads 𝒲 (Code.get >>= f) s w P := h

theorem Leads.modify_bind {g : σ → σ} {f : Unit → Code ρ σ ε α} (h : Leads 𝒲 (f ()) (g s) w P) :
    Leads 𝒲 (Code.modify g >>= f) s w P := h

/-- The first part returns, and the rest leads on. -/
theorem Leads.bind (total : ∀ s c w, ∃ r w', 𝒲.answer s c w r w') {m : Code ρ σ ε α}
    {f : α → Code ρ σ ε β} {M : σ → α → W → Prop} (hm : Wp 𝒲 inv (fun _ _ _ => False) m s w M)
    (hf : ∀ s a w, M s a w → Leads 𝒲 (f a) s w P) : Leads 𝒲 (m >>= f) s w P := by
  obtain ⟨s', a, w', hr, hM⟩ := Prog.Holds.exists_ret total hm
  obtain ⟨p, w'', hr', hP⟩ := hf s' a w' hM
  exact ⟨p, w'', (World.Reach.bind 𝒲 hr _).trans hr', hP⟩

end Code

/-! ### Worlds without a state -/

/-- The world that gives exactly the answers `ok` allows. -/
def World.answering (ok : σ → (c : κ) → ρ c → Prop) : World ρ σ Unit where
  answer s c _ r _ := ok s c r
  moves _ _ := False

namespace Prog
variable {ok : σ → (c : κ) → ρ c → Prop} {inv : σ → Unit → Prop} {ends : σ → ε → Unit → Prop}
  {fin : σ → α → Unit → Prop}

theorem holds_call_answering {s : σ} {c : κ} {k : ρ c → Prog ρ σ ε α}
    (hinv : inv s ()) (hk : ∀ r, ok s c r → Holds (.answering ok) inv ends fin (k r) ()) :
    Holds (.answering ok) inv ends fin (.call s c k) () :=
  Holds.call (fun _ => True) (fun _ _ _ h => h.elim) trivial (fun _ _ => hinv)
    fun _ r _ _ h => hk r h

/-- What the program returns whatever it is answered, it returns in every world. -/
theorem Holds.and_free {𝒲 : World ρ σ W} {inv : σ → W → Prop} {ends : σ → ε → W → Prop}
    {fin : σ → α → W → Prop} {P : σ → α → Prop} {p : Prog ρ σ ε α} {w : W}
    (h : Holds 𝒲 inv ends fin p w)
    (hP : Holds (.answering fun _ _ _ => True) (fun _ _ => True) (fun _ _ _ => True)
      (fun s a _ => P s a) p ()) :
    Holds 𝒲 inv ends (fun s a w => fin s a w ∧ P s a) p w := by
  induction p generalizing w with
  | ret => exact ⟨h, hP⟩
  | call s c k ih =>
      intro w' hm
      exact ⟨(h w' hm).1, fun r w'' ha => ih r ((h w' hm).2 r w'' ha)
        ((hP () .refl).2 r () trivial)⟩
  | halt => exact h

variable [DecidableEq κ] [∀ s c r, Decidable (ok s c r)]

/-- The program that is left after a trace, when every answer of it is allowed. -/
def after (ok : σ → (c : κ) → ρ c → Prop) [∀ s c r, Decidable (ok s c r)] :
    Prog ρ σ ε α → List (Event ρ) → Option (Prog ρ σ ε α)
  | p, [] => some p
  | .call s c k, e :: t =>
      if h : e.call = c then
        if ok s c (h ▸ e.answer) then after ok (k (h ▸ e.answer)) t else none
      else none
  | _, _ => none

theorem reach_of_after {p p' : Prog ρ σ ε α} {t : List (Event ρ)}
    (h : after ok p t = some p') : (World.answering ok).Reach p () (p', ()) := by
  induction t generalizing p with
  | nil =>
      cases p <;> (obtain rfl := Option.some.inj h; exact .refl)
  | cons e t ih =>
      cases p with
      | ret => cases h
      | halt => cases h
      | call s c k =>
          simp only [after] at h
          split at h
          · split at h
            · exact (ReflTransGen.single (.reply ‹ok s c _›)).trans (ih h)
            · cases h
          · cases h

end Prog

/-! ### What code returns in every world -/

namespace Code

/-- Whatever the code is answered, `P` holds when it returns. -/
def Rets (m : Code ρ σ ε α) (s : σ) (P : σ → α → Prop) : Prop :=
  Wp (.answering fun _ _ _ => True) (fun _ _ => True) (fun _ _ _ => True) m s () fun s a _ => P s a

variable {P : σ → α → Prop} {s : σ}

theorem Rets.mono {m : Code ρ σ ε α} {Q : σ → α → Prop} (h : Rets m s P)
    (hf : ∀ s a, P s a → Q s a) : Rets m s Q := Wp.mono h fun s a _ => hf s a

theorem Rets.bind {m : Code ρ σ ε α} {f : α → Code ρ σ ε β} {Q : σ → β → Prop} (hm : Rets m s P)
    (hf : ∀ s a, P s a → Rets (f a) s Q) : Rets (m >>= f) s Q := Wp.bind hm fun s a _ => hf s a

theorem Rets.pure {a : α} (h : P s a) : Rets (Pure.pure a : Code ρ σ ε α) s P := h

theorem Rets.halt {e : ε} : Rets (Code.halt e : Code ρ σ ε α) s P := trivial

theorem Rets.call {c : κ} {P : σ → ρ c → Prop} (h : ∀ r, P s r) :
    Rets (Code.call c : Code ρ σ ε (ρ c)) s P :=
  Wp.call (fun _ => True) (fun _ _ _ h => h.elim) trivial (fun _ _ => trivial)
    fun _ r _ _ _ => h r

/-- What code keeps whatever it is answered. -/
theorem Keeps.rets {I : σ → Prop} {m : Code ρ σ ε α}
    (h : Keeps (𝒲 := .answering fun _ _ _ => True) (fun _ _ => True) (fun _ _ _ => True)
      (fun s _ => I s) m) (hs : I s) : Rets m s fun s _ => I s :=
  h s () hs

/-- In a world, code does both what it does there and what it does anywhere. -/
theorem Wp.and_rets {𝒲 : World ρ σ W} {inv : σ → W → Prop} {ends : σ → ε → W → Prop}
    {fin : σ → α → W → Prop} {m : Code ρ σ ε α} {w : W} (h : Wp 𝒲 inv ends m s w fin)
    (hP : Rets m s P) : Wp 𝒲 inv ends m s w fun s a w => fin s a w ∧ P s a :=
  Prog.Holds.and_free h hP

/-! ### What code does when it is answered -/

section Execs
variable [DecidableEq κ] {t t' : List (Event ρ)}

/-- Answered as in `t`, the code makes the calls of `t` and no others, returns, and `P` holds
then. -/
def Execs (m : Code ρ σ ε α) (s : σ) (t : List (Event ρ)) (P : σ → α → Prop) : Prop :=
  ∃ s' a, (m s).exec t = some (s', a) ∧ P s' a

theorem Execs.mono {m : Code ρ σ ε α} {Q : σ → α → Prop} (h : Execs m s t P)
    (hf : ∀ s a, P s a → Q s a) : Execs m s t Q := by
  obtain ⟨s', a, hexec, hP⟩ := h
  exact ⟨s', a, hexec, hf s' a hP⟩

theorem Execs.bind {m : Code ρ σ ε α} {f : α → Code ρ σ ε β} {Q : σ → β → Prop}
    (hm : Execs m s t P) (hf : ∀ s a, P s a → Execs (f a) s t' Q) :
    Execs (m >>= f) s (t ++ t') Q := by
  obtain ⟨s₁, a, hexec, hP⟩ := hm
  obtain ⟨s₂, b, hexec', hQ⟩ := hf s₁ a hP
  exact ⟨s₂, b, Prog.exec_bind.mpr ⟨s₁, a, t, t', rfl, hexec, hexec'⟩, hQ⟩

theorem Execs.pure {a : α} (h : P s a) : Execs (Pure.pure a : Code ρ σ ε α) s [] P :=
  ⟨s, a, rfl, h⟩

theorem Execs.modify {g : σ → σ} {P : σ → Unit → Prop} (h : P (g s) ()) :
    Execs (Code.modify g : Code ρ σ ε Unit) s [] P := ⟨g s, (), rfl, h⟩

theorem Execs.call {c : κ} {r : ρ c} {P : σ → ρ c → Prop} (h : P s r) :
    Execs (Code.call c : Code ρ σ ε (ρ c)) s [⟨c, r⟩] P :=
  ⟨s, r, Prog.exec_call.mpr ⟨r, [], rfl, rfl⟩, h⟩

theorem Execs.get_bind {f : σ → Code ρ σ ε α} (h : Execs (f s) s t P) :
    Execs (Code.get >>= f) s t P := h

theorem Execs.modify_bind {g : σ → σ} {f : Unit → Code ρ σ ε α} (h : Execs (f ()) (g s) t P) :
    Execs (Code.modify g >>= f) s t P := h

/-- A first part that makes no call. -/
theorem Execs.read_bind {m : Code ρ σ ε α} {a : α} {f : α → Code ρ σ ε β} {Q : σ → β → Prop}
    (hm : m s = .ret s a) (hf : Execs (f a) s t Q) : Execs (m >>= f) s t Q := by
  obtain ⟨s', b, hexec, hQ⟩ := hf
  refine ⟨s', b, ?_, hQ⟩
  rw [Code.bind_apply, hm]
  exact hexec

end Execs

end Code

end World

end Xnd
