import Xnd.Lib.Prog

/-!
# Environments that run

A world is two relations.  An `Env` computes it: the states a call may leave the
environment in when it is answered (`respond`), and the moves the environment makes
by itself, each by name (`move`).  `Env.world` is the world it computes, in which an
answer has to be allowed besides; a run of a program in it is given by the list of
its turns (`Turn`), and `Env.follow` checks one.
-/
namespace Xnd
open Relation

variable {κ : Type} {ρ : κ → Type} {σ ε α : Type}

/-- An environment with states `W` and moves `μ`. -/
structure Env {κ : Type} (ρ : κ → Type) (σ μ W : Type) where
  respond : σ → W → (c : κ) → ρ c → List W
  move : μ → W → Option W

/-- A step of a run: an answer, with the choice among the states it may leave, or a
move. -/
inductive Turn {κ : Type} (ρ : κ → Type) (μ : Type) where
  | reply (e : Event ρ) (choice : Nat)
  | move (m : μ)

namespace Env
variable {μ W : Type} (E : Env ρ σ μ W)

/-- The world of an environment, with the answers that `ok` allows. -/
def world (ok : σ → W → (c : κ) → ρ c → Prop) : World ρ σ W where
  answer s c w r w' := ok s w c r ∧ w' ∈ E.respond s w c r
  moves w w' := ∃ m, E.move m w = some w'

/-- The environment that makes only the moves a condition allows. -/
def limit (fine : W → μ → Prop) [∀ w m, Decidable (fine w m)] : Env ρ σ μ W where
  respond := E.respond
  move m w := if fine w m then E.move m w else none

theorem move_limit {fine : W → μ → Prop} [∀ w m, Decidable (fine w m)] {m : μ} {w w' : W}
    (h : (E.limit fine).move m w = some w') : fine w m ∧ E.move m w = some w' := by
  simp only [limit] at h
  split at h
  · exact ⟨‹_›, h⟩
  · cases h

section Keeps
open Code
variable {ok : σ → W → (c : κ) → ρ c → Prop} {inv : σ → W → Prop} {ends : σ → ε → W → Prop}
  {I : σ → W → Prop}

/-- A call keeps what every move and every response keep. -/
theorem keeps_call {c : κ} (hinv : ∀ s w, I s w → inv s w)
    (hmove : ∀ s w m w', I s w → E.move m w = some w' → I s w')
    (hrespond : ∀ s w r w', I s w → ok s w c r → w' ∈ E.respond s w c r → I s w') :
    Keeps (𝒲 := E.world ok) inv ends I (Code.call c : Code ρ σ ε (ρ c)) :=
  Keeps.call hinv (fun s w w' h ⟨m, hm⟩ => hmove s w m w' h hm)
    fun s w r w' h ha => hrespond s w r w' h ha.1 ha.2

/-- A call, from an assertion about the environment that every move keeps. -/
theorem wp_call {c : κ} {s : σ} {w : W} {fin : σ → ρ c → W → Prop} (P : W → Prop)
    (hmove : ∀ w m w', P w → E.move m w = some w' → P w') (hw : P w) (hinv : ∀ w, P w → inv s w)
    (hrespond : ∀ w r w', P w → ok s w c r → w' ∈ E.respond s w c r → fin s r w') :
    Wp (E.world ok) inv ends (Code.call c : Code ρ σ ε (ρ c)) s w fin :=
  Wp.call P (fun w w' h ⟨m, hm⟩ => hmove w m w' h hm) hw hinv
    fun w r w' h ha => hrespond w r w' h ha.1 ha.2

end Keeps

/-! ## An account beside an environment

The environment is as before; beside its states an account is kept of the answers. -/

section Noting
open Code
variable {V : Type} (follow : σ → V → (c : κ) → ρ c → V)

def noting : Env ρ σ μ (W × V) where
  respond s w c r := (E.respond s w.1 c r).map fun w' => (w', follow s w.2 c r)
  move m w := (E.move m w.1).map fun w' => (w', w.2)

variable {E follow} {ok : σ → W × V → (c : κ) → ρ c → Prop} {inv : σ → W × V → Prop}
  {ends : σ → ε → W × V → Prop}

theorem move_noting {m : μ} {w w' : W × V} (h : (E.noting follow).move m w = some w') :
    E.move m w.1 = some w'.1 ∧ w'.2 = w.2 := by
  obtain ⟨w₁, hm, rfl⟩ := Option.map_eq_some_iff.mp h
  exact ⟨hm, rfl⟩

/-- A call, from an assertion about the environment that every move keeps. -/
theorem wp_call_noting {c : κ} {s : σ} {w : W} {v : V} {fin : σ → ρ c → W × V → Prop} (P : W → Prop)
    (hmove : ∀ w m w', P w → E.move m w = some w' → P w') (hw : P w)
    (hinv : ∀ w, P w → inv s (w, v)) (hrespond : ∀ w r w', P w → ok s (w, v) c r →
      w' ∈ E.respond s w c r → fin s r (w', follow s v c r)) :
    Wp ((E.noting follow).world ok) inv ends (Code.call c : Code ρ σ ε (ρ c)) s (w, v) fin := by
  refine (E.noting follow).wp_call (fun w => P w.1 ∧ w.2 = v) ?_ ⟨hw, rfl⟩ ?_ ?_
  · rintro w m w' ⟨hP, hv⟩ hm
    obtain ⟨hm, hv'⟩ := move_noting hm
    exact ⟨hmove w.1 m w'.1 hP hm, hv'.trans hv⟩
  · rintro ⟨w, _⟩ ⟨hP, rfl⟩
    exact hinv w hP
  · rintro ⟨w, _⟩ r w' ⟨hP, rfl⟩ hok hr
    obtain ⟨w'', hw', rfl⟩ := List.mem_map.mp hr
    exact hrespond w r w'' hP hok hw'

end Noting

variable [DecidableEq κ] (ok : σ → W → (c : κ) → ρ c → Prop) [∀ s w c r, Decidable (ok s w c r)]

/-- One turn. -/
def turn : Prog ρ σ ε α × W → Turn ρ μ → Option (Prog ρ σ ε α × W)
  | (.call s c k, w), .reply e choice =>
      if h : e.call = c then
        if ok s w c (h ▸ e.answer) then
          ((E.respond s w c (h ▸ e.answer))[choice]?).map fun w' => (k (h ▸ e.answer), w')
        else none
      else none
  | (p, w), .move m => (E.move m w).map fun w' => (p, w')
  | _, _ => none

/-- The configuration after a list of turns. -/
def follow (c : Prog ρ σ ε α × W) : List (Turn ρ μ) → Option (Prog ρ σ ε α × W)
  | [] => some c
  | t :: ts => (E.turn ok c t).bind fun c' => follow c' ts

variable {E ok}

theorem step_of_turn {c c' : Prog ρ σ ε α × W} {t : Turn ρ μ} (h : E.turn ok c t = some c') :
    (E.world ok).Step c c' := by
  obtain ⟨p, w⟩ := c
  cases t with
  | move m =>
      obtain ⟨w', hm, rfl⟩ : ∃ w', E.move m w = some w' ∧ (p, w') = c' := by
        cases p <;> exact Option.map_eq_some_iff.mp h
      exact .move ⟨m, hm⟩
  | reply e choice =>
      cases p with
      | ret => cases h
      | halt => cases h
      | call s d k =>
          simp only [turn] at h
          split at h
          · split at h
            · obtain ⟨w', hw', rfl⟩ := Option.map_eq_some_iff.mp h
              exact .reply ⟨‹ok s w d _›, List.mem_of_getElem? hw'⟩
            · cases h
          · cases h

/-- What a list of turns leads to is reached. -/
theorem reach_of_follow {p : Prog ρ σ ε α} {w : W} {ts : List (Turn ρ μ)}
    {c : Prog ρ σ ε α × W} (h : E.follow ok (p, w) ts = some c) : (E.world ok).Reach p w c := by
  suffices H : ∀ c', E.follow ok c' ts = some c → ReflTransGen (E.world ok).Step c' c from H _ h
  clear h
  induction ts with
  | nil =>
      intro c' h
      obtain rfl := Option.some.inj h
      exact .refl
  | cons t ts ih =>
      intro c' h
      obtain ⟨d, hd, hts⟩ := Option.bind_eq_some_iff.mp h
      exact (ReflTransGen.single (step_of_turn hd)).trans (ih d hts)

variable (E ok)

/-- A run that is computed, with what it leads to. -/
theorem exists_follow (c : Prog ρ σ ε α × W) (ts : List (Turn ρ μ))
    (pred : Prog ρ σ ε α × W → Prop) [DecidablePred pred]
    (h : (E.follow ok c ts).any (fun c' => decide (pred c')) = true) :
    ∃ c', E.follow ok c ts = some c' ∧ pred c' := by
  obtain ⟨c', hc', hpred⟩ := (Option.any_eq_true _ _).mp h
  exact ⟨c', hc', of_decide_eq_true hpred⟩

/-! ## Accounts

An environment that answers anything it is allowed to and only keeps account of it: the
state is computed from the answers, and nothing moves by itself. -/

section Account
open Code
variable (follow : σ → W → (c : κ) → ρ c → W)

def account : Env ρ σ Empty W where
  respond s w c r := [follow s w c r]
  move m := m.elim

variable {follow} {ok : σ → W → (c : κ) → ρ c → Prop} {inv : σ → W → Prop}
  {ends : σ → ε → W → Prop}

omit [DecidableEq κ] in
theorem not_moves_account {w w' : W} : ¬((account follow).world ok).moves w w' :=
  fun ⟨m, _⟩ => m.elim

omit [DecidableEq κ] in
/-- A call, with what its answer adds to the account. -/
theorem wp_call_account {c : κ} {s : σ} {w : W} (hinv : inv s w) :
    Wp ((account follow).world ok) inv ends (Code.call c : Code ρ σ ε (ρ c)) s w
      fun s' r w' => s' = s ∧ w' = follow s w c r ∧ ok s w c r := by
  refine (account follow).wp_call (· = w) (fun _ m => m.elim) rfl (fun _ hw => hw ▸ hinv) ?_
  rintro _ r w' rfl hr hw'
  exact ⟨rfl, List.mem_singleton.mp hw', hr⟩

omit [DecidableEq κ] in
/-- The rule of runs in an account. -/
theorem reach_of_wp_account {m : Code ρ σ ε α} {s : σ} {w w' : W} {fin : σ → α → W → Prop}
    (hm : Wp ((account follow).world ok) inv ends m s w fin) {p : Prog ρ σ ε α}
    (hr : ((account follow).world ok).Reach (m s) w (p, w')) :
    match p with
    | .halt s e => ends s e w'
    | .call s _ _ => inv s w'
    | .ret s a => fin s a w' := by
  obtain ⟨w₁, hmoves, hp⟩ := Prog.Holds.reach hm hr
  obtain rfl : w₁ = w' := by
    rcases ReflTransGen.cases_head hmoves with he | ⟨w₂, hmove, -⟩
    · exact he
    · exact (not_moves_account hmove).elim
  cases p with
  | ret s a => exact hp
  | call s c k => exact (hp _ .refl).1
  | halt s e => exact hp

omit [DecidableEq κ] in
/-- The rule of runs for code that keeps an invariant of an account. -/
theorem reach_of_keeps_account {I : σ → W → Prop} {m : Code ρ σ ε α}
    (hm : Keeps (𝒲 := (account follow).world ok) inv ends I m) {s : σ} {w w' : W} (h : I s w)
    {p : Prog ρ σ ε α} (hr : ((account follow).world ok).Reach (m s) w (p, w')) :
    match p with
    | .halt s e => ends s e w'
    | .call s _ _ => inv s w'
    | .ret s _ => I s w' :=
  reach_of_wp_account (hm s w h) hr

/-- The turns that answer a trace. -/
def replies (t : List (Event ρ)) : List (Turn ρ Empty) := t.map fun e => .reply e 0

/-- What the answers of a trace lead to is reached. -/
theorem reach_of_replies [∀ s w c r, Decidable (ok s w c r)] {p : Prog ρ σ ε α} {w : W}
    (t : List (Event ρ)) {c : Prog ρ σ ε α × W}
    (h : (account follow).follow ok (p, w) (replies t) = some c) :
    ((account follow).world ok).Reach p w c := reach_of_follow h

end Account

/-! ## Environments that answer in one way -/

section Served
omit [DecidableEq κ] [∀ s w c r, Decidable (ok s w c r)]
variable (serve : W → (c : κ) → ρ c × W) (move : W → μ → Option W)

/-- The world in which every call has one answer. -/
def served : World ρ σ W where
  answer _ c w r w' := (r, w') = serve w c
  moves w w' := ∃ m, move w m = some w'

/-- The configuration after a list of turns: a move, or the answer to a call. -/
def drive : Prog ρ σ ε α × W → List (Option μ) → Option (Prog ρ σ ε α × W)
  | c, [] => some c
  | (p, w), some m :: ts => (move w m).bind fun w' => drive (p, w') ts
  | (.call _ c k, w), none :: ts => drive (k (serve w c).1, (serve w c).2) ts
  | _, none :: _ => none

variable {serve move}

/-- What a list of turns leads to is reached. -/
theorem reach_of_drive {ts : List (Option μ)} {c c' : Prog ρ σ ε α × W}
    (h : drive serve move c ts = some c') : (served serve move).Reach c.1 c.2 c' := by
  induction ts generalizing c with
  | nil =>
      obtain rfl := Option.some.inj h
      exact .refl
  | cons t ts ih =>
      obtain ⟨p, w⟩ := c
      cases t with
      | some m =>
          obtain ⟨w', hm, hts⟩ := Option.bind_eq_some_iff.mp h
          exact ReflTransGen.head (.move ⟨m, hm⟩) (ih hts)
      | none =>
          cases p with
          | ret => cases h
          | halt => cases h
          | call s d k => exact ReflTransGen.head (.reply rfl) (ih h)

variable (serve move) in
/-- A run that is computed, with what it leads to. -/
theorem exists_drive (c : Prog ρ σ ε α × W) (ts : List (Option μ)) (pred : Prog ρ σ ε α × W → Bool)
    (h : (drive serve move c ts).any pred = true) :
    ∃ c', (served serve move).Reach c.1 c.2 c' ∧ pred c' = true := by
  obtain ⟨c', hc', hpred⟩ := (Option.any_eq_true _ _).mp h
  exact ⟨c', reach_of_drive hc', hpred⟩

end Served

end Env

end Xnd
