import Xnd.Lib.Prog

/-!
# Programs with assertions

The text of a program may assert expressions that do something: make calls, and leave
what the calls return in variables that are used later.  A `Source` is such a text.  It
expands to a program in two ways: in a development build an asserted expression is
evaluated and checked, in a release build it is not there at all, and what its call
would have returned is whatever the variable held before.

The calls of an expansion are marked with whether an assertion makes them.  Some calls
are `silent`: they read, and leave everything as it is.  **The rule of builds** is
`Source.sameUnless`: until an assertion makes a call that is not silent, the release
build follows the development build call by call, whatever the text is, and leaves out
only the reads of assertions.
-/
namespace Xnd

variable {κ : Type} {ρ : κ → Type} {σ ε α β : Type} {silent : κ → Bool} {failed : ε → Prop}

/-- Whether assertions are compiled in. -/
inductive Build where
  | development | release
  deriving DecidableEq, Repr

/-- A call, and whether an assertion makes it. -/
structure Marked (κ : Type) where
  call : κ
  asserted : Bool
  deriving DecidableEq, Repr

/-- The answers are those of the call. -/
def Marked.Answer (ρ : κ → Type) (c : Marked κ) : Type := ρ c.call

/-- The calls of a program, all marked alike. -/
def Prog.marked (b : Bool) : Prog ρ σ ε α → Prog (Marked.Answer ρ) σ ε α
  | .ret s a => .ret s a
  | .call s c k => .call s ⟨c, b⟩ fun r => (k r).marked b
  | .halt s e => .halt s e

/-- The program without the marks. -/
def Prog.unmarked : Prog (Marked.Answer ρ) σ ε α → Prog ρ σ ε α
  | .ret s a => .ret s a
  | .call s c k => .call s c.call fun r => (k r).unmarked
  | .halt s e => .halt s e

@[simp] theorem Prog.unmarked_marked (b : Bool) (p : Prog ρ σ ε α) :
    (p.marked b).unmarked = p := by
  induction p with
  | ret => rfl
  | call s c k ih =>
      rw [marked, unmarked]
      exact congrArg _ (funext ih)
  | halt => rfl

theorem Prog.unmarked_bind (p : Prog (Marked.Answer ρ) σ ε α)
    (f : α → σ → Prog (Marked.Answer ρ) σ ε β) :
    (p.bind f).unmarked = p.unmarked.bind fun a s => (f a s).unmarked := by
  induction p with
  | ret => rfl
  | call s c k ih =>
      rw [bind_call, unmarked, unmarked, bind_call]
      exact congrArg _ (funext ih)
  | halt => rfl

/-- An expression that may be asserted: it changes nothing of the program unless it makes a
call that is not silent, and when it does not come back that counts as a failed
assertion. -/
def Prog.Quiet (silent : κ → Bool) (failed : ε → Prop) (s : σ) : Prog ρ σ ε Bool → Prop
  | .ret s' _ => s' = s
  | .call _ c k => silent c = true → ∀ r, (k r).Quiet silent failed s
  | .halt _ e => failed e

/-- The text of a program with assertions.  `assertCall` asserts a single call, whose answer
is used afterwards; `assertExpr` asserts an expression for its value only. -/
inductive Source {κ : Type} (ρ : κ → Type) (silent : κ → Bool) {ε : Type} (failed : ε → Prop)
    (σ α : Type) where
  | ret (s : σ) (a : α)
  | call (s : σ) (c : κ) (k : ρ c → Source ρ silent failed σ α)
  | halt (s : σ) (e : ε)
  | assertCall (s : σ) (c : κ) (hc : silent c = false) (ok : ρ c → Bool) (unset : ρ c) (e : ε)
      (he : failed e) (k : ρ c → Source ρ silent failed σ α)
  | assertExpr (s : σ) (m : Prog ρ σ ε Bool) (quiet : m.Quiet silent failed s) (e : ε)
      (he : failed e) (k : σ → Source ρ silent failed σ α)

namespace Source

def bind : Source ρ silent failed σ α → (α → σ → Source ρ silent failed σ β) →
    Source ρ silent failed σ β
  | .ret s a, f => f a s
  | .call s c k, f => .call s c fun r => (k r).bind f
  | .halt s e, _ => .halt s e
  | .assertCall s c hc ok unset e he k, f =>
      .assertCall s c hc ok unset e he fun r => (k r).bind f
  | .assertExpr s m quiet e he k, f => .assertExpr s m quiet e he fun s => (k s).bind f

/-- A program without assertions. -/
def plain : Prog ρ σ ε α → Source ρ silent failed σ α
  | .ret s a => .ret s a
  | .call s c k => .call s c fun r => plain (k r)
  | .halt s e => .halt s e

/-- The program a build makes of the text. -/
def expand (B : Build) : Source ρ silent failed σ α → Prog (Marked.Answer ρ) σ ε α
  | .ret s a => .ret s a
  | .call s c k => .call s ⟨c, false⟩ fun r => (k r).expand B
  | .halt s e => .halt s e
  | .assertCall s c _ ok unset e _ k =>
      match B with
      | .development =>
          .call s ⟨c, true⟩ fun r => if ok r = true then (k r).expand B else .halt s e
      | .release => (k unset).expand B
  | .assertExpr s m _ e _ k =>
      match B with
      | .development => (m.marked true).bind fun holds s =>
          if holds = true then (k s).expand B else .halt s e
      | .release => (k s).expand B

theorem expand_plain (B : Build) (p : Prog ρ σ ε α) :
    (plain p : Source ρ silent failed σ α).expand B = p.marked false := by
  induction p with
  | ret => rfl
  | call s c k ih =>
      rw [plain, expand, Prog.marked]
      exact congrArg _ (funext ih)
  | halt => rfl

theorem expand_bind (B : Build) (p : Source ρ silent failed σ α)
    (f : α → σ → Source ρ silent failed σ β) :
    (p.bind f).expand B = (p.expand B).bind fun a s => (f a s).expand B := by
  induction p with
  | ret => rfl
  | call s c k ih =>
      rw [bind, expand, expand, Prog.bind_call]
      exact congrArg _ (funext ih)
  | halt => rfl
  | assertCall s c hc ok unset e he k ih =>
      cases B with
      | development =>
          rw [bind, expand, expand, Prog.bind_call]
          refine congrArg _ (funext fun r => ?_)
          split
          · exact ih r
          · rfl
      | release => exact ih unset
  | assertExpr s m quiet e he k ih =>
      cases B with
      | development =>
          rw [bind, expand, expand, Prog.bind_assoc]
          refine congrArg _ (funext fun holds => funext fun s => ?_)
          split
          · exact ih s
          · rfl
      | release => exact ih s

end Source

/-! ## One build follows the other -/

/-- The second program does what the first does, without the silent calls of assertions,
until the first makes another call of an assertion or ends in a failed one. -/
def Prog.SameUnless (silent : κ → Bool) (failed : ε → Prop) : Prog (Marked.Answer ρ) σ ε α →
    Prog (Marked.Answer ρ) σ ε α → Prop
  | .ret s a, q => q = .ret s a
  | .call s ⟨c, false⟩ k, q =>
      ∃ k', q = .call s ⟨c, false⟩ k' ∧ ∀ r, SameUnless silent failed (k r) (k' r)
  | .call _ ⟨c, true⟩ k, q => silent c = true → ∀ r, SameUnless silent failed (k r) q
  | .halt s e, q => failed e ∨ q = .halt s e

/-- The reads of an asserted expression, and then the test of its value. -/
theorem Prog.Quiet.sameUnless {s : σ} {m : Prog ρ σ ε Bool} (hm : m.Quiet silent failed s)
    {f : Bool → σ → Prog (Marked.Answer ρ) σ ε α} {q : Prog (Marked.Answer ρ) σ ε α}
    (hf : ∀ holds, SameUnless silent failed (f holds s) q) :
    SameUnless silent failed ((m.marked true).bind f) q := by
  induction m with
  | ret s' holds =>
      obtain rfl : s' = s := hm
      exact hf holds
  | call s' c k ih => exact fun hc r => ih r (hm hc r)
  | halt s' e' => exact .inl hm

/-- **The rule of builds.** -/
theorem Source.sameUnless (p : Source ρ silent failed σ α) :
    (p.expand .development).SameUnless silent failed (p.expand .release) := by
  induction p with
  | ret => exact rfl
  | call s c k ih => exact ⟨_, rfl, ih⟩
  | halt s e => exact .inr rfl
  | assertCall s c hc ok unset e he k ih =>
      intro hsilent
      rw [hc] at hsilent
      cases hsilent
  | assertExpr s m quiet e he k ih =>
      refine quiet.sameUnless fun holds => ?_
      show Prog.SameUnless silent failed (if holds = true then _ else _) _
      split
      · exact ih s
      · exact .inl he

namespace Prog
variable [DecidableEq κ]

/-- The program that is left after a trace, whatever the answers are. -/
def rest (p : Prog ρ σ ε α) (t : List (Event ρ)) : Option (Prog ρ σ ε α) :=
  p.after (fun _ _ _ => True) t

theorem rest_nil (p : Prog ρ σ ε α) : p.rest [] = some p := by
  cases p <;> rfl

theorem rest_cons {p q : Prog ρ σ ε α} {e : Event ρ} {t : List (Event ρ)} :
    p.rest (e :: t) = some q ↔ ∃ s k, p = .call s e.call k ∧ (k e.answer).rest t = some q := by
  cases p with
  | ret => simp [rest, after]
  | halt => simp [rest, after]
  | call s c k =>
      simp only [rest, after]
      constructor
      · intro h
        split at h
        · rename_i hc
          subst hc
          exact ⟨s, k, rfl, by simpa using h⟩
        · cases h
      · rintro ⟨s', k', heq, h⟩
        cases heq
        simpa using h

/-- What assertions do in a trace is silent. -/
def SilentlyAsserted (silent : κ → Bool) (t : List (Event (Marked.Answer ρ))) : Prop :=
  ∀ e ∈ t, e.call.asserted = true → silent e.call.call = true

/-- The trace without the calls of assertions. -/
def withoutAsserted (t : List (Event (Marked.Answer ρ))) : List (Event (Marked.Answer ρ)) :=
  t.filter fun e => !e.call.asserted

/-- **The second program follows the first.** -/
theorem SameUnless.rest {p q p' : Prog (Marked.Answer ρ) σ ε α}
    {t : List (Event (Marked.Answer ρ))} (h : SameUnless silent failed p q)
    (hrest : p.rest t = some p') (ht : SilentlyAsserted silent t) :
    ∃ q', q.rest (withoutAsserted t) = some q' ∧ SameUnless silent failed p' q' := by
  induction t generalizing p q with
  | nil =>
      rw [rest_nil] at hrest
      exact ⟨q, rest_nil q, Option.some.inj hrest ▸ h⟩
  | cons e t ih =>
      obtain ⟨s, k, rfl, hk⟩ := rest_cons.mp hrest
      have htail : SilentlyAsserted silent t := fun e he => ht e (List.mem_cons_of_mem _ he)
      obtain ⟨⟨c, asserted⟩, answer⟩ := e
      cases asserted with
      | true => exact ih (h (ht _ List.mem_cons_self rfl) answer) hk htail
      | false =>
          obtain ⟨k', rfl, hsame⟩ := h
          obtain ⟨q', hq', hsame'⟩ := ih (hsame answer) hk htail
          exact ⟨q', rest_cons.mpr ⟨s, k', rfl, hq'⟩, hsame'⟩

end Prog

/-! ## The monad of texts -/

/-- A text that runs from a state. -/
def SourceCode {κ : Type} (ρ : κ → Type) (silent : κ → Bool) {ε : Type} (failed : ε → Prop)
    (σ α : Type) : Type := σ → Source ρ silent failed σ α

namespace SourceCode

instance : Monad (SourceCode ρ silent failed σ) where
  pure a := fun s => .ret s a
  bind m f := fun s => (m s).bind f

/-- Code without assertions. -/
def plain (m : Code ρ σ ε α) : SourceCode ρ silent failed σ α := fun s => .plain (m s)

/-- An assertion over a call, whose answer it returns. -/
def assertCall (c : κ) (hc : silent c = false) (ok : ρ c → Bool) (unset : σ → ρ c) (e : ε)
    (he : failed e) : SourceCode ρ silent failed σ (ρ c) :=
  fun s => .assertCall s c hc ok (unset s) e he (.ret s)

/-- An assertion over an expression. -/
def assertExpr (m : Code ρ σ ε Bool) (quiet : ∀ s, (m s).Quiet silent failed s) (e : ε)
    (he : failed e) : SourceCode ρ silent failed σ Unit :=
  fun s => .assertExpr s (m s) (quiet s) e he fun s => .ret s ()

theorem quiet_pure (b : Bool) (s : σ) :
    ((pure b : Code ρ σ ε Bool) s).Quiet silent failed s := rfl

/-- An assertion over the value of an expression that makes no calls. -/
def assertPure (b : Bool) (e : ε) (he : failed e) : SourceCode ρ silent failed σ Unit :=
  assertExpr (pure b) (quiet_pure b) e he

/-- The code of the development build, without the marks. -/
def development (m : SourceCode ρ silent failed σ α) : Code ρ σ ε α :=
  fun s => ((m s).expand .development).unmarked

section Development
variable (m : SourceCode ρ silent failed σ α)

@[simp] theorem development_pure (a : α) :
    development (pure a : SourceCode ρ silent failed σ α) = pure a := rfl

@[simp] theorem development_bind (f : α → SourceCode ρ silent failed σ β) :
    development (m >>= f) = development m >>= fun a => development (f a) := by
  funext s
  have hbind : ((m >>= f) s).expand .development = _ := Source.expand_bind .development (m s) f
  exact (congrArg Prog.unmarked hbind).trans (Prog.unmarked_bind _ _)

@[simp] theorem development_plain (m : Code ρ σ ε α) :
    development (plain m : SourceCode ρ silent failed σ α) = m := by
  funext s
  rw [development, plain, Source.expand_plain, Prog.unmarked_marked]

@[simp] theorem development_ite (p : Prop) [Decidable p] (m m' : SourceCode ρ silent failed σ α) :
    development (if p then m else m') = if p then development m else development m' := by
  split <;> rfl

@[simp] theorem development_assertCall (c : κ) (hc : silent c = false) (ok : ρ c → Bool)
    (unset : σ → ρ c) (e : ε) (he : failed e) :
    development (assertCall c hc ok unset e he : SourceCode ρ silent failed σ (ρ c)) =
      Code.call c >>= fun r => if ok r = true then pure r else Code.halt e := by
  funext s
  refine congrArg (Prog.call s c) (funext fun r => ?_)
  show Prog.unmarked (if ok r = true then _ else _) =
    (if ok r = true then pure r else Code.halt e : Code ρ σ ε (ρ c)) s
  split
  · rfl
  · rfl

@[simp] theorem development_assertExpr (m : Code ρ σ ε Bool)
    (quiet : ∀ s, (m s).Quiet silent failed s) (e : ε) (he : failed e) :
    development (assertExpr m quiet e he : SourceCode ρ silent failed σ Unit) =
      m >>= fun holds => if holds = true then pure () else Code.halt e := by
  funext s
  refine (Prog.unmarked_bind ((m s).marked true) _).trans ?_
  rw [Prog.unmarked_marked]
  refine congrArg ((m s).bind) (funext fun holds => funext fun s => ?_)
  show Prog.unmarked (if holds = true then _ else _) =
    (if holds = true then pure () else Code.halt e : Code ρ σ ε Unit) s
  split
  · rfl
  · rfl

@[simp] theorem development_assertPure (b : Bool) (e : ε) (he : failed e) :
    development (assertPure b e he : SourceCode ρ silent failed σ Unit) =
      if b = true then pure () else Code.halt e :=
  (development_assertExpr (pure b) (quiet_pure b) e he).trans (pure_bind b _)

end Development

end SourceCode

end Xnd
