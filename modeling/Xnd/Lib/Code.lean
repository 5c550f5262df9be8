import Mathlib.Data.List.Infix

/-!
# Codes

An encoder writes a value as a list of symbols; a decoder reads one value off the front of
a list, and leaves the rest.  `IsCode` is what one may ask of the two: what is written is
read back whatever follows it, no code is longer than a bound, none is the front of another
one, no two values have the same, and none can be replaced by a shorter one.

The parts about two codes come from the first one (`IsCode.of`).
-/
namespace Xnd

variable {α β : Type}

/-- The decoder reads back what the encoder writes, and stops behind it. -/
def ReadsBack (encode : α → List β) (decode : List β → Option (α × List β)) : Prop :=
  ∀ a rest, decode (encode a ++ rest) = some (a, rest)

/-- No value is read off fewer symbols than its code has. -/
def Shortest (encode : α → List β) (decode : List β → Option (α × List β)) : Prop :=
  ∀ a bs rest, decode bs = some (a, rest) → (encode a).length + rest.length ≤ bs.length

/-- **A code** of at most `n` symbols. -/
structure IsCode (n : Nat) (encode : α → List β) (decode : List β → Option (α × List β)) :
    Prop where
  reads_back : ReadsBack encode decode
  length_le : ∀ a, (encode a).length ≤ n
  prefix_free : ∀ a b, encode a <+: encode b → encode a = encode b
  injective : Function.Injective encode
  shortest : Shortest encode decode

variable {n : Nat} {encode : α → List β} {decode : List β → Option (α × List β)}

/-- The decoder cannot tell the code of `a` from a front of the code of `b`. -/
theorem ReadsBack.eq_of_append (h : ReadsBack encode decode) {a b : α} {rest : List β}
    (hab : encode a ++ rest = encode b) : a = b ∧ rest = [] := by
  have hb := h b []
  rw [List.append_nil, ← hab, h a rest] at hb
  exact Prod.mk.inj (Option.some.inj hb)

theorem ReadsBack.injective (h : ReadsBack encode decode) : Function.Injective encode :=
  fun a _ hab => (h.eq_of_append ((List.append_nil (encode a)).trans hab)).1

theorem ReadsBack.prefix_free (h : ReadsBack encode decode) {a b : α}
    (hab : encode a <+: encode b) : encode a = encode b := by
  obtain ⟨rest, hrest⟩ := hab
  exact congrArg encode (h.eq_of_append hrest).1

/-- What is read back, and not too long, and never longer than it has to be, is a code. -/
theorem IsCode.of (h : ReadsBack encode decode) (hle : ∀ a, (encode a).length ≤ n)
    (hshort : Shortest encode decode) : IsCode n encode decode where
  reads_back := h
  length_le := hle
  prefix_free _ _ := h.prefix_free
  injective := h.injective
  shortest := hshort

end Xnd
