import Mathlib.Data.List.Basic
import Mathlib.Algebra.Order.Ring.Nat
import Mathlib.Tactic.Ring

/-!
# LEB128

Numbers as bytes of seven bits each, the lowest ones first, where every byte but the last
has its high bit set. The decoders are loops over the bytes in registers of 64 bits, and
come to the number that the bytes stand for (`decodeUleb_append`, `decodeSleb_append`);
`none` is a number that goes on past the last byte (`isLeb_or_more`, `ulebLoop_more`).

A shift by 64 or more, which C leaves undefined, gives 0 here.
-/
namespace Xnd.Leb128

/-- Bit `0x80`: another byte follows. -/
def more (b : UInt8) : Bool := b &&& 0x80 != 0

/-- Bit `0x40` of the last byte: the number is negative. -/
def sign (b : UInt8) : Bool := b &&& 0x40 != 0

/-- `*p & 0x7F` as a number of 64 bits. -/
def low (b : UInt8) : BitVec 64 := .ofNat 64 (b &&& 0x7f).toNat

/-- The loop of `decode_uleb128`. -/
def ulebLoop (result : BitVec 64) (shift : Nat) : List UInt8 → Option (BitVec 64 × List UInt8)
  | [] => none
  | b :: bs =>
      if more b = true then ulebLoop (result ||| low b <<< shift) (shift + 7) bs
      else some (result ||| low b <<< shift, bs)

/-- `decode_uleb128`: the value, and what follows it. -/
def decodeUleb (bs : List UInt8) : Option (BitVec 64 × List UInt8) := ulebLoop 0 0 bs

/-- The loop of `decode_sleb128`, and what it does about the sign. -/
def slebLoop (result : BitVec 64) (shift : Nat) : List UInt8 → Option (BitVec 64 × List UInt8)
  | [] => none
  | b :: bs =>
      if more b = true then slebLoop (result ||| low b <<< shift) (shift + 7) bs
      else if shift + 7 < 64 ∧ sign b = true then
        some (result ||| low b <<< shift ||| BitVec.allOnes 64 <<< (shift + 7), bs)
      else some (result ||| low b <<< shift, bs)

/-- `decode_sleb128`. -/
def decodeSleb (bs : List UInt8) : Option (BitVec 64 × List UInt8) := slebLoop 0 0 bs

/-! ## What the bytes stand for -/

/-- The bytes of one number. -/
def IsLeb : List UInt8 → Prop
  | [] => False
  | b :: bs => if more b = true then IsLeb bs else bs = []

instance decidableIsLeb : (bs : List UInt8) → Decidable (IsLeb bs)
  | [] => inferInstanceAs (Decidable False)
  | b :: bs =>
      have := decidableIsLeb bs
      inferInstanceAs (Decidable (if more b = true then IsLeb bs else bs = []))

/-- The number without a sign. -/
def ulebValue : List UInt8 → Nat
  | [] => 0
  | b :: bs => b.toNat % 128 + 128 * ulebValue bs

/-- The number with one: the top bit of the last byte counts as negative. -/
def slebValue (bs : List UInt8) : Int :=
  ulebValue bs - if bs.getLast?.any sign = true then 128 ^ bs.length else 0

theorem low_eq (b : UInt8) : low b = .ofNat 64 (b.toNat % 128) := by
  rw [low, UInt8.toNat_and]
  exact congrArg (BitVec.ofNat 64) (Nat.and_two_pow_sub_one_eq_mod _ 7)

theorem ofNat_shiftLeft (v s : Nat) : BitVec.ofNat 64 v <<< s = .ofNat 64 (2 ^ s * v) := by
  apply BitVec.eq_of_toNat_eq
  rw [BitVec.toNat_shiftLeft, BitVec.toNat_ofNat, BitVec.toNat_ofNat, Nat.shiftLeft_eq,
    Nat.mod_mul_mod, Nat.mul_comm]

/-- Bits that are put behind those that are there add up. -/
theorem or_shiftLeft {r s : Nat} (hr : r < 2 ^ s) (v : Nat) :
    BitVec.ofNat 64 r ||| BitVec.ofNat 64 v <<< s = .ofNat 64 (r + 2 ^ s * v) := by
  rw [ofNat_shiftLeft, ← BitVec.ofNat_or, Nat.or_comm, ← Nat.two_pow_add_eq_or_of_lt hr,
    Nat.add_comm]

/-- Bits of a byte behind those that are there. -/
theorem or_low {r s : Nat} (hr : r < 2 ^ s) (b : UInt8) :
    BitVec.ofNat 64 r ||| low b <<< s = .ofNat 64 (r + 2 ^ s * (b.toNat % 128)) := by
  rw [low_eq, or_shiftLeft hr]

theorem add_lt_two_pow {r s : Nat} (hr : r < 2 ^ s) (b : UInt8) :
    r + 2 ^ s * (b.toNat % 128) < 2 ^ (s + 7) := by
  have hb := Nat.mod_lt b.toNat (show 0 < 128 by decide)
  calc r + 2 ^ s * (b.toNat % 128) < 2 ^ s + 2 ^ s * (b.toNat % 128) := by omega
    _ = 2 ^ s * (b.toNat % 128 + 1) := by ring
    _ ≤ 2 ^ s * 128 := Nat.mul_le_mul_left _ (by omega)
    _ = 2 ^ (s + 7) := by ring

theorem ulebLoop_append {bs : List UInt8} (h : IsLeb bs) (rest : List UInt8) {r s : Nat}
    (hr : r < 2 ^ s) :
    ulebLoop (.ofNat 64 r) s (bs ++ rest) = some (.ofNat 64 (r + 2 ^ s * ulebValue bs), rest) := by
  induction bs generalizing r s with
  | nil => cases h
  | cons b bs ih =>
      rw [List.cons_append, ulebLoop, or_low hr, ulebValue]
      by_cases hb : more b = true
      · rw [if_pos hb, ih (by rwa [IsLeb, if_pos hb] at h) (add_lt_two_pow hr b)]
        congr 3
        ring
      · rw [IsLeb, if_neg hb] at h
        subst h
        rw [if_neg hb, ulebValue]
        rfl

/-- **`decode_uleb128` comes to the number** that the bytes stand for, modulo 2 ^ 64. -/
theorem decodeUleb_append {bs : List UInt8} (h : IsLeb bs) (rest : List UInt8) :
    decodeUleb (bs ++ rest) = some (.ofNat 64 (ulebValue bs), rest) := by
  have hloop := ulebLoop_append h rest (show 0 < 2 ^ 0 by decide)
  rwa [Nat.zero_add, Nat.pow_zero, Nat.one_mul] at hloop

theorem ofNat_eq_ofInt {n : Nat} {z k : Int} (h : (n : Int) = z + k * 2 ^ 64) :
    BitVec.ofNat 64 n = .ofInt 64 z := by
  rw [← BitVec.ofInt_natCast, h]
  apply BitVec.eq_of_toNat_eq
  rw [BitVec.toNat_ofInt, BitVec.toNat_ofInt]
  exact congrArg Int.toNat (Int.add_mul_emod_self_right z k (2 ^ 64))

/-- The sign in the bits above those that are there. -/
theorem or_allOnes {r s : Nat} (hr : r < 2 ^ s) :
    BitVec.ofNat 64 r ||| BitVec.allOnes 64 <<< s = .ofInt 64 (r - 2 ^ s) := by
  have hones : BitVec.allOnes 64 = .ofNat 64 (2 ^ 64 - 1) := rfl
  rw [hones, or_shiftLeft hr]
  apply ofNat_eq_ofInt (k := 2 ^ s)
  push_cast
  ring

/-- Above bit 63 the sign is that of the last byte already. -/
theorem ofNat_sub_two_pow {r s : Nat} (hs : 64 ≤ s) :
    BitVec.ofNat 64 r = .ofInt 64 (r - 2 ^ s) := by
  obtain ⟨d, rfl⟩ := Nat.exists_eq_add_of_le hs
  apply ofNat_eq_ofInt (k := 2 ^ d)
  ring

theorem slebValue_cons {b : UInt8} {bs : List UInt8} (h : bs ≠ []) :
    slebValue (b :: bs) = (b.toNat % 128 : Nat) + 128 * slebValue bs := by
  have hlast : (b :: bs).getLast? = bs.getLast? := by
    obtain ⟨c, cs, rfl⟩ := List.exists_cons_of_ne_nil h
    exact List.getLast?_cons_cons
  rw [slebValue, slebValue, hlast, ulebValue, List.length_cons]
  split
  · push_cast
    ring
  · push_cast
    ring

theorem slebLoop_append {bs : List UInt8} (h : IsLeb bs) (rest : List UInt8) {r s : Nat}
    (hr : r < 2 ^ s) :
    slebLoop (.ofNat 64 r) s (bs ++ rest) =
      some (.ofInt 64 (r + 2 ^ s * slebValue bs), rest) := by
  induction bs generalizing r s with
  | nil => cases h
  | cons b bs ih =>
      rw [List.cons_append, slebLoop, or_low hr]
      by_cases hb : more b = true
      · rw [IsLeb, if_pos hb] at h
        have hne : bs ≠ [] := by
          rintro rfl
          exact h
        rw [if_pos hb, ih h (add_lt_two_pow hr b), slebValue_cons hne]
        congr 3
        push_cast
        ring
      · rw [IsLeb, if_neg hb] at h
        subst h
        rw [if_neg hb, List.nil_append]
        have hvalue : slebValue [b] = (b.toNat % 128 : Nat) - if sign b = true then 128 else 0 :=
          rfl
        have hsplit := add_lt_two_pow hr b
        by_cases hsign : sign b = true
        · rw [hvalue, if_pos hsign]
          have hsum : (r : Int) + 2 ^ s * ((b.toNat % 128 : Nat) - 128) =
              (r + 2 ^ s * (b.toNat % 128) : Nat) - 2 ^ (s + 7) := by
            push_cast
            ring
          rw [hsum]
          by_cases hs : s + 7 < 64
          · rw [if_pos ⟨hs, hsign⟩, or_allOnes hsplit]
          · rw [if_neg fun h => hs h.1, ← ofNat_sub_two_pow (Nat.le_of_not_lt hs)]
        · rw [if_neg fun h => hsign h.2, hvalue, if_neg hsign, sub_zero, ← BitVec.ofInt_natCast]
          push_cast
          rfl

/-- **`decode_sleb128` comes to the number** that the bytes stand for, modulo 2 ^ 64. -/
theorem decodeSleb_append {bs : List UInt8} (h : IsLeb bs) (rest : List UInt8) :
    decodeSleb (bs ++ rest) = some (.ofInt 64 (slebValue bs), rest) := by
  have hloop := slebLoop_append h rest (show 0 < 2 ^ 0 by decide)
  rw [pow_zero, one_mul, Nat.cast_zero, zero_add] at hloop
  exact hloop

/-- Bytes start with those of a number, or all of them say that another one follows. -/
theorem isLeb_or_more (bs : List UInt8) :
    (∃ l rest, bs = l ++ rest ∧ IsLeb l) ∨ ∀ b ∈ bs, more b = true := by
  induction bs with
  | nil => exact .inr nofun
  | cons b bs ih =>
      by_cases hb : more b = true
      · rcases ih with ⟨l, rest, rfl, hl⟩ | hall
        · exact .inl ⟨b :: l, rest, rfl, by rwa [IsLeb, if_pos hb]⟩
        · exact .inr (List.forall_mem_cons.mpr ⟨hb, hall⟩)
      · exact .inl ⟨[b], bs, rfl, by rw [IsLeb, if_neg hb]⟩

theorem ulebLoop_more {bs : List UInt8} (h : ∀ b ∈ bs, more b = true) (r : BitVec 64) (s : Nat) :
    ulebLoop r s bs = none := by
  induction bs generalizing r s with
  | nil => rfl
  | cons b bs ih =>
      rw [ulebLoop, if_pos (h b List.mem_cons_self)]
      exact ih (fun c hc => h c (List.mem_cons_of_mem _ hc)) _ _

theorem slebLoop_more {bs : List UInt8} (h : ∀ b ∈ bs, more b = true) (r : BitVec 64) (s : Nat) :
    slebLoop r s bs = none := by
  induction bs generalizing r s with
  | nil => rfl
  | cons b bs ih =>
      rw [slebLoop, if_pos (h b List.mem_cons_self)]
      exact ih (fun c hc => h c (List.mem_cons_of_mem _ hc)) _ _

/-- What is left is shorter. -/
theorem length_ulebLoop {bs rest : List UInt8} {r v : BitVec 64} {s : Nat}
    (h : ulebLoop r s bs = some (v, rest)) : rest.length < bs.length := by
  induction bs generalizing r s with
  | nil => cases h
  | cons b bs ih =>
      rw [ulebLoop] at h
      split at h
      · exact Nat.lt_succ_of_lt (ih h)
      · cases h
        exact Nat.lt_succ_self _

theorem length_slebLoop {bs rest : List UInt8} {r v : BitVec 64} {s : Nat}
    (h : slebLoop r s bs = some (v, rest)) : rest.length < bs.length := by
  induction bs generalizing r s with
  | nil => cases h
  | cons b bs ih =>
      rw [slebLoop] at h
      split at h
      · exact Nat.lt_succ_of_lt (ih h)
      · split at h
        · cases h
          exact Nat.lt_succ_self _
        · cases h
          exact Nat.lt_succ_self _

end Xnd.Leb128
