import Mathlib.Algebra.Order.Ring.Int
import Xnd.Lib.Code
import Xnd.Lib.Leb128

/-!
# The encoders of `leb128.h`

`encode_uleb128` and `encode_sleb128` take seven bits of a 64-bit word at a time, and stop
when the rest of the word is what the last byte stands for by itself: 0, or the sign of the
byte.  With the decoders they are a code of at most 10 bytes (`isCode_leb128`).

An `s64` is the word with its bits, and the number of the word is `BitVec.toInt` of it.
-/
namespace Xnd.Leb128

/-- `byte = value & 0x7F`. -/
def group (value : BitVec 64) : UInt8 := .ofNat (value &&& 0x7f).toNat

theorem toNat_and_group (value : BitVec 64) : (value &&& 0x7f).toNat = value.toNat % 128 := by
  rw [BitVec.toNat_and]
  exact Nat.and_two_pow_sub_one_eq_mod _ 7

theorem group_eq (value : BitVec 64) : group value = .ofNat (value.toNat % 128) := by
  rw [group, toNat_and_group]

/-- What the bits of a byte are, for each of the groups. -/
theorem ofNat_group : ∀ n < 128,
    more (.ofNat n) = false ∧ more (.ofNat n ||| 0x80) = true ∧
      (UInt8.ofNat n).toNat % 128 = n ∧ (UInt8.ofNat n ||| 0x80).toNat % 128 = n := by
  decide

theorem sign_ofNat : ∀ n < 256, sign (.ofNat n) = true ↔ 64 ≤ n % 128 := by
  decide +kernel

/-- The sign of a byte is the highest of the bits that count. -/
theorem sign_iff (b : UInt8) : sign b = true ↔ 64 ≤ b.toNat % 128 := by
  have hb := sign_ofNat b.toNat b.toNat_lt
  rwa [UInt8.ofNat_toNat] at hb

theorem more_group (value : BitVec 64) : more (group value) = false := by
  rw [group_eq]
  exact (ofNat_group _ (Nat.mod_lt _ (by decide))).1

theorem more_group_or (value : BitVec 64) : more (group value ||| 0x80) = true := by
  rw [group_eq]
  exact (ofNat_group _ (Nat.mod_lt _ (by decide))).2.1

theorem toNat_group (value : BitVec 64) : (group value).toNat % 128 = value.toNat % 128 := by
  rw [group_eq]
  exact (ofNat_group _ (Nat.mod_lt _ (by decide))).2.2.1

theorem toNat_group_or (value : BitVec 64) :
    (group value ||| 0x80).toNat % 128 = value.toNat % 128 := by
  rw [group_eq]
  exact (ofNat_group _ (Nat.mod_lt _ (by decide))).2.2.2

theorem sign_group (value : BitVec 64) : sign (group value) = true ↔ 64 ≤ value.toNat % 128 := by
  rw [sign_iff, toNat_group]

/-! ## `encode_uleb128` -/

theorem toNat_shift (value : BitVec 64) : (value >>> 7).toNat = value.toNat / 128 := by
  rw [BitVec.toNat_ushiftRight, Nat.shiftRight_eq_div_pow]

theorem shift_eq_zero {value : BitVec 64} : value >>> 7 = 0 ↔ value.toNat < 128 := by
  have hzero : (0 : BitVec 64).toNat = 0 := rfl
  rw [← BitVec.toNat_inj, toNat_shift, hzero]
  omega

/-- `encode_uleb128`. -/
def encodeUleb (value : BitVec 64) : List UInt8 :=
  if value >>> 7 ≠ 0 then (group value ||| 0x80) :: encodeUleb (value >>> 7) else [group value]
termination_by value.toNat
decreasing_by
  rename_i h
  rw [ne_eq, shift_eq_zero] at h
  rw [toNat_shift]
  omega

/-- The bytes of `encode_uleb128` are those of one number, the one that was given. -/
theorem encodeUleb_spec (value : BitVec 64) :
    IsLeb (encodeUleb value) ∧ ulebValue (encodeUleb value) = value.toNat := by
  induction value using encodeUleb.induct with
  | case1 value h ih =>
      obtain ⟨hleb, hvalue⟩ := ih
      rw [encodeUleb, if_pos h]
      constructor
      · rwa [IsLeb, if_pos (more_group_or value)]
      · rw [ulebValue, hvalue, toNat_group_or, toNat_shift]
        omega
  | case2 value h =>
      rw [encodeUleb, if_neg h]
      constructor
      · rw [IsLeb, if_neg (by rw [more_group]; decide)]
      · rw [ulebValue, ulebValue, toNat_group]
        rw [ne_eq, not_not, shift_eq_zero] at h
        omega

theorem decodeUleb_encodeUleb : ReadsBack encodeUleb decodeUleb := by
  intro value rest
  obtain ⟨hleb, hvalue⟩ := encodeUleb_spec value
  rw [decodeUleb_append hleb rest, hvalue, BitVec.ofNat_toNat, BitVec.setWidth_eq]

/-- A number of `7 * (n + 1)` bits takes at most `n + 1` bytes. -/
theorem length_encodeUleb {n : Nat} {value : BitVec 64} (h : value.toNat < 128 ^ (n + 1)) :
    (encodeUleb value).length ≤ n + 1 := by
  induction n generalizing value with
  | zero =>
      rw [encodeUleb, if_neg (by rw [ne_eq, not_not, shift_eq_zero]; omega)]
      rfl
  | succ n ih =>
      rw [encodeUleb]
      split
      · have hrest : (value >>> 7).toNat < 128 ^ (n + 1) := by
          rw [toNat_shift, Nat.div_lt_iff_lt_mul (by decide), ← Nat.pow_succ]
          exact h
        exact Nat.succ_le_succ (ih hrest)
      · exact Nat.succ_le_succ (Nat.zero_le _)

theorem ulebValue_lt (bs : List UInt8) : ulebValue bs < 128 ^ bs.length := by
  induction bs with
  | nil => decide
  | cons b bs ih =>
      rw [ulebValue, List.length_cons, Nat.pow_succ]
      have hb := Nat.mod_lt b.toNat (show 0 < 128 by decide)
      omega

/-- What is decoded are the bytes of one number, and they are all that is taken. -/
theorem eq_append_of_decodeUleb {bs rest : List UInt8} {v : BitVec 64}
    (h : decodeUleb bs = some (v, rest)) :
    ∃ l, bs = l ++ rest ∧ IsLeb l ∧ v = .ofNat 64 (ulebValue l) := by
  rcases isLeb_or_more bs with ⟨l, rest', rfl, hl⟩ | hmore
  · rw [decodeUleb_append hl rest'] at h
    obtain ⟨rfl, rfl⟩ := Prod.mk.inj (Option.some.inj h)
    exact ⟨l, rfl, hl, rfl⟩
  · rw [decodeUleb, ulebLoop_more hmore] at h
    cases h

theorem IsLeb.exists_length {l : List UInt8} (h : IsLeb l) : ∃ n, l.length = n + 1 := by
  cases l with
  | nil => cases h
  | cons b bs => exact ⟨bs.length, rfl⟩

theorem shortest_encodeUleb : Shortest encodeUleb decodeUleb := by
  intro value bs rest h
  obtain ⟨l, rfl, hl, rfl⟩ := eq_append_of_decodeUleb h
  obtain ⟨n, hn⟩ := hl.exists_length
  have hlt : (BitVec.ofNat 64 (ulebValue l)).toNat < 128 ^ (n + 1) := by
    rw [BitVec.toNat_ofNat, ← hn]
    exact Nat.lt_of_le_of_lt (Nat.mod_le _ _) (ulebValue_lt l)
  have hlen := length_encodeUleb hlt
  rw [List.length_append]
  omega

/-! ## `encode_sleb128` -/

theorem toInt_shift (value : BitVec 64) : (value.sshiftRight 7).toInt = value.toInt / 128 := by
  rw [BitVec.toInt_sshiftRight, Int.shiftRight_eq_div_pow]
  rfl

theorem toInt_emod (value : BitVec 64) : value.toInt % 128 = (value.toNat % 128 : Nat) := by
  rw [BitVec.toInt_eq_toNat_cond]
  split
  · omega
  · omega

/-- `(byte & 0x40) ? -1 : 0`. -/
def signWord (byte : UInt8) : BitVec 64 := if sign byte = true then -1 else 0

/-- The loop is over when the word is what the six bits and the sign of a byte can say. -/
theorem shift_eq_signWord {value : BitVec 64} :
    value.sshiftRight 7 = signWord (group value) ↔ -64 ≤ value.toInt ∧ value.toInt < 64 := by
  have hone : (-1 : BitVec 64).toInt = -1 := by decide
  have hzero : (0 : BitVec 64).toInt = 0 := by decide
  have hmod := toInt_emod value
  rw [← BitVec.toInt_inj, toInt_shift, signWord]
  by_cases hsign : sign (group value) = true
  · rw [if_pos hsign, hone]
    rw [sign_group] at hsign
    omega
  · rw [if_neg hsign, hzero]
    rw [sign_group] at hsign
    omega

/-- `encode_sleb128`. -/
def encodeSleb (value : BitVec 64) : List UInt8 :=
  if value.sshiftRight 7 ≠ signWord (group value) then
    (group value ||| 0x80) :: encodeSleb (value.sshiftRight 7)
  else [group value]
termination_by value.toInt.natAbs
decreasing_by
  rename_i h
  rw [ne_eq, shift_eq_signWord] at h
  rw [toInt_shift]
  omega

theorem slebValue_singleton (b : UInt8) :
    slebValue [b] = (b.toNat % 128 : Nat) - if sign b = true then 128 else 0 := rfl

theorem encodeSleb_spec (value : BitVec 64) :
    IsLeb (encodeSleb value) ∧ slebValue (encodeSleb value) = value.toInt := by
  have hmod := toInt_emod value
  induction value using encodeSleb.induct with
  | case1 value h ih =>
      obtain ⟨hleb, hvalue⟩ := ih (toInt_emod _)
      have hne : encodeSleb (value.sshiftRight 7) ≠ [] := by
        intro hnil
        rw [hnil] at hleb
        exact hleb
      rw [encodeSleb, if_pos h]
      constructor
      · rwa [IsLeb, if_pos (more_group_or value)]
      · rw [slebValue_cons hne, hvalue, toNat_group_or, toInt_shift]
        omega
  | case2 value h =>
      rw [encodeSleb, if_neg h]
      rw [ne_eq, not_not, shift_eq_signWord] at h
      constructor
      · rw [IsLeb, if_neg (by rw [more_group]; decide)]
      · rw [slebValue_singleton, toNat_group]
        by_cases hsign : sign (group value) = true
        · rw [if_pos hsign]
          rw [sign_group] at hsign
          omega
        · rw [if_neg hsign]
          rw [sign_group] at hsign
          omega

theorem decodeSleb_encodeSleb : ReadsBack encodeSleb decodeSleb := by
  intro value rest
  obtain ⟨hleb, hvalue⟩ := encodeSleb_spec value
  rw [decodeSleb_append hleb rest, hvalue, BitVec.ofInt_toInt]

/-- `z` is a number of `7 * (n + 1)` bits, of which one is the sign. -/
def Fits (n : Nat) (z : Int) : Prop := -(64 * 128 ^ n) ≤ z ∧ z < 64 * 128 ^ n

theorem length_encodeSleb {n : Nat} {value : BitVec 64} (h : Fits n value.toInt) :
    (encodeSleb value).length ≤ n + 1 := by
  induction n generalizing value with
  | zero =>
      have hlast : -64 ≤ value.toInt ∧ value.toInt < 64 := h
      rw [encodeSleb, if_neg (not_not.mpr (shift_eq_signWord.mpr hlast))]
      rfl
  | succ n ih =>
      rw [encodeSleb]
      split
      · have hrest : Fits n (value.sshiftRight 7).toInt := by
          rw [Fits, pow_succ] at h
          rw [Fits, toInt_shift]
          omega
        exact Nat.succ_le_succ (ih hrest)
      · exact Nat.succ_le_succ (Nat.zero_le _)

theorem fits_slebValue {n : Nat} {l : List UInt8} (hn : l.length = n + 1) :
    Fits n (slebValue l) := by
  induction n generalizing l with
  | zero =>
      obtain ⟨b, rfl⟩ := List.length_eq_one_iff.mp hn
      have hb := Nat.mod_lt b.toNat (show 0 < 128 by decide)
      rw [slebValue_singleton, Fits]
      by_cases hsign : sign b = true
      · rw [if_pos hsign]
        rw [sign_iff] at hsign
        omega
      · rw [if_neg hsign]
        rw [sign_iff] at hsign
        omega
  | succ n ih =>
      obtain ⟨b, bs, rfl⟩ := List.exists_cons_of_length_eq_add_one hn
      have hne : bs ≠ [] := by
        rintro rfl
        cases hn
      have hb := Nat.mod_lt b.toNat (show 0 < 128 by decide)
      have hrest := ih (Nat.succ.inj hn)
      rw [slebValue_cons hne, Fits, pow_succ]
      rw [Fits] at hrest
      omega

/-- What is left of a number in a word is no longer than the number. -/
theorem fits_ofInt {n : Nat} {z : Int} (h : Fits n z) : Fits n (BitVec.ofInt 64 z).toInt := by
  rw [BitVec.toInt_ofInt]
  rcases Nat.lt_or_ge n 9 with hn | hn
  · have hle : (128 : Int) ^ n ≤ 128 ^ 8 := pow_le_pow_right₀ (by decide) (Nat.le_of_lt_succ hn)
    obtain ⟨hlow, hhigh⟩ := h
    rw [Int.bmod_eq_of_le (by omega) (by omega)]
    exact ⟨hlow, hhigh⟩
  · have hle : (128 : Int) ^ 9 ≤ 128 ^ n := pow_le_pow_right₀ (by decide) hn
    have hlow := Int.le_bmod (x := z) (m := 2 ^ 64) (by decide)
    have hhigh := Int.bmod_lt (x := z) (m := 2 ^ 64) (by decide)
    rw [Fits]
    omega

theorem eq_append_of_decodeSleb {bs rest : List UInt8} {v : BitVec 64}
    (h : decodeSleb bs = some (v, rest)) :
    ∃ l, bs = l ++ rest ∧ IsLeb l ∧ v = .ofInt 64 (slebValue l) := by
  rcases isLeb_or_more bs with ⟨l, rest', rfl, hl⟩ | hmore
  · rw [decodeSleb_append hl rest'] at h
    obtain ⟨rfl, rfl⟩ := Prod.mk.inj (Option.some.inj h)
    exact ⟨l, rfl, hl, rfl⟩
  · rw [decodeSleb, slebLoop_more hmore] at h
    cases h

theorem shortest_encodeSleb : Shortest encodeSleb decodeSleb := by
  intro value bs rest h
  obtain ⟨l, rfl, hl, rfl⟩ := eq_append_of_decodeSleb h
  obtain ⟨n, hn⟩ := hl.exists_length
  have hlen := length_encodeSleb (fits_ofInt (fits_slebValue hn))
  rw [List.length_append]
  omega

/-- **The codes of `leb128.h`**, of the unsigned and of the signed words. -/
theorem isCode_leb128 : IsCode 10 encodeUleb decodeUleb ∧ IsCode 10 encodeSleb decodeSleb := by
  constructor
  · refine IsCode.of decodeUleb_encodeUleb (fun value => ?_) shortest_encodeUleb
    have hlt := value.isLt
    exact length_encodeUleb (by omega)
  · refine IsCode.of decodeSleb_encodeSleb (fun value => ?_) shortest_encodeSleb
    have hlow := value.le_toInt
    have hhigh := value.toInt_lt
    exact length_encodeSleb ⟨by omega, by omega⟩

end Xnd.Leb128
