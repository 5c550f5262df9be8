import Mathlib.Data.List.Basic
import Mathlib.Algebra.Group.Nat.Defs

/-!
# C strings and the objects they are written into

A string is an object of bytes that ends with its only 0. The functions of `<string.h>`
below give `none` where they would go outside an object; they are those of the system's
library, so that `strlcpy` and `strlcat` with a size that is large enough copy the whole of
their source (`strlcpy_whole`, `strlcat_whole`).

A position in a string is a number, and a pointer into it the string from there on.
-/
namespace Xnd

/-- `size_t`. -/
abbrev SizeT := BitVec 64

/-- A string, in an address space of 47 bits. -/
structure CStr where
  bytes : List UInt8
  nonul : (0 : UInt8) ∉ bytes
  inSpace : bytes.length < 2 ^ 47
  deriving DecidableEq, Repr

/-- An object that a string is written into. -/
structure Buffer where
  bytes : List UInt8
  inSpace : bytes.length ≤ 2 ^ 47
  deriving DecidableEq, Repr

/-- `sizeof` the object. -/
def Buffer.size (o : Buffer) : SizeT := .ofNat 64 o.bytes.length

theorem Buffer.toNat_size (o : Buffer) : o.size.toNat = o.bytes.length := by
  have := o.inSpace
  rw [Buffer.size, BitVec.toNat_ofNat, Nat.mod_eq_of_lt (by omega)]

namespace CStr

/-- The bytes of the object, the terminator among them. -/
def object (s : CStr) : List UInt8 := s.bytes ++ [0]

/-- `s[i]`. -/
def charAt (s : CStr) (i : SizeT) : Option UInt8 := s.object[i.toNat]?

/-- `s + n`, for a position that is in the string or at its end. -/
def drop (s : CStr) (n : Nat) : CStr where
  bytes := s.bytes.drop n
  nonul h := s.nonul (List.mem_of_mem_drop h)
  inSpace := by
    have := s.inSpace
    rw [List.length_drop]
    omega

@[simp] theorem bytes_drop (s : CStr) (n : Nat) : (s.drop n).bytes = s.bytes.drop n := rfl

/-- `strlen(s)`. -/
def strlen (s : CStr) : SizeT := .ofNat 64 s.bytes.length

theorem toNat_strlen (s : CStr) : s.strlen.toNat = s.bytes.length := by
  have := s.inSpace
  rw [strlen, BitVec.toNat_ofNat, Nat.mod_eq_of_lt (by omega)]

theorem charAt_zero (s : CStr) : s.charAt 0 = some (s.bytes.headD 0) := by
  unfold charAt object
  cases s.bytes <;> rfl

/-- The last byte of a string that has one. -/
theorem charAt_last {s : CStr} (h : s.bytes ≠ []) :
    s.charAt (s.strlen - 1) = some (s.bytes.getLast h) := by
  have hlen := s.toNat_strlen
  have hin := s.inSpace
  have hpos := List.length_pos_iff.mpr h
  have hi : (s.strlen - 1).toNat = s.bytes.length - 1 := by bv_omega
  rw [charAt, hi, object, List.getElem?_append_left (by omega), List.getLast_eq_getElem,
    List.getElem?_eq_getElem (by omega)]

/-- The byte before a string is not one of its object. -/
theorem charAt_before {s : CStr} (h : s.bytes = []) : s.charAt (s.strlen - 1) = none := by
  simp [charAt, object, strlen, h]

end CStr

/-! ## Occurrences -/

/-- The position of the last `c` of a list. -/
def lastIndex (c : UInt8) : List UInt8 → Option Nat
  | [] => none
  | b :: bs =>
      match lastIndex c bs with
      | some i => some (i + 1)
      | none => if b = c then some 0 else none

/-- `strrchr(s, c)`, for a `c` that is not 0. -/
def strrchr (s : CStr) (c : UInt8) : Option Nat := lastIndex c s.bytes

theorem lastIndex_eq_none {c : UInt8} {bs : List UInt8} : lastIndex c bs = none ↔ c ∉ bs := by
  induction bs with
  | nil => simp [lastIndex]
  | cons b bs ih =>
      rw [lastIndex, List.mem_cons, not_or, ← ih]
      cases lastIndex c bs with
      | some i => simp
      | none => simpa using ne_comm

/-- A list is split at the last `c`. -/
theorem lastIndex_eq_some {c : UInt8} {bs : List UInt8} {i : Nat} (h : lastIndex c bs = some i) :
    bs = bs.take i ++ c :: bs.drop (i + 1) ∧ c ∉ bs.drop (i + 1) ∧ i < bs.length := by
  induction bs generalizing i with
  | nil => cases h
  | cons b bs ih =>
      rw [lastIndex] at h
      cases hi : lastIndex c bs with
      | some j =>
          rw [hi] at h
          obtain ⟨hsplit, hnot, hlt⟩ := ih hi
          cases h
          exact ⟨congrArg (b :: ·) hsplit, hnot, Nat.succ_lt_succ hlt⟩
      | none =>
          rw [hi] at h
          by_cases hb : b = c
          · simp only [if_pos hb, Option.some.injEq] at h
            subst h
            exact ⟨by simp [hb], by simpa using lastIndex_eq_none.mp hi, Nat.succ_pos _⟩
          · simp [hb] at h

theorem getElem?_of_lastIndex {c : UInt8} {bs : List UInt8} {i : Nat}
    (h : lastIndex c bs = some i) : bs[i]? = some c := by
  obtain ⟨hsplit, -, hlt⟩ := lastIndex_eq_some h
  have htake : (bs.take i).length = i := List.length_take_of_le (Nat.le_of_lt hlt)
  rw [hsplit, List.getElem?_append_right (by omega), htake, Nat.sub_self]
  rfl

/-- The last `c` is where nothing behind it is a `c`. -/
theorem lastIndex_append_cons {c : UInt8} (pre : List UInt8) {suf : List UInt8} (h : c ∉ suf) :
    lastIndex c (pre ++ c :: suf) = some pre.length := by
  induction pre with
  | nil => simp [lastIndex, lastIndex_eq_none.mpr h]
  | cons b pre ih => simp [lastIndex, ih]

/-! ## Objects -/

/-- `bs` is written into an object from `pos` on. -/
def store (o : List UInt8) (pos : Nat) (bs : List UInt8) : Option (List UInt8) :=
  if pos + bs.length ≤ o.length then some (o.take pos ++ bs ++ o.drop (pos + bs.length)) else none

/-- An object holds a string: its bytes, and the terminator behind them. -/
def Holds (o s : List UInt8) : Prop := s ++ [0] <+: o

instance (o s : List UInt8) : Decidable (Holds o s) := inferInstanceAs (Decidable (_ <+: _))

/-- `strnlen(o, max)`. -/
def strnlen (o : List UInt8) (max : Nat) : Option Nat :=
  if max ≤ (o.takeWhile (· ≠ 0)).length then some max
  else if (o.takeWhile (· ≠ 0)).length < o.length then some (o.takeWhile (· ≠ 0)).length
  else none

/-- `strlcpy(dst, src, size)`: the object, and the length of `src`. -/
def strlcpy (dst : List UInt8) (src : CStr) (size : SizeT) : Option (List UInt8 × SizeT) :=
  if size = 0 then some (dst, src.strlen)
  else (store dst 0 (src.bytes.take (size.toNat - 1) ++ [0])).map fun o => (o, src.strlen)

/-- `strlcat(dst, src, size)`: the object. -/
def strlcat (dst : List UInt8) (src : CStr) (size : SizeT) : Option (List UInt8) := do
  let n ← strnlen dst size.toNat
  if n = size.toNat then some dst
  else store dst n (src.bytes.take (size.toNat - n - 1) ++ [0])

/-- `strncat(dst, src, n)`: the object. -/
def strncat (dst : List UInt8) (src : CStr) (n : SizeT) : Option (List UInt8) := do
  let k ← strnlen dst dst.length
  store dst k (src.bytes.take n.toNat ++ [0])

/-- `snprintf(dst, size, …)`, when `text` is what the format comes to. -/
def snprintf (dst : List UInt8) (size : SizeT) (text : List UInt8) : Option (List UInt8) :=
  if size = 0 then some dst else store dst 0 (text.take (size.toNat - 1) ++ [0])

theorem length_store {o o' bs : List UInt8} {pos : Nat} (h : store o pos bs = some o') :
    o'.length = o.length := by
  rw [store] at h
  split at h
  · cases h
    simp only [List.length_append, List.length_take, List.length_drop]
    omega
  · cases h

/-- What is in an object after a store: the bytes in their place, and the rest as before. -/
theorem getElem?_store {o o' bs : List UInt8} {pos : Nat} (h : store o pos bs = some o')
    (i : Nat) : o'[i]? = if pos ≤ i ∧ i < pos + bs.length then bs[i - pos]? else o[i]? := by
  rw [store] at h
  split at h
  · next hfit =>
      cases h
      have htake : (o.take pos).length = pos := List.length_take_of_le (by omega)
      by_cases hlow : i < pos
      · rw [if_neg (by omega), List.append_assoc, List.getElem?_append_left (by omega),
          List.getElem?_take_of_lt hlow]
      · by_cases hhigh : i < pos + bs.length
        · rw [if_pos ⟨by omega, hhigh⟩, List.append_assoc,
            List.getElem?_append_right (by omega), htake,
            List.getElem?_append_left (by omega)]
        · rw [if_neg (by omega), List.getElem?_append_right (by
            rw [List.length_append, htake]; omega), List.length_append, htake,
            List.getElem?_drop]
          congr 1
          omega
  · cases h

theorem store_isSome {o bs : List UInt8} {pos : Nat} :
    (store o pos bs).isSome = true ↔ pos + bs.length ≤ o.length := by
  rw [store]
  split
  · next h => exact iff_of_true rfl h
  · next h => exact iff_of_false Bool.false_ne_true h

theorem store_zero {o bs : List UInt8} (h : bs.length ≤ o.length) :
    store o 0 bs = some (bs ++ o.drop bs.length) := by
  simp [store, h]

/-- A string that is written where a string ends is held behind it. -/
theorem store_end {o s t : List UInt8} (hs : Holds o s) (hlen : s.length + t.length < o.length) :
    ∃ o', store o s.length (t ++ [0]) = some o' ∧ Holds o' (s ++ t) ∧ o'.length = o.length := by
  obtain ⟨rest, rfl⟩ := hs
  have hfit : s.length + (t ++ [0]).length ≤ (s ++ [0] ++ rest).length := by
    simp only [List.length_append, List.length_singleton] at hlen ⊢
    omega
  have h : store (s ++ [0] ++ rest) s.length (t ++ [0]) =
      some (s ++ (t ++ [0]) ++ (s ++ [0] ++ rest).drop (s.length + (t ++ [0]).length)) := by
    rw [store, if_pos hfit]
    simp
  exact ⟨_, h, ⟨_, by rw [List.append_assoc s t, List.append_assoc]⟩, length_store h⟩

theorem Holds.takeWhile {o s : List UInt8} (h : Holds o s) (hs : (0 : UInt8) ∉ s) :
    o.takeWhile (· ≠ 0) = s := by
  obtain ⟨rest, rfl⟩ := h
  have hall : ∀ b ∈ s, decide (b ≠ 0) = true := fun b hb =>
    decide_eq_true fun h0 => hs (h0 ▸ hb)
  rw [List.append_assoc, List.takeWhile_append_of_pos hall]
  simp

theorem Holds.length_lt {o s : List UInt8} (h : Holds o s) : s.length < o.length := by
  have := h.length_le
  rw [List.length_append, List.length_singleton] at this
  omega

theorem Holds.strnlen {o s : List UInt8} {max : Nat} (h : Holds o s) (hs : (0 : UInt8) ∉ s)
    (hmax : s.length < max) : strnlen o max = some s.length := by
  rw [Xnd.strnlen, h.takeWhile hs, if_neg (by omega), if_pos h.length_lt]

/-- A prefix of a string is copied as far as the size goes. -/
theorem strlcpy_take (dst : List UInt8) (src : CStr) {size : SizeT} {n : Nat}
    (hsize : size.toNat = n + 1) (hn : n ≤ src.bytes.length) (hdst : n < dst.length) :
    ∃ o, strlcpy dst src size = some (o, src.strlen) ∧ Holds o (src.bytes.take n) ∧
      o.length = dst.length := by
  have hne : size ≠ 0 := by
    intro h
    rw [h] at hsize
    cases hsize
  have h := store_zero (show (src.bytes.take n ++ [0]).length ≤ dst.length by
    rw [List.length_append, List.length_take, List.length_singleton]
    omega)
  exact ⟨_, by rw [strlcpy, if_neg hne, hsize, Nat.add_sub_cancel, h]; rfl, ⟨_, rfl⟩,
    length_store h⟩

/-- A string is copied whole into an object that it fits in. -/
theorem strlcpy_whole (dst : List UInt8) (src : CStr) {size : SizeT}
    (hsize : src.bytes.length < size.toNat) (hdst : src.bytes.length < dst.length) :
    ∃ o, strlcpy dst src size = some (o, src.strlen) ∧ Holds o src.bytes ∧
      o.length = dst.length := by
  have hne : size ≠ 0 := by
    intro h
    rw [h] at hsize
    cases hsize
  have htake : src.bytes.take (size.toNat - 1) = src.bytes := List.take_of_length_le (by omega)
  have h := store_zero (show (src.bytes ++ [0]).length ≤ dst.length by
    rw [List.length_append, List.length_singleton]
    omega)
  exact ⟨_, by rw [strlcpy, if_neg hne, htake, h]; rfl, ⟨_, rfl⟩, length_store h⟩

/-- A string is put behind the one an object holds, when the size and the object have room
for both. -/
theorem strlcat_whole {dst s : List UInt8} (src : CStr) {size : SizeT} (h : Holds dst s)
    (hs : (0 : UInt8) ∉ s) (hsize : s.length + src.bytes.length < size.toNat)
    (hdst : s.length + src.bytes.length < dst.length) :
    ∃ o, strlcat dst src size = some o ∧ Holds o (s ++ src.bytes) ∧ o.length = dst.length := by
  obtain ⟨o, hstore, ho⟩ := store_end h hdst
  refine ⟨o, ?_, ho⟩
  rw [strlcat, h.strnlen hs (by omega)]
  simp only [Option.bind_eq_bind, Option.bind_some]
  rw [if_neg (by omega), List.take_of_length_le (by omega), hstore]

/-- `strncat` with a count that is large enough. -/
theorem strncat_whole {dst s : List UInt8} (src : CStr) {n : SizeT} (h : Holds dst s)
    (hs : (0 : UInt8) ∉ s) (hn : src.bytes.length ≤ n.toNat)
    (hdst : s.length + src.bytes.length < dst.length) :
    ∃ o, strncat dst src n = some o ∧ Holds o (s ++ src.bytes) ∧ o.length = dst.length := by
  obtain ⟨o, hstore, ho⟩ := store_end h hdst
  refine ⟨o, ?_, ho⟩
  rw [strncat, h.strnlen hs h.length_lt]
  simp only [Option.bind_eq_bind, Option.bind_some]
  rw [List.take_of_length_le hn, hstore]

/-- What is printed is held whole by an object that it fits in. -/
theorem snprintf_whole {dst text : List UInt8} {size : SizeT}
    (hsize : text.length < size.toNat)
    (hdst : text.length < dst.length) :
    ∃ o, snprintf dst size text = some o ∧ Holds o text ∧ o.length = dst.length := by
  have hne : size ≠ 0 := by
    intro h
    rw [h] at hsize
    cases hsize
  have h := store_zero (show (text ++ [0]).length ≤ dst.length by
    rw [List.length_append, List.length_singleton]
    omega)
  exact ⟨_, by rw [snprintf, if_neg hne, List.take_of_length_le (by omega), h], ⟨_, rfl⟩,
    length_store h⟩

end Xnd
