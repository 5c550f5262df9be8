import Mathlib.Data.List.Basic
import Mathlib.Algebra.Order.Ring.Nat
import Mathlib.Tactic.Ring

/-!
# Bytes and files

Numbers as little-endian bytes, records as fields of fixed widths, and a file with its
offset: `write` overwrites and extends, `read` takes what is there, `seek` moves.

**A record is read back** as it was written (`decodeFields_encodeFields`), and what a
read takes is what the rest of the file begins with (`File.read_of_rest`).
-/
namespace Xnd

/-- The `n` low bytes of a number, the lowest one first. -/
def leBytes : Nat → Nat → List UInt8
  | 0, _ => []
  | n + 1, v => .ofNat v :: leBytes n (v / 256)

/-- The number that bytes stand for. -/
def ofLeBytes : List UInt8 → Nat
  | [] => 0
  | b :: bs => b.toNat + 256 * ofLeBytes bs

@[simp] theorem length_leBytes (n v : Nat) : (leBytes n v).length = n := by
  induction n generalizing v with
  | zero => rfl
  | succ n ih => rw [leBytes, List.length_cons, ih]

theorem ofLeBytes_leBytes (n v : Nat) : ofLeBytes (leBytes n v) = v % 256 ^ n := by
  induction n generalizing v with
  | zero => rw [leBytes, ofLeBytes, Nat.pow_zero, Nat.mod_one]
  | succ n ih =>
      rw [leBytes, ofLeBytes, ih, pow_succ', Nat.mod_mul]
      rfl

theorem ofLeBytes_lt (bs : List UInt8) : ofLeBytes bs < 256 ^ bs.length := by
  induction bs with
  | nil => exact Nat.one_pos
  | cons b bs ih =>
      have hb := b.toNat_lt
      rw [ofLeBytes, List.length_cons, pow_succ']
      omega

/-- Fields, each with its width and its value. -/
def encodeFields (fields : List (Nat × Nat)) : List UInt8 :=
  fields.flatMap fun f => leBytes f.1 f.2

/-- The values of fields, by their widths. -/
def decodeFields : List Nat → List UInt8 → List Nat
  | [], _ => []
  | w :: ws, bs => ofLeBytes (bs.take w) :: decodeFields ws (bs.drop w)

theorem length_encodeFields (fields : List (Nat × Nat)) :
    (encodeFields fields).length = (fields.map Prod.fst).sum := by
  induction fields with
  | nil => rfl
  | cons f fields ih =>
      show (leBytes f.1 f.2 ++ encodeFields fields).length = _
      rw [List.length_append, length_leBytes, ih, List.map_cons, List.sum_cons]

/-- **A record is read back.** -/
theorem decodeFields_encodeFields (fields : List (Nat × Nat)) :
    decodeFields (fields.map Prod.fst) (encodeFields fields) =
      fields.map fun f => f.2 % 256 ^ f.1 := by
  induction fields with
  | nil => rfl
  | cons f fields ih =>
      have happend : encodeFields (f :: fields) = leBytes f.1 f.2 ++ encodeFields fields := rfl
      have htake : (encodeFields (f :: fields)).take f.1 = leBytes f.1 f.2 := by
        rw [happend, List.take_left' (length_leBytes f.1 f.2)]
      have hdrop : (encodeFields (f :: fields)).drop f.1 = encodeFields fields := by
        rw [happend, List.drop_left' (length_leBytes f.1 f.2)]
      rw [List.map_cons, decodeFields, htake, hdrop, ofLeBytes_leBytes, ih, List.map_cons]

/-- A file, and the offset of the descriptor. -/
structure File where
  data : List UInt8
  pos : Nat
  deriving DecidableEq, Repr

namespace File
variable (f : File)

/-- Overwrites and extends; a hole before the offset is filled with zeros. -/
def write (bs : List UInt8) : File where
  data := f.data.take f.pos ++ List.replicate (f.pos - f.data.length) 0 ++ bs ++
    f.data.drop (f.pos + bs.length)
  pos := f.pos + bs.length

def seek (pos : Nat) : File := { f with pos }

/-- What comes after the offset. -/
def rest : List UInt8 := f.data.drop f.pos

/-- Takes at most `n` bytes. -/
def read (n : Nat) : List UInt8 × File :=
  (f.rest.take n, f.seek (f.pos + min n f.rest.length))

@[simp] theorem pos_write (bs : List UInt8) : (f.write bs).pos = f.pos + bs.length := rfl

@[simp] theorem seek_pos : f.seek f.pos = f := rfl

@[simp] theorem seek_seek (a b : Nat) : (f.seek a).seek b = f.seek b := rfl

@[simp] theorem data_seek (pos : Nat) : (f.seek pos).data = f.data := rfl

@[simp] theorem pos_seek (pos : Nat) : (f.seek pos).pos = pos := rfl

@[simp] theorem write_nil (h : f.pos ≤ f.data.length) : f.write [] = f := by
  cases f with
  | mk data pos =>
      have : pos - data.length = 0 := Nat.sub_eq_zero_of_le h
      simp [write, this]

/-- Goes on at the end. -/
def append (bs : List UInt8) : File := ⟨f.data ++ bs, f.data.length + bs.length⟩

@[simp] theorem data_append (bs : List UInt8) : (f.append bs).data = f.data ++ bs := rfl

@[simp] theorem append_append (bs cs : List UInt8) :
    (f.append bs).append cs = f.append (bs ++ cs) := by
  simp [append, Nat.add_assoc]

/-- The offset is at the end. -/
def AtEnd : Prop := f.pos = f.data.length

variable {f}

theorem atEnd_append (f : File) (bs : List UInt8) : (f.append bs).AtEnd :=
  List.length_append.symm

/-- A write at the end appends. -/
theorem AtEnd.write (h : f.AtEnd) (bs : List UInt8) : f.write bs = f.append bs := by
  have hpos : f.pos = f.data.length := h
  have hdrop : f.data.drop (f.pos + bs.length) = [] := List.drop_eq_nil_of_le (by omega)
  simp [File.write, append, hpos]

theorem AtEnd.pos_append (h : f.AtEnd) (bs : List UInt8) :
    (f.append bs).pos = f.pos + bs.length := by
  rw [show f.pos = _ from h]
  rfl

@[simp] theorem AtEnd.append_nil (h : f.AtEnd) : f.append [] = f := by
  have hpos : f.pos = f.data.length := h
  cases f
  simp_all [append]

/-- A write inside the file replaces bytes. -/
theorem data_write_of_eq {pre old post bs : List UInt8} (hdata : f.data = pre ++ old ++ post)
    (hpos : f.pos = pre.length) (hlen : bs.length = old.length) :
    (f.write bs).data = pre ++ bs ++ post := by
  have hzero : f.pos - f.data.length = 0 := by
    rw [hdata, hpos]
    simp only [List.length_append]
    omega
  have htake : f.data.take f.pos = pre := by
    rw [hdata, List.append_assoc, List.take_left' hpos.symm]
  have hdrop : f.data.drop (f.pos + bs.length) = post := by
    rw [hdata, List.drop_left']
    rw [List.length_append, hpos, hlen]
  simp [File.write, hzero, htake, hdrop]

/-- A record that is written once more, with the offset back at the end. -/
theorem AtEnd.rewrite (h : f.AtEnd) {old new : List UInt8} (rest : List UInt8)
    (hlen : new.length = old.length) :
    (((f.append (old ++ rest)).seek f.pos).write new).seek (f.append (old ++ rest)).pos =
      f.append (new ++ rest) := by
  have hdata : (((f.append (old ++ rest)).seek f.pos).write new).data = f.data ++ new ++ rest :=
    data_write_of_eq (List.append_assoc _ _ _).symm h hlen
  have hpos : (f.append (old ++ rest)).pos = (f.append (new ++ rest)).pos := by
    simp [append, hlen]
  rw [hpos, seek, hdata, List.append_assoc]
  rfl

/-- A read takes what the rest begins with. -/
theorem read_of_rest {bs rest : List UInt8} {n : Nat} (hrest : f.rest = bs ++ rest)
    (hn : bs.length = n) : f.read n = (bs, f.seek (f.pos + n)) := by
  have htake : f.rest.take n = bs := by rw [hrest, List.take_left' hn]
  have hlen : min n f.rest.length = n := by
    rw [hrest, List.length_append]
    omega
  rw [read, htake, hlen]

/-- What is left after such a read. -/
theorem rest_seek {bs rest : List UInt8} {n : Nat} (hrest : f.rest = bs ++ rest)
    (hn : bs.length = n) : (f.seek (f.pos + n)).rest = rest := by
  show f.data.drop (f.pos + n) = rest
  rw [← List.drop_drop, show f.data.drop f.pos = _ from hrest, List.drop_left' hn]

end File

end Xnd
