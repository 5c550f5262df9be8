import Xnd.Lib.Transfer

/-!
# `readall` and `writeall`

The loops of `io.c` and those of `syscall.h`, which make the system calls themselves.  A read
loop goes on while `ret > 0`, a write loop while `ret != -1`: the end of a file is a result
of `read` only, and a `write` that takes nothing is made again.

* all four transfer the front of what was asked for; the write loops do not return when from
  some call on nothing is taken (`all_transfer`);
* a write loop gets past a result at which a read loop ends (`not_transfers_zero`).
-/
namespace Xnd.Io
open Transfer

/-! ## The calls -/

namespace Svc
variable {n : BitVec 64}

/-- `x0` and `x17` after the `svc` of `sys_read` and `sys_write`: the carry flag says that `x0`
is an error number. -/
def registers : Result n → BitVec 64 × BitVec 64
  | .count k .. => (.ofNat 64 k, 0)
  | .eof => (0, 0)
  | .error errno => (errno, 1)

/-- What `sys_read` and `sys_write` return. -/
def ret (r : Result n) : BitVec 64 := if (registers r).2 ≠ 0 then -1 else (registers r).1

/-- They return what `read` and `write` do. -/
theorem ret_eq : @ret n = @Result.ret n := by
  funext r
  cases r with
  | count k pos le fits => rfl
  | eof => rfl
  | error errno => rfl

end Svc

/-- The memory from `buf` on, and how many bytes have come out of the descriptor. -/
@[ext] structure Reading where
  buf : Nat → UInt8
  taken : Nat

/-- `read`: the next `k` bytes that come out of the descriptor are put into the memory. -/
def Reading.read (input : Nat → UInt8) (d : Reading) (off k : Nat) : Reading where
  buf a := if off ≤ a ∧ a < off + k then input (d.taken + (a - off)) else d.buf a
  taken := d.taken + k

theorem Reading.buf_read (input : Nat → UInt8) (off k : Nat) (d : Reading) (a : Nat) :
    (d.read input off k).buf a =
      if off ≤ a ∧ a < off + k then input (d.taken + (a - off)) else d.buf a := rfl

@[simp] theorem Reading.taken_read (input : Nat → UInt8) (off k : Nat) (d : Reading) :
    (d.read input off k).taken = d.taken + k := rfl

/-- The medium of `read`. -/
def reading (input : Nat → UInt8) : Medium Reading where
  move off k d := d.read input off k
  move_zero off d := by
    refine Reading.ext (funext fun a => ?_) rfl
    rw [Reading.buf_read, if_neg (by omega)]
  move_add off j k d := by
    refine Reading.ext (funext fun a => ?_) (Nat.add_assoc ..)
    rw [Reading.buf_read, Reading.buf_read, Reading.buf_read, Reading.taken_read]
    by_cases hlow : off ≤ a ∧ a < off + j
    · rw [if_neg (by omega), if_pos hlow, if_pos (by omega)]
    · by_cases hhigh : off + j ≤ a ∧ a < off + j + k
      · have hat : d.taken + j + (a - (off + j)) = d.taken + (a - off) := by omega
        rw [if_pos hhigh, if_pos (by omega), hat]
      · rw [if_neg hhigh, if_neg hlow, if_neg (by omega)]

/-- The medium of `write`: bytes of the memory from `buf` on are put behind those that went in
before. -/
def writing (buf : Nat → UInt8) : Medium (List UInt8) where
  move off k out := out ++ (List.range' off k).map buf
  move_zero off out := by rw [List.range'_zero, List.map_nil, List.append_nil]
  move_add off j k out := by
    rw [List.append_assoc, ← List.map_append, List.range'_append_1]

/-! ## The loops -/

/-- `ret > 0`. -/
def readGoesOn (ret : BitVec 64) : Bool := (0 : BitVec 64).slt ret

/-- `ret != -1`. -/
def writeGoesOn (ret : BitVec 64) : Bool := ret != -1

section
variable (input buf : Nat → UInt8) (calls : Calls) (nbyte : BitVec 64)

/-- `readall`. -/
def readall (d : Reading) (fuel : Nat) : Option (BitVec 64 × Io Reading) :=
  transfer readGoesOn nbyte (issue (reading input) calls Result.ret) ⟨d, []⟩ fuel

/-- `sys_readall`. -/
def sysReadall (d : Reading) (fuel : Nat) : Option (BitVec 64 × Io Reading) :=
  transfer readGoesOn nbyte (issue (reading input) calls Svc.ret) ⟨d, []⟩ fuel

/-- `writeall`. -/
def writeall (out : List UInt8) (fuel : Nat) : Option (BitVec 64 × Io (List UInt8)) :=
  transfer writeGoesOn nbyte (issue (writing buf) calls Result.ret) ⟨out, []⟩ fuel

/-- `sys_writeall`. -/
def sysWriteall (out : List UInt8) (fuel : Nat) : Option (BitVec 64 × Io (List UInt8)) :=
  transfer writeGoesOn nbyte (issue (writing buf) calls Svc.ret) ⟨out, []⟩ fuel

theorem sysReadall_eq : sysReadall input calls nbyte = readall input calls nbyte := by
  unfold sysReadall readall
  rw [show @Svc.ret = @Result.ret from funext fun _ => Svc.ret_eq]

theorem sysWriteall_eq : sysWriteall buf calls nbyte = writeall buf calls nbyte := by
  unfold sysWriteall writeall
  rw [show @Svc.ret = @Result.ret from funext fun _ => Svc.ret_eq]

end

/-! ## What ends them -/

/-- The end of the file, or an error. -/
def isEnd {n : BitVec 64} : Result n → Bool
  | .count .. => false
  | .eof => true
  | .error _ => true

/-- An error. -/
def isError {n : BitVec 64} : Result n → Bool
  | .count .. => false
  | .eof => false
  | .error _ => true

theorem toInt_ofNat {k : Nat} (fits : k < 2 ^ 63) : (BitVec.ofNat 64 k).toInt = k := by
  have hword : (BitVec.ofNat 64 k).toNat = k := by
    rw [BitVec.toNat_ofNat]
    omega
  rw [BitVec.toInt_eq_toNat_of_lt (by rw [hword]; omega), hword]

theorem ending_read : Ending readGoesOn isEnd where
  goes r := by
    cases r with
    | count k pos le fits =>
        rw [readGoesOn, Result.ret, BitVec.slt, toInt_ofNat fits]
        exact decide_eq_true (Int.natCast_pos.mpr pos)
    | eof => rfl
    | error e => rfl
  count k pos le fits := rfl
  error e := rfl

theorem ending_write : Ending writeGoesOn isError where
  goes r := by
    cases r with
    | count k pos le fits =>
        have hne : BitVec.ofNat 64 k ≠ -1 := by
          intro h
          have hint := congrArg BitVec.toInt h
          have hone : (-1 : BitVec 64).toInt = -1 := by decide
          rw [toInt_ofNat fits, hone] at hint
          omega
        exact bne_iff_ne.mpr hne
    | eof => rfl
    | error e => rfl
  count k pos le fits := rfl
  error e := rfl

/-- A write loop does not return: from some turn on nothing is taken. -/
def Hangs (buf : Nat → UInt8) (calls : Calls) (nbyte : BitVec 64) (out : List UInt8)
    (loop : Nat → Option (BitVec 64 × Io (List UInt8))) : Prop :=
  (∀ fuel, loop fuel = none) ∧ ∃ j,
    Stalls (writing buf) calls nbyte out (stateAt (writing buf) calls writeGoesOn nbyte out j)

theorem readall_transfers (input : Nat → UInt8) (calls : Calls) (nbyte : BitVec 64) (d : Reading) :
    ∃ r, Returns (readall input calls nbyte d) r ∧
      Transfers (reading input) nbyte isEnd d r := by
  rcases transfer_spec (reading input) calls nbyte d ending_read with h | ⟨-, j, -, n, hends⟩
  · exact h
  · cases hends

theorem writeall_transfers (buf : Nat → UInt8) (calls : Calls) (nbyte : BitVec 64)
    (out : List UInt8) :
    (∃ r, Returns (writeall buf calls nbyte out) r ∧
        Transfers (writing buf) nbyte isError out r) ∨
      Hangs buf calls nbyte out (writeall buf calls nbyte out) := by
  rcases transfer_spec (writing buf) calls nbyte out ending_write with h | ⟨hnone, j, hstalls, -⟩
  · exact .inl h
  · exact .inr ⟨hnone, j, hstalls⟩

/-- **The four loops transfer** the front of what they are asked for.  An error ends each of
them, and the end of the file those that read; those that write hang when nothing is taken from
some call on. -/
theorem all_transfer (calls : Calls) (nbyte : BitVec 64) :
    (∀ input d, ∃ r, Returns (readall input calls nbyte d) r ∧
        Transfers (reading input) nbyte isEnd d r) ∧
      (∀ input d, ∃ r, Returns (sysReadall input calls nbyte d) r ∧
        Transfers (reading input) nbyte isEnd d r) ∧
      (∀ buf out, (∃ r, Returns (writeall buf calls nbyte out) r ∧
          Transfers (writing buf) nbyte isError out r) ∨
        Hangs buf calls nbyte out (writeall buf calls nbyte out)) ∧
      (∀ buf out, (∃ r, Returns (sysWriteall buf calls nbyte out) r ∧
          Transfers (writing buf) nbyte isError out r) ∨
        Hangs buf calls nbyte out (sysWriteall buf calls nbyte out)) := by
  refine ⟨fun input d => readall_transfers input calls nbyte d, fun input d => ?_,
    fun buf out => writeall_transfers buf calls nbyte out, fun buf out => ?_⟩
  · rw [sysReadall_eq]
    exact readall_transfers input calls nbyte d
  · rw [sysWriteall_eq]
    exact writeall_transfers buf calls nbyte out

/-- The first call takes nothing, and each one after it a byte. -/
def nothingFirst : Calls := fun i n =>
  if h : i ≠ 0 ∧ 0 < n.toNat then .count 1 (by decide) h.2 (by decide) else .eof

/-- A write loop goes on after a result that ends a read loop: its byte goes in with the second
call. -/
theorem not_transfers_zero :
    ¬ ∃ r, Returns (writeall (fun _ => 7) nothingFirst 1 []) r ∧
      Transfers (writing fun _ => 7) 1 isEnd [] r := by
  rintro ⟨r, hret, hr⟩
  have hrun : ∃ log, Returns (writeall (fun _ => 7) nothingFirst 1 []) (1, ⟨[7], log⟩) ∧
      moved log = 1 ∧ [⟨0, 1, .eof⟩] <+: log := by
    have hreturns := returns_doWhile (k := 1)
      (turn writeGoesOn 1 (issue (writing fun _ => 7) nothingFirst Result.ret))
      (s := (0, ⟨[], []⟩)) (fun j hj => by obtain rfl := Nat.lt_one_iff.mp hj; rfl) rfl
    exact ⟨_, hreturns, rfl, List.prefix_append _ _⟩
  obtain ⟨log, hlog, hmoved, hfirst⟩ := hrun
  obtain rfl := hret.unique hlog
  have hend := hr.full.mp hmoved [] ⟨0, 1, .eof⟩ hfirst (by decide)
  cases hend

end Xnd.Io
