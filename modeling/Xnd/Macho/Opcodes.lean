import Xnd.Lib.Leb128

/-!
# Bind opcodes

The loop of `macho_parse_fixup_chains` interprets a stream of opcodes with their operands,
and `DO_BIND` puts what is in its registers into the next place of the table of ordinals.
The table's size is read from the stream beforehand, by `macho_bind_table_size`, which
takes every byte for an opcode.

The cursor is the bytes that are left, up to the end of the stream: a read at the end is
`pastEnd`. A pointer into a symbol is the symbol. The walk of a chain, at `APPLY`, is a
parameter here.

* **The table is the one of the reference machine** if and only if no `DO_BIND` comes while
  the ordinal is a special one other than 0 (`buildsTable_iff`).
* **The size is the one that the loop meets** if and only if no byte of an operand before
  it looks like `THREADED`, up to a coincidence (`bindTableSize_iff`).
-/
namespace Xnd.Macho
open Leb128

/-- `*itr & BIND_OPCODE_MASK`. -/
inductive BindOpcode where
  | done
  | setDylibOrdinalImm
  | setDylibOrdinalUleb
  | setDylibSpecialImm
  | setSymbolTrailingFlagsImm
  | setTypeImm
  | setAddendSleb
  | setSegmentAndOffsetUleb
  | addAddrUleb
  | doBind
  | doBindAddAddrUleb
  | doBindAddAddrImmScaled
  | doBindUlebTimesSkippingUleb
  | threaded
  | unknown
  deriving DecidableEq, Repr

namespace BindOpcode

def of (b : UInt8) : BindOpcode :=
  match (b &&& 0xf0).toNat with
  | 0x00 => done
  | 0x10 => setDylibOrdinalImm
  | 0x20 => setDylibOrdinalUleb
  | 0x30 => setDylibSpecialImm
  | 0x40 => setSymbolTrailingFlagsImm
  | 0x50 => setTypeImm
  | 0x60 => setAddendSleb
  | 0x70 => setSegmentAndOffsetUleb
  | 0x80 => addAddrUleb
  | 0x90 => doBind
  | 0xa0 => doBindAddAddrUleb
  | 0xb0 => doBindAddAddrImmScaled
  | 0xc0 => doBindUlebTimesSkippingUleb
  | 0xd0 => threaded
  | _ => unknown

end BindOpcode

/-- `*itr & BIND_IMMEDIATE_MASK`. -/
def immOf (b : UInt8) : Nat := (b &&& 0x0f).toNat

/-- `BIND_SUBOPCODE_THREADED_APPLY`. -/
def threadedApply : Nat := 1

/-- `BIND_SUBOPCODE_THREADED_SET_BIND_ORDINAL_TABLE_SIZE_ULEB`. -/
def threadedSetTableSize : Nat := 0

/-- `struct fixup_entry`. -/
structure FixupEntry where
  addr : Nat
  symbol : Option (List UInt8)
  libOrdinal : BitVec 64
  addend : BitVec 64
  segIndex : BitVec 32
  flags : BitVec 32
  type : BitVec 8
  special : Bool
  deriving DecidableEq, Repr

/-- What `calloc` and `memset` leave. -/
def FixupEntry.zero : FixupEntry := ⟨0, none, 0, 0, 0, 0, 0, false⟩

/-- The variables that the opcodes set. -/
structure Registers where
  type : BitVec 8
  segIndex : BitVec 32
  flags : BitVec 32
  segOffset : BitVec 64
  addend : BitVec 64
  libOrdinal : BitVec 64
  symbol : Option (List UInt8)
  special : Bool
  deriving DecidableEq, Repr

def Registers.init : Registers := ⟨0, 0, 0, 0, 0, 0, none, false⟩

/-- The entry that `DO_BIND` writes over one of zeros. -/
def Registers.entry (r : Registers) : FixupEntry :=
  { FixupEntry.zero with
    libOrdinal := r.libOrdinal, special := r.special, symbol := r.symbol, flags := r.flags,
    addend := r.addend, type := r.type }

/-- The variables of `macho_parse_fixup_chains`. -/
structure ParseState where
  regs : Registers
  ordinals : List FixupEntry
  tableIdx : Nat
  chain : List FixupEntry
  chainCap : Nat
  deriving DecidableEq, Repr

/-- Why the loop stops. -/
inductive Why where
  | ended
  | failed (ret : Int)
  | aborted
  | pastEnd
  | overflow
  | outside
  | unended
  deriving DecidableEq, Repr

/-- What becomes of the walk of a chain: it returns, reads outside the file or does not
end. -/
inductive Walked where
  | returned (ret : Int) (chain : List FixupEntry) (chainCap : Nat)
  | outside
  | unended
  deriving DecidableEq, Repr

/-- One turn of the loop: what it leaves, with the bytes that are left. -/
inductive Turn where
  | next (s : ParseState) (rest : List UInt8)
  | stop (why : Why) (s : ParseState)
  deriving DecidableEq, Repr

/-- The string at the cursor, and what is behind its terminator. -/
def cstring : List UInt8 → Option (List UInt8 × List UInt8)
  | [] => none
  | b :: bs => if b = 0 then some ([], bs) else (cstring bs).map fun p => (b :: p.1, p.2)

/-- The ordinal of `BIND_OPCODE_SET_DYLIB_SPECIAL_IMM`: in `(long)((s8)imm |
BIND_OPCODE_MASK)` the `|` is of type `int`. -/
def specialOrdinal (imm : Nat) : BitVec 64 :=
  if imm = 0 then 0
  else (((BitVec.ofNat 8 imm).signExtend 32 ||| 0xf0 : BitVec 32)).signExtend 64

/-- `BIND_OPCODE_DO_BIND`. -/
def doBind (s : ParseState) : ParseState ⊕ Why :=
  if s.tableIdx < s.ordinals.length then
    .inl { s with ordinals := s.ordinals.set s.tableIdx s.regs.entry, tableIdx := s.tableIdx + 1 }
  else .inr .overflow

/-- `BIND_SUBOPCODE_THREADED_APPLY`. -/
def apply (walk : ParseState → Walked) (s : ParseState) : ParseState ⊕ Why :=
  match walk s with
  | .returned ret chain cap =>
      if ret = 0 then .inl { s with chain := chain, chainCap := cap } else .inr (.failed ret)
  | .outside => .inr .outside
  | .unended => .inr .unended

/-- A turn that only changes the state. -/
def Turn.of (s : ParseState) (rest : List UInt8) : ParseState ⊕ Why → Turn
  | .inl s' => .next s' rest
  | .inr why => .stop why s

/-- A turn with an operand. -/
def Turn.operand {α : Type} (s : ParseState) (f : α → ParseState) : Option (α × List UInt8) → Turn
  | some (v, rest) => .next (f v) rest
  | none => .stop .pastEnd s

def ParseState.set (s : ParseState) (f : Registers → Registers) : ParseState :=
  { s with regs := f s.regs }

/-- The `switch` of `macho_parse_fixup_chains`, at the byte `b`. -/
def turn (walk : ParseState → Walked) (s : ParseState) (b : UInt8) (rest : List UInt8) : Turn :=
  match BindOpcode.of b with
  | .done => .next s rest
  | .doBind => Turn.of s rest (doBind s)
  | .setDylibOrdinalImm =>
      .next (s.set fun r => { r with libOrdinal := .ofNat 64 (immOf b), special := false }) rest
  | .setDylibOrdinalUleb =>
      Turn.operand s (fun v => s.set fun r => { r with libOrdinal := v, special := false })
        (decodeUleb rest)
  | .setDylibSpecialImm =>
      .next (s.set fun r => { r with libOrdinal := specialOrdinal (immOf b), special := true }) rest
  | .setSymbolTrailingFlagsImm =>
      Turn.operand s
        (fun v => s.set fun r => { r with flags := .ofNat 32 (immOf b), symbol := some v })
        (cstring rest)
  | .setTypeImm => .next (s.set fun r => { r with type := .ofNat 8 (immOf b) }) rest
  | .setAddendSleb =>
      Turn.operand s (fun v => s.set fun r => { r with addend := v }) (decodeSleb rest)
  | .setSegmentAndOffsetUleb =>
      Turn.operand s
        (fun v => s.set fun r => { r with segIndex := .ofNat 32 (immOf b), segOffset := v })
        (decodeUleb rest)
  | .addAddrUleb | .doBindAddAddrUleb | .doBindAddAddrImmScaled | .doBindUlebTimesSkippingUleb =>
      .stop .aborted s
  | .threaded =>
      if immOf b ≠ threadedApply then Turn.operand s (fun _ => s) (decodeUleb rest)
      else Turn.of s rest (apply walk s)
  | .unknown => .stop (.failed (-1)) s

/-- The loop of `macho_parse_fixup_chains`, for `n` turns at most. -/
def parseLoop (walk : ParseState → Walked) : Nat → ParseState → List UInt8 → Why × ParseState
  | _, s, [] => (.ended, s)
  | 0, s, _ :: _ => (.unended, s)
  | n + 1, s, b :: rest =>
      match turn walk s b rest with
      | .next s' rest' => parseLoop walk n s' rest'
      | .stop why s' => (why, s')

/-- The loop takes no more turns than there are bytes. -/
def parse (walk : ParseState → Walked) (s : ParseState) (area : List UInt8) : Why × ParseState :=
  parseLoop walk area.length s area

/-! ## Instructions -/

/-- The bytes of a number. -/
abbrev Leb := { bs : List UInt8 // IsLeb bs }

/-- A symbol's name. -/
abbrev Symbol := { bs : List UInt8 // (0 : UInt8) ∉ bs }

/-- An opcode that the loop has a case for, with its immediate and its operand. -/
inductive Instr where
  | done (imm : Fin 16)
  | setDylibOrdinalImm (imm : Fin 16)
  | setDylibOrdinalUleb (imm : Fin 16) (l : Leb)
  | setDylibSpecialImm (imm : Fin 16)
  | setSymbol (imm : Fin 16) (name : Symbol)
  | setTypeImm (imm : Fin 16)
  | setAddendSleb (imm : Fin 16) (l : Leb)
  | setSegmentAndOffset (imm : Fin 16) (l : Leb)
  | doBind (imm : Fin 16)
  | threaded (imm : Fin 16) (h : imm.val ≠ threadedApply) (l : Leb)
  | apply
  deriving DecidableEq

/-- An opcode and its immediate. -/
def byte (op : Nat) (imm : Fin 16) : UInt8 := .ofNat (op + imm.val)

def Instr.encode : Instr → List UInt8
  | .done imm => [byte 0x00 imm]
  | .setDylibOrdinalImm imm => [byte 0x10 imm]
  | .setDylibOrdinalUleb imm l => byte 0x20 imm :: l.1
  | .setDylibSpecialImm imm => [byte 0x30 imm]
  | .setSymbol imm name => byte 0x40 imm :: (name.1 ++ [0])
  | .setTypeImm imm => [byte 0x50 imm]
  | .setAddendSleb imm l => byte 0x60 imm :: l.1
  | .setSegmentAndOffset imm l => byte 0x70 imm :: l.1
  | .doBind imm => [byte 0x90 imm]
  | .threaded imm _ l => byte 0xd0 imm :: l.1
  | .apply => [byte 0xd0 1]

def encodeAll (is : List Instr) : List UInt8 := is.flatMap Instr.encode

/-- What an instruction puts into the registers. -/
def Registers.step (r : Registers) : Instr → Registers
  | .setDylibOrdinalImm imm => { r with libOrdinal := .ofNat 64 imm.val, special := false }
  | .setDylibOrdinalUleb _ l =>
      { r with libOrdinal := .ofNat 64 (ulebValue l.1), special := false }
  | .setDylibSpecialImm imm => { r with libOrdinal := specialOrdinal imm.val, special := true }
  | .setSymbol imm name => { r with flags := .ofNat 32 imm.val, symbol := some name.1 }
  | .setTypeImm imm => { r with type := .ofNat 8 imm.val }
  | .setAddendSleb _ l => { r with addend := .ofInt 64 (slebValue l.1) }
  | .setSegmentAndOffset imm l =>
      { r with segIndex := .ofNat 32 imm.val, segOffset := .ofNat 64 (ulebValue l.1) }
  | .done _ | .doBind _ | .threaded _ _ _ | .apply => r

/-- What an instruction does, or why the loop stops at it. -/
def step (walk : ParseState → Walked) (s : ParseState) : Instr → ParseState ⊕ Why
  | .doBind _ => Macho.doBind s
  | .apply => Macho.apply walk s
  | i => .inl (s.set (·.step i))

/-- Instructions, up to the one that the loop stops at. -/
def runInstrs (walk : ParseState → Walked) (s : ParseState) :
    List Instr → ParseState ⊕ (Why × ParseState)
  | [] => .inl s
  | i :: is =>
      match step walk s i with
      | .inl s' => runInstrs walk s' is
      | .inr why => .inr (why, s)

theorem runInstrs_append (walk : ParseState → Walked) (s : ParseState) (is js : List Instr) :
    runInstrs walk s (is ++ js) =
      match runInstrs walk s is with
      | .inl s' => runInstrs walk s' js
      | .inr stop => .inr stop := by
  induction is generalizing s with
  | nil => rfl
  | cons i is ih =>
      rw [List.cons_append, runInstrs, runInstrs]
      cases step walk s i with
      | inl s' => exact ih s'
      | inr why => rfl

theorem length_cstring {bs s rest : List UInt8} (h : cstring bs = some (s, rest)) :
    rest.length < bs.length := by
  induction bs generalizing s with
  | nil => cases h
  | cons b bs ih =>
      rw [cstring] at h
      split at h
      · cases h
        exact Nat.lt_succ_self _
      · cases hc : cstring bs with
        | none => simp [hc] at h
        | some p =>
            simp only [hc, Option.map_some, Option.some.injEq, Prod.mk.injEq] at h
            exact Nat.lt_succ_of_lt (ih (s := p.1) (by rw [hc, ← h.2]))

theorem cstring_append {s : List UInt8} (h : (0 : UInt8) ∉ s) (rest : List UInt8) :
    cstring (s ++ 0 :: rest) = some (s, rest) := by
  induction s with
  | nil => rfl
  | cons b s ih =>
      rw [List.mem_cons, not_or] at h
      rw [List.cons_append, cstring, if_neg (Ne.symm h.1), ih h.2]
      rfl

/-- A turn takes at least the byte of its opcode. -/
theorem length_turn {walk : ParseState → Walked} {s s' : ParseState} {b : UInt8}
    {rest rest' : List UInt8} (h : turn walk s b rest = .next s' rest') :
    rest'.length ≤ rest.length := by
  have hof {r : ParseState ⊕ Why} (h : Turn.of s rest r = .next s' rest') :
      rest'.length ≤ rest.length := by
    cases r with
    | inl t => cases h; exact Nat.le_refl _
    | inr why => cases h
  have hoperand {α : Type} {f : α → ParseState} {r : Option (α × List UInt8)}
      (hr : ∀ v t, r = some (v, t) → t.length < rest.length)
      (h : Turn.operand s f r = .next s' rest') : rest'.length ≤ rest.length := by
    cases r with
    | none => cases h
    | some p => cases h; exact Nat.le_of_lt (hr _ _ rfl)
  have huleb : ∀ v t, decodeUleb rest = some (v, t) → t.length < rest.length :=
    fun _ _ => length_ulebLoop
  have hsleb : ∀ v t, decodeSleb rest = some (v, t) → t.length < rest.length :=
    fun _ _ => length_slebLoop
  have hstr : ∀ v t, cstring rest = some (v, t) → t.length < rest.length :=
    fun _ _ => length_cstring
  unfold turn at h
  split at h
  case h_1 | h_3 | h_5 | h_7 => cases h; exact Nat.le_refl _
  case h_2 => exact hof h
  case h_4 => exact hoperand huleb h
  case h_6 => exact hoperand hstr h
  case h_8 => exact hoperand hsleb h
  case h_9 => exact hoperand huleb h
  case h_10 | h_11 | h_12 | h_13 => cases h
  case h_14 =>
    split at h
    · exact hoperand huleb h
    · exact hof h
  case h_15 => cases h

/-- More turns than bytes do not change the loop. -/
theorem parseLoop_eq {walk : ParseState → Walked} {n : Nat} {s : ParseState} {area : List UInt8}
    (h : area.length ≤ n) : parseLoop walk n s area = parse walk s area := by
  -- Two numbers of turns that are large enough, by induction on a bound of both lengths.
  have key : ∀ k n m s (area : List UInt8), area.length ≤ k → area.length ≤ n →
      area.length ≤ m → parseLoop walk n s area = parseLoop walk m s area := by
    intro k
    induction k with
    | zero =>
        intro n m s area hk _ _
        rw [List.length_eq_zero_iff.mp (Nat.le_zero.mp hk), parseLoop, parseLoop]
    | succ k ih =>
        intro n m s area hk hn hm
        cases area with
        | nil => rw [parseLoop, parseLoop]
        | cons b rest =>
            obtain ⟨n, rfl⟩ := Nat.exists_eq_succ_of_ne_zero (Nat.ne_of_gt (Nat.zero_lt_of_lt hn))
            obtain ⟨m, rfl⟩ := Nat.exists_eq_succ_of_ne_zero (Nat.ne_of_gt (Nat.zero_lt_of_lt hm))
            simp only [List.length_cons] at hk hn hm
            rw [parseLoop, parseLoop]
            cases hturn : turn walk s b rest with
            | stop why s' => rfl
            | next s' rest' =>
                have := length_turn hturn
                exact ih n m s' rest' (by omega) (by omega) (by omega)
  exact key area.length n area.length s area (Nat.le_refl _) h (Nat.le_refl _)

theorem parse_cons (walk : ParseState → Walked) (s : ParseState) (b : UInt8) (rest : List UInt8) :
    parse walk s (b :: rest) =
      match turn walk s b rest with
      | .next s' rest' => parse walk s' rest'
      | .stop why s' => (why, s') := by
  rw [parse, List.length_cons, parseLoop]
  cases hturn : turn walk s b rest with
  | stop why s' => rfl
  | next s' rest' => exact parseLoop_eq (length_turn hturn)

/-- **A turn at the bytes of an instruction does what the instruction does.** -/
theorem turn_encode (walk : ParseState → Walked) (s : ParseState) (i : Instr)
    (rest : List UInt8) :
    ∃ b tl, i.encode = b :: tl ∧ turn walk s b (tl ++ rest) = Turn.of s rest (step walk s i) := by
  cases i with
  | done imm =>
      have hop : BindOpcode.of (byte 0x00 imm) = .done := by revert imm; decide
      exact ⟨_, _, rfl, by simp only [turn, hop]; rfl⟩
  | setDylibOrdinalImm imm =>
      have hop : BindOpcode.of (byte 0x10 imm) = .setDylibOrdinalImm := by revert imm; decide
      have himm : immOf (byte 0x10 imm) = imm := by revert imm; decide
      exact ⟨_, _, rfl, by simp only [turn, hop, himm]; rfl⟩
  | setDylibOrdinalUleb imm l =>
      have hop : BindOpcode.of (byte 0x20 imm) = .setDylibOrdinalUleb := by revert imm; decide
      exact ⟨_, _, rfl, by simp only [turn, hop, decodeUleb_append l.2]; rfl⟩
  | setDylibSpecialImm imm =>
      have hop : BindOpcode.of (byte 0x30 imm) = .setDylibSpecialImm := by revert imm; decide
      have himm : immOf (byte 0x30 imm) = imm := by revert imm; decide
      exact ⟨_, _, rfl, by simp only [turn, hop, himm]; rfl⟩
  | setSymbol imm name =>
      have hop : BindOpcode.of (byte 0x40 imm) = .setSymbolTrailingFlagsImm := by
        revert imm; decide
      have himm : immOf (byte 0x40 imm) = imm := by revert imm; decide
      refine ⟨_, _, rfl, ?_⟩
      simp only [turn, hop, himm, List.append_assoc, List.singleton_append,
        cstring_append name.2]
      rfl
  | setTypeImm imm =>
      have hop : BindOpcode.of (byte 0x50 imm) = .setTypeImm := by revert imm; decide
      have himm : immOf (byte 0x50 imm) = imm := by revert imm; decide
      exact ⟨_, _, rfl, by simp only [turn, hop, himm]; rfl⟩
  | setAddendSleb imm l =>
      have hop : BindOpcode.of (byte 0x60 imm) = .setAddendSleb := by revert imm; decide
      exact ⟨_, _, rfl, by simp only [turn, hop, decodeSleb_append l.2]; rfl⟩
  | setSegmentAndOffset imm l =>
      have hop : BindOpcode.of (byte 0x70 imm) = .setSegmentAndOffsetUleb := by
        revert imm; decide
      have himm : immOf (byte 0x70 imm) = imm := by revert imm; decide
      exact ⟨_, _, rfl, by simp only [turn, hop, himm, decodeUleb_append l.2]; rfl⟩
  | doBind imm =>
      have hop : BindOpcode.of (byte 0x90 imm) = .doBind := by revert imm; decide
      exact ⟨_, _, rfl, by simp only [turn, hop]; rfl⟩
  | threaded imm himm l =>
      have hop : BindOpcode.of (byte 0xd0 imm) = .threaded := by revert imm; decide
      have hval : immOf (byte 0xd0 imm) = imm := by revert imm; decide
      refine ⟨_, _, rfl, ?_⟩
      simp only [turn, hop, hval, if_pos himm, decodeUleb_append l.2]
      rfl
  | apply =>
      have hop : BindOpcode.of (byte 0xd0 1) = .threaded := by decide
      have hval : ¬ immOf (byte 0xd0 1) ≠ threadedApply := by decide
      exact ⟨_, _, rfl, by simp only [turn, hop, if_neg hval]; rfl⟩

/-- **The loop runs the instructions** that the bytes start with. -/
theorem parse_encodeAll (walk : ParseState → Walked) (s : ParseState) (is : List Instr)
    (tail : List UInt8) :
    parse walk s (encodeAll is ++ tail) =
      match runInstrs walk s is with
      | .inl s' => parse walk s' tail
      | .inr stop => stop := by
  induction is generalizing s with
  | nil => rfl
  | cons i is ih =>
      obtain ⟨b, tl, hencode, hturn⟩ := turn_encode walk s i (encodeAll is ++ tail)
      have hcons : encodeAll (i :: is) ++ tail = b :: (tl ++ (encodeAll is ++ tail)) := by
        rw [encodeAll, List.flatMap_cons, hencode, List.append_assoc]
        rfl
      rw [hcons, parse_cons, hturn, runInstrs]
      cases step walk s i with
      | inl s' => exact ih s'
      | inr why => rfl

/-! ## The table of ordinals -/

def Instr.isBind : Instr → Bool
  | .doBind _ => true
  | _ => false

/-- How many `DO_BIND`s there are. -/
def binds (is : List Instr) : Nat := (is.filter Instr.isBind).length

/-- What the `DO_BIND`s write. -/
def recorded : Registers → List Instr → List FixupEntry
  | _, [] => []
  | r, i :: is =>
      if i.isBind = true then r.entry :: recorded (r.step i) is else recorded (r.step i) is

/-- A table, with entries from a place on. -/
def writeFrom (table : List FixupEntry) (i : Nat) (es : List FixupEntry) : List FixupEntry :=
  table.take i ++ es ++ table.drop (i + es.length)

theorem length_recorded (r : Registers) (is : List Instr) : (recorded r is).length = binds is := by
  induction is generalizing r with
  | nil => rfl
  | cons i is ih =>
      rw [recorded, binds, List.filter_cons]
      split
      · exact congrArg (· + 1) (ih _)
      · exact ih _

theorem binds_concat (is : List Instr) (i : Instr) :
    binds (is ++ [i]) = binds is + if i.isBind = true then 1 else 0 := by
  rw [binds, List.filter_append, List.length_append, List.filter_singleton]
  cases i.isBind <;> rfl

theorem writeFrom_nil (table : List FixupEntry) (i : Nat) : writeFrom table i [] = table := by
  simp [writeFrom]

theorem writeFrom_set {table : List FixupEntry} {i : Nat} (h : i < table.length) (e : FixupEntry)
    (es : List FixupEntry) :
    writeFrom (table.set i e) (i + 1) es = writeFrom table i (e :: es) := by
  have hdrop : (table.set i e).drop (i + 1 + es.length) = table.drop (i + (es.length + 1)) := by
    rw [List.drop_set_of_lt (by omega), Nat.add_assoc, Nat.add_comm 1]
  have htake : (table.set i e).take (i + 1) = table.take i ++ [e] := by
    rw [List.take_set, List.take_succ_eq_append_getElem h, List.set_append_right _ _ (by simp)]
    simp [Nat.min_eq_left (Nat.le_of_lt h)]
  rw [writeFrom, writeFrom, htake, hdrop, List.length_cons]
  simp

/-- How far the loop gets with instructions: to their end, or to an `APPLY`. -/
def GetsTo (is : List Instr) (k : Nat) (stopped : ParseState ⊕ (Why × ParseState))
    (s : ParseState) : Prop :=
  k ≤ is.length ∧ ((stopped = .inl s ∧ k = is.length) ∨
    ∃ why, stopped = .inr (why, s) ∧ why ≠ .ended ∧ is[k]? = some .apply)

theorem GetsTo.cons {walk : ParseState → Walked} {s t s' : ParseState} {i : Instr}
    {is : List Instr} {k : Nat} (hstep : step walk s i = .inl t)
    (h : GetsTo is k (runInstrs walk t is) s') :
    GetsTo (i :: is) (k + 1) (runInstrs walk s (i :: is)) s' := by
  rw [runInstrs, hstep]
  refine ⟨Nat.succ_le_succ h.1, ?_⟩
  rcases h.2 with ⟨hrun, hk⟩ | hstop
  · exact .inl ⟨hrun, congrArg (· + 1) hk⟩
  · exact .inr hstop

/-- What an instruction leaves when the loop goes on: `DO_BIND` writes the table, and the
others leave it alone. -/
theorem step_inl {walk : ParseState → Walked} {s t : ParseState} {i : Instr}
    (h : step walk s i = .inl t) :
    t.regs = s.regs.step i ∧
      if i.isBind = true then
        s.tableIdx < s.ordinals.length ∧ t.ordinals = s.ordinals.set s.tableIdx s.regs.entry ∧
          t.tableIdx = s.tableIdx + 1
      else t.ordinals = s.ordinals ∧ t.tableIdx = s.tableIdx := by
  cases i with
  | doBind imm =>
      rw [step, doBind] at h
      split at h
      · next hlt => cases h; exact ⟨rfl, hlt, rfl, rfl⟩
      · cases h
  | apply =>
      rw [step, apply] at h
      split at h
      · split at h
        · cases h; exact ⟨rfl, rfl, rfl⟩
        · cases h
      · cases h
      · cases h
  | done | setDylibOrdinalImm | setDylibOrdinalUleb | setDylibSpecialImm | setSymbol
  | setTypeImm | setAddendSleb | setSegmentAndOffset | threaded =>
      cases h
      exact ⟨rfl, rfl, rfl⟩

/-- The loop stops at a `DO_BIND` without a place in the table, and at an `APPLY`. -/
theorem step_inr {walk : ParseState → Walked} {s : ParseState} {i : Instr} {why : Why}
    (h : step walk s i = .inr why) :
    (i.isBind = true ∧ s.ordinals.length ≤ s.tableIdx ∧ why = .overflow) ∨
      (i = .apply ∧ why ≠ .ended) := by
  cases i with
  | doBind imm =>
      rw [step, doBind] at h
      split at h
      · cases h
      · next hlt => cases h; exact .inl ⟨rfl, Nat.le_of_not_lt hlt, rfl⟩
  | apply =>
      rw [step, apply] at h
      split at h
      · split at h
        · cases h
        · cases h; exact .inr ⟨rfl, nofun⟩
      · cases h; exact .inr ⟨rfl, nofun⟩
      · cases h; exact .inr ⟨rfl, nofun⟩
  | done | setDylibOrdinalImm | setDylibOrdinalUleb | setDylibSpecialImm | setSymbol
  | setTypeImm | setAddendSleb | setSegmentAndOffset | threaded => cases h

/-- **The table is what the `DO_BIND`s have written**, as far as the loop gets. -/
theorem runInstrs_table (walk : ParseState → Walked) (s : ParseState) (is : List Instr)
    (hfit : s.tableIdx + binds is ≤ s.ordinals.length) :
    ∃ k s', GetsTo is k (runInstrs walk s is) s' ∧
      s'.ordinals = writeFrom s.ordinals s.tableIdx (recorded s.regs (is.take k)) ∧
      s'.tableIdx = s.tableIdx + binds (is.take k) := by
  induction is generalizing s with
  | nil => exact ⟨0, s, ⟨Nat.le_refl _, .inl ⟨rfl, rfl⟩⟩, (writeFrom_nil _ _).symm, rfl⟩
  | cons i is ih =>
      have hbinds (is : List Instr) : binds (i :: is) = if i.isBind = true then binds is + 1 else binds is := by
        rw [binds, List.filter_cons]
        split <;> rfl
      rw [hbinds] at hfit
      cases hstep : step walk s i with
      | inl t =>
          obtain ⟨hregs, htable⟩ := step_inl hstep
          by_cases hbind : i.isBind = true
          · rw [if_pos hbind] at hfit htable
            obtain ⟨hlt, hordinals, hidx⟩ := htable
            obtain ⟨k, s', hgets, htab, hcount⟩ := ih t (by
              rw [hordinals, List.length_set, hidx]
              omega)
            refine ⟨k + 1, s', hgets.cons hstep, ?_, ?_⟩
            · rw [List.take_succ_cons, recorded, if_pos hbind, ← hregs, htab, hordinals, hidx,
                writeFrom_set hlt]
            · rw [List.take_succ_cons, hbinds, if_pos hbind, hcount, hidx]
              omega
          · rw [if_neg hbind] at hfit htable
            obtain ⟨hordinals, hidx⟩ := htable
            obtain ⟨k, s', hgets, htab, hcount⟩ := ih t (by rwa [hordinals, hidx])
            refine ⟨k + 1, s', hgets.cons hstep, ?_, ?_⟩
            · rw [List.take_succ_cons, recorded, if_neg hbind, ← hregs, htab, hordinals, hidx]
            · rw [List.take_succ_cons, hbinds, if_neg hbind, hcount, hidx]
      | inr why =>
          rcases step_inr hstep with ⟨hbind, hle, -⟩ | ⟨rfl, hwhy⟩
          · rw [if_pos hbind] at hfit
            omega
          -- The walk has stopped the loop, and the table is as it was.
          · refine ⟨0, s, ⟨Nat.zero_le _, .inr ⟨why, by rw [runInstrs, hstep], hwhy, rfl⟩⟩,
              (writeFrom_nil _ _).symm, rfl⟩

/-! ## The reference machine -/

/-- The registers of the bind format. -/
structure Ref where
  ordinal : Int
  special : Bool
  symbol : Option (List UInt8)
  flags : Fin 16
  addend : Int
  type : Fin 16

def Ref.init : Ref := ⟨0, false, none, 0, 0, 0⟩

/-- An immediate of four bits with its sign. -/
def signExtend4 (imm : Fin 16) : Int := if imm.val < 8 then imm.val else imm.val - 16

def Ref.step (r : Ref) : Instr → Ref
  | .setDylibOrdinalImm imm => { r with ordinal := imm.val, special := false }
  | .setDylibOrdinalUleb _ l => { r with ordinal := ulebValue l.1, special := false }
  | .setDylibSpecialImm imm => { r with ordinal := signExtend4 imm, special := true }
  | .setSymbol imm name => { r with flags := imm, symbol := some name.1 }
  | .setTypeImm imm => { r with type := imm }
  | .setAddendSleb _ l => { r with addend := slebValue l.1 }
  | .done _ | .setSegmentAndOffset _ _ | .doBind _ | .threaded _ _ _ | .apply => r

/-- The record of a `DO_BIND`. -/
def Ref.entry (r : Ref) : FixupEntry :=
  { FixupEntry.zero with
    libOrdinal := .ofInt 64 r.ordinal, special := r.special, symbol := r.symbol,
    flags := .ofNat 32 r.flags.val, addend := .ofInt 64 r.addend, type := .ofNat 8 r.type.val }

/-- The records of the `DO_BIND`s: what is in force at each. -/
def refTable : Ref → List Instr → List FixupEntry
  | _, [] => []
  | r, i :: is =>
      if i.isBind = true then r.entry :: refTable (r.step i) is else refTable (r.step i) is

/-- Whether the ordinal in force is a special one other than 0. -/
def foreign (b : Bool) : Instr → Bool
  | .setDylibOrdinalImm _ | .setDylibOrdinalUleb _ _ => false
  | .setDylibSpecialImm imm => imm != 0
  | _ => b

/-- No `DO_BIND` comes while the ordinal in force is a special one other than 0. -/
def NoForeignBind : Bool → List Instr → Prop
  | _, [] => True
  | b, i :: is => (i.isBind = true → b = false) ∧ NoForeignBind (foreign b i) is

/-- The registers of the loop and of the reference machine. The ordinals are the same
exactly when the one in force is not a special one other than 0. -/
structure Related (b : Bool) (r : Registers) (ref : Ref) : Prop where
  ordinal : r.libOrdinal = .ofInt 64 ref.ordinal ↔ b = false
  special : r.special = ref.special
  symbol : r.symbol = ref.symbol
  flags : r.flags = .ofNat 32 ref.flags.val
  addend : r.addend = .ofInt 64 ref.addend
  type : r.type = .ofNat 8 ref.type.val

/-- The special ordinal of the loop is the one of four bits with a sign only where it
is 0. -/
theorem specialOrdinal_iff (imm : Fin 16) :
    specialOrdinal imm.val = .ofInt 64 (signExtend4 imm) ↔ (imm != 0) = false := by
  revert imm
  decide

theorem Related.step {b : Bool} {r : Registers} {ref : Ref} (h : Related b r ref) (i : Instr) :
    Related (foreign b i) (r.step i) (ref.step i) := by
  cases i with
  | setDylibOrdinalImm imm =>
      exact { h with ordinal := iff_of_true (BitVec.ofInt_natCast ..).symm rfl, special := rfl }
  | setDylibOrdinalUleb imm l =>
      exact { h with ordinal := iff_of_true (BitVec.ofInt_natCast ..).symm rfl, special := rfl }
  | setDylibSpecialImm imm => exact { h with ordinal := specialOrdinal_iff imm, special := rfl }
  | setSymbol imm name => exact { h with flags := rfl, symbol := rfl }
  | setTypeImm imm => exact { h with type := rfl }
  | setAddendSleb imm l => exact { h with addend := rfl }
  | setSegmentAndOffset imm l => exact { h with }
  | done | doBind | threaded | apply => exact h

theorem Related.entry {b : Bool} {r : Registers} {ref : Ref} (h : Related b r ref) :
    r.entry = ref.entry ↔ b = false := by
  rw [← h.ordinal, Registers.entry, Ref.entry, h.special, h.symbol, h.flags, h.addend, h.type]
  exact ⟨fun he => congrArg FixupEntry.libOrdinal he, fun ho => by rw [ho]⟩

/-- **The records are the same** if and only if none is made under such an ordinal. -/
theorem recorded_eq_iff {b : Bool} {r : Registers} {ref : Ref} (h : Related b r ref)
    (is : List Instr) : recorded r is = refTable ref is ↔ NoForeignBind b is := by
  induction is generalizing b r ref with
  | nil => exact iff_of_true rfl trivial
  | cons i is ih =>
      rw [recorded, refTable, NoForeignBind, ← ih (h.step i)]
      by_cases hbind : i.isBind = true
      · rw [if_pos hbind, if_pos hbind, List.cons.injEq, h.entry]
        exact and_congr_left' ⟨fun hb _ => hb, fun hb => hb hbind⟩
      · rw [if_neg hbind, if_neg hbind]
        exact ⟨fun heq => ⟨fun hb => absurd hb hbind, heq⟩, fun heq => heq.2⟩

theorem NoForeignBind.take {b : Bool} {is : List Instr} (h : NoForeignBind b is) (k : Nat) :
    NoForeignBind b (is.take k) := by
  induction is generalizing b k with
  | nil => rwa [List.take_nil]
  | cons i is ih =>
      cases k with
      | zero => exact trivial
      | succ k => exact ⟨h.1, ih h.2 k⟩

/-- The variables before the loop, with a table of `n` entries. -/
def ParseState.start (n : Nat) : ParseState :=
  ⟨.init, List.replicate n .zero, 0, [], 256⟩

/-- The operands of an instruction are of 64 bits, and `THREADED` has a subopcode. -/
def Instr.Formed : Instr → Prop
  | .setDylibOrdinalUleb _ l | .setAddendSleb _ l | .setSegmentAndOffset _ l => l.1.length ≤ 10
  | .threaded imm _ l => imm.val = threadedSetTableSize ∧ l.1.length ≤ 10
  | _ => True

/-- A stream for a table of `n` entries. -/
structure WellFormed (n : Nat) (is : List Instr) : Prop where
  fits : binds is ≤ n
  formed : ∀ i ∈ is, i.Formed

/-- **The table is that of the reference machine**, whatever becomes of the chains: up to
the end of the stream, or up to the `APPLY` whose walk stops the loop. -/
def BuildsTable (n : Nat) (is : List Instr) : Prop :=
  ∀ walk : ParseState → Walked, ∃ why k s, parse walk (.start n) (encodeAll is) = (why, s) ∧
    ((why = .ended ∧ k = is.length) ∨ (why ≠ .ended ∧ is[k]? = some .apply)) ∧
    s.tableIdx = binds (is.take k) ∧
    s.ordinals = refTable .init (is.take k) ++ List.replicate (n - binds (is.take k)) .zero

theorem related_init : Related false .init .init :=
  ⟨iff_of_true rfl rfl, rfl, rfl, rfl, rfl, rfl⟩

theorem length_refTable (r : Ref) (is : List Instr) : (refTable r is).length = binds is := by
  induction is generalizing r with
  | nil => rfl
  | cons i is ih =>
      rw [refTable, binds, List.filter_cons]
      split
      · exact congrArg (· + 1) (ih _)
      · exact ih _

theorem parse_encodeAll' (walk : ParseState → Walked) (s : ParseState) (is : List Instr) :
    parse walk s (encodeAll is) =
      match runInstrs walk s is with
      | .inl s' => (.ended, s')
      | .inr stop => stop := by
  have h := parse_encodeAll walk s is []
  rw [List.append_nil] at h
  rw [h]
  cases runInstrs walk s is <;> rfl

/-- What the loop leaves of a stream. -/
theorem parse_table (walk : ParseState → Walked) {n : Nat} {is : List Instr} (h : binds is ≤ n) :
    ∃ why k s, parse walk (.start n) (encodeAll is) = (why, s) ∧
      ((why = .ended ∧ k = is.length) ∨ (why ≠ .ended ∧ is[k]? = some .apply)) ∧
      s.tableIdx = binds (is.take k) ∧
      s.ordinals =
        recorded .init (is.take k) ++ List.replicate (n - binds (is.take k)) .zero := by
  have hfit : (ParseState.start n).tableIdx + binds is ≤ (ParseState.start n).ordinals.length := by
    rwa [ParseState.start, List.length_replicate, Nat.zero_add]
  obtain ⟨k, s, ⟨-, hstop⟩, htable, hidx⟩ := runInstrs_table walk (.start n) is hfit
  have htable' : s.ordinals =
      recorded .init (is.take k) ++ List.replicate (n - binds (is.take k)) .zero := by
    rw [htable, writeFrom, length_recorded]
    simp [ParseState.start]
  have hidx' : s.tableIdx = binds (is.take k) := hidx.trans (Nat.zero_add _)
  rw [parse_encodeAll']
  rcases hstop with ⟨hrun, hk⟩ | ⟨why, hrun, hwhy, hat⟩
  · exact ⟨.ended, k, s, by rw [hrun], .inl ⟨rfl, hk⟩, hidx', htable'⟩
  · exact ⟨why, k, s, by rw [hrun], .inr ⟨hwhy, hat⟩, hidx', htable'⟩

/-- A walk that finds nothing to do. -/
def noChain (s : ParseState) : Walked := .returned 0 s.chain s.chainCap

/-- With it the loop gets to the end. -/
theorem runInstrs_noChain (s : ParseState) (is : List Instr)
    (hfit : s.tableIdx + binds is ≤ s.ordinals.length) :
    ∃ s', runInstrs noChain s is = .inl s' := by
  induction is generalizing s with
  | nil => exact ⟨s, rfl⟩
  | cons i is ih =>
      rw [binds, List.filter_cons] at hfit
      cases hstep : Macho.step noChain s i with
      | inl t =>
          obtain ⟨-, htable⟩ := step_inl hstep
          rw [runInstrs, hstep]
          apply ih
          split at hfit
          · next hbind =>
              rw [if_pos hbind] at htable
              rw [htable.2.1, htable.2.2, List.length_set]
              rw [List.length_cons] at hfit
              rw [binds]
              omega
          · next hbind =>
              rw [if_neg hbind] at htable
              rwa [htable.1, htable.2]
      | inr why =>
          rcases step_inr hstep with ⟨hbind, hle, -⟩ | ⟨rfl, -⟩
          · rw [if_pos hbind, List.length_cons] at hfit
            omega
          · cases hstep

/-- `THREADED` with a table of one entry. -/
def tableOfOne : Instr := .threaded 0 (by decide) ⟨[1], by decide⟩

/-- How `macho_bind_table_size` ends. -/
inductive TableSize where
  | size (n : BitVec 64)
  | aborted
  | pastEnd
  deriving DecidableEq, Repr

/-- `macho_bind_table_size`: the loop leaves what follows the first byte that looks like
`THREADED`. -/
def bindTableSize (area : List UInt8) : TableSize :=
  match area.dropWhile fun b => BindOpcode.of b != .threaded with
  | [] => .aborted
  | b :: rest =>
      if immOf b = threadedApply then .aborted
      else if immOf b = threadedSetTableSize then
        match decodeUleb rest with
        | some (n, _) => .size n
        | none => .pastEnd
      else .aborted

/-- A byte that looks like `THREADED`. -/
def LooksThreaded (b : UInt8) : Prop := BindOpcode.of b = .threaded

def Instr.isThreaded : Instr → Bool
  | .threaded _ _ _ | .apply => true
  | _ => false

/-- The pre-pass gives the size that the loop meets. -/
def FindsSize (is : List Instr) (l : Leb) (later : List Instr) : Prop :=
  bindTableSize (encodeAll (is ++ .threaded 0 (by decide) l :: later)) =
    .size (.ofNat 64 (ulebValue l.1))

/-- No byte before the instruction looks like `THREADED`; or the first that does looks like
the set-table-size of a number that is the same. -/
def SizeInSight (is : List Instr) (l : Leb) (later : List Instr) : Prop :=
  (∀ b ∈ encodeAll is, ¬ LooksThreaded b) ∨
    ∃ before behind rest, encodeAll is = before ++ 0xd0 :: behind ∧
      (∀ b ∈ before, ¬ LooksThreaded b) ∧
      decodeUleb (behind ++ encodeAll (.threaded 0 (by decide) l :: later)) =
        some (.ofNat 64 (ulebValue l.1), rest)

theorem dropWhile_threaded {before : List UInt8} (h : ∀ b ∈ before, ¬ LooksThreaded b)
    {b : UInt8} (hb : LooksThreaded b) (behind : List UInt8) :
    (before ++ b :: behind).dropWhile (fun b => BindOpcode.of b != .threaded) = b :: behind := by
  rw [List.dropWhile_append_of_pos fun c hc => by simpa [LooksThreaded] using h c hc,
    List.dropWhile_cons_of_neg (by simpa [LooksThreaded] using hb)]

/-- The bytes up to the first that looks like `THREADED`. -/
theorem exists_first_threaded (bs : List UInt8) :
    (∀ b ∈ bs, ¬ LooksThreaded b) ∨ ∃ before b behind, bs = before ++ b :: behind ∧
      (∀ c ∈ before, ¬ LooksThreaded c) ∧ LooksThreaded b := by
  induction bs with
  | nil => exact .inl nofun
  | cons a bs ih =>
      by_cases ha : LooksThreaded a
      · exact .inr ⟨[], a, bs, rfl, nofun, ha⟩
      · rcases ih with hnone | ⟨before, b, behind, rfl, hbefore, hb⟩
        · exact .inl (List.forall_mem_cons.mpr ⟨ha, hnone⟩)
        · exact .inr ⟨a :: before, b, behind, rfl, List.forall_mem_cons.mpr ⟨ha, hbefore⟩, hb⟩

/-- A byte that looks like the set-table-size. -/
theorem eq_of_looksThreaded {b : UInt8} (hb : LooksThreaded b)
    (himm : immOf b = threadedSetTableSize) : b = 0xd0 := by
  have hall : ∀ n < 256, BindOpcode.of (.ofNat n) = .threaded → immOf (.ofNat n) = 0 →
      UInt8.ofNat n = 0xd0 := by decide +kernel
  have h := hall b.toNat b.toNat_lt
  rw [UInt8.ofNat_toNat] at h
  exact h hb himm

/-- **The pre-pass gives the size that the loop meets if and only if** no operand before it
has a byte that looks like `THREADED`, or the first such byte happens to be followed by the
same number. -/
theorem bindTableSize_iff (is : List Instr) (l : Leb) (later : List Instr) :
    FindsSize is l later ↔ SizeInSight is l later := by
  have happ : encodeAll (is ++ .threaded 0 (by decide) l :: later) =
      encodeAll is ++ 0xd0 :: (l.1 ++ encodeAll later) := by
    simp only [encodeAll, List.flatMap_append, List.flatMap_cons]
    rfl
  have hd0 : LooksThreaded 0xd0 := by
    unfold LooksThreaded
    decide
  unfold FindsSize
  constructor
  · intro h
    rcases exists_first_threaded (encodeAll is) with hnone | ⟨before, b, behind, heq, hbefore, hb⟩
    · exact .inl hnone
    · right
      rw [happ, heq, List.append_assoc, List.cons_append, bindTableSize,
        dropWhile_threaded hbefore hb] at h
      simp only at h
      split at h
      · cases h
      · split at h
        · next himm =>
            cases hdec : decodeUleb (behind ++ 0xd0 :: (l.1 ++ encodeAll later)) with
            | none => simp [hdec] at h
            | some p =>
                simp only [hdec, TableSize.size.injEq] at h
                obtain ⟨v, rest⟩ := p
                subst h
                exact ⟨before, behind, rest, by rw [heq, eq_of_looksThreaded hb himm], hbefore, hdec⟩
        · cases h
  · rintro (hnone | ⟨before, behind, rest, heq, hbefore, hdec⟩)
    · rw [happ, bindTableSize, dropWhile_threaded hnone hd0]
      have hnot : ¬ immOf 0xd0 = threadedApply := by decide
      have hyes : immOf 0xd0 = threadedSetTableSize := by decide
      simp only [if_neg hnot, if_pos hyes, decodeUleb_append l.2]
    · rw [happ, heq, List.append_assoc, List.cons_append, bindTableSize,
        dropWhile_threaded hbefore hd0]
      have hnot : ¬ immOf 0xd0 = threadedApply := by decide
      have hyes : immOf 0xd0 = threadedSetTableSize := by decide
      have hdec' : decodeUleb (behind ++ 0xd0 :: (l.1 ++ encodeAll later)) =
          some (.ofNat 64 (ulebValue l.1), rest) := hdec
      simp only [if_neg hnot, if_pos hyes, hdec']

/-- An addend of 80 is written as `d0 00`, which looks like a table of no entries. -/
theorem not_findsSize_addend : ¬ ∀ is l later, (∀ i ∈ is, i.isThreaded = false) →
    FindsSize is l later := by
  intro h
  have hfinds := h [.setAddendSleb 0 ⟨[0xd0, 0x00], by decide⟩] ⟨[1], by decide⟩ []
    (by simp [Instr.isThreaded])
  revert hfinds
  unfold FindsSize
  decide

end Xnd.Macho
