import Mathlib.Algebra.Group.Nat.Defs
import Mathlib.Data.FinEnum
import Xnd.Macho.Commands
import Xnd.Macho.Opcodes
import Mathlib.Data.List.GetD
import Mathlib.Order.Filter.AtTopBot.Basic
import Mathlib.Order.Filter.Finite

/-!
# Chains of fixups

`macho_parse_fixup_chains` with `macho_walk_fixup_chain` behind its `APPLY`, on a file that
is mapped. Every place of the source that reads or writes without having looked is an
outcome of its own here: the cursor at the end of the opcodes, a `DO_BIND` without a place
in the table, a read outside of the file, and a loop that does not end.

**The parse is safe**, whatever the allocator does, if and only if the opcodes are orderly
(`isSafe_iff`): whole instructions, up to the end or up to one that is rejected, whose
`DO_BIND`s have places and whose chains stay where they belong.

The loops of the source have no bound; `n` is one, and what holds for all `n` from some one
on holds of the source. The texts that are printed are left out.
-/
namespace Xnd.Macho
open Leb128 SizedWalk Filter

/-- `struct macho_all_info`: the file, where its header is, and where behind the header the
command `LC_DYLD_INFO_ONLY` is. -/
structure MachoAllInfo where
  file : List UInt8
  mh : Nat
  cmd : Nat
  deriving DecidableEq, Repr

/-- `sizeof(struct fixup_entry)`. -/
def fixupEntryBytes : Nat := 48

/-- Where the field `fileoff` comes to. -/
inductive Fileoff where
  | at (o : BitVec 64)
  | outside
  | unknown
  deriving DecidableEq, Repr

namespace MachoAllInfo
variable (info : MachoAllInfo)

/-- The memory from the header on. -/
def mem : Mem := fun a => info.file.getD (info.mh + a) 0

def bindOff : Nat := info.mem.u32 (info.cmd + 16)
def bindSize : Nat := info.mem.u32 (info.cmd + 20)

/-- The opcodes, as far as they are in the file. -/
def area : List UInt8 := (info.file.drop (info.mh + info.bindOff)).take info.bindSize

/-- The opcodes go on behind the end of the file. -/
def cut : Bool := info.area.length != info.bindSize

/-- The number of `w` bytes at a place of the file. -/
def number (a w : Nat) : Option Nat :=
  if a + w ≤ info.file.length then some (ofLeBytes ((info.file.drop a).take w)) else none

/-- The place of `(u8 *)info->mh + offset` in the file. -/
def place (o : BitVec 64) : Nat := (info.mh + o.toNat) % 2 ^ 64

/-- `*(u64 *)` of a pointer. -/
def value (o : BitVec 64) : Option (BitVec 64) := (info.number (info.place o) 8).map (.ofNat 64)

/-- The `fileoff` of a segment. -/
def fileoff (seg : LoadCommand) : Fileoff :=
  if seg.cmd = lcSegment then
    match info.number (info.mh + seg.addr + 32) 4 with
    | some v => .at (.ofNat 64 v)
    | none => .outside
  else if seg.cmd = lcSegment64 then
    match info.number (info.mh + seg.addr + 40) 8 with
    | some v => .at (.ofNat 64 v)
    | none => .outside
  else .unknown

end MachoAllInfo

/-- Bit 62: the pointer is a bind. -/
def isBind (value : BitVec 64) : Bool := value.getLsbD 62

/-- `value & 0xFFFF`. -/
def ordinalOf (value : BitVec 64) : Nat := (value &&& 0xffff).toNat

/-- `(value >> 51) & 0x7FF`. -/
def nextOf (value : BitVec 64) : BitVec 64 := (value >>> 51) &&& 0x7ff

/-- An entry with its place only. -/
def blankEntry (info : MachoAllInfo) (segIndex : BitVec 32) (o : BitVec 64) : FixupEntry :=
  { FixupEntry.zero with addr := info.place o, segIndex := segIndex }

/-- The entry of a chain for the pointer at an offset. -/
def chainEntry (info : MachoAllInfo) (segIndex : BitVec 32) (ordinals : List FixupEntry)
    (o value : BitVec 64) : FixupEntry :=
  if isBind value = true then
    { ordinals.getD (ordinalOf value) .zero with addr := info.place o, segIndex := segIndex }
  else blankEntry info segIndex o

section
variable (info : MachoAllInfo) (alloc : Nat → Bool)

/-- The loop of `macho_walk_fixup_chain`; `alloc` says for how many bytes `realloc` does not
fail. -/
def chainLoop (segIndex : BitVec 32) (ordinals : List FixupEntry) (nordinals : Nat) :
    Nat → BitVec 64 → List FixupEntry → Nat → Walked
  | 0, _, _, _ => .unended
  | n + 1, o, chain, cap =>
      if chain.length = cap ∧ alloc (cap * 2 * fixupEntryBytes) = false then
        .returned (-1) chain (cap * 2)
      else
        match info.value o with
        | none => .outside
        | some value =>
            if isBind value = true ∧ nordinals ≤ ordinalOf value then
              -- The entry has been counted already.
              .returned (-1) (chain ++ [blankEntry info segIndex o])
                (if chain.length = cap then cap * 2 else cap)
            else if nextOf value = 0 then
              .returned 0 (chain ++ [chainEntry info segIndex ordinals o value])
                (if chain.length = cap then cap * 2 else cap)
            else
              chainLoop segIndex ordinals nordinals n (o + nextOf value * 8)
                (chain ++ [chainEntry info segIndex ordinals o value])
                (if chain.length = cap then cap * 2 else cap)

/-- `macho_walk_fixup_chain`. -/
def machoWalkFixupChain (n : Nat) (s : ParseState) : Walked :=
  match machoFindSegment info.mem s.regs.segIndex n with
  | none => .unended
  | some none => .returned (-1) s.chain s.chainCap
  | some (some seg) =>
      match info.fileoff seg with
      | .unknown => .returned (-1) s.chain s.chainCap
      | .outside => .outside
      | .at fileoff =>
          chainLoop info alloc s.regs.segIndex s.ordinals s.tableIdx n
            (fileoff + s.regs.segOffset) s.chain s.chainCap

/-- The walks of `macho_print_fixup` end. -/
def printEnds (n : Nat) (e : FixupEntry) : Bool :=
  (machoSegmentName info.mem e.segIndex n).isSome &&
    ((info.number e.addr 8).all fun v => !isBind (.ofNat 64 v) ||
      (machoDylibName info.mem e.libOrdinal.toInt e.special n).isSome)

/-- How `macho_parse_fixup_chains` ends. -/
inductive Outcome where
  | returned (ret : Int) (chain : List FixupEntry)
  | aborted
  | pastEnd
  | overflow
  | outside
  | unended
  deriving DecidableEq, Repr

/-- Behind the loop of `macho_parse_fixup_chains`. The loop has ended at the end of what is in
the file. -/
def afterLoop (n : Nat) : Why × ParseState → Outcome
  | (.ended, s) =>
      if info.cut = true then .outside
      else if s.chain.all (printEnds info n) = true then .returned 0 s.chain
      else .unended
  | (.failed ret, s) => .returned ret s.chain
  | (.aborted, _) => .aborted
  | (.pastEnd, _) => .pastEnd
  | (.overflow, _) => .overflow
  | (.outside, _) => .outside
  | (.unended, _) => .unended

/-- `macho_parse_fixup_chains`. -/
def machoParseFixupChains (n : Nat) : Outcome :=
  match bindTableSize info.area with
  | .pastEnd => .pastEnd
  | .aborted =>
      if info.cut = true ∧ ∀ b ∈ info.area, BindOpcode.of b ≠ .threaded then .outside else .aborted
  | .size t =>
      if 2 ^ 64 ≤ t.toNat * fixupEntryBytes ∨ alloc (t.toNat * fixupEntryBytes) = false ∨
          alloc (256 * fixupEntryBytes) = false then
        .returned (-1) []
      else
        afterLoop info n
          (parse (machoWalkFixupChain info alloc n) (.start t.toNat) info.area)

end

/-! ## What is to hold -/

/-- The pointer of an entry lies in the contents of its segment. -/
def InSegment (info : MachoAllInfo) (e : FixupEntry) : Prop :=
  ∃ n seg fileoff, machoFindSegment info.mem e.segIndex n = some (some seg) ∧
    info.fileoff seg = .at fileoff ∧ info.mh + fileoff.toNat ≤ e.addr ∧
    e.addr + 8 ≤ info.mh + fileoff.toNat +
      if seg.cmd = lcSegment then info.mem.u32 (seg.addr + 36)
      else ofLeBytes (info.mem.bytes (seg.addr + 48) 8)

/-- It has ended and stayed in bounds, and the chains that it returns 0 for stay in their
segments. -/
def Outcome.Good (info : MachoAllInfo) : Outcome → Prop
  | .returned ret chain => ret = 0 → ∀ e ∈ chain, InSegment info e
  | .aborted => True
  | .pastEnd | .overflow | .outside | .unended => False

/-- The parse is safe, whatever the allocator does. -/
def IsSafe (info : MachoAllInfo) : Prop :=
  ∀ alloc : Nat → Bool, ∀ᶠ n in atTop, (machoParseFixupChains info alloc n).Good info

/-! ## Orderly opcodes -/

/-- An opcode that the loop has no case for, or one that it aborts at. -/
def BindOpcode.isRejected : BindOpcode → Bool
  | .addAddrUleb | .doBindAddAddrUleb | .doBindAddAddrImmScaled
  | .doBindUlebTimesSkippingUleb | .unknown => true
  | _ => false

/-- The registers after instructions. -/
def Registers.after (is : List Instr) : Registers := is.foldl Registers.step .init

section
variable (info : MachoAllInfo)

/-- A bind's ordinal is in the table. -/
def InTable (nordinals : Nat) (value : BitVec 64) : Prop :=
  isBind value = true → ordinalOf value < nordinals

/-- The chain from an offset on is in the file, up to a pointer with no next one, and the
ordinals are in the table. -/
inductive Chained (nordinals : Nat) : BitVec 64 → List (BitVec 64) → Prop
  | last {o value : BitVec 64} (hvalue : info.value o = some value)
      (htable : InTable nordinals value) (hnext : nextOf value = 0) : Chained nordinals o [o]
  | link {o value : BitVec 64} {os : List (BitVec 64)} (hvalue : info.value o = some value)
      (htable : InTable nordinals value) (hnext : nextOf value ≠ 0)
      (hrest : Chained nordinals (o + nextOf value * 8) os) : Chained nordinals o (o :: os)

/-- The chain from an offset on is in the file up to an ordinal that is not in the table. -/
inductive Refused (nordinals : Nat) : BitVec 64 → Prop
  | here {o value : BitVec 64} (hvalue : info.value o = some value)
      (htable : ¬ InTable nordinals value) : Refused nordinals o
  | link {o value : BitVec 64} (hvalue : info.value o = some value)
      (htable : InTable nordinals value) (hnext : nextOf value ≠ 0)
      (hrest : Refused nordinals (o + nextOf value * 8)) : Refused nordinals o

variable (is : List Instr)

/-- What `macho_find_segment` finds behind instructions. -/
def Finds (seg : Option LoadCommand) : Prop :=
  ∃ n, machoFindSegment info.mem (Registers.after is).segIndex n = some seg

/-- Where a chain starts. -/
def StartsAt (o : BitVec 64) : Prop :=
  ∃ seg fileoff, Finds info is (some seg) ∧ info.fileoff seg = .at fileoff ∧
    o = fileoff + (Registers.after is).segOffset

/-- The chain of an `APPLY` behind instructions is whole. -/
def Whole (os : List (BitVec 64)) : Prop :=
  ∃ o, StartsAt info is o ∧ Chained info (binds is) o os

/-- An `APPLY` behind instructions is turned down. -/
inductive TurnedDown : Prop
  | noSegment (hfinds : Finds info is none)
  | noOffset {seg : LoadCommand} (hfinds : Finds info is (some seg))
      (hfileoff : info.fileoff seg = .unknown)
  | refused {o : BitVec 64} (hstarts : StartsAt info is o)
      (hrefused : Refused info (binds is) o)

/-- The entry for the pointer at an offset. -/
def entryAt (segIndex : BitVec 32) (ordinals : List FixupEntry) (o : BitVec 64) : FixupEntry :=
  chainEntry info segIndex ordinals o ((info.value o).getD 0)

/-- An entry of the chains of instructions. -/
def Noted (e : FixupEntry) : Prop :=
  ∃ before os, before ++ [.apply] <+: is ∧ Whole info before os ∧
    ∃ o ∈ os, entryAt info (Registers.after before).segIndex (recorded .init before) o = e

/-- `macho_print_fixup` ends. -/
def Printable (e : FixupEntry) : Prop := ∃ n, printEnds info n e = true

/-- What is behind instructions: the end of the opcodes, in the file and with all that is
noted in its segments, or what is rejected. -/
inductive EndsWell : List UInt8 → Prop
  | whole (hcut : info.cut = false)
      (hnoted : ∀ e, Noted info is e → InSegment info e ∧ Printable info e) : EndsWell []
  | rejected {b : UInt8} (hb : (BindOpcode.of b).isRejected = true) (rest : List UInt8) :
      EndsWell (b :: rest)
  | turnedDown (h : TurnedDown info is) (rest : List UInt8) :
      EndsWell (Instr.apply.encode ++ rest)

/-- Instructions that the loop gets through, with what is behind them. -/
structure InOrder (tableSize : Nat) (tail : List UInt8) : Prop where
  fits : binds is ≤ tableSize
  chains : ∀ before, before ++ [.apply] <+: is → ∃ os, Whole info before os
  ends : EndsWell info is tail

/-- The opcodes are orderly. A table that does not fit the memory is one that nothing is
read for. -/
def Orderly : Prop :=
  match bindTableSize info.area with
  | .pastEnd => False
  | .aborted => info.cut = true → ∃ b ∈ info.area, LooksThreaded b
  | .size t =>
      2 ^ 64 ≤ t.toNat * fixupEntryBytes ∨
        ∃ is tail, info.area = encodeAll is ++ tail ∧ InOrder info is t.toNat tail

end

/-! ## The walk of a chain -/

section
variable {info : MachoAllInfo} {alloc : Nat → Bool}

/-- Only the ordinals of the table matter to a chain. -/
theorem entryAt_append {ordinals : List FixupEntry} {o value : BitVec 64}
    (hvalue : info.value o = some value) (htable : InTable ordinals.length value)
    (segIndex : BitVec 32) (more : List FixupEntry) :
    entryAt info segIndex (ordinals ++ more) o = entryAt info segIndex ordinals o := by
  rw [entryAt, entryAt, hvalue, Option.getD_some, chainEntry, chainEntry]
  split
  · next hbind => rw [List.getD_append _ _ _ _ (htable hbind)]
  · rfl

theorem Chained.map_entryAt {ordinals : List FixupEntry} {o : BitVec 64} {os : List (BitVec 64)}
    (h : Chained info ordinals.length o os) (segIndex : BitVec 32) (more : List FixupEntry) :
    os.map (entryAt info segIndex (ordinals ++ more)) = os.map (entryAt info segIndex ordinals) := by
  induction h with
  | last hvalue htable hnext =>
      rw [List.map_singleton, List.map_singleton, entryAt_append hvalue htable]
  | link hvalue htable hnext hrest ih =>
      rw [List.map_cons, List.map_cons, entryAt_append hvalue htable, ih]

/-- A walk that returns 0 has gone through a whole chain. -/
theorem chained_of_chainLoop {segIndex : BitVec 32} {ordinals : List FixupEntry}
    {nordinals n cap cap' : Nat} {o : BitVec 64} {chain chain' : List FixupEntry}
    (h : chainLoop info alloc segIndex ordinals nordinals n o chain cap = .returned 0 chain' cap') :
    ∃ os, Chained info nordinals o os ∧ chain' = chain ++ os.map (entryAt info segIndex ordinals) := by
  induction n generalizing o chain cap with
  | zero => cases h
  | succ n ih =>
      rw [chainLoop] at h
      split at h
      · cases h
      · split at h
        · cases h
        · next value hvalue =>
            have hentry : chainEntry info segIndex ordinals o value =
                entryAt info segIndex ordinals o := by rw [entryAt, hvalue, Option.getD_some]
            split at h
            · cases h
            · next htable =>
                have htable' : InTable nordinals value := fun hb =>
                  Nat.lt_of_not_le fun hle => htable ⟨hb, hle⟩
                split at h
                · next hnext =>
                    cases h
                    exact ⟨[o], .last hvalue htable' hnext, by rw [hentry]; rfl⟩
                · next hnext =>
                    obtain ⟨os, hos, hchain⟩ := ih h
                    refine ⟨o :: os, .link hvalue htable' hnext hos, ?_⟩
                    rw [hchain, hentry, List.append_assoc]
                    rfl

/-- A walk that does not run out of memory and returns something else has met an ordinal that
is not in the table. -/
theorem refused_of_chainLoop {segIndex : BitVec 32} {ordinals : List FixupEntry}
    {nordinals n cap cap' : Nat} {o : BitVec 64} {chain chain' : List FixupEntry} {ret : Int}
    (hret : ret ≠ 0)
    (h : chainLoop info (fun _ => true) segIndex ordinals nordinals n o chain cap =
      .returned ret chain' cap') : Refused info nordinals o := by
  induction n generalizing o chain cap with
  | zero => cases h
  | succ n ih =>
      rw [chainLoop, if_neg fun hfull => Bool.noConfusion hfull.2] at h
      split at h
      · cases h
      · next value hvalue =>
          split at h
          · next htable => exact .here hvalue fun hin => Nat.not_lt.mpr htable.2 (hin htable.1)
          · next htable =>
              have htable' : InTable nordinals value := fun hb =>
                Nat.lt_of_not_le fun hle => htable ⟨hb, hle⟩
              split at h
              · cases h
                exact absurd rfl hret
              · next hnext => exact .link hvalue htable' hnext (ih h)

/-- The walk goes through a whole chain, or runs out of memory. -/
theorem Chained.chainLoop {segIndex : BitVec 32} {ordinals : List FixupEntry}
    {nordinals n cap : Nat} {o : BitVec 64} {os : List (BitVec 64)}
    (h : Chained info nordinals o os) (hn : os.length ≤ n) (chain : List FixupEntry) :
    (∃ chain' cap', chainLoop info alloc segIndex ordinals nordinals n o chain cap =
      .returned 0 chain' cap') ∨
    (∃ k, alloc k = false) ∧ ∃ chain' cap',
      chainLoop info alloc segIndex ordinals nordinals n o chain cap = .returned (-1) chain' cap' := by
  induction h generalizing n chain cap with
  | last hvalue htable hnext =>
      obtain ⟨n, rfl⟩ := Nat.exists_eq_add_of_le' (show 1 ≤ n from hn)
      rw [Macho.chainLoop]
      split
      · next hfull => exact .inr ⟨⟨_, hfull.2⟩, _, _, rfl⟩
      · simp only [hvalue]
        rw [if_neg fun hout => Nat.not_le.mpr (htable hout.1) hout.2, if_pos hnext]
        exact .inl ⟨_, _, rfl⟩
  | link hvalue htable hnext hrest ih =>
      obtain ⟨n, rfl⟩ := Nat.exists_eq_add_of_le' (Nat.zero_lt_of_lt hn)
      rw [Macho.chainLoop]
      split
      · next hfull => exact .inr ⟨⟨_, hfull.2⟩, _, _, rfl⟩
      · simp only [hvalue]
        rw [if_neg fun hout => Nat.not_le.mpr (htable hout.1) hout.2, if_neg hnext]
        exact ih (Nat.le_of_succ_le_succ hn) _

/-- The walk returns -1 at an ordinal that is not in the table. -/
theorem Refused.chainLoop {nordinals : Nat} {o : BitVec 64} (h : Refused info nordinals o) :
    ∀ᶠ n in atTop, ∀ segIndex ordinals chain cap, ∃ chain' cap',
      chainLoop info alloc segIndex ordinals nordinals n o chain cap = .returned (-1) chain' cap' := by
  induction h with
  | here hvalue htable =>
      filter_upwards [eventually_ge_atTop 1] with n hn segIndex ordinals chain cap
      obtain ⟨n, rfl⟩ := Nat.exists_eq_add_of_le' hn
      rw [Macho.chainLoop]
      split
      · exact ⟨_, _, rfl⟩
      · simp only [hvalue]
        rw [InTable, Classical.not_imp, Nat.not_lt] at htable
        rw [if_pos htable]
        exact ⟨_, _, rfl⟩
  | link hvalue htable hnext hrest ih =>
      rw [eventually_atTop] at ih ⊢
      obtain ⟨k, hk⟩ := ih
      refine ⟨k + 1, fun n hn segIndex ordinals chain cap => ?_⟩
      obtain ⟨n, rfl⟩ := Nat.exists_eq_add_of_le' (Nat.zero_lt_of_lt hn)
      rw [Macho.chainLoop]
      split
      · exact ⟨_, _, rfl⟩
      · simp only [hvalue]
        rw [if_neg fun hout => Nat.not_le.mpr (htable hout.1) hout.2, if_neg hnext]
        exact hk n (Nat.le_of_succ_le_succ hn) _ _ _ _

/-! ## The walk behind instructions -/

variable {is : List Instr}

theorem Finds.eventually {seg : Option LoadCommand} (h : Finds info is seg) :
    ∀ᶠ n in atTop, machoFindSegment info.mem (Registers.after is).segIndex n = some seg := by
  obtain ⟨k, hk⟩ := h
  exact (eventually_ge_atTop k).mono fun n hn => walkCommands_le hk hn

theorem Finds.unique {seg seg' : Option LoadCommand} (h : Finds info is seg)
    (h' : Finds info is seg') : seg = seg' := by
  obtain ⟨n, hn, hn'⟩ := (h.eventually.and h'.eventually).exists
  exact Option.some.inj (hn.symm.trans hn')

theorem StartsAt.unique {o o' : BitVec 64} (h : StartsAt info is o) (h' : StartsAt info is o') :
    o = o' := by
  obtain ⟨seg, fileoff, hfinds, hfileoff, rfl⟩ := h
  obtain ⟨seg', fileoff', hfinds', hfileoff', rfl⟩ := h'
  cases hfinds.unique hfinds'
  cases hfileoff.symm.trans hfileoff'
  rfl

theorem Chained.unique {nordinals : Nat} {o : BitVec 64} {os os' : List (BitVec 64)}
    (h : Chained info nordinals o os) (h' : Chained info nordinals o os') : os = os' := by
  induction h generalizing os' with
  | last hvalue htable hnext =>
      cases h' with
      | last => rfl
      | link hvalue' htable' hnext' hrest' =>
          cases hvalue.symm.trans hvalue'
          exact absurd hnext hnext'
  | link hvalue htable hnext hrest ih =>
      cases h' with
      | last hvalue' htable' hnext' =>
          cases hvalue.symm.trans hvalue'
          exact absurd hnext' hnext
      | link hvalue' htable' hnext' hrest' =>
          cases hvalue.symm.trans hvalue'
          rw [ih hrest']

theorem Whole.unique {os os' : List (BitVec 64)} (h : Whole info is os) (h' : Whole info is os') :
    os = os' := by
  obtain ⟨o, hstarts, hchained⟩ := h
  obtain ⟨o', hstarts', hchained'⟩ := h'
  cases hstarts.unique hstarts'
  exact hchained.unique hchained'

/-- The variables behind instructions, with a table of `t` entries. -/
structure Reaches (info : MachoAllInfo) (is : List Instr) (t : Nat) (s : ParseState) : Prop where
  regs : s.regs = .after is
  fits : binds is ≤ t
  tableIdx : s.tableIdx = binds is
  ordinals : s.ordinals = recorded .init is ++ List.replicate (t - binds is) .zero
  chains : ∀ before, before ++ [.apply] <+: is → ∃ os, Whole info before os
  chain : ∀ e, e ∈ s.chain ↔ Noted info is e

section
variable {t n : Nat} {s : ParseState}

/-- A walk that returns 0 notes a whole chain. -/
theorem Reaches.whole (h : Reaches info is t s) {chain : List FixupEntry} {cap : Nat}
    (hwalk : machoWalkFixupChain info alloc n s = .returned 0 chain cap) :
    ∃ os, Whole info is os ∧
      chain = s.chain ++ os.map (entryAt info (Registers.after is).segIndex (recorded .init is)) := by
  rw [machoWalkFixupChain, h.regs, h.tableIdx] at hwalk
  split at hwalk
  · cases hwalk
  · cases hwalk
  · next seg hfind =>
      split at hwalk
      · cases hwalk
      · cases hwalk
      · next fileoff hfileoff =>
          obtain ⟨os, hos, hchain⟩ := chained_of_chainLoop hwalk
          refine ⟨os, ⟨_, ⟨seg, fileoff, ⟨n, hfind⟩, hfileoff, rfl⟩, hos⟩, ?_⟩
          rw [← length_recorded .init] at hos
          rw [hchain, h.ordinals, hos.map_entryAt]

/-- One that does not, and does not run out of memory, is turned down. -/
theorem Reaches.turnedDown (h : Reaches info is t s) {chain : List FixupEntry} {cap : Nat}
    {ret : Int} (hret : ret ≠ 0)
    (hwalk : machoWalkFixupChain info (fun _ => true) n s = .returned ret chain cap) :
    TurnedDown info is := by
  rw [machoWalkFixupChain, h.regs, h.tableIdx] at hwalk
  split at hwalk
  · cases hwalk
  · next hfind => exact .noSegment ⟨n, hfind⟩
  · next seg hfind =>
      split at hwalk
      · next hfileoff => exact .noOffset ⟨n, hfind⟩ hfileoff
      · cases hwalk
      · next fileoff hfileoff =>
          exact .refused ⟨seg, fileoff, ⟨n, hfind⟩, hfileoff, rfl⟩ (refused_of_chainLoop hret hwalk)

/-- The walk of a whole chain returns 0 or runs out of memory. -/
theorem Whole.walk {os : List (BitVec 64)} (h : Whole info is os) :
    ∀ᶠ n in atTop, ∀ t s, Reaches info is t s →
      (∃ chain cap, machoWalkFixupChain info alloc n s = .returned 0 chain cap) ∨
      (∃ k, alloc k = false) ∧
        ∃ chain cap, machoWalkFixupChain info alloc n s = .returned (-1) chain cap := by
  obtain ⟨o, ⟨seg, fileoff, hfinds, hfileoff, rfl⟩, hchained⟩ := h
  filter_upwards [hfinds.eventually, eventually_ge_atTop os.length] with n hfind hn t s hs
  rw [machoWalkFixupChain, hs.regs, hs.tableIdx]
  simp only [hfind, hfileoff]
  exact hchained.chainLoop hn s.chain

/-- The walk of one that is turned down returns -1. -/
theorem TurnedDown.walk (h : TurnedDown info is) :
    ∀ᶠ n in atTop, ∀ t s, Reaches info is t s →
      ∃ chain cap, machoWalkFixupChain info alloc n s = .returned (-1) chain cap := by
  cases h with
  | noSegment hfinds =>
      filter_upwards [hfinds.eventually] with n hfind t s hs
      rw [machoWalkFixupChain, hs.regs]
      simp only [hfind]
      exact ⟨_, _, rfl⟩
  | noOffset hfinds hfileoff =>
      filter_upwards [hfinds.eventually] with n hfind t s hs
      rw [machoWalkFixupChain, hs.regs]
      simp only [hfind, hfileoff]
      exact ⟨_, _, rfl⟩
  | refused hstarts hrefused =>
      obtain ⟨seg, fileoff, hfinds, hfileoff, rfl⟩ := hstarts
      filter_upwards [hfinds.eventually, hrefused.chainLoop] with n hfind hloop t s hs
      rw [machoWalkFixupChain, hs.regs, hs.tableIdx]
      simp only [hfind, hfileoff]
      exact hloop _ s.ordinals s.chain s.chainCap

end

/-! ## Runs of instructions -/

theorem Registers.after_concat (is : List Instr) (i : Instr) :
    Registers.after (is ++ [i]) = (Registers.after is).step i := List.foldl_concat ..

/-- What is noted behind one more instruction. -/
theorem noted_concat {i : Instr} {e : FixupEntry} :
    Noted info (is ++ [i]) e ↔ Noted info is e ∨ i = .apply ∧ ∃ os, Whole info is os ∧
      ∃ o ∈ os, entryAt info (Registers.after is).segIndex (recorded .init is) o = e := by
  constructor
  · rintro ⟨before, os, hbefore, hos, o, ho, he⟩
    rcases List.prefix_concat_iff.mp hbefore with heq | hbefore
    · obtain ⟨rfl, hi⟩ := List.append_inj' heq rfl
      cases hi
      exact .inr ⟨rfl, os, hos, o, ho, he⟩
    · exact .inl ⟨before, os, hbefore, hos, o, ho, he⟩
  · rintro (⟨before, os, hbefore, hrest⟩ | ⟨rfl, os, hrest⟩)
    · exact ⟨before, os, hbefore.trans (List.prefix_append _ _), hrest⟩
    · exact ⟨is, os, List.prefix_rfl, hrest⟩

/-- What an `APPLY` leaves when the loop goes on. -/
theorem step_apply {walk : ParseState → Walked} {s s' : ParseState}
    (h : step walk s .apply = .inl s') : ∃ cap, walk s = .returned 0 s'.chain cap := by
  rw [step, apply] at h
  split at h
  · next ret chain cap hwalk =>
      split at h
      · next hret =>
          subst hret
          cases h
          exact ⟨cap, hwalk⟩
      · cases h
  · cases h
  · cases h

/-- The other instructions leave the chain alone. -/
theorem step_chain {walk : ParseState → Walked} {s s' : ParseState} {i : Instr} (hi : i ≠ .apply)
    (h : step walk s i = .inl s') : s'.chain = s.chain := by
  cases i with
  | apply => exact absurd rfl hi
  | doBind imm =>
      rw [step, doBind] at h
      split at h
      · cases h; rfl
      · cases h
  | done | setDylibOrdinalImm | setDylibOrdinalUleb | setDylibSpecialImm | setSymbol
  | setTypeImm | setAddendSleb | setSegmentAndOffset | threaded => cases h; rfl

theorem runInstrs_concat {walk : ParseState → Walked} {s t : ParseState} {i : Instr}
    (h : runInstrs walk s (is ++ [i]) = .inl t) :
    ∃ u, runInstrs walk s is = .inl u ∧ step walk u i = .inl t := by
  rw [runInstrs_append] at h
  cases hrun : runInstrs walk s is with
  | inr stop => simp [hrun] at h
  | inl u =>
      simp only [hrun, runInstrs] at h
      cases hstep : step walk u i with
      | inr why => simp [hstep] at h
      | inl t' => exact ⟨u, rfl, by simpa [hstep] using h⟩

/-- The table behind a run. -/
theorem table_of_run {walk : ParseState → Walked} {t : Nat} {s : ParseState}
    (h : runInstrs walk (.start t) is = .inl s) (hfits : binds is ≤ t) :
    s.tableIdx = binds is ∧
      s.ordinals = recorded .init is ++ List.replicate (t - binds is) .zero := by
  have hend : parse walk (.start t) (encodeAll is) = (.ended, s) := by rw [parse_encodeAll', h]
  obtain ⟨why, k, s', hparse, hstop, hidx, hordinals⟩ := parse_table walk hfits
  cases hend.symm.trans hparse
  obtain rfl : k = is.length := hstop.elim And.right fun h => absurd rfl h.1
  rw [List.take_length] at hidx hordinals
  exact ⟨hidx, hordinals⟩

section
variable {t n : Nat} {i : Instr} {s u : ParseState}

theorem Reaches.length_ordinals (h : Reaches info is t u) : u.ordinals.length = t := by
  rw [h.ordinals, List.length_append, length_recorded, List.length_replicate,
    Nat.add_sub_cancel' h.fits]

/-- A `DO_BIND` that the loop gets through has a place. -/
theorem Reaches.fits_concat (h : Reaches info is t u) {walk : ParseState → Walked}
    (hstep : step walk u i = .inl s) : binds (is ++ [i]) ≤ t := by
  obtain ⟨-, htable⟩ := step_inl hstep
  rw [binds_concat]
  split
  · next hbind =>
      rw [if_pos hbind, h.tableIdx, h.length_ordinals] at htable
      exact htable.1
  · exact h.fits

/-- An `APPLY` that it gets through has a whole chain. -/
theorem Reaches.chains_concat (h : Reaches info is t u)
    (hstep : step (machoWalkFixupChain info alloc n) u i = .inl s) (before : List Instr)
    (hbefore : before ++ [.apply] <+: is ++ [i]) : ∃ os, Whole info before os := by
  rcases List.prefix_concat_iff.mp hbefore with heq | hbefore
  · obtain ⟨rfl, hi⟩ := List.append_inj' heq rfl
    cases hi
    obtain ⟨cap, hwalk⟩ := step_apply hstep
    obtain ⟨os, hos, -⟩ := h.whole hwalk
    exact ⟨os, hos⟩
  · exact h.chains before hbefore

/-- And what it leaves in the chain is what is noted. -/
theorem Reaches.chain_concat (h : Reaches info is t u)
    (hstep : step (machoWalkFixupChain info alloc n) u i = .inl s) (e : FixupEntry) :
    e ∈ s.chain ↔ Noted info (is ++ [i]) e := by
  rw [noted_concat, ← h.chain]
  by_cases hi : i = .apply
  · subst hi
    obtain ⟨cap, hwalk⟩ := step_apply hstep
    obtain ⟨os, hos, hchain⟩ := h.whole hwalk
    rw [hchain, List.mem_append, List.mem_map]
    constructor
    · rintro (hold | hnew)
      · exact .inl hold
      · exact .inr ⟨rfl, os, hos, hnew⟩
    · rintro (hold | ⟨-, os', hos', hnew⟩)
      · exact .inl hold
      · exact .inr (hos.unique hos' ▸ hnew)
  · rw [step_chain hi hstep]
    exact ⟨.inl, fun h => h.elim id fun h => absurd h.1 hi⟩

end

/-- **A run leaves** the registers, the table and the chain of its instructions. -/
theorem reaches_of_run {t n : Nat} {s : ParseState}
    (h : runInstrs (machoWalkFixupChain info alloc n) (.start t) is = .inl s) :
    Reaches info is t s := by
  -- What an instruction notes depends on those before it, so the last one is split off.
  induction is using List.reverseRecOn generalizing s with
  | nil =>
      cases h
      have hnone (before : List Instr) : ¬ before ++ [.apply] <+: [] := by
        rw [List.prefix_nil, List.append_eq_nil_iff]
        exact fun hnil => List.cons_ne_nil _ _ hnil.2
      exact ⟨rfl, Nat.zero_le t, rfl, rfl, fun before hbefore => absurd hbefore (hnone before),
        fun e => ⟨nofun, fun ⟨before, _, hbefore, _⟩ => absurd hbefore (hnone before)⟩⟩
  | append_singleton is i ih =>
      obtain ⟨u, hu, hstep⟩ := runInstrs_concat h
      have hreach := ih hu
      have hfits := hreach.fits_concat hstep
      obtain ⟨hidx, hordinals⟩ := table_of_run h hfits
      refine ⟨?_, hfits, hidx, hordinals, hreach.chains_concat hstep, hreach.chain_concat hstep⟩
      rw [(step_inl hstep).1, hreach.regs, Registers.after_concat]

/-- **A run gets through** instructions whose `DO_BIND`s have places and whose chains are
whole, or runs out of memory. -/
theorem eventually_run (alloc : Nat → Bool) {t : Nat} (hfits : binds is ≤ t)
    (hchains : ∀ before, before ++ [.apply] <+: is → ∃ os, Whole info before os) :
    ∀ᶠ n in atTop,
      (∃ s, runInstrs (machoWalkFixupChain info alloc n) (.start t) is = .inl s) ∨
      (∃ k, alloc k = false) ∧
        ∃ s, runInstrs (machoWalkFixupChain info alloc n) (.start t) is = .inr (.failed (-1), s) := by
  induction is using List.reverseRecOn with
  | nil => exact .of_forall fun n => .inl ⟨_, rfl⟩
  | append_singleton is i ih =>
      rw [binds_concat] at hfits
      have hrun := ih (Nat.le_of_add_right_le hfits) fun before hbefore =>
        hchains before (hbefore.trans (List.prefix_append _ _))
      -- The state depends on the bound, so the bound must do for every state.
      have hstep : ∀ᶠ n in atTop, ∀ s, Reaches info is t s →
          (∃ u, step (machoWalkFixupChain info alloc n) s i = .inl u) ∨
          (∃ k, alloc k = false) ∧
            step (machoWalkFixupChain info alloc n) s i = .inr (.failed (-1)) := by
        cases i with
        | apply =>
            obtain ⟨os, hos⟩ := hchains is List.prefix_rfl
            filter_upwards [hos.walk] with n hwalk s hs
            rcases hwalk t s hs with ⟨chain, cap, hw⟩ | ⟨halloc, chain, cap, hw⟩
            · exact .inl ⟨_, by rw [step, apply, hw]; rfl⟩
            · exact .inr ⟨halloc, by rw [step, apply, hw]; rfl⟩
        | doBind imm =>
            refine .of_forall fun n s hs => .inl ?_
            have hlt : s.tableIdx < s.ordinals.length := by
              rw [hs.tableIdx, hs.length_ordinals]
              exact hfits
            exact ⟨_, if_pos hlt⟩
        | done | setDylibOrdinalImm | setDylibOrdinalUleb | setDylibSpecialImm | setSymbol
        | setTypeImm | setAddendSleb | setSegmentAndOffset | threaded =>
            exact .of_forall fun n s hs => .inl ⟨_, rfl⟩
      filter_upwards [hrun, hstep] with n hrun hstep
      rw [runInstrs_append]
      rcases hrun with ⟨s, hs⟩ | ⟨halloc, s, hs⟩
      · simp only [hs, runInstrs]
        rcases hstep s (reaches_of_run hs) with ⟨u, hu⟩ | ⟨halloc, hu⟩
        · exact .inl ⟨u, by rw [hu]⟩
        · exact .inr ⟨halloc, s, by rw [hu]⟩
      · exact .inr ⟨halloc, s, by rw [hs]⟩

/-! ## Bytes as instructions -/

/-- `op` of an opcode. -/
def BindOpcode.bits : BindOpcode → Nat
  | .done => 0x00
  | .setDylibOrdinalImm => 0x10
  | .setDylibOrdinalUleb => 0x20
  | .setDylibSpecialImm => 0x30
  | .setSymbolTrailingFlagsImm => 0x40
  | .setTypeImm => 0x50
  | .setAddendSleb => 0x60
  | .setSegmentAndOffsetUleb => 0x70
  | .addAddrUleb => 0x80
  | .doBind => 0x90
  | .doBindAddAddrUleb => 0xa0
  | .doBindAddAddrImmScaled => 0xb0
  | .doBindUlebTimesSkippingUleb => 0xc0
  | .threaded => 0xd0
  | .unknown => 0xe0

theorem exists_byte (b : UInt8) :
    BindOpcode.of b = .unknown ∨
      ∃ imm : Fin 16, immOf b = imm.val ∧ b = byte (BindOpcode.of b).bits imm := by
  have hall : ∀ n < 256, BindOpcode.of (.ofNat n) = .unknown ∨
      ∃ imm : Fin 16, immOf (.ofNat n) = imm.val ∧
        UInt8.ofNat n = byte (BindOpcode.of (.ofNat n)).bits imm := by decide +kernel
  have h := hall b.toNat b.toNat_lt
  rwa [UInt8.ofNat_toNat] at h

theorem cstring_eq_none {bs : List UInt8} (h : (0 : UInt8) ∉ bs) : cstring bs = none := by
  induction bs with
  | nil => rfl
  | cons b bs ih =>
      rw [List.mem_cons, not_or] at h
      rw [cstring, if_neg (Ne.symm h.1), ih h.2]
      rfl

/-- The operand of the opcode is not all there. -/
def Truncated (b : UInt8) (rest : List UInt8) : Prop :=
  ∀ walk s, turn walk s b rest = .stop .pastEnd s

/-- Bytes start with an instruction, with an opcode that is rejected, or with one whose operand
is not all there. -/
theorem exists_instr (b : UInt8) (rest : List UInt8) :
    (∃ (i : Instr) (rest' : List UInt8), b :: rest = i.encode ++ rest') ∨
      (BindOpcode.of b).isRejected = true ∨ Truncated b rest := by
  rcases exists_byte b with hunknown | ⟨imm, himm, hb⟩
  · exact .inr (.inl (by rw [hunknown]; rfl))
  have huleb : (∃ l : Leb, ∃ rest', rest = l.1 ++ rest') ∨ decodeUleb rest = none := by
    rcases isLeb_or_more rest with ⟨l, rest', hrest, hl⟩ | hmore
    · exact .inl ⟨⟨l, hl⟩, rest', hrest⟩
    · exact .inr (ulebLoop_more hmore 0 0)
  cases hop : BindOpcode.of b with
  | done => rw [hop] at hb; exact .inl ⟨.done imm, rest, congrArg (· :: rest) hb⟩
  | setDylibOrdinalImm =>
      rw [hop] at hb
      exact .inl ⟨.setDylibOrdinalImm imm, rest, congrArg (· :: rest) hb⟩
  | setDylibOrdinalUleb =>
      rw [hop] at hb
      rcases huleb with ⟨l, rest', hrest⟩ | hnone
      · exact .inl ⟨.setDylibOrdinalUleb imm l, rest', by rw [hb, hrest]; rfl⟩
      · exact .inr (.inr fun walk s => by simp only [turn, hop, hnone]; rfl)
  | setDylibSpecialImm =>
      rw [hop] at hb
      exact .inl ⟨.setDylibSpecialImm imm, rest, congrArg (· :: rest) hb⟩
  | setSymbolTrailingFlagsImm =>
      rw [hop] at hb
      by_cases hzero : (0 : UInt8) ∈ rest
      · obtain ⟨name, rest', hrest, hname⟩ := List.eq_append_cons_of_mem hzero
        exact .inl ⟨.setSymbol imm ⟨name, hname⟩, rest', by
          rw [hb, hrest, Instr.encode, List.cons_append, List.append_assoc]; rfl⟩
      · exact .inr (.inr fun walk s => by simp only [turn, hop, cstring_eq_none hzero]; rfl)
  | setTypeImm => rw [hop] at hb; exact .inl ⟨.setTypeImm imm, rest, congrArg (· :: rest) hb⟩
  | setAddendSleb =>
      rw [hop] at hb
      rcases isLeb_or_more rest with ⟨l, rest', hrest, hl⟩ | hmore
      · exact .inl ⟨.setAddendSleb imm ⟨l, hl⟩, rest', by rw [hb, hrest]; rfl⟩
      · have hnone : decodeSleb rest = none := slebLoop_more hmore 0 0
        exact .inr (.inr fun walk s => by simp only [turn, hop, hnone]; rfl)
  | setSegmentAndOffsetUleb =>
      rw [hop] at hb
      rcases huleb with ⟨l, rest', hrest⟩ | hnone
      · exact .inl ⟨.setSegmentAndOffset imm l, rest', by rw [hb, hrest]; rfl⟩
      · exact .inr (.inr fun walk s => by simp only [turn, hop, hnone]; rfl)
  | doBind => rw [hop] at hb; exact .inl ⟨.doBind imm, rest, congrArg (· :: rest) hb⟩
  | threaded =>
      rw [hop] at hb
      by_cases happly : imm.val = threadedApply
      · obtain rfl : imm = 1 := Fin.ext happly
        exact .inl ⟨.apply, rest, congrArg (· :: rest) hb⟩
      · rcases huleb with ⟨l, rest', hrest⟩ | hnone
        · exact .inl ⟨.threaded imm happly l, rest', by rw [hb, hrest]; rfl⟩
        · exact .inr (.inr fun walk s => by
            simp only [turn, hop, himm, if_pos happly, hnone]; rfl)
  | addAddrUleb | doBindAddAddrUleb | doBindAddAddrImmScaled | doBindUlebTimesSkippingUleb
  | unknown => exact .inr (.inl rfl)

/-- **The opcodes are instructions**, up to the end or to what is not one. -/
theorem exists_instrs (area : List UInt8) :
    ∃ is tail, area = encodeAll is ++ tail ∧ (tail = [] ∨ ∃ b rest, tail = b :: rest ∧
      ((BindOpcode.of b).isRejected = true ∨ Truncated b rest)) := by
  induction hlen : area.length using Nat.strong_induction_on generalizing area with
  | _ k ih =>
      subst hlen
      cases area with
      | nil => exact ⟨[], [], rfl, .inl rfl⟩
      | cons b rest =>
          rcases exists_instr b rest with ⟨i, rest', hcons⟩ | hstuck
          · have hlt : rest'.length < (b :: rest).length := by
              obtain ⟨c, tl, hencode, -⟩ := turn_encode noChain (.start 0) i rest'
              rw [hcons, hencode, List.length_append, List.length_cons]
              omega
            obtain ⟨is, tail, hrest, htail⟩ := ih _ hlt rest' rfl
            refine ⟨i :: is, tail, ?_, htail⟩
            rw [hcons, hrest, encodeAll, encodeAll, List.flatMap_cons, List.append_assoc]
          · exact ⟨[], b :: rest, rfl, .inr ⟨b, rest, rfl, hstuck⟩⟩

/-! ## The parse -/

theorem printEnds_le {n m : Nat} {e : FixupEntry} (h : printEnds info n e = true) (hle : n ≤ m) :
    printEnds info m e = true := by
  rw [printEnds, Bool.and_eq_true] at h ⊢
  obtain ⟨hsegment, hdylib⟩ := h
  constructor
  · obtain ⟨r, hr⟩ := Option.isSome_iff_exists.mp hsegment
    exact Option.isSome_iff_exists.mpr ⟨r, walkCommands_le hr hle⟩
  · rw [Option.all_eq_true] at hdylib ⊢
    intro v hv
    have hbefore := hdylib v hv
    rw [Bool.or_eq_true] at hbefore ⊢
    rcases hbefore with hnot | hname
    · exact .inl hnot
    · obtain ⟨r, hr⟩ := Option.isSome_iff_exists.mp hname
      refine .inr (Option.isSome_iff_exists.mpr ⟨r, ?_⟩)
      rw [machoDylibName] at hr ⊢
      split at hr
      · next hspecial => rwa [if_pos hspecial]
      · next hspecial =>
          rw [if_neg hspecial]
          exact walkCommands_le hr hle

/-- What instructions note is finite: all of it is printed with one bound. -/
theorem eventually_printEnds {t : Nat} (hfits : binds is ≤ t)
    (hchains : ∀ before, before ++ [.apply] <+: is → ∃ os, Whole info before os)
    (hprint : ∀ e, Noted info is e → Printable info e) :
    ∀ᶠ n in atTop, ∀ e, Noted info is e → printEnds info n e = true := by
  -- One run shows all that is noted.
  obtain ⟨n, hn⟩ := (eventually_run (fun _ => true) hfits hchains).exists
  obtain ⟨s, hs⟩ : ∃ s, runInstrs (machoWalkFixupChain info (fun _ => true) n) (.start t) is =
      .inl s := hn.elim id fun h => h.1.elim fun k hk => Bool.noConfusion hk
  have hchain := (reaches_of_run hs).chain
  have hall : ∀ᶠ n in atTop, ∀ e ∈ {e | e ∈ s.chain}, printEnds info n e = true := by
    rw [eventually_all_finite s.chain.finite_toSet]
    intro e he
    obtain ⟨k, hk⟩ := hprint e ((hchain e).mp he)
    exact (eventually_ge_atTop k).mono fun n hle => printEnds_le hk hle
  filter_upwards [hall] with n hall e he
  exact hall e ((hchain e).mpr he)

/-- The loop stops at an opcode that is rejected. -/
theorem parse_rejected {b : UInt8} (hb : (BindOpcode.of b).isRejected = true)
    (walk : ParseState → Walked) (s : ParseState) (rest : List UInt8) :
    parse walk s (b :: rest) = (.aborted, s) ∨ parse walk s (b :: rest) = (.failed (-1), s) := by
  rw [parse_cons, turn]
  cases hop : BindOpcode.of b with
  | addAddrUleb | doBindAddAddrUleb | doBindAddAddrImmScaled | doBindUlebTimesSkippingUleb =>
      exact .inl rfl
  | unknown => exact .inr rfl
  | done | setDylibOrdinalImm | setDylibOrdinalUleb | setDylibSpecialImm
  | setSymbolTrailingFlagsImm | setTypeImm | setAddendSleb | setSegmentAndOffsetUleb | doBind
  | threaded =>
      rw [hop] at hb
      cases hb

theorem good_failed {n : Nat} (s : ParseState) : (afterLoop info n (.failed (-1), s)).Good info :=
  fun h => by cases h

/-- **Opcodes in order end well**, whatever the allocator does. -/
theorem InOrder.eventually_good {t : Nat} {tail : List UInt8} (h : InOrder info is t tail)
    (alloc : Nat → Bool) :
    ∀ᶠ n in atTop, (afterLoop info n (parse (machoWalkFixupChain info alloc n) (.start t)
      (encodeAll is ++ tail))).Good info := by
  have hrun := eventually_run alloc h.fits h.chains
  cases h.ends with
  | whole hcut hnoted =>
      have hprint := eventually_printEnds h.fits h.chains fun e he => (hnoted e he).2
      filter_upwards [hrun, hprint] with n hrun hprint
      rw [parse_encodeAll]
      rcases hrun with ⟨s, hs⟩ | ⟨-, s, hs⟩
      · have hchain := (reaches_of_run hs).chain
        have hall : s.chain.all (printEnds info n) = true :=
          List.all_eq_true.mpr fun e he => hprint e ((hchain e).mp he)
        rw [hs]
        show (afterLoop info n (.ended, s)).Good info
        rw [afterLoop, if_neg (by rw [hcut]; exact Bool.false_ne_true), if_pos hall]
        exact fun _ e he => (hnoted e ((hchain e).mp he)).1
      · rw [hs]
        exact good_failed s
  | rejected hb rest =>
      filter_upwards [hrun] with n hrun
      rw [parse_encodeAll]
      rcases hrun with ⟨s, hs⟩ | ⟨-, s, hs⟩
      · rw [hs]
        rcases parse_rejected hb (machoWalkFixupChain info alloc n) s rest with hstop | hstop
        · simp only [hstop]
          exact trivial
        · simp only [hstop]
          exact good_failed s
      · rw [hs]
        exact good_failed s
  | turnedDown hdown rest =>
      filter_upwards [hrun, hdown.walk] with n hrun hwalk
      rw [parse_encodeAll]
      rcases hrun with ⟨s, hs⟩ | ⟨-, s, hs⟩
      · obtain ⟨chain, cap, hw⟩ := hwalk t s (reaches_of_run hs)
        have hstop := parse_encodeAll (machoWalkFixupChain info alloc n) s [.apply] rest
        have hstep : step (machoWalkFixupChain info alloc n) s .apply = .inr (.failed (-1)) := by
          rw [step, apply, hw]
          rfl
        rw [runInstrs, hstep] at hstop
        rw [hs]
        simp only [encodeAll, List.flatMap_singleton] at hstop
        simp only [hstop]
        exact good_failed s
      · rw [hs]
        exact good_failed s

/-- Where a run stops. -/
theorem runInstrs_stop {walk : ParseState → Walked} {s s' : ParseState} {why : Why}
    (h : runInstrs walk s is = .inr (why, s')) :
    ∃ before i behind, is = before ++ i :: behind ∧ runInstrs walk s before = .inl s' ∧
      step walk s' i = .inr why := by
  induction is generalizing s with
  | nil => cases h
  | cons i is ih =>
      rw [runInstrs] at h
      cases hstep : step walk s i with
      | inl t =>
          simp only [hstep] at h
          obtain ⟨before, j, behind, rfl, hrun, hstop⟩ := ih h
          exact ⟨i :: before, j, behind, rfl, by simp only [runInstrs, hstep, hrun], hstop⟩
      | inr why' =>
          simp only [hstep] at h
          cases h
          exact ⟨[], i, is, rfl, rfl, hstep⟩

/-- **What ends well is in order**, when the memory does not run out. -/
theorem inOrder_of_good {t n : Nat}
    (h : (afterLoop info n (parse (machoWalkFixupChain info (fun _ => true) n) (.start t)
      info.area)).Good info) :
    ∃ is tail, info.area = encodeAll is ++ tail ∧ InOrder info is t tail := by
  obtain ⟨is, tail, harea, htail⟩ := exists_instrs info.area
  rw [harea, parse_encodeAll] at h
  cases hrun : runInstrs (machoWalkFixupChain info (fun _ => true) n) (.start t) is with
  | inl s =>
      have hreach := reaches_of_run hrun
      rw [hrun] at h
      refine ⟨is, tail, harea, hreach.fits, hreach.chains, ?_⟩
      rcases htail with rfl | ⟨b, rest, rfl, hrejected | htruncated⟩
      · have hend : (afterLoop info n (.ended, s)).Good info := h
        rw [afterLoop] at hend
        split at hend
        · cases hend
        · next hcut =>
            split at hend
            · next hall =>
                refine .whole (Bool.not_eq_true _ ▸ hcut) fun e he => ?_
                have hmem := (hreach.chain e).mpr he
                exact ⟨hend rfl e hmem, n, List.all_eq_true.mp hall e hmem⟩
            · cases hend
      · exact .rejected hrejected rest
      · simp only [parse_cons, htruncated _ s] at h
        cases h
  | inr stop =>
      obtain ⟨why, s⟩ := stop
      obtain ⟨before, i, behind, rfl, hbefore, hstep⟩ := runInstrs_stop hrun
      have hreach := reaches_of_run hbefore
      rw [hrun] at h
      -- What is behind the instruction that the loop stops at does not matter.
      refine ⟨before, i.encode ++ (encodeAll behind ++ tail), ?_, hreach.fits, hreach.chains, ?_⟩
      · rw [harea, encodeAll, encodeAll, encodeAll, List.flatMap_append, List.flatMap_cons]
        simp only [List.append_assoc]
      · rcases step_inr hstep with ⟨-, -, rfl⟩ | ⟨rfl, -⟩
        · cases h
        · refine .turnedDown ?_ _
          rw [step, apply] at hstep
          split at hstep
          · next ret chain cap hwalk =>
              split at hstep
              · cases hstep
              · next hret => exact hreach.turnedDown hret hwalk
          · cases hstep
            cases h
          · cases hstep
            cases h

end

/-- A file with `LC_DYLD_INFO_ONLY` as its only command, and the opcodes behind it. -/
def withOpcodes (opcodes : List UInt8) : MachoAllInfo where
  file := leBytes 4 mhMagic64 ++ List.replicate 12 0 ++ leBytes 4 1 ++ leBytes 4 48 ++
    List.replicate 8 0 ++ leBytes 4 0x80000022 ++ leBytes 4 48 ++ List.replicate 8 0 ++
    leBytes 4 80 ++ leBytes 4 opcodes.length ++ List.replicate 24 0 ++ opcodes
  mh := 0
  cmd := 32

/-- A `DO_BIND` behind the size 1 has its place. -/
example : Orderly (withOpcodes [0xd0, 0x01, 0x90]) := by
  have hsize : bindTableSize (withOpcodes [0xd0, 0x01, 0x90]).area = .size 1 := by decide
  have harea : (withOpcodes [0xd0, 0x01, 0x90]).area = encodeAll [tableOfOne, .doBind 0] ++ [] := by
    decide
  have hnone (before : List Instr) : ¬ before ++ [.apply] <+: [tableOfOne, .doBind 0] := by
    intro hbefore
    have hmem := hbefore.subset (List.mem_append_right before List.mem_cons_self)
    revert hmem
    decide
  rw [Orderly, hsize]
  exact .inr ⟨_, _, harea, by decide, fun before hbefore => absurd hbefore (hnone before),
    .whole (by decide) fun e ⟨before, _, hbefore, _⟩ => absurd hbefore (hnone before)⟩

end Xnd.Macho
