import Xnd.Lib.SizedWalk
import Xnd.Lib.Bytes
import Mathlib.Data.Finset.Card
import Mathlib.Data.Finset.Range

/-!
# Load commands

The load commands of a Mach-O file follow its header, and each has its size in it.
`macho_find_load_command` goes through as many as the header counts; the other functions
that look for one go through them while the offset is below `sizeofcmds`, and
`segedit` takes every header for one of 64 bits.

**The walks end and agree** if and only if no command that is met has the size 0 and the
header is one of 64 bits (`walksOk_iff`): `cmdsize` is what a walk advances by, and nothing
checks it.

Memory is that from the header on, a function from addresses to bytes.
-/
namespace Xnd.Macho
open SizedWalk

/-- The memory from a header on. -/
abbrev Mem := Nat → UInt8

/-- The `n` bytes at `a`. -/
def Mem.bytes (m : Mem) (a n : Nat) : List UInt8 := (List.range n).map fun i => m (a + i)

/-- `*(u32 *)a`. -/
def Mem.u32 (m : Mem) (a : Nat) : Nat := ofLeBytes (m.bytes a 4)

/-- `bswap32`. -/
def bswap32 (v : Nat) : Nat := ofLeBytes (leBytes 4 v).reverse

def mhMagic : Nat := 0xfeedface
def mhCigam : Nat := 0xcefaedfe
def mhMagic64 : Nat := 0xfeedfacf
def mhCigam64 : Nat := 0xcffaedfe
def fatMagic : Nat := 0xcafebabe
def fatCigam : Nat := 0xbebafeca
def fatMagic64 : Nat := 0xcafebabf
def fatCigam64 : Nat := 0xbfbafeca

/-- `HEADER_IS_64BIT`. -/
def headerIs64bit (magic : Nat) : Bool :=
  magic == fatMagic64 || magic == fatCigam64 || magic == mhMagic64 || magic == mhCigam64

/-- `NEEDS_BSWAP`. -/
def needsBswap (magic : Nat) : Bool :=
  magic == mhCigam || magic == mhCigam64 || magic == fatCigam || magic == fatCigam64

namespace Mem
variable (m : Mem)

def magic : Nat := m.u32 0
def filetype : Nat := m.u32 12
def ncmds : Nat := m.u32 16
def sizeofcmds : Nat := m.u32 20

end Mem

/-- `sizeof(struct mach_header_64)`. -/
def header64Bytes : Nat := 32

/-- `sizeof(struct mach_header)`. -/
def headerBytes : Nat := 28

/-- Where the load commands start. -/
def lcStart (m : Mem) : Nat := if headerIs64bit m.magic = true then header64Bytes else headerBytes

def lcSegment : Nat := 0x1
def lcSegment64 : Nat := 0x19
def lcLoadDylib : Nat := 0xc
def lcLoadWeakDylib : Nat := 0x80000018
def lcReexportDylib : Nat := 0x8000001f

/-- `struct load_command`, with its address. -/
structure LoadCommand where
  addr : Nat
  cmd : Nat
  cmdsize : Nat
  deriving DecidableEq, Repr

/-- The load command at an address. -/
def loadCommand (m : Mem) (a : Nat) : LoadCommand := ⟨a, m.u32 a, m.u32 (a + 4)⟩

/-- The one at an offset from the first. -/
def commandAt (m : Mem) (start o : Nat) : LoadCommand := loadCommand m (start + o)

/-- `offset += cmdsize`. The offset is of 64 bits and stays below 2 ^ 33. -/
def advance (o : Nat) (lc : LoadCommand) : Nat := o + lc.cmdsize

/-- `offset += lc->cmdsize`, with an offset of 32 bits. -/
def advance32 (o : Nat) (lc : LoadCommand) : Nat := (o + lc.cmdsize) % 2 ^ 32

/-- What a pointer comes to that may be `NULL`. -/
def pointer {ρ σ : Type} : Walk ρ σ → Option ρ
  | .found r => some r
  | .ended _ => none

/-! ## The functions -/

/-- `macho_find_load_command`. -/
def machoFindLoadCommand (m : Mem) (cmd : Nat) : Option LoadCommand :=
  pointer (walkFor (commandAt m (lcStart m)) advance32 (first (·.cmd == cmd) id)
    (if needsBswap m.magic = true then bswap32 m.ncmds else m.ncmds) 0 ())

def isSegment (lc : LoadCommand) : Bool := lc.cmd == lcSegment || lc.cmd == lcSegment64

def isDylib (lc : LoadCommand) : Bool :=
  lc.cmd == lcLoadDylib || lc.cmd == lcLoadWeakDylib || lc.cmd == lcReexportDylib

/-- The walk that the three functions below have in common, for `n` turns at most. -/
def walkCommands {σ ρ : Type} (m : Mem) (start : Nat) (visit : σ → LoadCommand → ρ ⊕ σ) (s : σ)
    (n : Nat) : Option (Walk ρ σ) :=
  walkBelow (commandAt m start) advance m.sizeofcmds visit n 0 s

/-- `macho_find_segment`. -/
def machoFindSegment (m : Mem) (segIndex : BitVec 32) (n : Nat) : Option (Option LoadCommand) :=
  (walkCommands m (lcStart m) (nth isSegment segIndex (· + 1) id) 0 n).map pointer

/-- `macho_segment_name`: the address of the field `segname`. -/
def machoSegmentName (m : Mem) (segIndex : BitVec 32) (n : Nat) : Option (Option Nat) :=
  (walkCommands m (lcStart m) (nth isSegment segIndex (· + 1) (·.addr + 8)) 0 n).map pointer

/-- A name that `macho_dylib_name` returns: a literal, or one at an address. -/
inductive DylibName where
  | special (name : String)
  | at (a : Nat)
  deriving DecidableEq, Repr

/-- The names of the special ordinals. -/
def specialName (ordinal : Int) : Option DylibName :=
  if ordinal = 0 then some (.special "BIND_SPECIAL_DYLIB_SELF")
  else if ordinal = -1 then some (.special "BIND_SPECIAL_DYLIB_MAIN_EXECUTABLE")
  else if ordinal = -2 then some (.special "BIND_SPECIAL_DYLIB_FLAT_LOOKUP")
  else none

/-- The name in a dylib's load command. -/
def dylibNameAt (m : Mem) (lc : LoadCommand) : DylibName := .at (lc.addr + m.u32 (lc.addr + 8))

/-- `macho_dylib_name`. -/
def machoDylibName (m : Mem) (ordinal : Int) (special : Bool) (n : Nat) :
    Option (Option DylibName) :=
  if special = true then some (specialName ordinal)
  else (walkCommands m (lcStart m) (nth isDylib ordinal (· + 1) (dylibNameAt m)) 1 n).map
    pointer

/-- `strncmp(a, b, n) == 0`, of memory and a string that ends with a 0. -/
def strncmpEq : Nat → List UInt8 → List UInt8 → Bool
  | n + 1, a :: as, b :: bs => a == b && (a == 0 || strncmpEq n as bs)
  | _, _, _ => true

/-- A segment is the one that `segedit` looks for: `segname` has 16 bytes. -/
def hasName (m : Mem) (segname : List UInt8) (lc : LoadCommand) : Bool :=
  lc.cmd == lcSegment64 && strncmpEq 16 (m.bytes (lc.addr + 8) 16) (segname ++ [0])

/-- The loop of `segedit`. -/
def segeditFind (m : Mem) (segname : List UInt8) (n : Nat) : Option (Option LoadCommand) :=
  (walkCommands m header64Bytes (first (hasName m segname) id) () n).map pointer

/-! ## What is to hold -/

/-- The four walks end, whatever they look for. -/
structure Terminates (m : Mem) : Prop where
  findSegment : ∀ k, ∃ n r, machoFindSegment m k n = some r
  dylibName : ∀ ordinal special, ∃ n r, machoDylibName m ordinal special n = some r
  segmentName : ∀ k, ∃ n r, machoSegmentName m k n = some r
  segedit : ∀ segname : List UInt8, 0 ∉ segname → ∃ n r, segeditFind m segname n = some r

/-- The header's `ncmds` commands are `cs`, and fill `sizeofcmds`. -/
def FilledBy (m : Mem) (cs : List LoadCommand) : Prop :=
  cs.length = m.ncmds ∧ Chain (commandAt m (lcStart m)) advance 0 cs m.sizeofcmds

/-- The walks of `macho_find_load_command`, of the three functions of `macho.c` and
`xnd_macho_parse.c` and of `segedit` all visit `cs`, and the commands found for an index
are the ones at that index among those of their kind. -/
structure Agree (m : Mem) (cs : List LoadCommand) : Prop where
  counted : (walkFor (commandAt m (lcStart m)) advance32 record
    (if needsBswap m.magic = true then bswap32 m.ncmds else m.ncmds) 0 [] :
      Walk LoadCommand _) = .ended cs
  walked : ∃ n, (walkCommands m (lcStart m) record [] n : Option (Walk LoadCommand _)) =
    some (.ended cs)
  edited : ∃ n, (walkCommands m header64Bytes record [] n : Option (Walk LoadCommand _)) =
    some (.ended cs)
  loadCommand : ∀ cmd, machoFindLoadCommand m cmd = cs.find? (·.cmd == cmd)
  findSegment : ∀ k : BitVec 32, ∃ n,
    machoFindSegment m k n = some (cs.filter isSegment)[k.toNat]?
  segmentName : ∀ k : BitVec 32, ∃ n,
    machoSegmentName m k n = some ((cs.filter isSegment)[k.toNat]?.map (·.addr + 8))
  dylibName : ∀ i : Nat, ∃ n,
    machoDylibName m (i + 1) false n = some ((cs.filter isDylib)[i]?.map (dylibNameAt m))
  segedit : ∀ segname, ∃ n, segeditFind m segname n = some (cs.find? (hasName m segname))

/-- The header is one of this machine's byte order. -/
def Native (m : Mem) : Prop := needsBswap m.magic = false

/-- The walks end, and on a header of this machine's byte order whose commands fill
`sizeofcmds` they agree. -/
def WalksOk (m : Mem) : Prop :=
  Terminates m ∧ (Native m → ∀ cs, FilledBy m cs → Agree m cs)

/-- No command that is met has the size 0, and commands that fill `sizeofcmds` are behind a
header of 64 bits. -/
structure Walkable (m : Mem) : Prop where
  walks : ¬ Stalls (commandAt m (lcStart m)) advance m.sizeofcmds 0
  edits : ¬ Stalls (commandAt m header64Bytes) advance m.sizeofcmds 0
  filled : Native m → ∀ cs, FilledBy m cs →
    (∀ lc ∈ cs, lc.cmdsize ≠ 0) ∧ (cs = [] ∨ lcStart m = header64Bytes)

theorem Mem.u32_lt (m : Mem) (a : Nat) : m.u32 a < 2 ^ 32 := by
  have h := ofLeBytes_lt (m.bytes a 4)
  rwa [Mem.bytes, List.length_map, List.length_range] at h

theorem le_advance (o : Nat) (lc : LoadCommand) : o ≤ advance o lc := Nat.le_add_right _ _

theorem advance_ne {o : Nat} {lc : LoadCommand} : advance o lc ≠ o ↔ lc.cmdsize ≠ 0 := by
  unfold advance
  omega

/-- Commands end where their sizes say. -/
theorem chain_advance {get : Nat → LoadCommand} {o e : Nat} {cs : List LoadCommand}
    (h : Chain get advance o cs e) : e = o + (cs.map LoadCommand.cmdsize).sum := by
  induction cs generalizing o with
  | nil => exact (Eq.symm h).trans (Nat.add_zero o).symm
  | cons lc cs ih =>
      rw [ih h.2, advance, List.map_cons, List.sum_cons, Nat.add_assoc]

/-- The count of 32 bits that starts at 0 gets to `k` after `k` turns, and not before. -/
theorem succ_iterate (k : BitVec 32) :
    (· + 1)^[k.toNat] (0 : BitVec 32) = k ∧ ∀ j < k.toNat, (· + 1)^[j] (0 : BitVec 32) ≠ k := by
  have hiter : ∀ j, (· + 1)^[j] (0 : BitVec 32) = BitVec.ofNat 32 j := by
    intro j
    induction j with
    | zero => rfl
    | succ j ih =>
        rw [Function.iterate_succ_apply', ih]
        bv_omega
  refine ⟨by rw [hiter, BitVec.ofNat_toNat, BitVec.setWidth_eq], fun j hj => ?_⟩
  rw [hiter]
  bv_omega

/-- The count of a `long` that starts at 1. -/
theorem succ_iterate_int (i : Nat) :
    (· + 1)^[i] (1 : Int) = i + 1 ∧ ∀ j < i, (· + 1)^[j] (1 : Int) ≠ i + 1 := by
  have hiter : ∀ j : Nat, (· + 1)^[j] (1 : Int) = j + 1 := by
    intro j
    induction j with
    | zero => rfl
    | succ j ih =>
        rw [Function.iterate_succ_apply', ih]
        omega
  exact ⟨hiter i, fun j hj => by rw [hiter]; omega⟩

section
variable {m : Mem}

/-- A walk ends where no size 0 is met. -/
theorem walkCommands_ends {σ ρ : Type} {start : Nat}
    (h : ¬ Stalls (commandAt m start) advance m.sizeofcmds 0)
    (visit : σ → LoadCommand → ρ ⊕ σ) (s : σ) :
    ∃ n r, (walkCommands m start visit s n).map pointer = some r := by
  obtain ⟨n, w, hw⟩ := walkBelow_ends le_advance h visit s
  exact ⟨n, pointer w, by rw [walkCommands, hw]; rfl⟩

/-- What a walk has come to stays when it may take more turns. -/
theorem walkCommands_le {σ ρ : Type} {start n n' : Nat} {visit : σ → LoadCommand → ρ ⊕ σ} {s : σ}
    {r : Option ρ} (h : (walkCommands m start visit s n).map pointer = some r) (hle : n ≤ n') :
    (walkCommands m start visit s n').map pointer = some r := by
  obtain ⟨w, hw, hr⟩ := Option.map_eq_some_iff.mp h
  rw [walkCommands, walkBelow_le hw hle, Option.map_some, hr]

theorem terminates (hwalks : ¬ Stalls (commandAt m (lcStart m)) advance m.sizeofcmds 0)
    (hedits : ¬ Stalls (commandAt m header64Bytes) advance m.sizeofcmds 0) : Terminates m where
  findSegment _ := walkCommands_ends hwalks _ _
  dylibName ordinal special := by
    cases special with
    | true => exact ⟨0, _, rfl⟩
    | false => exact walkCommands_ends hwalks _ _
  segmentName _ := walkCommands_ends hwalks _ _
  segedit _ _ := walkCommands_ends hedits _ _

/-- A walk over commands that fill `sizeofcmds`, each of some size, folds them. -/
theorem walkCommands_filled {σ ρ : Type} {start : Nat} {cs : List LoadCommand}
    (h : Chain (commandAt m start) advance 0 cs m.sizeofcmds) (hpos : ∀ lc ∈ cs, lc.cmdsize ≠ 0)
    (visit : σ → LoadCommand → ρ ⊕ σ) (s : σ) :
    ∃ n, walkCommands m start visit s n = some (fold visit s cs) :=
  walkBelow_chain le_advance h (fun _ lc hlc => advance_ne.mpr (hpos lc hlc)) visit s

theorem pointer_nth {ι ρ : Type} [DecidableEq ι] {p : LoadCommand → Bool} {k i : ι} {succ : ι → ι}
    {r : LoadCommand → ρ} {j : Nat} (hj : succ^[j] i = k ∧ ∀ l < j, succ^[l] i ≠ k)
    (cs : List LoadCommand) :
    pointer (fold (nth p k succ r) i cs) = (cs.filter p)[j]?.map r := by
  rw [fold_nth hj.1 hj.2]
  cases (cs.filter p)[j]? <;> rfl

theorem pointer_first {ρ : Type} (p : LoadCommand → Bool) (r : LoadCommand → ρ)
    (cs : List LoadCommand) : pointer (fold (first p r) () cs) = (cs.find? p).map r := by
  rw [fold_first]
  cases cs.find? p <;> rfl

/-- **The walks agree** on commands that fill `sizeofcmds`, each of some size, behind a
header of 64 bits. -/
theorem agree {cs : List LoadCommand} (hnative : Native m) (h : FilledBy m cs)
    (hpos : ∀ lc ∈ cs, lc.cmdsize ≠ 0) (h64 : cs = [] ∨ lcStart m = header64Bytes) :
    Agree m cs := by
  obtain ⟨hlen, hchain⟩ := h
  have hncmds : (if needsBswap m.magic = true then bswap32 m.ncmds else m.ncmds) = cs.length := by
    rw [hlen, hnative, if_neg Bool.false_ne_true]
  have hchain32 : Chain (commandAt m (lcStart m)) advance32 0 cs m.sizeofcmds :=
    hchain.congr le_advance fun o lc hle => Nat.mod_eq_of_lt (Nat.lt_of_le_of_lt hle (m.u32_lt 20))
  have hedit : Chain (commandAt m header64Bytes) advance 0 cs m.sizeofcmds := by
    rcases h64 with rfl | h64
    · exact hchain
    · exact h64 ▸ hchain
  have hwalk {σ ρ : Type} (visit : σ → LoadCommand → ρ ⊕ σ) (s : σ) :
      ∃ n, (walkCommands m (lcStart m) visit s n).map pointer = some (pointer (fold visit s cs)) := by
    obtain ⟨n, hn⟩ := walkCommands_filled hchain hpos visit s
    exact ⟨n, by rw [hn]; rfl⟩
  constructor
  case counted => rw [hncmds, walkFor_chain hchain32, fold_record, List.nil_append]
  case walked =>
    obtain ⟨n, hn⟩ := walkCommands_filled hchain hpos record []
    exact ⟨n, hn.trans (by rw [fold_record, List.nil_append])⟩
  case edited =>
    obtain ⟨n, hn⟩ := walkCommands_filled hedit hpos record []
    exact ⟨n, hn.trans (by rw [fold_record, List.nil_append])⟩
  case loadCommand =>
    intro cmd
    rw [machoFindLoadCommand, hncmds, walkFor_chain hchain32, pointer_first, Option.map_id]
    rfl
  case findSegment =>
    intro k
    obtain ⟨n, hn⟩ := hwalk (nth isSegment k (· + 1) id) 0
    exact ⟨n, hn.trans (by rw [pointer_nth (succ_iterate k), Option.map_id]; rfl)⟩
  case segmentName =>
    intro k
    obtain ⟨n, hn⟩ := hwalk (nth isSegment k (· + 1) (·.addr + 8)) 0
    exact ⟨n, hn.trans (by rw [pointer_nth (succ_iterate k)])⟩
  case dylibName =>
    intro i
    obtain ⟨n, hn⟩ := hwalk (nth isDylib ((i : Int) + 1) (· + 1) (dylibNameAt m)) 1
    exact ⟨n, hn.trans (by rw [pointer_nth (succ_iterate_int i)])⟩
  case segedit =>
    intro segname
    obtain ⟨n, hn⟩ := walkCommands_filled hedit hpos (first (hasName m segname) id) ()
    exact ⟨n, by rw [segeditFind, hn, Option.map_some, pointer_first, Option.map_id]; rfl⟩

/-- The name that no dylib has: the count starts behind 0. -/
theorem machoDylibName_never (h : Stalls (commandAt m (lcStart m)) advance m.sizeofcmds 0)
    (n : Nat) : machoDylibName m 0 false n = none := by
  have hpass (o : Nat) (i : Int) (_ : o < m.sizeofcmds) (hi : 1 ≤ i) :
      ∃ i', nth isDylib 0 (· + 1) (dylibNameAt m) i (commandAt m (lcStart m) o) = .inr i' ∧
        1 ≤ i' := by
    unfold nth
    split
    · exact ⟨i + 1, if_neg (by omega), by omega⟩
    · exact ⟨i, rfl, hi⟩
  rw [machoDylibName, if_neg Bool.false_ne_true, walkCommands,
    walkBelow_never h hpass (Int.le_refl 1)]
  rfl

/-- The names of five bytes, as numbers with the digits 1 to 128. -/
def nameOf (k : Nat) : List UInt8 := (List.range 5).map fun i => .ofNat (1 + k / 128 ^ i % 128)

theorem toNat_nameOf (k i : Nat) : (UInt8.ofNat (1 + k / 128 ^ i % 128)).toNat =
    1 + k / 128 ^ i % 128 := by
  have := Nat.mod_lt (k / 128 ^ i) (show 0 < 128 by decide)
  rw [UInt8.toNat_ofNat']
  omega

theorem nonul_nameOf (k : Nat) : 0 ∉ nameOf k := by
  intro h
  obtain ⟨i, -, hi⟩ := List.mem_map.mp h
  have h0 := congrArg UInt8.toNat hi
  rw [toNat_nameOf] at h0
  simp at h0

theorem nameOf_inj {k l : Nat} (hk : k < 2 ^ 32) (hl : l < 2 ^ 32) (h : nameOf k = nameOf l) :
    k = l := by
  have hdigit : ∀ i < 5, k / 128 ^ i % 128 = l / 128 ^ i % 128 := by
    intro i hi
    have hat := congrArg (fun bs : List UInt8 => bs[i]?.map UInt8.toNat) h
    simp only [nameOf, List.getElem?_map, List.getElem?_range hi, Option.map_some,
      toNat_nameOf, Option.some.injEq] at hat
    omega
  have h0 := hdigit 0 (by decide)
  have h1 := hdigit 1 (by decide)
  have h2 := hdigit 2 (by decide)
  have h3 := hdigit 3 (by decide)
  have h4 := hdigit 4 (by decide)
  omega

/-- What compares equal to a name starts with it and its terminator. -/
theorem prefix_of_strncmpEq {n : Nat} {bs s : List UInt8} (h : strncmpEq n bs (s ++ [0]) = true)
    (hs : 0 ∉ s) (hn : s.length < n) (hbs : s.length < bs.length) : s ++ [0] <+: bs := by
  induction s generalizing n bs with
  | nil =>
      obtain ⟨n, rfl⟩ := Nat.exists_eq_succ_of_ne_zero (Nat.ne_of_gt hn)
      cases bs with
      | nil => cases hbs
      | cons b bs =>
          simp only [List.nil_append, strncmpEq, Bool.and_eq_true, beq_iff_eq] at h
          exact ⟨bs, by rw [h.1]; rfl⟩
  | cons a s ih =>
      obtain ⟨n, rfl⟩ := Nat.exists_eq_succ_of_ne_zero (Nat.ne_of_gt (Nat.zero_lt_of_lt hn))
      cases bs with
      | nil => cases hbs
      | cons b bs =>
          rw [List.mem_cons, not_or] at hs
          simp only [List.cons_append, strncmpEq, Bool.and_eq_true, beq_iff_eq,
            Bool.or_eq_true] at h
          obtain ⟨rfl, h0 | hrest⟩ := h
          · exact absurd h0.symm hs.1
          · rw [List.cons_append, List.cons_prefix_cons]
            exact ⟨rfl, ih hrest hs.2 (Nat.lt_of_succ_lt_succ hn) (Nat.lt_of_succ_lt_succ hbs)⟩

/-- Some name is that of no command: there are more names than offsets. -/
theorem exists_fresh (m : Mem) :
    ∃ k, ∀ o < m.sizeofcmds, hasName m (nameOf k) (commandAt m header64Bytes o) = false := by
  by_contra hno
  have hall : ∀ k, ∃ o, o < m.sizeofcmds ∧
      hasName m (nameOf k) (commandAt m header64Bytes o) = true := by
    intro k
    by_contra h
    exact hno ⟨k, fun o ho => Bool.eq_false_iff.mpr fun hname => h ⟨o, ho, hname⟩⟩
  choose f hlt hname using hall
  have hprefix (k : Nat) : nameOf k ++ [0] <+: m.bytes ((commandAt m header64Bytes (f k)).addr + 8) 16 := by
    have h := hname k
    rw [hasName, Bool.and_eq_true] at h
    exact prefix_of_strncmpEq h.2 (nonul_nameOf k) (by simp [nameOf]) (by simp [nameOf, Mem.bytes])
  obtain ⟨k, hk, l, hl, hne, heq⟩ := Finset.exists_ne_map_eq_of_card_lt_of_maps_to
    (s := Finset.range (m.sizeofcmds + 1)) (t := Finset.range m.sizeofcmds) (f := f)
    (by simp) (fun k _ => by simpa using hlt k)
  have hsize := m.u32_lt 20
  have hpk := hprefix k
  have hpl := hprefix l
  rw [heq] at hpk
  have hnames : nameOf k ++ [0] = nameOf l ++ [0] := by
    rcases List.prefix_or_prefix_of_prefix hpk hpl with h | h
    · exact h.eq_of_length (by simp [nameOf])
    · exact (h.eq_of_length (by simp [nameOf])).symm
  simp only [Finset.mem_range, Mem.sizeofcmds] at hk hl
  exact hne (nameOf_inj (by omega) (by omega) (List.append_cancel_right hnames))

/-- `segedit` does not end on such commands when it looks for a name that none has. -/
theorem segeditFind_never (h : Stalls (commandAt m header64Bytes) advance m.sizeofcmds 0) :
    ∃ segname, 0 ∉ segname ∧ ∀ n, segeditFind m segname n = none := by
  obtain ⟨k, hk⟩ := exists_fresh m
  refine ⟨nameOf k, nonul_nameOf k, fun n => ?_⟩
  have hpass (o : Nat) (u : Unit) (ho : o < m.sizeofcmds) (_ : True) :
      ∃ u', first (hasName m (nameOf k)) id u (commandAt m header64Bytes o) = .inr u' ∧ True :=
    ⟨(), by rw [first, hk o ho, if_neg Bool.false_ne_true], trivial⟩
  rw [segeditFind, walkCommands, walkBelow_never h hpass trivial]
  rfl

/-- The commands that two walks have seen, from a start each. -/
theorem chain_of_walk {start n : Nat} {cs : List LoadCommand}
    (h : (walkCommands m start record [] n : Option (Walk LoadCommand _)) = some (.ended cs)) :
    (∃ e, Chain (commandAt m start) advance 0 cs e) ∧ ∀ lc ∈ cs, lc.cmdsize ≠ 0 := by
  obtain ⟨as, e, hcs, hchain, hmoved⟩ := walkBelow_record h
  rw [List.nil_append] at hcs
  subst hcs
  refine ⟨⟨e, hchain⟩, fun lc hlc => ?_⟩
  obtain ⟨o, ho⟩ := hmoved lc hlc
  exact advance_ne.mp ho

/-- **The walks end and agree if and only if** no command that is met has the size 0, and
commands that fill `sizeofcmds` are behind a header of 64 bits. -/
theorem walksOk_iff (m : Mem) : WalksOk m ↔ Walkable m := by
  constructor
  · rintro ⟨hends, hagree⟩
    constructor
    case walks =>
      intro h
      obtain ⟨n, r, hr⟩ := hends.dylibName 0 false
      cases (machoDylibName_never h n).symm.trans hr
    case edits =>
      intro h
      obtain ⟨segname, hnonul, hnever⟩ := segeditFind_never h
      obtain ⟨n, r, hr⟩ := hends.segedit segname hnonul
      cases (hnever n).symm.trans hr
    case filled =>
      intro hnative cs hfilled
      obtain ⟨n, hn⟩ := (hagree hnative cs hfilled).edited
      obtain ⟨⟨e, hedited⟩, hpos⟩ := chain_of_walk hn
      refine ⟨hpos, ?_⟩
      cases cs with
      | nil => exact .inl rfl
      | cons lc cs =>
          -- both walks see the same first command, so they start at the same address
          have haddr := congrArg LoadCommand.addr (hfilled.2.1.trans hedited.1.symm)
          exact .inr haddr
  · intro h
    refine ⟨terminates h.walks h.edits, fun hnative cs hfilled => ?_⟩
    obtain ⟨hpos, h64⟩ := h.filled hnative cs hfilled
    exact agree hnative hfilled hpos h64

end

/-- A header of 64 bits with one command, whose size is 0. -/
def stalled : Mem := fun a =>
  [0xcf, 0xfa, 0xed, 0xfe, 12, 0, 0, 1, 0, 0, 0, 0, 2, 0, 0, 0, 1, 0, 0, 0, 8, 0, 0, 0,
    0, 0, 0, 0, 0, 0, 0, 0, 0x1b, 0, 0, 0, 0, 0, 0, 0].getD a 0

/-- On it the walk of `macho_dylib_name` does not end. -/
theorem not_walksOk_stalled : ¬ ∀ m, WalksOk m := by
  intro h
  obtain ⟨n, r, hr⟩ := (h stalled).1.dylibName 0 false
  have hstalls : Stalls (commandAt stalled (lcStart stalled)) advance stalled.sizeofcmds 0 :=
    ⟨0, .refl, by decide, by decide⟩
  cases (machoDylibName_never hstalls n).symm.trans hr

end Xnd.Macho
