import Xnd.Lib.CString
import Xnd.Macho.Commands
import Mathlib.Algebra.Group.Action.Defs
import Mathlib.Algebra.Order.BigOperators.Group.List
import Mathlib.Data.List.GetD

/-!
# Adding a segment

`segcreate` of `segpatch.c` writes a segment with one section behind the load commands of
an executable that is mapped into memory, and counts it in the header. What was behind the
load commands is padding only if the linker has left enough of it: nothing is checked.

The pages of a mapping go on behind the end of the file, up to the end of its last page;
what is written there is in no file, and a store behind it faults.

**The image is patched as intended** if and only if the new command lies in front of the
contents of every section, within the file, and the names fit (`patches_iff`).
-/
namespace Xnd.Macho
open SizedWalk

/-- The memory of a file that is mapped. -/
def memOf (f : List UInt8) : Mem := fun a => f.getD a 0

def mhExecute : Nat := 2

/-- `S_ZEROFILL`. -/
def sZerofill : Nat := 1

/-- `sizeof(struct segment_command_64)`. -/
def segmentBytes : Nat := 72

/-- `sizeof(struct section_64)`. -/
def sectionBytes : Nat := 80

/-- The size of the new command. -/
def newcmdBytes : Nat := segmentBytes + sectionBytes

/-- The options of `segpatch`. -/
structure Options where
  vmaddr : BitVec 64
  vmsize : BitVec 64
  initprot : BitVec 32
  maxprot : BitVec 32
  segname : CStr
  sectname : CStr

/-- A field of 16 bytes after `strncpy`. -/
def nameField (s : List UInt8) : List UInt8 := s.take 16 ++ List.replicate (16 - s.length) 0

/-- `struct segment_command_64`, as `segcreate` fills it in. -/
def Options.segment (g : Options) : List UInt8 :=
  leBytes 4 lcSegment64 ++ (leBytes 4 newcmdBytes ++ (nameField g.segname.bytes ++
    (leBytes 8 g.vmaddr.toNat ++ (leBytes 8 g.vmsize.toNat ++ (leBytes 8 0 ++ (leBytes 8 0 ++
      (leBytes 4 g.maxprot.toNat ++ (leBytes 4 g.initprot.toNat ++
        (leBytes 4 1 ++ leBytes 4 0)))))))))

/-- `struct section_64`, as `segcreate` fills it in. -/
def Options.sectionOf (g : Options) : List UInt8 :=
  nameField g.sectname.bytes ++ (nameField g.segname.bytes ++ (leBytes 8 g.vmaddr.toNat ++
    (leBytes 8 g.vmsize.toNat ++ (leBytes 4 0 ++ (leBytes 4 14 ++ (leBytes 4 0 ++ (leBytes 4 0 ++
      (leBytes 4 sZerofill ++ (leBytes 4 0 ++ (leBytes 4 0 ++ leBytes 4 0))))))))))

/-- Where the new command goes. -/
def cmdsEnd (m : Mem) : Nat := header64Bytes + m.sizeofcmds

/-- The stores of `segcreate`, in their order. -/
def segcreateStores (m : Mem) (g : Options) : List (Nat × List UInt8) :=
  [(cmdsEnd m, g.segment), (cmdsEnd m + segmentBytes, g.sectionOf),
    (16, leBytes 4 (m.ncmds + 1)), (20, leBytes 4 (m.sizeofcmds + newcmdBytes))]

/-- Stores, one after the other. -/
def storeAll (o : List UInt8) : List (Nat × List UInt8) → Option (List UInt8)
  | [] => some o
  | w :: ws => (store o w.1 w.2).bind fun o' => storeAll o' ws

/-- `segcreate`, on the pages of a mapping: what it returns, and what is in them then. -/
def segcreate (image : List UInt8) (g : Options) : Option (Int × List UInt8) :=
  if (memOf image).magic ≠ mhMagic64 ∨ (memOf image).filetype ≠ mhExecute then some (-1, image)
  else (storeAll image (segcreateStores (memOf image) g)).map fun o => (0, o)

/-- The pages of a mapping of a file. -/
def mapPages (pageSize : Nat) (f : List UInt8) : List UInt8 :=
  f ++ List.replicate ((pageSize - f.length % pageSize) % pageSize) 0

/-! ## What is to hold -/

/-- `*(u64 *)a`. -/
def Mem.u64 (m : Mem) (a : Nat) : Nat := ofLeBytes (m.bytes a 8)

/-- The name in a field of 16 bytes. -/
def Mem.name (m : Mem) (a : Nat) : List UInt8 := (m.bytes a 16).takeWhile (· ≠ 0)

/-- What is in a `struct segment_command_64`. -/
structure SegmentCommand where
  cmd : Nat
  cmdsize : Nat
  segname : List UInt8
  vmaddr : Nat
  vmsize : Nat
  fileoff : Nat
  filesize : Nat
  maxprot : Nat
  initprot : Nat
  nsects : Nat
  flags : Nat
  deriving DecidableEq, Repr

/-- What is in a `struct section_64`. -/
structure Section64 where
  sectname : List UInt8
  segname : List UInt8
  addr : Nat
  size : Nat
  offset : Nat
  align : Nat
  reloff : Nat
  nreloc : Nat
  flags : Nat
  deriving DecidableEq, Repr

def segmentAt (m : Mem) (a : Nat) : SegmentCommand where
  cmd := m.u32 a
  cmdsize := m.u32 (a + 4)
  segname := m.name (a + 8)
  vmaddr := m.u64 (a + 24)
  vmsize := m.u64 (a + 32)
  fileoff := m.u64 (a + 40)
  filesize := m.u64 (a + 48)
  maxprot := m.u32 (a + 56)
  initprot := m.u32 (a + 60)
  nsects := m.u32 (a + 64)
  flags := m.u32 (a + 68)

def sectionAt (m : Mem) (a : Nat) : Section64 where
  sectname := m.name a
  segname := m.name (a + 16)
  addr := m.u64 (a + 32)
  size := m.u64 (a + 40)
  offset := m.u32 (a + 48)
  align := m.u32 (a + 52)
  reloff := m.u32 (a + 56)
  nreloc := m.u32 (a + 60)
  flags := m.u32 (a + 64)

/-- The segment that the options describe. -/
def Options.newSegment (g : Options) : SegmentCommand :=
  ⟨lcSegment64, newcmdBytes, g.segname.bytes, g.vmaddr.toNat, g.vmsize.toNat, 0, 0,
    g.maxprot.toNat, g.initprot.toNat, 1, 0⟩

/-- Its section. -/
def Options.newSection (g : Options) : Section64 :=
  ⟨g.sectname.bytes, g.segname.bytes, g.vmaddr.toNat, g.vmsize.toNat, 0, 14, 0, 0, sZerofill⟩

/-- `S_GB_ZEROFILL` and `S_THREAD_LOCAL_ZEROFILL`, beside `S_ZEROFILL`: the types of sections
without contents in the file. -/
def zerofillTypes : List Nat := [sZerofill, 0xc, 0x12]

/-- A section has contents in the file. -/
def Section64.HasContents (s : Section64) : Prop := s.size ≠ 0 ∧ s.flags % 256 ∉ zerofillTypes

instance (s : Section64) : Decidable s.HasContents := inferInstanceAs (Decidable (_ ∧ _))

/-- The sections of the segments among load commands. -/
def sectionsOf (m : Mem) (cs : List LoadCommand) : List Section64 :=
  (cs.filter (·.cmd == lcSegment64)).flatMap fun c =>
    (List.range (segmentAt m c.addr).nsects).map fun i =>
      sectionAt m (c.addr + segmentBytes + sectionBytes * i)

/-- An executable of 64 bits with the load commands `cs`, whose header is consistent. -/
structure Consistent (f : List UInt8) (cs : List LoadCommand) : Prop where
  magic : (memOf f).magic = mhMagic64
  filetype : (memOf f).filetype = mhExecute
  filled : FilledBy (memOf f) cs
  inFile : cmdsEnd (memOf f) ≤ f.length
  sizes : ∀ c ∈ cs, 8 ≤ c.cmdsize
  contents : ∀ s ∈ sectionsOf (memOf f) cs, s.HasContents →
    cmdsEnd (memOf f) ≤ s.offset ∧ s.offset + s.size ≤ f.length

/-- The file `f` has become `f'`: its load commands are the old ones and the new segment
with its section, the rest is unchanged, and nothing was stored to the contents of a
section. -/
structure Patched (f : List UInt8) (cs : List LoadCommand) (g : Options) (f' : List UInt8) :
    Prop where
  length : f'.length = f.length
  commands : FilledBy (memOf f') (cs ++ [⟨cmdsEnd (memOf f), lcSegment64, newcmdBytes⟩])
  inFile : cmdsEnd (memOf f') ≤ f'.length
  segment : segmentAt (memOf f') (cmdsEnd (memOf f)) = g.newSegment
  sect : sectionAt (memOf f') (cmdsEnd (memOf f) + segmentBytes) = g.newSection
  others : ∀ i, ¬ (16 ≤ i ∧ i < 24) →
    ¬ (cmdsEnd (memOf f) ≤ i ∧ i < cmdsEnd (memOf f) + newcmdBytes) → f'[i]? = f[i]?
  contents : ∀ w ∈ segcreateStores (memOf f) g, ∀ s ∈ sectionsOf (memOf f) cs,
    s.HasContents → w.1 + w.2.length ≤ s.offset ∨ s.offset + s.size ≤ w.1

/-- If `segcreate` returns 0, then the file is patched. -/
def Patches (pageSize : Nat) (f : List UInt8) (cs : List LoadCommand) (g : Options) : Prop :=
  ∀ image, segcreate (mapPages pageSize f) g = some (0, image) →
    Patched f cs g (image.take f.length)

/-- The new command has room: in front of the contents of every section, in the file and in
the count of its bytes, and its names in their fields. -/
structure HasRoom (f : List UInt8) (cs : List LoadCommand) (g : Options) : Prop where
  inFile : cmdsEnd (memOf f) + newcmdBytes ≤ f.length
  counted : (memOf f).sizeofcmds + newcmdBytes < 2 ^ 32
  segname : g.segname.bytes.length ≤ 16
  sectname : g.sectname.bytes.length ≤ 16
  padding : ∀ s ∈ sectionsOf (memOf f) cs, s.HasContents →
    cmdsEnd (memOf f) + newcmdBytes ≤ s.offset

/-! ## Reading what was stored -/

/-- The bytes `bs` are at `a`. -/
def HoldsAt (m : Mem) (a : Nat) (bs : List UInt8) : Prop := ∀ i < bs.length, m (a + i) = bs.getD i 0

section
variable {m : Mem} {a : Nat}

theorem HoldsAt.append {bs cs : List UInt8} (h : HoldsAt m a (bs ++ cs)) :
    HoldsAt m a bs ∧ HoldsAt m (a + bs.length) cs := by
  constructor
  · intro i hi
    rw [h i (by rw [List.length_append]; omega), List.getD_append _ _ _ _ hi]
  · intro i hi
    rw [Nat.add_assoc, h (bs.length + i) (by rw [List.length_append]; omega),
      List.getD_append_right _ _ _ _ (by omega), Nat.add_sub_cancel_left]

theorem HoldsAt.bytes {bs : List UInt8} (h : HoldsAt m a bs) : m.bytes a bs.length = bs := by
  apply List.ext_getElem
  · rw [Mem.bytes, List.length_map, List.length_range]
  · intro i hi hi'
    simp only [Mem.bytes, List.getElem_map, List.getElem_range]
    rw [h i hi', List.getD_eq_getElem _ _ hi']

theorem HoldsAt.u32 {v : Nat} (h : HoldsAt m a (leBytes 4 v)) : m.u32 a = v % 2 ^ 32 := by
  have hb := h.bytes
  rw [length_leBytes] at hb
  have hpow : 256 ^ 4 = 2 ^ 32 := by decide
  rw [Mem.u32, hb, ofLeBytes_leBytes, hpow]

theorem HoldsAt.u64 {v : Nat} (h : HoldsAt m a (leBytes 8 v)) : m.u64 a = v % 2 ^ 64 := by
  have hb := h.bytes
  rw [length_leBytes] at hb
  have hpow : 256 ^ 8 = 2 ^ 64 := by decide
  rw [Mem.u64, hb, ofLeBytes_leBytes, hpow]

theorem length_nameField (s : List UInt8) : (nameField s).length = 16 := by
  rw [nameField, List.length_append, List.length_take, List.length_replicate]
  omega

/-- A name that fits is read back. -/
theorem HoldsAt.name {s : CStr} (h : HoldsAt m a (nameField s.bytes))
    (hs : s.bytes.length ≤ 16) : m.name a = s.bytes := by
  have hb := h.bytes
  rw [length_nameField] at hb
  have hall : ∀ b ∈ s.bytes, decide (b ≠ 0) = true := fun b hb =>
    decide_eq_true fun h0 => s.nonul (h0 ▸ hb)
  rw [Mem.name, hb, nameField, List.take_of_length_le hs, List.takeWhile_append_of_pos hall]
  cases 16 - s.bytes.length with
  | zero => simp
  | succ n => simp [List.replicate_succ]

theorem length_name_le (m : Mem) (a : Nat) : (m.name a).length ≤ 16 := by
  refine Nat.le_trans (List.takeWhile_sublist _).length_le ?_
  rw [Mem.bytes, List.length_map, List.length_range]

/-- The segment is read back. -/
theorem segmentAt_eq {g : Options} (h : HoldsAt m a g.segment) (hs : g.segname.bytes.length ≤ 16) :
    segmentAt m a = g.newSegment := by
  obtain ⟨h0, h⟩ := h.append
  obtain ⟨h1, h⟩ := h.append
  obtain ⟨h2, h⟩ := h.append
  obtain ⟨h3, h⟩ := h.append
  obtain ⟨h4, h⟩ := h.append
  obtain ⟨h5, h⟩ := h.append
  obtain ⟨h6, h⟩ := h.append
  obtain ⟨h7, h⟩ := h.append
  obtain ⟨h8, h⟩ := h.append
  obtain ⟨h9, h10⟩ := h.append
  simp only [length_leBytes, length_nameField, Nat.add_assoc, Nat.reduceAdd] at *
  have hva := g.vmaddr.isLt
  have hvs := g.vmsize.isLt
  have hmp := g.maxprot.isLt
  have hip := g.initprot.isLt
  simp only [segmentAt, h0.u32, h1.u32, h2.name hs, h3.u64, h4.u64, h5.u64, h6.u64, h7.u32,
    h8.u32, h9.u32, h10.u32, Options.newSegment, Nat.mod_eq_of_lt hva, Nat.mod_eq_of_lt hvs,
    Nat.mod_eq_of_lt hmp, Nat.mod_eq_of_lt hip]
  rfl

/-- The section is read back. -/
theorem sectionAt_eq {g : Options} (h : HoldsAt m a g.sectionOf)
    (hs : g.segname.bytes.length ≤ 16) (hs' : g.sectname.bytes.length ≤ 16) :
    sectionAt m a = g.newSection := by
  obtain ⟨h0, h⟩ := h.append
  obtain ⟨h1, h⟩ := h.append
  obtain ⟨h2, h⟩ := h.append
  obtain ⟨h3, h⟩ := h.append
  obtain ⟨h4, h⟩ := h.append
  obtain ⟨h5, h⟩ := h.append
  obtain ⟨h6, h⟩ := h.append
  obtain ⟨h7, h⟩ := h.append
  obtain ⟨h8, h⟩ := h.append
  simp only [length_leBytes, length_nameField, Nat.add_assoc, Nat.reduceAdd] at *
  have hva := g.vmaddr.isLt
  have hvs := g.vmsize.isLt
  simp only [sectionAt, h0.name hs', h1.name hs, h2.u64, h3.u64, h4.u32, h5.u32, h6.u32, h7.u32,
    h8.u32, Options.newSection, Nat.mod_eq_of_lt hva, Nat.mod_eq_of_lt hvs]
  rfl

end

/-! ## Stores -/

/-- The store does not touch the byte. -/
def Misses (w : Nat × List UInt8) (i : Nat) : Prop := ¬ (w.1 ≤ i ∧ i < w.1 + w.2.length)

/-- Two stores touch no byte in common. -/
def Apart (w w' : Nat × List UInt8) : Prop :=
  w.1 + w.2.length ≤ w'.1 ∨ w'.1 + w'.2.length ≤ w.1

theorem storeAll_isSome {o : List UInt8} {ws : List (Nat × List UInt8)} :
    (storeAll o ws).isSome = true ↔ ∀ w ∈ ws, w.1 + w.2.length ≤ o.length := by
  induction ws generalizing o with
  | nil => exact iff_of_true rfl nofun
  | cons w ws ih =>
      rw [storeAll, List.forall_mem_cons, ← store_isSome]
      cases h : store o w.1 w.2 with
      | none => simp
      | some o' => simp only [Option.bind_some, ih, length_store h, Option.isSome_some, true_and]

/-- **What is stored to nowhere is unchanged.** -/
theorem storeAll_misses {o o' : List UInt8} {ws : List (Nat × List UInt8)}
    (h : storeAll o ws = some o') {i : Nat} (hi : ∀ w ∈ ws, Misses w i) : o'[i]? = o[i]? := by
  induction ws generalizing o with
  | nil => cases h; rfl
  | cons w ws ih =>
      obtain ⟨o₁, hstore, hrest⟩ := Option.bind_eq_some_iff.mp h
      rw [List.forall_mem_cons] at hi
      rw [ih hrest hi.2, getElem?_store hstore, if_neg hi.1]

/-- **What is stored is there**, where the stores are apart. -/
theorem storeAll_stored {o o' : List UInt8} {ws : List (Nat × List UInt8)}
    (h : storeAll o ws = some o') (hapart : ws.Pairwise Apart) {w : Nat × List UInt8}
    (hw : w ∈ ws) {i : Nat} (hi : i < w.2.length) : o'[w.1 + i]? = w.2[i]? := by
  induction ws generalizing o with
  | nil => cases hw
  | cons v ws ih =>
      obtain ⟨o₁, hstore, hrest⟩ := Option.bind_eq_some_iff.mp h
      rw [List.pairwise_cons] at hapart
      rcases List.mem_cons.mp hw with rfl | hw
      · have hmiss : ∀ v ∈ ws, Misses v (w.1 + i) := by
          intro v hv hin
          rcases hapart.1 v hv with hle | hle <;> omega
        rw [storeAll_misses hrest hmiss, getElem?_store hstore, if_pos ⟨by omega, by omega⟩,
          Nat.add_sub_cancel_left]
      · exact ih hrest hapart.2 hw

theorem length_storeAll {o o' : List UInt8} {ws : List (Nat × List UInt8)}
    (h : storeAll o ws = some o') : o'.length = o.length := by
  induction ws generalizing o with
  | nil => cases h; rfl
  | cons w ws ih =>
      obtain ⟨o₁, hstore, hrest⟩ := Option.bind_eq_some_iff.mp h
      rw [ih hrest, length_store hstore]

theorem length_segment (g : Options) : g.segment.length = segmentBytes := by
  simp only [Options.segment, List.length_append, length_leBytes, length_nameField]
  rfl

theorem length_sectionOf (g : Options) : g.sectionOf.length = sectionBytes := by
  simp only [Options.sectionOf, List.length_append, length_leBytes, length_nameField]
  rfl

theorem header_le_cmdsEnd (m : Mem) : 32 ≤ cmdsEnd m := Nat.le_add_right _ _

theorem segcreateStores_apart (m : Mem) (g : Options) : (segcreateStores m g).Pairwise Apart := by
  have h32 := header_le_cmdsEnd m
  simp only [segcreateStores, List.pairwise_cons, List.mem_cons, List.not_mem_nil, or_false,
    forall_eq_or_imp, forall_eq, List.Pairwise.nil, Apart, length_segment, length_sectionOf,
    length_leBytes, false_implies, implies_true, and_true]
  unfold segmentBytes sectionBytes
  omega

/-- The pages behind the end of a file read as zeros. -/
theorem memOf_mapPages (pageSize : Nat) (f : List UInt8) : memOf (mapPages pageSize f) = memOf f := by
  funext a
  rw [memOf, mapPages]
  by_cases h : a < f.length
  · rw [List.getD_append _ _ _ _ h, memOf]
  · rw [List.getD_append_right _ _ _ _ (Nat.le_of_not_lt h), List.getD_eq_getElem?_getD,
      List.getElem?_getD_replicate_default_eq, memOf, List.getD_eq_default _ _ (Nat.le_of_not_lt h)]

/-- `segcreate` on an executable. -/
theorem segcreate_mapPages {f : List UInt8} {cs : List LoadCommand} (h : Consistent f cs)
    (pageSize : Nat) (g : Options) :
    segcreate (mapPages pageSize f) g =
      (storeAll (mapPages pageSize f) (segcreateStores (memOf f) g)).map fun o => (0, o) := by
  rw [segcreate, memOf_mapPages, if_neg]
  rw [not_or, not_not, not_not]
  exact ⟨h.magic, h.filetype⟩

/-- It returns if and only if the new command is within the pages. -/
theorem storeAll_mapPages {f : List UInt8} {cs : List LoadCommand} (h : Consistent f cs)
    (pageSize : Nat) (g : Options) :
    (storeAll (mapPages pageSize f) (segcreateStores (memOf f) g)).isSome = true ↔
      cmdsEnd (memOf f) + newcmdBytes ≤ (mapPages pageSize f).length := by
  have h32 := header_le_cmdsEnd (memOf f)
  have hin := h.inFile
  have hlen : f.length ≤ (mapPages pageSize f).length := by
    rw [mapPages, List.length_append]
    exact Nat.le_add_right _ _
  rw [storeAll_isSome]
  simp only [segcreateStores, List.mem_cons, List.not_mem_nil, or_false, forall_eq_or_imp,
    forall_eq, length_segment, length_sectionOf, length_leBytes]
  unfold newcmdBytes segmentBytes sectionBytes
  omega

theorem u32_congr {m m' : Mem} {a : Nat} (h : ∀ i < 4, m' (a + i) = m (a + i)) :
    m'.u32 a = m.u32 a := by
  have hbytes : m'.bytes a 4 = m.bytes a 4 :=
    List.map_congr_left fun i hi => h i (List.mem_range.mp hi)
  rw [Mem.u32, hbytes, Mem.u32]

/-- A command has 8 bytes at least, so there are not too many to be counted. -/
theorem Consistent.ncmds_le {f : List UInt8} {cs : List LoadCommand} (h : Consistent f cs) :
    8 * (memOf f).ncmds ≤ (memOf f).sizeofcmds := by
  have hsum := chain_advance h.filled.2
  have hle := List.card_nsmul_le_sum (cs.map LoadCommand.cmdsize) 8 fun n hn => by
    obtain ⟨c, hc, rfl⟩ := List.mem_map.mp hn
    exact h.sizes c hc
  rw [List.length_map, h.filled.1, smul_eq_mul] at hle
  omega

/-- The commands of a header that has got one more. -/
theorem filledBy_snoc {m m' : Mem} {cs : List LoadCommand} {new : LoadCommand}
    (h : FilledBy m cs) (hsizes : ∀ c ∈ cs, 8 ≤ c.cmdsize) (h64 : lcStart m = header64Bytes)
    (hmagic : m'.magic = m.magic) (hncmds : m'.ncmds = m.ncmds + 1)
    (hsizeof : m'.sizeofcmds = m.sizeofcmds + new.cmdsize)
    (hsame : ∀ i, header64Bytes ≤ i → i < cmdsEnd m → m' i = m i)
    (hnew : loadCommand m' (cmdsEnd m) = new) : FilledBy m' (cs ++ [new]) := by
  obtain ⟨hlen, hchain⟩ := h
  have hstart : lcStart m' = header64Bytes := by rw [← h64, lcStart, lcStart, hmagic]
  refine ⟨by rw [List.length_append, hlen, hncmds]; rfl, ?_⟩
  rw [h64] at hchain
  rw [hstart, hsizeof]
  have hold : Chain (commandAt m' header64Bytes) advance 0 cs m.sizeofcmds := by
    refine hchain.congr_get le_advance fun o c hc hget hle => ?_
    have hsize := hsizes c hc
    unfold advance at hle
    rw [← hget, commandAt, commandAt, loadCommand, loadCommand,
      u32_congr fun i hi => hsame _ (by omega) (by unfold cmdsEnd; omega),
      u32_congr fun i hi => hsame _ (by omega) (by unfold cmdsEnd; omega)]
  exact hold.append ⟨hnew, rfl⟩

/-- The file after the stores of `segcreate`. -/
theorem patched {f : List UInt8} {cs : List LoadCommand} {g : Options} {pageSize : Nat}
    (h : Consistent f cs) (hroom : HasRoom f cs g) {image : List UInt8}
    (himage : storeAll (mapPages pageSize f) (segcreateStores (memOf f) g) = some image) :
    Patched f cs g (image.take f.length) := by
  have h32 := header_le_cmdsEnd (memOf f)
  have hin := h.inFile
  have hfit := hroom.inFile
  have hlenm : (mapPages pageSize f).length = image.length := (length_storeAll himage).symm
  have hlen : f.length ≤ image.length := by
    rw [← hlenm, mapPages, List.length_append]
    exact Nat.le_add_right _ _
  have htake : (image.take f.length).length = f.length := List.length_take_of_le hlen
  -- what the file holds where something was stored, and elsewhere
  have hstored (w : Nat × List UInt8) (hw : w ∈ segcreateStores (memOf f) g)
      (hend : w.1 + w.2.length ≤ f.length) : HoldsAt (memOf (image.take f.length)) w.1 w.2 := by
    intro i hi
    have hat := storeAll_stored himage (segcreateStores_apart _ _) hw hi
    rw [memOf, List.getD_eq_getElem?_getD, List.getElem?_take_of_lt (by omega), hat,
      ← List.getD_eq_getElem?_getD]
  have hsame (i : Nat) (h1 : ¬ (16 ≤ i ∧ i < 24))
      (h2 : ¬ (cmdsEnd (memOf f) ≤ i ∧ i < cmdsEnd (memOf f) + newcmdBytes)) :
      (image.take f.length)[i]? = f[i]? := by
    by_cases hi : i < f.length
    · rw [List.getElem?_take_of_lt hi, storeAll_misses himage, mapPages,
        List.getElem?_append_left hi]
      intro w hw
      simp only [segcreateStores, List.mem_cons, List.not_mem_nil, or_false] at hw
      unfold newcmdBytes segmentBytes sectionBytes at h2
      rcases hw with rfl | rfl | rfl | rfl <;>
        simp only [Misses, length_segment, length_sectionOf, length_leBytes, segmentBytes,
          sectionBytes] <;> omega
    · rw [List.getElem?_eq_none (by omega), List.getElem?_eq_none (by omega)]
  have hmem (i : Nat) (h1 : ¬ (16 ≤ i ∧ i < 24))
      (h2 : ¬ (cmdsEnd (memOf f) ≤ i ∧ i < cmdsEnd (memOf f) + newcmdBytes)) :
      memOf (image.take f.length) i = memOf f i := by
    rw [memOf, memOf, List.getD_eq_getElem?_getD, hsame i h1 h2, ← List.getD_eq_getElem?_getD]
  have hsegment : HoldsAt (memOf (image.take f.length)) (cmdsEnd (memOf f)) g.segment := by
    refine hstored (cmdsEnd (memOf f), g.segment) (by simp [segcreateStores]) ?_
    simp only [length_segment]
    unfold newcmdBytes at hfit
    omega
  have hsection : HoldsAt (memOf (image.take f.length)) (cmdsEnd (memOf f) + segmentBytes)
      g.sectionOf := by
    refine hstored (cmdsEnd (memOf f) + segmentBytes, g.sectionOf) (by simp [segcreateStores]) ?_
    simp only [length_sectionOf]
    unfold newcmdBytes at hfit
    omega
  have hncmds : (memOf (image.take f.length)).ncmds = ((memOf f).ncmds + 1) % 2 ^ 32 := by
    refine (hstored (16, leBytes 4 _) (by simp [segcreateStores]) ?_).u32
    simp only [length_leBytes]
    omega
  have hsizeof : (memOf (image.take f.length)).sizeofcmds =
      ((memOf f).sizeofcmds + newcmdBytes) % 2 ^ 32 := by
    refine (hstored (20, leBytes 4 _) (by simp [segcreateStores]) ?_).u32
    simp only [length_leBytes]
    omega
  have hseg := segmentAt_eq hsegment hroom.segname
  have hcount : (memOf f).ncmds + 1 < 2 ^ 32 := by
    have hcounted := hroom.counted
    have hle := h.ncmds_le
    unfold newcmdBytes segmentBytes sectionBytes at hcounted
    omega
  rw [Nat.mod_eq_of_lt hcount] at hncmds
  rw [Nat.mod_eq_of_lt hroom.counted] at hsizeof
  constructor
  case length => exact htake
  case commands =>
    refine filledBy_snoc h.filled h.sizes ?_ ?_ hncmds hsizeof ?_ ?_
    · rw [lcStart, h.magic]
      rfl
    · exact u32_congr fun i hi => hmem _ (by omega) (by omega)
    · exact fun i hlow hhigh => hmem i (by unfold header64Bytes at hlow; omega) (by omega)
    · have hcmd := congrArg SegmentCommand.cmd hseg
      have hsize := congrArg SegmentCommand.cmdsize hseg
      exact congrArg₂ (LoadCommand.mk _) hcmd hsize
  case inFile =>
    rw [htake, cmdsEnd, hsizeof, ← Nat.add_assoc]
    exact hfit
  case segment => exact hseg
  case sect => exact sectionAt_eq hsection hroom.segname hroom.sectname
  case others => exact hsame
  case contents =>
    intro w hw s hs hcontents
    have hbehind := hroom.padding s hs hcontents
    unfold newcmdBytes at hbehind
    simp only [segcreateStores, List.mem_cons, List.not_mem_nil, or_false] at hw
    left
    rcases hw with rfl | rfl | rfl | rfl <;>
      simp only [length_segment, length_sectionOf, length_leBytes] <;> omega

/-- A file that is patched had room. -/
theorem room_of_patched {f f' : List UInt8} {cs : List LoadCommand} {g : Options}
    (h : Consistent f cs) (hp : Patched f cs g f') : HasRoom f cs g := by
  have hold := chain_advance h.filled.2
  have hnew := chain_advance hp.commands.2
  rw [List.map_append, List.sum_append, ← Nat.add_assoc, ← hold] at hnew
  have hsizeof : (memOf f').sizeofcmds = (memOf f).sizeofcmds + newcmdBytes := hnew
  constructor
  case inFile =>
    have hin := hp.inFile
    rwa [hp.length, cmdsEnd, hsizeof, ← Nat.add_assoc] at hin
  case counted =>
    rw [← hsizeof]
    exact (memOf f').u32_lt 20
  case segname =>
    have hname : (memOf f').name (cmdsEnd (memOf f) + 8) = g.segname.bytes :=
      congrArg SegmentCommand.segname hp.segment
    exact hname ▸ length_name_le _ _
  case sectname =>
    have hname : (memOf f').name (cmdsEnd (memOf f) + segmentBytes) = g.sectname.bytes :=
      congrArg Section64.sectname hp.sect
    exact hname ▸ length_name_le _ _
  case padding =>
    intro s hs hcontents
    have hbelow := (h.contents s hs hcontents).1
    have hsize := Nat.pos_of_ne_zero hcontents.1
    -- the segment is in front of the contents, so the section behind it is as well
    have hseg := hp.contents (cmdsEnd (memOf f), g.segment) (by simp [segcreateStores]) s hs
      hcontents
    have hsect := hp.contents (cmdsEnd (memOf f) + segmentBytes, g.sectionOf)
      (by simp [segcreateStores]) s hs hcontents
    simp only [length_segment, length_sectionOf] at hseg hsect
    unfold newcmdBytes
    omega

/-- **What `segcreate` returns 0 for is patched if and only if** the new command has room, or
is so far behind the end of the file that the stores fault. -/
theorem patches_iff {f : List UInt8} {cs : List LoadCommand} (h : Consistent f cs) (g : Options)
    (pageSize : Nat) :
    Patches pageSize f cs g ↔
      (mapPages pageSize f).length < cmdsEnd (memOf f) + newcmdBytes ∨ HasRoom f cs g := by
  constructor
  · intro hp
    refine or_iff_not_imp_left.mpr fun hfit => ?_
    obtain ⟨image, himage⟩ := Option.isSome_iff_exists.mp
      ((storeAll_mapPages h pageSize g).mpr (Nat.le_of_not_lt hfit))
    refine room_of_patched h (hp image ?_)
    rw [segcreate_mapPages h, himage]
    rfl
  · intro hor image hret
    rw [segcreate_mapPages h] at hret
    obtain ⟨o, himage, ho⟩ := Option.map_eq_some_iff.mp hret
    cases ho
    rcases hor with hfault | hroom
    · have hsome := (storeAll_mapPages h pageSize g).mp (Option.isSome_iff_exists.mpr ⟨_, himage⟩)
      omega
    · exact patched h hroom himage

/-- An executable with one section of `size` bytes, `padding` bytes behind its load command. -/
def executable (padding size : Nat) : List UInt8 :=
  let text := [0x5f, 0x5f, 0x54, 0x45, 0x58, 0x54]
  leBytes 4 mhMagic64 ++ leBytes 4 0x100000c ++ leBytes 4 0 ++ leBytes 4 mhExecute ++
    leBytes 4 1 ++ leBytes 4 newcmdBytes ++ leBytes 8 0 ++
    (leBytes 4 lcSegment64 ++ leBytes 4 newcmdBytes ++ nameField text ++ leBytes 8 0x100000000 ++
      leBytes 8 16384 ++ leBytes 8 0 ++ leBytes 8 (184 + padding + size) ++ leBytes 4 5 ++
      leBytes 4 5 ++ leBytes 4 1 ++ leBytes 4 0) ++
    (nameField text ++ nameField text ++ leBytes 8 (0x1000000b8 + padding) ++ leBytes 8 size ++
      leBytes 4 (184 + padding) ++ leBytes 4 2 ++ leBytes 4 0 ++ leBytes 4 0 ++ leBytes 4 0 ++
      leBytes 4 0 ++ leBytes 4 0 ++ leBytes 4 0) ++
    List.replicate padding 0 ++ List.replicate size 0x90

/-- A segment for the lower half. -/
def lowerHalf : Options where
  vmaddr := 0x200000000
  vmsize := 0x100000
  initprot := 3
  maxprot := 3
  segname := ⟨[0x6c, 0x68], by decide, by decide⟩
  sectname := ⟨[0x6c, 0x68], by decide, by decide⟩

set_option maxRecDepth 4000 in
theorem consistent_roomy : Consistent (executable 152 8) [⟨32, lcSegment64, 152⟩] where
  magic := by decide
  filetype := by decide
  filled := ⟨by decide, by decide, (by decide : 152 = (memOf _).sizeofcmds)⟩
  inFile := by decide
  sizes := by decide
  contents := by decide

theorem patches_roomy : Patches 16384 (executable 152 8) [⟨32, lcSegment64, 152⟩] lowerHalf := by
  refine (patches_iff consistent_roomy lowerHalf 16384).mpr (.inr ?_)
  constructor <;> decide +kernel

set_option maxRecDepth 4000 in
theorem consistent_tight : Consistent (executable 0 152) [⟨32, lcSegment64, 152⟩] where
  magic := by decide
  filetype := by decide
  filled := ⟨by decide, by decide, (by decide : 152 = (memOf _).sizeofcmds)⟩
  inFile := by decide
  sizes := by decide
  contents := by decide

/-- The contents right behind the load commands are lost. -/
theorem not_patches_tight : ¬ ∀ pageSize f cs g, Consistent f cs → Patches pageSize f cs g := by
  intro h
  have hp := h 16384 _ _ lowerHalf consistent_tight
  obtain ⟨image, himage⟩ := Option.isSome_iff_exists.mp
    ((storeAll_mapPages consistent_tight 16384 lowerHalf).mpr (by decide +kernel))
  have hroom := room_of_patched consistent_tight (hp image ?_)
  · exact absurd hroom.padding (by decide +kernel)
  · rw [segcreate_mapPages consistent_tight, himage]
    rfl

end Xnd.Macho
