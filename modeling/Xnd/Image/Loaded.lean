import Xnd.Image.Restored
import Xnd.Image.Stream

/-!
# What is loaded

The reader on an image as it should be.  **A region is restored from what was saved of it**
(`readEntry_saved`) when the reader takes the branch that the writer took and some page of
it is there; the loop does so for all of them (`readCkpt_saved`), by induction on the
regions that are left.
-/
namespace Xnd.Image

section Records
variable {pageSize : Nat} {ans : Answers} {region : VmRegion}

/-- What the reader needs of a region that is saved. -/
structure Restorable (pageSize : Nat) (ans : Answers) (region : VmRegion) : Prop where
  mapped : region.Mapped pageSize
  queried : region.byDirtyPages pageSize = true → ∃ vec, Queried pageSize ans region vec
  branch : (region.record pageSize ans).restoredByPages = region.byDirtyPages pageSize
  nonempty : region.byDirtyPages pageSize = false → 0 < region.leading pageSize ans

namespace VmRegion

theorem leading_le : region.leading pageSize ans ≤ region.pages pageSize :=
  leadingPages_le ans.page 0 (region.pages pageSize)

theorem Mapped.pages_mul (h : region.Mapped pageSize) :
    region.pages pageSize * pageSize = region.size.toNat := Nat.div_mul_cancel h.dvd

theorem Mapped.pages_pos (hp : 0 < pageSize) (h : region.Mapped pageSize) :
    0 < region.pages pageSize := Nat.div_pos (Nat.le_of_dvd h.pos h.dvd) hp

theorem Mapped.leading_mul_le (h : region.Mapped pageSize) :
    region.leading pageSize ans * pageSize ≤ region.size.toNat := by
  rw [← h.pages_mul]
  exact Nat.mul_le_mul_right pageSize leading_le

@[simp] theorem start_record : (region.record pageSize ans).start = region.start := by
  unfold record
  split
  · rfl
  · split
    · exact start_wholly
    · exact start_wholly

@[simp] theorem attributes_wholly : region.wholly.attributes = region.attributes := by
  unfold wholly
  split <;> rfl

@[simp] theorem attributes_record : (region.record pageSize ans).attributes = region.attributes := by
  unfold record
  split
  · rfl
  · split
    · exact attributes_wholly
    · exact attributes_wholly

theorem record_of_dirty (h : region.byDirtyPages pageSize = true) : region.record pageSize ans =
    { region with
      dirtyOnly := true
      pagesDirtied := .ofNat 32 ((ans.query.getD []).count true) } := if_pos h

theorem restoredByPages_of_dirty (h : region.byDirtyPages pageSize = true) :
    (region.record pageSize ans).restoredByPages = true := by
  have honly : region.onlyRestoreDirtyPages = true := (Bool.and_eq_true_iff.mp h).1
  rw [record_of_dirty h]
  exact (Bool.and_true _).trans honly

theorem payload_of_dirty (h : region.byDirtyPages pageSize = true) (vm : Vm) :
    region.payload pageSize ans vm =
      dirtyPages pageSize region.start.toNat vm (ans.query.getD []) 0 := if_pos h

theorem payload_of_full (h : region.byDirtyPages pageSize = false) (vm : Vm) :
    region.payload pageSize ans vm =
      vm.read region.start.toNat (region.leading pageSize ans * pageSize) :=
  if_neg (by rw [h]; exact nofun)

theorem record_of_full (h : region.byDirtyPages pageSize = false)
    (hall : region.leading pageSize ans = region.pages pageSize) :
    region.record pageSize ans = region.wholly := by
  rw [record, if_neg (by rw [h]; rintro ⟨⟩), if_pos hall]

/-- The size in the record is that of the pages that follow. -/
theorem Mapped.size_record (hmapped : region.Mapped pageSize)
    (h : region.byDirtyPages pageSize = false) : (region.record pageSize ans).size.toNat =
      region.leading pageSize ans * pageSize := by
  rw [record, if_neg (by rw [h]; rintro ⟨⟩)]
  split
  · rename_i hall
    rw [size_wholly, hall, hmapped.pages_mul]
  · have hle : region.leading pageSize ans * pageSize ≤ region.size.toNat := hmapped.leading_mul_le
    have hbelow := hmapped.below
    show (BitVec.ofNat 64 _).toNat = _
    rw [BitVec.toNat_ofNat, Nat.mod_eq_of_lt (by omega)]

theorem Mapped.length_payload (hmapped : region.Mapped pageSize) (ans : Answers)
    (h : region.byDirtyPages pageSize = false) (vm : Vm) :
    (region.payload pageSize ans vm).length = (region.record pageSize ans).size.toNat := by
  rw [payload_of_full h, Vm.length_read, hmapped.size_record h]

end VmRegion

/-- The vector that was queried counts the pages of the record. -/
theorem Queried.count {vec : List Bool} (hq : Queried pageSize ans region vec)
    (h : region.byDirtyPages pageSize = true) :
    (region.record pageSize ans).pagesDirtied.toNat = vec.count true := by
  have hle : vec.count true ≤ vec.length := List.count_le_length
  have hbound := hq.bound
  rw [VmRegion.record_of_dirty h, hq.query]
  show (BitVec.ofNat 32 _).toNat = _
  rw [BitVec.toNat_ofNat, Option.getD_some, Nat.mod_eq_of_lt (by omega)]

end Records

/-! ## The memory after a restart -/

section Memory
variable (pageSize : Nat) (mach : Mach) (saved : Vm)

/-- The memory after a region is restored from what was saved of it. -/
def VmRegion.restored (ans : Answers) (region : VmRegion) (vm : Vm) : Vm :=
  if region.byDirtyPages pageSize = true then
    restorePages pageSize mach (region.record pageSize ans) saved (ans.query.getD []) vm
  else vm.restoreFull mach (region.record pageSize ans) (region.payload pageSize ans saved)

/-- The memory after the regions from `i` on are restored. -/
def restoredAll (ans : Nat → Answers) (i : Nat) (regions : List VmRegion) (vm : Vm) : Vm :=
  (regions.zipIdx i).foldl (fun vm p => p.1.restored pageSize mach saved (ans p.2) vm) vm

theorem restoredAll_cons (ans : Nat → Answers) (i : Nat) (region : VmRegion)
    (regions : List VmRegion) (vm : Vm) :
    restoredAll pageSize mach saved ans i (region :: regions) vm =
      restoredAll pageSize mach saved ans (i + 1) regions
        (region.restored pageSize mach saved (ans i) vm) := rfl

variable {pageSize : Nat} {mach : Mach} {saved vm : Vm} {a : Nat}

section Region
variable {ans : Answers} {region : VmRegion}

theorem Restorable.size_le (h : Restorable pageSize ans region) :
    (region.record pageSize ans).size.toNat ≤ region.size.toNat := by
  by_cases hdirty : region.byDirtyPages pageSize = true
  · rw [VmRegion.record_of_dirty hdirty]
  · rw [h.mapped.size_record (Bool.eq_false_iff.mpr hdirty)]
    exact h.mapped.leading_mul_le

theorem Restorable.covers (h : Restorable pageSize ans region)
    (ha : (region.record pageSize ans).Covers a) : region.Covers a := by
  have hle := h.size_le
  rw [VmRegion.Covers, VmRegion.start_record] at ha
  exact ⟨ha.1, by omega⟩

/-- The record is that of a region as well. -/
theorem Restorable.mapped_record (hp : 0 < pageSize) (h : Restorable pageSize ans region) :
    (region.record pageSize ans).Mapped pageSize := by
  have hmapped := h.mapped
  have hattributes : (region.record pageSize ans).attributes = region.attributes :=
    VmRegion.attributes_record
  obtain ⟨hprot, hrest⟩ := Prod.mk.inj hattributes
  obtain ⟨hmax, -⟩ := Prod.mk.inj hrest
  have hle := h.size_le
  constructor
  case pos =>
    by_cases hdirty : region.byDirtyPages pageSize = true
    · rw [VmRegion.record_of_dirty hdirty]
      exact hmapped.pos
    · have hfull := Bool.eq_false_iff.mpr hdirty
      rw [hmapped.size_record hfull]
      exact Nat.mul_pos (h.nonempty hfull) hp
  case dvd =>
    by_cases hdirty : region.byDirtyPages pageSize = true
    · rw [VmRegion.record_of_dirty hdirty]
      exact hmapped.dvd
    · rw [hmapped.size_record (Bool.eq_false_iff.mpr hdirty)]
      exact Nat.dvd_mul_left _ _
  case below =>
    have hbelow := hmapped.below
    rw [VmRegion.start_record]
    omega
  case prot =>
    rw [hprot, hmax]
    exact hmapped.prot
  case maxProt =>
    rw [hmax]
    exact hmapped.maxProt

/-- Outside of the region the memory stays. -/
theorem VmRegion.restored_of_not (hp : 0 < pageSize) (h : Restorable pageSize ans region)
    (saved vm : Vm) (hcovers : ¬ region.Covers a) (ha : ¬ mach.InWord a) :
    (region.restored pageSize mach saved ans vm).mem a = vm.mem a ∧
      (region.restored pageSize mach saved ans vm).attributes a = vm.attributes a := by
  have hnot : ¬ (region.record pageSize ans).Covers a := fun hc => hcovers (h.covers hc)
  have hrecord := h.mapped_record hp
  unfold restored
  split
  · rename_i hdirty
    obtain ⟨vec, hq⟩ := h.queried hdirty
    have hlen : vec.length * pageSize = (region.record pageSize ans).size.toNat := by
      rw [hq.length, h.mapped.pages_mul, record_of_dirty hdirty]
    rw [hq.query, Option.getD_some, mem_restorePages hp hlen ha,
      attributes_restorePages hrecord, if_neg hnot, if_neg hnot]
    exact ⟨rfl, rfl⟩
  · rename_i hdirty
    rw [Vm.mem_restoreFull (h.mapped.length_payload _ (Bool.eq_false_iff.mpr hdirty) _) ha,
      Vm.attributes_restoreFull hrecord, if_neg hnot, if_neg hnot]
    exact ⟨rfl, rfl⟩

/-- **What a region has** after it is restored: its bytes where it was saved in full or
the page was dirty, and its attributes. -/
structure Holds (pageSize : Nat) (ans : Answers) (region : VmRegion) (saved vm : Vm) (a : Nat) :
    Prop where
  full : region.byDirtyPages pageSize = false →
    region.leading pageSize ans = region.pages pageSize → vm.mem a = saved.mem a
  dirty : region.byDirtyPages pageSize = true → ∀ vec, ans.query = some vec →
    vec[(a - region.start.toNat) / pageSize]? = some true → vm.mem a = saved.mem a
  attributes : (region.byDirtyPages pageSize = false →
      region.leading pageSize ans = region.pages pageSize) →
    region.inDyldSharedCache = false → vm.attributes a = region.attributes

theorem VmRegion.holds_restored (hp : 0 < pageSize) (h : Restorable pageSize ans region)
    (saved vm : Vm) (hcovers : region.Covers a) (ha : ¬ mach.InWord a) :
    Holds pageSize ans region saved (region.restored pageSize mach saved ans vm) a := by
  constructor
  case full =>
    intro hfull hall
    have hlen := h.mapped.length_payload ans hfull saved
    have hsize : (region.record pageSize ans).size.toNat = region.size.toNat := by
      rw [h.mapped.size_record hfull, hall, h.mapped.pages_mul]
    have hrecord : (region.record pageSize ans).Covers a := by
      rw [Covers, start_record, hsize]
      exact hcovers
    rw [restored, if_neg (by rw [hfull]; rintro ⟨⟩), Vm.mem_restoreFull hlen ha, if_pos hrecord,
      payload_of_full hfull, hall, h.mapped.pages_mul, start_record, Vm.getD_read]
    · rw [Nat.add_sub_cancel' hcovers.1]
    · have := hcovers.1
      have := hcovers.2
      omega
  case dirty =>
    intro hdirty vec hquery hpage
    obtain ⟨vec', hq⟩ := h.queried hdirty
    obtain rfl : vec' = vec := Option.some.inj (hq.query.symm.trans hquery)
    have hlen : vec'.length * pageSize = (region.record pageSize ans).size.toNat := by
      rw [hq.length, h.mapped.pages_mul, record_of_dirty hdirty]
    have hrecord : (region.record pageSize ans).Covers a := by
      rw [record_of_dirty hdirty]
      exact hcovers
    rw [restored, if_pos hdirty, hquery, Option.getD_some, mem_restorePages hp hlen ha,
      if_pos hrecord, start_record, if_pos hpage]
  case attributes =>
    intro hall hcache
    have hmapped := h.mapped_record hp
    by_cases hdirty : region.byDirtyPages pageSize = true
    · have hrecord : (region.record pageSize ans).Covers a := by
        rw [record_of_dirty hdirty]
        exact hcovers
      have hout : (region.record pageSize ans).inDyldSharedCache = false := by
        rw [record_of_dirty hdirty]
        exact hcache
      rw [restored, if_pos hdirty, attributes_restorePages hmapped, if_pos hrecord, hout,
        if_neg Bool.false_ne_true, attributes_record]
    · have hfull := Bool.eq_false_iff.mpr hdirty
      have hrecord : (region.record pageSize ans).Covers a := by
        rw [Covers, start_record, h.mapped.size_record hfull, hall hfull, h.mapped.pages_mul]
        exact hcovers
      rw [restored, if_neg hdirty, Vm.attributes_restoreFull hmapped, if_pos hrecord,
        attributes_record]

end Region

variable {ans : Nat → Answers} {i : Nat} {regions : List VmRegion}

/-- Outside of all regions the memory stays. -/
theorem restoredAll_of_not (hp : 0 < pageSize) (saved vm : Vm)
    (hregions : ∀ p ∈ regions.zipIdx i, Restorable pageSize (ans p.2) p.1)
    (hnot : ∀ r ∈ regions, ¬ r.Covers a) (ha : ¬ mach.InWord a) :
    (restoredAll pageSize mach saved ans i regions vm).mem a = vm.mem a ∧
      (restoredAll pageSize mach saved ans i regions vm).attributes a = vm.attributes a := by
  induction regions generalizing i vm with
  | nil => exact ⟨rfl, rfl⟩
  | cons region regions ih =>
      rw [List.zipIdx_cons, List.forall_mem_cons] at hregions
      rw [List.forall_mem_cons] at hnot
      have hfirst := region.restored_of_not hp hregions.1 saved vm hnot.1 ha
      have hrest := ih (region.restored pageSize mach saved (ans i) vm) hregions.2 hnot.2
      rw [restoredAll_cons]
      exact ⟨hrest.1.trans hfirst.1, hrest.2.trans hfirst.2⟩

/-- **Every region has what it had**: no region restored after it touches it. -/
theorem holds_restoredAll (saved vm : Vm) (hp : 0 < pageSize)
    (hregions : ∀ p ∈ regions.zipIdx i, Restorable pageSize (ans p.2) p.1)
    (hdisjoint : regions.Pairwise fun r r' => ∀ a, ¬ (r.Covers a ∧ r'.Covers a))
    (ha : ¬ mach.InWord a) : ∀ p ∈ regions.zipIdx i, p.1.Covers a →
      Holds pageSize (ans p.2) p.1 saved (restoredAll pageSize mach saved ans i regions vm) a := by
  induction regions generalizing i vm with
  | nil => exact fun p hmem => absurd hmem List.not_mem_nil
  | cons region regions ih =>
      rw [List.zipIdx_cons, List.forall_mem_cons] at hregions ⊢
      rw [List.pairwise_cons] at hdisjoint
      rw [restoredAll_cons]
      refine ⟨fun hcovers => ?_, ih _ hregions.2 hdisjoint.2⟩
      have hholds := region.holds_restored hp hregions.1 saved vm hcovers ha
      have hrest := restoredAll_of_not hp saved
        (region.restored pageSize mach saved (ans i) vm) hregions.2 (fun r hr hc => hdisjoint.1 r hr a ⟨hcovers, hc⟩) ha
      constructor
      case full => exact fun hfull hall => hrest.1.trans (hholds.full hfull hall)
      case dirty => exact fun hdirty vec hq hpage => hrest.1.trans (hholds.dirty hdirty vec hq hpage)
      case attributes => exact fun hall hcache => hrest.2.trans (hholds.attributes hall hcache)

end Memory

/-! ## The reader -/

section Reader
variable {pageSize : Nat} {mach : Mach} {saved : Vm} {data : BitVec 64} {l : Loaded}

/-- A record is read, and its region restored. -/
theorem readVmRegion_of_rest {s : Restoring} {region : VmRegion} {more : List UInt8}
    (hrest : s.file.rest = region.encode ++ more) : readVmRegion pageSize mach s =
      (ckptVmRestoreRegion pageSize mach region
        ⟨s.vm, s.file.seek (s.file.pos + VmRegion.bytes)⟩).map fun s => (region, s) := by
  have hrecord := Restoring.readall_of_rest hrest (VmRegion.length_encode region)
  rw [readVmRegion]
  simp only [hrecord, VmRegion.length_encode, ne_eq, not_true_eq_false, if_false,
    VmRegion.decode_encode]
  cases ckptVmRestoreRegion pageSize mach region
    ⟨s.vm, s.file.seek (s.file.pos + VmRegion.bytes)⟩ <;> rfl

/-- A turn of the loop that reads a region. -/
theorem readEntry_region {region : VmRegion} {more : List UInt8}
    (hrest : l.s.file.rest = CkptEntry.vmRegion.encode ++ (region.encode ++ more)) :
    readEntry pageSize mach data l =
      (ckptVmRestoreRegion pageSize mach region
        ⟨l.s.vm, l.s.file.seek (l.s.file.pos + CkptEntry.bytes + VmRegion.bytes)⟩).map fun s =>
          ⟨s, l.entries ++ [.vmRegion], l.regions ++ [region], l.uctx⟩ := by
  have htag := Restoring.readall_of_rest hrest (CkptEntry.length_encode _)
  have hregion : readVmRegion pageSize mach
      ⟨l.s.vm, l.s.file.seek (l.s.file.pos + CkptEntry.bytes)⟩ = _ :=
    readVmRegion_of_rest (File.rest_seek hrest (CkptEntry.length_encode _))
  rw [readEntry]
  simp only [htag, CkptEntry.length_encode, ne_eq, not_true_eq_false, if_false,
    CkptEntry.decode_encode, hregion, File.seek_seek, File.pos_seek]
  cases ckptVmRestoreRegion pageSize mach region
    ⟨l.s.vm, l.s.file.seek (l.s.file.pos + CkptEntry.bytes + VmRegion.bytes)⟩ <;> rfl

theorem readContext_of_rest {s : Restoring} {uctx : Ucontext} {more : List UInt8}
    (hrest : s.file.rest = uctx.raw ++ more) :
    readContext data s =
      .ok (uctx.setMcontext data, ⟨s.vm, s.file.seek (s.file.pos + Ucontext.bytes)⟩) := by
  have hlen : uctx.raw.length = Ucontext.bytes := uctx.length_raw
  unfold readContext
  rw [Restoring.readall_of_rest hrest hlen]
  exact dif_pos hlen

/-- The last turn reads the context. -/
theorem readEntry_context {uctx : Ucontext} {more : List UInt8}
    (hrest : l.s.file.rest = CkptEntry.ucontext.encode ++ (uctx.raw ++ more)) :
    readEntry pageSize mach data l =
      .ok ⟨⟨l.s.vm, l.s.file.seek (l.s.file.pos + CkptEntry.bytes + Ucontext.bytes)⟩,
        l.entries ++ [.ucontext], l.regions, some (uctx.setMcontext data)⟩ := by
  have htag := Restoring.readall_of_rest hrest (CkptEntry.length_encode _)
  have hrest' := File.rest_seek hrest (CkptEntry.length_encode _)
  have hcontext : readContext data ⟨l.s.vm, l.s.file.seek (l.s.file.pos + CkptEntry.bytes)⟩ = _ :=
    readContext_of_rest hrest'
  rw [readEntry]
  simp only [htag, CkptEntry.length_encode, ne_eq, not_true_eq_false, if_false,
    CkptEntry.decode_encode, hcontext]
  rfl

/-- **A region is restored from what was saved of it.** -/
theorem readEntry_saved (hp : 0 < pageSize) (hserves : mach.Serves) {ans : Answers}
    {region : VmRegion} (hregion : Restorable pageSize ans region) {more : List UInt8}
    (hrest : l.s.file.rest = region.saved pageSize saved ans ++ more) :
    readEntry pageSize mach data l =
      .ok ⟨⟨region.restored pageSize mach saved ans l.s.vm,
          l.s.file.seek (l.s.file.pos + (region.saved pageSize saved ans).length)⟩,
        l.entries ++ [.vmRegion], l.regions ++ [region.record pageSize ans], l.uctx⟩ := by
  have hmapped := hregion.mapped
  rw [VmRegion.saved, List.append_assoc, List.append_assoc] at hrest
  have hrest' := File.rest_seek (File.rest_seek hrest (CkptEntry.length_encode _))
    (VmRegion.length_encode _)
  have hlen : l.s.file.pos + (region.saved pageSize saved ans).length =
      l.s.file.pos + CkptEntry.bytes + VmRegion.bytes +
        (region.payload pageSize ans saved).length := by
    simp only [VmRegion.saved, List.length_append, CkptEntry.length_encode, VmRegion.length_encode]
    omega
  rw [readEntry_region hrest, hlen, VmRegion.restored]
  by_cases hdirty : region.byDirtyPages pageSize = true
  · obtain ⟨vec, hq⟩ := hregion.queried hdirty
    have hbound : vec.length * pageSize < 2 ^ 64 := by
      have hbelow := hmapped.below
      rw [hq.length, hmapped.pages_mul]
      omega
    have hsize : (region.record pageSize ans).size = region.size := by
      rw [VmRegion.record_of_dirty hdirty]
    have hstart : region.start = (region.record pageSize ans).start := VmRegion.start_record.symm
    rw [VmRegion.payload_of_dirty hdirty, hq.query, Option.getD_some, hstart] at hrest' ⊢
    rw [ckptVmRestoreRegion_pages hserves (hregion.branch.trans hdirty)
      (by rw [hsize]; exact hmapped.pos) (hq.count hdirty) hbound hrest', if_pos hdirty]
    rfl
  · have hfull := Bool.eq_false_iff.mpr hdirty
    have hlen := hmapped.length_payload ans hfull saved
    have hpos : 0 < (region.record pageSize ans).size.toNat := by
      rw [hmapped.size_record hfull]
      exact Nat.mul_pos (hregion.nonempty hfull) hp
    rw [ckptVmRestoreRegion_full hserves (hregion.branch.trans hfull) hpos hrest' hlen,
      if_neg hdirty, hlen]
    rfl

/-- **The image is read to its end.** -/
theorem readCkpt_saved (hp : 0 < pageSize) (hserves : mach.Serves) {ans : Nat → Answers}
    {uctx : Ucontext} {i : Nat} {regions : List VmRegion}
    (hregions : ∀ p ∈ regions.zipIdx i, Restorable pageSize (ans p.2) p.1) {more : List UInt8}
    (hrest : l.s.file.rest = savedEntries pageSize ans saved uctx i regions ++ more) :
    readCkpt pageSize mach data (ckptEntries regions).length l =
      .ok ⟨⟨restoredAll pageSize mach saved ans i regions l.s.vm,
          l.s.file.seek (l.s.file.pos + (savedEntries pageSize ans saved uctx i regions).length)⟩,
        l.entries ++ ckptEntries regions, l.regions ++ savedRecords pageSize ans i regions,
        some (uctx.setMcontext data)⟩ := by
  induction regions generalizing i l with
  | nil =>
      have hrest' : l.s.file.rest = CkptEntry.ucontext.encode ++ (uctx.raw ++ more) := by
        rw [← List.append_assoc]
        exact hrest
      have hlen : (savedEntries pageSize ans saved uctx i []).length =
          CkptEntry.bytes + Ucontext.bytes := by
        show (CkptEntry.ucontext.encode ++ uctx.raw).length = _
        rw [List.length_append, CkptEntry.length_encode, uctx.length_raw]
        rfl
      rw [show (ckptEntries []).length = 1 from rfl, readCkpt, readEntry_context hrest', hlen,
        ← Nat.add_assoc, savedRecords, List.zipIdx_nil, List.map_nil, List.append_nil]
      rfl
  | cons region regions ih =>
      rw [List.zipIdx_cons, List.forall_mem_cons] at hregions
      rw [savedEntries_cons, List.append_assoc] at hrest
      have hentry : readEntry pageSize mach data l = _ :=
        readEntry_saved hp hserves hregions.1 hrest
      rw [ckptEntries_cons, List.length_cons, readCkpt, hentry]
      have hnext := ih (l := ⟨⟨region.restored pageSize mach saved (ans i) l.s.vm,
        l.s.file.seek (l.s.file.pos + (region.saved pageSize saved (ans i)).length)⟩,
        l.entries ++ [.vmRegion], l.regions ++ [region.record pageSize (ans i)], l.uctx⟩)
        hregions.2 (File.rest_seek hrest rfl)
      refine hnext.trans ?_
      rw [savedEntries_cons, List.length_append, ← Nat.add_assoc, savedRecords_cons]
      simp only [List.append_assoc, List.cons_append, List.nil_append, File.seek_seek,
        File.pos_seek]
      rfl

/-- A region of no page ends the restart. -/
theorem readEntry_empty (hserves : mach.Serves) {ans : Answers} {region : VmRegion}
    (hmapped : region.Mapped pageSize) (hfull : region.byDirtyPages pageSize = false)
    (hbranch : (region.record pageSize ans).restoredByPages = false)
    (hempty : region.leading pageSize ans = 0) {more : List UInt8}
    (hrest : l.s.file.rest = region.saved pageSize saved ans ++ more) :
    readEntry pageSize mach data l = .error .failed := by
  rw [VmRegion.saved, List.append_assoc, List.append_assoc] at hrest
  have hzero : (region.record pageSize ans).size.toNat = 0 := by
    rw [hmapped.size_record hfull, hempty, Nat.zero_mul]
  rw [readEntry_region hrest, ckptVmRestoreRegion_empty hserves hbranch hzero]
  rfl

end Reader

end Xnd.Image
