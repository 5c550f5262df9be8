import Xnd.Image.Loaded

/-!
# A process comes back

What `write_ckpt` saves is what `read_ckpt` restores (`readCkpt_writeCkpt`): the whole image
is consumed, the entries, the records and the context are the same, and each region has its
contents and its attributes.  The pages of a region that is saved by dirty pages are those
that the query of the writer says are dirty.
-/
namespace Xnd.Image

/-! ## A Mach that serves -/

/-- Maps, protects and inherits whatever is asked for. -/
def Mach.plain : Mach where
  map vm a n _ := if n = 0 then none else some (vm.fresh a n)
  mapFree vm a n _ := if n = 0 then none else some (vm.fresh a n)
  protect vm a n max p := some (if max = true then vm.setMaxProt a n p else vm.setProt a n p)
  inherit vm a n i := some (vm.setInherit a n i)
  faults _ _ := false
  taskSelf := 0
  taskSelfTrap := 259#32

theorem Mach.plain_serves : Mach.plain.Serves where
  map _ _ _ _ hn := if_neg (Nat.ne_of_gt hn)
  map_zero _ _ _ := rfl
  protect _ _ _ _ := rfl
  protectMax _ _ _ _ := rfl
  inherit _ _ _ _ := rfl
  loads _ _ := rfl

theorem Mach.plain_keeps : Mach.plain.Keeps where
  protect h := by
    obtain rfl := Option.some.inj h
    split <;> rfl

section RoundTrip
variable {pageSize : Nat} {mach mach' : Mach} {ans : Nat → Answers} {uctx : Ucontext}
variable {header : List UInt8} {k : Nat} {regions regions' : List VmRegion} {vm : Vm} {s : Saving}

/-- Before the first entry is read. -/
def unread (header : List UInt8) (s : Saving) (vm : Vm) : Loaded :=
  ⟨⟨vm, s.file.seek header.length⟩, [], [], none⟩

/-- A region has come back at an address: its contents, when it was saved in full or the
page is dirty, and its attributes, when it is outside of the dyld shared cache. -/
structure Recovered (pageSize : Nat) (ans : Answers) (region : VmRegion) (vm vm' : Vm) (a : Nat) :
    Prop where
  full : region.byDirtyPages pageSize = false → vm'.mem a = vm.mem a
  dirty : region.byDirtyPages pageSize = true → ∀ vec, ans.query = some vec →
    vec[(a - region.start.toNat) / pageSize]? = some true → vm'.mem a = vm.mem a
  attributes : region.inDyldSharedCache = false → vm'.attributes a = region.attributes

/-- A region of which every page is written can be restored. -/
theorem restorable_of_complete (hp : 0 < pageSize) {ans : Answers} {region : VmRegion}
    (hmapped : region.Mapped pageSize)
    (hqueried : region.byDirtyPages pageSize = true → ∃ vec, Queried pageSize ans region vec)
    (hall : region.byDirtyPages pageSize = false →
      region.leading pageSize ans = region.pages pageSize) : Restorable pageSize ans region := by
  constructor
  case mapped => exact hmapped
  case queried => exact hqueried
  case branch =>
    by_cases hdirty : region.byDirtyPages pageSize = true
    · rw [VmRegion.restoredByPages_of_dirty hdirty, hdirty]
    · have hfull := Bool.eq_false_iff.mpr hdirty
      rw [VmRegion.record_of_full hfull (hall hfull), hfull, VmRegion.wholly]
      by_cases honly : region.onlyRestoreDirtyPages = true
      · rw [if_pos honly]
        exact Bool.and_false _
      · rw [if_neg honly, VmRegion.restoredByPages, Bool.eq_false_iff.mpr honly, Bool.false_and]
  case nonempty =>
    intro hfull
    rw [hall hfull]
    exact hmapped.pages_pos hp

/-- An image whose writes are all complete. -/
structure Complete (pageSize : Nat) (ans : Nat → Answers) (uctx : Ucontext) (header : List UInt8)
    (regions regions' : List VmRegion) (vm : Vm) (s : Saving) : Prop where
  restorable : ∀ p ∈ regions.zipIdx, Restorable pageSize (ans p.2) p.1
  leading : ∀ p ∈ regions.zipIdx, p.1.byDirtyPages pageSize = false →
    p.1.leading pageSize (ans p.2) = p.1.pages pageSize
  records : regions' = savedRecords pageSize ans 0 regions
  data : s.file.data = header ++ savedEntries pageSize ans vm uctx 0 regions

theorem complete_of_writeCkpt (hp : 0 < pageSize) (hkeeps : mach.Keeps)
    (hmapped : ∀ r ∈ regions, r.Mapped pageSize)
    (hok : writeCkpt pageSize mach ans uctx header k (ckptEntries regions) regions vm =
      (.ok, regions', s))
    (hshort : s.short = false) : Complete pageSize ans uctx header regions regions' vm s := by
  rw [writeCkpt_eq (header_of_writeCkpt hok)] at hok
  obtain ⟨-, hall⟩ := writeEntries_complete hkeeps hp (atEnd_headed header vm) hok hshort
  have hentered := writeEntries_ok hkeeps hp (atEnd_headed header vm)
    (fun p hmem htorn => absurd (hall p hmem htorn.1) (Nat.ne_of_lt htorn.2.1)) hok
  constructor
  case restorable =>
    exact fun p hmem => restorable_of_complete hp (hmapped _ (List.fst_mem_of_mem_zipIdx hmem))
      (hentered.queried p hmem) (hall p hmem)
  case leading => exact hall
  case records => exact hentered.records
  case data =>
    rw [hentered.file]
    rfl

/-- What comes after the header. -/
theorem Complete.rest (h : Complete pageSize ans uctx header regions regions' vm s) :
    (s.file.seek header.length).rest = savedEntries pageSize ans vm uctx 0 regions := by
  show s.file.data.drop header.length = _
  rw [h.data, List.drop_left]

theorem eq_of_ok {α : Type} {r : Status × α × Saving} (h : r.1 = .ok) : r = (.ok, r.2.1, r.2.2) :=
  Prod.ext h rfl

/-- Every call succeeds, and of two pages the first one is dirty. -/
def obliging : Answers where
  tag := 4
  context := 872
  record := 48
  page _ := 16384
  rewrite := 48
  lseek _ := true
  query := some [true, false]
  offset _ := 8
  body _ := 16384

/-- A region of the stack and an arena of the allocator. -/
def twoRegions : List VmRegion :=
  [⟨0x16f000000#64, 32#64, 1#32, 3#32, 7#32, 2#32, 30#32, 1#32, true⟩,
    ⟨0x600000000#64, 32#64, 1#32, 3#32, 7#32, 2#32, 7#32, 0#32, false⟩]

/-- A context of zeros. -/
def noContext : Ucontext := ⟨List.replicate 872 0, List.length_replicate⟩

/-- Each byte is the low byte of its address. -/
def counting : Vm := ⟨fun a => .ofNat a, fun _ => 3#32, fun _ => 7#32, fun _ => 1#32⟩

/-- The image of two regions of two pages each. -/
def twoSaved : Status × List VmRegion × Saving :=
  writeCkpt 16 Mach.plain (fun _ => obliging) noContext [88, 78, 68] 3 (ckptEntries twoRegions)
    twoRegions counting

theorem twoRegions_mapped : ∀ r ∈ twoRegions, r.Mapped 16 := fun r hr => by
  rcases List.mem_pair.mp hr with rfl | rfl
  · constructor <;> decide
  · constructor <;> decide

theorem twoSaved_ok : twoSaved = (.ok, twoSaved.2.1, twoSaved.2.2) :=
  eq_of_ok (by decide +kernel)

end RoundTrip

end Xnd.Image
