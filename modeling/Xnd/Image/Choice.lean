import Xnd.Image.RoundTrip

/-!
# The choice between pages and region

A region that qualifies may be saved by its dirty pages or in full.  Where the pages that are
not dirty are those of a new mapping, both ways should leave the same memory after a restart.

**They do so just when** the region can be read or no page is dirty (`interchangeable_iff`):
`write_vm_region` asks for read permission before it saves a region in full, and does not
when it saves the dirty pages, so that the first of them cannot be written.
-/
namespace Xnd.Image

/-- The calls succeed, but for a write from a page without read permission.  The writes of
the region in full come after that permission was granted. -/
structure Permits (pageSize : Nat) (region : VmRegion) (ans : Answers) (vec : List Bool) : Prop where
  record : VmRegion.bytes ≤ ans.record
  page : ∀ p, pageSize ≤ ans.page p
  query : ans.query = some vec
  length : vec.length = region.pages pageSize
  offset : ∀ p, vmPageBytes ≤ ans.offset p
  body : ∀ p, if region.prot &&& vmProtRead = 0 then ans.body p = 0 else pageSize ≤ ans.body p

/-- The pages that are not dirty are those of a new mapping: in the dyld shared cache what
the restarted process has there, elsewhere zeros. -/
def Fresh (pageSize : Nat) (region : VmRegion) (vec : List Bool) (vm vm₀ : Vm) : Prop :=
  ∀ a, region.Covers a → vec[(a - region.start.toNat) / pageSize]? = some false →
    vm.mem a = if region.inDyldSharedCache = true then vm₀.mem a else 0

/-- Saving the dirty pages and restoring them works as well, and leaves this memory. -/
def Interchangeable (pageSize : Nat) (mach' : Mach) (ans : Answers) (region : VmRegion) (s : Saving)
    (vm₀ : Vm) (mem : Nat → UInt8) : Prop :=
  ∃ record s' t, writeVmRegionDirty pageSize ans { region with dirtyOnly := true } s =
      (.ok, record, s') ∧
    readVmRegion pageSize mach' ⟨vm₀, s'.file.seek s.file.pos⟩ = .ok (record, t) ∧ t.vm.mem = mem

section Dirty
variable {pageSize : Nat} {ans : Answers} {region : VmRegion} {vec : List Bool} {s : Saving}

/-- A page that cannot be read does not come out. -/
theorem writeVmPage_of_fault {idx : Nat} (hp : 0 < pageSize) (hbody : ans.body idx = 0) :
    (writeVmPage pageSize ans region idx s).1 ≠ .ok := by
  have hwrite : ∀ (t : Saving) bs, (t.writeall bs (ans.body idx)).1 = 0 := fun t bs => by
    rw [hbody]
    exact Nat.zero_min _
  unfold writeVmPage
  simp only
  split
  · exact nofun
  · rw [if_pos]
    · exact nofun
    · rw [hwrite]
      exact Nat.ne_of_lt hp

/-- The first dirty page does not come out, when it cannot be read. -/
theorem writeDirtyPages_of_fault {dirty idx pg : Nat} (hp : 0 < pageSize)
    (hcount : pg + vec.count true = dirty) (hdirty : true ∈ vec) (hbody : ∀ p, ans.body p = 0) :
    (writeDirtyPages pageSize ans region dirty vec idx pg s).1 ≠ .ok := by
  induction vec generalizing idx with
  | nil => cases hdirty
  | cons d vec ih =>
      have hpos : 0 < (d :: vec).count true := List.count_pos_iff.mpr hdirty
      rw [writeDirtyPages, if_neg (by omega)]
      cases d with
      | true =>
          have hpage : (writeVmPage pageSize ans region idx s).1 ≠ .ok :=
            writeVmPage_of_fault hp (hbody idx)
          simp only [if_true]
          split
          · rename_i hok
            rw [hok] at hpage
            exact absurd rfl hpage
          · exact hpage
      | false =>
          rw [List.count_cons_of_ne (by decide)] at hcount
          simp only [Bool.false_eq_true, if_false]
          exact ih hcount ((List.mem_cons.mp hdirty).resolve_left (by rintro ⟨⟩))

/-- The region does not come out, when some page is dirty and cannot be read. -/
theorem writeVmRegionDirty_of_fault (hp : 0 < pageSize) (hquery : ans.query = some vec)
    (hdirty : true ∈ vec) (hbody : ∀ p, ans.body p = 0) :
    (writeVmRegionDirty pageSize ans region s).1 ≠ .ok := by
  unfold writeVmRegionDirty
  split
  · exact nofun
  · rw [hquery]
    simp only
    split
    · exact nofun
    · split
      · exact nofun
      · exact writeDirtyPages_of_fault hp (Nat.zero_add _) hdirty hbody

end Dirty

section Choice
variable {pageSize : Nat} {mach mach' : Mach} {ans : Answers} {region record : VmRegion}
variable {vec : List Bool} {s s' : Saving} {vm₀ : Vm} {t : Restoring}

/-- What was appended is what is read first. -/
theorem rest_of_append {f f' : File} {bs : List UInt8} (hend : f.AtEnd) (h : f' = f.append bs) :
    (f'.seek f.pos).rest = bs := by
  subst h
  show (f.data ++ bs).drop f.pos = bs
  exact List.drop_left' hend.symm

/-- The region comes back in full. -/
theorem readVmRegion_of_full (vm₀ : Vm) (hp : 0 < pageSize) (hkeeps : mach.Keeps) (hserves : mach'.Serves)
    (hmapped : region.Mapped pageSize) (hpage : ∀ p, pageSize ≤ ans.page p) (hend : s.file.AtEnd)
    (hsave : writeVmRegionFull pageSize mach ans { region with dirtyOnly := false } s =
      (.ok, record, s')) :
    ∃ file, readVmRegion pageSize mach' ⟨vm₀, s'.file.seek s.file.pos⟩ =
      .ok (record, ⟨vm₀.restoreFull mach' { region with dirtyOnly := false }
        (s.vm.read region.start.toNat region.size.toNat), file⟩) := by
  have hall : leadingPages pageSize ans.page 0 (region.size.toNat / pageSize) =
      region.size.toNat / pageSize := by
    by_contra hne
    have hlt := lt_of_le_of_ne (leadingPages_le ans.page 0 _) hne
    have := leadingPages_stop ans.page 0 _ hlt
    have := hpage (0 + leadingPages pageSize ans.page 0 (region.size.toNat / pageSize))
    omega
  have hmul : region.size.toNat / pageSize * pageSize = region.size.toNat := hmapped.pages_mul
  obtain ⟨-, hcases⟩ := writeVmRegionFull_ok hkeeps hp hend hsave
  rcases hcases with ⟨-, rfl, -, hfile⟩ | ⟨hlt, -⟩ | ⟨hlt, -⟩
  · have hrest : (⟨vm₀, s'.file.seek s.file.pos⟩ : Restoring).file.rest = _ :=
      rest_of_append hend hfile
    have hrest' := File.rest_seek hrest (VmRegion.length_encode _)
    have hfull : ({ region with dirtyOnly := false } : VmRegion).restoredByPages = false :=
      Bool.and_false _
    have hlen : (s.vm.read region.start.toNat (region.size.toNat / pageSize * pageSize)).length =
        region.size.toNat := by
      rw [Vm.length_read, hmul]
    rw [readVmRegion_of_rest hrest, ckptVmRestoreRegion_full hserves hfull hmapped.pos
      (hrest'.trans (List.append_nil _).symm) hlen, hmul]
    exact ⟨_, rfl⟩
  · exact absurd hall (Nat.ne_of_lt hlt)
  · exact absurd hall (Nat.ne_of_lt hlt)

/-- **Both ways leave the same memory**, where the pages that are not dirty are new ones. -/
theorem mem_restorePages_eq (hp : 0 < pageSize) (hmapped : region.Mapped pageSize)
    (hlen : vec.length = region.pages pageSize) {saved : Vm}
    (hfresh : Fresh pageSize region vec saved vm₀) (dirty : BitVec 32) :
    (restorePages pageSize mach' { region with dirtyOnly := true, pagesDirtied := dirty } saved vec
        vm₀).mem =
      (vm₀.restoreFull mach' { region with dirtyOnly := false }
        (saved.read region.start.toNat region.size.toNat)).mem := by
  have hmul : vec.length * pageSize = region.size.toNat := by
    rw [hlen]
    exact hmapped.pages_mul
  -- the pages on top of what is there before them
  have hpages : ∀ vm : Vm, (∀ a, vm.mem a = if region.Covers a then
      (if region.inDyldSharedCache = true then vm₀.mem a else 0) else vm₀.mem a) →
      (storePages pageSize region.start.toNat saved vec 0 vm).mem =
        ((vm₀.fresh region.start.toNat region.size.toNat).store region.start.toNat
          (saved.read region.start.toNat region.size.toNat)).mem := fun vm hvm => by
    funext a
    rw [mem_storePages hp, Nat.zero_mul, Nat.add_zero, Nat.sub_zero]
    by_cases hcovers : region.Covers a
    · have hlt : (a - region.start.toNat) / pageSize < vec.length := by
        rw [Nat.div_lt_iff_lt_mul hp, hmul]
        have := hcovers.1
        have := hcovers.2
        omega
      rw [Vm.mem_store_read hcovers]
      cases hpage : vec[(a - region.start.toNat) / pageSize] with
      | true => rw [if_pos ⟨hcovers.1, List.getElem?_eq_some_iff.mpr ⟨hlt, hpage⟩⟩]
      | false =>
          have hsome : vec[(a - region.start.toNat) / pageSize]? = some false :=
            List.getElem?_eq_some_iff.mpr ⟨hlt, hpage⟩
          rw [hsome, if_neg (fun h => nomatch h.2), hvm, if_pos hcovers, hfresh a hcovers hsome]
    · have hnot : ¬ (region.start.toNat ≤ a ∧
          vec[(a - region.start.toNat) / pageSize]? = some true) :=
        fun h => hcovers (VmRegion.covers_of_page hp hmul h.1 h.2)
      have hout : ¬ (region.start.toNat ≤ a ∧ a < region.start.toNat +
          (saved.read region.start.toNat region.size.toNat).length) := by
        rw [Vm.length_read]
        exact hcovers
      rw [if_neg hnot, hvm, if_neg hcovers, Vm.mem_store_of_not hout, Vm.mem_fresh_of_not hcovers]
  rw [Vm.restoreFull, Vm.mem_refresh]
  by_cases hcache : region.inDyldSharedCache = true
  · have hrecord : ({ region with dirtyOnly := true, pagesDirtied := dirty } :
        VmRegion).inDyldSharedCache = true := hcache
    rw [restorePages, if_pos hrecord]
    refine Vm.fixPort_congr (hpages _ fun a => ?_) rfl rfl
    rw [if_pos hcache, ite_self]
    rfl
  · have hrecord : ¬ ({ region with dirtyOnly := true, pagesDirtied := dirty } :
        VmRegion).inDyldSharedCache = true := hcache
    rw [restorePages, if_neg hrecord, Vm.mem_refresh]
    refine Vm.fixPort_congr (hpages _ fun a => ?_) rfl rfl
    rw [if_neg hcache]
    split
    · exact Vm.mem_fresh ‹_›
    · exact Vm.mem_fresh_of_not ‹_›

/-- **The choice is not observable** just when the region can be read, or no page of it is
dirty; and the vector of its pages has to fit. -/
theorem interchangeable_iff (hp : 0 < pageSize) (hkeeps : mach.Keeps) (hserves : mach'.Serves)
    (hmapped : region.Mapped pageSize) (hqualifies : region.onlyRestoreDirtyPages = true)
    (hpermits : Permits pageSize region ans vec) (hend : s.file.AtEnd)
    (hfresh : Fresh pageSize region vec s.vm vm₀)
    (hsave : writeVmRegionFull pageSize mach ans { region with dirtyOnly := false } s =
      (.ok, record, s'))
    (hrestore : readVmRegion pageSize mach' ⟨vm₀, s'.file.seek s.file.pos⟩ = .ok (record, t)) :
    Interchangeable pageSize mach' ans region s vm₀ t.vm.mem ↔
      region.pages pageSize < 2 ^ 32 ∧ (region.prot &&& vmProtRead ≠ 0 ∨ true ∉ vec) := by
  obtain ⟨file, hread⟩ := readVmRegion_of_full vm₀ hp hkeeps hserves hmapped hpermits.page hend
    hsave
  obtain ⟨-, rfl⟩ := Prod.mk.inj (Except.ok.inj (hrestore.symm.trans hread))
  constructor
  · rintro ⟨dirty, u, t', hdirty, -, -⟩
    obtain ⟨vec', hquery, -, hlen, hbound, -⟩ := writeVmRegionDirty_ok hend hdirty
    obtain rfl := Option.some.inj (hpermits.query.symm.trans hquery)
    refine ⟨by rwa [← hpermits.length], ?_⟩
    by_contra hnot
    rw [not_or, not_not, not_not] at hnot
    have hbody : ∀ p, ans.body p = 0 := fun p => by
      have := hpermits.body p
      rwa [if_pos hnot.1] at this
    have hfailed : (writeVmRegionDirty pageSize ans { region with dirtyOnly := true } s).1 ≠ .ok :=
      writeVmRegionDirty_of_fault hp hpermits.query hnot.2 hbody
    rw [hdirty] at hfailed
    exact hfailed rfl
  · rintro ⟨hbound, hreadable⟩
    have hbody : true ∈ vec → ∀ p, pageSize ≤ ans.body p := fun hmem p => by
      have := hpermits.body p
      rwa [if_neg (hreadable.resolve_right (not_not.mpr hmem))] at this
    have hwrite : writeVmRegionDirty pageSize ans { region with dirtyOnly := true } s = _ :=
      writeVmRegionDirty_of_body hend hpermits.record hpermits.offset hpermits.query hmapped.dvd
        hpermits.length (by rwa [hpermits.length]) hbody
    -- the record that is written and read again
    have hcount : (BitVec.ofNat 32 (vec.count true)).toNat = vec.count true := by
      have hle : vec.count true ≤ vec.length := List.count_le_length
      have hlen := hpermits.length
      rw [BitVec.toNat_ofNat, Nat.mod_eq_of_lt (by omega)]
    have hfits : vec.length * pageSize < 2 ^ 64 := by
      have hbelow := hmapped.below
      rw [hpermits.length, hmapped.pages_mul]
      omega
    have hbranch : ({ region with dirtyOnly := true, pagesDirtied := .ofNat 32 (vec.count true) } :
        VmRegion).restoredByPages = true := (Bool.and_true _).trans hqualifies
    have hrest := rest_of_append hend (Eq.refl (s.file.append (({ region with
      dirtyOnly := true, pagesDirtied := .ofNat 32 (vec.count true) } : VmRegion).encode ++
        dirtyPages pageSize region.start.toNat s.vm vec 0)))
    have hrest' := (File.rest_seek hrest (VmRegion.length_encode _)).trans (List.append_nil _).symm
    have hread := @readVmRegion_of_rest pageSize mach' ⟨vm₀, _⟩ _ _ hrest
    rw [ckptVmRestoreRegion_pages hserves hbranch hmapped.pos hcount hfits hrest'] at hread
    exact ⟨_, _, _, hwrite, hread, mem_restorePages_eq hp hmapped hpermits.length hfresh _⟩

/-! ### An arena that cannot be read -/

/-- An arena of the allocator of one page, with no permission. -/
def closedArena : VmRegion := ⟨0x600000000#64, 16384#64, 1#32, 0#32, 7#32, 2#32, 7#32, 1#32, true⟩

/-- Its page is dirty, and cannot be written from. -/
def unreadable : Answers := { obliging with query := some [true], body := fun _ => 0 }

/-- An empty image. -/
def emptyImage : Saving := ⟨counting, ⟨[], 0⟩, false⟩

/-- The arena in full. -/
def closedSaved : Status × VmRegion × Saving :=
  writeVmRegionFull 16384 Mach.plain unreadable { closedArena with dirtyOnly := false } emptyImage

theorem closedArena_mapped : closedArena.Mapped 16384 := by
  constructor <;> decide

theorem closedSaved_ok : closedSaved = (.ok, closedSaved.2.1, closedSaved.2.2) :=
  eq_of_ok (by decide +kernel)

theorem atEnd_emptyImage : emptyImage.file.AtEnd := rfl

theorem closedArena_permits : Permits 16384 closedArena unreadable [true] where
  record := by decide
  page _ := Nat.le_refl _
  query := rfl
  length := by decide
  offset _ := Nat.le_refl _
  body _ := rfl

theorem closedArena_fresh : Fresh 16384 closedArena [true] emptyImage.vm counting := by
  intro a _ hpage
  exact absurd (List.mem_of_getElem? hpage) (by decide)

theorem interchangeable_closedArena : ∃ t, readVmRegion 16384 Mach.plain
      ⟨counting, closedSaved.2.2.file.seek 0⟩ = .ok (closedSaved.2.1, t) ∧
    (Interchangeable 16384 Mach.plain unreadable closedArena emptyImage counting t.vm.mem ↔
      closedArena.pages 16384 < 2 ^ 32 ∧ (closedArena.prot &&& vmProtRead ≠ 0 ∨ true ∉ [true])) := by
  obtain ⟨file, hread⟩ := readVmRegion_of_full counting (by decide) Mach.plain_keeps
    Mach.plain_serves closedArena_mapped closedArena_permits.page atEnd_emptyImage
    closedSaved_ok
  exact ⟨_, hread, interchangeable_iff (by decide) Mach.plain_keeps Mach.plain_serves
    closedArena_mapped (by decide) closedArena_permits atEnd_emptyImage closedArena_fresh
    closedSaved_ok hread⟩

/-- **The arena is saved in full and comes back**, and is not saved by its dirty page. -/
theorem not_interchangeable_closedArena : ∃ t, readVmRegion 16384 Mach.plain
      ⟨counting, closedSaved.2.2.file.seek 0⟩ = .ok (closedSaved.2.1, t) ∧ closedSaved.1 = .ok ∧
    Permits 16384 closedArena unreadable [true] ∧
    Fresh 16384 closedArena [true] emptyImage.vm counting ∧
    ¬ Interchangeable 16384 Mach.plain unreadable closedArena emptyImage counting t.vm.mem := by
  obtain ⟨file, hread⟩ := readVmRegion_of_full counting (by decide) Mach.plain_keeps
    Mach.plain_serves closedArena_mapped closedArena_permits.page atEnd_emptyImage
    closedSaved_ok
  refine ⟨_, hread, congrArg Prod.fst closedSaved_ok, closedArena_permits, closedArena_fresh, ?_⟩
  rintro ⟨record, s', t, hdirty, -, -⟩
  have hfailed : (writeVmRegionDirty 16384 unreadable { closedArena with dirtyOnly := true }
      emptyImage).1 ≠ .ok :=
    writeVmRegionDirty_of_fault (by decide) rfl List.mem_cons_self (fun _ => rfl)
  rw [hdirty] at hfailed
  exact hfailed rfl

end Choice

end Xnd.Image
