import Xnd.Coord.Msg
import Xnd.Image.RoundTrip
import Xnd.Image.SaveRegions
import Mathlib.Data.List.TakeWhile

/-!
# The checkpoint of a process

`xnd_checkpoint` has two arrays on its stack, one for the records of the regions and one
for the entries of the image.  `ckpt_vm_save_regions` fills the first one without knowing
how long it is; whether there were too many regions is tested when it is back.

What comes after a store past the end of an array is not defined, so this is an outcome of
its own.  `ckpt_thread_work` goes on in the same way whatever `xnd_checkpoint` has done.
-/
namespace Xnd.Image

/-- `XND_CKPT_VM_REGION_MAX`. -/
def xndCkptVmRegionMax : Nat := 1023

/-- `XND_CKPT_ENTRY_MAX`. -/
def xndCkptEntryMax : Nat := 1024

/-- How `xnd_checkpoint` ends: past the end of an array, at an assertion, with too many
regions, or with what `write_ckpt` has made of the entries and the regions. -/
inductive Checkpointed where
  | overrun
  | aborted
  | exceeded
  | written (entries : List CkptEntry) (regions : List VmRegion)
      (result : Status × List VmRegion × Saving)

/-- `*(entries + i) = e`. -/
def storeEntry (entries : List CkptEntry) (i : Nat) (e : CkptEntry) : Option (List CkptEntry) :=
  if i < entries.length then some (entries.set i e) else none

/-- The loop of `xnd_checkpoint`, for `n` more entries from `i` on. -/
def fillEntries : Nat → Nat → List CkptEntry → Option (List CkptEntry)
  | _, 0, entries => some entries
  | i, n + 1, entries => (storeEntry entries i .vmRegion).bind (fillEntries (i + 1) n)

section Ckpt
variable (pageSize : Nat) (mach : Mach) (ans : Nat → Answers) (uctx : Ucontext)
variable (header : BitVec 32 → BitVec 32 → List UInt8) (k : Nat) (vm : Vm)

/-- `xnd_checkpoint` after `ckpt_vm_save_regions`; `header` are the bytes of the header with
the numbers of regions and of entries in it. -/
def afterSave (entries : List CkptEntry) : Saved → Checkpointed
  | .aborted => .aborted
  | .overrun => .overrun
  | .returned regions nrRegions =>
      if xndCkptVmRegionMax < nrRegions.toNat then .exceeded
      else
        match (fillEntries 0 nrRegions.toNat entries).bind
            (storeEntry · nrRegions.toNat .ucontext) with
        | none => .overrun
        | some entries =>
            let nrEntries := nrRegions + 1
            let entries := entries.take nrEntries.toNat
            let regions := regions.take nrRegions.toNat
            .written entries regions
              (writeCkpt pageSize mach ans uctx (header nrRegions nrEntries) k entries regions vm)

/-- `xnd_checkpoint`, when the loop of `ckpt_vm_save_regions` takes `n` turns at most. -/
def xndCheckpoint (kernel : Kernel) (n : Nat) (regions : List VmRegion)
    (entries : List CkptEntry) : Option Checkpointed :=
  (ckptVmSaveRegions kernel n regions).map (afterSave pageSize mach ans uctx header k vm entries)

end Ckpt

namespace Checkpointed

/-- What `ckpt_thread_work` sends to the coordinator after `xnd_checkpoint`, in
`enter_coord_barrier`. -/
def sends : Checkpointed → List Coord.XndMsghdr
  | overrun | aborted => []
  | exceeded => [.ckptDone]
  | written _ _ result => if result.1 = .aborted then [] else [.ckptDone]

/-- An image was written, as a whole or in part. -/
def imaged : Checkpointed → Bool
  | written _ _ _ => true
  | _ => false

end Checkpointed

/-! ## The entries -/

/-- A store behind those that are `done`. -/
theorem storeEntry_append (done rest : List CkptEntry) (old e : CkptEntry) :
    storeEntry (done ++ old :: rest) done.length e = some (done ++ [e] ++ rest) := by
  rw [storeEntry, if_pos (by simp)]
  simp

theorem fillEntries_append (n : Nat) (done rest : List CkptEntry) (h : n ≤ rest.length) :
    fillEntries done.length n (done ++ rest) =
      some (done ++ List.replicate n .vmRegion ++ rest.drop n) := by
  induction n generalizing done rest with
  | zero => simp [fillEntries]
  | succ n ih =>
      obtain _ | ⟨old, rest⟩ := rest
      · cases h
      have hrest := ih (done ++ [.vmRegion]) rest (Nat.le_of_succ_le_succ h)
      rw [List.length_append, List.length_singleton] at hrest
      rw [fillEntries, storeEntry_append, Option.bind_some, hrest, List.replicate_succ]
      simp

/-- The entries of `xnd_checkpoint`: one for each region, and one for the context. -/
theorem fillEntries_ckptEntries (regions : List VmRegion) (entries : List CkptEntry)
    (h : regions.length < entries.length) :
    ∃ filled, (fillEntries 0 regions.length entries).bind (storeEntry · regions.length .ucontext) =
        some filled ∧ filled.take (regions.length + 1) = ckptEntries regions := by
  have hfill := fillEntries_append regions.length [] entries h.le
  rw [List.length_nil, List.nil_append, List.nil_append] at hfill
  obtain ⟨old, rest, hrest⟩ : ∃ old rest, entries.drop regions.length = old :: rest :=
    List.exists_cons_of_length_pos (by simpa using h)
  have hstore := storeEntry_append (List.replicate regions.length .vmRegion) rest old .ucontext
  rw [List.length_replicate] at hstore
  refine ⟨ckptEntries regions ++ rest, ?_, ?_⟩
  · rw [hfill, Option.bind_some, hrest]
    exact hstore
  · refine List.take_left' ?_
    rw [ckptEntries, List.length_append, List.length_replicate, List.length_singleton]

/-! ## What is to hold -/

section Spec
variable {map : AddressMap} {kernel : Kernel} {pageSize : Nat} {mach : Mach}
variable {ans : Nat → Answers} {uctx : Ucontext} {header : BitVec 32 → BitVec 32 → List UInt8}
variable {k : Nat} {vm : Vm}

/-- **The image of the leaves that are accepted**: an entry for each and then the context, as
long as all writes are complete. -/
structure Imaged (pageSize : Nat) (mach : Mach) (ans : Nat → Answers) (uctx : Ucontext)
    (header : BitVec 32 → BitVec 32 → List UInt8) (k : Nat) (vm : Vm)
    (ls : List (Leaf Nat SubmapInfo)) (o : Checkpointed) : Prop where
  written : ∃ regions result, o = .written (ckptEntries regions) regions result ∧
    regions.length = ls.length ∧ (∃ old, regions = List.zipWith storeLeaf ls old) ∧
    (result.1 = .ok → result.2.2.short = false → result.2.2.file.data =
      header (.ofNat 32 ls.length) (.ofNat 32 ls.length + 1) ++
        savedEntries pageSize ans vm uctx 0 regions)

/-- **The checkpoint keeps to its arrays** `regions` and `entries`, and more regions than
there are places for are told. -/
def Contained (pageSize : Nat) (mach : Mach) (ans : Nat → Answers) (uctx : Ucontext)
    (header : BitVec 32 → BitVec 32 → List UInt8) (k : Nat) (vm : Vm) (kernel : Kernel)
    (map : AddressMap) : Prop :=
  ∀ regions entries, regions.length = xndCkptVmRegionMax → entries.length = xndCkptEntryMax →
    ∃ o, (∃ n, ∀ m ≥ n, xndCheckpoint pageSize mach ans uctx header k vm kernel m regions entries =
        some o) ∧
      o ≠ .overrun ∧
      (xndCkptVmRegionMax < (accepted map.entries.leaves).length →
        o.imaged = false ∧ .ckptDone ∉ o.sends) ∧
      ((accepted map.entries.leaves).length ≤ xndCkptVmRegionMax →
        (o = .aborted ∧ ¬ Asserted map.entries.leaves) ∨
          Imaged pageSize mach ans uctx header k vm (accepted map.entries.leaves) o)

/-- An image that is written as a whole. -/
theorem data_writeCkpt (hp : 0 < pageSize) (hkeeps : mach.Keeps) {hdr : List UInt8}
    {regions regions' : List VmRegion} {s : Saving}
    (h : writeCkpt pageSize mach ans uctx hdr k (ckptEntries regions) regions vm =
      (.ok, regions', s)) (hshort : s.short = false) :
    s.file.data = hdr ++ savedEntries pageSize ans vm uctx 0 regions := by
  rw [writeCkpt_eq (header_of_writeCkpt h)] at h
  have hend := atEnd_headed hdr vm
  obtain ⟨-, hwhole⟩ := writeEntries_complete hkeeps hp hend h hshort
  have hnot : ∀ p ∈ regions.zipIdx 0, ¬ p.1.Torn pageSize (ans p.2) := fun p hmem htorn =>
    absurd (hwhole p hmem htorn.1) (Nat.ne_of_lt htorn.2.1)
  rw [(writeEntries_ok hkeeps hp hend hnot h).file, File.data_append]
  rfl

/-- What is written when all leaves are accepted or refused. -/
theorem imaged_of_asserted (hp : 0 < pageSize) (hkeeps : mach.Keeps)
    {regions : List VmRegion} {entries : List CkptEntry} (hasserted : Asserted map.entries.leaves)
    (hle : (accepted map.entries.leaves).length ≤ xndCkptVmRegionMax)
    (hregions : regions.length = xndCkptVmRegionMax)
    (hentries : entries.length = xndCkptEntryMax) :
    Imaged pageSize mach ans uctx header k vm (accepted map.entries.leaves)
      (afterSave pageSize mach ans uctx header k vm entries (savedRegions map regions)) := by
  have hlarge : LargeEnough (accepted map.entries.leaves) regions :=
    ⟨hregions ▸ hle, hregions ▸ by decide⟩
  obtain ⟨regions', regionCount, hsaved, hstores⟩ := savedRegions_returned hlarge hasserted
  have hlength : (List.zipWith storeLeaf (accepted map.entries.leaves) regions).length =
      (accepted map.entries.leaves).length := by
    rw [List.length_zipWith]
    exact Nat.min_eq_left hlarge.room
  have htake : regions'.take regionCount.toNat =
      List.zipWith storeLeaf (accepted map.entries.leaves) regions := by
    rw [hstores.count, hstores.records]
    exact List.take_left' hlength
  have hcount : regionCount = .ofNat 32 (accepted map.entries.leaves).length := by
    rw [← hstores.count, BitVec.ofNat_toNat, BitVec.setWidth_eq]
  have hentryCount : (regionCount + 1).toNat = (accepted map.entries.leaves).length + 1 := by
    rw [hcount]
    exact toNat_succ (by simp only [xndCkptVmRegionMax] at hle; omega)
  obtain ⟨filled, hfill, hfilled⟩ := fillEntries_ckptEntries
    (List.zipWith storeLeaf (accepted map.entries.leaves) regions) entries
    (by rw [hlength, hentries]; exact Nat.lt_succ_of_le hle)
  rw [hlength] at hfill hfilled
  rw [hstores.count] at htake
  refine ⟨List.zipWith storeLeaf (accepted map.entries.leaves) regions,
    writeCkpt pageSize mach ans uctx (header regionCount (regionCount + 1)) k
      (ckptEntries (List.zipWith storeLeaf (accepted map.entries.leaves) regions))
      (List.zipWith storeLeaf (accepted map.entries.leaves) regions) vm, ?_, hlength, ⟨regions, rfl⟩,
    fun hok hshort => ?_⟩
  · rw [hsaved, afterSave, if_neg (by rw [hstores.count]; exact Nat.not_lt.mpr hle)]
    simp only [hentryCount, hstores.count, hfill, hfilled, htake]
  · rw [← hcount]
    exact data_writeCkpt hp hkeeps (Prod.ext hok rfl) hshort

/-- How `xnd_checkpoint` ends, for an address map as the kernel has it. -/
theorem xndCheckpoint_ends (hkernel : kernel.Recurses map) (regions : List VmRegion)
    (entries : List CkptEntry) : ∃ n, ∀ m ≥ n,
      xndCheckpoint pageSize mach ans uctx header k vm kernel m regions entries =
        some (afterSave pageSize mach ans uctx header k vm entries (savedRegions map regions)) := by
  obtain ⟨n, hn⟩ := ckptVmSaveRegions_ends hkernel regions
  exact ⟨n, fun m hm => congrArg (Option.map _) (hn m hm)⟩

/-- One region too many is stored past the end of `regions`. -/
theorem accepted_le_of_contained (hkernel : kernel.Recurses map)
    (hcontained : Contained pageSize mach ans uctx header k vm kernel map) :
    (accepted (reached map.entries.leaves)).length ≤ xndCkptVmRegionMax := by
  by_contra hnot
  obtain ⟨o, ⟨n, hn⟩, hinside, -⟩ := hcontained
    (List.replicate xndCkptVmRegionMax ⟨0, 0, 0, 0, 0, 0, 0, 0, false⟩)
    (List.replicate xndCkptEntryMax .ucontext) List.length_replicate List.length_replicate
  obtain ⟨n', hn'⟩ := @xndCheckpoint_ends map kernel pageSize mach ans uctx header k vm hkernel _ _
  have heq := (hn _ (Nat.le_max_left n n')).symm.trans (hn' _ (Nat.le_max_right n n'))
  have hoverrun := foldlM_saveLeaf_overrun map.entries.leaves []
    (List.replicate xndCkptVmRegionMax ⟨0, 0, 0, 0, 0, 0, 0, 0, false⟩)
    (by rw [List.length_replicate]; exact Nat.not_le.mp hnot)
    (by rw [List.length_replicate]; decide)
  refine hinside ((Option.some.inj heq).trans ?_)
  exact congrArg (afterSave pageSize mach ans uctx header k vm _) (congrArg savedOf hoverrun)

/-- **The checkpoint keeps to its arrays exactly when** not more regions are accepted than
there are places for. -/
theorem contained_iff (hkernel : kernel.Recurses map) (hp : 0 < pageSize) (hkeeps : mach.Keeps) :
    Contained pageSize mach ans uctx header k vm kernel map ↔
      (accepted (reached map.entries.leaves)).length ≤ xndCkptVmRegionMax := by
  refine ⟨accepted_le_of_contained hkernel, fun hle regions entries hregions hentries => ?_⟩
  refine ⟨_, xndCheckpoint_ends hkernel regions entries, ?_⟩
  by_cases hasserted : Asserted map.entries.leaves
  · have hall : reached map.entries.leaves = map.entries.leaves :=
      List.takeWhile_eq_self_iff.mpr fun l hl =>
        Option.isSome_iff_ne_none.mpr (hasserted l hl)
    rw [hall] at hle
    have himaged : Imaged pageSize mach ans uctx header k vm (accepted map.entries.leaves)
        (afterSave pageSize mach ans uctx header k vm entries (savedRegions map regions)) :=
      imaged_of_asserted hp hkeeps hasserted hle hregions hentries
    obtain ⟨stored, result, ho, -⟩ := himaged.written
    refine ⟨?_, fun hmore => absurd hle (Nat.not_le.mpr hmore), fun _ => .inr himaged⟩
    rw [ho]
    exact nofun
  · have haborted : savedRegions map regions = .aborted := congrArg savedOf
      (foldlM_saveLeaf_aborted (hregions ▸ hle) (hregions ▸ by decide) hasserted)
    rw [haborted, afterSave]
    exact ⟨nofun, fun _ => ⟨rfl, List.not_mem_nil⟩, fun _ => .inl ⟨rfl, hasserted⟩⟩

/-! ### A process of 1024 regions -/

/-- `n` pages of private memory from an address on, with a page between any two. -/
def ladder : Nat → Nat → Entries Nat SubmapInfo
  | 0, _ => .nil
  | n + 1, lo => .leaf lo (lo + 0x4000) (privateInfo 0#32 1#32) (ladder n (lo + 0x8000))

theorem ordered_ladder (n lo hi : Nat) (h : lo + n * 0x8000 ≤ hi) : (ladder n lo).Ordered lo hi := by
  induction n generalizing lo with
  | zero => trivial
  | succ n ih =>
      refine ⟨Nat.le_refl _, by omega, by omega, ?_⟩
      exact (ih (lo + 0x8000) (by omega)).mono (by omega)

theorem height_ladder (n lo : Nat) : (ladder n lo).height = 0 := by
  induction n generalizing lo with
  | zero => rfl
  | succ n ih => exact ih _

/-- 1024 regions above the zero page. -/
def manyMap : AddressMap where
  entries := ladder 1024 0x100000000
  ordered := (ordered_ladder 1024 0x100000000 _ (by decide)).mono (Nat.zero_le _)
  nested := by rw [height_ladder]; decide

/-- The numbers of regions and of entries, and no more of the header. -/
def counts (regionCount entryCount : BitVec 32) : List UInt8 :=
  leBytes 4 entryCount.toNat ++ leBytes 4 regionCount.toNat

theorem contained_sharedCacheMap :
    Contained 16384 Mach.plain (fun _ => obliging) noContext counts 8 counting
        sharedCacheMap.kernel sharedCacheMap ↔
      (accepted (reached sharedCacheMap.entries.leaves)).length ≤ xndCkptVmRegionMax :=
  contained_iff sharedCacheMap.recurses_kernel (by decide) Mach.plain_keeps

/-- **One region more than there are places for**: it is stored past the end of `regions`.
Where this does no harm, no image is written, and `XND_CKPT_DONE` is sent. -/
theorem not_contained_manyMap : manyMap.kernel.Recurses manyMap ∧
    ¬ Contained 16384 Mach.plain (fun _ => obliging) noContext counts 8 counting manyMap.kernel
      manyMap ∧
    (∃ n, ∀ m ≥ n, xndCheckpoint 16384 Mach.plain (fun _ => obliging) noContext counts 8 counting
      manyMap.kernel m (List.replicate 1024 ⟨0, 0, 0, 0, 0, 0, 0, 0, false⟩)
      (List.replicate xndCkptEntryMax .ucontext) = some .exceeded) ∧
    Checkpointed.exceeded.imaged = false ∧ Checkpointed.exceeded.sends = [.ckptDone] := by
  have hkernel := manyMap.recurses_kernel
  refine ⟨hkernel, fun hcontained => ?_, ?_, rfl, rfl⟩
  · have hmany : (accepted (reached manyMap.entries.leaves)).length = 1024 := by decide +kernel
    have hle := accepted_le_of_contained hkernel hcontained
    rw [hmany] at hle
    exact absurd hle (by decide)
  · have hasserted : Asserted manyMap.entries.leaves := by
      unfold Asserted
      decide +kernel
    have hmany : (accepted manyMap.entries.leaves).length = 1024 := by decide +kernel
    let regions := List.replicate 1024 (VmRegion.mk 0 0 0 0 0 0 0 0 false)
    have hregions : regions.length = 1024 := List.length_replicate
    have hlarge : LargeEnough (accepted manyMap.entries.leaves) regions :=
      ⟨(hmany.trans hregions.symm).le, by rw [hregions]; decide⟩
    obtain ⟨n, hn⟩ := ckptVmSaveRegions_ends hkernel regions
    obtain ⟨regions', regionCount, hsaved, hstores⟩ := savedRegions_returned hlarge hasserted
    refine ⟨n, fun m hm => (congrArg (Option.map _) (hn m hm)).trans ?_⟩
    rw [hsaved, Option.map_some, afterSave, if_pos]
    rw [hstores.count, hmany]
    decide

end Spec

end Xnd.Image
