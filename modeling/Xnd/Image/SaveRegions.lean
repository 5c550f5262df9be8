import Xnd.Lib.Nested
import Xnd.Image.Region

/-!
# Saving the regions of a process

`ckpt_vm_save_regions` asks `mach_vm_region_recurse` for one region after the other, and
stores those that `ckpt_vm_valid_region` accepts.  It goes into a submap by asking at the
same address once more, one level deeper; the depth becomes smaller again when the kernel
finds a region that is not as deep.

The kernel is whoever answers as `Kernel.Recurses` says.  A store past the end of the array is
an outcome of its own.
-/
namespace Xnd.Image

def vmMemoryMalloc : BitVec 32 := 1#32
def vmMemoryMallocHuge : BitVec 32 := 4#32
def vmMemoryRealloc : BitVec 32 := 6#32
def vmMemoryMallocLargeReusable : BitVec 32 := 8#32
def vmMemoryMallocLargeReused : BitVec 32 := 9#32
def vmMemoryMallocProbGuard : BitVec 32 := 13#32
def vmKernMemoryUbc : BitVec 32 := 22#32
def vmMemoryStack : BitVec 32 := 30#32
def vmMemoryGuard : BitVec 32 := 31#32
def vmMemorySharedPmap : BitVec 32 := 32#32
def vmMemoryDylib : BitVec 32 := 33#32
def vmMemoryUnsharedPmap : BitVec 32 := 35#32
def vmMemoryDyld : BitVec 32 := 60#32
def vmMemoryDyldMalloc : BitVec 32 := 61#32
def vmMemoryOsAllocOnce : BitVec 32 := 73#32
def vmMemoryRestartStack : BitVec 32 := 240#32

def vmProtNone : VmProt := 0#32
def vmInheritNone : BitVec 32 := 2#32
def vmBehaviorRseqntl : BitVec 32 := 3#32

def pagezeroEnd : BitVec 64 := 0x100000000#64
def xndRestartBase : BitVec 64 := 0x500000000000#64
/-- The segments of `xnd_restart_internal`, what is reserved for dyld, and the stack. -/
def xndRestartEnd : BitVec 64 :=
  xndRestartBase + 0x8000#64 + 0x4000#64 + 0x4000#64 + 0x4000#64 + 0x190000#64 + 0x100000#64

/-- `vm_region_submap_info_data_64_t`, the fields that are read. -/
structure SubmapInfo where
  protection : VmProt
  maxProtection : VmProt
  inheritance : BitVec 32
  userTag : BitVec 32
  pagesResident : BitVec 32
  pagesDirtied : BitVec 32
  shareMode : BitVec 8
  behavior : BitVec 32
  deriving DecidableEq, Repr

section Valid
variable (info : SubmapInfo) (addr size : BitVec 64)

/-- `PAGEZERO`. -/
def pagezero : Bool := decide (0#64 ≤ addr) && decide (addr + size < pagezeroEnd)

/-- `RESTART_REGION`, with `XND_RESTART_BASE` and `XND_RESTART_END`. -/
def restartRegion : Bool :=
  decide (xndRestartBase ≤ addr) && decide (addr + size < xndRestartEnd) ||
    info.inheritance == vmInheritNone && info.behavior == vmBehaviorRseqntl ||
    info.userTag == vmMemoryRestartStack

/-- `DYLD_SHARED_CACHE_REGION`. -/
def dyldSharedCacheRegion : Bool :=
  decide (dyldSharedCacheBase ≤ addr) && decide (addr + size < dyldSharedCacheEnd)

/-- `ckpt_vm_valid_region`.  No result: the assertion failed. -/
def ckptVmValidRegion : Option Bool :=
  if pagezero addr size || restartRegion info addr size || info.maxProtection == vmProtNone then
    some false
  else if dyldSharedCacheRegion addr size = true then some (info.pagesDirtied != 0)
  else if info.userTag ∈ [vmMemoryMalloc, vmMemoryMallocNano, vmMemoryMallocTiny,
      vmMemoryMallocSmall, vmMemoryMallocMedium, vmMemoryMallocLarge, vmMemoryMallocHuge,
      vmMemoryMallocLargeReusable, vmMemoryMallocLargeReused, vmMemoryMallocProbGuard,
      vmMemoryStack] then
    some true
  else if info.userTag ∈ [vmMemoryDyld, vmMemoryDyldMalloc] then
    if info.pagesResident ≠ 0 ∧ info.pagesDirtied ≠ 0 then
      if info.maxProtection &&& vmProtWrite ≠ 0 then some true else none
    else some false
  else if info.userTag ∈ [vmMemoryRealloc, vmMemoryGuard, vmMemorySharedPmap,
      vmMemoryUnsharedPmap] then
    some false
  else if info.userTag ∈ [vmMemoryDylib, vmMemoryOsAllocOnce] then some true
  else if info.userTag = vmKernMemoryUbc then
    if dyldSharedCacheEnd ≤ addr then some false else some true
  else some true

/-- A region as it is stored; `dirty_only` stays what it was. -/
def SubmapInfo.store (rgn : VmRegion) : VmRegion :=
  { rgn with
    start := addr
    size := size
    inherit := info.inheritance
    prot := info.protection
    maxProt := info.maxProtection
    mode := info.shareMode.setWidth 32
    tag := info.userTag
    pagesDirtied := info.pagesDirtied }

end Valid

/-- What `mach_vm_region_recurse` says about an entry. -/
structure Recursed where
  addr : BitVec 64
  size : BitVec 64
  depth : BitVec 32
  isSubmap : Bool
  info : SubmapInfo

/-- `mach_vm_region_recurse`, from an address and a depth on; no result: it was not
successful. -/
abbrev Kernel := BitVec 64 → BitVec 32 → Option Recursed

/-- How `ckpt_vm_save_regions` ends. -/
inductive Saved where
  | returned (regions : List VmRegion) (regionCount : BitVec 32)
  | aborted
  | overrun

/-- The loop of `ckpt_vm_save_regions`, for `n` turns at most.  No result: it goes on. -/
def saveTurns (kernel : Kernel) : Nat → BitVec 64 → BitVec 32 → List VmRegion → BitVec 32 →
    Option Saved
  | 0, _, _, _, _ => none
  | n + 1, addr, depth, regions, regionCount =>
      match kernel addr depth with
      | none => some (.returned regions regionCount)
      | some ⟨addr, size, depth, isSubmap, info⟩ =>
          if isSubmap then saveTurns kernel n addr (depth + 1) regions regionCount
          else
            match ckptVmValidRegion info addr size with
            | none => some .aborted
            | some false => saveTurns kernel n (addr + size) depth regions regionCount
            | some true =>
                if regionCount.toNat < regions.length then
                  saveTurns kernel n (addr + size) depth
                    (regions.modify regionCount.toNat (info.store addr size)) (regionCount + 1)
                else some .overrun

/-- `ckpt_vm_save_regions`, for `n` turns at most. -/
def ckptVmSaveRegions (kernel : Kernel) (n : Nat) (regions : List VmRegion) : Option Saved :=
  saveTurns kernel n 0 0 regions 0

/-! ## Address maps -/

/-- The entries of a process: they end at an address, and what is in a submap has a depth
that is a `natural_t`. -/
structure AddressMap where
  entries : Entries Nat SubmapInfo
  ordered : entries.Ordered 0 (2 ^ 64 - 1)
  nested : entries.height < 2 ^ 32

/-- An entry as the kernel tells of it. -/
def recursed (i : Item Nat SubmapInfo) : Recursed :=
  ⟨.ofNat 64 i.lo, .ofNat 64 (i.hi - i.lo), .ofNat 32 i.depth, i.inner.isSome, i.info⟩

/-- **The contract of `mach_vm_region_recurse`**: it finds the first entry at or after the
address, opening as many levels of submaps as the depth says. -/
def Kernel.Recurses (kernel : Kernel) (map : AddressMap) : Prop :=
  ∀ addr depth, kernel addr depth = (map.entries.next addr.toNat depth.toNat).map recursed

/-- The kernel that keeps to the contract. -/
def AddressMap.kernel (map : AddressMap) : Kernel := fun addr depth =>
  (map.entries.next addr.toNat depth.toNat).map recursed

theorem AddressMap.recurses_kernel (map : AddressMap) : map.kernel.Recurses map := fun _ _ => rfl

/-- Whether a leaf is accepted. -/
def validLeaf (l : Leaf Nat SubmapInfo) : Option Bool :=
  ckptVmValidRegion l.info (.ofNat 64 l.lo) (.ofNat 64 (l.hi - l.lo))

/-- A leaf that is stored. -/
def storeLeaf (l : Leaf Nat SubmapInfo) (rgn : VmRegion) : VmRegion :=
  l.info.store (.ofNat 64 l.lo) (.ofNat 64 (l.hi - l.lo)) rgn

/-- The leaves that are accepted. -/
def accepted (ls : List (Leaf Nat SubmapInfo)) : List (Leaf Nat SubmapInfo) :=
  ls.filter fun l => validLeaf l == some true

/-- The leaves before the first one of which the assertion does not hold. -/
def reached (ls : List (Leaf Nat SubmapInfo)) : List (Leaf Nat SubmapInfo) :=
  ls.takeWhile fun l => (validLeaf l).isSome

/-- The assertion holds of every leaf. -/
def Asserted (ls : List (Leaf Nat SubmapInfo)) : Prop := ∀ l ∈ ls, validLeaf l ≠ none

/-! ## The loop is a walk -/

/-- What the loop does with a leaf. -/
def saveLeaf (s : List VmRegion × BitVec 32) (l : Leaf Nat SubmapInfo) :
    Except Saved (List VmRegion × BitVec 32) :=
  match validLeaf l with
  | none => .error .aborted
  | some false => .ok s
  | some true =>
      if s.2.toNat < s.1.length then .ok (s.1.modify s.2.toNat (storeLeaf l), s.2 + 1)
      else .error .overrun

/-- How the loop ends when the walk does. -/
def savedOf : Except Saved (List VmRegion × BitVec 32) → Saved
  | .ok s => .returned s.1 s.2
  | .error saved => saved

section Turns
variable {map : AddressMap} {kernel : Kernel}

theorem toNat_lo {l : Leaf Nat SubmapInfo} (h : l.Within 0 (2 ^ 64 - 1)) :
    (BitVec.ofNat 64 l.lo).toNat = l.lo := by
  have hlt := h.lt
  have hle := h.hi_le
  rw [BitVec.toNat_ofNat]
  exact Nat.mod_eq_of_lt (by omega)

/-- `addr += size`. -/
theorem toNat_hi {l : Leaf Nat SubmapInfo} (h : l.Within 0 (2 ^ 64 - 1)) :
    (BitVec.ofNat 64 l.lo + BitVec.ofNat 64 (l.hi - l.lo)).toNat = l.hi := by
  have hlt := h.lt
  have hle := h.hi_le
  rw [BitVec.toNat_add, BitVec.toNat_ofNat, BitVec.toNat_ofNat]
  omega

/-- `depth++`. -/
theorem toNat_succ {d : Nat} (h : d + 1 < 2 ^ 32) : (BitVec.ofNat 32 d + 1).toNat = d + 1 := by
  rw [BitVec.toNat_add, BitVec.toNat_ofNat, Nat.mod_eq_of_lt (by omega : d < 2 ^ 32)]
  exact Nat.mod_eq_of_lt h

/-- The loop of `ckpt_vm_save_regions` is a walk through the map. -/
theorem saveTurns_eq_visit (hkernel : kernel.Recurses map) (n : Nat) (addr : BitVec 64)
    (depth : BitVec 32) (s : List VmRegion × BitVec 32) :
    saveTurns kernel n addr depth s.1 s.2 =
      (visit map.entries.next saveLeaf n addr.toNat depth.toNat s).map savedOf := by
  induction n generalizing addr depth s with
  | zero => rfl
  | succ n ih =>
      rw [saveTurns, visit, hkernel]
      cases hnext : map.entries.next addr.toNat depth.toNat with
      | none => rfl
      | some i =>
          have hmem := (Entries.next_eq_some map.ordered hnext).1
          have hwithin := (Entries.within_view map.ordered hmem).1
          simp only [Option.map_some, recursed]
          cases hinner : i.inner with
          | some inner =>
              have hclosed := Entries.closed_view hmem hinner
              have hnested := map.nested
              have hdepth := toNat_succ (d := i.depth) (by omega)
              simp only [Option.isSome_some, if_true, ih, toNat_lo hwithin, hdepth]
          | none =>
              have hdepth : (BitVec.ofNat 32 i.depth).toNat = i.depth := by
                have hle := (Entries.depth_view hmem).2
                have hlt := depth.isLt
                rw [BitVec.toNat_ofNat]
                exact Nat.mod_eq_of_lt (by omega)
              simp only [Option.isSome_none, Bool.false_eq_true, if_false, saveLeaf]
              rw [show ckptVmValidRegion i.info (.ofNat 64 i.lo) (.ofNat 64 (i.hi - i.lo)) =
                validLeaf i.toLeaf from rfl]
              have hgo := fun s => ih (.ofNat 64 i.lo + .ofNat 64 (i.hi - i.lo))
                (.ofNat 32 i.depth) s
              rw [toNat_hi hwithin, hdepth] at hgo
              cases validLeaf i.toLeaf with
              | none => rfl
              | some valid =>
                  cases valid with
                  | false => exact hgo s
                  | true =>
                      by_cases hroom : s.2.toNat < s.1.length
                      · simp only [if_pos hroom]
                        exact hgo (s.1.modify s.2.toNat (storeLeaf i.toLeaf), s.2 + 1)
                      · simp only [if_neg hroom]
                        rfl

/-! ## What is stored -/

/-- A leaf that is accepted is stored behind those that are `done`. -/
theorem saveLeaf_store {l : Leaf Nat SubmapInfo} {done rest : List VmRegion} {rgn : VmRegion}
    (hvalid : validLeaf l = some true) (hfits : done.length + 1 < 2 ^ 32) :
    saveLeaf (done ++ rgn :: rest, .ofNat 32 done.length) l =
      .ok (done ++ [storeLeaf l rgn] ++ rest, .ofNat 32 (done ++ [storeLeaf l rgn]).length) := by
  have hcount : (BitVec.ofNat 32 done.length).toNat = done.length := by
    rw [BitVec.toNat_ofNat]
    exact Nat.mod_eq_of_lt (by omega)
  have hnext : BitVec.ofNat 32 done.length + 1 = .ofNat 32 (done ++ [storeLeaf l rgn]).length := by
    apply BitVec.eq_of_toNat_eq
    rw [toNat_succ hfits, BitVec.toNat_ofNat, List.length_append]
    exact (Nat.mod_eq_of_lt hfits).symm
  have hmodify : (done ++ rgn :: rest).modify done.length (storeLeaf l) =
      done ++ [storeLeaf l rgn] ++ rest := by
    rw [List.modify_eq_take_cons_drop (by simp)]
    simp
  simp only [saveLeaf, hvalid, hcount]
  rw [if_pos (by simp), hmodify, hnext]

/-- The array while it is filled: the records that are `done`, and `rest` of its places.  The
places are enough for the leaves that are accepted. -/
theorem foldlM_saveLeaf (ls : List (Leaf Nat SubmapInfo)) (done rest : List VmRegion)
    (hroom : (accepted ls).length ≤ rest.length) (hfits : done.length + rest.length < 2 ^ 32)
    (hasserted : Asserted ls) :
    ls.foldlM saveLeaf (done ++ rest, .ofNat 32 done.length) =
      .ok (done ++ List.zipWith storeLeaf (accepted ls) rest ++ rest.drop (accepted ls).length,
        .ofNat 32 (done.length + (accepted ls).length)) := by
  induction ls generalizing done rest with
  | nil => simp [accepted]; rfl
  | cons l ls ih =>
      have hasserted' : Asserted ls := fun m hm => hasserted m (List.mem_cons_of_mem _ hm)
      rw [List.foldlM_cons]
      cases hvalid : validLeaf l with
      | none => exact absurd hvalid (hasserted l List.mem_cons_self)
      | some valid =>
          cases valid with
          | false =>
              have hskip : accepted (l :: ls) = accepted ls := by simp [accepted, hvalid]
              rw [hskip] at hroom ⊢
              rw [saveLeaf, hvalid]
              exact ih done rest hroom hfits hasserted'
          | true =>
              have htake : accepted (l :: ls) = l :: accepted ls := by simp [accepted, hvalid]
              rw [htake] at hroom ⊢
              obtain _ | ⟨rgn, rest⟩ := rest
              · cases hroom
              rw [List.length_cons] at hfits
              have hone : (done ++ [storeLeaf l rgn]).length = done.length + 1 :=
                List.length_append
              have hrun := ih (done ++ [storeLeaf l rgn]) rest
                (Nat.le_of_succ_le_succ hroom) (by omega) hasserted'
              rw [saveLeaf_store hvalid (by omega)]
              refine hrun.trans ?_
              rw [hone, Nat.add_assoc, Nat.add_comm 1]
              simp

/-- The leaves that are reached, and the one after them. -/
theorem reached_spec (ls : List (Leaf Nat SubmapInfo)) : Asserted (reached ls) ∧
    (¬ Asserted ls → ∃ l after, ls = reached ls ++ l :: after ∧ validLeaf l = none) := by
  induction ls with
  | nil => exact ⟨nofun, fun h => absurd nofun h⟩
  | cons l ls ih =>
      obtain ⟨hreached, hfirst⟩ := ih
      cases hvalid : validLeaf l with
      | none =>
          have hnil : reached (l :: ls) = [] := List.takeWhile_cons_of_neg (by simp [hvalid])
          rw [hnil]
          exact ⟨nofun, fun _ => ⟨l, ls, rfl, hvalid⟩⟩
      | some valid =>
          have hcons : reached (l :: ls) = l :: reached ls :=
            List.takeWhile_cons_of_pos (by simp [hvalid])
          have hl : validLeaf l ≠ none := by simp [hvalid]
          rw [hcons]
          refine ⟨List.forall_mem_cons.mpr ⟨hl, hreached⟩, fun hasserted => ?_⟩
          obtain ⟨m, after, hsplit, hnone⟩ :=
            hfirst fun h => hasserted (List.forall_mem_cons.mpr ⟨hl, h⟩)
          exact ⟨m, after, congrArg (l :: ·) hsplit, hnone⟩

/-- At the first leaf of which the assertion does not hold, the process is aborted. -/
theorem foldlM_saveLeaf_aborted {ls : List (Leaf Nat SubmapInfo)} {rest : List VmRegion}
    (hroom : (accepted (reached ls)).length ≤ rest.length) (hfits : rest.length < 2 ^ 32)
    (hasserted : ¬ Asserted ls) : ls.foldlM saveLeaf (rest, 0) = .error .aborted := by
  obtain ⟨hreached, hfirst⟩ := reached_spec ls
  obtain ⟨l, after, hsplit, hnone⟩ := hfirst hasserted
  have hstop : ∀ s, saveLeaf s l = .error .aborted := fun s => by rw [saveLeaf, hnone]
  have hrun := foldlM_saveLeaf (reached ls) [] rest hroom (by simpa using hfits) hreached
  rw [hsplit, List.foldlM_append]
  refine (congrArg (· >>= _) hrun).trans ?_
  exact (List.foldlM_cons).trans (congrArg (· >>= _) (hstop _))

/-- There are more leaves than places: one is stored past the end. -/
theorem foldlM_saveLeaf_overrun (ls : List (Leaf Nat SubmapInfo)) (done rest : List VmRegion)
    (hroom : rest.length < (accepted (reached ls)).length)
    (hfits : done.length + rest.length < 2 ^ 32) :
    ls.foldlM saveLeaf (done ++ rest, .ofNat 32 done.length) = .error .overrun := by
  induction ls generalizing done rest with
  | nil => exact absurd hroom (Nat.not_lt_zero _)
  | cons l ls ih =>
      rw [List.foldlM_cons]
      cases hvalid : validLeaf l with
      | none =>
          have hnil : reached (l :: ls) = [] := List.takeWhile_cons_of_neg (by simp [hvalid])
          rw [hnil] at hroom
          exact absurd hroom (Nat.not_lt_zero _)
      | some valid =>
          have hcons : reached (l :: ls) = l :: reached ls :=
            List.takeWhile_cons_of_pos (by simp [hvalid])
          rw [hcons] at hroom
          cases valid with
          | false =>
              have hskip : accepted (l :: reached ls) = accepted (reached ls) := by
                simp [accepted, hvalid]
              rw [hskip] at hroom
              rw [saveLeaf, hvalid]
              exact ih done rest hroom hfits
          | true =>
              have htake : accepted (l :: reached ls) = l :: accepted (reached ls) := by
                simp [accepted, hvalid]
              rw [htake, List.length_cons] at hroom
              obtain _ | ⟨rgn, rest⟩ := rest
              · have hcount : (BitVec.ofNat 32 done.length).toNat = done.length := by
                  rw [BitVec.toNat_ofNat]
                  exact Nat.mod_eq_of_lt (by simpa using hfits)
                simp only [saveLeaf, hvalid, hcount, List.append_nil, Nat.lt_irrefl, if_false]
                rfl
              · rw [List.length_cons] at hfits hroom
                have hone : (done ++ [storeLeaf l rgn]).length = done.length + 1 :=
                  List.length_append
                rw [saveLeaf_store hvalid (by omega)]
                exact ih (done ++ [storeLeaf l rgn]) rest (by omega) (by omega)

end Turns

section Spec
variable {map : AddressMap} {kernel : Kernel}

/-- The array has a place for each leaf, and a `u32` counts its places. -/
structure LargeEnough (ls : List (Leaf Nat SubmapInfo)) (regions : List VmRegion) : Prop where
  room : ls.length ≤ regions.length
  counted : regions.length < 2 ^ 32

/-- **The records of the leaves** are in the array: one for each, in their order, and the
places behind them are as they were. -/
structure Stores (ls : List (Leaf Nat SubmapInfo)) (regions regions' : List VmRegion)
    (regionCount : BitVec 32) : Prop where
  count : regionCount.toNat = ls.length
  records : regions' = List.zipWith storeLeaf ls regions ++ regions.drop ls.length
  increasing : (regions'.take regionCount.toNat).Pairwise fun r r' =>
    r.start.toNat + r.size.toNat ≤ r'.start.toNat

/-- The records of leaves in order are in order. -/
theorem pairwise_records {ls : List (Leaf Nat SubmapInfo)} (hpairwise : ls.Pairwise Leaf.Before)
    (hwithin : ∀ l ∈ ls, l.Within 0 (2 ^ 64 - 1)) (regions : List VmRegion) :
    (List.zipWith storeLeaf ls regions).Pairwise fun r r' =>
      r.start.toNat + r.size.toNat ≤ r'.start.toNat := by
  refine List.pairwise_iff_getElem.mpr fun i j hi hj hlt => ?_
  rw [List.length_zipWith] at hi hj
  have hbefore : ls[i].hi ≤ ls[j].lo := List.pairwise_iff_getElem.mp hpairwise i j _ _ hlt
  have hi_within := hwithin ls[i] (List.getElem_mem _)
  have hsize : (BitVec.ofNat 64 (ls[i].hi - ls[i].lo)).toNat = ls[i].hi - ls[i].lo := by
    have := hi_within.hi_le
    rw [BitVec.toNat_ofNat]
    exact Nat.mod_eq_of_lt (by omega)
  simp only [List.getElem_zipWith, storeLeaf, SubmapInfo.store]
  rw [toNat_lo hi_within, hsize, toNat_lo (hwithin ls[j] (List.getElem_mem _))]
  have := hi_within.lt
  omega

/-- How the loop ends, when it has come to every leaf in turn. -/
def savedRegions (map : AddressMap) (regions : List VmRegion) : Saved :=
  savedOf (map.entries.leaves.foldlM saveLeaf (regions, 0))

/-- The loop ends. -/
theorem ckptVmSaveRegions_ends (hkernel : kernel.Recurses map) (regions : List VmRegion) :
    ∃ n, ∀ m ≥ n, ckptVmSaveRegions kernel m regions = some (savedRegions map regions) := by
  obtain ⟨n, hn⟩ := visit_eq_foldlM map.ordered saveLeaf (regions, 0)
  exact ⟨n, fun m hm => (saveTurns_eq_visit hkernel m 0 0 (regions, 0)).trans
    (congrArg (Option.map savedOf) (hn m hm))⟩

/-- The leaves that are accepted are in the array. -/
theorem savedRegions_returned {regions : List VmRegion}
    (hlarge : LargeEnough (accepted map.entries.leaves) regions)
    (hasserted : Asserted map.entries.leaves) :
    ∃ regions' regionCount, savedRegions map regions = .returned regions' regionCount ∧
      Stores (accepted map.entries.leaves) regions regions' regionCount := by
  obtain ⟨hroom, hfits⟩ := hlarge
  have hrun := foldlM_saveLeaf map.entries.leaves [] regions hroom (by simpa using hfits) hasserted
  have hcount : (BitVec.ofNat 32 (([] : List VmRegion).length +
      (accepted map.entries.leaves).length)).toNat = (accepted map.entries.leaves).length := by
    rw [List.length_nil, Nat.zero_add, BitVec.toNat_ofNat]
    exact Nat.mod_eq_of_lt (by omega)
  have hlength : (List.zipWith storeLeaf (accepted map.entries.leaves) regions).length =
      (accepted map.entries.leaves).length := by
    rw [List.length_zipWith]
    exact Nat.min_eq_left hroom
  refine ⟨_, _, congrArg savedOf hrun, hcount, rfl, ?_⟩
  rw [hcount, List.nil_append, List.take_left' hlength]
  exact pairwise_records ((Entries.pairwise_leaves map.ordered).filter _)
    (fun l hl => Entries.within_leaves map.ordered (List.mem_of_mem_filter hl)) regions

/-- **`ckpt_vm_save_regions` comes to an end, and has saved the leaves that are accepted**,
all of them and in order.  When the assertion does not hold of a leaf, it ends there. -/
theorem ckptVmSaveRegions_spec (hkernel : kernel.Recurses map) (regions : List VmRegion) :
    ∃ saved, (∃ n, ∀ m ≥ n, ckptVmSaveRegions kernel m regions = some saved) ∧
      (LargeEnough (accepted map.entries.leaves) regions →
        (¬ Asserted map.entries.leaves ∧ saved = .aborted) ∨
        (Asserted map.entries.leaves ∧ ∃ regions' regionCount,
          saved = .returned regions' regionCount ∧
            Stores (accepted map.entries.leaves) regions regions' regionCount)) := by
  refine ⟨savedRegions map regions, ckptVmSaveRegions_ends hkernel regions, fun hlarge => ?_⟩
  by_cases hasserted : Asserted map.entries.leaves
  · exact .inr ⟨hasserted, savedRegions_returned hlarge hasserted⟩
  · have hreached : (accepted (reached map.entries.leaves)).length ≤ regions.length :=
      (((List.takeWhile_sublist _).filter _).length_le).trans hlarge.room
    exact .inl ⟨hasserted, congrArg savedOf
      (foldlM_saveLeaf_aborted hreached hlarge.counted hasserted)⟩

/-! ### A map with a submap in a submap -/

/-- Private memory with this tag, of which `dirtied` pages are dirty. -/
def privateInfo (userTag dirtied : BitVec 32) : SubmapInfo :=
  ⟨3#32, 7#32, 1#32, userTag, 4#32, dirtied, 2#8, 0#32⟩

/-- The text of a program, the dyld shared cache with a submap in it, and the stack. -/
def sharedCacheMap : AddressMap where
  entries :=
    .leaf 0x4000 0x8000 (privateInfo 0#32 0#32) <|
    .leaf 0x100000000 0x100004000 (privateInfo 0#32 1#32) <|
    .submap 0x180000000 0x1c0000000 (privateInfo 32#32 0#32)
      (.leaf 0x180000000 0x180004000 (privateInfo 35#32 0#32) <|
        .submap 0x190000000 0x198000000 (privateInfo 35#32 0#32)
          (.leaf 0x190004000 0x190008000 (privateInfo 35#32 1#32) .nil) <|
        .leaf 0x198000000 0x198004000 (privateInfo 35#32 1#32) .nil) <|
    .leaf 0x16f000000000 0x16f000008000 (privateInfo 30#32 2#32) .nil
  ordered := by simp [Entries.Ordered]
  nested := by simp [Entries.height]

/-- A kernel with this map. -/
def sharedCacheKernel : Kernel := fun addr depth =>
  (sharedCacheMap.entries.next addr.toNat depth.toNat).map recursed

/-- An array of four places. -/
def fourPlaces : List VmRegion := List.replicate 4 ⟨0, 0, 0, 0, 0, 0, 0, 0, false⟩

theorem ckptVmSaveRegions_sharedCacheMap : ∃ regions' regionCount,
    (∃ n, ∀ m ≥ n, ckptVmSaveRegions sharedCacheKernel m fourPlaces =
      some (.returned regions' regionCount)) ∧
    Stores (accepted sharedCacheMap.entries.leaves) fourPlaces regions' regionCount := by
  obtain ⟨saved, hends, hsaved⟩ := @ckptVmSaveRegions_spec sharedCacheMap sharedCacheKernel
    (fun _ _ => rfl) fourPlaces
  have hasserted : Asserted sharedCacheMap.entries.leaves := by
    unfold Asserted
    decide +kernel
  obtain ⟨hnot, -⟩ | ⟨-, regions', regionCount, rfl, hstores⟩ :=
    hsaved ⟨by decide +kernel, by decide⟩
  · exact absurd hasserted hnot
  · exact ⟨regions', regionCount, hends, hstores⟩

example : (accepted sharedCacheMap.entries.leaves).map Leaf.lo =
    [0x100000000, 0x190004000, 0x198000000, 0x16f000000000] := by decide +kernel

end Spec

end Xnd.Image
