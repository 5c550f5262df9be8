import Mathlib.Algebra.Group.Nat.Defs
import Xnd.Image.SaveRegions

/-!
# The walks of the restart process

`ckpt_vm_mark_regions` and `ckpt_vm_find_ubc_region` go through the regions of a process
as `ckpt_vm_save_regions` does, but for a submap: they ask once more at the same address and
with the same depth.  Both are one loop here, `regionTurns`, with a body of their own.
-/
namespace Xnd.Image

section Turns
variable {σ ε : Type}

/-- What is done with a region, from its address, its size and what is said about it. -/
abbrev RegionBody (σ ε : Type) := σ → BitVec 64 → BitVec 64 → SubmapInfo → Except ε σ

/-- The loop of both functions, for `n` turns at most.  No result: it goes on. -/
def regionTurns (kernel : Kernel) (body : RegionBody σ ε) : Nat → BitVec 64 → BitVec 32 → σ →
    Option (Except ε σ)
  | 0, _, _, _ => none
  | n + 1, addr, depth, s =>
      match kernel addr depth with
      | none => some (.ok s)
      | some ⟨addr, size, depth, isSubmap, info⟩ =>
          if isSubmap then regionTurns kernel body n addr depth s
          else
            match body s addr size info with
            | .error e => some (.error e)
            | .ok s => regionTurns kernel body n (addr + size) depth s

/-- What is done with a leaf. -/
def leafBody (body : RegionBody σ ε) (s : σ) (l : Leaf Nat SubmapInfo) : Except ε σ :=
  body s (.ofNat 64 l.lo) (.ofNat 64 (l.hi - l.lo)) l.info

/-- The loop is a walk that opens nothing. -/
theorem regionTurns_eq_visitClosed {map : AddressMap} {kernel : Kernel}
    (hkernel : kernel.Recurses map) (body : RegionBody σ ε) (n : Nat) (addr : BitVec 64)
    (depth : BitVec 32) (s : σ) :
    regionTurns kernel body n addr depth s =
      visitClosed map.entries.next (leafBody body) n addr.toNat depth.toNat s := by
  induction n generalizing addr depth s with
  | zero => rfl
  | succ n ih =>
      rw [regionTurns, visitClosed, hkernel]
      cases hnext : map.entries.next addr.toNat depth.toNat with
      | none => rfl
      | some i =>
          have hmem := (Entries.next_eq_some map.ordered hnext).1
          have hwithin := (Entries.within_view map.ordered hmem).1
          have hdepth : (BitVec.ofNat 32 i.depth).toNat = i.depth := by
            have hle := (Entries.depth_view hmem).2
            have hlt := depth.isLt
            rw [BitVec.toNat_ofNat]
            exact Nat.mod_eq_of_lt (by omega)
          simp only [Option.map_some, recursed]
          cases hinner : i.inner with
          | some inner => simp only [Option.isSome_some, if_true, ih, toNat_lo hwithin, hdepth]
          | none =>
              simp only [Option.isSome_none, Bool.false_eq_true, if_false, leafBody]
              cases body s (.ofNat 64 i.lo) (.ofNat 64 (i.hi - i.lo)) i.info with
              | error e => rfl
              | ok s' =>
                  refine (ih ..).trans ?_
                  rw [toNat_hi hwithin, hdepth]

/-- The loop ends as the entries of the map are gone through, and never does when a submap
is come to. -/
theorem regionTurns_spec {map : AddressMap} {kernel : Kernel} (hkernel : kernel.Recurses map)
    (body : RegionBody σ ε) (s : σ) :
    (∀ r, map.entries.closedRun (leafBody body) s = some r →
      ∃ n, ∀ m ≥ n, regionTurns kernel body m 0 0 s = some r) ∧
    (map.entries.closedRun (leafBody body) s = none →
      ∀ m, regionTurns kernel body m 0 0 s = none) := by
  simp only [regionTurns_eq_visitClosed hkernel]
  exact visitClosed_spec map.ordered (leafBody body) s

end Turns

/-! ## The functions -/

/-- What Mach answers while regions are marked. -/
structure MarkCalls where
  /-- `mach_vm_inherit`. -/
  inherit : BitVec 64 → BitVec 64 → Bool
  /-- `mach_vm_behavior_set`. -/
  behaviorSet : BitVec 64 → BitVec 64 → Bool

/-- `ckpt_vm_mark`: whether it is successful. -/
def ckptVmMark (calls : MarkCalls) (addr size : BitVec 64) : Bool :=
  if calls.inherit addr size = false then false
  else if calls.behaviorSet addr size = false then false
  else true

/-- The regions that `ckpt_vm_mark` was called for, with their sizes. -/
abbrev Visited := List (BitVec 64 × BitVec 64)

/-- The turn of `ckpt_vm_mark_regions` for a region. -/
def markRegion (calls : MarkCalls) : RegionBody Visited Visited := fun visited addr size _ =>
  if pagezero addr size || dyldSharedCacheRegion addr size then .ok visited
  else if ckptVmMark calls addr size = false then .error (visited ++ [(addr, size)])
  else .ok (visited ++ [(addr, size)])

/-- What `ckpt_vm_mark_regions` returns, and the regions it has called `ckpt_vm_mark` for. -/
structure Marked where
  ret : Int
  visited : Visited
  deriving DecidableEq, Repr

/-- What is returned after the loop, and out of it. -/
def markedOf : Except Visited Visited → Marked
  | .ok visited => ⟨0, visited⟩
  | .error visited => ⟨-1, visited⟩

/-- `ckpt_vm_mark_regions`, for `n` turns at most. -/
def ckptVmMarkRegions (kernel : Kernel) (calls : MarkCalls) (n : Nat) : Option Marked :=
  (regionTurns kernel (markRegion calls) n 0 0 []).map markedOf

/-- The turn of `ckpt_vm_find_ubc_region` for a region. -/
def findUbc : RegionBody Unit (BitVec 64 × BitVec 64) := fun _ addr size info =>
  if info.userTag = vmKernMemoryUbc then .error (addr, size) else .ok ()

/-- What is returned after the loop, and out of it with what is stored in `*out`. -/
def foundOf : Except (BitVec 64 × BitVec 64) Unit → BitVec 64 × Option (BitVec 64)
  | .ok _ => (0, none)
  | .error (addr, size) => (addr, some size)

/-- `ckpt_vm_find_ubc_region`, for `n` turns at most: what it returns, and what it stores in
`*out`. -/
def ckptVmFindUbcRegion (kernel : Kernel) (n : Nat) : Option (BitVec 64 × Option (BitVec 64)) :=
  (regionTurns kernel findUbc n 0 0 ()).map foundOf

/-! ## What the walks are to do -/

/-- The range of a leaf. -/
def range (l : Leaf Nat SubmapInfo) : BitVec 64 × BitVec 64 :=
  (.ofNat 64 l.lo, .ofNat 64 (l.hi - l.lo))

/-- Outside of the zero page and of the dyld shared cache. -/
def isOutside (l : Leaf Nat SubmapInfo) : Bool :=
  !(pagezero (range l).1 (range l).2 || dyldSharedCacheRegion (range l).1 (range l).2)

/-- The leaves outside. -/
def outside (ls : List (Leaf Nat SubmapInfo)) : List (Leaf Nat SubmapInfo) := ls.filter isOutside

/-- A leaf outside that cannot be marked. -/
def unmarked (calls : MarkCalls) (l : Leaf Nat SubmapInfo) : Bool :=
  isOutside l && !ckptVmMark calls (range l).1 (range l).2

/-- A leaf with the tag of the unified buffer cache. -/
def isUbc (l : Leaf Nat SubmapInfo) : Bool := l.info.userTag == vmKernMemoryUbc

/-- The first leaf with this tag, and 0 when there is none. -/
def firstUbc (ls : List (Leaf Nat SubmapInfo)) : BitVec 64 × Option (BitVec 64) :=
  match ls.find? isUbc with
  | some l => ((range l).1, some (range l).2)
  | none => (0, none)

/-- `ckpt_vm_mark_regions` ends, and has visited each leaf outside once. -/
def VisitsEach (kernel : Kernel) (calls : MarkCalls) (map : AddressMap) : Prop :=
  ∃ m : Marked, (∃ n, ∀ k ≥ n, ckptVmMarkRegions kernel calls k = some m) ∧
    m.visited = (outside map.entries.leaves).map range

/-- `ckpt_vm_find_ubc_region` ends, and returns the first leaf with the tag. -/
def FindsUbc (kernel : Kernel) (map : AddressMap) : Prop :=
  ∃ n, ∀ k ≥ n, ckptVmFindUbcRegion kernel k = some (firstUbc map.entries.leaves)

/-- No submap comes before the first leaf at which a walk stops. -/
def ClearUntil (stop : Leaf Nat SubmapInfo → Bool) : Entries Nat SubmapInfo → Prop
  | .nil => True
  | .leaf lo hi info rest => stop ⟨lo, hi, info⟩ = true ∨ ClearUntil stop rest
  | .submap _ _ _ _ _ => False

/-! ## The walk that marks -/

section Mark
variable {calls : MarkCalls} {l : Leaf Nat SubmapInfo} {visited : Visited}

theorem leafBody_mark : leafBody (markRegion calls) visited l =
    if isOutside l = true then
      if unmarked calls l = true then .error (visited ++ [range l]) else .ok (visited ++ [range l])
    else .ok visited := by
  show (if (pagezero (range l).1 (range l).2 || dyldSharedCacheRegion (range l).1 (range l).2) = true
    then (.ok visited : Except Visited Visited)
    else if ckptVmMark calls (range l).1 (range l).2 = false then .error (visited ++ [range l])
    else .ok (visited ++ [range l])) = _
  cases hin : pagezero (range l).1 (range l).2 || dyldSharedCacheRegion (range l).1 (range l).2
  · cases hmark : ckptVmMark calls (range l).1 (range l).2 <;> simp [isOutside, unmarked, hin, hmark]
  · simp [isOutside, hin]

/-- The leaves outside are visited, one by one, exactly when no submap is come to and none
but the last of them cannot be marked. -/
theorem closedRun_mark_iff (es : Entries Nat SubmapInfo) (visited : Visited) :
    (∃ r, es.closedRun (leafBody (markRegion calls)) visited = some r ∧
        (markedOf r).visited = visited ++ (outside es.leaves).map range) ↔
      ClearUntil (unmarked calls) es ∧ ∀ l ∈ (outside es.leaves).dropLast, unmarked calls l = false := by
  induction es generalizing visited with
  | nil => simp [Entries.closedRun, Entries.leaves, outside, ClearUntil, markedOf]
  | submap lo hi info inner rest ihInner ih => simp [Entries.closedRun, ClearUntil]
  | leaf lo hi info rest ih =>
      rw [Entries.closedRun, ClearUntil, Entries.leaves]
      by_cases hout : isOutside ⟨lo, hi, info⟩ = true
      · have hcons : outside (⟨lo, hi, info⟩ :: rest.leaves) = ⟨lo, hi, info⟩ :: outside rest.leaves :=
          List.filter_cons_of_pos hout
        rw [hcons]
        by_cases hmark : unmarked calls ⟨lo, hi, info⟩ = true
        · -- the walk is over here
          rw [leafBody_mark, if_pos hout, if_pos hmark]
          cases hrest : outside rest.leaves with
          | nil => simp [markedOf, hmark]
          | cons l ls => simp [markedOf, hmark]
        · have hkept := ih (visited ++ [range ⟨lo, hi, info⟩])
          rw [leafBody_mark, if_pos hout, if_neg hmark]
          simp only [List.map_cons, hmark, List.append_assoc, List.singleton_append]
            at hkept ⊢
          rw [hkept]
          cases hrest : outside rest.leaves with
          | nil => simp
          | cons l ls => simp [hmark]
      · have hskip : outside (⟨lo, hi, info⟩ :: rest.leaves) = outside rest.leaves :=
          List.filter_cons_of_neg hout
        have hmarked : unmarked calls ⟨lo, hi, info⟩ = false := by simp [unmarked, hout]
        rw [hskip, leafBody_mark, if_neg hout, hmarked]
        simpa using ih visited

/-- **The walk that marks.** -/
theorem visitsEach_iff {map : AddressMap} {kernel : Kernel} (hkernel : kernel.Recurses map) :
    VisitsEach kernel calls map ↔ ClearUntil (unmarked calls) map.entries ∧
      ∀ l ∈ (outside map.entries.leaves).dropLast, unmarked calls l = false := by
  rw [← closedRun_mark_iff map.entries []]
  obtain ⟨hends, hloops⟩ := regionTurns_spec hkernel (markRegion calls) []
  constructor
  · rintro ⟨m, ⟨n, hn⟩, hvisited⟩
    have hrun := hn n (Nat.le_refl n)
    rw [ckptVmMarkRegions] at hrun
    cases hclosed : map.entries.closedRun (leafBody (markRegion calls)) [] with
    | none =>
        rw [hloops hclosed n] at hrun
        cases hrun
    | some r =>
        obtain ⟨n', hn'⟩ := hends r hclosed
        have heq := hn (max n n') (Nat.le_max_left ..)
        rw [ckptVmMarkRegions, hn' _ (Nat.le_max_right ..)] at heq
        obtain rfl := Option.some.inj heq
        exact ⟨r, rfl, hvisited⟩
  · rintro ⟨r, hclosed, hvisited⟩
    obtain ⟨n, hn⟩ := hends r hclosed
    refine ⟨markedOf r, ⟨n, fun k hk => ?_⟩, hvisited⟩
    rw [ckptVmMarkRegions, hn k hk]
    rfl

end Mark

/-! ## The walk that searches -/

theorem leafBody_findUbc (l : Leaf Nat SubmapInfo) :
    leafBody findUbc () l = if isUbc l = true then .error (range l) else .ok () := by
  by_cases hubc : isUbc l = true
  · rw [if_pos hubc]
    exact if_pos (eq_of_beq hubc)
  · rw [if_neg hubc]
    exact if_neg fun heq => hubc (beq_iff_eq.mpr heq)

/-- The search ends at the first leaf with the tag when no submap is come to before it. -/
theorem closedRun_findUbc (es : Entries Nat SubmapInfo) :
    (ClearUntil isUbc es → (es.closedRun (leafBody findUbc) ()).map foundOf =
      some (firstUbc es.leaves)) ∧
    (¬ ClearUntil isUbc es → es.closedRun (leafBody findUbc) () = none) := by
  induction es with
  | nil => exact ⟨fun _ => rfl, fun h => absurd trivial h⟩
  | submap lo hi info inner rest ihInner ih => exact ⟨fun h => absurd h id, fun _ => rfl⟩
  | leaf lo hi info rest ih =>
      rw [Entries.closedRun, leafBody_findUbc, ClearUntil, Entries.leaves, firstUbc]
      by_cases hubc : isUbc ⟨lo, hi, info⟩ = true
      · rw [if_pos hubc, List.find?_cons_of_pos hubc]
        exact ⟨fun _ => rfl, fun h => absurd (.inl hubc) h⟩
      · rw [if_neg hubc, List.find?_cons_of_neg hubc]
        exact ⟨fun h => ih.1 (h.resolve_left hubc), fun h => ih.2 fun hrest => h (.inr hrest)⟩

/-- **The walk that searches.** -/
theorem findsUbc_iff {map : AddressMap} {kernel : Kernel} (hkernel : kernel.Recurses map) :
    FindsUbc kernel map ↔ ClearUntil isUbc map.entries := by
  obtain ⟨hends, hloops⟩ := regionTurns_spec hkernel findUbc ()
  obtain ⟨hclear, hblocked⟩ := closedRun_findUbc map.entries
  constructor
  · rintro ⟨n, hn⟩
    by_contra hnot
    have hrun := hn n (Nat.le_refl n)
    rw [ckptVmFindUbcRegion, hloops (hblocked hnot)] at hrun
    cases hrun
  · intro h
    obtain ⟨r, hclosed, hfound⟩ := Option.map_eq_some_iff.mp (hclear h)
    obtain ⟨n, hn⟩ := hends r hclosed
    refine ⟨n, fun k hk => ?_⟩
    rw [ckptVmFindUbcRegion, hn k hk, Option.map_some, hfound]

/-- **The walks of the restart process** do what they are for exactly when they come to no
submap, and none but the last region cannot be marked. -/
theorem walks_iff {map : AddressMap} {kernel : Kernel} (hkernel : kernel.Recurses map)
    (calls : MarkCalls) :
    (VisitsEach kernel calls map ∧ FindsUbc kernel map) ↔
      (ClearUntil (unmarked calls) map.entries ∧ ClearUntil isUbc map.entries) ∧
        ∀ l ∈ (outside map.entries.leaves).dropLast, unmarked calls l = false := by
  rw [visitsEach_iff hkernel, findsUbc_iff hkernel, and_right_comm]

/-! ### With and without a submap -/

/-- Mach does what it is asked for. -/
def willing : MarkCalls := ⟨fun _ _ => true, fun _ _ => true⟩

/-- The text of the restart process, a region of the unified buffer cache, and the stack. -/
def flatMap : AddressMap where
  entries :=
    .leaf 0x4000 0x8000 (privateInfo 0#32 0#32) <|
    .leaf 0x500000000000 0x500000008000 (privateInfo 0#32 1#32) <|
    .leaf 0x500000100000 0x500000104000 (privateInfo 22#32 0#32) <|
    .leaf 0x5000001a4000 0x5000002a4000 (privateInfo 240#32 2#32) .nil
  ordered := by simp [Entries.Ordered]
  nested := by decide

theorem walks_flatMap :
    (VisitsEach flatMap.kernel willing flatMap ∧ FindsUbc flatMap.kernel flatMap) ↔
      (ClearUntil (unmarked willing) flatMap.entries ∧ ClearUntil isUbc flatMap.entries) ∧
        ∀ l ∈ (outside flatMap.entries.leaves).dropLast, unmarked willing l = false :=
  walks_iff flatMap.recurses_kernel willing

/-- **In a process with the dyld shared cache** neither walk ever ends. -/
theorem not_walks_sharedCacheMap : sharedCacheKernel.Recurses sharedCacheMap ∧
    (∀ n, ckptVmMarkRegions sharedCacheKernel willing n = none) ∧
    (∀ n, ckptVmFindUbcRegion sharedCacheKernel n = none) ∧
    ¬ (VisitsEach sharedCacheKernel willing sharedCacheMap ∧
      FindsUbc sharedCacheKernel sharedCacheMap) := by
  have hkernel : sharedCacheKernel.Recurses sharedCacheMap := fun _ _ => rfl
  have hmark : ∀ n, ckptVmMarkRegions sharedCacheKernel willing n = none := fun n =>
    congrArg (Option.map markedOf) ((regionTurns_spec hkernel (markRegion willing) []).2
      (by decide +kernel) n)
  refine ⟨hkernel, hmark, fun n => congrArg (Option.map foundOf)
    ((regionTurns_spec hkernel findUbc ()).2 (by decide +kernel) n), ?_⟩
  rintro ⟨⟨m, ⟨n, hn⟩, -⟩, -⟩
  have hrun := hn n (Nat.le_refl n)
  rw [hmark] at hrun
  cases hrun

end Xnd.Image
