import Xnd.Image.Read
import Xnd.Image.Written

/-!
# What is restored

The spec of the reader, where Mach serves it.  A region that is restored in full has the
bytes that follow its record, a region that is restored by pages has them where a page was
dirty, and both leave the rest of the memory alone but for the cached task port.
-/
namespace Xnd.Image

/-! ## Memory -/

namespace Vm
variable {vm : Vm} {a n x : Nat} {bs : List UInt8}

theorem put_of_mem {α : Type} (f : Nat → α) (g : α → α) (h : a ≤ x ∧ x < a + n) :
    put f a n g x = g (f x) := if_pos h

theorem put_of_not_mem {α : Type} (f : Nat → α) (g : α → α) (h : ¬ (a ≤ x ∧ x < a + n)) :
    put f a n g x = f x := if_neg h

theorem mem_store (h : a ≤ x ∧ x < a + bs.length) :
    (vm.store a bs).mem x = bs.getD (x - a) 0 := if_pos h

theorem mem_store_of_not (h : ¬ (a ≤ x ∧ x < a + bs.length)) :
    (vm.store a bs).mem x = vm.mem x := if_neg h

/-- The bytes of a range, read one by one. -/
theorem getD_read {k : Nat} (hk : k < n) : (vm.read a n).getD k 0 = vm.mem (a + k) := by
  simp [read, List.getD, hk]

/-- The attributes of the region that an address is in. -/
def attributes (vm : Vm) (a : Nat) : VmProt × VmProt × BitVec 32 :=
  (vm.prot a, vm.maxProt a, vm.inherit a)

@[simp] theorem attributes_store : (vm.store a bs).attributes x = vm.attributes x := rfl

theorem mem_fresh (h : a ≤ x ∧ x < a + n) : (vm.fresh a n).mem x = 0 := by
  simp only [fresh, put_of_mem _ _ h]

theorem mem_fresh_of_not (h : ¬ (a ≤ x ∧ x < a + n)) : (vm.fresh a n).mem x = vm.mem x := by
  simp only [fresh, put_of_not_mem _ _ h]

theorem attributes_fresh (h : a ≤ x ∧ x < a + n) :
    (vm.fresh a n).attributes x = (vmProtDefault, vmProtAll, vmInheritDefault) := by
  simp only [attributes, fresh, put_of_mem _ _ h]

theorem attributes_fresh_of_not (h : ¬ (a ≤ x ∧ x < a + n)) :
    (vm.fresh a n).attributes x = vm.attributes x := by
  simp only [attributes, fresh, put_of_not_mem _ _ h]

theorem attributes_setProt (p : VmProt) : (vm.setProt a n p).attributes x =
    if a ≤ x ∧ x < a + n then
      (p &&& ~~~vmProtCopy, (vm.attributes x).2) else vm.attributes x := by
  by_cases h : a ≤ x ∧ x < a + n <;> simp [attributes, setProt, put, h]

/-- Bytes of another memory are stored. -/
theorem mem_store_read {from_ : Vm} (h : a ≤ x ∧ x < a + n) :
    (vm.store a (from_.read a n)).mem x = from_.mem x := by
  rw [mem_store (by rwa [length_read]), getD_read (by omega), Nat.add_sub_cancel' h.1]

end Vm

namespace VmRegion

/-- The attributes that a record asks for. -/
def attributes (region : VmRegion) : VmProt × VmProt × BitVec 32 :=
  (region.prot, region.maxProt, region.inherit)

/-- The choice of `ckpt_vm_restore_region`. -/
def restoredByPages (region : VmRegion) : Bool := region.onlyRestoreDirtyPages && region.dirtyOnly

end VmRegion

/-- The cached task port. -/
def Mach.InWord (mach : Mach) (a : Nat) : Prop := mach.taskSelf ≤ a ∧ a < mach.taskSelf + 4

section Restore
variable {pageSize : Nat} {mach : Mach} {region : VmRegion} {s : Restoring}

/-- The attributes of the record, where they are not those of a new mapping. -/
def Vm.refresh (vm : Vm) (region : VmRegion) : Vm :=
  let vm := if region.prot ≠ vmProtDefault then
    vm.setProt region.start.toNat region.size.toNat region.prot else vm
  let vm := if region.maxProt ≠ vmProtAll then
    vm.setMaxProt region.start.toNat region.size.toNat region.maxProt else vm
  if region.inherit ≠ vmInheritDefault then
    vm.setInherit region.start.toNat region.size.toNat region.inherit else vm

theorem Vm.mem_refresh (vm : Vm) (region : VmRegion) : (vm.refresh region).mem = vm.mem := by
  unfold refresh
  simp only
  split <;> split <;> split <;> rfl

theorem ckptVmRefreshRegion_ok (hserves : mach.Serves) (region : VmRegion) (s : Restoring) :
    ckptVmRefreshRegion mach region s = .ok { s with vm := s.vm.refresh region } := by
  unfold ckptVmRefreshRegion Vm.refresh ckptVmProtect
  by_cases hprot : region.prot ≠ vmProtDefault <;>
    by_cases hmax : region.maxProt ≠ vmProtAll <;>
      by_cases hinherit : region.inherit ≠ vmInheritDefault <;>
        simp [hprot, hmax, hinherit, hserves.protect, hserves.protectMax, hserves.inherit] <;> rfl

/-- Outside of the region the attributes stay. -/
theorem Vm.refresh_of_not {vm : Vm} {a : Nat} (h : ¬ region.Covers a) :
    (vm.refresh region).attributes a = vm.attributes a := by
  have hput : ∀ {α : Type} (f : Nat → α) (g : α → α),
      put f region.start.toNat region.size.toNat g a = f a := fun f g => put_of_not_mem f g h
  unfold refresh
  simp only
  split <;> split <;> split <;> simp [attributes, setProt, setMaxProt, setInherit, hput]

/-- A protection within the maximum one has no flag. -/
theorem VmRegion.Mapped.prot_flag {n : Nat} (h : region.Mapped n) :
    region.prot &&& ~~~vmProtCopy = region.prot := by
  have hall : region.prot &&& vmProtAll = region.prot := by
    rw [← h.prot, BitVec.and_assoc, h.maxProt]
  have hflag : vmProtAll &&& ~~~vmProtCopy = vmProtAll := by decide
  rw [← hall, BitVec.and_assoc, hflag]

/-- **The attributes of a new mapping** become those of the record. -/
theorem Vm.refresh_fresh {n : Nat} (hmapped : region.Mapped n) {vm : Vm} {a : Nat}
    (h : region.Covers a) (hfresh : vm.attributes a = (vmProtDefault, vmProtAll, vmInheritDefault)) :
    (vm.refresh region).attributes a = region.attributes := by
  have hput : ∀ {α : Type} (f : Nat → α) (g : α → α),
      put f region.start.toNat region.size.toNat g a = g (f a) := fun f g => put_of_mem f g h
  have hflag := hmapped.prot_flag
  have hwithin := hmapped.prot
  unfold refresh
  simp only
  split <;> split <;> split <;>
    simp_all [attributes, VmRegion.attributes, setProt, setMaxProt, setInherit]

/-- The port is assigned when it lies in the region. -/
def Vm.fixPort (mach : Mach) (region : VmRegion) (vm : Vm) : Vm :=
  if region.Covers mach.taskSelf then vm.store mach.taskSelf (leBytes 4 mach.taskSelfTrap.toNat)
  else vm

theorem fixTaskSelf_eq (region : VmRegion) (s : Restoring) :
    fixTaskSelf mach region s = { s with vm := s.vm.fixPort mach region } := by
  unfold fixTaskSelf Vm.fixPort
  split <;> rfl

/-- The port is written into the word only. -/
theorem Vm.mem_fixPort (vm : Vm) {a : Nat} (h : ¬ mach.InWord a) :
    (vm.fixPort mach region).mem a = vm.mem a := by
  unfold fixPort
  split
  · exact mem_store_of_not (by rwa [length_leBytes])
  · rfl

@[simp] theorem Vm.attributes_fixPort (vm : Vm) (a : Nat) :
    (vm.fixPort mach region).attributes a = vm.attributes a := by
  unfold fixPort
  split <;> rfl

/-- Equal memories stay so. -/
theorem Vm.fixPort_congr {vm vm' : Vm} {region' : VmRegion} (h : vm.mem = vm'.mem)
    (hstart : region.start = region'.start) (hsize : region.size = region'.size) :
    (vm.fixPort mach region).mem = (vm'.fixPort mach region').mem := by
  have hcovers : region.Covers mach.taskSelf ↔ region'.Covers mach.taskSelf := by
    rw [VmRegion.Covers, VmRegion.Covers, hstart, hsize]
  unfold fixPort
  simp only [hcovers]
  split
  · simp only [store, h]
  · exact h

/-- A read into memory takes what the rest of the image begins with. -/
theorem Restoring.load_of_rest {bs more : List UInt8} {n : Nat}
    (hrest : s.file.rest = bs ++ more) (hn : bs.length = n) (addr : Nat) :
    s.load addr n = (n, ⟨s.vm.store addr bs, s.file.seek (s.file.pos + n)⟩) := by
  rw [load, File.read_of_rest hrest hn]
  simp only [hn]

theorem Restoring.readall_of_rest {bs more : List UInt8} {n : Nat}
    (hrest : s.file.rest = bs ++ more) (hn : bs.length = n) :
    s.readall n = (bs, ⟨s.vm, s.file.seek (s.file.pos + n)⟩) := by
  rw [readall, File.read_of_rest hrest hn]

/-- A new mapping, where Mach serves one. -/
theorem ckptVmMapRegion_ok (hserves : mach.Serves) (hpos : 0 < region.size.toNat) (s : Restoring) :
    ckptVmMapRegion mach region s =
      .ok ⟨s.vm.fresh region.start.toNat region.size.toNat, s.file⟩ := by
  rw [ckptVmMapRegion, hserves.map _ _ _ _ hpos]

/-! ## A region in full -/

/-- The memory after a region is restored in full from these bytes. -/
def Vm.restoreFull (mach : Mach) (region : VmRegion) (bs : List UInt8) (vm : Vm) : Vm :=
  (((vm.fresh region.start.toNat region.size.toNat).store region.start.toNat bs).fixPort mach
    region).refresh region

theorem ckptVmRestoreRegion_full (hserves : mach.Serves) (hbranch : region.restoredByPages = false)
    (hpos : 0 < region.size.toNat) {bs more : List UInt8} (hrest : s.file.rest = bs ++ more)
    (hlen : bs.length = region.size.toNat) :
    ckptVmRestoreRegion pageSize mach region s =
      .ok ⟨s.vm.restoreFull mach region bs, s.file.seek (s.file.pos + region.size.toNat)⟩ := by
  have hload := Restoring.load_of_rest
    (s := ⟨s.vm.fresh region.start.toNat region.size.toNat, s.file⟩) hrest hlen region.start.toNat
  rw [ckptVmRestoreRegion, show (_ && _) = false from hbranch, if_neg Bool.false_ne_true,
    ckptVmMapRegion_ok hserves hpos]
  simp only [bind, Except.bind, hload, ne_eq, not_true_eq_false, if_false]
  rw [ckptVmRefreshRegion_ok hserves, fixTaskSelf_eq]
  rfl

/-- An empty region cannot be mapped. -/
theorem ckptVmRestoreRegion_empty (hserves : mach.Serves) (hbranch : region.restoredByPages = false)
    (hzero : region.size.toNat = 0) (s : Restoring) :
    ckptVmRestoreRegion pageSize mach region s = .error .failed := by
  have hmap : ckptVmMapRegion mach region s = .error .failed := by
    rw [ckptVmMapRegion, hzero, hserves.map_zero]
  rw [ckptVmRestoreRegion, show (_ && _) = false from hbranch, if_neg Bool.false_ne_true, hmap]
  rfl

theorem Vm.mem_restoreFull {vm : Vm} {bs : List UInt8} {a : Nat} (hlen : bs.length = region.size.toNat)
    (ha : ¬ mach.InWord a) : (vm.restoreFull mach region bs).mem a =
      if region.Covers a then bs.getD (a - region.start.toNat) 0 else vm.mem a := by
  rw [restoreFull, mem_refresh, mem_fixPort _ ha]
  split
  · exact mem_store (by rwa [hlen])
  · rw [mem_store_of_not (by rwa [hlen])]
    exact mem_fresh_of_not ‹_›

/-- The attributes are those of the record, and outside of it they stay. -/
theorem Vm.attributes_restoreFull {n : Nat} (hmapped : region.Mapped n) (vm : Vm)
    (bs : List UInt8) (a : Nat) : (vm.restoreFull mach region bs).attributes a =
      if region.Covers a then region.attributes else vm.attributes a := by
  rw [restoreFull]
  split
  · rename_i hcovers
    apply refresh_fresh hmapped hcovers
    rw [attributes_fixPort, attributes_store]
    exact attributes_fresh hcovers
  · rename_i hnot
    rw [refresh_of_not hnot, attributes_fixPort, attributes_store]
    exact attributes_fresh_of_not hnot

/-! ## A region by pages -/

/-- The pages of a vector are taken from another memory, from the page `idx` on. -/
def storePages (pageSize start : Nat) (saved : Vm) : List Bool → Nat → Vm → Vm
  | [], _, vm => vm
  | true :: vec, idx, vm =>
      storePages pageSize start saved vec (idx + 1)
        (vm.store (start + idx * pageSize) (saved.read (start + idx * pageSize) pageSize))
  | false :: vec, idx, vm => storePages pageSize start saved vec (idx + 1) vm

@[simp] theorem attributes_storePages (start : Nat) (saved : Vm) (vec : List Bool) (idx : Nat)
    (vm : Vm) (a : Nat) :
    (storePages pageSize start saved vec idx vm).attributes a = vm.attributes a := by
  induction vec generalizing idx vm with
  | nil => rfl
  | cons d vec ih =>
      cases d with
      | true => rw [storePages, ih, Vm.attributes_store]
      | false => exact ih (idx + 1) vm

/-- **A page of the vector** has the bytes of the other memory, and the rest stays. -/
theorem mem_storePages (hp : 0 < pageSize) (start : Nat) (saved : Vm) (vec : List Bool)
    (idx : Nat) (vm : Vm) (a : Nat) :
    (storePages pageSize start saved vec idx vm).mem a =
      if start + idx * pageSize ≤ a ∧ vec[(a - start) / pageSize - idx]? = some true then
        saved.mem a else vm.mem a := by
  induction vec generalizing idx vm with
  | nil => simp [storePages]
  | cons d vec ih =>
      have hnext : (idx + 1) * pageSize = idx * pageSize + pageSize := Nat.succ_mul _ _
      rcases Nat.lt_or_ge a (start + idx * pageSize) with hbefore | hle
      · have hleft : ¬ start + idx * pageSize ≤ a := by omega
        have hright : ¬ start + (idx + 1) * pageSize ≤ a := by omega
        rw [if_neg (fun h => hleft h.1)]
        cases d with
        | true =>
            rw [storePages, ih, if_neg (fun h => hright h.1), Vm.mem_store_of_not (fun h => hleft h.1)]
        | false => rw [storePages, ih, if_neg (fun h => hright h.1)]
      rcases Nat.lt_or_ge a (start + idx * pageSize + pageSize) with hin | hafter
      · -- the address is in the page
        have hpage : (a - start) / pageSize - idx = 0 := by
          have : (a - start) / pageSize < idx + 1 := by
            rw [Nat.div_lt_iff_lt_mul hp]
            omega
          omega
        have hright : ¬ start + (idx + 1) * pageSize ≤ a := by omega
        rw [hpage, List.getElem?_cons_zero]
        cases d with
        | true =>
            rw [storePages, ih, if_neg (fun h => hright h.1), if_pos ⟨hle, rfl⟩,
              Vm.mem_store_read ⟨hle, hin⟩]
        | false => rw [storePages, ih, if_neg (fun h => hright h.1), if_neg (by simp)]
      · -- the address is after it
        have hpage : (a - start) / pageSize - idx = (a - start) / pageSize - (idx + 1) + 1 := by
          have : idx + 1 ≤ (a - start) / pageSize := by
            rw [Nat.le_div_iff_mul_le hp]
            omega
          omega
        have hright : start + (idx + 1) * pageSize ≤ a := by omega
        have hnot : ¬ (start + idx * pageSize ≤ a ∧ a < start + idx * pageSize +
            (saved.read (start + idx * pageSize) pageSize).length) := by
          rw [Vm.length_read]
          omega
        rw [hpage, List.getElem?_cons_succ]
        cases d with
        | true =>
            rw [storePages, ih, Vm.mem_store_of_not hnot]
            simp only [hle, hright]
        | false =>
            rw [storePages, ih]
            simp only [hle, hright]

/-- The pages that follow the record are restored. -/
theorem ckptVmRestorePages_ok (hserves : mach.Serves) (saved : Vm) (vec : List Bool) (idx : Nat)
    (hbound : (idx + vec.length) * pageSize < 2 ^ 64) {more : List UInt8}
    (hrest : s.file.rest = dirtyPages pageSize region.start.toNat saved vec idx ++ more) :
    ckptVmRestorePages pageSize mach region (vec.count true) s =
      .ok ⟨storePages pageSize region.start.toNat saved vec idx s.vm,
        s.file.seek (s.file.pos +
          (dirtyPages pageSize region.start.toNat saved vec idx).length)⟩ := by
  induction vec generalizing idx s with
  | nil => rfl
  | cons d vec ih =>
      have hbound' : (idx + 1 + vec.length) * pageSize < 2 ^ 64 := by
        rw [List.length_cons] at hbound
        rwa [Nat.add_assoc, Nat.add_comm 1]
      cases d with
      | false => exact ih (idx + 1) hbound' hrest
      | true =>
          rw [dirtyPages, List.append_assoc, List.append_assoc] at hrest
          have hoffset : ofLeBytes (leBytes vmPageBytes (idx * pageSize)) = idx * pageSize := by
            rw [ofLeBytes_leBytes, show 256 ^ vmPageBytes = 2 ^ 64 from rfl, Nat.mod_eq_of_lt]
            refine lt_of_le_of_lt (Nat.mul_le_mul_right pageSize ?_) hbound
            omega
          have hread := Restoring.readall_of_rest hrest (length_leBytes vmPageBytes _)
          have hrest' := File.rest_seek hrest (length_leBytes vmPageBytes _)
          have hload := Restoring.load_of_rest (s := ⟨s.vm, s.file.seek (s.file.pos + vmPageBytes)⟩)
            hrest' (Vm.length_read _ _ _) (region.start.toNat + idx * pageSize)
          have hrest'' := File.rest_seek hrest' (Vm.length_read _ _ _)
          rw [List.count_cons_self, ckptVmRestorePages]
          simp only [hread, length_leBytes, ne_eq, not_true_eq_false, if_false, hoffset,
            ckptVmPageRestore, hserves.loads, Bool.false_eq_true, hload, bind, Except.bind, pure,
            Except.pure, if_true]
          have hlen : (dirtyPages pageSize region.start.toNat saved (true :: vec) idx).length =
              vmPageBytes + pageSize +
                (dirtyPages pageSize region.start.toNat saved vec (idx + 1)).length := by
            rw [dirtyPages, List.length_append, List.length_append, length_leBytes, Vm.length_read]
          refine (ih (idx + 1) hbound' hrest'').trans ?_
          rw [hlen, Nat.add_assoc vmPageBytes, ← Nat.add_assoc s.file.pos,
            ← Nat.add_assoc (s.file.pos + vmPageBytes)]
          rfl

/-- The memory after the pages of a vector are restored. -/
def restorePages (pageSize : Nat) (mach : Mach) (region : VmRegion) (saved : Vm)
    (vec : List Bool) (vm : Vm) : Vm :=
  let start := region.start.toNat
  let size := region.size.toNat
  if region.inDyldSharedCache = true then
    ((storePages pageSize start saved vec 0
      (vm.setProt start size (vmProtRead ||| vmProtWrite ||| vmProtCopy))).fixPort mach
        region).setProt start size region.prot
  else ((storePages pageSize start saved vec 0 (vm.fresh start size)).fixPort mach region).refresh
    region

theorem ckptVmRestoreRegion_pages (hserves : mach.Serves) (hbranch : region.restoredByPages = true)
    (hpos : 0 < region.size.toNat) {saved : Vm} {vec : List Bool}
    (hcount : region.pagesDirtied.toNat = vec.count true)
    (hbound : vec.length * pageSize < 2 ^ 64) {more : List UInt8}
    (hrest : s.file.rest = dirtyPages pageSize region.start.toNat saved vec 0 ++ more) :
    ckptVmRestoreRegion pageSize mach region s =
      .ok ⟨restorePages pageSize mach region saved vec s.vm, s.file.seek (s.file.pos +
        (dirtyPages pageSize region.start.toNat saved vec 0).length)⟩ := by
  have hpages : ∀ vm, ckptVmRestorePages pageSize mach region (vec.count true) ⟨vm, s.file⟩ = _ :=
    fun vm => ckptVmRestorePages_ok (s := ⟨vm, s.file⟩) hserves saved vec 0
      (by rwa [Nat.zero_add]) hrest
  rw [ckptVmRestoreRegion, show (_ && _) = true from hbranch, if_pos rfl, ckptVmRestoreRegionPages,
    restorePages, hcount]
  by_cases hcache : region.inDyldSharedCache = true
  · simp only [hcache, if_true, ckptVmProtect, hserves.protect, bind, Except.bind, hpages,
      fixTaskSelf_eq]
  · simp only [hcache, Bool.false_eq_true, if_false, ckptVmMapRegion_ok hserves hpos, bind,
      Except.bind, hpages, fixTaskSelf_eq, ckptVmRefreshRegion_ok hserves]

/-- The pages of the vector are those of the region. -/
theorem VmRegion.covers_of_page (hp : 0 < pageSize) {vec : List Bool} {a : Nat} {d : Bool}
    (hlen : vec.length * pageSize = region.size.toNat) (hle : region.start.toNat ≤ a)
    (hpage : vec[(a - region.start.toNat) / pageSize]? = some d) : region.Covers a := by
  obtain ⟨hk, -⟩ := List.getElem?_eq_some_iff.mp hpage
  have hlt := Nat.lt_div_mul_add hp (a := a - region.start.toNat)
  have hend := Nat.mul_le_mul_right pageSize hk
  rw [Nat.succ_mul, hlen] at hend
  exact ⟨hle, by omega⟩

/-- Before the pages are restored the region is empty, but for what the dyld shared cache
has. -/
theorem mem_restorePages (hp : 0 < pageSize) {saved vm : Vm} {vec : List Bool} {a : Nat}
    (hlen : vec.length * pageSize = region.size.toNat) (ha : ¬ mach.InWord a) :
    (restorePages pageSize mach region saved vec vm).mem a =
      if region.Covers a then
        if vec[(a - region.start.toNat) / pageSize]? = some true then saved.mem a
        else if region.inDyldSharedCache = true then vm.mem a else 0
      else vm.mem a := by
  have hpages := fun vm => mem_storePages hp region.start.toNat saved vec 0 vm a
  simp only [Nat.zero_mul, Nat.add_zero, Nat.sub_zero] at hpages
  by_cases hcovers : region.Covers a
  · rw [if_pos hcovers]
    by_cases hcache : region.inDyldSharedCache = true
    · simp only [restorePages, hcache, if_true, Vm.setProt, Vm.mem_fixPort _ ha, hpages, hcovers.1,
        true_and]
    · simp only [restorePages, hcache, Bool.false_eq_true, if_false, Vm.mem_refresh,
        Vm.mem_fixPort _ ha, hpages, hcovers.1, true_and, Vm.mem_fresh hcovers]
  · have hnot : ¬ (region.start.toNat ≤ a ∧ vec[(a - region.start.toNat) / pageSize]? = some true) :=
      fun h => hcovers (VmRegion.covers_of_page hp hlen h.1 h.2)
    rw [if_neg hcovers]
    by_cases hcache : region.inDyldSharedCache = true
    · simp only [restorePages, hcache, if_true, Vm.setProt, Vm.mem_fixPort _ ha, hpages, if_neg hnot]
    · simp only [restorePages, hcache, Bool.false_eq_true, if_false, Vm.mem_refresh,
        Vm.mem_fixPort _ ha, hpages, if_neg hnot, Vm.mem_fresh_of_not hcovers]

/-- The attributes are those of the record, but for the dyld shared cache, and outside of
the region they stay. -/
theorem attributes_restorePages {n : Nat} (hmapped : region.Mapped n) (saved vm : Vm)
    (vec : List Bool) {a : Nat} : (restorePages pageSize mach region saved vec vm).attributes a =
      if region.Covers a then
        if region.inDyldSharedCache = true then
          (region.prot, vm.maxProt a, vm.inherit a) else region.attributes
      else vm.attributes a := by
  have hflag := hmapped.prot_flag
  by_cases hcache : region.inDyldSharedCache = true
  · simp only [restorePages, hcache, if_true, Vm.attributes_setProt, Vm.attributes_fixPort,
      attributes_storePages, VmRegion.Covers]
    split <;> simp_all [Vm.attributes]
  · simp only [restorePages, hcache, Bool.false_eq_true, if_false]
    split
    · rename_i hcovers
      apply Vm.refresh_fresh hmapped hcovers
      rw [Vm.attributes_fixPort, attributes_storePages]
      exact Vm.attributes_fresh hcovers
    · rename_i hnot
      rw [Vm.refresh_of_not hnot, Vm.attributes_fixPort, attributes_storePages]
      exact Vm.attributes_fresh_of_not hnot

end Restore

end Xnd.Image
