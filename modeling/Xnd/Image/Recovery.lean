import Xnd.Image.Restored

/-!
# Pages that are not mapped

A page whose read fails with `EFAULT` is mapped by `ckpt_vm_map_page`, and read again.  That
function asserts that the new page is at the start of the region, so the recovery works for
the first page of a region and aborts the restart for every other one
(`recoversPages_iff`).
-/
namespace Xnd.Image

/-- Where nothing is mapped, a read faults and a mapping succeeds, at the requested address;
then reads do not fault there.  Neither contents nor attributes of a range change what faults
outside of it. -/
structure Mach.MapsWhereFaults (mach : Mach) : Prop where
  mapFree : ∀ vm a n tag, 0 < n → mach.faults vm a = true →
    mach.mapFree vm a n tag = some (vm.fresh a n)
  fresh : ∀ vm a n b, mach.faults (vm.fresh a n) b =
    if a ≤ b ∧ b < a + n then false else mach.faults vm b
  store : ∀ vm a bs b, mach.faults (vm.store a bs) b = mach.faults vm b
  protect : ∀ vm vm' a n max p b, mach.protect vm a n max p = some vm' →
    ¬ (a ≤ b ∧ b < a + n) → mach.faults vm' b = mach.faults vm b
  inherit : ∀ vm vm' a n i b, mach.inherit vm a n i = some vm' →
    ¬ (a ≤ b ∧ b < a + n) → mach.faults vm' b = mach.faults vm b
  protectKeeps : ∀ vm vm' a n max p, mach.protect vm a n max p = some vm' → vm'.mem = vm.mem
  inheritKeeps : ∀ vm vm' a n i, mach.inherit vm a n i = some vm' → vm'.mem = vm.mem

/-- A region that was saved by dirty pages: the pages of `vec` follow in the image, and the
region is mapped but for some of them. -/
structure SavedByPages (pageSize : Nat) (region : VmRegion) (saved : Vm) (vec : List Bool)
    (s : Restoring) : Prop where
  pos : 0 < pageSize
  size : vec.length * pageSize = region.size.toNat
  rest : dirtyPages pageSize region.start.toNat saved vec 0 <+: s.file.rest

/-- The dirty pages before the page `k` are restored. -/
def RestoredBelow (pageSize : Nat) (region : VmRegion) (saved : Vm) (vec : List Bool) (k : Nat)
    (vm : Vm) : Prop :=
  ∀ idx < k, vec[idx]? = some true → ∀ a, region.start.toNat + idx * pageSize ≤ a →
    a < region.start.toNat + (idx + 1) * pageSize → vm.mem a = saved.mem a

/-- Each dirty page is restored, those before it stay so, and the file position is behind the
page then. -/
def RecoversPages (pageSize : Nat) (mach : Mach) (region : VmRegion) (saved : Vm)
    (vec : List Bool) (s : Restoring) : Prop :=
  ∀ k ≤ vec.length, ∃ s',
    ckptVmRestorePages pageSize mach region ((vec.take k).count true) s = .ok s' ∧
      RestoredBelow pageSize region saved vec k s'.vm ∧
      s'.file = s.file.seek (s.file.pos +
        (dirtyPages pageSize region.start.toNat saved (vec.take k) 0).length)

/-- The page `idx` is dirty, and not mapped. -/
def Unmapped (pageSize : Nat) (mach : Mach) (region : VmRegion) (vec : List Bool) (vm : Vm)
    (idx : Nat) : Prop :=
  vec[idx]? = some true ∧ mach.faults vm (region.start.toNat + idx * pageSize) = true

section
variable {pageSize : Nat} {mach : Mach} {region : VmRegion} {s : Restoring} {saved : Vm}

/-- The contents are the same, and so is what faults outside of the `n` bytes at `a`. -/
def SameBut (mach : Mach) (a n : Nat) (vm vm' : Vm) : Prop :=
  vm'.mem = vm.mem ∧ ∀ b, ¬ (a ≤ b ∧ b < a + n) → mach.faults vm' b = mach.faults vm b

theorem SameBut.refl (mach : Mach) (a n : Nat) (vm : Vm) : SameBut mach a n vm vm :=
  ⟨rfl, fun _ _ => rfl⟩

theorem SameBut.trans {a n : Nat} {vm vm' vm'' : Vm} (h : SameBut mach a n vm vm')
    (h' : SameBut mach a n vm' vm'') : SameBut mach a n vm vm'' :=
  ⟨h'.1.trans h.1, fun b hb => (h'.2 b hb).trans (h.2 b hb)⟩

/-- The attributes of a page are refreshed. -/
theorem ckptVmRefreshPage_same (hmach : mach.MapsWhereFaults) (a : Nat) (vm : Vm) :
    SameBut mach a pageSize vm ((ckptVmRefreshPage pageSize mach region a vm).getD vm) := by
  have hprotect {max : Bool} {p : VmProt} {vm vm' : Vm}
      (h : mach.protect vm a pageSize max p = some vm') : SameBut mach a pageSize vm vm' :=
    ⟨hmach.protectKeeps _ _ _ _ _ _ h, fun b => hmach.protect _ _ _ _ _ _ b h⟩
  have hinherit {i : BitVec 32} {vm vm' : Vm}
      (h : mach.inherit vm a pageSize i = some vm') : SameBut mach a pageSize vm vm' :=
    ⟨hmach.inheritKeeps _ _ _ _ _ h, fun b => hmach.inherit _ _ _ _ _ b h⟩
  have hskip {p : Prop} [Decidable p] {o : Option Vm} {f : Vm → Option Vm} {vm vm' : Vm}
      (ho : ∀ vm₁, o = some vm₁ → SameBut mach a pageSize vm vm₁)
      (h : (if p then o.bind f else (pure vm : Option Vm).bind f) = some vm') :
      ∃ vm₁, SameBut mach a pageSize vm vm₁ ∧ f vm₁ = some vm' := by
    split at h
    · obtain ⟨vm₁, h₁, hf⟩ := Option.bind_eq_some_iff.mp h
      exact ⟨vm₁, ho vm₁ h₁, hf⟩
    · exact ⟨vm, .refl .., h⟩
  cases h : ckptVmRefreshPage pageSize mach region a vm with
  | none => exact .refl ..
  | some vm' =>
      obtain ⟨vm₁, h₁, h⟩ := hskip (fun _ => hprotect) h
      obtain ⟨vm₂, h₂, h⟩ := hskip (fun _ => hprotect) h
      split at h
      · exact (h₁.trans h₂).trans (hinherit h)
      · cases h
        exact h₁.trans h₂

/-- Bytes that fill a mapping leave nothing of it. -/
theorem Vm.mem_store_fresh (vm : Vm) (a : Nat) (bs : List UInt8) :
    ((vm.fresh a bs.length).store a bs).mem = (vm.store a bs).mem := by
  funext x
  by_cases h : a ≤ x ∧ x < a + bs.length
  · rw [mem_store h, mem_store h]
  · rw [mem_store_of_not h, mem_store_of_not h, mem_fresh_of_not h]

/-- **A page is restored** where it is mapped or the first one of the region. -/
theorem ckptVmPageRestore_ok (hmach : mach.MapsWhereFaults) (hp : 0 < pageSize) {offset : Nat}
    {bs : List UInt8} (hbs : bs.length = pageSize) (hrest : bs <+: s.file.rest)
    (h : mach.faults s.vm (region.start.toNat + offset) = true → offset = 0) :
    ∃ s', ckptVmPageRestore pageSize mach region offset s = .ok s' ∧
      s'.vm.mem = (s.vm.store (region.start.toNat + offset) bs).mem ∧
      s'.file = s.file.seek (s.file.pos + pageSize) ∧
      ∀ b, ¬ (region.start.toNat + offset ≤ b ∧ b < region.start.toNat + offset + pageSize) →
        mach.faults s'.vm b = mach.faults s.vm b := by
  obtain ⟨more, hmore⟩ := hrest
  cases hfault : mach.faults s.vm (region.start.toNat + offset) with
  | false =>
      have hload := Restoring.load_of_rest hmore.symm hbs (region.start.toNat + offset)
      refine ⟨⟨s.vm.store (region.start.toNat + offset) bs, s.file.seek (s.file.pos + pageSize)⟩,
        ?_, rfl, rfl, fun b _ => hmach.store _ _ _ b⟩
      simp only [ckptVmPageRestore, hfault, Bool.false_eq_true, if_false, hload, if_true]
      rfl
  | true =>
      obtain rfl := h hfault
      rw [Nat.add_zero] at hfault ⊢
      have hmapped : ckptVmMapPage pageSize mach region region.start.toNat s =
          .ok ⟨s.vm.fresh region.start.toNat pageSize, s.file⟩ := by
        rw [ckptVmMapPage, hmach.mapFree _ _ _ _ hp hfault]
        exact if_pos rfl
      have hloads : mach.faults (s.vm.fresh region.start.toNat pageSize) region.start.toNat =
          false := by
        rw [hmach.fresh, if_pos ⟨Nat.le_refl _, Nat.lt_add_of_pos_right hp⟩]
      have hload := Restoring.load_of_rest
        (s := ⟨s.vm.fresh region.start.toNat pageSize, s.file⟩) hmore.symm hbs region.start.toNat
      obtain ⟨hmem, hfaults⟩ : SameBut mach region.start.toNat pageSize _
          ((ckptVmRefreshPage pageSize mach region _ _).getD _) :=
        ckptVmRefreshPage_same hmach region.start.toNat
          ((s.vm.fresh region.start.toNat pageSize).store region.start.toNat bs)
      refine ⟨⟨_, s.file.seek (s.file.pos + pageSize)⟩, ?_, hmem.trans ?_, rfl, fun b hb =>
        (hfaults b hb).trans ?_⟩
      · simp only [ckptVmPageRestore, Nat.add_zero, hfault, if_true, hmapped, bind, Except.bind,
          hloads, Bool.false_eq_true, if_false, hload, ne_eq, not_true_eq_false]
        rfl
      · rw [← hbs]
        exact s.vm.mem_store_fresh _ bs
      · rw [hmach.store, hmach.fresh, if_neg hb]

/-- **Any other page that is not mapped** aborts the restart. -/
theorem ckptVmPageRestore_aborts (hmach : mach.MapsWhereFaults) (hp : 0 < pageSize) {offset : Nat}
    (hfault : mach.faults s.vm (region.start.toNat + offset) = true) (hoffset : offset ≠ 0) :
    ckptVmPageRestore pageSize mach region offset s = .error .aborted := by
  have hmapped : ckptVmMapPage pageSize mach region (region.start.toNat + offset) s =
      .error .aborted := by
    rw [ckptVmMapPage, hmach.mapFree _ _ _ _ hp hfault]
    exact if_neg (by omega)
  simp only [ckptVmPageRestore, hfault, if_true, hmapped]
  rfl

theorem mem_storePages_congr {vm vm' : Vm} (h : vm.mem = vm'.mem) (start : Nat) (vec : List Bool)
    (idx : Nat) : (storePages pageSize start saved vec idx vm).mem =
      (storePages pageSize start saved vec idx vm').mem := by
  induction vec generalizing idx vm vm' with
  | nil => exact h
  | cons d vec ih =>
      cases d with
      | true => exact ih (by simp only [Vm.store, h]) (idx + 1)
      | false => exact ih h (idx + 1)

/-- A turn of the loop: the record of the page is read, then the page. -/
theorem ckptVmRestorePages_succ {vec : List Bool} {idx n : Nat} (hidx : idx * pageSize < 2 ^ 64)
    (hrest : dirtyPages pageSize region.start.toNat saved (true :: vec) idx <+: s.file.rest) :
    ckptVmRestorePages pageSize mach region (n + 1) s =
      (ckptVmPageRestore pageSize mach region (idx * pageSize)
        ⟨s.vm, s.file.seek (s.file.pos + vmPageBytes)⟩).bind
          (ckptVmRestorePages pageSize mach region n) := by
  obtain ⟨more, hmore⟩ := hrest
  rw [dirtyPages, List.append_assoc, List.append_assoc] at hmore
  have hread := Restoring.readall_of_rest hmore.symm (length_leBytes vmPageBytes _)
  have hoffset : ofLeBytes (leBytes vmPageBytes (idx * pageSize)) = idx * pageSize := by
    rw [ofLeBytes_leBytes, show 256 ^ vmPageBytes = 2 ^ 64 from rfl, Nat.mod_eq_of_lt hidx]
  simp only [ckptVmRestorePages, hread, length_leBytes, ne_eq, not_true_eq_false, if_false, hoffset]
  rfl

/-- The page behind the record, and the records behind the page. -/
theorem rest_of_page {vec : List Bool} {idx : Nat}
    (hrest : dirtyPages pageSize region.start.toNat saved (true :: vec) idx <+: s.file.rest) :
    saved.read (region.start.toNat + idx * pageSize) pageSize <+:
        (s.file.seek (s.file.pos + vmPageBytes)).rest ∧
      dirtyPages pageSize region.start.toNat saved vec (idx + 1) <+:
        (s.file.seek (s.file.pos + vmPageBytes + pageSize)).rest := by
  obtain ⟨more, hmore⟩ := hrest
  rw [dirtyPages, List.append_assoc, List.append_assoc] at hmore
  have hpage := File.rest_seek hmore.symm (length_leBytes vmPageBytes _)
  have hnext := File.rest_seek hpage (Vm.length_read _ _ _)
  exact ⟨⟨_, hpage.symm⟩, ⟨more, hnext.symm⟩⟩

/-- A page further on is outside of a page. -/
theorem not_in_page {start idx i : Nat} :
    ¬ (start + idx * pageSize ≤ start + (idx + 1 + i) * pageSize ∧
      start + (idx + 1 + i) * pageSize < start + idx * pageSize + pageSize) := by
  have hle : (idx + 1) * pageSize ≤ (idx + 1 + i) * pageSize :=
    Nat.mul_le_mul_right _ (Nat.le_add_right _ _)
  rw [Nat.succ_mul] at hle
  omega

/-- **A turn that does not abort** restores its page, and leaves the loop the pages behind it. -/
theorem ckptVmRestorePages_turn (hmach : mach.MapsWhereFaults) (hp : 0 < pageSize) {vec : List Bool}
    {idx n : Nat} (hidx : idx * pageSize < 2 ^ 64)
    (hrest : dirtyPages pageSize region.start.toNat saved (true :: vec) idx <+: s.file.rest)
    (hfirst : mach.faults s.vm (region.start.toNat + idx * pageSize) = true → idx = 0) :
    ∃ s₁, ckptVmRestorePages pageSize mach region (n + 1) s =
        ckptVmRestorePages pageSize mach region n s₁ ∧
      s₁.vm.mem = (s.vm.store (region.start.toNat + idx * pageSize)
        (saved.read (region.start.toNat + idx * pageSize) pageSize)).mem ∧
      s₁.file = s.file.seek (s.file.pos + vmPageBytes + pageSize) ∧
      dirtyPages pageSize region.start.toNat saved vec (idx + 1) <+: s₁.file.rest ∧
      ∀ i, mach.faults s₁.vm (region.start.toNat + (idx + 1 + i) * pageSize) =
        mach.faults s.vm (region.start.toNat + (idx + 1 + i) * pageSize) := by
  obtain ⟨hpage, hnext⟩ := rest_of_page hrest
  obtain ⟨s₁, hok, hmem, hfile, hfaults⟩ := ckptVmPageRestore_ok
    (s := ⟨s.vm, s.file.seek (s.file.pos + vmPageBytes)⟩) hmach hp
    (Vm.length_read _ _ _) hpage fun hfault => by rw [hfirst hfault, Nat.zero_mul]
  have hpos : s₁.file = s.file.seek (s.file.pos + vmPageBytes + pageSize) := hfile
  refine ⟨s₁, ?_, hmem, hpos, hpos ▸ hnext, fun i => hfaults _ not_in_page⟩
  rw [ckptVmRestorePages_succ hidx hrest, hok]
  rfl

/-- The offsets of the pages behind the page `idx` are of 64 bits as well. -/
theorem offset_lt {vec : List Bool} {d : Bool} {idx : Nat}
    (h : (idx + (d :: vec).length) * pageSize < 2 ^ 64) :
    idx * pageSize < 2 ^ 64 ∧ (idx + 1 + vec.length) * pageSize < 2 ^ 64 := by
  constructor
  · exact Nat.lt_of_le_of_lt (Nat.mul_le_mul_right _ (Nat.le_add_right _ _)) h
  · rwa [Nat.add_assoc, Nat.add_comm 1, ← List.length_cons]

/-- **The loop restores the pages** of a vector, from the page `idx` on, where none but the
first page of the region is not mapped. -/
theorem ckptVmRestorePages_recovers (hmach : mach.MapsWhereFaults) (hp : 0 < pageSize)
    (vec : List Bool) (idx : Nat) (hbound : (idx + vec.length) * pageSize < 2 ^ 64)
    (hrest : dirtyPages pageSize region.start.toNat saved vec idx <+: s.file.rest)
    (h : ∀ i, vec[i]? = some true →
      mach.faults s.vm (region.start.toNat + (idx + i) * pageSize) = true → idx + i = 0) :
    ∃ s', ckptVmRestorePages pageSize mach region (vec.count true) s = .ok s' ∧
      s'.vm.mem = (storePages pageSize region.start.toNat saved vec idx s.vm).mem ∧
      s'.file = s.file.seek (s.file.pos +
        (dirtyPages pageSize region.start.toNat saved vec idx).length) := by
  induction vec generalizing idx s with
  | nil => exact ⟨s, rfl, rfl, rfl⟩
  | cons d vec ih =>
      obtain ⟨hidx, hbound'⟩ := offset_lt hbound
      have hlater (i : Nat) : idx + (i + 1) = idx + 1 + i := by omega
      cases d with
      | false =>
          refine ih (idx + 1) hbound' hrest fun i hi hfault => ?_
          have := h (i + 1) hi (hlater i ▸ hfault)
          omega
      | true =>
          obtain ⟨s₁, hturn, hmem, hpos, hnext, hfaults⟩ :=
            ckptVmRestorePages_turn hmach hp hidx hrest (h 0 rfl)
          obtain ⟨s', hrun, hmem', hfile'⟩ := ih (s := s₁) (idx + 1) hbound' hnext <| by
            intro i hi hfault
            rw [hfaults] at hfault
            have := h (i + 1) hi (hlater i ▸ hfault)
            omega
          refine ⟨s', ?_, hmem'.trans (mem_storePages_congr hmem _ _ _), ?_⟩
          · rw [List.count_cons_self, hturn]
            exact hrun
          · rw [hfile', hpos, dirtyPages, List.length_append, List.length_append, length_leBytes,
              Vm.length_read, Nat.add_assoc vmPageBytes, ← Nat.add_assoc s.file.pos,
              ← Nat.add_assoc (s.file.pos + vmPageBytes)]
            rfl

/-- **The loop aborts** where a page but the first of the region is not mapped. -/
theorem ckptVmRestorePages_aborts (hmach : mach.MapsWhereFaults) (hp : 0 < pageSize)
    (vec : List Bool) (idx : Nat) (hbound : (idx + vec.length) * pageSize < 2 ^ 64)
    (hrest : dirtyPages pageSize region.start.toNat saved vec idx <+: s.file.rest) {i : Nat}
    (hi : vec[i]? = some true)
    (hfault : mach.faults s.vm (region.start.toNat + (idx + i) * pageSize) = true)
    (hne : idx + i ≠ 0) :
    ckptVmRestorePages pageSize mach region (vec.count true) s = .error .aborted := by
  induction vec generalizing idx i s with
  | nil => cases hi
  | cons d vec ih =>
      obtain ⟨hidx, hbound'⟩ := offset_lt hbound
      have hlater (i : Nat) : idx + (i + 1) = idx + 1 + i := by omega
      cases d with
      | false =>
          cases i with
          | zero => cases hi
          | succ i => exact ih (idx + 1) hbound' hrest hi (hlater i ▸ hfault) (by omega)
      | true =>
          rw [List.count_cons_self]
          -- The page aborts by itself, or the loop comes to the one that does.
          by_cases hfirst : mach.faults s.vm (region.start.toNat + idx * pageSize) = true → idx = 0
          · obtain ⟨s₁, hturn, -, -, hnext, hfaults⟩ :=
              ckptVmRestorePages_turn hmach hp hidx hrest hfirst
            cases i with
            | zero => exact absurd (hfirst hfault) hne
            | succ i =>
                rw [hturn]
                refine ih (s := s₁) (idx + 1) hbound' hnext hi ?_ (by omega)
                rw [hfaults]
                exact hlater i ▸ hfault
          · rw [Classical.not_imp] at hfirst
            rw [ckptVmRestorePages_succ hidx hrest,
              ckptVmPageRestore_aborts (s := ⟨s.vm, s.file.seek (s.file.pos + vmPageBytes)⟩) hmach
                hp hfirst.1 (Nat.mul_ne_zero hfirst.2 (Nat.ne_of_gt hp))]
            rfl

theorem dirtyPages_take (start : Nat) (vec : List Bool) (k idx : Nat) :
    dirtyPages pageSize start saved (vec.take k) idx <+: dirtyPages pageSize start saved vec idx := by
  induction vec generalizing k idx with
  | nil => cases k <;> exact List.prefix_refl _
  | cons d vec ih =>
      cases k with
      | zero => exact List.nil_prefix
      | succ k =>
          cases d with
          | true => exact (List.prefix_append_right_inj _).mpr (ih k (idx + 1))
          | false => exact ih k (idx + 1)

/-- **The pages of a region are recovered if and only if** no page but the first one is
dirty and not mapped. -/
theorem recoversPages_iff {vec : List Bool} (hmach : mach.MapsWhereFaults)
    (h : SavedByPages pageSize region saved vec s) :
    RecoversPages pageSize mach region saved vec s ↔
      ∀ idx, Unmapped pageSize mach region vec s.vm idx → idx = 0 := by
  have hbound : (0 + vec.length) * pageSize < 2 ^ 64 := by
    rw [Nat.zero_add, h.size]
    exact region.size.isLt
  constructor
  · intro hrec idx hidx
    by_contra hne
    obtain ⟨s', hok, -⟩ := hrec vec.length (Nat.le_refl _)
    rw [List.take_length, ckptVmRestorePages_aborts hmach h.pos vec 0 hbound h.rest hidx.1
      ((Nat.zero_add idx).symm ▸ hidx.2) (by omega)] at hok
    cases hok
  · intro hfirst k hk
    have htake : (vec.take k).length = k := List.length_take_of_le hk
    obtain ⟨s', hok, hmem, hfile⟩ := ckptVmRestorePages_recovers (s := s) hmach h.pos (vec.take k) 0
      (Nat.lt_of_le_of_lt (Nat.mul_le_mul_right _ (by omega)) hbound)
      ((dirtyPages_take _ _ _ _).trans h.rest) fun i hi hfault => by
        obtain ⟨hik, -⟩ := List.getElem?_eq_some_iff.mp hi
        rw [List.getElem?_take_of_lt (by omega)] at hi
        rw [Nat.zero_add] at hfault ⊢
        exact hfirst i ⟨hi, hfault⟩
    refine ⟨s', hok, fun idx hidx hdirty a hle hlt => ?_, hfile⟩
    -- the page of the address is the page `idx`
    have hpage : (a - region.start.toNat) / pageSize = idx := by
      rw [Nat.div_eq_iff h.pos]
      rw [Nat.succ_mul] at hlt
      omega
    rw [hmem, mem_storePages h.pos, hpage, if_pos]
    rw [Nat.sub_zero, List.getElem?_take_of_lt hidx]
    exact ⟨by omega, hdirty⟩

end

/-- A Mach that maps, and where an address without any protection is not mapped. -/
def Mach.sparse : Mach where
  map vm a n _ := if n = 0 then none else some (vm.fresh a n)
  mapFree vm a n _ := if n = 0 ∨ vm.prot a ≠ 0 then none else some (vm.fresh a n)
  protect vm a n max p := some (if max = true then vm.setMaxProt a n p else vm.setProt a n p)
  inherit vm a n i := some (vm.setInherit a n i)
  faults vm a := vm.prot a == 0
  taskSelf := 0
  taskSelfTrap := 259#32

theorem Mach.sparse_maps : Mach.sparse.MapsWhereFaults where
  mapFree vm a n tag hn hfault := by
    have hprot : vm.prot a = 0 := beq_iff_eq.mp hfault
    exact if_neg (not_or.mpr ⟨Nat.ne_of_gt hn, not_not.mpr hprot⟩)
  fresh vm a n b := by
    by_cases h : a ≤ b ∧ b < a + n <;> simp [Mach.sparse, Vm.fresh, Vm.put, h, vmProtDefault]
  store vm a bs b := rfl
  protect vm vm' a n max p b h hb := by
    obtain rfl := Option.some.inj h
    cases max <;> simp [Mach.sparse, Vm.setProt, Vm.setMaxProt, Vm.put, hb]
  inherit vm vm' a n i b h _ := by
    obtain rfl := Option.some.inj h
    rfl
  protectKeeps vm vm' a n max p h := by
    obtain rfl := Option.some.inj h
    cases max <;> rfl
  inheritKeeps vm vm' a n i h := by
    obtain rfl := Option.some.inj h
    rfl

/-- A region of two pages, both dirty. -/
def twoPages : VmRegion where
  start := 0x200000000
  size := 32768
  inherit := vmInheritDefault
  prot := vmProtDefault
  maxProt := vmProtAll
  mode := 0
  tag := 0
  pagesDirtied := 2
  dirtyOnly := true

/-- What the pages held. -/
def ones : Vm := ⟨fun _ => 1, fun _ => vmProtDefault, fun _ => vmProtAll, fun _ => vmInheritDefault⟩

/-- The two pages in an image, and a memory where the page at `a` is not mapped. -/
def missing (a : Nat) : Restoring where
  vm := ones.setProt a 16384 0
  file := ⟨dirtyPages 16384 twoPages.start.toNat ones [true, true] 0, 0⟩

theorem savedByPages_missing (a : Nat) :
    SavedByPages 16384 twoPages ones [true, true] (missing a) where
  pos := by decide
  size := by decide
  rest := List.prefix_refl _

theorem recoversPages_first :
    RecoversPages 16384 .sparse twoPages ones [true, true] (missing 0x200000000) := by
  refine (recoversPages_iff Mach.sparse_maps (savedByPages_missing _)).mpr ?_
  intro idx hmissing
  match idx with
  | 0 => rfl
  | 1 => exact absurd hmissing.2 (by decide)
  | idx + 2 => cases hmissing.1

/-- The second page is not mapped. -/
theorem not_recoversPages_second : ¬ ∀ pageSize (mach : Mach) region saved vec s,
    mach.MapsWhereFaults → SavedByPages pageSize region saved vec s →
      RecoversPages pageSize mach region saved vec s := by
  intro h
  have hsaved := savedByPages_missing 0x200004000
  obtain ⟨s', hok, -⟩ := h _ _ _ _ _ _ Mach.sparse_maps hsaved 2 (by decide)
  have haborts := ckptVmRestorePages_aborts Mach.sparse_maps hsaved.pos [true, true] 0 (by decide)
    hsaved.rest (i := 1) rfl (by decide) (by decide)
  rw [show List.take 2 [true, true] = [true, true] from rfl, haborts] at hok
  cases hok

end Xnd.Image
