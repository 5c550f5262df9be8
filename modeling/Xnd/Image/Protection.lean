import Xnd.Image.RoundTrip

/-!
# The protection of a region that is saved

`write_vm_region` makes a region readable that is not, and takes this back when it has
written the pages.  When a page could not be written it shrinks the size of the record
first, so that the pages from there on stay readable, and when the record cannot be
written once more it returns with the whole region readable.
-/
namespace Xnd.Image

/-- `mach_vm_protect` that is successful sets the protection of the range, and of nothing
else. -/
structure Mach.Protects (mach : Mach) : Prop where
  protect : ∀ {vm vm' : Vm} {a n : Nat} {p : VmProt},
    mach.protect vm a n false p = some vm' → vm' = vm.setProt a n p

variable {pageSize : Nat} {mach : Mach} {ans : Answers} {region : VmRegion} {s s' : Saving}

/-- **A region is left readable**: it is saved in full, was not readable and is made so,
and a page of it is not written as a whole. -/
structure LeftReadable (pageSize : Nat) (mach : Mach) (ans : Answers) (region : VmRegion)
    (s : Saving) : Prop where
  full : region.onlyRestoreDirtyPages = true → worthwhile pageSize region = false
  unreadable : region.prot &&& vmProtRead = 0
  record : VmRegion.bytes ≤ ans.record
  granted : mach.protect s.vm region.start.toNat region.size.toNat false
    (region.prot ||| vmProtRead) ≠ none
  page : ∃ p < region.size.toNat / pageSize, ans.page p < pageSize

/-! ## Pages -/

/-- The loop over the pages leaves the process as it is, and counts the leading pages that
are written as a whole. -/
theorem writePages_spec {p n seek q : Nat}
    (h : writePages pageSize ans region p n seek s = some (q, s')) :
    q = p + leadingPages pageSize ans.page p n ∧ s'.vm = s.vm := by
  induction n generalizing p seek s with
  | zero =>
      obtain ⟨rfl, rfl⟩ := Prod.mk.inj (Option.some.inj h)
      exact ⟨rfl, rfl⟩
  | succ n ih =>
      have hlen := Vm.length_read s.vm (region.start.toNat + p * pageSize) pageSize
      have hfst := Saving.writeall_fst_eq (s := s) (k := ans.page p) hlen
      rw [hlen] at hfst
      rw [writePages] at h
      simp only [ne_eq, hfst] at h
      rw [leadingPages]
      by_cases hpage : pageSize ≤ ans.page p
      · rw [if_neg (not_not.mpr hpage)] at h
        obtain ⟨hq, hvm⟩ := ih h
        rw [if_pos hpage]
        exact ⟨by omega, hvm⟩
      · rw [if_pos hpage] at h
        rw [if_neg hpage]
        split at h
        · split at h
          · obtain ⟨rfl, rfl⟩ := Prod.mk.inj (Option.some.inj h)
            exact ⟨rfl, rfl⟩
          · cases h
        · obtain ⟨rfl, rfl⟩ := Prod.mk.inj (Option.some.inj h)
          exact ⟨rfl, rfl⟩

theorem writeVmRegionAllPages_spec {q : Nat}
    (h : writeVmRegionAllPages pageSize ans region s = some (q, s')) :
    q = leadingPages pageSize ans.page 0 (region.size.toNat / pageSize) ∧ s'.vm = s.vm := by
  rw [writeVmRegionAllPages] at h
  split at h
  · obtain ⟨hq, hvm⟩ := writePages_spec h
    exact ⟨hq.trans (Nat.zero_add _), hvm⟩
  · cases h

/-- All pages are written as a whole, or the loop ends before one that is not. -/
theorem leadingPages_eq_iff (page : Nat → Nat) (n : Nat) :
    leadingPages pageSize page 0 n = n ↔ ∀ p < n, pageSize ≤ page p := by
  constructor
  · intro h p hp
    have := @leadingPages_whole pageSize page 0 n p (by omega)
    rwa [Nat.zero_add] at this
  · intro h
    by_contra hne
    have hlt := Nat.lt_of_le_of_ne (leadingPages_le page 0 n) hne
    have hstop := leadingPages_stop page 0 n hlt
    rw [Nat.zero_add] at hstop
    have := h _ hlt
    omega

/-- The dirty pages are written with the process as it is. -/
theorem vm_writeVmPage (idx : Nat) : (writeVmPage pageSize ans region idx s).2.vm = s.vm := by
  simp only [writeVmPage]
  split
  · rfl
  · split <;> rfl

theorem vm_writeDirtyPages (dirty : Nat) (vec : List Bool) (idx pg : Nat) :
    (writeDirtyPages pageSize ans region dirty vec idx pg s).2.vm = s.vm := by
  induction vec generalizing idx pg s with
  | nil =>
      rw [writeDirtyPages]
      split <;> rfl
  | cons d vec ih =>
      rw [writeDirtyPages]
      split
      · split <;> rfl
      · split
        · have hpage := @vm_writeVmPage pageSize ans region s idx
          split
          case h_1 s₁ heq =>
            rw [heq] at hpage
            exact (ih ..).trans hpage
          case h_2 => exact hpage
        · exact ih ..

theorem vm_writeVmRegionDirty : (writeVmRegionDirty pageSize ans region s).2.2.vm = s.vm := by
  rw [writeVmRegionDirty]
  split
  · rfl
  · split
    · rfl
    · split
      · rfl
      · simp only
        split
        · rfl
        · exact vm_writeDirtyPages ..

/-- The record is written once more with the process as it is, and with the new size if it is
written. -/
theorem correctSize_spec {before pages : Nat} :
    (correctSize pageSize ans region before pages s).2.2.vm = s.vm ∧
      ((correctSize pageSize ans region before pages s).1 = .ok →
        (correctSize pageSize ans region before pages s).2.1 =
          { region with size := .ofNat 64 (pages * pageSize) }) := by
  rw [correctSize]
  split
  · exact ⟨rfl, nofun⟩
  · split
    · exact ⟨rfl, nofun⟩
    · simp only
      split
      · exact ⟨rfl, nofun⟩
      · split
        · exact ⟨rfl, nofun⟩
        · exact ⟨rfl, fun _ => rfl⟩

/-! ## Protections -/

/-- The region has its own protection again. -/
theorem prot_setProt_setProt {vm : Vm} {a n : Nat} {p q : VmProt} (hp : p &&& ~~~vmProtCopy = p)
    (hlive : ∀ x, a ≤ x → x < a + n → vm.prot x = p) :
    ((vm.setProt a n q).setProt a n p).prot = vm.prot := by
  funext x
  simp only [Vm.setProt, Vm.put]
  split
  case isTrue hx => rw [hp, hlive x hx.1 hx.2]
  case isFalse => rfl

theorem ne_of_readable {p : VmProt} (hp : p &&& vmProtRead = 0) :
    (p ||| vmProtRead) &&& ~~~vmProtCopy ≠ p := by
  intro heq
  have hread : ~~~vmProtCopy &&& vmProtRead = vmProtRead := by decide
  have : (p ||| vmProtRead) &&& ~~~vmProtCopy &&& vmProtRead = vmProtRead := by
    rw [BitVec.and_assoc, hread, BitVec.and_or_distrib_right, hp, BitVec.and_self]
    exact BitVec.zero_or
  rw [heq, hp] at this
  exact absurd this (by decide)

/-- A page that keeps the protection that it was granted. -/
theorem prot_ne_of_page {vm vm' : Vm} {k n : Nat} (hmapped : region.Mapped pageSize)
    (hn : n = region.size.toNat / pageSize) (hk : k < n) (hp : 0 < pageSize)
    (hread : region.prot &&& vmProtRead = 0)
    (hlive : ∀ a, region.Covers a → vm.prot a = region.prot)
    (hleft : ∀ a, region.start.toNat + k * pageSize ≤ a →
      vm'.prot a =
        (vm.setProt region.start.toNat region.size.toNat (region.prot ||| vmProtRead)).prot a) :
    vm'.prot ≠ vm.prot := by
  intro heq
  have hsize : n * pageSize = region.size.toNat := hn ▸ Nat.div_mul_cancel hmapped.dvd
  have hle : k * pageSize + pageSize ≤ region.size.toNat := by
    rw [← hsize, ← Nat.succ_mul]
    exact Nat.mul_le_mul_right _ hk
  have hcovers : region.Covers (region.start.toNat + k * pageSize) := ⟨by omega, by omega⟩
  have hpage := hleft _ (Nat.le_refl _)
  rw [heq, hlive _ hcovers, Vm.setProt] at hpage
  exact ne_of_readable hread (hpage.trans (if_pos hcovers)).symm

/-- The size of a region that is shrunk is that of its leading pages. -/
theorem toNat_pages {k : Nat} (hmapped : region.Mapped pageSize)
    (hk : k < region.size.toNat / pageSize) :
    (BitVec.ofNat 64 (k * pageSize)).toNat = k * pageSize := by
  have hle : k * pageSize ≤ region.size.toNat :=
    (Nat.mul_le_mul_right _ hk.le).trans (Nat.div_mul_le_self ..)
  have hbelow := hmapped.below
  rw [BitVec.toNat_ofNat]
  exact Nat.mod_eq_of_lt (by omega)

/-- What is restored depends on the process only, not on the image. -/
theorem vm_restoreProtection_congr {s t : Saving} (readProtect : Bool) (hvm : s.vm = t.vm) :
    (restoreProtection mach region readProtect s).vm =
      (restoreProtection mach region readProtect t).vm := by
  unfold restoreProtection
  rw [hvm]
  split
  · split
    · exact hvm
    · rfl
  · exact hvm

/-- What is left of the process when a region was written in full: it is as it was, or the
region was made readable, and then its protection is restored when all pages are written, and
otherwise that of the leading pages at most. -/
theorem writeVmRegionFull_cases {status : Status} {region' : VmRegion}
    (h : writeVmRegionFull pageSize mach ans region s = (status, region', s'))
    (hret : status ≠ .aborted) :
    (s'.vm = s.vm ∧ ¬ (region.prot &&& vmProtRead = 0 ∧ VmRegion.bytes ≤ ans.record ∧
      mach.protect s.vm region.start.toNat region.size.toNat false
        (region.prot ||| vmProtRead) ≠ none)) ∨
    ∃ vm, mach.protect s.vm region.start.toNat region.size.toNat false
        (region.prot ||| vmProtRead) = some vm ∧ region.prot &&& vmProtRead = 0 ∧
      VmRegion.bytes ≤ ans.record ∧ ∃ t : Saving, t.vm = vm ∧
        (let n := region.size.toNat / pageSize
         let k := leadingPages pageSize ans.page 0 n
         (k = n ∧ s'.vm = (restoreProtection mach region true t).vm) ∨
          (k ≠ n ∧ (s'.vm = vm ∨ s'.vm = (restoreProtection mach
            { region with size := .ofNat 64 (k * pageSize) } true t).vm))) := by
  have hrecord := Saving.writeall_fst_eq (s := s) (k := ans.record) region.length_encode
  rw [region.length_encode] at hrecord
  unfold writeVmRegionFull at h
  split at h
  · obtain ⟨rfl, -⟩ := Prod.mk.inj h
    exact absurd rfl hret
  simp only [ne_eq, hrecord] at h
  split at h
  · obtain ⟨-, h⟩ := Prod.mk.inj h
    obtain ⟨-, rfl⟩ := Prod.mk.inj h
    exact .inl ⟨rfl, fun hall => absurd hall.2.1 ‹_›⟩
  rename_i hbytes
  have hbytes := not_not.mp hbytes
  by_cases hread : region.prot &&& vmProtRead = 0
  · simp only [hread, beq_self_eq_true, if_true, Saving.vm_writeall] at h
    cases hgrant : mach.protect s.vm region.start.toNat region.size.toNat false
        (region.prot ||| vmProtRead) with
    | none =>
        simp only [hgrant] at h
        obtain ⟨-, h⟩ := Prod.mk.inj h
        obtain ⟨-, rfl⟩ := Prod.mk.inj h
        exact .inl ⟨rfl, fun hall => hall.2.2 rfl⟩
    | some vm =>
        simp only [hgrant] at h
        refine .inr ⟨vm, rfl, hread, hbytes, ?_⟩
        split at h
        · obtain ⟨rfl, -⟩ := Prod.mk.inj h
          exact absurd rfl hret
        rename_i q t hpages
        obtain ⟨rfl, hvm⟩ := writeVmRegionAllPages_spec hpages
        refine ⟨t, hvm, ?_⟩
        split at h
        · obtain ⟨-, h⟩ := Prod.mk.inj h
          obtain ⟨-, rfl⟩ := Prod.mk.inj h
          exact .inl ⟨‹_›, rfl⟩
        rename_i hne
        obtain ⟨hsame, hshrunk⟩ := @correctSize_spec pageSize ans region t s.file.pos
          (leadingPages pageSize ans.page 0 (region.size.toNat / pageSize))
        refine .inr ⟨hne, ?_⟩
        split at h
        case h_1 r₁ s₁ heq =>
          rw [heq] at hsame hshrunk
          obtain rfl := hshrunk rfl
          obtain ⟨-, h⟩ := Prod.mk.inj h
          obtain ⟨-, rfl⟩ := Prod.mk.inj h
          exact .inr (vm_restoreProtection_congr _ hsame)
        case h_2 =>
          rw [h] at hsame
          exact .inl (hsame.trans hvm)
  · refine .inl ⟨?_, fun hall => hread hall.1⟩
    simp only [beq_eq_false_iff_ne.mpr hread, Bool.false_eq_true, if_false] at h
    split at h
    · obtain ⟨rfl, -⟩ := Prod.mk.inj h
      exact absurd rfl hret
    rename_i q t hpages
    obtain ⟨-, hvm⟩ := writeVmRegionAllPages_spec hpages
    split at h
    · obtain ⟨-, h⟩ := Prod.mk.inj h
      obtain ⟨-, rfl⟩ := Prod.mk.inj h
      exact hvm
    obtain ⟨hsame, -⟩ := @correctSize_spec pageSize ans region t s.file.pos q
    split at h
    case h_1 r₁ s₁ heq =>
      rw [heq] at hsame
      obtain ⟨-, h⟩ := Prod.mk.inj h
      obtain ⟨-, rfl⟩ := Prod.mk.inj h
      exact hsame.trans hvm
    case h_2 =>
      rw [h] at hsame
      exact hsame.trans hvm

/-- A region that is saved in full. -/
theorem prot_writeVmRegionFull_iff {status : Status} {region' : VmRegion} (hp : 0 < pageSize)
    (hprotects : mach.Protects) (hmapped : region.Mapped pageSize)
    (hlive : ∀ a, region.Covers a → s.vm.prot a = region.prot)
    (hrestore : ∀ vm n, mach.protect vm region.start.toNat n false region.prot ≠ none)
    (h : writeVmRegionFull pageSize mach ans region s = (status, region', s'))
    (hret : status ≠ .aborted) :
    s'.vm.prot = s.vm.prot ↔
      ¬ ((region.prot &&& vmProtRead = 0 ∧ VmRegion.bytes ≤ ans.record ∧
          mach.protect s.vm region.start.toNat region.size.toNat false
            (region.prot ||| vmProtRead) ≠ none) ∧
        ∃ p < region.size.toNat / pageSize, ans.page p < pageSize) := by
  obtain ⟨hsame, hnot⟩ | ⟨vm, hgrant, hread, hbytes, t, rfl, hcases⟩ :=
    writeVmRegionFull_cases h hret
  · exact iff_of_true (congrArg Vm.prot hsame) fun hall => hnot hall.1
  have hvm := hprotects.protect hgrant
  have hrestored : ∀ r : VmRegion, r.start = region.start → r.prot = region.prot →
      (restoreProtection mach r true t).vm =
        t.vm.setProt region.start.toNat r.size.toNat region.prot := by
    intro r hstart hprot
    rw [restoreProtection, if_pos rfl, hstart, hprot]
    split
    case h_1 hnone => exact absurd hnone (hrestore _ _)
    case h_2 hsome => exact hprotects.protect hsome
  have hwhole := @leadingPages_eq_iff pageSize ans.page (region.size.toNat / pageSize)
  obtain ⟨hk, hs⟩ | ⟨hk, hs⟩ := hcases
  · refine iff_of_true ?_ fun hall => ?_
    · rw [hs, hrestored region rfl rfl, hvm]
      exact prot_setProt_setProt hmapped.prot_flag fun a ha hlt => hlive a ⟨ha, hlt⟩
    · obtain ⟨p, hlt, hpage⟩ := hall.2
      exact absurd (hwhole.mp hk p hlt) (Nat.not_le.mpr hpage)
  · have hlt := Nat.lt_of_le_of_ne
      (@leadingPages_le pageSize ans.page 0 (region.size.toNat / pageSize)) hk
    have hstop := @leadingPages_stop pageSize ans.page 0 _ hlt
    rw [Nat.zero_add] at hstop
    refine iff_of_false ?_ (not_not.mpr ⟨⟨hread, hbytes, fun hnone => ?_⟩, _, hlt, hstop⟩)
    · refine prot_ne_of_page hmapped rfl hlt hp hread hlive fun a ha => ?_
      obtain hs | hs := hs
      · rw [hs, hvm]
      · rw [congrArg Vm.prot (hs.trans (hrestored _ rfl rfl)), ← hvm]
        refine if_neg fun hin => Nat.not_lt.mpr ha ?_
        have hlast := hin.2
        rwa [toNat_pages hmapped hlt] at hlast
    · rw [hgrant] at hnone
      cases hnone

/-- **A region that is saved keeps its protection, unless it is left readable.** -/
theorem prot_writeVmRegion_iff (hp : 0 < pageSize) (hprotects : mach.Protects)
    (hmapped : region.Mapped pageSize) (hlive : ∀ a, region.Covers a → s.vm.prot a = region.prot)
    (hrestore : ∀ vm n, mach.protect vm region.start.toNat n false region.prot ≠ none)
    (hreturns : (writeVmRegion pageSize mach ans region s).1 ≠ .aborted) :
    (writeVmRegion pageSize mach ans region s).2.2.vm.prot = s.vm.prot ↔
      ¬ LeftReadable pageSize mach ans region s := by
  rw [writeVmRegion] at hreturns ⊢
  by_cases honly : region.onlyRestoreDirtyPages = true
  · rw [if_pos honly] at hreturns ⊢
    cases hworth : worthwhile pageSize region
    · rw [hworth, if_neg Bool.false_ne_true] at hreturns
      rw [if_neg Bool.false_ne_true]
      have hmapped' : ({ region with dirtyOnly := false } : VmRegion).Mapped pageSize :=
        ⟨hmapped.pos, hmapped.dvd, hmapped.below, hmapped.prot, hmapped.maxProt⟩
      refine (prot_writeVmRegionFull_iff hp hprotects hmapped' hlive hrestore rfl hreturns).trans
        (not_congr ⟨fun hall => ?_, fun hleft => ?_⟩)
      · exact ⟨fun _ => hworth, hall.1.1, hall.1.2.1, hall.1.2.2, hall.2⟩
      · exact ⟨⟨hleft.unreadable, hleft.record, hleft.granted⟩, hleft.page⟩
    · rw [if_pos rfl]
      refine iff_of_true (congrArg Vm.prot vm_writeVmRegionDirty) fun hleft => ?_
      rw [hleft.full honly] at hworth
      cases hworth
  · rw [if_neg honly] at hreturns ⊢
    refine (prot_writeVmRegionFull_iff hp hprotects hmapped hlive hrestore rfl hreturns).trans
      (not_congr ⟨fun hall => ?_, fun hleft => ?_⟩)
    · exact ⟨fun h => absurd h honly, hall.1.1, hall.1.2.1, hall.1.2.2, hall.2⟩
    · exact ⟨⟨hleft.unreadable, hleft.record, hleft.granted⟩, hleft.page⟩

/-! ### Two pages of the stack that can only be written to -/

theorem Mach.plain_protects : Mach.plain.Protects where
  protect h := (Option.some.inj h).symm

/-- Two pages of the stack, to be written to only. -/
def writeOnly : VmRegion := ⟨0x16f000000#64, 32768#64, 1#32, 2#32, 7#32, 2#32, 30#32, 0#32, false⟩

/-- The process that they are of. -/
def writeOnlySaving : Saving := ⟨{ counting with prot := fun _ => 2#32 }, ⟨[], 0⟩, false⟩

/-- There is no space left for the second page. -/
def full : Answers := { obliging with page := fun p => if p = 0 then 16384 else 0 }

theorem writeOnly_mapped : writeOnly.Mapped 16384 := by
  constructor <;> decide

theorem prot_writeVmRegion_writeOnly :
    (writeVmRegion 16384 Mach.plain obliging writeOnly writeOnlySaving).2.2.vm.prot =
        writeOnlySaving.vm.prot ↔
      ¬ LeftReadable 16384 Mach.plain obliging writeOnly writeOnlySaving :=
  prot_writeVmRegion_iff (by decide) Mach.plain_protects writeOnly_mapped (fun _ _ => rfl)
    (fun _ _ => nofun) (by decide +kernel)

/-- **The second page stays readable**: `write_vm_region` is successful, and restores the
protection of the first page only. -/
theorem readable_writeOnly : writeOnly.Mapped 16384 ∧ Mach.plain.Protects ∧
    (∀ a, writeOnly.Covers a → writeOnlySaving.vm.prot a = writeOnly.prot) ∧
    (∀ vm n, Mach.plain.protect vm writeOnly.start.toNat n false writeOnly.prot ≠ none) ∧
    (writeVmRegion 16384 Mach.plain full writeOnly writeOnlySaving).1 = .ok ∧
    writeOnlySaving.vm.prot 0x16f004000 = 2#32 ∧
    (writeVmRegion 16384 Mach.plain full writeOnly writeOnlySaving).2.2.vm.prot 0x16f004000 =
      3#32 :=
  ⟨writeOnly_mapped, Mach.plain_protects, fun _ _ => rfl, fun _ _ => nofun, by decide +kernel,
    rfl, by decide +kernel⟩

end Xnd.Image
