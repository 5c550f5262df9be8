import Xnd.Image.Written
import Mathlib.Data.List.Enum

/-!
# The image as a whole

The regions of an image lie in it one after the other, each with its tag and its record,
and the context comes last (`savedEntries`).  **The writer** appends just that, as long as
no page is written in part (`writeEntries_ok`); the induction is on the regions that are
left, and what carries it is that the offset is at the end.
-/
namespace Xnd.Image

/-! ## Short writes -/

section Short
variable {pageSize : Nat} {mach : Mach} {ans : Answers} {region : VmRegion} {s : Saving}

/-- A write that was short is remembered. -/
theorem Saving.short_writeall (h : s.short = true) (bs : List UInt8) (k : Nat) :
    (s.writeall bs k).2.short = true := by
  show (s.short || _) = true
  rw [h, Bool.true_or]

theorem short_writeVmPage (h : s.short = true) (idx : Nat) :
    (writeVmPage pageSize ans region idx s).2.short = true := by
  have hoffset := Saving.short_writeall h (leBytes vmPageBytes (idx * pageSize)) (ans.offset idx)
  unfold writeVmPage
  simp only
  split
  · exact hoffset
  · split
    · exact Saving.short_writeall hoffset _ _
    · exact Saving.short_writeall hoffset _ _

theorem short_writeDirtyPages (dirty : Nat) (vec : List Bool) (idx pg : Nat) (h : s.short = true) :
    (writeDirtyPages pageSize ans region dirty vec idx pg s).2.short = true := by
  induction vec generalizing idx pg s with
  | nil =>
      rw [writeDirtyPages]
      split <;> exact h
  | cons d vec ih =>
      have hpage : (writeVmPage pageSize ans region idx s).2.short = true :=
        short_writeVmPage h idx
      rw [writeDirtyPages]
      split
      · split <;> exact h
      · split
        · split
          · rename_i t ht
            rw [ht] at hpage
            exact ih _ _ hpage
          · exact hpage
        · exact ih _ _ h

theorem short_writeVmRegionDirty (h : s.short = true) :
    (writeVmRegionDirty pageSize ans region s).2.2.short = true := by
  unfold writeVmRegionDirty
  split
  · exact h
  · split
    · exact h
    · split
      · exact h
      · simp only
        split
        · exact Saving.short_writeall h _ _
        · exact short_writeDirtyPages _ _ _ _ (Saving.short_writeall h _ _)

theorem short_writePages (p n seek : Nat) (h : s.short = true) {r : Nat × Saving}
    (hr : writePages pageSize ans region p n seek s = some r) : r.2.short = true := by
  induction n generalizing p seek s with
  | zero =>
      obtain rfl := Option.some.inj hr
      exact h
  | succ n ih =>
      have hpage := Saving.short_writeall h
        (s.vm.read (region.start.toNat + p * pageSize) pageSize) (ans.page p)
      rw [writePages] at hr
      simp only at hr
      split at hr
      · split at hr
        · split at hr
          · obtain rfl := Option.some.inj hr
            exact hpage
          · cases hr
        · obtain rfl := Option.some.inj hr
          exact hpage
      · exact ih _ _ hpage hr

theorem short_restoreProtection (readProtect : Bool) (h : s.short = true) :
    (restoreProtection mach region readProtect s).short = true := by
  unfold restoreProtection
  split
  · split <;> exact h
  · exact h

theorem short_correctSize (before pages : Nat) (h : s.short = true) :
    (correctSize pageSize ans region before pages s).2.2.short = true := by
  have hrewrite := fun bs => Saving.short_writeall (s := s.seek before) h bs ans.rewrite
  unfold correctSize
  split
  · exact h
  · split
    · exact h
    · simp only
      split
      · exact hrewrite _
      · split
        · exact hrewrite _
        · exact hrewrite _

theorem short_writeVmRegionFull (h : s.short = true) :
    (writeVmRegionFull pageSize mach ans region s).2.2.short = true := by
  have hrecord := Saving.short_writeall h region.encode ans.record
  unfold writeVmRegionFull
  split
  · exact h
  · simp only
    split
    · exact hrecord
    · split
      · exact hrecord
      · split
        · exact hrecord
        · rename_i pages t hpages
          have ht : t.short = true := by
            unfold writeVmRegionAllPages at hpages
            split at hpages
            · exact short_writePages _ _ _ (by exact hrecord) hpages
            · cases hpages
          have hcorrect : (correctSize pageSize ans region s.file.pos pages t).2.2.short = true :=
            short_correctSize _ _ ht
          split
          · exact short_restoreProtection _ ht
          · split
            · rename_i hc
              rw [hc] at hcorrect
              exact short_restoreProtection _ hcorrect
            · exact hcorrect

theorem short_writeVmRegion (h : s.short = true) :
    (writeVmRegion pageSize mach ans region s).2.2.short = true := by
  rw [writeVmRegion_eq]
  split
  · exact short_writeVmRegionDirty h
  · exact short_writeVmRegionFull h

theorem short_writeEntries {ans : Nat → Answers} {uctx : Ucontext} (i : Nat)
    (entries : List CkptEntry) (regions : List VmRegion) (h : s.short = true) :
    (writeEntries pageSize mach ans uctx i entries regions s).2.2.short = true := by
  induction entries generalizing i regions s with
  | nil => exact h
  | cons e entries ih =>
      have htag := Saving.short_writeall h e.encode (ans i).tag
      rw [writeEntries]
      simp only
      split
      · exact htag
      · cases e with
        | vmRegion =>
            cases regions with
            | nil => exact htag
            | cons region regions =>
                have hregion : (writeVmRegion pageSize mach (ans i) region
                    (s.writeall CkptEntry.vmRegion.encode (ans i).tag).2).2.2.short = true :=
                  short_writeVmRegion htag
                simp only
                split
                · rename_i ht
                  rw [ht] at hregion
                  exact ih _ _ hregion
                · rename_i ht
                  rw [ht] at hregion
                  exact hregion
        | vmPage => exact htag
        | ucontext =>
            have hraw := Saving.short_writeall htag uctx.raw (ans i).context
            simp only [writeContext]
            split
            · rename_i ht
              split at ht
              · cases ht
              · obtain ⟨-, rfl⟩ := Prod.mk.inj ht
                exact ih _ _ hraw
            · rename_i ht
              split at ht
              · obtain ⟨-, rfl⟩ := Prod.mk.inj ht
                exact hraw
              · obtain ⟨-, rfl⟩ := Prod.mk.inj ht
                exact hraw
end Short

/-! ## What the image is -/

section Stream
variable (pageSize : Nat) (ans : Nat → Answers) (vm : Vm) (uctx : Ucontext)

/-- A region in the image, with its tag. -/
def VmRegion.saved (ans : Answers) (region : VmRegion) : List UInt8 :=
  CkptEntry.vmRegion.encode ++
    ((region.record pageSize ans).encode ++ region.payload pageSize ans vm)

/-- The image from the region `i` on. -/
def savedEntries (i : Nat) (regions : List VmRegion) : List UInt8 :=
  (regions.zipIdx i).flatMap (fun p => p.1.saved pageSize vm (ans p.2)) ++
    (CkptEntry.ucontext.encode ++ uctx.raw)

/-- The records from the region `i` on. -/
def savedRecords (i : Nat) (regions : List VmRegion) : List VmRegion :=
  (regions.zipIdx i).map fun p => p.1.record pageSize (ans p.2)

theorem savedEntries_cons (i : Nat) (region : VmRegion) (regions : List VmRegion) :
    savedEntries pageSize ans vm uctx i (region :: regions) =
      region.saved pageSize vm (ans i) ++ savedEntries pageSize ans vm uctx (i + 1) regions := by
  simp only [savedEntries, List.zipIdx_cons, List.flatMap_cons, List.append_assoc]

theorem savedRecords_cons (i : Nat) (region : VmRegion) (regions : List VmRegion) :
    savedRecords pageSize ans i (region :: regions) =
      region.record pageSize (ans i) :: savedRecords pageSize ans (i + 1) regions := rfl

theorem savedRecords_getElem? (regions : List VmRegion) (j : Nat) :
    (savedRecords pageSize ans 0 regions)[j]? =
      regions[j]?.map fun region => region.record pageSize (ans j) := by
  rw [savedRecords, List.getElem?_map, List.getElem?_zipIdx, Option.map_map, Nat.zero_add]
  rfl

theorem ckptEntries_cons (region : VmRegion) (regions : List VmRegion) :
    ckptEntries (region :: regions) = .vmRegion :: ckptEntries regions := rfl

end Stream

section Congr
variable {pageSize : Nat} {vm vm' : Vm}

theorem dirtyPages_congr (h : vm'.mem = vm.mem) (start : Nat) (vec : List Bool) (idx : Nat) :
    dirtyPages pageSize start vm' vec idx = dirtyPages pageSize start vm vec idx := by
  induction vec generalizing idx with
  | nil => rfl
  | cons d vec ih =>
      cases d with
      | true => rw [dirtyPages, dirtyPages, Vm.read_congr h, ih]
      | false => exact ih (idx + 1)

theorem VmRegion.saved_congr (h : vm'.mem = vm.mem) (ans : Answers) (region : VmRegion) :
    region.saved pageSize vm' ans = region.saved pageSize vm ans := by
  rw [saved, saved, payload, payload, dirtyPages_congr h, Vm.read_congr h]

theorem savedEntries_congr (h : vm'.mem = vm.mem) (ans : Nat → Answers) (uctx : Ucontext) (i : Nat)
    (regions : List VmRegion) :
    savedEntries pageSize ans vm' uctx i regions = savedEntries pageSize ans vm uctx i regions := by
  simp only [savedEntries, VmRegion.saved_congr h]

end Congr

section Writer
variable {pageSize : Nat} {mach : Mach} {ans : Nat → Answers} {uctx : Ucontext}
variable {i : Nat} {region : VmRegion} {regions regions' : List VmRegion} {s s' : Saving}

/-- A turn of the loop that writes a region, whatever entries come after it. -/
theorem writeEntries_region (hkeeps : mach.Keeps) (hp : 0 < pageSize) (hend : s.file.AtEnd)
    {entries : List CkptEntry}
    (h : writeEntries pageSize mach ans uctx i (.vmRegion :: entries) (region :: regions) s =
      (.ok, regions', s')) :
    ∃ t records, Wrote pageSize (ans i) region (region.record pageSize (ans i))
        (s.append CkptEntry.vmRegion.encode) t ∧
      regions' = region.record pageSize (ans i) :: records ∧
      writeEntries pageSize mach ans uctx (i + 1) entries regions t = (.ok, records, s') ∧
      ∀ entries', (writeEntries pageSize mach ans uctx i (.vmRegion :: entries') (region :: regions)
        s).2.2 = (writeEntries pageSize mach ans uctx (i + 1) entries' regions t).2.2 := by
  rw [writeEntries] at h
  simp only at h
  split at h
  · cases h
  · rename_i htag
    have htag := (Saving.writeall_fst_eq (CkptEntry.length_encode _)).mp (Decidable.not_not.mp htag)
    rw [Saving.writeall_all hend htag] at h
    split at h
    · rename_i record t hregion
      obtain ⟨hstatus, hr⟩ := Prod.mk.inj h
      obtain ⟨rfl, rfl⟩ := Prod.mk.inj hr
      have hwrote := writeVmRegion_ok hkeeps hp (File.atEnd_append _ _) hregion
      obtain rfl := hwrote.record
      refine ⟨t, _, hwrote, rfl, Prod.ext hstatus rfl, fun entries' => ?_⟩
      rw [writeEntries, Saving.writeall_all hend htag]
      simp only [CkptEntry.length_encode, ne_eq, not_true_eq_false, if_false, hregion]
    · rename_i hfailed _
      obtain ⟨rfl, -⟩ := Prod.mk.inj h
      exact absurd rfl hfailed

/-- The last turn writes the context. -/
theorem writeEntries_context (hend : s.file.AtEnd)
    (h : writeEntries pageSize mach ans uctx i (ckptEntries []) [] s = (.ok, regions', s')) :
    regions' = [] ∧ s' = s.append (CkptEntry.ucontext.encode ++ uctx.raw) := by
  rw [show ckptEntries [] = [.ucontext] from rfl, writeEntries] at h
  simp only at h
  split at h
  · cases h
  · rename_i htag
    have htag := (Saving.writeall_fst_eq (CkptEntry.length_encode _)).mp (Decidable.not_not.mp htag)
    rw [Saving.writeall_all hend htag] at h
    split at h
    · rename_i t hcontext
      simp only [writeContext] at hcontext
      split at hcontext
      · cases hcontext
      · rename_i hraw
        have hraw := (Saving.writeall_fst_eq uctx.length_raw).mp (Decidable.not_not.mp hraw)
        rw [Saving.writeall_all (File.atEnd_append _ _) hraw] at hcontext
        obtain ⟨-, rfl⟩ := Prod.mk.inj hcontext
        obtain ⟨-, hr⟩ := Prod.mk.inj h
        obtain ⟨rfl, rfl⟩ := Prod.mk.inj hr
        exact ⟨rfl, Saving.append_append _⟩
    · rename_i hfailed _
      obtain ⟨rfl, -⟩ := Prod.mk.inj h
      exact absurd rfl hfailed

/-- The offset is at the end after a region, when no page of it is written in part. -/
theorem Wrote.atEnd {ans : Answers} {region' : VmRegion}
    (h : Wrote pageSize ans region region' s s') (hnot : ¬ region.Torn pageSize ans) :
    s'.file.AtEnd := by
  rw [h.file hnot]
  exact File.atEnd_append _ _

/-- What `write_ckpt` leaves, from the region `i` on. -/
structure Entered (pageSize : Nat) (ans : Nat → Answers) (uctx : Ucontext) (i : Nat)
    (regions regions' : List VmRegion) (s s' : Saving) : Prop where
  mem : s'.vm.mem = s.vm.mem
  records : regions' = savedRecords pageSize ans i regions
  file : s'.file = s.file.append (savedEntries pageSize ans s.vm uctx i regions)
  queried : ∀ p ∈ regions.zipIdx i, p.1.byDirtyPages pageSize = true →
    ∃ vec, Queried pageSize (ans p.2) p.1 vec

/-- **The image** is what it should be, when no page is written in part. -/
theorem writeEntries_ok (hkeeps : mach.Keeps) (hp : 0 < pageSize) (hend : s.file.AtEnd)
    (hnot : ∀ p ∈ regions.zipIdx i, ¬ p.1.Torn pageSize (ans p.2))
    (h : writeEntries pageSize mach ans uctx i (ckptEntries regions) regions s =
      (.ok, regions', s')) :
    Entered pageSize ans uctx i regions regions' s s' := by
  induction regions generalizing i regions' s with
  | nil =>
      obtain ⟨rfl, rfl⟩ := writeEntries_context hend h
      exact ⟨rfl, rfl, rfl, fun p hp => absurd hp List.not_mem_nil⟩
  | cons region regions ih =>
      rw [List.zipIdx_cons, List.forall_mem_cons] at hnot
      rw [ckptEntries_cons] at h
      obtain ⟨t, records, hwrote, rfl, hrest, -⟩ := writeEntries_region hkeeps hp hend h
      have hentered := ih (hwrote.atEnd hnot.1) hnot.2 hrest
      have hmem : t.vm.mem = s.vm.mem := hwrote.mem
      constructor
      case mem => exact hentered.mem.trans hmem
      case records => rw [savedRecords_cons, hentered.records]
      case file =>
        rw [hentered.file, hwrote.file hnot.1, savedEntries_cons, savedEntries_congr hmem,
          Saving.file_append, File.append_append, File.append_append]
        rfl
      case queried =>
        rw [List.zipIdx_cons, List.forall_mem_cons]
        exact ⟨hwrote.queried, hentered.queried⟩

/-- Where all writes are complete every page is written. -/
theorem writeEntries_complete (hkeeps : mach.Keeps) (hp : 0 < pageSize) (hend : s.file.AtEnd)
    (h : writeEntries pageSize mach ans uctx i (ckptEntries regions) regions s =
      (.ok, regions', s'))
    (hshort : s'.short = false) :
    s.short = false ∧ ∀ p ∈ regions.zipIdx i, p.1.byDirtyPages pageSize = false →
      p.1.leading pageSize (ans p.2) = p.1.pages pageSize := by
  induction regions generalizing i regions' s with
  | nil =>
      obtain ⟨-, rfl⟩ := writeEntries_context hend h
      exact ⟨hshort, fun p hp => absurd hp List.not_mem_nil⟩
  | cons region regions ih =>
      rw [ckptEntries_cons] at h
      obtain ⟨t, records, hwrote, -, hrest, -⟩ := writeEntries_region hkeeps hp hend h
      have ht : t.short = false := by
        by_contra htrue
        have hlater : (writeEntries pageSize mach ans uctx (i + 1) (ckptEntries regions) regions
            t).2.2.short = true := short_writeEntries _ _ _ (Bool.eq_true_of_not_eq_false htrue)
        rw [hrest, hshort] at hlater
        cases hlater
      obtain ⟨hs, hleading⟩ := hwrote.short ht
      have hnot : ¬ region.Torn pageSize (ans i) := fun htorn =>
        absurd (hleading htorn.1) (Nat.ne_of_lt htorn.2.1)
      rw [List.zipIdx_cons, List.forall_mem_cons]
      exact ⟨hs, hleading, (ih (hwrote.atEnd hnot) hrest).2⟩

/-- After the header. -/
def headed (header : List UInt8) (vm : Vm) : Saving := ⟨vm, ⟨header, header.length⟩, false⟩

theorem atEnd_headed (header : List UInt8) (vm : Vm) : (headed header vm).file.AtEnd := rfl

/-- `write_ckpt` is its loop, after a header that is written as a whole. -/
theorem writeCkpt_eq {header : List UInt8} {k : Nat} (hk : header.length ≤ k)
    (entries : List CkptEntry) (vm : Vm) :
    writeCkpt pageSize mach ans uctx header k entries regions vm =
      writeEntries pageSize mach ans uctx 0 entries regions (headed header vm) := by
  have hstart : (⟨vm, ⟨[], 0⟩, false⟩ : Saving).file.AtEnd := rfl
  have hheader : (⟨vm, ⟨[], 0⟩, false⟩ : Saving).append header = headed header vm := by
    simp only [Saving.append, File.append, headed, List.nil_append, List.length_nil, Nat.zero_add]
  rw [writeCkpt, Saving.writeall_all hstart hk, hheader]
  simp only [ne_eq, not_true_eq_false, if_false]

theorem header_of_writeCkpt {header : List UInt8} {k : Nat} {entries : List CkptEntry} {vm : Vm}
    (h : writeCkpt pageSize mach ans uctx header k entries regions vm = (.ok, regions', s')) :
    header.length ≤ k := by
  unfold writeCkpt at h
  simp only at h
  split at h
  · cases h
  · rename_i hheader
    exact (Saving.writeall_fst_eq rfl).mp (Decidable.not_not.mp hheader)

/-! ## A checkpoint whose calls all succeed -/

/-- All calls for a region succeed. -/
structure Obliges (pageSize : Nat) (ans : Answers) (region : VmRegion) : Prop where
  record : VmRegion.bytes ≤ ans.record
  page : ∀ p, pageSize ≤ ans.page p
  seek : ∀ n, ans.lseek n = true
  queried : ∃ vec, Queried pageSize ans region vec
  offset : ∀ p, vmPageBytes ≤ ans.offset p
  body : ∀ p, pageSize ≤ ans.body p

theorem writeVmRegion_of_obliges {ans : Answers} (hkeeps : mach.Keeps) (hserves : mach.Serves)
    (hend : s.file.AtEnd) (h : Obliges pageSize ans region) :
    ∃ record t, writeVmRegion pageSize mach ans region s = (.ok, record, t) ∧ t.file.AtEnd ∧
      t.short = s.short := by
  rw [writeVmRegion_eq]
  split
  · obtain ⟨vec, hq⟩ := h.queried
    exact ⟨_, _, writeVmRegionDirty_of_body hend h.record h.offset hq.query hq.dvd hq.length hq.bound
      fun _ => h.body, File.atEnd_append _ _, rfl⟩
  · obtain ⟨t, ht⟩ := writeVmRegionFull_of_page region.wholly hkeeps hserves hend
      h.record h.page h.seek
    exact ⟨_, t, ht⟩

theorem writeEntries_of_obliges (hkeeps : mach.Keeps) (hserves : mach.Serves) (hend : s.file.AtEnd)
    (htag : ∀ j, CkptEntry.bytes ≤ (ans j).tag) (hcontext : ∀ j, Ucontext.bytes ≤ (ans j).context)
    (hregions : ∀ p ∈ regions.zipIdx i, Obliges pageSize (ans p.2) p.1) :
    ∃ records t, writeEntries pageSize mach ans uctx i (ckptEntries regions) regions s =
      (.ok, records, t) ∧ t.short = s.short := by
  have hwrite : ∀ (s : Saving) e j, s.file.AtEnd → s.writeall (CkptEntry.encode e) (ans j).tag =
      (CkptEntry.bytes, s.append e.encode) := fun s e j hend => by
    rw [Saving.writeall_all hend (by rw [CkptEntry.length_encode]; exact htag j),
      CkptEntry.length_encode]
  induction regions generalizing i s with
  | nil =>
      have hlen : uctx.raw.length = Ucontext.bytes := uctx.length_raw
      have hraw : (s.append CkptEntry.ucontext.encode).writeall uctx.raw (ans i).context = _ :=
        Saving.writeall_all (File.atEnd_append _ _) (hlen.symm ▸ hcontext i)
      refine ⟨[], (s.append CkptEntry.ucontext.encode).append uctx.raw, ?_, rfl⟩
      rw [show ckptEntries [] = [.ucontext] from rfl, writeEntries]
      simp only [hwrite s .ucontext i hend, ne_eq, not_true_eq_false, if_false, writeContext, hraw,
        hlen, writeEntries]
  | cons region regions ih =>
      rw [List.zipIdx_cons, List.forall_mem_cons] at hregions
      obtain ⟨record, t, hregion, ht, hshort⟩ :=
        writeVmRegion_of_obliges (s := s.append CkptEntry.vmRegion.encode) hkeeps hserves
          (File.atEnd_append _ _) hregions.1
      obtain ⟨records, u, hrest, hu⟩ := ih ht hregions.2
      refine ⟨record :: records, u, ?_, hu.trans hshort⟩
      rw [ckptEntries_cons, writeEntries]
      simp only [hwrite s .vmRegion i hend, ne_eq, not_true_eq_false, if_false, hregion, hrest]

/-- **A checkpoint whose calls all succeed** comes back with 0, with all writes complete. -/
theorem writeCkpt_of_obliges (hkeeps : mach.Keeps) (hserves : mach.Serves) {header : List UInt8}
    {k : Nat} (hk : header.length ≤ k) (vm : Vm)
    (htag : ∀ j, CkptEntry.bytes ≤ (ans j).tag) (hcontext : ∀ j, Ucontext.bytes ≤ (ans j).context)
    (hregions : ∀ p ∈ regions.zipIdx, Obliges pageSize (ans p.2) p.1) :
    ∃ records t, writeCkpt pageSize mach ans uctx header k (ckptEntries regions) regions vm =
      (.ok, records, t) ∧ t.short = false := by
  rw [writeCkpt_eq hk]
  exact writeEntries_of_obliges hkeeps hserves (atEnd_headed header vm) htag hcontext hregions

end Writer

end Xnd.Image
