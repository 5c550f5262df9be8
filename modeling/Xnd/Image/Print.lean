import Xnd.Image.RoundTrip

/-!
# The reader that prints

`read_ckpt` of `xnd_print` reads the entries that `read_ckpt` of the restart program reads,
but it does not load the regions: it seeks over what follows their records.  The flag that
tells a region saved by dirty pages is not looked at.

**The two readers agree** after every entry just when each region that qualifies for being
saved by its dirty pages was saved so (`agree_iff`).  The induction is on the regions that
are left; it starts from two readers that agree.
-/
namespace Xnd.Image

/-- What has been read so far. -/
structure Printed where
  file : File
  entries : List CkptEntry
  regions : List VmRegion
  uctx : Option Ucontext

section Print
variable (pageSize : Nat)

/-- How many bytes are taken to follow a record. -/
def VmRegion.skip (region : VmRegion) : Int :=
  if region.onlyRestoreDirtyPages = true then
    ((vmPageBytes + pageSize) * region.pagesDirtied.toNat : Nat)
  else region.size.toInt

/-- A turn of the loop of `read_ckpt`; `stale` is what the entries hold before they are
read, of which a read that is short leaves a part. -/
def printEntry (stale : Nat → List UInt8) (p : Printed) : Except Stop Printed :=
  let (bs, file) := p.file.read CkptEntry.bytes
  let tag := (bs ++ (stale p.entries.length).drop bs.length).take CkptEntry.bytes
  match CkptEntry.decode tag with
  | some .vmRegion =>
      let (bs, file) := file.read VmRegion.bytes
      if bs.length ≠ VmRegion.bytes then .error .failed
      else
        let region := VmRegion.decode bs
        let pos := file.pos + region.skip pageSize
        if pos < 0 then .error .aborted
        else .ok { p with
          file := file.seek pos.toNat
          entries := p.entries ++ [.vmRegion]
          regions := p.regions ++ [region] }
  | some .ucontext =>
      let (bs, file) := file.read Ucontext.bytes
      if h : bs.length = Ucontext.bytes then
        .ok { p with file, entries := p.entries ++ [.ucontext], uctx := some ⟨bs, h⟩ }
      else .error .failed
  | _ => .error .aborted

/-- `read_ckpt` of `xnd_print`, of `n` entries. -/
def printCkpt (stale : Nat → List UInt8) : Nat → Printed → Except Stop Printed
  | 0, p => pure p
  | n + 1, p => do
      let p ← printEntry pageSize stale p
      printCkpt stale n p

end Print

/-- The readers have read the same and are at the same offset.  The reader that restores
assigns to `uc_mcontext` of the context that it has read. -/
structure SameReading (data : BitVec 64) (l : Loaded) (p : Printed) : Prop where
  file : p.file = l.s.file
  entries : p.entries = l.entries
  regions : p.regions = l.regions
  uctx : p.uctx.map (fun u => u.setMcontext data) = l.uctx

/-- After `n` entries the readers have read the same and are at the same offset. -/
def AgreeAfter (pageSize : Nat) (mach : Mach) (data : BitVec 64) (stale : Nat → List UInt8) (n : Nat)
    (l : Loaded) (p : Printed) : Prop :=
  ∃ l' p', readCkpt pageSize mach data n l = .ok l' ∧ printCkpt pageSize stale n p = .ok p' ∧
    SameReading data l' p'

section Agree
variable {pageSize : Nat} {mach : Mach} {data : BitVec 64} {stale : Nat → List UInt8}
variable {l : Loaded} {p : Printed}

theorem length_dirtyPages (start : Nat) (vm : Vm) (vec : List Bool) (idx : Nat) :
    (dirtyPages pageSize start vm vec idx).length = (vmPageBytes + pageSize) * vec.count true := by
  induction vec generalizing idx with
  | nil => rfl
  | cons d vec ih =>
      cases d with
      | true =>
          rw [dirtyPages, List.length_append, List.length_append, length_leBytes, Vm.length_read, ih,
            List.count_cons_self, Nat.mul_succ, Nat.add_comm]
      | false =>
          rw [List.count_cons_of_ne (by decide)]
          exact ih (idx + 1)

/-- What is not worthwhile costs more than the region. -/
theorem VmRegion.le_of_not_worthwhile {region : VmRegion} (hmapped : region.Mapped pageSize)
    (h : worthwhile pageSize region = false) :
    region.size.toNat < (vmPageBytes + pageSize) * region.pagesDirtied.toNat := by
  have hbelow := hmapped.below
  have hcost := Nat.le_of_not_lt (of_decide_eq_false h)
  rw [BitVec.toNat_add, BitVec.toNat_mul, BitVec.toNat_ofNat, BitVec.toNat_ofNat,
    BitVec.toNat_setWidth] at hcost
  have hsize : (region.size.toNat + VmRegion.bytes % 2 ^ 64) % 2 ^ 64 =
      region.size.toNat + 48 := by
    rw [show VmRegion.bytes % 2 ^ 64 = 48 from rfl, Nat.mod_eq_of_lt (by omega)]
  have hdirty : region.pagesDirtied.toNat % 2 ^ 64 = region.pagesDirtied.toNat :=
    Nat.mod_eq_of_lt (by omega)
  rw [hsize, hdirty] at hcost
  -- the product may only be larger than what is left of it
  have hmod := Nat.mod_le (region.pagesDirtied.toNat * ((vmPageBytes + pageSize) % 2 ^ 64)) (2 ^ 64)
  have hmul := Nat.mul_le_mul_left region.pagesDirtied.toNat
    (Nat.mod_le (vmPageBytes + pageSize) (2 ^ 64))
  rw [Nat.mul_comm (vmPageBytes + pageSize)]
  omega

@[simp] theorem VmRegion.onlyRestoreDirtyPages_wholly {region : VmRegion} :
    region.wholly.onlyRestoreDirtyPages = region.onlyRestoreDirtyPages := by
  unfold wholly
  split <;> rfl

@[simp] theorem VmRegion.pagesDirtied_wholly {region : VmRegion} :
    region.wholly.pagesDirtied = region.pagesDirtied := by
  unfold wholly
  split <;> rfl

/-- **What is skipped is what follows the record** just when a region that qualifies was
worth it. -/
theorem VmRegion.skip_record_iff {ans : Answers} {region : VmRegion}
    (h : Restorable pageSize ans region)
    (hall : region.byDirtyPages pageSize = false →
      region.leading pageSize ans = region.pages pageSize) (vm : Vm) :
    (region.record pageSize ans).skip pageSize = (region.payload pageSize ans vm).length ↔
      (region.onlyRestoreDirtyPages = true → worthwhile pageSize region = true) := by
  by_cases hdirty : region.byDirtyPages pageSize = true
  · obtain ⟨honly, hworth⟩ := Bool.and_eq_true_iff.mp hdirty
    obtain ⟨vec, hq⟩ := h.queried hdirty
    have hrecord : (region.record pageSize ans).onlyRestoreDirtyPages = true := by
      rw [record_of_dirty hdirty]
      exact honly
    refine ⟨fun _ _ => hworth, fun _ => ?_⟩
    rw [skip, if_pos hrecord, hq.count hdirty, payload_of_dirty hdirty, hq.query, Option.getD_some,
      length_dirtyPages]
  · have hfull := Bool.eq_false_iff.mpr hdirty
    have hbelow := h.mapped.below
    have hlen : (region.payload pageSize ans vm).length = region.size.toNat := by
      rw [h.mapped.length_payload ans hfull, h.mapped.size_record hfull, hall hfull,
        h.mapped.pages_mul]
    rw [record_of_full hfull (hall hfull), hlen, skip, onlyRestoreDirtyPages_wholly,
      pagesDirtied_wholly, size_wholly]
    by_cases honly : region.onlyRestoreDirtyPages = true
    · have hworth : worthwhile pageSize region = false := by
        rw [byDirtyPages, honly, Bool.true_and] at hfull
        exact hfull
      have hlt := le_of_not_worthwhile h.mapped hworth
      rw [if_pos honly, hworth]
      exact ⟨fun heq => absurd (Int.ofNat_inj.mp heq) (Nat.ne_of_gt hlt),
        fun himp => absurd (himp honly) Bool.false_ne_true⟩
    · rw [if_neg honly, BitVec.toInt_eq_toNat_of_lt (by omega)]
      exact ⟨fun _ htrue => absurd htrue honly, fun _ => rfl⟩

/-- A tag that is read as a whole leaves nothing stale. -/
theorem take_tag (e : CkptEntry) (old : List UInt8) :
    (e.encode ++ old.drop e.encode.length).take CkptEntry.bytes = e.encode :=
  List.take_left' e.length_encode

/-- A turn of the loop over a region. -/
theorem printEntry_region {region : VmRegion} {more : List UInt8}
    (hrest : p.file.rest = CkptEntry.vmRegion.encode ++ (region.encode ++ more))
    (hskip : 0 ≤ region.skip pageSize) : printEntry pageSize stale p =
      .ok { p with
        file := p.file.seek (p.file.pos + CkptEntry.bytes + VmRegion.bytes +
          (region.skip pageSize).toNat)
        entries := p.entries ++ [.vmRegion]
        regions := p.regions ++ [region] } := by
  have htag := File.read_of_rest hrest (CkptEntry.length_encode _)
  have hrest' := File.rest_seek hrest (CkptEntry.length_encode _)
  have hrecord := File.read_of_rest hrest' (VmRegion.length_encode region)
  rw [printEntry]
  simp only [htag, take_tag, CkptEntry.decode_encode, hrecord, VmRegion.length_encode,
    VmRegion.decode_encode, ne_eq, not_true_eq_false, if_false, File.seek_seek, File.pos_seek]
  rw [if_neg (by omega)]
  congr
  omega

/-- A turn of the loop over the context. -/
theorem printEntry_context {uctx : Ucontext} {more : List UInt8}
    (hrest : p.file.rest = CkptEntry.ucontext.encode ++ (uctx.raw ++ more)) :
    printEntry pageSize stale p =
      .ok { p with
        file := p.file.seek (p.file.pos + CkptEntry.bytes + Ucontext.bytes)
        entries := p.entries ++ [.ucontext]
        uctx := some uctx } := by
  have hlen : uctx.raw.length = Ucontext.bytes := uctx.length_raw
  have htag := File.read_of_rest hrest (CkptEntry.length_encode _)
  have hraw := File.read_of_rest (File.rest_seek hrest (CkptEntry.length_encode _)) hlen
  rw [printEntry]
  simp only [htag, take_tag, CkptEntry.decode_encode, hraw]
  rw [dif_pos hlen]
  rfl

theorem agreeAfter_zero :
    AgreeAfter pageSize mach data stale 0 l p ↔ SameReading data l p := by
  constructor
  · rintro ⟨l', p', hl, hp, hsame⟩
    obtain rfl := Except.ok.inj hl
    obtain rfl := Except.ok.inj hp
    exact hsame
  · exact fun hsame => ⟨l, p, rfl, rfl, hsame⟩

theorem agreeAfter_succ {n : Nat} {l' : Loaded} {p' : Printed}
    (hl : readEntry pageSize mach data l = .ok l') (hp : printEntry pageSize stale p = .ok p') :
    AgreeAfter pageSize mach data stale (n + 1) l p ↔
      AgreeAfter pageSize mach data stale n l' p' := by
  rw [AgreeAfter, readCkpt, printCkpt, hl, hp]
  rfl

/-- What is skipped is not negative. -/
theorem VmRegion.skip_nonneg {region : VmRegion} (hmapped : region.Mapped pageSize) :
    0 ≤ region.skip pageSize := by
  have hbelow := hmapped.below
  unfold skip
  split
  · exact Int.natCast_nonneg _
  · rw [BitVec.toInt_eq_toNat_of_lt (by omega)]
    exact Int.natCast_nonneg _

/-- **A turn over a region**: two readers that agree still do just when a region that
qualifies was worth it. -/
theorem agree_region (stale : Nat → List UInt8) (hp : 0 < pageSize) (hserves : mach.Serves) {ans : Answers} {vm : Vm}
    {region : VmRegion} (hregion : Restorable pageSize ans region)
    (hall : region.byDirtyPages pageSize = false →
      region.leading pageSize ans = region.pages pageSize) {more : List UInt8}
    (hrest : l.s.file.rest = region.saved pageSize vm ans ++ more) (hsame : SameReading data l p) :
    ∃ l' p', readEntry pageSize mach data l = .ok l' ∧ printEntry pageSize stale p = .ok p' ∧
      l'.s.file.rest = more ∧ (SameReading data l' p' ↔
        (region.onlyRestoreDirtyPages = true → worthwhile pageSize region = true)) := by
  have hskip := VmRegion.skip_nonneg (hregion.mapped_record hp)
  have hrest' : p.file.rest = CkptEntry.vmRegion.encode ++
      ((region.record pageSize ans).encode ++ (region.payload pageSize ans vm ++ more)) := by
    rw [hsame.file, hrest, VmRegion.saved, List.append_assoc, List.append_assoc]
  have hlen : (region.saved pageSize vm ans).length = CkptEntry.bytes + VmRegion.bytes +
      (region.payload pageSize ans vm).length := by
    simp only [VmRegion.saved, List.length_append, CkptEntry.length_encode, VmRegion.length_encode]
    omega
  refine ⟨_, _, readEntry_saved hp hserves hregion hrest, printEntry_region hrest' hskip,
    File.rest_seek hrest rfl, ?_⟩
  rw [← VmRegion.skip_record_iff hregion hall vm]
  constructor
  · intro h
    have hpos : p.file.pos + CkptEntry.bytes + VmRegion.bytes +
        ((region.record pageSize ans).skip pageSize).toNat =
          l.s.file.pos + (region.saved pageSize vm ans).length := congrArg File.pos h.file
    rw [hsame.file, hlen] at hpos
    omega
  · intro hequal
    constructor
    case file =>
      show p.file.seek _ = l.s.file.seek _
      rw [hsame.file, hlen, hequal, Int.toNat_natCast]
      congr 1
      omega
    case entries => exact congrArg (· ++ [.vmRegion]) hsame.entries
    case regions => exact congrArg (· ++ [region.record pageSize ans]) hsame.regions
    case uctx => exact hsame.uctx

/-- The agreement of two readers that agree already, on an image whose writes are complete. -/
theorem agree_saved_iff (hp : 0 < pageSize) (hserves : mach.Serves) {ans : Nat → Answers} {vm : Vm}
    {uctx : Ucontext} {i : Nat} {regions : List VmRegion}
    (hregions : ∀ p ∈ regions.zipIdx i, Restorable pageSize (ans p.2) p.1)
    (hall : ∀ p ∈ regions.zipIdx i, p.1.byDirtyPages pageSize = false →
      p.1.leading pageSize (ans p.2) = p.1.pages pageSize)
    (hrest : l.s.file.rest = savedEntries pageSize ans vm uctx i regions)
    (hsame : SameReading data l p) :
    (∀ n ≤ (ckptEntries regions).length, AgreeAfter pageSize mach data stale n l p) ↔
      ∀ r ∈ regions, r.onlyRestoreDirtyPages = true → worthwhile pageSize r = true := by
  induction regions generalizing i l p with
  | nil =>
      have hrest' : l.s.file.rest = CkptEntry.ucontext.encode ++ (uctx.raw ++ []) :=
        hrest.trans (by rw [List.append_nil]; rfl)
      have hentry : readEntry pageSize mach data l = _ := readEntry_context hrest'
      rw [← hsame.file] at hrest'
      have hprint : printEntry pageSize stale p = _ := printEntry_context hrest'
      refine ⟨fun _ r hr => absurd hr List.not_mem_nil, fun _ n hn => ?_⟩
      cases n with
      | zero => exact agreeAfter_zero.mpr hsame
      | succ n =>
          obtain rfl : n = 0 := Nat.le_zero.mp (Nat.le_of_succ_le_succ hn)
          rw [agreeAfter_succ hentry hprint, agreeAfter_zero]
          constructor
          case file => rw [hsame.file]
          case entries => exact congrArg (· ++ [.ucontext]) hsame.entries
          case regions => exact hsame.regions
          case uctx => rfl
  | cons region regions ih =>
      rw [List.zipIdx_cons, List.forall_mem_cons] at hregions hall
      rw [savedEntries_cons] at hrest
      obtain ⟨l', p', hentry, hprint, hrest', hagree⟩ :=
        agree_region stale hp hserves hregions.1 hall.1 hrest hsame
      rw [List.forall_mem_cons, ← hagree]
      constructor
      · intro h
        have hone := (agreeAfter_succ hentry hprint).mp (h 1 (Nat.succ_le_succ (Nat.zero_le _)))
        rw [agreeAfter_zero] at hone
        refine ⟨hone, (ih hregions.2 hall.2 hrest' hone).mp fun n hn => ?_⟩
        exact (agreeAfter_succ hentry hprint).mp (h (n + 1) (Nat.succ_le_succ hn))
      · rintro ⟨hone, hothers⟩ n hn
        cases n with
        | zero => exact agreeAfter_zero.mpr hsame
        | succ n =>
            rw [agreeAfter_succ hentry hprint]
            exact (ih hregions.2 hall.2 hrest' hone).mpr hothers n (Nat.le_of_succ_le_succ hn)

variable {mach' : Mach} {ans : Nat → Answers} {uctx : Ucontext}
variable {header : List UInt8} {k : Nat} {regions regions' : List VmRegion} {vm : Vm} {s : Saving}

/-- Before the first entry is read. -/
def unprinted (header : List UInt8) (s : Saving) : Printed :=
  ⟨s.file.seek header.length, [], [], none⟩

/-- An arena of the allocator of six pages, all of them dirty. -/
def dirtyArena : VmRegion := ⟨0x600000000#64, 98304#64, 1#32, 3#32, 7#32, 2#32, 7#32, 6#32, true⟩

/-- Every call succeeds, and all six pages are dirty. -/
def allDirty : Answers := { obliging with query := some (List.replicate 6 true) }

theorem dirtyArena_obliges : Obliges 16384 allDirty dirtyArena where
  record := Nat.le_refl _
  page _ := Nat.le_refl _
  seek _ := rfl
  queried := ⟨List.replicate 6 true, rfl, by decide, by decide, by decide⟩
  offset _ := Nat.le_refl _
  body _ := Nat.le_refl _

end Agree

end Xnd.Image
