import Xnd.Image.Write

/-!
# What is written

The spec of the writer, function by function.  A region that is saved by dirty pages is
written as a whole or not at all (`writeVmRegionDirty_ok`).  A region that is saved in
full comes back with 0 in three ways (`writeVmRegionFull_ok`): all its pages are written,
or a page is refused and the record says so, or a page is written in part.
-/
namespace Xnd.Image

namespace Vm
variable (vm : Vm)

theorem read_add (a m n : Nat) : vm.read a (m + n) = vm.read a m ++ vm.read (a + m) n := by
  simp only [read, List.range_add, List.map_append, List.map_map]
  congr 1
  refine List.map_congr_left fun k _ => ?_
  show vm.mem (a + (m + k)) = vm.mem (a + m + k)
  rw [Nat.add_assoc]

theorem read_zero (a : Nat) : vm.read a 0 = [] := rfl

theorem read_congr {vm vm' : Vm} (h : vm'.mem = vm.mem) (a n : Nat) : vm'.read a n = vm.read a n := by
  simp only [read, h]

end Vm

namespace Saving
variable {s : Saving} {bs : List UInt8} {k : Nat}

/-- The image goes on. -/
def append (s : Saving) (bs : List UInt8) : Saving := { s with file := s.file.append bs }

@[simp] theorem vm_append : (s.append bs).vm = s.vm := rfl

@[simp] theorem short_append : (s.append bs).short = s.short := rfl

@[simp] theorem file_append : (s.append bs).file = s.file.append bs := rfl

@[simp] theorem append_append (cs : List UInt8) : (s.append bs).append cs = s.append (bs ++ cs) := by
  simp [append]

/-- A write that transfers all its bytes. -/
theorem writeall_all (hend : s.file.AtEnd) (hk : bs.length ≤ k) :
    s.writeall bs k = (bs.length, s.append bs) := by
  have hnot : decide (k < bs.length) = false := decide_eq_false (by omega)
  rw [writeall, List.take_of_length_le hk, Nat.min_eq_right hk, hnot, Bool.or_false, hend.write]
  rfl

/-- The number of bytes tells whether all were transferred. -/
theorem writeall_fst_eq {n : Nat} (hn : bs.length = n) : (s.writeall bs k).1 = n ↔ bs.length ≤ k := by
  show min k bs.length = n ↔ _
  omega

@[simp] theorem vm_writeall : (s.writeall bs k).2.vm = s.vm := rfl

end Saving

section Pages
variable {pageSize : Nat} {ans : Answers} {region : VmRegion}

/-- The leading pages that are written as a whole, out of `n`. -/
def leadingPages (pageSize : Nat) (page : Nat → Nat) : Nat → Nat → Nat
  | _, 0 => 0
  | p, n + 1 => if pageSize ≤ page p then leadingPages pageSize page (p + 1) n + 1 else 0

theorem leadingPages_le (page : Nat → Nat) (p n : Nat) : leadingPages pageSize page p n ≤ n := by
  induction n generalizing p with
  | zero => exact Nat.le_refl 0
  | succ n ih =>
      have := ih (p + 1)
      rw [leadingPages]
      split <;> omega

/-- The leading pages are written as a whole. -/
theorem leadingPages_whole (page : Nat → Nat) (p n : Nat) :
    ∀ j < leadingPages pageSize page p n, pageSize ≤ page (p + j) := by
  induction n generalizing p with
  | zero => exact fun j hj => absurd hj (Nat.not_lt_zero j)
  | succ n ih =>
      intro j hj
      rw [leadingPages] at hj
      split at hj
      · cases j with
        | zero => assumption
        | succ j =>
            have := ih (p + 1) j (by omega)
            rwa [Nat.add_assoc, Nat.add_comm 1 j] at this
      · omega

/-- The page after them is not. -/
theorem leadingPages_stop (page : Nat → Nat) (p n : Nat) (h : leadingPages pageSize page p n < n) :
    page (p + leadingPages pageSize page p n) < pageSize := by
  induction n generalizing p with
  | zero => omega
  | succ n ih =>
      rw [leadingPages] at h ⊢
      split
      · rw [if_pos ‹_›] at h
        have := ih (p + 1) (by omega)
        rwa [Nat.add_assoc, Nat.add_comm 1] at this
      · rw [Nat.add_zero]
        omega

/-- The image after pages of the region. -/
def Saving.appendPages (pageSize : Nat) (region : VmRegion) (p n : Nat) (s : Saving) : Saving :=
  s.append (s.vm.read (region.start.toNat + p * pageSize) (n * pageSize))

theorem Saving.appendPages_zero (p : Nat) {s : Saving} (hend : s.file.AtEnd) :
    s.appendPages pageSize region p 0 = s := by
  rw [appendPages, Nat.zero_mul, Vm.read_zero, append, hend.append_nil]

theorem Saving.appendPages_succ (p n : Nat) (s : Saving) :
    (s.appendPages pageSize region p 1).appendPages pageSize region (p + 1) n =
      s.appendPages pageSize region p (n + 1) := by
  rw [appendPages, appendPages, appendPages, append_append, vm_append, Nat.one_mul,
    Nat.add_mul n 1, Nat.one_mul, Nat.add_comm (n * pageSize), Vm.read_add, Nat.add_mul p 1,
    Nat.one_mul, Nat.add_assoc]

/-- **Pages that are written as a whole** are appended. -/
theorem writePages_leading (p m n : Nat) {s : Saving} (hend : s.file.AtEnd)
    (hpages : ∀ j < m, pageSize ≤ ans.page (p + j)) :
    writePages pageSize ans region p (m + n) s.file.pos s =
      writePages pageSize ans region (p + m) n (s.appendPages pageSize region p m).file.pos
        (s.appendPages pageSize region p m) := by
  induction m generalizing p s with
  | zero => rw [Saving.appendPages_zero p hend, Nat.zero_add, Nat.add_zero]
  | succ m ih =>
      have hlen := Vm.length_read s.vm (region.start.toNat + p * pageSize) pageSize
      have hwrite := Saving.writeall_all (k := ans.page p) hend (hlen.symm ▸ hpages 0 (by omega))
      have hone : s.append (s.vm.read (region.start.toNat + p * pageSize) pageSize) =
          s.appendPages pageSize region p 1 := by
        rw [Saving.appendPages, Nat.one_mul]
      have hpos : (s.appendPages pageSize region p 1).file.pos = s.file.pos + pageSize := by
        rw [← hone, Saving.file_append, hend.pos_append, hlen]
      have hnext := ih (p + 1) (s := s.appendPages pageSize region p 1) (File.atEnd_append _ _)
        fun j hj => by
          have := hpages (j + 1) (by omega)
          rwa [Nat.add_assoc, Nat.add_comm 1 j]
      rw [Saving.appendPages_succ, hpos, Nat.add_assoc, Nat.add_comm 1 m] at hnext
      rw [show m + 1 + n = (m + n) + 1 by omega, writePages]
      simp only [hwrite, hlen, ne_eq, not_true_eq_false, if_false, hone]
      exact hnext

/-- A page that is refused ends the loop. -/
theorem writePages_refused (p n seek : Nat) {s : Saving} (hend : s.file.AtEnd) (hp : 0 < pageSize)
    (hpage : ans.page p = 0) :
    writePages pageSize ans region p (n + 1) seek s = some (p, { s with short := true }) := by
  have hlen := Vm.length_read s.vm (region.start.toNat + p * pageSize) pageSize
  have hwrite : s.writeall (s.vm.read (region.start.toNat + p * pageSize) pageSize) (ans.page p) =
      (0, { s with short := true }) := by
    rw [hpage, Saving.writeall, Nat.zero_min, List.take_zero, hlen, decide_eq_true hp,
      Bool.or_true, File.write_nil _ (Nat.le_of_eq hend)]
  rw [writePages]
  simp only [hwrite]
  rw [if_pos (by omega), if_neg (by omega)]

/-- A page that is written in part ends it as well, with the offset moved back. -/
theorem writePages_part (p n seek : Nat) {s : Saving} (hpage : ans.page p < pageSize)
    (hpos : ans.page p ≠ 0) {q : Nat} {s' : Saving}
    (h : writePages pageSize ans region p (n + 1) seek s = some (q, s')) :
    q = p ∧ ans.page p ≤ seek ∧ s'.file.pos = seek - ans.page p ∧ s'.vm = s.vm ∧ s'.short = true := by
  have hlen := Vm.length_read s.vm (region.start.toNat + p * pageSize) pageSize
  have hbytes : (s.writeall (s.vm.read (region.start.toNat + p * pageSize) pageSize)
      (ans.page p)).1 = ans.page p := by
    show min (ans.page p) _ = _
    omega
  have hshort : (s.writeall (s.vm.read (region.start.toNat + p * pageSize) pageSize)
      (ans.page p)).2.short = true := by
    show (s.short || decide _) = true
    rw [decide_eq_true (hlen.symm ▸ hpage), Bool.or_true]
  rw [writePages] at h
  simp only [hbytes] at h
  rw [if_pos (by omega), if_pos hpos] at h
  split at h
  · obtain ⟨rfl, rfl⟩ := Prod.mk.inj (Option.some.inj h)
    exact ⟨rfl, ‹_ ∧ _›.2, rfl, rfl, hshort⟩
  · cases h

end Pages

section Full
variable {pageSize : Nat} {mach : Mach} {ans : Answers} {region region' : VmRegion} {s s' : Saving}

theorem restoreProtection_keeps (hkeeps : mach.Keeps) (region : VmRegion) (readProtect : Bool)
    (s : Saving) :
    (restoreProtection mach region readProtect s).file = s.file ∧
      (restoreProtection mach region readProtect s).short = s.short ∧
      (restoreProtection mach region readProtect s).vm.mem = s.vm.mem := by
  unfold restoreProtection
  split
  · split
    · exact ⟨rfl, rfl, rfl⟩
    · exact ⟨rfl, rfl, hkeeps.protect ‹_›⟩
  · exact ⟨rfl, rfl, rfl⟩

/-- The pages of a region that is saved in full. -/
theorem writeVmRegionAllPages_ok (hp : 0 < pageSize) (hend : s.file.AtEnd) {pages : Nat}
    (h : writeVmRegionAllPages pageSize ans region s = some (pages, s')) :
    let n := region.size.toNat / pageSize
    let k := leadingPages pageSize ans.page 0 n
    pages = k ∧ s'.vm = s.vm ∧
      ((k = n ∧ s' = s.appendPages pageSize region 0 k) ∨
        (k < n ∧ ans.page k = 0 ∧ s' = { s.appendPages pageSize region 0 k with short := true }) ∨
        (k < n ∧ ans.page k ≠ 0 ∧ ans.page k < pageSize ∧ s'.short = true ∧
          ans.page k ≤ s.file.pos + k * pageSize ∧
          s'.file.pos = s.file.pos + k * pageSize - ans.page k)) := by
  intro n k
  have hpos : (s.appendPages pageSize region 0 k).file.pos = s.file.pos + k * pageSize := by
    rw [Saving.appendPages, Saving.file_append, hend.pos_append, Vm.length_read]
  have hwhole : ∀ j < k, pageSize ≤ ans.page (0 + j) := leadingPages_whole ans.page 0 n
  unfold writeVmRegionAllPages at h
  split at h
  · rcases Nat.lt_or_ge k n with hlt | hge
    · obtain ⟨m, hm⟩ : ∃ m, n = k + (m + 1) := ⟨n - k - 1, by omega⟩
      have hstop : ans.page k < pageSize := by
        have : ans.page (0 + k) < pageSize := leadingPages_stop ans.page 0 n hlt
        rwa [Nat.zero_add] at this
      rw [show region.size.toNat / pageSize = k + (m + 1) from hm,
        writePages_leading 0 k (m + 1) hend hwhole, Nat.zero_add] at h
      by_cases hzero : ans.page k = 0
      · rw [writePages_refused k m _ (File.atEnd_append _ _) hp hzero] at h
        obtain ⟨rfl, rfl⟩ := Prod.mk.inj (Option.some.inj h)
        exact ⟨rfl, rfl, .inr (.inl ⟨hlt, hzero, rfl⟩)⟩
      · obtain ⟨hq, hle, hat, hvm, hshort⟩ := writePages_part k m _ hstop hzero h
        rw [hpos] at hle hat
        exact ⟨hq, hvm, .inr (.inr ⟨hlt, hzero, hstop, hshort, hle, hat⟩)⟩
    · have hk : k = n := Nat.le_antisymm (leadingPages_le ans.page 0 n) hge
      rw [show region.size.toNat / pageSize = k + 0 by omega,
        writePages_leading 0 k 0 hend hwhole] at h
      obtain ⟨hq, rfl⟩ := Prod.mk.inj (Option.some.inj h)
      exact ⟨by omega, rfl, .inl ⟨hk, rfl⟩⟩
  · cases h

/-- The record is written once more. -/
theorem correctSize_ok {before pages : Nat}
    (h : correctSize pageSize ans region before pages s = (.ok, region', s')) :
    let shrunk : VmRegion := { region with size := .ofNat 64 (pages * pageSize) }
    region' = shrunk ∧ s'.vm = s.vm ∧ (s.short = true → s'.short = true) ∧
      s'.file = ((s.file.seek before).write shrunk.encode).seek s.file.pos := by
  intro shrunk
  unfold correctSize at h
  split at h
  · cases h
  · split at h
    · cases h
    · simp only at h
      split at h
      · cases h
      · rename_i hall
        split at h
        · cases h
        · have hrewrite : shrunk.encode.length ≤ ans.rewrite := by
            refine (Saving.writeall_fst_eq (s := s.seek before) (VmRegion.length_encode shrunk)).mp ?_
            by_contra hne
            exact hall hne
          obtain ⟨-, hr⟩ := Prod.mk.inj h
          obtain ⟨rfl, rfl⟩ := Prod.mk.inj hr
          refine ⟨rfl, rfl, fun hshort => ?_, ?_⟩
          · show (s.short || _) = true
            rw [hshort, Bool.true_or]
          · show ((s.file.seek before).write (shrunk.encode.take ans.rewrite)).seek s.file.pos = _
            rw [List.take_of_length_le hrewrite]

/-- **A region that is saved in full**: all its pages are written; or a page is refused,
and the record has the size of the pages before it; or a page is written in part, and the
image goes on before the end of what was written. -/
theorem writeVmRegionFull_ok (hkeeps : mach.Keeps) (hp : 0 < pageSize) (hend : s.file.AtEnd)
    (h : writeVmRegionFull pageSize mach ans region s = (.ok, region', s')) :
    let n := region.size.toNat / pageSize
    let k := leadingPages pageSize ans.page 0 n
    let shrunk : VmRegion := { region with size := .ofNat 64 (k * pageSize) }
    s'.vm.mem = s.vm.mem ∧
      ((k = n ∧ region' = region ∧ s'.short = s.short ∧
          s'.file = s.file.append (region.encode ++ s.vm.read region.start.toNat (n * pageSize))) ∨
        (k < n ∧ ans.page k = 0 ∧ region' = shrunk ∧ s'.short = true ∧
          s'.file = s.file.append (shrunk.encode ++ s.vm.read region.start.toNat (k * pageSize))) ∨
        (k < n ∧ ans.page k ≠ 0 ∧ ans.page k < pageSize ∧ region' = shrunk ∧ s'.short = true ∧
          ans.page k ≤ s.file.pos + VmRegion.bytes + k * pageSize ∧
          s'.file.pos = s.file.pos + VmRegion.bytes + k * pageSize - ans.page k)) := by
  intro n k shrunk
  unfold writeVmRegionFull at h
  split at h
  · cases h
  · simp only at h
    split at h
    · cases h
    · have hrecord : (s.writeall region.encode ans.record).1 = VmRegion.bytes := by
        by_contra hne
        exact ‹¬ (s.writeall region.encode ans.record).1 ≠ VmRegion.bytes› hne
      rw [Saving.writeall_fst_eq region.length_encode] at hrecord
      rw [Saving.writeall_all hend hrecord] at h
      split at h
      · cases h
      · rename_i vm hgranted
        have hmem : vm.mem = s.vm.mem := by
          split at hgranted
          · exact hkeeps.protect hgranted
          · rw [← Option.some.inj hgranted]
            rfl
        split at h
        · cases h
        · rename_i pages t hpages
          obtain ⟨rfl, hvm, hcases⟩ := writeVmRegionAllPages_ok hp (File.atEnd_append _ _) hpages
          -- the image after the record and the leading pages
          have happend : (Saving.appendPages pageSize region 0 k
              ⟨vm, s.file.append region.encode, s.short⟩).file =
              s.file.append (region.encode ++ s.vm.read region.start.toNat (k * pageSize)) := by
            rw [Saving.appendPages, Saving.file_append, File.append_append, Nat.zero_mul, Nat.add_zero,
              Vm.read_congr hmem]
          split at h
          · rename_i hall
            obtain ⟨-, hr⟩ := Prod.mk.inj h
            obtain ⟨rfl, rfl⟩ := Prod.mk.inj hr
            obtain ⟨hfile, hshort, hvm'⟩ := restoreProtection_keeps hkeeps region
              (region.prot &&& vmProtRead == 0) t
            rw [hvm] at hvm'
            rcases hcases with ⟨-, rfl⟩ | ⟨hlt, -⟩ | ⟨hlt, -⟩
            · refine ⟨hvm'.trans hmem, .inl ⟨hall, rfl, hshort, hfile.trans ?_⟩⟩
              refine happend.trans ?_
              rw [show k = n from hall]
            · omega
            · omega
          · rename_i hnot
            have hlt : k < n := lt_of_le_of_ne (leadingPages_le ans.page 0 n) hnot
            split at h
            · rename_i shrunk' u hcorrect
              obtain ⟨-, hr⟩ := Prod.mk.inj h
              obtain ⟨rfl, rfl⟩ := Prod.mk.inj hr
              obtain ⟨rfl, hvmu, hshortu, hfileu⟩ := correctSize_ok hcorrect
              obtain ⟨hfile, hshort, hvm'⟩ := restoreProtection_keeps hkeeps
                { region with size := .ofNat 64 (k * pageSize) }
                (region.prot &&& vmProtRead == 0) u
              rw [hvmu, hvm] at hvm'
              refine ⟨hvm'.trans hmem, .inr ?_⟩
              rcases hcases with ⟨hall, -⟩ | ⟨-, hzero, rfl⟩ | ⟨-, hne, hpart, hshortt, hle, hpos⟩
              · exact absurd hall hnot
              · refine .inl ⟨hlt, hzero, rfl, hshort.trans (hshortu rfl), hfile.trans ?_⟩
                rw [hfileu]
                show ((((Saving.appendPages pageSize region 0 k
                    ⟨vm, s.file.append region.encode, s.short⟩).file).seek s.file.pos).write _).seek
                  (Saving.appendPages pageSize region 0 k
                    ⟨vm, s.file.append region.encode, s.short⟩).file.pos = _
                rw [happend]
                exact hend.rewrite _ rfl
              · refine .inr ⟨hlt, hne, hpart, rfl, hshort.trans (hshortu hshortt), ?_, ?_⟩
                · rw [← region.length_encode, ← hend.pos_append]
                  exact hle
                · rw [hfile, hfileu, ← region.length_encode, ← hend.pos_append]
                  exact hpos
            · rename_i hfailed
              exact absurd h (hfailed _ _)

/-- A region that is saved in full comes out, when all calls succeed. -/
theorem writeVmRegionFull_of_page (region : VmRegion) (hkeeps : mach.Keeps) (hserves : mach.Serves)
    (hend : s.file.AtEnd) (hrecord : VmRegion.bytes ≤ ans.record) (hpage : ∀ p, pageSize ≤ ans.page p)
    (hseek : ∀ n, ans.lseek n = true) :
    ∃ t, writeVmRegionFull pageSize mach ans region s = (.ok, region, t) ∧ t.file.AtEnd ∧
      t.short = s.short := by
  have hwrite : s.writeall region.encode ans.record = _ :=
    Saving.writeall_all hend (by rw [VmRegion.length_encode]; exact hrecord)
  have hpages : ∀ vm, writeVmRegionAllPages pageSize ans region
      ⟨vm, s.file.append region.encode, s.short⟩ = some (region.size.toNat / pageSize,
        Saving.appendPages pageSize region 0 (region.size.toNat / pageSize)
          ⟨vm, s.file.append region.encode, s.short⟩) := fun vm => by
    have hleading : writePages pageSize ans region 0 (region.size.toNat / pageSize + 0) _
        ⟨vm, s.file.append region.encode, s.short⟩ = _ :=
      writePages_leading 0 (region.size.toNat / pageSize) 0 (File.atEnd_append _ _)
        fun j _ => hpage _
    rw [Nat.add_zero, Nat.zero_add] at hleading
    rw [writeVmRegionAllPages, if_pos (hseek 1)]
    exact hleading
  obtain ⟨vm, hgranted⟩ : ∃ vm, (if (region.prot &&& vmProtRead == 0) = true then
      mach.protect s.vm region.start.toNat region.size.toNat false (region.prot ||| vmProtRead)
    else some s.vm) = some vm := by
    split
    · exact ⟨_, hserves.protect _ _ _ _⟩
    · exact ⟨_, rfl⟩
  refine ⟨restoreProtection mach region (region.prot &&& vmProtRead == 0)
    (Saving.appendPages pageSize region 0 (region.size.toNat / pageSize)
      ⟨vm, s.file.append region.encode, s.short⟩), ?_, ?_, ?_⟩
  · rw [writeVmRegionFull, if_neg (by rw [hseek 0]; exact nofun)]
    simp only [hwrite, VmRegion.length_encode, ne_eq, not_true_eq_false, if_false, Saving.vm_append,
      hgranted, Saving.file_append, Saving.short_append, hpages, if_true]
  · rw [(restoreProtection_keeps hkeeps _ _ _).1]
    exact File.atEnd_append _ _
  · exact (restoreProtection_keeps hkeeps _ _ _).2.1

end Full

section Dirty
variable {pageSize : Nat} {ans : Answers} {region region' : VmRegion} {s s' : Saving}

/-- The dirty pages of a region as they are written, from the page `idx` on. -/
def dirtyPages (pageSize start : Nat) (vm : Vm) : List Bool → Nat → List UInt8
  | [], _ => []
  | true :: vec, idx =>
      leBytes vmPageBytes (idx * pageSize) ++ vm.read (start + idx * pageSize) pageSize ++
        dirtyPages pageSize start vm vec (idx + 1)
  | false :: vec, idx => dirtyPages pageSize start vm vec (idx + 1)

theorem dirtyPages_of_count {start : Nat} {vm : Vm} {vec : List Bool} (h : vec.count true = 0)
    (idx : Nat) : dirtyPages pageSize start vm vec idx = [] := by
  induction vec generalizing idx with
  | nil => rfl
  | cons d vec ih =>
      cases d with
      | true => simp at h
      | false => exact ih (by simpa using h) (idx + 1)

/-- A page comes with its offset, or not at all. -/
theorem writeVmPage_ok {idx : Nat} (hend : s.file.AtEnd)
    (h : writeVmPage pageSize ans region idx s = (.ok, s')) :
    s' = s.append (leBytes vmPageBytes (idx * pageSize) ++
      s.vm.read (region.start.toNat + idx * pageSize) pageSize) := by
  unfold writeVmPage at h
  simp only at h
  split at h
  · cases h
  · rename_i hoffset
    have hoffset := (Saving.writeall_fst_eq (length_leBytes _ _)).mp (Decidable.not_not.mp hoffset)
    rw [Saving.writeall_all hend hoffset] at h
    split at h
    · cases h
    · rename_i hbody
      have hbody := (Saving.writeall_fst_eq (Vm.length_read _ _ _)).mp (Decidable.not_not.mp hbody)
      rw [Saving.writeall_all (File.atEnd_append _ _) hbody] at h
      obtain ⟨-, rfl⟩ := Prod.mk.inj h
      exact Saving.append_append _

/-- **The dirty pages** are written from the first to the last. -/
theorem writeDirtyPages_ok {dirty : Nat} {vec : List Bool} {idx pg : Nat} (hend : s.file.AtEnd)
    (hcount : pg + vec.count true = dirty)
    (h : writeDirtyPages pageSize ans region dirty vec idx pg s = (.ok, s')) :
    s' = s.append (dirtyPages pageSize region.start.toNat s.vm vec idx) := by
  induction vec generalizing idx pg s with
  | nil =>
      rw [writeDirtyPages] at h
      split at h
      · obtain ⟨-, rfl⟩ := Prod.mk.inj h
        rw [dirtyPages, Saving.append, hend.append_nil]
      · cases h
  | cons d vec ih =>
      rw [writeDirtyPages] at h
      split at h
      · -- all of them are written, so that none is left
        have hnone : (d :: vec).count true = 0 := by omega
        split at h
        · obtain ⟨-, rfl⟩ := Prod.mk.inj h
          rw [dirtyPages_of_count hnone, Saving.append, hend.append_nil]
        · cases h
      · cases d with
        | true =>
            simp only [if_true] at h
            split at h
            · rename_i t hpage
              obtain rfl := writeVmPage_ok hend hpage
              have hcount' : pg + 1 + vec.count true = dirty := by
                rw [List.count_cons_self] at hcount
                omega
              rw [ih (File.atEnd_append _ _) hcount' h, Saving.append_append, Saving.vm_append]
              rfl
            · rename_i hfailed
              exact absurd h (hfailed _)
        | false =>
            simp only [Bool.false_eq_true, if_false] at h
            exact ih hend (by simpa using hcount) h

/-- **A region that is saved by dirty pages** is written as a whole. -/
theorem writeVmRegionDirty_ok (hend : s.file.AtEnd)
    (h : writeVmRegionDirty pageSize ans region s = (.ok, region', s')) :
    ∃ vec, ans.query = some vec ∧ pageSize ∣ region.size.toNat ∧
      vec.length = region.size.toNat / pageSize ∧ vec.length < 2 ^ 32 ∧
      region' = { region with pagesDirtied := .ofNat 32 (vec.count true) } ∧
      s' = s.append (region'.encode ++ dirtyPages pageSize region.start.toNat s.vm vec 0) := by
  unfold writeVmRegionDirty at h
  split at h
  · cases h
  · rename_i hsize
    split at h
    · cases h
    · rename_i vec hquery
      split at h
      · cases h
      · rename_i hlen
        simp only at h
        split at h
        · cases h
        · rename_i hrecord
          have hrecord := (Saving.writeall_fst_eq (VmRegion.length_encode _)).mp
            (Decidable.not_not.mp hrecord)
          rw [Saving.writeall_all hend hrecord] at h
          obtain ⟨hstatus, hr⟩ := Prod.mk.inj h
          obtain ⟨rfl, rfl⟩ := Prod.mk.inj hr
          have hwritten := writeDirtyPages_ok (File.atEnd_append _ _) (Nat.zero_add _)
            (Prod.ext hstatus rfl)
          refine ⟨vec, hquery, Nat.dvd_of_mod_eq_zero (by omega), by omega, by omega, rfl, ?_⟩
          exact hwritten.trans (Saving.append_append _)

/-! ### Where all calls succeed -/

variable {vec : List Bool}

/-- A page comes out, where it can be read. -/
theorem writeVmPage_of_body {idx : Nat} (hend : s.file.AtEnd) (hoffset : vmPageBytes ≤ ans.offset idx)
    (hbody : pageSize ≤ ans.body idx) : writeVmPage pageSize ans region idx s =
      (.ok, s.append (leBytes vmPageBytes (idx * pageSize) ++
        s.vm.read (region.start.toNat + idx * pageSize) pageSize)) := by
  have hlen := length_leBytes vmPageBytes (idx * pageSize)
  have hread := Vm.length_read s.vm (region.start.toNat + idx * pageSize) pageSize
  have hfirst := Saving.writeall_all (k := ans.offset idx) hend (hlen.symm ▸ hoffset)
  have hsecond := Saving.writeall_all (k := ans.body idx)
    (s := s.append (leBytes vmPageBytes (idx * pageSize))) (File.atEnd_append _ _)
    (hread.symm ▸ hbody)
  rw [writeVmPage]
  simp only [hfirst, hlen, ne_eq, not_true_eq_false, if_false, Saving.vm_append, hsecond, hread,
    Saving.append_append]

/-- The dirty pages come out, when they can be read or there are none. -/
theorem writeDirtyPages_of_body {dirty idx pg : Nat} (hend : s.file.AtEnd)
    (hcount : pg + vec.count true = dirty) (hle : pg ≤ idx) (hoffset : ∀ p, vmPageBytes ≤ ans.offset p)
    (hbody : true ∈ vec → ∀ p, pageSize ≤ ans.body p) :
    writeDirtyPages pageSize ans region dirty vec idx pg s =
      (.ok, s.append (dirtyPages pageSize region.start.toNat s.vm vec idx)) := by
  induction vec generalizing idx pg s with
  | nil =>
      rw [writeDirtyPages, if_pos (show pg = dirty from hcount), dirtyPages, Saving.append, hend.append_nil]
  | cons d vec ih =>
      have hbody' : true ∈ vec → ∀ p, pageSize ≤ ans.body p := fun h =>
        hbody (List.mem_cons_of_mem d h)
      rw [writeDirtyPages]
      by_cases hdone : dirty ≤ pg
      · have hnone : (d :: vec).count true = 0 := by omega
        rw [if_pos hdone, if_pos ⟨by omega, by omega⟩, dirtyPages_of_count hnone, Saving.append,
          hend.append_nil]
      · rw [if_neg hdone]
        cases d with
        | true =>
            have hpage : writeVmPage pageSize ans region idx s = _ :=
              writeVmPage_of_body hend (hoffset idx) (hbody List.mem_cons_self idx)
            rw [List.count_cons_self] at hcount
            simp only [if_true, hpage]
            rw [ih (File.atEnd_append _ _) (by omega) (by omega) hbody', Saving.append_append]
            rfl
        | false =>
            rw [List.count_cons_of_ne (by decide)] at hcount
            simp only [Bool.false_eq_true, if_false]
            exact ih hend hcount (by omega) hbody'

/-- The region comes out by its dirty pages, when they can be read or there are none. -/
theorem writeVmRegionDirty_of_body (hend : s.file.AtEnd) (hrecord : VmRegion.bytes ≤ ans.record)
    (hoffset : ∀ p, vmPageBytes ≤ ans.offset p) (hquery : ans.query = some vec)
    (hdvd : pageSize ∣ region.size.toNat) (hlen : vec.length = region.size.toNat / pageSize)
    (hbound : vec.length < 2 ^ 32) (hbody : true ∈ vec → ∀ p, pageSize ≤ ans.body p) :
    let record := { region with pagesDirtied := .ofNat 32 (vec.count true) }
    writeVmRegionDirty pageSize ans region s = (.ok, record, s.append (record.encode ++
      dirtyPages pageSize region.start.toNat s.vm vec 0)) := by
  intro record
  have hwrite : s.writeall record.encode ans.record = _ :=
    Saving.writeall_all hend (by rw [VmRegion.length_encode]; exact hrecord)
  have hpages : writeDirtyPages pageSize ans record (vec.count true) vec 0 0
      (s.append record.encode) = _ :=
    writeDirtyPages_of_body (File.atEnd_append _ _) (Nat.zero_add _) (Nat.le_refl 0)
      hoffset hbody
  have hsize : ¬ (region.size.toNat % pageSize ≠ 0 ∨ 2 ^ 32 ≤ region.size.toNat / pageSize) := by
    have hmod := Nat.mod_eq_zero_of_dvd hdvd
    omega
  rw [writeVmRegionDirty, if_neg hsize, hquery]
  simp only [hlen, ne_eq, not_true_eq_false, if_false]
  simp only [show ({ region with pagesDirtied := .ofNat 32 (vec.count true) } : VmRegion) = record
    from rfl, hwrite, VmRegion.length_encode, not_true_eq_false, if_false, hpages,
    Saving.append_append]
  rfl

end Dirty

/-! ## A region in the image -/

section Region
variable (pageSize : Nat) (ans : Answers) (region : VmRegion)

namespace VmRegion

/-- The choice of `write_vm_region`. -/
def byDirtyPages : Bool := region.onlyRestoreDirtyPages && worthwhile pageSize region

/-- The region with the flag that `write_vm_region` sets before it saves it in full. -/
def wholly : VmRegion :=
  if region.onlyRestoreDirtyPages = true then { region with dirtyOnly := false } else region

/-- The number of pages of a region. -/
def pages : Nat := region.size.toNat / pageSize

/-- The pages of the region that are written before one is not. -/
def leading : Nat := leadingPages pageSize ans.page 0 (region.pages pageSize)

/-- A page of the region is written in part. -/
def Torn : Prop :=
  region.byDirtyPages pageSize = false ∧ region.leading pageSize ans < region.pages pageSize ∧
    ans.page (region.leading pageSize ans) ≠ 0

/-- The record as it is in the image. -/
def record : VmRegion :=
  if region.byDirtyPages pageSize = true then
    { region with
      dirtyOnly := true
      pagesDirtied := .ofNat 32 ((ans.query.getD []).count true) }
  else if region.leading pageSize ans = region.pages pageSize then region.wholly
  else { region.wholly with size := .ofNat 64 (region.leading pageSize ans * pageSize) }

/-- What follows the record. -/
def payload (vm : Vm) : List UInt8 :=
  if region.byDirtyPages pageSize = true then
    dirtyPages pageSize region.start.toNat vm (ans.query.getD []) 0
  else vm.read region.start.toNat (region.leading pageSize ans * pageSize)

end VmRegion

variable {pageSize ans region}

@[simp] theorem VmRegion.start_wholly : region.wholly.start = region.start := by
  unfold wholly
  split <;> rfl

@[simp] theorem VmRegion.size_wholly : region.wholly.size = region.size := by
  unfold wholly
  split <;> rfl

/-- `write_vm_region` by its choice. -/
theorem writeVmRegion_eq (mach : Mach) (s : Saving) :
    writeVmRegion pageSize mach ans region s =
      if region.byDirtyPages pageSize = true then
        writeVmRegionDirty pageSize ans { region with dirtyOnly := true } s
      else writeVmRegionFull pageSize mach ans region.wholly s := by
  by_cases hq : region.onlyRestoreDirtyPages = true
  · by_cases hw : worthwhile pageSize region = true <;>
      simp [writeVmRegion, VmRegion.byDirtyPages, VmRegion.wholly, hq, hw]
  · simp [writeVmRegion, VmRegion.byDirtyPages, VmRegion.wholly, hq]

/-- What the dirty pages of a region are. -/
structure Queried (pageSize : Nat) (ans : Answers) (region : VmRegion) (vec : List Bool) : Prop where
  query : ans.query = some vec
  dvd : pageSize ∣ region.size.toNat
  length : vec.length = region.pages pageSize
  bound : vec.length < 2 ^ 32

/-- **What `write_vm_region` leaves** when it comes back with 0. -/
structure Wrote (pageSize : Nat) (ans : Answers) (region region' : VmRegion) (s s' : Saving) :
    Prop where
  mem : s'.vm.mem = s.vm.mem
  record : region' = region.record pageSize ans
  queried : region.byDirtyPages pageSize = true → ∃ vec, Queried pageSize ans region vec
  file : ¬ region.Torn pageSize ans →
    s'.file = s.file.append (region'.encode ++ region.payload pageSize ans s.vm)
  torn : region.Torn pageSize ans →
    s'.file.pos + ans.page (region.leading pageSize ans) =
      s.file.pos + VmRegion.bytes + region.leading pageSize ans * pageSize
  short : s'.short = false → s.short = false ∧ (region.byDirtyPages pageSize = false →
    region.leading pageSize ans = region.pages pageSize)

theorem writeVmRegion_ok {mach : Mach} {region' : VmRegion} {s s' : Saving} (hkeeps : mach.Keeps)
    (hp : 0 < pageSize) (hend : s.file.AtEnd)
    (h : writeVmRegion pageSize mach ans region s = (.ok, region', s')) :
    Wrote pageSize ans region region' s s' := by
  rw [writeVmRegion_eq] at h
  split at h
  · rename_i hdirty
    obtain ⟨vec, hquery, hdvd, hlen, hbound, rfl, rfl⟩ := writeVmRegionDirty_ok hend h
    have hnot : ¬ region.Torn pageSize ans := fun ht => by
      rw [ht.1] at hdirty
      cases hdirty
    constructor
    case mem => rfl
    case record => rw [VmRegion.record, if_pos hdirty, hquery, Option.getD_some]
    case queried => exact fun _ => ⟨vec, hquery, hdvd, hlen, hbound⟩
    case file =>
      intro _
      rw [VmRegion.payload, if_pos hdirty, hquery, Option.getD_some]
      rfl
    case torn => exact fun ht => absurd ht hnot
    case short =>
      intro hs
      refine ⟨hs, fun hfull => ?_⟩
      rw [hfull] at hdirty
      cases hdirty
  · rename_i hfull
    have hfull := Bool.eq_false_iff.mpr hfull
    have hle : region.leading pageSize ans ≤ region.pages pageSize :=
      leadingPages_le ans.page 0 (region.pages pageSize)
    obtain ⟨hmem, hcases⟩ := writeVmRegionFull_ok hkeeps hp hend h
    rw [VmRegion.size_wholly] at hcases
    constructor
    case mem => exact hmem
    case record =>
      rw [VmRegion.record, if_neg (by rw [hfull]; exact nofun)]
      rcases hcases with ⟨hall, rfl, -⟩ | ⟨hlt, -, rfl, -⟩ | ⟨hlt, -, -, rfl, -⟩
      · exact (if_pos hall).symm
      · exact (if_neg (Nat.ne_of_lt hlt)).symm
      · exact (if_neg (Nat.ne_of_lt hlt)).symm
    case queried =>
      intro hdirty
      rw [hfull] at hdirty
      cases hdirty
    case file =>
      intro hnot
      rw [VmRegion.payload, if_neg (by rw [hfull]; exact nofun)]
      rw [VmRegion.start_wholly] at hcases
      rcases hcases with ⟨hall, rfl, -, hfile⟩ | ⟨hlt, -, rfl, -, hfile⟩ | ⟨hlt, hne, -⟩
      · rw [hfile, show region.leading pageSize ans = region.size.toNat / pageSize from hall]
      · exact hfile
      · exact absurd ⟨hfull, hlt, hne⟩ hnot
    case torn =>
      rintro ⟨-, hlt, hne⟩
      rcases hcases with ⟨hall, -⟩ | ⟨-, hzero, -⟩ | ⟨-, -, -, -, -, hback, hpos⟩
      · exact absurd hall (Nat.ne_of_lt hlt)
      · exact absurd hzero hne
      · exact (congrArg (· + _) hpos).trans (Nat.sub_add_cancel hback)
    case short =>
      intro hs
      rcases hcases with ⟨hall, -, hshort, -⟩ | ⟨-, -, -, hshort, -⟩ | ⟨-, -, -, -, hshort, -⟩
      · exact ⟨hshort ▸ hs, fun _ => hall⟩
      · rw [hshort] at hs
        cases hs
      · rw [hshort] at hs
        cases hs

end Region

end Xnd.Image
