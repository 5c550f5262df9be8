import Xnd.Ckptdir.Files

/-!
# What the functions do to the files

The effect of each function on `Disk.file`, the contents under a name in the directory of an
epoch.  The functions that work in one directory are described by its lookup function, so
an assertion about the files of a directory (`Named`, `Copied`, `Backed`) is one about a
function from names to contents.
-/
namespace Xnd.Ckptdir

/-- The contents of a file in the directory of an epoch. -/
def Disk.file (d : Disk) (epoch : Nat) (n : Name) : Option Content :=
  (d.dir epoch).bind fun dir => dir.lookup n

/-- The files of a directory. -/
abbrev Dir.file (dir : Dir) (n : Name) : Option Content := dir.lookup n

section Disk
variable {d : Disk} {epoch e : Nat} {dir dir' : Dir} {n : Name}

theorem Disk.file_of_dir (h : d.dir epoch = some dir) : d.file epoch = dir.file := by
  funext n
  rw [Disk.file, h]
  rfl

theorem Disk.file_setDir_same (h : d.dir epoch = some dir) :
    (d.setDir epoch (some dir')).file epoch = dir'.file :=
  file_of_dir (dir_setDir_same (by rw [h]; rfl))

theorem Disk.file_setDir_ne {x : Option Dir} (h : e ≠ epoch) :
    (d.setDir epoch x).file e = d.file e := by
  funext n
  rw [Disk.file, Disk.file, dir_setDir_ne h]

theorem Disk.file_setDir_none (h : d.dir epoch = some dir) :
    (d.setDir epoch none).file epoch n = none := by
  have hdir : (d.setDir epoch none).dir epoch = none := dir_setDir_same (by rw [h]; rfl)
  rw [Disk.file, hdir]
  rfl

end Disk

/-! ## Creation and removal -/

/-- No file is made or removed by `xnd_ckptdir_create`. -/
theorem file_xndCkptdirCreate (o : CreateCalls) (epoch : Nat) (d : Disk) (e : Nat) (n : Name) :
    (xndCkptdirCreate o epoch d).2.file e n = d.file e n := by
  have fresh : ∀ sub : Nat → Option Dir, (sub epoch).isNone = true →
      Disk.file (some (Function.update sub epoch (some ∅))) e n = Disk.file (some sub) e n := by
    intro sub hsub
    by_cases he : e = epoch
    · subst he
      simp [Disk.file, Disk.dir, Option.isNone_iff_eq_none.mp hsub]
    · simp [Disk.file, Disk.dir, he]
  have base : Disk.file (some fun _ => none) e n = Disk.file none e n := rfl
  cases d with
  | none =>
      simp only [xndCkptdirCreate]
      split
      · rfl
      · rename_i sub hsub
        split at hsub
        · obtain rfl := Option.some.inj hsub
          split
          · exact (fresh _ rfl).trans base
          · exact base
        · cases hsub
  | some sub₀ =>
      simp only [xndCkptdirCreate]
      split
      · rfl
      · rename_i sub hsub
        split at hsub
        · obtain rfl := Option.some.inj hsub
          split
          · exact fresh _ (by tauto)
          · rfl
        · cases hsub

/-- The directory that was created is empty. -/
theorem file_of_created {o : CreateCalls} {epoch : Nat} {d : Disk}
    (h : (xndCkptdirCreate o epoch d).1 = true) (n : Name) : d.file epoch n = none := by
  cases d with
  | none => rfl
  | some sub =>
      have hsub : sub epoch = none := by
        simp only [xndCkptdirCreate] at h
        split at h
        · cases h
        · rename_i sub' hsub
          split at hsub
          · obtain rfl := Option.some.inj hsub
            split at h
            · exact Option.isNone_iff_eq_none.mp (by tauto)
            · cases h
          · cases hsub
      simp [Disk.file, Disk.dir, hsub]

/-- The loop removes the names before the first that cannot be unlinked. -/
theorem file_unlinkLoop (unlink : Name → Bool) (names : List Name) (dir : Dir) (n : Name) :
    (unlinkLoop unlink names dir).2.file n =
      if n ∈ names.takeWhile unlink then none else dir.file n := by
  induction names generalizing dir with
  | nil => rfl
  | cons m rest ih =>
      by_cases hm : unlink m = true
      · rw [unlinkLoop, if_pos hm, ih, List.takeWhile_cons_of_pos hm]
        by_cases hn : n = m
        · subst hn
          simp
        · simp [hn, AList.lookup_erase_ne hn]
      · rw [unlinkLoop, if_neg hm, List.takeWhile_cons_of_neg hm]
        simp

/-- What `xnd_ckptdir_unlink` removes. -/
theorem file_xndCkptdirUnlink (o : UnlinkCalls) (epoch : Nat) (d : Disk) (e : Nat) (n : Name) :
    (xndCkptdirUnlink o epoch d).2.file e n =
      if e = epoch ∧ n ∈ o.unlinked then none else d.file e n := by
  cases hdir : d.dir epoch with
  | none =>
      have hsame : xndCkptdirUnlink o epoch d = (false, d) := by simp only [xndCkptdirUnlink, hdir]
      rw [hsame]
      split
      · rename_i h
        rw [h.1, Disk.file, hdir]
        rfl
      · rfl
  | some dir =>
      simp only [xndCkptdirUnlink, hdir]
      by_cases ho : o.opendir = true
      · have hunlinked : o.unlinked = o.readdir.takeWhile o.unlink := if_pos ho
        have hloop := file_unlinkLoop o.unlink o.readdir dir n
        simp only [if_pos ho, hunlinked]
        by_cases he : e = epoch
        · subst he
          rw [Disk.file_of_dir hdir]
          simp only [true_and]
          rw [← hloop]
          split
          · rename_i dir' hres
            rw [Disk.file_setDir_same hdir, hres]
          · rename_i dir' hres
            rw [hres]
            split
            · rename_i hempty
              rw [Disk.file_setDir_none hdir]
              have hmem : n ∉ dir' := by
                rw [AList.mem_keys, hempty.2]
                exact List.not_mem_nil
              exact (AList.lookup_eq_none.mpr hmem).symm
            · rw [Disk.file_setDir_same hdir]
        · rw [if_neg fun h => he h.1]
          split
          · rw [Disk.file_setDir_ne he]
          · split
            · rw [Disk.file_setDir_ne he]
            · rw [Disk.file_setDir_ne he]
      · have hunlinked : o.unlinked = [] := if_neg ho
        simp [ho, hunlinked]

/-! ## Images -/

section Images
variable (f : Name → Option Content)

/-- The images in the directory of an epoch are of that epoch and of the process whose id
is in the name. -/
def Named (e : Nat) : Prop :=
  ∀ id i, f (.ckptfile id) = some (.image i) ∨ f (.compressed id) = some (.image i) →
    i.epoch = e ∧ i.xndPid = id

/-- There is a complete compressed image of a process. -/
def Copied (id : Nat) : Prop := ∃ i : Image, f (.compressed id) = some (.image i) ∧ i.Whole

/-- A complete image that will be unlinked when its process has restarted has a
complete compressed copy. -/
def Backed (id : Nat) : Prop :=
  ∀ i : Image, f (.ckptfile id) = some (.image i) → i.Whole → i.useZlib = true → Copied f id

end Images

theorem Backed.of_absent {f : Name → Option Content} {id : Nat} (h : f (.ckptfile id) = none) :
    Backed f id := fun i hi => by rw [h] at hi; cases hi

theorem Backed.congr {f g : Name → Option Content} {id : Nat}
    (hplain : g (.ckptfile id) = f (.ckptfile id)) (hgz : g (.compressed id) = f (.compressed id))
    (h : Backed f id) : Backed g id := by
  intro i hi hwhole hzlib
  rw [hplain] at hi
  obtain ⟨j, hj, hjw⟩ := h i hi hwhole hzlib
  exact ⟨j, hgz.trans hj, hjw⟩

theorem Copied.congr {f g : Name → Option Content} {id : Nat}
    (hgz : g (.compressed id) = f (.compressed id)) (h : Copied f id) : Copied g id := by
  obtain ⟨j, hj, hjw⟩ := h
  exact ⟨j, hgz.trans hj, hjw⟩

theorem cut_eq_image {c : Content} {k : Nat} {i : Image} (h : c.cut k = .image i) :
    ∃ j, c = .image j ∧ i = j.cut k := by
  cases c with
  | image j => exact ⟨j, rfl, (Content.image.inj h).symm⟩
  | manifest => cases h
  | other => cases h

/-- An image at the target of a stream comes from the source, or was there. -/
theorem Stream.target_eq_image {old : Option Content} {source : Content} {st : Stream} {i : Image}
    (h : st.target old source = .image i) :
    old = some (.image i) ∨ ∃ j, source = .image j ∧ (i = j ∨ ∃ k, i = j.cut k) := by
  cases st with
  | whole => exact .inr ⟨i, h, .inl rfl⟩
  | part k =>
      obtain ⟨j, hj, hi⟩ := cut_eq_image h
      exact .inr ⟨j, hj, .inr ⟨k, hi⟩⟩
  | nothing =>
      cases old with
      | none =>
          obtain ⟨j, hj, hi⟩ := cut_eq_image h
          exact .inr ⟨j, hj, .inr ⟨0, hi⟩⟩
      | some c => exact .inl (congrArg some h)

namespace Named
variable {dir : Dir} {e : Nat} {n : Name} {c : Content}

theorem insert (h : Named dir.file e) (hc : ∀ id i, (n = .ckptfile id ∨ n = .compressed id) →
    c = .image i → i.epoch = e ∧ i.xndPid = id) : Named (Dir.file (dir.insert n c)) e := by
  have look : ∀ m id i, (m = .ckptfile id ∨ m = .compressed id) →
      Dir.file (dir.insert n c) m = some (.image i) → i.epoch = e ∧ i.xndPid = id := by
    intro m id i hm hi
    by_cases hmn : m = n
    · subst hmn
      exact hc id i hm (Option.some.inj ((AList.lookup_insert dir).symm.trans hi))
    · rw [Dir.file, AList.lookup_insert_ne hmn] at hi
      rcases hm with rfl | rfl
      · exact h id i (.inl hi)
      · exact h id i (.inr hi)
  rintro id i (hi | hi)
  · exact look _ id i (.inl rfl) hi
  · exact look _ id i (.inr rfl) hi

theorem erase (h : Named dir.file e) : Named (Dir.file (dir.erase n)) e := by
  have look : ∀ m i, Dir.file (dir.erase n) m = some (.image i) →
      dir.file m = some (.image i) := by
    intro m i hi
    by_cases hmn : m = n
    · subst hmn
      rw [Dir.file, AList.lookup_erase] at hi
      cases hi
    · rwa [Dir.file, AList.lookup_erase_ne hmn] at hi
  rintro id i (hi | hi)
  · exact h id i (.inl (look _ _ hi))
  · exact h id i (.inr (look _ _ hi))

/-- What a stream writes is named as its source is. -/
theorem insert_target {id : Nat} {old : Option Content} {source : Content} {st : Stream}
    (h : Named dir.file e) (hn : n = .ckptfile id ∨ n = .compressed id)
    (hold : old = dir.file (.ckptfile id) ∨ old = dir.file (.compressed id))
    (hsource : dir.file (.ckptfile id) = some source ∨ dir.file (.compressed id) = some source) :
    Named (Dir.file (dir.insert n (st.target old source))) e := by
  refine h.insert fun id' i hn' hi => ?_
  have hid : id' = id := by
    rcases hn with rfl | rfl <;> rcases hn' with hn' | hn' <;> cases hn' <;> rfl
  subst hid
  rcases Stream.target_eq_image hi with hold' | ⟨j, rfl, hij⟩
  · rcases hold with hold | hold
    · exact h id' i (.inl (hold.symm.trans hold'))
    · exact h id' i (.inr (hold.symm.trans hold'))
  · rcases hij with rfl | ⟨k, rfl⟩
    · exact h id' i hsource
    · exact h id' j hsource

end Named

/-! ## Compression -/

section Compress
variable {o : CompressCalls} {id e : Nat} {dir : Dir}

theorem named_xndCompressCkpt (h : Named dir.file e) :
    Named (Dir.file (xndCompressCkpt o id dir).2) e := by
  unfold xndCompressCkpt
  split
  · exact h
  · rename_i source hsource
    have h' : Named (Dir.file (dir.insert (.compressed id)
        (o.deflate.target (dir.lookup (.compressed id)) source))) e :=
      h.insert_target (.inr rfl) (.inr rfl) (.inl hsource)
    split
    · dsimp only
      split
      · split
        · exact h'.erase
        · exact h'
      · exact h'
    · exact h

theorem file_xndCompressCkpt {n : Name} (hplain : n ≠ .ckptfile id) (hgz : n ≠ .compressed id) :
    Dir.file (xndCompressCkpt o id dir).2 n = dir.file n := by
  unfold xndCompressCkpt
  split
  · rfl
  · split
    · dsimp only
      split
      · split
        · rw [Dir.file, AList.lookup_erase_ne hplain, AList.lookup_insert_ne hgz]
        · exact AList.lookup_insert_ne hgz
      · exact AList.lookup_insert_ne hgz
    · rfl

/-- When nothing fails, there is a complete compressed copy of a complete image. -/
theorem copied_xndCompressCkpt {i : Image} (hopen : o.openSource = true ∧ o.openTarget = true)
    (hdeflate : o.deflate = .whole) (hi : dir.file (.ckptfile id) = some (.image i)) (hw : i.Whole) :
    Copied (Dir.file (xndCompressCkpt o id dir).2) id := by
  have hsource : dir.lookup (.ckptfile id) = some (.image i) := hi
  have hinsert : (dir.insert (.compressed id) (.image i)).lookup (.compressed id) =
      some (.image i) := AList.lookup_insert dir
  have hne : Name.compressed id ≠ .ckptfile id := nofun
  refine ⟨i, ?_, hw⟩
  simp only [xndCompressCkpt, hsource, if_pos hopen, hdeflate, if_true, Stream.target]
  split
  · rw [Dir.file, AList.lookup_erase_ne hne, hinsert]
  · exact hinsert

end Compress

/-! ## Writing -/

/-- If every write of the image succeeds, it is compressed when it is to be. -/
def WriteCalls.Compresses (o : WriteCalls) (p : Client) : Prop :=
  p.useZlib = true → o.opendir = true → o.create = true → p.size ≤ o.pieces →
    (o.compress.openSource = true ∧ o.compress.openTarget = true) ∧ o.compress.deflate = .whole

instance (o : WriteCalls) (p : Client) : Decidable (o.Compresses p) := by
  unfold WriteCalls.Compresses
  infer_instance

section Write
variable {o : WriteCalls} {p : Client} {d : Disk}

/-- What `write_ckpt` leaves in the directory. -/
theorem writeCkpt_cases (o : WriteCalls) (p : Client) (d : Disk) :
    (writeCkpt o p d).2 = d ∨ ∃ dir dir', d.dir p.epoch = some dir ∧
      (writeCkpt o p d).2 = d.setDir p.epoch (some dir') ∧
      o.opendir = true ∧ o.create = true ∧ dir.file (.ckptfile p.xndPid) = none ∧
      (dir' = dir.insert (.ckptfile p.xndPid) (.image (p.image o.pieces)) ∧
          (o.pieces < p.size ∨ p.useZlib = false) ∨
        dir' = (xndCompressCkpt o.compress p.xndPid
          (dir.insert (.ckptfile p.xndPid) (.image (p.image o.pieces)))).2 ∧
          p.size ≤ o.pieces ∧ p.useZlib = true) := by
  unfold writeCkpt
  split
  · exact .inl rfl
  · rename_i dir hdir
    split
    · rename_i ho
      have habsent : dir.file (.ckptfile p.xndPid) = none := AList.lookup_eq_none.mpr ho.2.2
      refine .inr ⟨dir, ?_⟩
      dsimp only
      split
      · rename_i hsize
        exact ⟨_, hdir, rfl, ho.1, ho.2.1, habsent, .inl ⟨rfl, .inl hsize⟩⟩
      · rename_i hsize
        split
        · rename_i hzlib
          exact ⟨_, hdir, rfl, ho.1, ho.2.1, habsent, .inr ⟨rfl, by omega, hzlib⟩⟩
        · rename_i hzlib
          exact ⟨_, hdir, rfl, ho.1, ho.2.1, habsent, .inl ⟨rfl, .inr (by simpa using hzlib)⟩⟩
    · exact .inl rfl

theorem file_writeCkpt_ne {e : Nat} (h : e ≠ p.epoch) :
    (writeCkpt o p d).2.file e = d.file e := by
  rcases writeCkpt_cases o p d with hd | ⟨dir, dir', -, hd, -⟩
  · rw [hd]
  · rw [hd, Disk.file_setDir_ne h]

theorem file_writeCkpt {e : Nat} {n : Name} (hplain : n ≠ .ckptfile p.xndPid)
    (hgz : n ≠ .compressed p.xndPid) : (writeCkpt o p d).2.file e n = d.file e n := by
  by_cases he : e = p.epoch
  · subst he
    rcases writeCkpt_cases o p d with hd | ⟨dir, dir', hdir, hd, -, -, -, hdir'⟩
    · rw [hd]
    · rw [hd, Disk.file_setDir_same hdir, Disk.file_of_dir hdir]
      rcases hdir' with ⟨rfl, -⟩ | ⟨rfl, -⟩
      · exact AList.lookup_insert_ne hplain
      · rw [file_xndCompressCkpt hplain hgz]
        exact AList.lookup_insert_ne hplain
  · rw [file_writeCkpt_ne he]

theorem named_writeCkpt (h : ∀ e, Named (d.file e) e) (e : Nat) :
    Named ((writeCkpt o p d).2.file e) e := by
  by_cases he : e = p.epoch
  · subst he
    rcases writeCkpt_cases o p d with hd | ⟨dir, dir', hdir, hd, -, -, -, hdir'⟩
    · rw [hd]
      exact h _
    · have hnamed : Named (Dir.file (dir.insert (.ckptfile p.xndPid)
          (.image (p.image o.pieces)))) p.epoch := by
        have hold := h p.epoch
        rw [Disk.file_of_dir hdir] at hold
        refine hold.insert fun id i hn hi => ?_
        obtain rfl := Content.image.inj hi
        rcases hn with hn | hn <;> cases hn
        exact ⟨rfl, rfl⟩
      rw [hd, Disk.file_setDir_same hdir]
      rcases hdir' with ⟨rfl, -⟩ | ⟨rfl, -⟩
      · exact hnamed
      · exact named_xndCompressCkpt hnamed
  · rw [file_writeCkpt_ne he]
    exact h e

/-- The image of a process is backed by a compressed copy when compression succeeds. -/
theorem backed_writeCkpt (ho : o.Compresses p) (h : Backed (d.file p.epoch) p.xndPid) :
    Backed ((writeCkpt o p d).2.file p.epoch) p.xndPid := by
  rcases writeCkpt_cases o p d with hd | ⟨dir, dir', hdir, hd, hopen, hcreate, -, hdir'⟩
  · rwa [hd]
  · have hinsert : Dir.file (dir.insert (.ckptfile p.xndPid) (.image (p.image o.pieces)))
        (.ckptfile p.xndPid) = some (.image (p.image o.pieces)) := AList.lookup_insert dir
    rw [hd, Disk.file_setDir_same hdir]
    rcases hdir' with ⟨rfl, hwhy⟩ | ⟨rfl, hsize, hzlib⟩
    · intro i hi hw hz
      obtain rfl := Content.image.inj (Option.some.inj (hinsert.symm.trans hi))
      rcases hwhy with hsize | hplain
      · have hwhole : p.size ≤ min o.pieces p.size := hw
        omega
      · rw [show (p.image o.pieces).useZlib = p.useZlib from rfl, hplain] at hz
        cases hz
    · intro i _ _ _
      obtain ⟨hopened, hdeflate⟩ := ho hzlib hopen hcreate hsize
      refine copied_xndCompressCkpt hopened hdeflate hinsert ?_
      show p.size ≤ min o.pieces p.size
      omega

/-- A file that was not there is there only for the process that wrote. -/
theorem absent_writeCkpt {e id : Nat} (h : d.file e (.ckptfile id) = none) (hid : id ≠ p.xndPid) :
    (writeCkpt o p d).2.file e (.ckptfile id) = none := by
  rw [file_writeCkpt (fun hn => hid (Name.ckptfile.inj hn)) nofun, h]

end Write

/-! ## The manifest -/

/-- The ids of a manifest that can be read. -/
def manifestOf (f : Name → Option Content) : Option (List Nat) :=
  match f .manifest with
  | some (.manifest ids) => some ids
  | _ => none

theorem manifestOf_congr {f g : Name → Option Content} (h : g .manifest = f .manifest) :
    manifestOf g = manifestOf f := by
  rw [manifestOf, h, manifestOf]

section Manifest
variable {o : ManifestCalls} {xndPids : List Nat} {epoch : Nat} {d : Disk}

theorem file_writeManifest {e : Nat} {n : Name} (h : e = epoch → n ≠ .manifest) :
    (xndCkptfileWriteManifest o xndPids epoch d).2.file e n = d.file e n := by
  have frame : ∀ {dir : Dir} {c : Content}, d.dir epoch = some dir →
      (d.setDir epoch (some (dir.insert .manifest c))).file e n = d.file e n := by
    intro dir c hdir
    by_cases he : e = epoch
    · subst he
      rw [Disk.file_setDir_same hdir, Disk.file_of_dir hdir]
      exact AList.lookup_insert_ne (h rfl)
    · rw [Disk.file_setDir_ne he]
  unfold xndCkptfileWriteManifest
  split
  · rfl
  · rename_i dir hdir
    split
    · dsimp only
      split
      · exact frame hdir
      · exact frame hdir
    · rfl

end Manifest

/-! ## Restarting -/

section Restart
variable {dir : Dir} {id e : Nat}

/-- The directory of a restart: everything is named after its process, and complete
images are backed. -/
structure Restartable (dir : Dir) (e : Nat) : Prop where
  named : Named dir.file e
  backed : ∀ id, Backed dir.file id

/-- What `xnd_decompress_ckpt` leaves is backed by what it was made from. -/
theorem Restartable.xndDecompressCkpt (h : Restartable dir e) (o : DecompressCalls) (id : Nat) :
    Restartable (xndDecompressCkpt o id dir).2 e := by
  unfold Ckptdir.xndDecompressCkpt
  split
  · exact h
  · rename_i source hsource
    split
    · refine ⟨h.named.insert_target (.inl rfl) (.inl rfl) (.inr hsource), fun id' => ?_⟩
      by_cases hid : id' = id
      · subst hid
        intro i hi hw hz
        have hgz : ∀ c, Dir.file (dir.insert (.ckptfile id') c) (.compressed id') =
            dir.file (.compressed id') := fun c => AList.lookup_insert_ne nofun
        have hi' := Option.some.inj ((AList.lookup_insert dir).symm.trans hi)
        rcases Stream.target_eq_image hi' with hold | ⟨j, rfl, hij⟩
        · exact (h.backed id' i hold hw hz).congr (hgz _)
        · have hj : j.Whole := by
            rcases hij with rfl | ⟨k, rfl⟩
            · exact hw
            · exact hw.of_cut
          exact ⟨j, (hgz _).trans hsource, hj⟩
      · have hplain : Name.ckptfile id' ≠ .ckptfile id := fun hn => hid (Name.ckptfile.inj hn)
        have hgz : Name.compressed id' ≠ .ckptfile id := nofun
        exact (h.backed id').congr (AList.lookup_insert_ne hplain) (AList.lookup_insert_ne hgz)
    · exact h

theorem file_xndDecompressCkpt {o : DecompressCalls} {n : Name} (h : ∀ id, n ≠ .ckptfile id) :
    Dir.file (xndDecompressCkpt o id dir).2 n = dir.file n := by
  unfold xndDecompressCkpt
  split
  · rfl
  · split
    · exact AList.lookup_insert_ne (h id)
    · rfl

/-- A target changes the directory as a decompression does, or not at all; the image that
it goes on with is in the directory then. -/
theorem xndRestartTarget_cases (o : TargetCalls) (id : Nat) (dir : Dir) :
    ((xndRestartTarget o id dir).2 = dir ∨
      (xndRestartTarget o id dir).2 = (xndDecompressCkpt o.decompress id dir).2) ∧
    ∀ i, (xndRestartTarget o id dir).1 = some i →
      Dir.file (xndRestartTarget o id dir).2 (.ckptfile id) = some (.image i) := by
  have hdir : ∀ r : Bool × Dir, r = (if o.access = true ∧ .ckptfile id ∈ dir then (true, dir)
      else xndDecompressCkpt o.decompress id dir) →
      r.2 = dir ∨ r.2 = (xndDecompressCkpt o.decompress id dir).2 := by
    rintro r rfl
    split
    · exact .inl rfl
    · exact .inr rfl
  unfold xndRestartTarget
  generalize hr : (if o.access = true ∧ .ckptfile id ∈ dir then (true, dir)
      else xndDecompressCkpt o.decompress id dir) = r
  have hdir := hdir r hr.symm
  dsimp only
  split
  · rename_i i hi
    split
    · exact ⟨hdir, fun j hj => Option.some.inj hj ▸ hi⟩
    · exact ⟨hdir, nofun⟩
  · exact ⟨hdir, nofun⟩

theorem Restartable.xndRestartTarget (h : Restartable dir e) (o : TargetCalls) (id : Nat) :
    Restartable (xndRestartTarget o id dir).2 e := by
  rcases (xndRestartTarget_cases o id dir).1 with hdir | hdir
  · rwa [hdir]
  · rw [hdir]
    exact h.xndDecompressCkpt _ _

theorem file_xndRestartTarget {o : TargetCalls} {n : Name} (h : ∀ id, n ≠ .ckptfile id) :
    Dir.file (xndRestartTarget o id dir).2 n = dir.file n := by
  rcases (xndRestartTarget_cases o id dir).1 with hdir | hdir
  · rw [hdir]
  · rw [hdir, file_xndDecompressCkpt h]

theorem restartTargets_cons (o : Nat → TargetCalls) (id : Nat) (rest : List Nat) (dir : Dir) :
    restartTargets o (id :: rest) dir =
      match xndRestartTarget (o id) id dir with
      | (none, dir) => (none, dir)
      | (some i, dir) => (if i.Whole then (restartTargets o rest dir).1.map (i :: ·) else none,
          (restartTargets o rest dir).2) := rfl

theorem file_restartTargets (o : Nat → TargetCalls) (ids : List Nat) (dir : Dir) {n : Name}
    (h : ∀ id, n ≠ .ckptfile id) : Dir.file (restartTargets o ids dir).2 n = dir.file n := by
  induction ids generalizing dir with
  | nil => rfl
  | cons id rest ih =>
      have hfile : Dir.file (xndRestartTarget (o id) id dir).2 n = dir.file n :=
        file_xndRestartTarget h
      rw [restartTargets_cons]
      split
      · rename_i dir' hres
        rwa [hres] at hfile
      · rename_i i dir' hres
        rw [hres] at hfile
        exact (ih dir').trans hfile

/-- The images that are restored are of the epoch of the directory, and those that will be
unlinked have a complete compressed copy. -/
theorem Restartable.restartTargets (h : Restartable dir e) (o : Nat → TargetCalls)
    (ids : List Nat) : Restartable (restartTargets o ids dir).2 e ∧
      ∀ images, (restartTargets o ids dir).1 = some images → ∀ i ∈ images, i.epoch = e ∧
        (i.useZlib = true → Copied (restartTargets o ids dir).2.file i.xndPid) := by
  induction ids generalizing dir with
  | nil =>
      refine ⟨h, fun images himages i hi => ?_⟩
      obtain rfl := Option.some.inj himages
      exact absurd hi List.not_mem_nil
  | cons id rest ih =>
      have htarget := h.xndRestartTarget (o id) id
      have hread := (xndRestartTarget_cases (o id) id dir).2
      rw [restartTargets_cons]
      split
      · rename_i dir' hres
        rw [hres] at htarget
        exact ⟨htarget, nofun⟩
      · rename_i i dir' hres
        rw [hres] at htarget hread
        obtain ⟨hrest, himages⟩ := ih htarget
        refine ⟨hrest, fun images heq j hj => ?_⟩
        dsimp only at heq
        split at heq
        · rename_i hw
          obtain ⟨others, hothers, rfl⟩ := Option.map_eq_some_iff.mp heq
          rcases List.mem_cons.mp hj with rfl | hj
          · have hi := hread j rfl
            obtain ⟨hepoch, hid⟩ := htarget.named id j (.inl hi)
            refine ⟨hepoch, fun hz => ?_⟩
            rw [hid]
            exact (htarget.backed id j hi hw hz).congr (file_restartTargets o rest dir' nofun)
          · exact himages others hothers j hj
        · cases heq

end Restart

end Xnd.Ckptdir
