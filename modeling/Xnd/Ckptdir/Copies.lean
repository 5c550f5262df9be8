import Xnd.Coord.Upkeep
import Xnd.Lib.Machine
import Xnd.Ckptdir.Effects

/-!
# What becomes of the copies of an image

A computation lives through rounds, crashes and restarts.  The machine takes the steps
that touch the checkpoint directories: the attempt of a round up to the creation of its
directory, with the clean-up when that fails; each `write_ckpt`; the manifest, when every
peer has reported its checkpoint done; the removal of the previous directory; a crash,
at any point; a restart from a directory with a manifest; and, in each restored process,
the end of `xnd_postrestart_early`.

A process reports its checkpoint done whatever `write_ckpt` returned, as
`xnd_checkpoint` drops the result.  A process that is killed inside `write_ckpt` leaves
what some outcome of its calls would leave, and reports nothing.

Two things are shown.  The clean-up after a failed creation removes no file exactly when
there is none in its way (`attempt_keeps_iff`).  And the image that a restarted process
unlinks has a complete compressed copy, in every run in which each compression that is
reached completes (`Kept`).
-/
namespace Xnd.Ckptdir

/-- Where the life of the computation stands. -/
inductive Phase where
  /-- No process of the computation runs. -/
  | down
  | running
  /-- The directory is created; the processes that have left `write_ckpt`, with whether
  they report. -/
  | round (written : List (Nat × Bool))
  /-- The manifest is written. -/
  | committed
  deriving DecidableEq, Repr

structure System where
  disk : Disk
  phase : Phase
  /-- `coord_info.epoch` -/
  epoch : Nat
  /-- The `xnd_pid` of each process that is listed. -/
  peers : List Nat
  /-- The restored processes that have yet to leave `xnd_postrestart_early`. -/
  restored : List Image

/-- A computation that has just been launched. -/
def System.launched (disk : Disk) (peers : List Nat) : System := ⟨disk, .running, 0, peers, []⟩

inductive Step where
  /-- Processes have come or gone. -/
  | members (peers : List Nat)
  | attempt (create : CreateCalls) (unlink : UnlinkCalls)
  /-- `write_ckpt` in a process, and whether the process lives to report. -/
  | write (p : Client) (o : WriteCalls) (reports : Bool)
  | commit (o : ManifestCalls)
  | resume (unlink : UnlinkCalls)
  | crash
  | restart (epoch : Nat) (o : Nat → TargetCalls)
  | early (i : Image) (o : EarlyCalls)

/-- `readdir` returns entries of the directory. -/
def UnlinkCalls.Lists (o : UnlinkCalls) (d : Disk) (epoch : Nat) : Prop :=
  ∀ dir ∈ d.dir epoch, ∀ n ∈ o.readdir, n ∈ dir

instance (o : UnlinkCalls) (d : Disk) (epoch : Nat) : Decidable (o.Lists d epoch) := by
  unfold UnlinkCalls.Lists
  infer_instance

namespace System

/-- `coord_do_checkpoint` up to the creation of the directory, and from the label `out`
on when that fails. -/
def attempt (s : System) (create : CreateCalls) (unlink : UnlinkCalls) : System :=
  match xndCkptdirCreate create s.epoch s.disk with
  | (true, disk) => { s with disk, phase := .round [] }
  | (false, disk) => { s with disk := (xndCkptdirUnlink unlink s.epoch disk).2 }

/-- `coord_write_ckpt_manifest`; the coordinator exits when it fails. -/
def commit (s : System) (o : ManifestCalls) : System :=
  match xndCkptfileWriteManifest o s.peers s.epoch s.disk with
  | (true, disk) => { s with disk, phase := .committed }
  | (false, disk) => { s with disk, phase := .down, peers := [] }

/-- The rest of `coord_do_checkpoint`. -/
def resume (s : System) (unlink : UnlinkCalls) : System :=
  { s with
    disk := if s.epoch ≠ 0 then (xndCkptdirUnlink unlink (s.epoch - 1) s.disk).2 else s.disk
    phase := .running
    epoch := s.epoch + 1 }

/-- `xnd_restart` from the directory of an epoch, until every process has passed the barrier
of the restart; the first registration gives the coordinator its epoch. -/
def restart (s : System) (epoch : Nat) (o : Nat → TargetCalls) (ids : List Nat) (dir : Dir) :
    System :=
  let s' := { s with disk := s.disk.setDir epoch (some (restartTargets o ids dir).2) }
  match (restartTargets o ids dir).1 with
  | some (i :: rest) =>
      { s' with phase := .running, epoch := i.epoch + 1, peers := ids, restored := i :: rest }
  | _ => s'

end System

def step : Machine System Step := fun s a =>
  match a with
  | .members peers =>
      guarded (s.phase = .running)
        { s with peers, restored := s.restored.filter fun i => i.xndPid ∈ peers }
  | .attempt create unlink =>
      guarded (s.phase = .running ∧ s.peers ≠ [] ∧ s.restored = [] ∧ unlink.Lists s.disk s.epoch)
        (s.attempt create unlink)
  | .write p o reports =>
      match s.phase with
      | .round written =>
          guarded (p.xndPid ∈ s.peers ∧ p.xndPid ∉ written.map Prod.fst)
            { s with
              disk := (writeCkpt o p s.disk).2
              phase := .round ((p.xndPid, reports) :: written) }
      | _ => none
  | .commit o =>
      match s.phase with
      | .round written => guarded (∀ id ∈ s.peers, (id, true) ∈ written) (s.commit o)
      | _ => none
  | .resume unlink =>
      guarded (s.phase = .committed ∧ unlink.Lists s.disk (s.epoch - 1)) (s.resume unlink)
  | .crash => some { s with phase := .down, peers := [], restored := [] }
  | .restart epoch o =>
      match s.disk.dir epoch with
      | none => none
      | some dir =>
          match manifestOf dir.file with
          | none => none
          | some ids => guarded (s.phase = .down) (s.restart epoch o ids dir)
  | .early i o =>
      guarded (s.phase = .running ∧ i ∈ s.restored)
        { s with disk := (xndPostrestartEarly o i s.disk).2, restored := s.restored.erase i }

/-! ## The clean-up of a failed attempt -/

/-- There is nothing to remove, or the removal stops before its first file. -/
def UnlinkCalls.Harmless (o : UnlinkCalls) (d : Disk) (epoch : Nat) : Prop :=
  ∀ dir ∈ d.dir epoch, dir.keys = [] ∨ o.opendir = false ∨
    ∀ n ∈ o.readdir.head?, o.unlink n = false

/-- No file has been removed. -/
def FilesKept (d d' : Disk) : Prop := ∀ e n, d.file e n ≠ none → d'.file e n ≠ none

/-- The directories after a failed attempt. -/
theorem file_attempt {s : System} {create : CreateCalls} {unlink : UnlinkCalls}
    (h : (xndCkptdirCreate create s.epoch s.disk).1 = false) (e : Nat) (n : Name) :
    (s.attempt create unlink).disk.file e n =
      if e = s.epoch ∧ n ∈ unlink.unlinked then none else s.disk.file e n := by
  have hcreate := file_xndCkptdirCreate create s.epoch s.disk e n
  rw [System.attempt]
  split
  · rename_i disk hres
    rw [hres] at h
    cases h
  · rename_i disk hres
    rw [hres] at hcreate
    dsimp only
    rw [file_xndCkptdirUnlink]
    simp only [hcreate]

theorem UnlinkCalls.unlinked_eq_nil {o : UnlinkCalls} :
    o.unlinked = [] ↔ o.opendir = false ∨ ∀ n ∈ o.readdir.head?, o.unlink n = false := by
  rw [UnlinkCalls.unlinked]
  cases o.opendir with
  | false => simp
  | true =>
      cases o.readdir with
      | nil => simp
      | cons n rest =>
          cases hn : o.unlink n with
          | false => simp [hn]
          | true => simp [hn]

theorem UnlinkCalls.mem_readdir {o : UnlinkCalls} {n : Name} (h : n ∈ o.unlinked) :
    n ∈ o.readdir := by
  rw [UnlinkCalls.unlinked] at h
  split at h
  · exact (List.takeWhile_prefix _).subset h
  · exact absurd h List.not_mem_nil

/-- **A failed attempt removes no file** exactly when there is none in its way. -/
theorem attempt_keeps_iff {s s' : System} {create : CreateCalls} {unlink : UnlinkCalls}
    (hstep : step s (.attempt create unlink) = some s')
    (h : (xndCkptdirCreate create s.epoch s.disk).1 = false) :
    FilesKept s.disk s'.disk ↔ unlink.Harmless s.disk s.epoch := by
  obtain ⟨⟨-, -, -, hlists⟩, rfl⟩ := guarded_eq_some.mp hstep
  constructor
  · intro hkept dir hdir
    refine .inr (UnlinkCalls.unlinked_eq_nil.mp (List.eq_nil_iff_forall_not_mem.mpr fun n hn => ?_))
    have hfile : s.disk.file s.epoch n ≠ none := by
      rw [Disk.file_of_dir hdir]
      exact fun hnone => AList.lookup_eq_none.mp hnone (hlists dir hdir n (unlink.mem_readdir hn))
    refine hkept s.epoch n hfile ?_
    rw [file_attempt h, if_pos ⟨rfl, hn⟩]
  · intro hharmless e n hfile
    rw [file_attempt h]
    split
    · rename_i hgone
      obtain ⟨rfl, hn⟩ := hgone
      exfalso
      cases hdir : s.disk.dir s.epoch with
      | none =>
          refine hfile ?_
          rw [Disk.file, hdir]
          rfl
      | some dir =>
          rcases hharmless dir hdir with hempty | hstops
          · have habsent : n ∉ dir := by
              rw [AList.mem_keys, hempty]
              exact List.not_mem_nil
            rw [Disk.file_of_dir hdir] at hfile
            exact hfile (AList.lookup_eq_none.mpr habsent)
          · rw [UnlinkCalls.unlinked_eq_nil.mpr hstops] at hn
            exact absurd hn List.not_mem_nil
    · exact hfile

/-! ### The coordinator makes this attempt -/

section Coordinator
open Coord Code

/-- A world with directories in which the calls of a failing attempt come to fixed outcomes. -/
def diskWorld (create : CreateCalls) (unlink : UnlinkCalls) :
    World CoordCall.Answer CoordInfo Disk where
  answer _ c d r d' :=
    match c, r with
    | .ckptdirCreate _ epoch, r => (r, d') = xndCkptdirCreate create epoch d
    | .ckptdirUnlink _ epoch, r => (r, d') = xndCkptdirUnlink unlink epoch d
    | _, _ => d' = d
  moves _ _ := False

variable {create : CreateCalls} {unlink : UnlinkCalls} {d : Disk}

/-- Assertions about the directories when the coordinator returns. -/
abbrev DiskWp {α : Type} (create : CreateCalls) (unlink : UnlinkCalls) (m : InfoM α) (s : CoordInfo)
    (d : Disk) (fin : CoordInfo → α → Disk → Prop) : Prop :=
  Wp (diskWorld create unlink) (fun _ _ => True) (fun _ _ _ => True) m s d fin

theorem wp_disk_call {c : CoordCall} {s : CoordInfo} {fin : CoordInfo → c.Answer → Disk → Prop}
    (h : ∀ r d', (diskWorld create unlink).answer s c d r d' → fin s r d') :
    DiskWp create unlink (Code.call c) s d fin :=
  Wp.call (fun d' => d' = d) (fun _ _ _ hm => hm.elim) rfl (fun _ _ => trivial)
    fun _ r d' hd ha => h r d' (hd ▸ ha)

theorem keeps_disk_call {I : CoordInfo → Disk → Prop} {c : CoordCall}
    (h : ∀ s d r d', (diskWorld create unlink).answer s c d r d' → d' = d) :
    Keeps (𝒲 := diskWorld create unlink) (fun _ _ => True) (fun _ _ _ => True) I
      (Code.call c : InfoM c.Answer) :=
  fun s d hI => wp_disk_call fun r d' ha => h s d r d' ha ▸ hI

/-- What is done to the list leaves the directories alone. -/
theorem upkeep_disk (create : CreateCalls) (unlink : UnlinkCalls) (d : Disk) :
    Upkeep (diskWorld create unlink) (fun _ _ => True) (fun _ _ _ => True) fun _ d' => d' = d where
  stop _ _ _ _ _ := trivial
  call c hc := keeps_disk_call fun s d r d' ha => by
    cases c <;> first | exact ha | cases hc
  remove p := by
    have close : ∀ fd, Keeps (𝒲 := diskWorld create unlink) (fun _ _ => True) (fun _ _ _ => True)
        (fun _ d' => d' = d) (closeIfOpen fd : InfoM Unit) := fun fd =>
      Keeps.ite (fun _ => keeps_disk_call fun _ _ _ _ ha => ha) fun _ => Keeps.pure ()
    intro s d' hd
    refine Wp.bind (M := fun _ _ d' => d' = d) (wp_listProc (fun _ => trivial) fun _ _ => hd) ?_
    intro s a d' hd
    refine Wp.modify_bind ((close a.fd _ d' hd).bind fun s _ d' hd => ?_)
    exact (close a.oobFd s d' hd).bind fun s _ d' hd => Wp.modify hd
  state _ _ := Keeps.modify fun _ _ h => h

/-- When the directory cannot be created, `coord_do_checkpoint` leaves the directories
as the attempt of the machine does; without a process it does not come so far. -/
theorem wp_coordDoCheckpoint {s : CoordInfo} {peers : List Nat}
    (h : (xndCkptdirCreate create s.epoch d).1 = false) (fuel : Nat) :
    DiskWp create unlink (coordDoCheckpoint fuel) s d fun _ _ d' => d' = d ∨
      d' = (System.attempt ⟨d, .running, s.epoch, peers, []⟩ create unlink).disk := by
  have U := (upkeep_disk create unlink d).toTurns
  refine Wp.get_bind (Wp.bind (M := fun _ _ d' => d' = d) (wp_disk_call fun _ _ ha => ha) ?_)
  intro s₁ _ d₁ hd₁
  refine (U.coordCollectivePrepare .broadcast fuel s₁ d₁ hd₁).bind fun s₂ total d₂ hd₂ => ?_
  refine Wp.ite (fun _ => wp_disk_call fun _ _ ha => .inl (Eq.trans ha hd₂)) fun _ => ?_
  refine (U.coordSuspendProcesses fuel s₂ d₂ hd₂).bind fun s₃ _ d₃ hd₃ => ?_
  subst hd₃
  refine Wp.bind (M := fun _ _ d' =>
    d' = (System.attempt ⟨d₃, .running, s.epoch, peers, []⟩ create unlink).disk) ?_ ?_
  · refine Wp.get_bind (Wp.bind (M := fun _ created d' =>
      (created, d') = xndCkptdirCreate create s.epoch d₃) (wp_disk_call fun _ _ ha => ha) ?_)
    intro s₄ created d₄ hcreate
    have hfails : created = false := (congrArg Prod.fst hcreate).trans h
    subst hfails
    refine Wp.get_bind (Wp.bind (M := fun _ _ d' =>
      d' = (System.attempt ⟨d₃, .running, s.epoch, peers, []⟩ create unlink).disk) ?_
      fun _ _ _ hd => Wp.pure hd)
    refine wp_disk_call fun r d' ha => ?_
    rw [System.attempt]
    dsimp only
    rw [← hcreate]
    exact congrArg Prod.snd ha
  · intro s₄ _ d₄ hd₄
    exact wp_disk_call fun _ _ ha => .inr (Eq.trans ha hd₄)

end Coordinator

/-! ## The copies of the images -/

/-- The id in the name of a compressed image. -/
def Name.compressedId : Name → Option Nat
  | .compressed id => some id
  | _ => none

/-- With a compressed image the uncompressed one is unlinked. -/
def UnlinkCalls.Pairs (o : UnlinkCalls) (d : Disk) (epoch : Nat) : Prop :=
  ∀ n ∈ o.unlinked, ∀ id ∈ n.compressedId, d.file epoch (.ckptfile id) ≠ none →
    .ckptfile id ∈ o.unlinked

/-- The steps of a run in which compression completes and no removal stops between the two
files of a process.  A process that does not live to report may have stopped anywhere,
but not in a directory with a manifest. -/
def Careful (s : System) : Step → Prop
  | .attempt _ unlink => unlink.Pairs s.disk s.epoch
  | .write p o reports =>
      if reports = true then o.Compresses p else manifestOf (s.disk.file p.epoch) = none
  | .resume unlink => unlink.Pairs s.disk (s.epoch - 1)
  | _ => True

instance (o : UnlinkCalls) (d : Disk) (epoch : Nat) : Decidable (o.Pairs d epoch) := by
  unfold UnlinkCalls.Pairs
  infer_instance

instance (s : System) (a : Step) : Decidable (Careful s a) := by
  unfold Careful
  split
  · infer_instance
  · infer_instance
  · infer_instance
  · infer_instance

/-- The directories hold what runs leave there: images named after their epoch and process,
and, where there is a manifest, a copy of each complete image that a restart unlinks. -/
structure Sound (d : Disk) : Prop where
  named : ∀ e, Named (d.file e) e
  backed : ∀ e, manifestOf (d.file e) ≠ none → ∀ id, Backed (d.file e) id

/-- The directory of a round, of which some peers have left `write_ckpt`. -/
structure RoundOk (s : System) (written : List (Nat × Bool)) : Prop where
  known : ∀ id, s.disk.file s.epoch (.ckptfile id) ≠ none → id ∈ written.map Prod.fst
  peers : ∀ id ∈ written.map Prod.fst, id ∈ s.peers
  backed : ∀ id, (id, true) ∈ written → Backed (s.disk.file s.epoch) id

/-- What a process that is restored finds as long as its image is there. -/
def Restored (d : Disk) (i : Image) : Prop :=
  i.useZlib = true → d.file i.epoch (.ckptfile i.xndPid) ≠ none → Copied (d.file i.epoch) i.xndPid

/-- **The invariant of runs.** -/
structure Kept (s : System) : Prop where
  sound : Sound s.disk
  round : ∀ written, s.phase = .round written → RoundOk s written
  restored : ∀ i ∈ s.restored, Restored s.disk i
  quiet : s.phase ≠ .running → s.restored = []

/-! ### What each function keeps -/

/-- A removal takes no copy from an image it leaves. -/
theorem Backed.xndCkptdirUnlink {o : UnlinkCalls} {epoch e id : Nat} {d : Disk}
    (hpairs : o.Pairs d epoch) (h : Backed (d.file e) id) :
    Backed ((xndCkptdirUnlink o epoch d).2.file e) id := by
  intro i hi hw hz
  rw [file_xndCkptdirUnlink] at hi
  split at hi
  · cases hi
  · rename_i hplain
    obtain ⟨j, hj, hjw⟩ := h i hi hw hz
    refine ⟨j, ?_, hjw⟩
    rw [file_xndCkptdirUnlink, if_neg, hj]
    rintro ⟨rfl, hgz⟩
    exact hplain ⟨rfl, hpairs _ hgz id rfl (by rw [hi]; nofun)⟩

theorem Sound.xndCkptdirUnlink {o : UnlinkCalls} {epoch : Nat} {d : Disk} (hpairs : o.Pairs d epoch)
    (h : Sound d) : Sound (xndCkptdirUnlink o epoch d).2 := by
  have left : ∀ {e n c}, (Ckptdir.xndCkptdirUnlink o epoch d).2.file e n = some c →
      d.file e n = some c := by
    intro e n c hc
    rw [file_xndCkptdirUnlink] at hc
    split at hc
    · cases hc
    · exact hc
  refine ⟨fun e id i hi => h.named e id i (hi.imp left left), fun e hm id => ?_⟩
  refine (h.backed e (fun hnone => hm ?_) id).xndCkptdirUnlink hpairs
  rw [manifestOf, file_xndCkptdirUnlink]
  split
  · rename_i ids hids
    split at hids
    · cases hids
    · rw [manifestOf, hids] at hnone
      cases hnone
  · rfl

theorem Sound.congr {d d' : Disk} (h : Sound d) (hfile : ∀ e n, d'.file e n = d.file e n) :
    Sound d' := by
  have hd : ∀ e, d'.file e = d.file e := fun e => funext (hfile e)
  refine ⟨fun e => ?_, fun e hm id => ?_⟩
  · rw [hd]
    exact h.named e
  · rw [hd] at hm ⊢
    exact h.backed e hm id

theorem manifestOf_writeCkpt {o : WriteCalls} {p : Client} {d : Disk} {e : Nat} :
    manifestOf ((writeCkpt o p d).2.file e) = manifestOf (d.file e) :=
  manifestOf_congr (file_writeCkpt nofun nofun)

/-- `write_ckpt` touches the files of its process only. -/
theorem Backed.writeCkpt_ne {o : WriteCalls} {p : Client} {d : Disk} {e id : Nat}
    (hid : e = p.epoch → id ≠ p.xndPid) (h : Backed (d.file e) id) :
    Backed ((writeCkpt o p d).2.file e) id := by
  by_cases he : e = p.epoch
  · exact h.congr (file_writeCkpt (fun hn => hid he (Name.ckptfile.inj hn)) nofun)
      (file_writeCkpt nofun fun hn => hid he (Name.compressed.inj hn))
  · rw [file_writeCkpt_ne he]
    exact h

theorem Sound.writeCkpt {o : WriteCalls} {p : Client} {d : Disk} {reports : Bool}
    (hcareful : if reports = true then o.Compresses p else manifestOf (d.file p.epoch) = none)
    (h : Sound d) : Sound (writeCkpt o p d).2 := by
  refine ⟨fun e => named_writeCkpt h.named e, fun e hm id => ?_⟩
  rw [manifestOf_writeCkpt] at hm
  by_cases hid : e = p.epoch ∧ id = p.xndPid
  · obtain ⟨rfl, rfl⟩ := hid
    cases reports with
    | true => exact backed_writeCkpt hcareful (h.backed _ hm _)
    | false => exact absurd hcareful hm
  · exact (h.backed e hm id).writeCkpt_ne fun he heq => hid ⟨he, heq⟩

/-! ### What each step keeps -/

namespace Kept
variable {s s' : System}

theorem attempt {create : CreateCalls} {unlink : UnlinkCalls} (hpairs : unlink.Pairs s.disk s.epoch)
    (hphase : s.phase = .running) (hrestored : s.restored = []) (h : Kept s) :
    Kept (s.attempt create unlink) := by
  have hfile := file_xndCkptdirCreate create s.epoch s.disk
  have hcreated : (xndCkptdirCreate create s.epoch s.disk).1 = true →
      ∀ n, s.disk.file s.epoch n = none := file_of_created
  rw [System.attempt]
  split
  · rename_i disk hres
    rw [hres] at hfile hcreated
    refine ⟨h.sound.congr hfile, ?_, ?_, fun _ => hrestored⟩
    · rintro written hw
      cases hw
      have habsent : ∀ n, disk.file s.epoch n = none := fun n => (hfile _ _).trans (hcreated rfl n)
      exact ⟨fun id hid => absurd (habsent _) hid, fun id hid => absurd hid List.not_mem_nil,
        fun id hid => absurd hid List.not_mem_nil⟩
    · intro i hi
      rw [hrestored] at hi
      exact absurd hi List.not_mem_nil
  · rename_i disk hres
    rw [hres] at hfile
    have hpairs' : unlink.Pairs disk s.epoch := fun n hn id hid hplain =>
      hpairs n hn id hid (hfile _ _ ▸ hplain)
    refine ⟨(h.sound.congr hfile).xndCkptdirUnlink hpairs', ?_, ?_, fun _ => hrestored⟩
    · intro written hw
      rw [hphase] at hw
      cases hw
    · intro i hi
      rw [hrestored] at hi
      exact absurd hi List.not_mem_nil

theorem write {p : Client} {o : WriteCalls} {reports : Bool} {written : List (Nat × Bool)}
    (hcareful : if reports = true then o.Compresses p
      else manifestOf (s.disk.file p.epoch) = none)
    (hphase : s.phase = .round written) (hpeer : p.xndPid ∈ s.peers)
    (hnew : p.xndPid ∉ written.map Prod.fst) (h : Kept s) :
    Kept { s with
      disk := (writeCkpt o p s.disk).2
      phase := .round ((p.xndPid, reports) :: written) } := by
  have hround := h.round written hphase
  have hquiet : s.restored = [] := h.quiet (by rw [hphase]; nofun)
  refine ⟨h.sound.writeCkpt hcareful, ?_, ?_, fun _ => hquiet⟩
  · rintro written' hw
    cases hw
    refine ⟨fun id hid => ?_, fun id hid => ?_, fun id hid => ?_⟩
    · by_cases heq : id = p.xndPid
      · subst heq
        exact List.mem_cons_self
      · refine List.mem_cons_of_mem _ (hround.known id fun hnone => hid ?_)
        exact absent_writeCkpt hnone heq
    · rcases List.mem_cons.mp hid with rfl | hid
      · exact hpeer
      · exact hround.peers id hid
    · rcases List.mem_cons.mp hid with heq | hid
      · obtain ⟨rfl, rfl⟩ := Prod.mk.inj heq
        -- The process had no image in the directory of the round before.
        have habsent : s.disk.file s.epoch (.ckptfile p.xndPid) = none := by
          by_contra hplain
          exact hnew (hround.known _ hplain)
        by_cases he : s.epoch = p.epoch
        · show Backed ((writeCkpt o p s.disk).2.file s.epoch) _
          rw [he] at habsent ⊢
          exact backed_writeCkpt hcareful (.of_absent habsent)
        · exact (Backed.of_absent habsent).writeCkpt_ne fun heq => absurd heq he
      · refine (hround.backed id hid).writeCkpt_ne fun _ heq => hnew ?_
        rw [← heq]
        exact List.mem_map_of_mem hid
  · intro i hi
    rw [show s.restored = [] from hquiet] at hi
    exact absurd hi List.not_mem_nil

/-- The manifest is written when the copies of the round are complete. -/
theorem commit {o : ManifestCalls} {written : List (Nat × Bool)} (hphase : s.phase = .round written)
    (hall : ∀ id ∈ s.peers, (id, true) ∈ written) (h : Kept s) : Kept (s.commit o) := by
  have hround := h.round written hphase
  have hquiet : s.restored = [] := h.quiet (by rw [hphase]; nofun)
  have hfile : ∀ e n, n ≠ .manifest →
      (xndCkptfileWriteManifest o s.peers s.epoch s.disk).2.file e n = s.disk.file e n :=
    fun e n hn => file_writeManifest fun _ => hn
  have hne : ∀ e, e ≠ s.epoch → ∀ n,
      (xndCkptfileWriteManifest o s.peers s.epoch s.disk).2.file e n = s.disk.file e n :=
    fun e he n => file_writeManifest fun heq => absurd heq he
  have hbacked : ∀ e id, Backed (s.disk.file e) id →
      Backed ((xndCkptfileWriteManifest o s.peers s.epoch s.disk).2.file e) id :=
    fun e id hb => hb.congr (hfile _ _ nofun) (hfile _ _ nofun)
  have hhere : ∀ id, Backed (s.disk.file s.epoch) id := by
    intro id
    by_cases hplain : s.disk.file s.epoch (.ckptfile id) = none
    · exact .of_absent hplain
    · exact hround.backed id (hall id (hround.peers id (hround.known id hplain)))
  have hsound : Sound (xndCkptfileWriteManifest o s.peers s.epoch s.disk).2 := by
    refine ⟨fun e id i hi => h.sound.named e id i ?_, fun e hm id => hbacked e id ?_⟩
    · rwa [hfile e (.ckptfile id) nofun, hfile e (.compressed id) nofun] at hi
    · by_cases he : e = s.epoch
      · subst he
        exact hhere id
      · refine h.sound.backed e (fun hnone => hm ?_) id
        rw [manifestOf_congr (hne e he _), hnone]
  rw [System.commit]
  split
  all_goals
    rename_i disk hres
    rw [hres] at hsound
    refine ⟨hsound, nofun, fun i hi => ?_, fun _ => hquiet⟩
    rw [show s.restored = [] from hquiet] at hi
    exact absurd hi List.not_mem_nil

theorem resume {unlink : UnlinkCalls} (hpairs : unlink.Pairs s.disk (s.epoch - 1))
    (hphase : s.phase = .committed) (h : Kept s) : Kept (s.resume unlink) := by
  have hquiet : s.restored = [] := h.quiet (by rw [hphase]; nofun)
  refine ⟨?_, nofun, fun i hi => ?_, fun _ => hquiet⟩
  · show Sound (if _ then _ else _)
    split
    · exact h.sound.xndCkptdirUnlink hpairs
    · exact h.sound
  · rw [show (s.resume unlink).restored = [] from hquiet] at hi
    exact absurd hi List.not_mem_nil

theorem restart {epoch : Nat} {o : Nat → TargetCalls} {ids : List Nat} {dir : Dir}
    (hphase : s.phase = .down) (hdir : s.disk.dir epoch = some dir)
    (hids : manifestOf dir.file = some ids) (h : Kept s) : Kept (s.restart epoch o ids dir) := by
  have hquiet : s.restored = [] := h.quiet (by rw [hphase]; nofun)
  have hstart : Restartable dir epoch := by
    have hnamed := h.sound.named epoch
    have hbacked := h.sound.backed epoch
    rw [Disk.file_of_dir hdir] at hnamed hbacked
    exact ⟨hnamed, hbacked (by rw [hids]; nofun)⟩
  obtain ⟨hend, himages⟩ := hstart.restartTargets o ids
  have hhere : (s.disk.setDir epoch (some (restartTargets o ids dir).2)).file epoch =
      (restartTargets o ids dir).2.file := Disk.file_setDir_same hdir
  have hsound : Sound (s.disk.setDir epoch (some (restartTargets o ids dir).2)) := by
    refine ⟨fun e => ?_, fun e hm id => ?_⟩
    all_goals by_cases he : e = epoch
    · rw [he, hhere]
      exact hend.named
    · rw [Disk.file_setDir_ne he]
      exact h.sound.named e
    · rw [he, hhere]
      exact hend.backed id
    · rw [Disk.file_setDir_ne he] at hm ⊢
      exact h.sound.backed e hm id
  rw [System.restart]
  dsimp only
  split
  · rename_i i rest hres
    refine ⟨hsound, nofun, fun j hj hz _ => ?_, fun hne => absurd rfl hne⟩
    obtain ⟨hepoch, hcopied⟩ := himages _ hres j hj
    show Copied ((s.disk.setDir epoch (some (restartTargets o ids dir).2)).file j.epoch) _
    rw [hepoch, hhere]
    exact hcopied hz
  · refine ⟨hsound, fun written hw => ?_, fun i hi => ?_, fun _ => hquiet⟩
    · rw [show s.phase = .down from hphase] at hw
      cases hw
    · rw [show s.restored = [] from hquiet] at hi
      exact absurd hi List.not_mem_nil

/-- What the end of `xnd_postrestart_early` removes. -/
theorem file_xndPostrestartEarly (o : EarlyCalls) (i : Image) (d : Disk) (e : Nat) (n : Name) :
    (xndPostrestartEarly o i d).2.file e n = d.file e n ∨
      n = .ckptfile i.xndPid ∧ (xndPostrestartEarly o i d).2.file e n = none := by
  unfold xndPostrestartEarly
  split
  · split
    · exact .inl rfl
    · rename_i dir hdir
      split
      · by_cases he : e = i.epoch
        · subst he
          rw [Disk.file_setDir_same hdir, Disk.file_of_dir hdir]
          by_cases hn : n = .ckptfile i.xndPid
          · rw [hn]
            exact .inr ⟨rfl, AList.lookup_erase _ dir⟩
          · exact .inl (AList.lookup_erase_ne hn)
        · exact .inl (by rw [Disk.file_setDir_ne he])
      · exact .inl rfl
  · exact .inl rfl

theorem early {i : Image} {o : EarlyCalls} (hphase : s.phase = .running) (h : Kept s) :
    Kept { s with disk := (xndPostrestartEarly o i s.disk).2, restored := s.restored.erase i } := by
  have hfile := file_xndPostrestartEarly o i s.disk
  have left : ∀ {e n c}, (xndPostrestartEarly o i s.disk).2.file e n = some c →
      s.disk.file e n = some c := by
    intro e n c hc
    rcases hfile e n with hn | ⟨-, hn⟩
    · exact hn.symm.trans hc
    · rw [hn] at hc
      cases hc
  have other : ∀ e n, (∀ id, n ≠ .ckptfile id) →
      (xndPostrestartEarly o i s.disk).2.file e n = s.disk.file e n := fun e n hn =>
    (hfile e n).resolve_right fun hplain => hn _ hplain.1
  refine ⟨⟨fun e id j hj => h.sound.named e id j (hj.imp left left), fun e hm id => ?_⟩, ?_, ?_,
    fun hne => absurd hphase hne⟩
  · intro j hj hw hz
    rw [manifestOf_congr (other e .manifest nofun)] at hm
    exact (h.sound.backed e hm id j (left hj) hw hz).congr (other e _ nofun)
  · intro written hw
    rw [show s.phase = .running from hphase] at hw
    cases hw
  · intro j hj hz hplain
    refine (h.restored j (List.mem_of_mem_erase hj) hz fun hnone => hplain ?_).congr
      (other _ _ nofun)
    rcases hfile j.epoch (.ckptfile j.xndPid) with hn | ⟨-, hn⟩
    · exact hn.trans hnone
    · exact hn

/-- **One step.** -/
theorem step {a : Step} (h : Kept s) (ha : Careful s a) (hs : Ckptdir.step s a = some s') :
    Kept s' := by
  cases a with
  | members peers =>
      obtain ⟨hphase, rfl⟩ := guarded_eq_some.mp hs
      refine ⟨h.sound, fun written hw => ?_, fun i hi => h.restored i (List.mem_filter.mp hi).1,
        fun hne => absurd hphase hne⟩
      rw [show s.phase = .running from hphase] at hw
      cases hw
  | attempt create unlink =>
      obtain ⟨⟨hphase, -, hrestored, -⟩, rfl⟩ := guarded_eq_some.mp hs
      exact h.attempt ha hphase hrestored
  | write p o reports =>
      simp only [Ckptdir.step] at hs
      split at hs
      · rename_i written hphase
        obtain ⟨⟨hpeer, hnew⟩, rfl⟩ := guarded_eq_some.mp hs
        exact h.write ha hphase hpeer hnew
      · cases hs
  | commit o =>
      simp only [Ckptdir.step] at hs
      split at hs
      · rename_i written hphase
        obtain ⟨hall, rfl⟩ := guarded_eq_some.mp hs
        exact h.commit hphase hall
      · cases hs
  | resume unlink =>
      obtain ⟨⟨hphase, -⟩, rfl⟩ := guarded_eq_some.mp hs
      exact h.resume ha hphase
  | crash =>
      cases hs
      exact ⟨h.sound, nofun, fun _ hi => absurd hi List.not_mem_nil, fun _ => rfl⟩
  | restart epoch o =>
      simp only [Ckptdir.step] at hs
      split at hs
      · cases hs
      · rename_i dir hdir
        split at hs
        · cases hs
        · rename_i ids hids
          obtain ⟨hphase, rfl⟩ := guarded_eq_some.mp hs
          exact h.restart hphase hdir hids
  | early i o =>
      obtain ⟨⟨hphase, -⟩, rfl⟩ := guarded_eq_some.mp hs
      exact h.early hphase

theorem launched {disk : Disk} (h : Sound disk) (peers : List Nat) :
    Kept (System.launched disk peers) :=
  ⟨h, nofun, fun _ hi => absurd hi List.not_mem_nil, fun hne => absurd rfl hne⟩

end Kept

/-- There is a complete compressed image of a process and an epoch. -/
def Disk.HasCopy (d : Disk) (epoch xndPid : Nat) : Prop :=
  ∃ j : Image, d.file epoch (.compressed xndPid) = some (.image j) ∧ j.Whole ∧
    j.xndPid = xndPid ∧ j.epoch = epoch

/-- In a state of a run, an image is unlinked only when it has been copied. -/
theorem Kept.hasCopy {s s' : System} {i : Image} {o : EarlyCalls} (h : Kept s)
    (hs : Ckptdir.step s (.early i o) = some s') (hunlinked : (xndPostrestartEarly o i s.disk).1 = true) :
    s'.disk.HasCopy i.epoch i.xndPid := by
  obtain ⟨⟨hphase, hi⟩, rfl⟩ := guarded_eq_some.mp hs
  have hzlib : i.useZlib = true := by
    by_contra hz
    rw [xndPostrestartEarly, if_neg hz] at hunlinked
    cases hunlinked
  have hplain : s.disk.file i.epoch (.ckptfile i.xndPid) ≠ none := by
    rw [xndPostrestartEarly, if_pos hzlib] at hunlinked
    split at hunlinked
    · cases hunlinked
    · rename_i dir hdir
      split at hunlinked
      · rename_i ho
        rw [Disk.file_of_dir hdir]
        exact fun hnone => AList.lookup_eq_none.mp hnone ho.2.2
      · cases hunlinked
  obtain ⟨j, hj, hw⟩ := h.restored i hi hzlib hplain
  obtain ⟨hepoch, hid⟩ := h.sound.named i.epoch i.xndPid j (.inr hj)
  refine ⟨j, ?_, hw, hid, hepoch⟩
  rcases Kept.file_xndPostrestartEarly o i s.disk i.epoch (.compressed i.xndPid) with hn | ⟨hn, -⟩
  · exact hn.trans hj
  · cases hn

/-- **No only copy is deleted.** A failed attempt removes no file exactly when there is none in
the way of its clean-up; and an image that is unlinked after a restart has a complete
compressed copy, in runs whose compressions complete. -/
theorem copies_kept (s s' : System) :
    (∀ (create : CreateCalls) (unlink : UnlinkCalls),
      step s (.attempt create unlink) = some s' →
      (xndCkptdirCreate create s.epoch s.disk).1 = false →
      (FilesKept s.disk s'.disk ↔ unlink.Harmless s.disk s.epoch)) ∧
    ∀ (disk : Disk) (peers : List Nat) (i : Image) (o : EarlyCalls), Sound disk →
      Machine.Runs step Careful (System.launched disk peers) s →
      step s (.early i o) = some s' → (xndPostrestartEarly o i s.disk).1 = true →
      s'.disk.HasCopy i.epoch i.xndPid := by
  refine ⟨fun create unlink hstep hfails => attempt_keeps_iff hstep hfails, ?_⟩
  intro disk peers i o hsound hruns hstep hunlinked
  have hkept : Kept s := hruns.invariant (fun _ _ _ h ha hs => h.step ha hs)
    (Kept.launched hsound peers)
  exact hkept.hasCopy hstep hunlinked

/-! ### Runs -/

/-- Every call succeeds. -/
def creates : CreateCalls := ⟨true, true, true, true⟩

def unlinks (names : List Name) : UnlinkCalls := ⟨true, names, fun _ => true, true⟩

def writes (deflate : Stream) : WriteCalls := ⟨true, true, 5, ⟨true, true, deflate, true⟩⟩

def targets : Nat → TargetCalls := fun _ => ⟨true, ⟨true, true, .whole⟩, true⟩

/-- A round of one process, up to its manifest. -/
def roundOf (epoch : Nat) (useZlib : Bool) (deflate : Stream) : List Step :=
  [.attempt creates (unlinks []), .write ⟨1000, epoch, useZlib, 5⟩ (writes deflate) true,
    .commit ⟨true, true, fun _ => true, true⟩]

/-- The process comes back with its image of the epoch 0. -/
def restoredImage (useZlib : Bool) : Image := ⟨1000, 0, useZlib, 5, 5⟩

theorem sound_none : Sound none where
  named _ _ _ hi := by rcases hi with hi | hi <;> cases hi
  backed _ hm := absurd rfl hm

/-- The first round is committed, and its process is restarted from it. -/
theorem copies_kept_firstRound : ∃ s s', Machine.Runs step Careful (System.launched none [1000]) s ∧
    step s (.early (restoredImage true) ⟨true, true⟩) = some s' ∧
    (xndPostrestartEarly ⟨true, true⟩ (restoredImage true) s.disk).1 = true ∧
    s'.disk.HasCopy 0 1000 := by
  obtain ⟨s, hruns, hs⟩ := Machine.exists_runs step Careful (System.launched none [1000])
    (fun s => (step s (.early (restoredImage true) ⟨true, true⟩)).isSome &&
      (xndPostrestartEarly ⟨true, true⟩ (restoredImage true) s.disk).1)
    (roundOf 0 true .whole ++ [.crash, .restart 0 targets]) (by decide +kernel)
  rw [Bool.and_eq_true] at hs
  obtain ⟨s', hs'⟩ := Option.isSome_iff_exists.mp hs.1
  exact ⟨s, s', hruns, hs', hs.2, (copies_kept s s').2 none [1000] _ _ sound_none hruns hs' hs.2⟩

/-- A second round is committed, but the computation is restarted from the first: the next
attempt finds the directory of the second round and removes its image.  And an image that
could not be compressed is unlinked after a restart. -/
theorem not_copies_kept :
    (∃ s s' unlink, Machine.Runs step (fun _ _ => True) (System.launched none [1000]) s ∧
      step s (.attempt creates unlink) = some s' ∧
      (xndCkptdirCreate creates s.epoch s.disk).1 = false ∧ ¬ FilesKept s.disk s'.disk) ∧
    ∃ s s', Machine.Runs step (fun _ _ => True) (System.launched none [1000]) s ∧
      step s (.early (restoredImage true) ⟨true, true⟩) = some s' ∧
      (xndPostrestartEarly ⟨true, true⟩ (restoredImage true) s.disk).1 = true ∧
      ¬ s'.disk.HasCopy 0 1000 := by
  constructor
  · let unlink := unlinks [.manifest, .ckptfile 1000]
    obtain ⟨s, hruns, hs⟩ := Machine.exists_runs step (fun _ _ => True)
      (System.launched none [1000])
      (fun s => !(xndCkptdirCreate creates s.epoch s.disk).1 &&
        (step s (.attempt creates unlink)).any fun s' =>
          (s.disk.file 1 (.ckptfile 1000)).isSome && (s'.disk.file 1 (.ckptfile 1000)).isNone)
      (roundOf 0 false .whole ++ [.resume (unlinks [])] ++ roundOf 1 false .whole ++
        [.crash, .restart 0 targets, .early (restoredImage false) ⟨true, true⟩])
      (by decide +kernel)
    rw [Bool.and_eq_true, Bool.not_eq_true'] at hs
    obtain ⟨hfails, hs⟩ := hs
    obtain ⟨s', hs', hfiles⟩ := (Option.any_eq_true ..).mp hs
    rw [Bool.and_eq_true] at hfiles
    refine ⟨s, s', unlink, hruns, hs', hfails, fun hkept => ?_⟩
    exact hkept 1 (.ckptfile 1000) (Option.isSome_iff_ne_none.mp hfiles.1)
      (Option.isNone_iff_eq_none.mp hfiles.2)
  · obtain ⟨s, hruns, hs⟩ := Machine.exists_runs step (fun _ _ => True)
      (System.launched none [1000])
      (fun s => (xndPostrestartEarly ⟨true, true⟩ (restoredImage true) s.disk).1 &&
        (step s (.early (restoredImage true) ⟨true, true⟩)).any fun s' =>
          s'.disk.file 0 (.compressed 1000) = some (.image ⟨1000, 0, true, 5, 3⟩))
      (roundOf 0 true (.part 3) ++ [.crash, .restart 0 targets])
      (by decide +kernel)
    rw [Bool.and_eq_true] at hs
    obtain ⟨hunlinked, hs⟩ := hs
    obtain ⟨s', hs', hfile⟩ := (Option.any_eq_true ..).mp hs
    refine ⟨s, s', hruns, hs', hunlinked, ?_⟩
    rintro ⟨j, hj, hw, -⟩
    obtain rfl := Content.image.inj (Option.some.inj ((of_decide_eq_true hfile).symm.trans hj))
    exact absurd hw (by decide)

end Xnd.Ckptdir
