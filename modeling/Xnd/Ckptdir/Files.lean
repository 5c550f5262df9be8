import Mathlib.Algebra.Group.Nat.Defs
import Mathlib.Data.List.AList
import Mathlib.Logic.Function.Basic

/-!
# The checkpoint directories

The functions that create and remove files under `<uuid>-checkpoints`: `ckptfile.c`,
the files of `write_ckpt`, `compress.c`, and the two places of a restart that touch the
directory it is made from.

The contents of an image are told apart only by how far they go: an image is a number of
pieces, the header and the entries, of which the first ones are in the file.  A compressed
file is what inflating it gives.

What a call comes to beyond what the directories decide (an entry that is already there,
one that is missing) is not fixed: each function takes the outcomes of its calls.
-/
namespace Xnd.Ckptdir
open Function (update)

/-- The checkpoint of one process, as far as it is in a file. -/
structure Image where
  xndPid : Nat
  epoch : Nat
  /-- `XND_USE_ZLIB` in the environment of the process, which is part of its memory. -/
  useZlib : Bool
  /-- The pieces there would be: the header and its `entry_count` entries. -/
  size : Nat
  pieces : Nat
  deriving DecidableEq, Repr

namespace Image

/-- All the pieces are there. -/
def Whole (i : Image) : Prop := i.size ≤ i.pieces

instance (i : Image) : Decidable i.Whole := inferInstanceAs (Decidable (_ ≤ _))

/-- The first `k` pieces. -/
def cut (i : Image) (k : Nat) : Image := { i with pieces := min k i.pieces }

theorem Whole.of_cut {i : Image} {k : Nat} (h : (i.cut k).Whole) : i.Whole :=
  le_trans h (Nat.min_le_right _ _)

end Image

/-- The names in a directory: `XND_CKPTFILE_FMT`, `XND_COMPRESSED_CKPT_FMT`,
`XND_MANIFEST_NAME` and those that `xnd` does not give. -/
inductive Name where
  | ckptfile (xndPid : Nat)
  | compressed (xndPid : Nat)
  | manifest
  | other (name : String)
  deriving DecidableEq, Repr

inductive Content where
  | image (i : Image)
  | manifest (xndPids : List Nat)
  | other
  deriving DecidableEq, Repr

/-- What is left of a file of which the first `k` pieces are written. -/
def Content.cut (k : Nat) : Content → Content
  | .image i => .image (i.cut k)
  | _ => .other

/-- An `epoch-<n>` directory. -/
abbrev Dir := AList fun _ : Name => Content

/-- The directory `<uuid>-checkpoints` of a computation, when there is one. -/
abbrev Disk := Option (Nat → Option Dir)

namespace Disk

/-- The directory of an epoch. -/
def dir (d : Disk) (epoch : Nat) : Option Dir := d.bind fun sub => sub epoch

def setDir (d : Disk) (epoch : Nat) (dir : Option Dir) : Disk :=
  d.map fun sub => update sub epoch dir

variable {d : Disk} {epoch e : Nat} {dir x : Option Dir}

theorem dir_setDir_ne (h : e ≠ epoch) : (d.setDir epoch dir).dir e = d.dir e := by
  cases d with
  | none => rfl
  | some sub => exact Function.update_of_ne h _ _

theorem dir_setDir_same (h : (d.dir epoch).isSome) : (d.setDir epoch dir).dir epoch = dir := by
  cases d with
  | none => cases h
  | some sub => exact Function.update_self ..

end Disk

/-! ## Creation -/

structure CreateCalls where
  access : Bool
  mkdir : Bool
  opendir : Bool
  mkdirat : Bool
  deriving DecidableEq, Repr

/-- `xnd_ckptdir_create`: whether it returns 0. -/
def xndCkptdirCreate (o : CreateCalls) (epoch : Nat) (d : Disk) : Bool × Disk :=
  let made : Option (Nat → Option Dir) :=
    match d with
    | some sub => if o.access = true then some sub else none
    | none => if o.mkdir = true then some fun _ => none else none
  match made with
  | none => (false, d)
  | some sub =>
      if o.opendir = true ∧ o.mkdirat = true ∧ (sub epoch).isNone then
        (true, some (update sub epoch (some ∅)))
      else (false, some sub)

/-! ## Removal -/

structure UnlinkCalls where
  opendir : Bool
  /-- The entries that `readdir` returns. -/
  readdir : List Name
  unlink : Name → Bool
  rmdir : Bool

namespace UnlinkCalls

/-- The entries that are unlinked: those before the first that is not. -/
def unlinked (o : UnlinkCalls) : List Name :=
  if o.opendir = true then o.readdir.takeWhile o.unlink else []

end UnlinkCalls

/-- The loop of `xnd_ckptdir_unlink`: whether every entry was unlinked. -/
def unlinkLoop (unlink : Name → Bool) : List Name → Dir → Bool × Dir
  | [], dir => (true, dir)
  | n :: rest, dir =>
      if unlink n = true then unlinkLoop unlink rest (dir.erase n) else (false, dir)

/-- `xnd_ckptdir_unlink`, which goes on to the directory itself when no entry was in the
way. -/
def xndCkptdirUnlink (o : UnlinkCalls) (epoch : Nat) (d : Disk) : Bool × Disk :=
  match d.dir epoch with
  | none => (false, d)
  | some dir =>
      if o.opendir = true then
        match unlinkLoop o.unlink o.readdir dir with
        | (false, dir) => (false, d.setDir epoch (some dir))
        | (true, dir) =>
            if o.rmdir = true ∧ dir.keys = [] then (true, d.setDir epoch none)
            else (false, d.setDir epoch (some dir))
      else (false, d)

/-! ## Streams -/

/-- How `do_compress` and `do_decompress` end: with 0, with -1 after some output, with -1
before any. -/
inductive Stream where
  | whole
  | part (pieces : Nat)
  | nothing
  deriving DecidableEq, Repr

/-- The target of a stream, which was opened with `O_CREAT` and held `old`. -/
def Stream.target (old : Option Content) (source : Content) : Stream → Content
  | .whole => source
  | .part k => source.cut k
  | .nothing => old.getD (source.cut 0)

structure CompressCalls where
  openSource : Bool
  openTarget : Bool
  deflate : Stream
  unlink : Bool
  deriving DecidableEq, Repr

/-- `xnd_compress_ckpt`: whether it returns 0. -/
def xndCompressCkpt (o : CompressCalls) (xndPid : Nat) (dir : Dir) : Bool × Dir :=
  match dir.lookup (.ckptfile xndPid) with
  | none => (false, dir)
  | some source =>
      if o.openSource = true ∧ o.openTarget = true then
        let target := o.deflate.target (dir.lookup (.compressed xndPid)) source
        let dir := dir.insert (.compressed xndPid) target
        if o.deflate = .whole then
          (true, if o.unlink = true then dir.erase (.ckptfile xndPid) else dir)
        else (false, dir)
      else (false, dir)

structure DecompressCalls where
  openSource : Bool
  openTarget : Bool
  inflate : Stream
  deriving DecidableEq, Repr

/-- `xnd_decompress_ckpt`: whether it returns 0. -/
def xndDecompressCkpt (o : DecompressCalls) (xndPid : Nat) (dir : Dir) : Bool × Dir :=
  match dir.lookup (.compressed xndPid) with
  | none => (false, dir)
  | some source =>
      if o.openSource = true ∧ o.openTarget = true then
        let target := o.inflate.target (dir.lookup (.ckptfile xndPid)) source
        (o.inflate = .whole, dir.insert (.ckptfile xndPid) target)
      else (false, dir)

/-! ## Writing an image -/

/-- What `write_ckpt` knows of its process. -/
structure Client where
  xndPid : Nat
  epoch : Nat
  useZlib : Bool
  size : Nat
  deriving DecidableEq, Repr

structure WriteCalls where
  opendir : Bool
  create : Bool
  /-- The pieces that are written before a write fails. -/
  pieces : Nat
  compress : CompressCalls
  deriving DecidableEq, Repr

/-- The image that a process writes, up to a number of pieces. -/
def Client.image (p : Client) (pieces : Nat) : Image where
  xndPid := p.xndPid
  epoch := p.epoch
  useZlib := p.useZlib
  size := p.size
  pieces := min pieces p.size

/-- `write_ckpt`: whether it returns 0. -/
def writeCkpt (o : WriteCalls) (p : Client) (d : Disk) : Bool × Disk :=
  match d.dir p.epoch with
  | none => (false, d)
  | some dir =>
      if o.opendir = true ∧ o.create = true ∧ .ckptfile p.xndPid ∉ dir then
        let dir := dir.insert (.ckptfile p.xndPid) (.image (p.image o.pieces))
        if o.pieces < p.size then (false, d.setDir p.epoch (some dir))
        else if p.useZlib = true then
          let (ok, dir) := xndCompressCkpt o.compress p.xndPid dir
          (ok, d.setDir p.epoch (some dir))
        else (true, d.setDir p.epoch (some dir))
      else (false, d)

structure ManifestCalls where
  opendir : Bool
  create : Bool
  access : Name → Bool
  write : Bool

/-- `XND_MANIFEST_ENTRY_MAX` -/
def manifestEntryMax : Nat := 256

/-- The loop of `xnd_ckptfile_write_manifest`: the ids of a range for which there is a
checkpoint file. -/
def scanCkptfiles (access : Name → Bool) (dir : Dir) (min max : Nat) : List Nat :=
  (List.range' min (max + 1 - min)).filter fun id =>
    [Name.ckptfile id, .compressed id].any fun n => access n && decide (n ∈ dir)

/-- `xnd_ckptfile_write_manifest` for the ids of a round: whether it returns 0. -/
def xndCkptfileWriteManifest (o : ManifestCalls) (xndPids : List Nat) (epoch : Nat) (d : Disk) :
    Bool × Disk :=
  match d.dir epoch with
  | none => (false, d)
  | some dir =>
      if o.opendir = true ∧ o.create = true ∧ .manifest ∉ dir then
        let ids := scanCkptfiles o.access dir (xndPids.foldr min (2 ^ 32 - 1)) (xndPids.foldr max 0)
        if ids.length = xndPids.length ∧ o.write = true then
          let manifest := Content.manifest (ids.take manifestEntryMax)
          (true, d.setDir epoch (some (dir.insert .manifest manifest)))
        else (false, d.setDir epoch (some (dir.insert .manifest .other)))
      else (false, d)

/-! ## Restarting -/

structure TargetCalls where
  access : Bool
  decompress : DecompressCalls
  /-- The checkpoint file is opened and its header read. -/
  read : Bool
  deriving DecidableEq, Repr

/-- `xnd_restart_target` for an id of the manifest: the image it goes on with, unless it
exits. -/
def xndRestartTarget (o : TargetCalls) (xndPid : Nat) (dir : Dir) : Option Image × Dir :=
  let (ok, dir) :=
    if o.access = true ∧ .ckptfile xndPid ∈ dir then (true, dir)
    else xndDecompressCkpt o.decompress xndPid dir
  match dir.lookup (.ckptfile xndPid) with
  | some (.image i) =>
      if ok = true ∧ o.read = true ∧ i.pieces ≠ 0 ∧ i.xndPid = xndPid then (some i, dir)
      else (none, dir)
  | _ => (none, dir)

/-- The targets of a manifest, one after the other, and the images that are restored
when all of them can be read to their end. -/
def restartTargets (o : Nat → TargetCalls) : List Nat → Dir → Option (List Image) × Dir
  | [], dir => (some [], dir)
  | id :: rest, dir =>
      match xndRestartTarget (o id) id dir with
      | (none, dir) => (none, dir)
      | (some i, dir) =>
          let (images, dir) := restartTargets o rest dir
          (if i.Whole then images.map (i :: ·) else none, dir)

structure EarlyCalls where
  opendir : Bool
  unlinkat : Bool
  deriving DecidableEq, Repr

/-- The end of `xnd_postrestart_early`, in a process that came back with the image `i`:
whether the uncompressed image is unlinked. -/
def xndPostrestartEarly (o : EarlyCalls) (i : Image) (d : Disk) : Bool × Disk :=
  if i.useZlib = true then
    match d.dir i.epoch with
    | none => (false, d)
    | some dir =>
        if o.opendir = true ∧ o.unlinkat = true ∧ .ckptfile i.xndPid ∈ dir then
          (true, d.setDir i.epoch (some (dir.erase (.ckptfile i.xndPid))))
        else (false, d)
  else (false, d)

end Xnd.Ckptdir
