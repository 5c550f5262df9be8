import Xnd.Image.Region

/-!
# Saving a process

`write_ckpt` with what it calls.  What the system answers to a call, how many bytes a
write transfers, whether a seek, a change of protection or a query of pages succeeds, is
not fixed: `Answers` holds the answers to the calls for one entry.

A read that faults is a write that transfers nothing, so the contents of memory are read
here whatever the protection is.
-/
namespace Xnd.Image

/-- The answers of the system while one entry is written: the bytes that each write
transfers at most, and whether the other calls succeed. -/
structure Answers where
  /-- The tag of the entry. -/
  tag : Nat
  /-- The context. -/
  context : Nat
  /-- The record of a region. -/
  record : Nat
  /-- The pages of a region that is saved in full. -/
  page : Nat → Nat
  /-- The record that is written once more. -/
  rewrite : Nat
  /-- The seeks: the offset of the record, the offset of the pages, back over a part of a
  page, the offset after the pages, back to the record, forth again. -/
  lseek : Nat → Bool
  /-- `mach_vm_page_range_query`: whether each page is dirty. -/
  query : Option (List Bool)
  /-- The offsets of the dirty pages. -/
  offset : Nat → Nat
  /-- The contents of the dirty pages. -/
  body : Nat → Nat

/-- How a function comes back: with 0, with -1, or not at all. -/
inductive Status where
  | ok | failed | aborted
  deriving DecidableEq, Repr

/-- The process that is saved, and its image. -/
structure Saving where
  vm : Vm
  file : File
  /-- Some write has transferred less than all its bytes. -/
  short : Bool

namespace Saving

/-- `writeall`, when the system transfers at most `k` bytes. -/
def writeall (s : Saving) (bs : List UInt8) (k : Nat) : Nat × Saving :=
  (min k bs.length, { s with
    file := s.file.write (bs.take k)
    short := s.short || decide (k < bs.length) })

def seek (s : Saving) (pos : Nat) : Saving := { s with file := s.file.seek pos }

end Saving

section Write
variable (pageSize : Nat) (mach : Mach) (ans : Answers)

/-- `write_vm_page`. -/
def writeVmPage (region : VmRegion) (idx : Nat) (s : Saving) : Status × Saving :=
  let (bytes, s) := s.writeall (leBytes vmPageBytes (idx * pageSize)) (ans.offset idx)
  if bytes ≠ vmPageBytes then (.failed, s)
  else
    let addr := region.start.toNat + idx * pageSize
    let (bytes, s) := s.writeall (s.vm.read addr pageSize) (ans.body idx)
    if bytes ≠ pageSize then (.failed, s) else (.ok, s)

/-- The second loop of `write_vm_region_dirty`, from the page `idx` on; `pg` pages are
written, and `dirty` are to be. -/
def writeDirtyPages (region : VmRegion) (dirty : Nat) :
    List Bool → Nat → Nat → Saving → Status × Saving
  | [], _, pg, s => if pg = dirty then (.ok, s) else (.aborted, s)
  | d :: vec, idx, pg, s =>
      if dirty ≤ pg then
        if dirty ≤ idx ∧ pg = dirty then (.ok, s) else (.aborted, s)
      else if d = true then
        match writeVmPage pageSize ans region idx s with
        | (.ok, s) => writeDirtyPages region dirty vec (idx + 1) (pg + 1) s
        | failed => failed
      else writeDirtyPages region dirty vec (idx + 1) pg s

/-- `write_vm_region_dirty`.  A vector of so many pages that their number is no `uint`
does not fit on the stack. -/
def writeVmRegionDirty (region : VmRegion) (s : Saving) : Status × VmRegion × Saving :=
  if region.size.toNat % pageSize ≠ 0 ∨ 2 ^ 32 ≤ region.size.toNat / pageSize then
    (.aborted, region, s)
  else
    match ans.query with
    | none => (.failed, region, s)
    | some vec =>
        if vec.length ≠ region.size.toNat / pageSize then (.aborted, region, s)
        else
          let dirty := vec.count true
          let region := { region with pagesDirtied := .ofNat 32 dirty }
          let (bytes, s) := s.writeall region.encode ans.record
          if bytes ≠ VmRegion.bytes then (.failed, region, s)
          else
            let (status, s) := writeDirtyPages pageSize ans region dirty vec 0 0 s
            (status, region, s)

/-- The loop of `write_vm_region_all_pages`, for `n` more pages from the page `p` on.
No result: an assertion failed. -/
def writePages (region : VmRegion) : Nat → Nat → Nat → Saving → Option (Nat × Saving)
  | p, 0, _, s => some (p, s)
  | p, n + 1, seek, s =>
      let addr := region.start.toNat + p * pageSize
      let (bytes, s) := s.writeall (s.vm.read addr pageSize) (ans.page p)
      if bytes ≠ pageSize then
        if bytes ≠ 0 then
          if ans.lseek 2 = true ∧ bytes ≤ seek then some (p, s.seek (seek - bytes)) else none
        else some (p, s)
      else writePages region (p + 1) n (seek + pageSize) s

/-- `write_vm_region_all_pages`. -/
def writeVmRegionAllPages (region : VmRegion) (s : Saving) : Option (Nat × Saving) :=
  if ans.lseek 1 = true then
    writePages pageSize ans region 0 (region.size.toNat / pageSize) s.file.pos s
  else none

/-- The end of `write_vm_region`: the protection of the region is restored. -/
def restoreProtection (region : VmRegion) (readProtect : Bool) (s : Saving) : Saving :=
  if readProtect = true then
    match mach.protect s.vm region.start.toNat region.size.toNat false region.prot with
    | none => s
    | some vm => { s with vm }
  else s

/-- The part of `write_vm_region` that corrects the size of a region of which only `pages`
pages could be written; its record is at `before`. -/
def correctSize (region : VmRegion) (before pages : Nat) (s : Saving) :
    Status × VmRegion × Saving :=
  if ans.lseek 3 = false then (.aborted, region, s)
  else if ans.lseek 4 = false then (.failed, region, s)
  else
    let after := s.file.pos
    let region := { region with size := .ofNat 64 (pages * pageSize) }
    let (bytes, s) := (s.seek before).writeall region.encode ans.rewrite
    if bytes ≠ VmRegion.bytes then (.failed, region, s)
    else if ans.lseek 5 = false then (.failed, region, s)
    else (.ok, region, s.seek after)

/-- `write_vm_region`, of a region that is saved in full. -/
def writeVmRegionFull (region : VmRegion) (s : Saving) : Status × VmRegion × Saving :=
  if ans.lseek 0 = false then (.aborted, region, s)
  else
    let before := s.file.pos
    let (bytes, s) := s.writeall region.encode ans.record
    if bytes ≠ VmRegion.bytes then (.failed, region, s)
    else
      let readProtect := region.prot &&& vmProtRead == 0
      let granted :=
        if readProtect = true then
          mach.protect s.vm region.start.toNat region.size.toNat false (region.prot ||| vmProtRead)
        else some s.vm
      match granted with
      | none => (.failed, region, s)
      | some vm =>
          match writeVmRegionAllPages pageSize ans region { s with vm } with
          | none => (.aborted, region, { s with vm })
          | some (pages, s) =>
              if pages = region.size.toNat / pageSize then
                (.ok, region, restoreProtection mach region readProtect s)
              else
                match correctSize pageSize ans region before pages s with
                | (.ok, region, s) => (.ok, region, restoreProtection mach region readProtect s)
                | failed => failed

/-- The cost of the dirty pages is below that of the whole region. -/
def worthwhile (region : VmRegion) : Bool :=
  decide (region.pagesDirtied.setWidth 64 * .ofNat 64 (vmPageBytes + pageSize) <
    region.size + .ofNat 64 VmRegion.bytes)

/-- `write_vm_region`. -/
def writeVmRegion (region : VmRegion) (s : Saving) : Status × VmRegion × Saving :=
  if region.onlyRestoreDirtyPages = true then
    if worthwhile pageSize region = true then
      writeVmRegionDirty pageSize ans { region with dirtyOnly := true } s
    else writeVmRegionFull pageSize mach ans { region with dirtyOnly := false } s
  else writeVmRegionFull pageSize mach ans region s

/-- `write_context`. -/
def writeContext (uctx : Ucontext) (s : Saving) : Status × Saving :=
  let (bytes, s) := s.writeall uctx.raw ans.context
  if bytes ≠ Ucontext.bytes then (.failed, s) else (.ok, s)

end Write

section Ckpt
variable (pageSize : Nat) (mach : Mach) (ans : Nat → Answers) (uctx : Ucontext)

/-- The loop of `write_ckpt`, from the entry `i` on: its status, the regions as they are
afterwards, and the image. -/
def writeEntries : Nat → List CkptEntry → List VmRegion → Saving →
    Status × List VmRegion × Saving
  | _, [], regions, s => (.ok, regions, s)
  | i, e :: entries, regions, s =>
      let (bytes, s) := s.writeall e.encode (ans i).tag
      if bytes ≠ CkptEntry.bytes then (.failed, regions, s)
      else
        match e, regions with
        | .vmRegion, region :: regions =>
            match writeVmRegion pageSize mach (ans i) region s with
            | (.ok, region, s) =>
                let (status, regions, s) := writeEntries (i + 1) entries regions s
                (status, region :: regions, s)
            | (status, region, s) => (status, region :: regions, s)
        | .ucontext, regions =>
            match writeContext (ans i) uctx s with
            | (.ok, s) => writeEntries (i + 1) entries regions s
            | (status, s) => (status, regions, s)
        | _, regions => (.aborted, regions, s)

/-- `write_ckpt` on a new file, before the image is compressed; `k` bytes of the header
are transferred at most. -/
def writeCkpt (header : List UInt8) (k : Nat) (entries : List CkptEntry) (regions : List VmRegion)
    (vm : Vm) : Status × List VmRegion × Saving :=
  let (bytes, s) := Saving.writeall ⟨vm, ⟨[], 0⟩, false⟩ header k
  if bytes ≠ header.length then (.failed, regions, s)
  else writeEntries pageSize mach ans uctx 0 entries regions s

/-- The entries that `xnd_checkpoint` asks for: the regions and then the context. -/
def ckptEntries (regions : List VmRegion) : List CkptEntry :=
  List.replicate regions.length .vmRegion ++ [.ucontext]

end Ckpt

end Xnd.Image
