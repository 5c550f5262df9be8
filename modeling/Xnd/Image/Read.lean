import Xnd.Image.Region

/-!
# Restoring a process

`read_ckpt` of the restart program with what it calls.  A function of the source that
returns -1 ends with `Stop.failed`, an assertion that does not hold with `Stop.aborted`.
-/
namespace Xnd.Image

/-- How the restart ends early. -/
inductive Stop where
  | failed | aborted
  deriving DecidableEq, Repr

/-- The process that is restored, and the image. -/
structure Restoring where
  vm : Vm
  file : File

namespace Restoring

/-- `sys_readall` into a variable. -/
def readall (s : Restoring) (n : Nat) : List UInt8 × Restoring :=
  ((s.file.read n).1, { s with file := (s.file.read n).2 })

/-- `sys_readall` into memory: the number of bytes, and the memory with them. -/
def load (s : Restoring) (addr n : Nat) : Nat × Restoring :=
  let (bs, file) := s.file.read n
  (bs.length, ⟨s.vm.store addr bs, file⟩)

end Restoring

section Read
variable (pageSize : Nat) (mach : Mach)

/-- `ckpt_vm_protect`. -/
def ckptVmProtect (region : VmRegion) (max : Bool) (prot : VmProt) (s : Restoring) :
    Except Stop Restoring :=
  match mach.protect s.vm region.start.toNat region.size.toNat max prot with
  | none => .error .failed
  | some vm => .ok { s with vm }

/-- `ckpt_vm_map_region`. -/
def ckptVmMapRegion (region : VmRegion) (s : Restoring) : Except Stop Restoring :=
  match mach.map s.vm region.start.toNat region.size.toNat region.tag with
  | none => .error .failed
  | some vm => .ok { s with vm }

/-- `ckpt_vm_refresh_region`. -/
def ckptVmRefreshRegion (region : VmRegion) (s : Restoring) : Except Stop Restoring := do
  let s ← if region.prot ≠ vmProtDefault then ckptVmProtect mach region false region.prot s
    else pure s
  let s ← if region.maxProt ≠ vmProtAll then ckptVmProtect mach region true region.maxProt s
    else pure s
  if region.inherit ≠ vmInheritDefault then
    match mach.inherit s.vm region.start.toNat region.size.toNat region.inherit with
    | none => .error .failed
    | some vm => pure { s with vm }
  else pure s

/-- `ckpt_vm_refresh_page`, of the page at `addr`. -/
def ckptVmRefreshPage (region : VmRegion) (addr : Nat) (vm : Vm) : Option Vm := do
  let vm ← if region.prot ≠ vmProtDefault then mach.protect vm addr pageSize false region.prot
    else pure vm
  let vm ← if region.maxProt ≠ vmProtAll then mach.protect vm addr pageSize true region.maxProt
    else pure vm
  if region.inherit ≠ vmInheritDefault then mach.inherit vm addr pageSize region.inherit
  else pure vm

/-- `ckpt_vm_map_page`, of the page at `addr`. -/
def ckptVmMapPage (region : VmRegion) (addr : Nat) (s : Restoring) : Except Stop Restoring :=
  match mach.mapFree s.vm addr pageSize region.tag with
  | none => .error .failed
  | some vm => if region.start.toNat = addr then .ok { s with vm } else .error .aborted

/-- `ckpt_vm_page_restore`. -/
def ckptVmPageRestore (region : VmRegion) (offset : Nat) (s : Restoring) :
    Except Stop Restoring := do
  let addr := region.start.toNat + offset
  if mach.faults s.vm addr = true then
    let s ← ckptVmMapPage pageSize mach region addr s
    if mach.faults s.vm addr = true then .error .failed
    else
      let (bytes, s) := s.load addr pageSize
      if bytes ≠ pageSize then .error .failed
      else
        -- a page whose attributes cannot be restored is only warned of
        pure { s with vm := (ckptVmRefreshPage pageSize mach region addr s.vm).getD s.vm }
  else
    let (bytes, s) := s.load addr pageSize
    if bytes = pageSize then pure s else .error .failed

/-- `ckpt_vm_restore_pages`, for `n` more pages. -/
def ckptVmRestorePages (region : VmRegion) : Nat → Restoring → Except Stop Restoring
  | 0, s => pure s
  | n + 1, s => do
      let (bs, s) := s.readall vmPageBytes
      if bs.length ≠ vmPageBytes then .error .failed
      else
        let s ← ckptVmPageRestore pageSize mach region (ofLeBytes bs) s
        ckptVmRestorePages region n s

/-- The cached task port is assigned, when it was overwritten by the region. -/
def fixTaskSelf (region : VmRegion) (s : Restoring) : Restoring :=
  if region.Covers mach.taskSelf then
    { s with vm := s.vm.store mach.taskSelf (leBytes 4 mach.taskSelfTrap.toNat) }
  else s

/-- `ckpt_vm_restore_region_pages`. -/
def ckptVmRestoreRegionPages (region : VmRegion) (s : Restoring) : Except Stop Restoring := do
  let s ← if region.inDyldSharedCache = true then
      ckptVmProtect mach region false (vmProtRead ||| vmProtWrite ||| vmProtCopy) s
    else ckptVmMapRegion mach region s
  let s ← ckptVmRestorePages pageSize mach region region.pagesDirtied.toNat s
  let s := fixTaskSelf mach region s
  if region.inDyldSharedCache = true then ckptVmProtect mach region false region.prot s
  else ckptVmRefreshRegion mach region s

/-- `ckpt_vm_restore_region`. -/
def ckptVmRestoreRegion (region : VmRegion) (s : Restoring) : Except Stop Restoring := do
  if region.onlyRestoreDirtyPages && region.dirtyOnly then
    ckptVmRestoreRegionPages pageSize mach region s
  else
    let s ← ckptVmMapRegion mach region s
    let (bytes, s) := s.load region.start.toNat region.size.toNat
    if bytes ≠ region.size.toNat then .error .failed
    else ckptVmRefreshRegion mach region (fixTaskSelf mach region s)

/-- What `read_ckpt` has read so far. -/
structure Loaded where
  s : Restoring
  entries : List CkptEntry
  regions : List VmRegion
  uctx : Option Ucontext

/-- `read_vm_region`. -/
def readVmRegion (s : Restoring) : Except Stop (VmRegion × Restoring) := do
  let (bs, s) := s.readall VmRegion.bytes
  if bs.length ≠ VmRegion.bytes then .error .failed
  else
    let region := VmRegion.decode bs
    let s ← ckptVmRestoreRegion pageSize mach region s
    pure (region, s)

/-- `read_context`; `&uctx->__mcontext_data` is `data`. -/
def readContext (data : BitVec 64) (s : Restoring) : Except Stop (Ucontext × Restoring) :=
  let (bs, s) := s.readall Ucontext.bytes
  if h : bs.length = Ucontext.bytes then .ok (Ucontext.setMcontext ⟨bs, h⟩ data, s)
  else .error .failed

/-- A turn of the loop of `read_ckpt`. -/
def readEntry (data : BitVec 64) (l : Loaded) : Except Stop Loaded := do
  let (bs, s) := l.s.readall CkptEntry.bytes
  if bs.length ≠ CkptEntry.bytes then .error .failed
  else
    match CkptEntry.decode bs with
    | some .vmRegion =>
        let (region, s) ← readVmRegion pageSize mach s
        pure { l with s, entries := l.entries ++ [.vmRegion], regions := l.regions ++ [region] }
    | some .ucontext =>
        let (uctx, s) ← readContext data s
        pure { l with s, entries := l.entries ++ [.ucontext], uctx := some uctx }
    | _ => .error .failed

/-- `read_ckpt`, of `n` entries. -/
def readCkpt (data : BitVec 64) : Nat → Loaded → Except Stop Loaded
  | 0, l => pure l
  | n + 1, l => do
      let l ← readEntry pageSize mach data l
      readCkpt data n l

end Read

end Xnd.Image
