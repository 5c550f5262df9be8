import Xnd.Lib.Bytes
import Mathlib.Data.List.Pairwise

/-!
# Regions of memory and their records

The records of an image, as they lie in the file, and the memory of a process: for each
address its byte and the attributes of the region it is in.

The calls of Mach are answered by a `Mach`, about which nothing is known by itself;
`Mach.Keeps` and `Mach.Serves` are what the program relies on while it saves and while it
restores.
-/
namespace Xnd.Image

/-- `vm_prot_t`. -/
abbrev VmProt := BitVec 32

def vmProtRead : VmProt := 1#32
def vmProtWrite : VmProt := 2#32
def vmProtDefault : VmProt := 3#32
def vmProtAll : VmProt := 7#32
/-- The flag of `mach_vm_protect` that asks for a private copy. -/
def vmProtCopy : VmProt := 16#32

/-- `VM_INHERIT_DEFAULT`. -/
def vmInheritDefault : BitVec 32 := 1#32

def vmMemoryMallocSmall : BitVec 32 := 2#32
def vmMemoryMallocLarge : BitVec 32 := 3#32
def vmMemoryMallocTiny : BitVec 32 := 7#32
def vmMemoryMallocNano : BitVec 32 := 11#32
def vmMemoryMallocMedium : BitVec 32 := 12#32

def dyldSharedCacheBase : BitVec 64 := 0x180000000#64
def dyldSharedCacheEnd : BitVec 64 := 0x280000000#64

/-! ## Records -/

/-- `struct xnd_vm_region`. -/
structure VmRegion where
  start : BitVec 64
  size : BitVec 64
  inherit : BitVec 32
  prot : VmProt
  maxProt : VmProt
  mode : BitVec 32
  tag : BitVec 32
  pagesDirtied : BitVec 32
  dirtyOnly : Bool
  deriving DecidableEq, Repr

namespace VmRegion

/-- The widths of the fields; the last one is padding. -/
def widths : List Nat := [8, 8, 4, 4, 4, 4, 4, 4, 1, 7]

/-- `sizeof(struct xnd_vm_region)`. -/
def bytes : Nat := 48

/-- The record as it is written. -/
def encode (r : VmRegion) : List UInt8 :=
  encodeFields (widths.zip [r.start.toNat, r.size.toNat, r.inherit.toNat, r.prot.toNat,
    r.maxProt.toNat, r.mode.toNat, r.tag.toNat, r.pagesDirtied.toNat, r.dirtyOnly.toNat, 0])

/-- The record as it is read. -/
def decode (bs : List UInt8) : VmRegion :=
  match decodeFields widths bs with
  | [start, size, inherit, prot, maxProt, mode, tag, pagesDirtied, dirtyOnly, _] =>
      ⟨.ofNat 64 start, .ofNat 64 size, .ofNat 32 inherit, .ofNat 32 prot, .ofNat 32 maxProt,
        .ofNat 32 mode, .ofNat 32 tag, .ofNat 32 pagesDirtied, dirtyOnly != 0⟩
  | _ => ⟨0, 0, 0, 0, 0, 0, 0, 0, false⟩

@[simp] theorem length_encode (r : VmRegion) : r.encode.length = bytes := by
  rw [encode, length_encodeFields]
  rfl

@[simp] theorem decode_encode (r : VmRegion) : decode r.encode = r := by
  have hfields := decodeFields_encodeFields (widths.zip [r.start.toNat, r.size.toNat,
    r.inherit.toNat, r.prot.toNat, r.maxProt.toNat, r.mode.toNat, r.tag.toNat,
    r.pagesDirtied.toNat, r.dirtyOnly.toNat, 0])
  have hbool : r.dirtyOnly.toNat % 256 = r.dirtyOnly.toNat := by cases r.dirtyOnly <;> rfl
  have hne : (r.dirtyOnly.toNat != 0) = r.dirtyOnly := by cases r.dirtyOnly <;> rfl
  have hdecoded : decodeFields widths r.encode = [r.start.toNat, r.size.toNat, r.inherit.toNat,
      r.prot.toNat, r.maxProt.toNat, r.mode.toNat, r.tag.toNat, r.pagesDirtied.toNat,
      r.dirtyOnly.toNat, 0] := by
    refine Eq.trans hfields ?_
    simp only [widths, List.zip_cons_cons, List.zip_nil_right, List.map_cons, List.map_nil]
    simp only [show (256 ^ 8 : Nat) = 2 ^ 64 from rfl, show (256 ^ 4 : Nat) = 2 ^ 32 from rfl,
      Nat.mod_eq_of_lt (BitVec.isLt _), Nat.pow_one, hbool, Nat.zero_mod]
  rw [decode, hdecoded]
  simp [hne]

variable (r : VmRegion)

/-- `DYLD_SHARED_CACHE_REGION`. -/
def inDyldSharedCache : Bool :=
  decide (dyldSharedCacheBase ≤ r.start) && decide (r.start + r.size < dyldSharedCacheEnd)

/-- `ONLY_RESTORE_DIRTY_PAGES`, and `ONLY_SAVE_DIRTY_PAGES`. -/
def onlyRestoreDirtyPages : Bool :=
  r.inDyldSharedCache || r.tag == vmMemoryMallocNano || r.tag == vmMemoryMallocTiny ||
    r.tag == vmMemoryMallocSmall || r.tag == vmMemoryMallocMedium || r.tag == vmMemoryMallocLarge

/-- An address of the region. -/
def Covers (a : Nat) : Prop := r.start.toNat ≤ a ∧ a < r.start.toNat + r.size.toNat

instance (a : Nat) : Decidable (r.Covers a) := inferInstanceAs (Decidable (_ ∧ _))

/-- What `mach_vm_region_recurse` says about a region: whole pages, below the end of the
addresses of a process, and a protection within the maximum one. -/
structure Mapped (pageSize : Nat) : Prop where
  pos : 0 < r.size.toNat
  dvd : pageSize ∣ r.size.toNat
  below : r.start.toNat + r.size.toNat < 2 ^ 63
  prot : r.prot &&& r.maxProt = r.prot
  maxProt : r.maxProt &&& vmProtAll = r.maxProt

end VmRegion

/-- `enum xnd_ckpt_entry`. -/
inductive CkptEntry where
  | vmRegion | vmPage | ucontext
  deriving DecidableEq, Repr

namespace CkptEntry

/-- `sizeof(enum xnd_ckpt_entry)`. -/
def bytes : Nat := 4

def encode : CkptEntry → List UInt8
  | vmRegion => leBytes 4 0
  | vmPage => leBytes 4 1
  | ucontext => leBytes 4 2

/-- The entry that four bytes stand for, when they stand for one. -/
def decode (bs : List UInt8) : Option CkptEntry :=
  match ofLeBytes bs with
  | 0 => some vmRegion
  | 1 => some vmPage
  | 2 => some ucontext
  | _ => none

@[simp] theorem length_encode (e : CkptEntry) : e.encode.length = bytes := by cases e <;> rfl

@[simp] theorem decode_encode (e : CkptEntry) : decode e.encode = some e := by cases e <;> rfl

end CkptEntry

/-- `sizeof(struct xnd_vm_page)`. -/
def vmPageBytes : Nat := 8

/-- `ucontext_t`, as it lies in memory. -/
structure Ucontext where
  raw : List UInt8
  length_raw : raw.length = 872

namespace Ucontext

/-- `sizeof(ucontext_t)`. -/
def bytes : Nat := 872

/-- Where `uc_mcontext` lies. -/
def mcontextOffset : Nat := 48

/-- Assigns to `uc_mcontext`. -/
def setMcontext (u : Ucontext) (p : BitVec 64) : Ucontext where
  raw := u.raw.take 48 ++ leBytes 8 p.toNat ++ u.raw.drop 56
  length_raw := by simp [u.length_raw]

/-- Equal but for `uc_mcontext`. -/
def Agrees (u v : Ucontext) : Prop :=
  u.raw.take 48 = v.raw.take 48 ∧ u.raw.drop 56 = v.raw.drop 56

theorem agrees_setMcontext (u : Ucontext) (p : BitVec 64) : (u.setMcontext p).Agrees u := by
  have hlen : (u.raw.take 48).length = 48 := by simp [u.length_raw]
  constructor
  · show (u.raw.take 48 ++ leBytes 8 p.toNat ++ u.raw.drop 56).take 48 = u.raw.take 48
    rw [List.append_assoc, List.take_left' hlen]
  · show (u.raw.take 48 ++ leBytes 8 p.toNat ++ u.raw.drop 56).drop 56 = u.raw.drop 56
    rw [List.drop_left']
    rw [List.length_append, hlen, length_leBytes]

end Ucontext

/-! ## The memory of a process -/

/-- The bytes of a process, and the attributes of the region each of them is in. -/
structure Vm where
  mem : Nat → UInt8
  prot : Nat → VmProt
  maxProt : Nat → VmProt
  inherit : Nat → BitVec 32

namespace Vm
variable (vm : Vm)

/-- The bytes of a range. -/
def read (a n : Nat) : List UInt8 := (List.range n).map fun k => vm.mem (a + k)

/-- Changes the bytes of a range. -/
def store (a : Nat) (bs : List UInt8) : Vm :=
  { vm with mem := fun x => if a ≤ x ∧ x < a + bs.length then bs.getD (x - a) 0 else vm.mem x }

/-- Changes an attribute of a range. -/
def put {α : Type} (f : Nat → α) (a n : Nat) (g : α → α) : Nat → α := fun x =>
  if a ≤ x ∧ x < a + n then g (f x) else f x

/-- A new mapping, in the place of what was there. -/
def fresh (a n : Nat) : Vm where
  mem := put vm.mem a n fun _ => 0
  prot := put vm.prot a n fun _ => vmProtDefault
  maxProt := put vm.maxProt a n fun _ => vmProtAll
  inherit := put vm.inherit a n fun _ => vmInheritDefault

/-- A protection; the flag is none. -/
def setProt (a n : Nat) (p : VmProt) : Vm :=
  { vm with prot := put vm.prot a n fun _ => p &&& ~~~vmProtCopy }

/-- A maximum protection, which the protection is held under. -/
def setMaxProt (a n : Nat) (p : VmProt) : Vm :=
  { vm with
    maxProt := put vm.maxProt a n fun _ => p
    prot := put vm.prot a n fun q => q &&& p }

def setInherit (a n : Nat) (i : BitVec 32) : Vm :=
  { vm with inherit := put vm.inherit a n fun _ => i }

@[simp] theorem length_read (a n : Nat) : (vm.read a n).length = n := by simp [read]

end Vm

/-- The calls of Mach, and where the process has cached its task port. -/
structure Mach where
  /-- `mach_vm_map` at a fixed address, over what is there. -/
  map : Vm → Nat → Nat → BitVec 32 → Option Vm
  /-- `mach_vm_map` at a fixed address where nothing is. -/
  mapFree : Vm → Nat → Nat → BitVec 32 → Option Vm
  /-- `mach_vm_protect`. -/
  protect : Vm → Nat → Nat → Bool → VmProt → Option Vm
  /-- `mach_vm_inherit`. -/
  inherit : Vm → Nat → Nat → BitVec 32 → Option Vm
  /-- A `read` to this address fails with `EFAULT`. -/
  faults : Vm → Nat → Bool
  /-- `&mach_task_self_`. -/
  taskSelf : Nat
  /-- `task_self_trap`. -/
  taskSelfTrap : BitVec 32

/-- Protections are none of the contents. -/
structure Mach.Keeps (mach : Mach) : Prop where
  protect : ∀ {vm vm' : Vm} {a n : Nat} {max : Bool} {p : VmProt},
    mach.protect vm a n max p = some vm' → vm'.mem = vm.mem

/-- Fixed mappings come back at the requested address, empty and with the requested
attributes, protections and inheritance are set, and no page faults. -/
structure Mach.Serves (mach : Mach) : Prop where
  map : ∀ vm a n tag, 0 < n → mach.map vm a n tag = some (vm.fresh a n)
  map_zero : ∀ vm a tag, mach.map vm a 0 tag = none
  protect : ∀ vm a n p, mach.protect vm a n false p = some (vm.setProt a n p)
  protectMax : ∀ vm a n p, mach.protect vm a n true p = some (vm.setMaxProt a n p)
  inherit : ∀ vm a n i, mach.inherit vm a n i = some (vm.setInherit a n i)
  loads : ∀ vm a, mach.faults vm a = false

end Xnd.Image
