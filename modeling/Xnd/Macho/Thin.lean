import Xnd.Macho.Segcreate
import Xnd.Util.Io

/-!
# The temporary executable

`xnd` runs programs as arm64. Of an executable for arm64e `binary_arm64e_to_arm64` writes
the slice for arm64, with another `cpusubtype`, to a temporary file, and `prepare_args` has
that file run in place of it; any other executable is run as it is.

**What is run is never for arm64e** (`launches_arm64`): it is the executable itself, or its
slice up to the end of the file with the same load commands, none of which is an
`LC_DYLD_INFO`, where only `cpusubtype` is another one; no temporary file is left that is
not run, and there are only the reasons of `Fails` to run none.

A load or store behind the pages of the mapping faults, which ends the process; the model
goes on with zeros.
-/
namespace Xnd.Macho
open SizedWalk Transfer

def cpuTypeArm64 : Nat := 0x0100000c
def cpuSubtypeArm64All : Nat := 0
def cpuSubtypeArm64e : Nat := 2
def lcDyldInfo : Nat := 0x22
def lcDyldInfoOnly : Nat := 0x80000022

/-- `HEADER_IS_FAT`. -/
def headerIsFat (magic : Nat) : Bool :=
  magic == fatMagic || magic == fatCigam || magic == fatMagic64 || magic == fatCigam64

/-- `HEADER_IS_MACHO`. -/
def headerIsMacho (magic : Nat) : Bool :=
  magic == mhMagic || magic == mhCigam || magic == mhMagic64 || magic == mhCigam64

/-- `CPU_SUBTYPE_IS_ARM64E`: `CPU_SUBTYPE_MASK` has the upper eight bits. -/
def cpuSubtypeIsArm64e (subtype : Nat) : Bool := subtype % 2 ^ 24 == cpuSubtypeArm64e

/-- `sizeof(struct fat_header)`. -/
def fatHeaderBytes : Nat := 8

/-- `sizeof(struct fat_arch)`. -/
def fatArchBytes : Nat := 20

/-- What is read of a `struct fat_arch`, with its address. -/
structure FatArch where
  addr : Nat
  cputype : Nat
  cpusubtype : Nat
  offset : Nat
  deriving DecidableEq, Repr

section
variable (m : Mem)

/-- A field behind a fat header, in the byte order that its magic says. -/
def fatField (a : Nat) : Nat :=
  if needsBswap m.magic = true then bswap32 (m.u32 a) else m.u32 a

def nfatArch : Nat := fatField m 4

/-- The `struct fat_arch` at an address. -/
def fatArch (a : Nat) : FatArch := ⟨a, fatField m a, fatField m (a + 4), fatField m (a + 8)⟩

/-- `fa++`. -/
def nextArch (a : Nat) (_ : FatArch) : Nat := a + fatArchBytes

/-- `cputype == CPU_TYPE_ARM64`. -/
def FatArch.isArm64 (fa : FatArch) : Bool := fa.cputype == cpuTypeArm64

/-- It is for arm64, and its subtype for arm64e. -/
def FatArch.isArm64e (fa : FatArch) : Bool := fa.isArm64 && cpuSubtypeIsArm64e fa.cpusubtype

/-- `fat_is_arm64e`; nothing, if the assertion fails. -/
def fatIsArm64e : Option Bool :=
  if headerIs64bit m.magic = true then none
  else some (pointer (walkFor (fatArch m) nextArch (first FatArch.isArm64e id) (nfatArch m)
    fatHeaderBytes ())).isSome

/-- `macho_is_arm64e`. -/
def machoIsArm64e : Option Bool :=
  if headerIs64bit m.magic = false then none
  else if m.u32 4 ≠ cpuTypeArm64 then some false
  else some (cpuSubtypeIsArm64e (m.u32 8))

/-- `binary_is_arm64e`. -/
def binaryIsArm64e : Option Bool :=
  if headerIsMacho m.magic = true then machoIsArm64e m
  else if headerIsFat m.magic = true then fatIsArm64e m
  else some false

/-- `*(u32 *)a = v`. -/
def Mem.store32 (a v : Nat) : Mem := fun i =>
  if a ≤ i ∧ i < a + 4 then (leBytes 4 v).getD (i - a) 0 else m i

/-- The memory from an address on. -/
def Mem.onward (a : Nat) : Mem := fun i => m (a + i)

/-- `macho_arm64e_to_arm64`, of the header at `mh`: what it returns, and the memory then. -/
def machoArm64eToArm64 (mh : Nat) : Option (Nat × Mem) :=
  if headerIs64bit (m.u32 mh) = false then none
  else if needsBswap (m.u32 mh) = true then none
  else if m.u32 (mh + 4) ≠ cpuTypeArm64 then none
  else some (mh, m.store32 (mh + 8) cpuSubtypeArm64All)

/-- `fa` when the loop of `fat_arm64e_to_arm64` is left: behind the last one if none is for
arm64. -/
def fatLoop : Nat :=
  match walkFor (fatArch m) nextArch
      (fun _ fa => if fa.isArm64 = true then .inl fa.addr else .inr (nextArch fa.addr fa))
      (nfatArch m) fatHeaderBytes fatHeaderBytes with
  | .found fa => fa
  | .ended fa => fa

/-- `fat_arm64e_to_arm64`. -/
def fatArm64eToArm64 : Option (Nat × Mem) :=
  if headerIs64bit m.magic = true then none
  else
    let offset := (fatArch m (fatLoop m)).offset
    if headerIsMacho (m.u32 offset) = false then none
    else machoArm64eToArm64 m offset

end

/-! ## The function -/

/-- An executable's file, of no more bytes than an `off_t` can say. -/
structure Exe where
  bytes : List UInt8
  fits : bytes.length < 2 ^ 63

/-- What the system calls come to. A `write` of more than `INT_MAX` bytes fails with
`EINVAL`, and one of some bytes to a file does not return 0. -/
structure Sys where
  openPath : Bool
  lseek : Bool
  mmap : Bool
  openTmp : Bool
  write : Calls
  access : Bool
  unlink : Bool
  tooMany : ∀ i n, 2 ^ 31 ≤ n.toNat → ∃ e, write i n = .error e
  goesOn : ∀ i n, n ≠ 0 → write i n ≠ .eof

/-- What `binary_arm64e_to_arm64` returns: `ARM64E_TO_ARM64_SUCCESS` and so on. -/
inductive Thinning where
  | success | failure | notArm64e
  deriving DecidableEq, Repr

/-- How the call ends, with what is in the file `tmp` then, if there is one. -/
inductive ThinResult where
  | asserted (tmp : Option (List UInt8))
  | returned (ret : Thinning) (tmp : Option (List UInt8))
  deriving DecidableEq, Repr

/-- The code behind `out`. -/
def Sys.out (sys : Sys) (ret : Thinning) (tmp : Option (List UInt8)) : ThinResult :=
  .returned ret (if ret ≠ .success ∧ tmp.isSome = true ∧ sys.access = true ∧ sys.unlink = true
    then none else tmp)

/-- `mh`, by the magic: nothing, if that is of no executable, and in it nothing, if an assertion
fails. -/
def binaryHeader (m : Mem) : Option (Option (Nat × Mem)) :=
  if headerIsMacho m.magic = true then some (machoArm64eToArm64 m 0)
  else if headerIsFat m.magic = true then some (fatArm64eToArm64 m)
  else none

/-- `binary_arm64e_to_arm64`; `tmp` is what is in that file before, and `fuel` bounds the
calls of `writeall`. -/
def binaryArm64eToArm64 (sys : Sys) (exe : Exe) (tmp : Option (List UInt8)) (fuel : Nat) :
    Option ThinResult :=
  if sys.openPath = false then some (sys.out .failure tmp)
  else if sys.lseek = false then some (sys.out .failure tmp)
  -- A mapping of no bytes is refused.
  else if sys.mmap = false ∨ exe.bytes = [] then some (sys.out .failure tmp)
  else
    let addr := memOf exe.bytes
    match binaryIsArm64e addr with
    | none => some (.asserted tmp)
    | some false => some (sys.out .notArm64e tmp)
    | some true =>
        if sys.openTmp = false then some (sys.out .failure tmp)
        else
          match binaryHeader addr with
          | none => some (sys.out .failure (some []))
          | some none => some (.asserted (some []))
          | some (some (mh, m)) =>
              let nbyte := BitVec.ofNat 64 exe.bytes.length - BitVec.ofNat 64 mh
              if (machoFindLoadCommand (m.onward mh) lcDyldInfo).isSome = true ∨
                  (machoFindLoadCommand (m.onward mh) lcDyldInfoOnly).isSome = true then
                some (sys.out .failure (some []))
              else
                (Io.writeall (m.onward mh) sys.write nbyte [] fuel).map fun r =>
                  sys.out (if r.1 = nbyte then .success else .failure) (some r.2.data)

/-- What `prepare_args` makes the first argument of the program. -/
inductive Argv0 where
  | tmp | execPath
  deriving DecidableEq, Repr

/-- The switch of `prepare_args`: nothing, if it exits. -/
def prepareArgs : Thinning → Option Argv0
  | .success => some .tmp
  | .notArm64e => some .execPath
  | .failure => none

/-! ## What is to hold -/

/-- The architectures of a fat file. -/
def fatArches (m : Mem) : List FatArch :=
  (List.range (nfatArch m)).map fun i => fatArch m (fatHeaderBytes + fatArchBytes * i)

/-- The first architecture that is for arm64. -/
def arm64Arch (m : Mem) : Option FatArch := (fatArches m).find? FatArch.isArm64

/-- Where the slice for arm64 is: the file itself, or the first one of a fat file. -/
inductive SliceAt (m : Mem) : Nat → Prop
  | macho (h : headerIsMacho m.magic = true) : SliceAt m 0
  | fat {fa : FatArch} (h : headerIsFat m.magic = true) (hfa : arm64Arch m = some fa) :
      SliceAt m fa.offset

/-- The field `cpusubtype` of a header. -/
def InSubtype (i : Nat) : Prop := 8 ≤ i ∧ i < 12

instance (i : Nat) : Decidable (InSubtype i) := inferInstanceAs (Decidable (_ ∧ _))

/-- `out` is the slice of `exe` at `off`, up to the end of the file, and an executable for
arm64 that is bound without opcodes. -/
structure Arm64Slice (exe : List UInt8) (off : Nat) (out : List UInt8) : Prop where
  arm64e : binaryIsArm64e (memOf exe) = some true
  slice : SliceAt (memOf exe) off
  le : off ≤ exe.length
  length : out.length = exe.length - off
  same : ∀ i, ¬ InSubtype i → memOf out i = memOf exe (off + i)
  magic : (memOf out).magic = mhMagic64
  cputype : (memOf out).u32 4 = cpuTypeArm64
  cpusubtype : (memOf out).u32 8 = cpuSubtypeArm64All
  commands : ∀ cmd, machoFindLoadCommand (memOf out) cmd =
    machoFindLoadCommand ((memOf exe).onward off) cmd
  unbound : machoFindLoadCommand (memOf out) lcDyldInfo = none ∧
    machoFindLoadCommand (memOf out) lcDyldInfoOnly = none

/-- The assertions expect 64 bits, this machine's byte order, and at the offset of the
architecture for arm64 the header of one. -/
structure Proper (m : Mem) : Prop where
  macho : headerIsMacho m.magic = true → m.magic = mhMagic64
  fat : headerIsFat m.magic = true → headerIs64bit m.magic = false
  slice : headerIsFat m.magic = true → ∀ fa, arm64Arch m = some fa →
    m.u32 fa.offset = mhMagic64 ∧ m.u32 (fa.offset + 4) = cpuTypeArm64

/-- Why no program is run. -/
inductive Fails (sys : Sys) (exe : Exe) : Prop
  | openPath (h : sys.openPath = false)
  | lseek (h : sys.lseek = false)
  | mmap (h : sys.mmap = false ∨ exe.bytes = [])
  | openTmp (h : sys.openTmp = false)
  /-- The slice has opcodes by which it is bound. -/
  | bound {off : Nat} (hslice : SliceAt (memOf exe.bytes) off)
      (h : ∃ cmd ∈ [lcDyldInfo, lcDyldInfoOnly],
        (machoFindLoadCommand ((memOf exe.bytes).onward off) cmd).isSome = true)
  /-- The slice is behind the end of the file, or too large for one `write`. -/
  | size {off : Nat} (hslice : SliceAt (memOf exe.bytes) off)
      (h : exe.bytes.length < off ∨ 2 ^ 31 ≤ exe.bytes.length - off)
  | write {i : Nat} {n e : BitVec 64} (hn : n.toNat < 2 ^ 31) (h : sys.write i n = .error e)

/-- The file that is run, when `tmp` is in the temporary one. -/
def program (exe : Exe) (tmp : Option (List UInt8)) : Argv0 → Option (List UInt8)
  | .tmp => tmp
  | .execPath => some exe.bytes

/-- What is run of `exe` when `binary_arm64e_to_arm64` has returned `ret`, and left `tmp`. -/
structure Launches (sys : Sys) (exe : Exe) (ret : Thinning) (tmp : Option (List UInt8)) :
    Prop where
  arm64 : ∀ a, prepareArgs ret = some a → ∃ p, program exe tmp a = some p ∧
    binaryIsArm64e (memOf p) = some false ∧ (p = exe.bytes ∨ ∃ off, Arm64Slice exe.bytes off p)
  clean : prepareArgs ret ≠ some .tmp → sys.access = true → sys.unlink = true → tmp = none
  fails : prepareArgs ret = none → Fails sys exe

/-- How the call may end. A failed assertion leaves the file `tmp` as it was, or empty. -/
def Ends (sys : Sys) (exe : Exe) (tmp : Option (List UInt8)) : ThinResult → Prop
  | .asserted tmp' => ¬ Proper (memOf exe.bytes) ∧ (tmp' = tmp ∨ tmp' = some [])
  | .returned ret tmp' => Launches sys exe ret tmp'

/-! ## Fat files -/

section
variable {m : Mem}

theorem chain_fatArch (m : Mem) (a n : Nat) :
    Chain (fatArch m) nextArch a ((List.range n).map fun i => fatArch m (a + fatArchBytes * i))
      (a + fatArchBytes * n) := by
  induction n generalizing a with
  | zero => rfl
  | succ n ih =>
      rw [List.range_succ_eq_map, List.map_cons, List.map_map]
      refine ⟨rfl, ?_⟩
      have hnext := ih (nextArch a (fatArch m a))
      have hat : ∀ i, nextArch a (fatArch m a) + fatArchBytes * i = a + fatArchBytes * (i + 1) := by
        intro i
        unfold nextArch
        rw [Nat.mul_succ]
        omega
      simp only [hat] at hnext
      exact hnext

/-- A walk over the architectures folds them. -/
theorem walk_fatArches {σ ρ : Type} (m : Mem) (visit : σ → FatArch → ρ ⊕ σ) (s : σ) :
    walkFor (fatArch m) nextArch visit (nfatArch m) fatHeaderBytes s = fold visit s (fatArches m) := by
  have hlen : (fatArches m).length = nfatArch m := by
    rw [fatArches, List.length_map, List.length_range]
  rw [← hlen]
  exact walkFor_chain (chain_fatArch m fatHeaderBytes (nfatArch m)) visit s

theorem fold_fatLoop {archs : List FatArch} {fa : FatArch} {s : Nat}
    (h : archs.find? FatArch.isArm64 = some fa) :
    fold (fun _ fa => if fa.isArm64 = true then .inl fa.addr else .inr (nextArch fa.addr fa)) s
      archs = .found fa.addr := by
  induction archs generalizing s with
  | nil => cases h
  | cons a archs ih =>
      by_cases ha : a.isArm64 = true
      · rw [List.find?_cons_of_pos ha] at h
        obtain rfl := Option.some.inj h
        simp only [fold, if_pos ha]
      · rw [List.find?_cons_of_neg ha] at h
        simp only [fold, if_neg ha]
        exact ih h

/-- The loop stops at the first architecture that is for arm64. -/
theorem fatArch_fatLoop {fa : FatArch} (h : arm64Arch m = some fa) : fatArch m (fatLoop m) = fa := by
  have haddr : fatLoop m = fa.addr := by
    rw [fatLoop, walk_fatArches, fold_fatLoop h]
  obtain ⟨i, -, rfl⟩ := List.mem_map.mp (List.mem_of_find?_eq_some h)
  rw [haddr]
  rfl

theorem fatIsArm64e_eq (h : headerIs64bit m.magic = false) :
    fatIsArm64e m = some ((fatArches m).find? FatArch.isArm64e).isSome := by
  have hfold : pointer (fold (first FatArch.isArm64e id) () (fatArches m)) =
      (fatArches m).find? FatArch.isArm64e := by
    rw [fold_first]
    cases (fatArches m).find? FatArch.isArm64e <;> rfl
  rw [fatIsArm64e, h, if_neg Bool.false_ne_true, walk_fatArches, hfold]

theorem headerIs32bit {b : Bool} (h : fatIsArm64e m = some b) : headerIs64bit m.magic = false := by
  rw [← Bool.not_eq_true]
  intro h64
  rw [fatIsArm64e, if_pos h64] at h
  cases h

/-- A fat file with a slice for arm64e has one for arm64. -/
theorem exists_arm64Arch (h : fatIsArm64e m = some true) : ∃ fa, arm64Arch m = some fa := by
  rw [fatIsArm64e_eq (headerIs32bit h)] at h
  obtain ⟨fa, hfa⟩ := Option.isSome_iff_exists.mp (Option.some.inj h)
  have hboth : fa.isArm64 = true ∧ cpuSubtypeIsArm64e fa.cpusubtype = true := by
    have := List.find?_some hfa
    rwa [FatArch.isArm64e, Bool.and_eq_true] at this
  exact Option.isSome_iff_exists.mp
    (List.find?_isSome.mpr ⟨fa, List.mem_of_find?_eq_some hfa, hboth.1⟩)

end

/-! ## The header -/

section
variable {m : Mem}

/-- The magic of a 64-bit executable in this machine's byte order. -/
theorem eq_mhMagic64 {magic : Nat} (hmacho : headerIsMacho magic = true)
    (h64 : headerIs64bit magic = true) (hswap : needsBswap magic = false) : magic = mhMagic64 := by
  simp only [headerIsMacho, headerIs64bit, needsBswap, Bool.or_eq_true, Bool.or_eq_false_iff,
    beq_iff_eq, beq_eq_false_iff_ne] at hmacho h64 hswap
  rcases hmacho with ((rfl | rfl) | rfl) | rfl
  · revert h64
    decide
  · exact absurd rfl hswap.1.1.1
  · rfl
  · exact absurd rfl hswap.1.1.2

theorem not_isFat {magic : Nat} (hmacho : headerIsMacho magic = true) :
    headerIsFat magic = false := by
  simp only [headerIsMacho, Bool.or_eq_true, beq_iff_eq] at hmacho
  rcases hmacho with ((rfl | rfl) | rfl) | rfl <;> rfl

/-- What the assertions of `macho_arm64e_to_arm64` are about. -/
def IsArm64 (m : Mem) (mh : Nat) : Prop := m.u32 mh = mhMagic64 ∧ m.u32 (mh + 4) = cpuTypeArm64

instance (m : Mem) (mh : Nat) : Decidable (IsArm64 m mh) := inferInstanceAs (Decidable (_ ∧ _))

theorem machoArm64eToArm64_eq (m : Mem) {mh : Nat} (hmacho : headerIsMacho (m.u32 mh) = true) :
    machoArm64eToArm64 m mh =
      if IsArm64 m mh then some (mh, m.store32 (mh + 8) cpuSubtypeArm64All) else none := by
  by_cases h : IsArm64 m mh
  · have h64 : headerIs64bit (m.u32 mh) = true := by rw [h.1]; rfl
    have hswap : needsBswap (m.u32 mh) = false := by rw [h.1]; rfl
    rw [machoArm64eToArm64, h64, hswap, if_neg Bool.noConfusion, if_neg Bool.noConfusion,
      if_neg (not_not_intro h.2), if_pos h]
  · rw [machoArm64eToArm64, if_neg h]
    cases h64 : headerIs64bit (m.u32 mh) with
    | false => rfl
    | true =>
        cases hswap : needsBswap (m.u32 mh) with
        | true => rfl
        | false =>
            have hcpu : m.u32 (mh + 4) ≠ cpuTypeArm64 := fun hcpu =>
              h ⟨eq_mhMagic64 hmacho h64 hswap, hcpu⟩
            exact if_pos hcpu

/-- `fat_arm64e_to_arm64` takes the first slice for arm64. -/
theorem fatArm64eToArm64_eq {fa : FatArch} (h64 : headerIs64bit m.magic = false)
    (hfa : arm64Arch m = some fa) :
    fatArm64eToArm64 m = if IsArm64 m fa.offset then
      some (fa.offset, m.store32 (fa.offset + 8) cpuSubtypeArm64All) else none := by
  simp only [fatArm64eToArm64, h64, fatArch_fatLoop hfa, Bool.false_eq_true, if_false]
  cases hmacho : headerIsMacho (m.u32 fa.offset) with
  | true =>
      rw [if_neg Bool.noConfusion]
      exact machoArm64eToArm64_eq m hmacho
  | false =>
      have hnot : ¬ IsArm64 m fa.offset := by
        rintro ⟨hmagic, -⟩
        rw [hmagic] at hmacho
        cases hmacho
      rw [if_pos rfl, if_neg hnot]

/-- What is stored is 0, and nothing else changes. -/
theorem store32_zero (m : Mem) (a i : Nat) :
    m.store32 a cpuSubtypeArm64All i = if a ≤ i ∧ i < a + 4 then 0 else m i := by
  have hzeros : leBytes 4 cpuSubtypeArm64All = List.replicate 4 0 := rfl
  rw [Mem.store32, hzeros, List.getD_eq_getElem?_getD, List.getElem?_getD_replicate_default_eq]

/-- The memory from the header on, when the subtype has been stored. -/
theorem onward_store32 (m : Mem) (mh i : Nat) :
    (m.store32 (mh + 8) cpuSubtypeArm64All).onward mh i = if InSubtype i then 0 else m (mh + i) := by
  rw [Mem.onward, store32_zero]
  have hiff : mh + 8 ≤ mh + i ∧ mh + i < mh + 8 + 4 ↔ InSubtype i := by
    unfold InSubtype
    omega
  simp only [hiff]

/-- Only the subtype is another one. -/
theorem onward_same (m : Mem) (mh : Nat) {i : Nat} (hi : ¬ InSubtype i) :
    (m.store32 (mh + 8) cpuSubtypeArm64All).onward mh i = m.onward mh i := by
  rw [onward_store32, if_neg hi]
  rfl

theorem u32_same {m m' : Mem} (h : ∀ i, ¬ InSubtype i → m' i = m i) {a : Nat}
    (ha : a + 4 ≤ 8 ∨ 12 ≤ a) : m'.u32 a = m.u32 a :=
  u32_congr fun i hi => h (a + i) (by unfold InSubtype; omega)

theorem u32_onward (m : Mem) (mh a : Nat) : (m.onward mh).u32 a = m.u32 (mh + a) := by
  have hbytes : (m.onward mh).bytes a 4 = m.bytes (mh + a) 4 :=
    List.map_congr_left fun i _ => congrArg m (Nat.add_assoc mh a i).symm
  rw [Mem.u32, hbytes, Mem.u32]

theorem u32_subtype {m m' : Mem} (h : ∀ i, m' i = if InSubtype i then 0 else m i) :
    m'.u32 8 = cpuSubtypeArm64All := by
  have hzero : ∀ i < 4, m' (8 + i) = 0 := fun i hi => by
    rw [h, if_pos ⟨by omega, by omega⟩]
  have hbytes : m'.bytes 8 4 = (List.range 4).map fun _ => 0 :=
    List.map_congr_left fun i hi => hzero i (List.mem_range.mp hi)
  rw [Mem.u32, hbytes]
  rfl

/-- The load commands do not depend on the subtype. -/
theorem machoFindLoadCommand_same {m m' : Mem} (h : ∀ i, ¬ InSubtype i → m' i = m i) (cmd : Nat) :
    machoFindLoadCommand m' cmd = machoFindLoadCommand m cmd := by
  have hmagic : m'.magic = m.magic := u32_same h (by omega)
  have hncmds : m'.ncmds = m.ncmds := u32_same h (by omega)
  have hstart : lcStart m' = lcStart m := by rw [lcStart, hmagic, lcStart]
  have hge : 28 ≤ lcStart m := by
    unfold lcStart header64Bytes headerBytes
    split <;> omega
  have hcommands : commandAt m' (lcStart m') = commandAt m (lcStart m) := by
    funext o
    rw [hstart, commandAt, loadCommand, u32_same h (by omega), u32_same h (by omega)]
    rfl
  rw [machoFindLoadCommand, hmagic, hncmds, hcommands, machoFindLoadCommand]

/-- An executable for arm64 is none for arm64e. -/
theorem binaryIsArm64e_arm64 (h : IsArm64 m 0) (hsub : m.u32 8 = cpuSubtypeArm64All) :
    binaryIsArm64e m = some false := by
  have hmagic : m.magic = mhMagic64 := h.1
  have hcpu : m.u32 4 = cpuTypeArm64 := h.2
  rw [binaryIsArm64e, machoIsArm64e, hmagic, hcpu, hsub]
  rfl

end

/-! ## What is written -/

section
variable {f : List UInt8} {m : Mem} {off : Nat}

/-- The slice that is written, when it is mapped. -/
theorem memOf_written (hoff : off ≤ f.length)
    (hm : ∀ i, m i = if InSubtype i then 0 else memOf f (off + i)) :
    memOf ((List.range' 0 (f.length - off)).map m) = m := by
  funext i
  by_cases hi : i < f.length - off
  · rw [memOf, List.getD_eq_getElem _ _ (by rwa [List.length_map, List.length_range']),
      List.getElem_map, List.getElem_range', Nat.zero_add, Nat.one_mul]
  · rw [memOf, List.getD_eq_default _ _ (by rw [List.length_map, List.length_range']; omega), hm]
    split
    · rfl
    · rw [memOf, List.getD_eq_default _ _ (by omega)]

/-- A `write` that fails at once. -/
theorem writeall_error {calls : Calls} {nbyte e : BitVec 64} (h : calls 0 nbyte = .error e)
    (out : List UInt8) : ∃ log, Returns (Io.writeall m calls nbyte out) (0, ⟨out, log⟩) := by
  obtain ⟨e, h⟩ : ∃ e, calls 0 (nbyte - 0) = .error e := by
    have hzero : nbyte - 0 = nbyte := by simp
    rw [hzero]
    exact ⟨e, h⟩
  have hturn : Transfer.turn Io.writeGoesOn nbyte (issue (Io.writing m) calls Result.ret) (0, ⟨out, []⟩) =
      ((0, ⟨out, [⟨0, nbyte - 0, .error e⟩]⟩), false) := by
    have hstop : Io.writeGoesOn (Result.error e : Result (nbyte - 0)).ret = false := rfl
    have hout : (Io.writing m).move (0 : BitVec 64).toNat
        (Result.error e : Result (nbyte - 0)).moved out = out := (Io.writing m).move_zero _ out
    simp only [Transfer.turn, issue, List.length_nil, h, hstop, Bool.false_eq_true, if_false,
      List.nil_append, hout]
  refine ⟨[⟨0, nbyte - 0, .error e⟩], 1, fun fuel hfuel => ?_⟩
  obtain ⟨d, rfl⟩ := Nat.exists_eq_add_of_le' hfuel
  rw [Io.writeall, transfer, doWhile, hturn]
  rfl

/-- **The whole slice** is written, or a `write` fails. -/
theorem writeall_slice (sys : Sys) (m : Mem) (nbyte : BitVec 64) :
    ∃ r, Returns (Io.writeall m sys.write nbyte []) r ∧
      (r.1 = nbyte → nbyte.toNat < 2 ^ 31 ∧ r.2.data = (List.range' 0 nbyte.toNat).map m) ∧
      (r.1 ≠ nbyte → 2 ^ 31 ≤ nbyte.toNat ∨ ∃ i n e, n.toNat < 2 ^ 31 ∧ sys.write i n = .error e) := by
  by_cases hlt : nbyte.toNat < 2 ^ 31
  · rcases Io.writeall_transfers m sys.write nbyte [] with ⟨r, hr, htransfers⟩ | ⟨-, j, hstalls⟩
    · refine ⟨r, hr, fun hall => ⟨hlt, ?_⟩, fun hless => .inr ?_⟩
      · rw [htransfers.data, ← htransfers.ret, hall]
        rfl
      · have hmoved : moved r.2.log ≠ nbyte.toNat := fun heq =>
          hless (BitVec.eq_of_toNat_eq (htransfers.ret.trans heq))
        rw [Ne, htransfers.full] at hmoved
        push Not at hmoved
        obtain ⟨pre, c, hpre, -, herror⟩ := hmoved
        obtain ⟨n, hn⟩ := hr
        obtain ⟨i, hresult⟩ := answers_of_transfer (hn n (Nat.le_refl n)) c
          (hpre.subset (List.mem_append_right _ (List.mem_singleton_self c)))
        have hasked := (htransfers.asks pre c hpre).2
        rw [hresult] at herror
        cases he : sys.write i c.asked with
        | count | eof =>
            rw [he] at herror
            cases herror rfl
        | error e => exact ⟨i, c.asked, e, by omega, he⟩
    · have hleft : nbyte - .ofNat 64 (moved (stateAt (Io.writing m) sys.write Io.writeGoesOn
          nbyte [] j).log) ≠ 0 := by
        have := hstalls.lt
        bv_omega
      exact absurd (hstalls.nothing _ (Nat.le_refl _)) (sys.goesOn _ _ hleft)
  · obtain ⟨e, he⟩ := sys.tooMany 0 nbyte (Nat.le_of_not_lt hlt)
    obtain ⟨log, hlog⟩ := writeall_error he []
    refine ⟨_, hlog, fun hall => absurd ?_ hlt, fun _ => .inl (Nat.le_of_not_lt hlt)⟩
    rw [← hall]
    exact Nat.two_pow_pos 31

end

/-! ## The function -/

section
variable {m : Mem}

/-- An assertion of `binary_is_arm64e` fails on no proper file. -/
theorem not_proper_of_isArm64e (h : binaryIsArm64e m = none) : ¬ Proper m := by
  intro hproper
  rw [binaryIsArm64e] at h
  split at h
  · next hmacho =>
      rw [machoIsArm64e, hproper.macho hmacho] at h
      split at h
      · next h64 => cases h64
      · split at h <;> cases h
  · split at h
    · next hfat =>
        rw [fatIsArm64e, hproper.fat hfat] at h
        cases h
    · cases h

/-- The header of an executable for arm64e: the one for arm64, with its subtype changed, or an
assertion fails. -/
theorem binaryHeader_spec (h : binaryIsArm64e m = some true) :
    (∃ mh, SliceAt m mh ∧ IsArm64 m mh ∧
        binaryHeader m = some (some (mh, m.store32 (mh + 8) cpuSubtypeArm64All))) ∨
      ¬ Proper m ∧ binaryHeader m = some none := by
  rw [binaryIsArm64e] at h
  split at h
  · next hmacho =>
      rw [binaryHeader, if_pos hmacho, machoArm64eToArm64_eq m hmacho]
      by_cases harm : IsArm64 m 0
      · exact .inl ⟨0, .macho hmacho, harm, by rw [if_pos harm]⟩
      · refine .inr ⟨fun hproper => harm ⟨hproper.macho hmacho, ?_⟩, by rw [if_neg harm]⟩
        by_contra hcpu
        rw [machoIsArm64e, if_pos hcpu] at h
        split at h <;> cases h
  · next hmacho =>
      split at h
      · next hfat =>
          obtain ⟨fa, hfa⟩ := exists_arm64Arch h
          rw [binaryHeader, if_neg hmacho, if_pos hfat,
            fatArm64eToArm64_eq (headerIs32bit h) hfa]
          by_cases harm : IsArm64 m fa.offset
          · exact .inl ⟨fa.offset, .fat hfat hfa, harm, by rw [if_pos harm]⟩
          · exact .inr ⟨fun hproper => harm (hproper.slice hfat fa hfa), by rw [if_neg harm]⟩
      · cases h

end

section
variable {sys : Sys} {exe : Exe} {tmp tmp' : Option (List UInt8)}

/-- Behind `out` there is no temporary file, unless it is to be run. -/
theorem launches_out {ret : Thinning} (hret : ret ≠ .success)
    (harm : ret = .notArm64e → binaryIsArm64e (memOf exe.bytes) = some false)
    (hfails : ret = .failure → Fails sys exe) : Ends sys exe tmp' (sys.out ret tmp) where
  arm64 a ha := by
    cases ret with
    | success => exact absurd rfl hret
    | failure => cases ha
    | notArm64e =>
        obtain rfl := Option.some.inj ha
        exact ⟨exe.bytes, rfl, harm rfl, .inl rfl⟩
  clean _ haccess hunlink := by
    cases tmp with
    | none => exact ite_self none
    | some bytes => exact if_pos ⟨hret, rfl, haccess, hunlink⟩
  fails hnone := by
    cases ret with
    | success => cases hnone
    | failure => exact hfails rfl
    | notArm64e => cases hnone

/-- A slice for arm64 that has been written as a whole. -/
theorem arm64Slice {mh : Nat} (harm64e : binaryIsArm64e (memOf exe.bytes) = some true)
    (hslice : SliceAt (memOf exe.bytes) mh) (harm : IsArm64 (memOf exe.bytes) mh)
    (hle : mh ≤ exe.bytes.length) {m : Mem}
    (hm : m = ((memOf exe.bytes).store32 (mh + 8) cpuSubtypeArm64All).onward mh)
    (hbound : machoFindLoadCommand m lcDyldInfo = none ∧
      machoFindLoadCommand m lcDyldInfoOnly = none) :
    Arm64Slice exe.bytes mh ((List.range' 0 (exe.bytes.length - mh)).map m) := by
  have hat : ∀ i, m i = if InSubtype i then 0 else memOf exe.bytes (mh + i) := by
    intro i
    rw [hm, onward_store32]
  have hsame : ∀ i, ¬ InSubtype i → m i = (memOf exe.bytes).onward mh i := by
    rw [hm]
    exact fun i => onward_same (memOf exe.bytes) mh
  have hout := memOf_written hle hat
  constructor
  case arm64e => exact harm64e
  case slice => exact hslice
  case le => exact hle
  case length => rw [List.length_map, List.length_range']
  case same => rwa [hout]
  case magic =>
    rw [hout, Mem.magic, u32_same hsame (by omega), u32_onward]
    exact harm.1
  case cputype =>
    rw [hout, u32_same hsame (by omega), u32_onward]
    exact harm.2
  case cpusubtype =>
    rw [hout]
    exact u32_subtype hat
  case commands =>
    intro cmd
    rw [hout, machoFindLoadCommand_same hsame]
  case unbound => rwa [hout]

theorem Arm64Slice.arm64 {f out : List UInt8} {off : Nat} (h : Arm64Slice f off out) :
    binaryIsArm64e (memOf out) = some false := binaryIsArm64e_arm64 ⟨h.magic, h.cputype⟩ h.cpusubtype

theorem fatField_lt (m : Mem) (a : Nat) : fatField m a < 2 ^ 32 := by
  rw [fatField]
  split
  · have h := ofLeBytes_lt (leBytes 4 (m.u32 a)).reverse
    rwa [List.length_reverse, length_leBytes] at h
  · exact m.u32_lt a

theorem SliceAt.lt {m : Mem} {off : Nat} (h : SliceAt m off) : off < 2 ^ 32 := by
  cases h with
  | macho h => exact Nat.two_pow_pos 32
  | fat h hfa =>
      obtain ⟨i, -, rfl⟩ := List.mem_map.mp (List.mem_of_find?_eq_some hfa)
      exact fatField_lt m _

/-- The end of the function behind the header: the slice is searched, and written. -/
theorem writeall_ends {mh : Nat} (harm64e : binaryIsArm64e (memOf exe.bytes) = some true)
    (hslice : SliceAt (memOf exe.bytes) mh) (harm : IsArm64 (memOf exe.bytes) mh) {m : Mem}
    (hm : m = ((memOf exe.bytes).store32 (mh + 8) cpuSubtypeArm64All).onward mh)
    (hbound : machoFindLoadCommand m lcDyldInfo = none ∧
      machoFindLoadCommand m lcDyldInfoOnly = none)
    {nbyte : BitVec 64} (hnbyte : nbyte = .ofNat 64 exe.bytes.length - .ofNat 64 mh)
    {r : BitVec 64 × Io (List UInt8)}
    (hwritten : r.1 = nbyte → nbyte.toNat < 2 ^ 31 ∧ r.2.data = (List.range' 0 nbyte.toNat).map m)
    (hfailed : r.1 ≠ nbyte → 2 ^ 31 ≤ nbyte.toNat ∨
      ∃ i n e, n.toNat < 2 ^ 31 ∧ sys.write i n = .error e) :
    Ends sys exe tmp (sys.out (if r.1 = nbyte then .success else .failure) (some r.2.data)) := by
  have hmh := hslice.lt
  have hfits := exe.fits
  by_cases hall : r.1 = nbyte
  · rw [if_pos hall]
    obtain ⟨hlt, hdata⟩ := hwritten hall
    have hsub : mh ≤ exe.bytes.length ∧ nbyte.toNat = exe.bytes.length - mh := by
      rw [hnbyte, BitVec.toNat_sub, BitVec.toNat_ofNat, BitVec.toNat_ofNat] at hlt ⊢
      omega
    rw [hsub.2] at hdata
    have harm64 := arm64Slice harm64e hslice harm hsub.1 hm hbound
    rw [← hdata] at harm64
    constructor
    case arm64 =>
      intro a ha
      obtain rfl := Option.some.inj ha
      exact ⟨r.2.data, rfl, harm64.arm64, .inr ⟨mh, harm64⟩⟩
    case clean => exact fun h => absurd rfl h
    case fails => exact nofun
  · rw [if_neg hall]
    refine launches_out (by decide) nofun fun _ => ?_
    rcases hfailed hall with hmany | ⟨i, n, e, hn, he⟩
    · refine .size hslice ?_
      rw [hnbyte, BitVec.toNat_sub, BitVec.toNat_ofNat, BitVec.toNat_ofNat] at hmany
      omega
    · exact .write hn he

end

/-- Calls that write all of what they are asked for. -/
def writesAll : Calls := fun _ n =>
  if hmany : 2 ^ 31 ≤ n.toNat then .error 22
  else if hpos : 0 < n.toNat then .count n.toNat hpos (Nat.le_refl _) (by omega)
  else .eof

/-- A system whose calls all succeed. -/
def willing : Sys where
  openPath := true
  lseek := true
  mmap := true
  openTmp := true
  write := writesAll
  access := true
  unlink := true
  tooMany i n hn := ⟨22, dif_pos hn⟩
  goesOn i n hn := by
    have hpos : 0 < n.toNat := Nat.pos_of_ne_zero fun h0 => hn (BitVec.eq_of_toNat_eq h0)
    unfold writesAll
    split <;> nofun

/-- A header of 64 bits for arm64, without load commands. -/
def headerFor (cpusubtype : Nat) : List UInt8 :=
  leBytes 4 mhMagic64 ++ leBytes 4 cpuTypeArm64 ++ leBytes 4 cpusubtype ++ leBytes 4 mhExecute ++
    List.replicate 16 0

/-- A fat file with a slice for arm64e behind one for another processor. -/
def fatExe : Exe where
  bytes := (leBytes 4 fatMagic).reverse ++ (leBytes 4 2).reverse ++
    ([0x01000007, 3, 4096, 4, 0].flatMap fun v => (leBytes 4 v).reverse) ++
    ([cpuTypeArm64, 0x80000002, 52, 32, 0].flatMap fun v => (leBytes 4 v).reverse) ++
    [1, 2, 3, 4] ++ headerFor 0x80000002
  fits := by decide

example : binaryArm64eToArm64 willing fatExe none 2 =
    some (.returned .success (some (headerFor cpuSubtypeArm64All))) := by decide

end Xnd.Macho
