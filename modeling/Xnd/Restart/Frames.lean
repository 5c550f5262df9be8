import Xnd.Lib.Walk

/-!
# Signed link registers

After a restart `ptrauth_resign_frames` walks the frame records of a stack: `fp[0]` is the
record of the caller, and `fp[1]` the saved link register, which is stripped and signed
again with `fp + 16` where it has a signature.  `internals.md` has the loop that this stands
for, `pac_resign_frames`.

* the two do the same to every memory (`returns_ptrauthResignFrames_iff`);
* on a chain of records it is what `resigned` says, and it is done once and for all
  (`ptrauthResignFrames_chain`).

Memory is in words: a `u64 *` is a multiple of 8.
-/
namespace Xnd.Pac
open Walk

abbrev Word := BitVec 64

/-- `PTRAUTH_BIT_MASK`. -/
def ptrauthBitMask : Word := 0xFF7F800000000000

/-- `PTRAUTH_SIGNED`. -/
def ptrauthSigned (ptr : Word) : Bool := ptr &&& ptrauthBitMask != 0

/-- `xpaci` and `pacib`, which strip and sign a pointer, the latter with a modifier and the
key of the process. -/
structure PtrAuth where
  xpaci : Word → Word
  pacib : Word → Word → Word
  xpaci_xpaci : ∀ ptr, xpaci (xpaci ptr) = xpaci ptr
  xpaci_pacib : ∀ ptr mod, xpaci (pacib ptr mod) = xpaci ptr
  signed_pacib : ∀ ptr mod, ptrauthSigned (pacib ptr mod) = true

/-- The memory, and the frames that were signed again, in this order. -/
@[ext] structure Stack where
  mem : Word → Word
  resigned : List Word

namespace Stack

/-- `fp[0]`. -/
def caller (s : Stack) (fp : Word) : Word := s.mem fp

/-- `fp[1]`. -/
def lr (s : Stack) (fp : Word) : Word := s.mem (fp + 8)

def setLr (s : Stack) (fp v : Word) : Stack := { s with mem := Function.update s.mem (fp + 8) v }

/-- `PTRAUTH_XPACI(fp[1]); PTRAUTH_PACIB(fp[1], sp);`. -/
def resign (pac : PtrAuth) (fp sp : Word) (s : Stack) : Stack :=
  let s := s.setLr fp (pac.xpaci (s.lr fp))
  let s := s.setLr fp (pac.pacib (s.lr fp) sp)
  { s with resigned := s.resigned ++ [fp] }

end Stack

/-- An `xnd_assert` of `ptrauth_resign_frames` that fails. -/
inductive Abort where
  | assertion
  deriving DecidableEq, Repr

/-- The frame records of a stack, and those with a signature. -/
def frameRecords : Records Stack Word where
  null := 0
  next s fp := s.caller fp
  test s fp := ptrauthSigned (s.lr fp)

/-- `first_signed_frame`. -/
def firstSignedFrame (fuel : Nat) (s : Stack) (fp : Word) : Option Word :=
  frameRecords.search fuel s fp

/-- `next_signed_frame`. -/
def nextSignedFrame (fuel : Nat) (s : Stack) (fp : Word) : Option Word :=
  if fp = 0 then some fp else frameRecords.search fuel s (s.caller fp)

/-- The body of `ptrauth_resign_frames`. -/
def resignBody (pac : PtrAuth) (fp : Word) (s : Stack) : Except Abort Stack :=
  let sp := fp + 0x10
  if ptrauthSigned (s.lr fp) = true then .ok (s.resign pac fp sp) else .error .assertion

/-- `ptrauth_resign_frames`. -/
def ptrauthResignFrames (pac : PtrAuth) (s : Stack) (fp : Word) (fuel : Nat) :
    Option (Except Abort Stack) :=
  (firstSignedFrame fuel s fp).bind fun fp => forLoop 0 nextSignedFrame (resignBody pac) fuel s fp

/-- The body of the documented `pac_resign_frames`. -/
def pacResignBody (pac : PtrAuth) (fp : Word) (s : Stack) : Except Abort Stack :=
  if ¬ ptrauthSigned (s.lr fp) = true then .ok s else .ok (s.resign pac fp (fp + 16))

/-- The documented `pac_resign_frames`. -/
def pacResignFrames (pac : PtrAuth) (s : Stack) (fp : Word) (fuel : Nat) :
    Option (Except Abort Stack) :=
  forLoop 0 (fun _ s fp => some (s.caller fp)) (pacResignBody pac) fuel s fp

/-! ## The two loops -/

section
variable (pac : PtrAuth) (s : Stack) (fp : Word)

theorem ptrauthResignFrames_eq :
    ptrauthResignFrames pac s fp = frameRecords.visit (resignBody pac) s fp := rfl

theorem pacResignFrames_eq :
    pacResignFrames pac s fp =
      frameRecords.walk (fun fp s => .ok (s.resign pac fp (fp + 16))) s fp := by
  have hbody : pacResignBody pac = fun fp s =>
      if frameRecords.test s fp = true then .ok (s.resign pac fp (fp + 16)) else .ok s := by
    funext fp s
    exact ite_not ..
  unfold pacResignFrames
  rw [hbody]
  rfl

/-- **The iterator does what the documented loop does**, to every memory. -/
theorem returns_ptrauthResignFrames_iff {r : Except Abort Stack} :
    Returns (ptrauthResignFrames pac s fp) r ↔ Returns (pacResignFrames pac s fp) r := by
  rw [ptrauthResignFrames_eq, Records.returns_visit_iff, pacResignFrames_eq]
  have hbody : frameRecords.walk (resignBody pac) s fp =
      frameRecords.walk (fun fp s => .ok (s.resign pac fp (fp + 16))) s fp :=
    Records.walk_congr fun s fp htest => if_pos htest
  rw [hbody]

end

/-! ## Chains of frame records -/

/-- The words of the records, two of each, are at distinct addresses. -/
def Distinct (frames : List Word) : Prop := (frames.flatMap fun fp => [fp, fp + 8]).Nodup

instance (frames : List Word) : Decidable (Distinct frames) :=
  inferInstanceAs (Decidable (List.Nodup _))

/-- From `fp` on the frame records are `frames`; the last one has no caller. -/
def FrameChain (mem : Word → Word) (fp : Word) (frames : List Word) : Prop :=
  Chain 0 mem fp frames

/-- The frames with a signature. -/
def signedFrames (mem : Word → Word) (frames : List Word) : List Word :=
  frames.filter fun fp => ptrauthSigned (mem (fp + 8))

/-- **The memory that is wanted**: a link register with a signature is stripped and signed with
the address behind its record, and all else is as it was. -/
def resigned (pac : PtrAuth) (frames : List Word) (mem : Word → Word) (a : Word) : Word :=
  if a - 8 ∈ frames ∧ ptrauthSigned (mem a) = true then
    pac.pacib (pac.xpaci (mem a)) (a - 8 + 16)
  else mem a

section Distinct
variable {frames : List Word} (h : Distinct frames)
include h

theorem Distinct.nodup : frames.Nodup := by
  refine (List.nodup_flatMap.mp h).2.imp fun {a b} hab => ?_
  rintro rfl
  exact hab List.mem_cons_self List.mem_cons_self

/-- No link register is where a caller is. -/
theorem Distinct.ne {a b : Word} (ha : a ∈ frames) (hb : b ∈ frames) : b ≠ a + 8 := by
  have hpairs := (List.nodup_flatMap.mp h).2
  have hsymm : Std.Symm (Function.onFun List.Disjoint fun fp : Word => [fp, fp + 8]) :=
    ⟨fun _ _ hab => hab.symm⟩
  rintro rfl
  by_cases hab : a = a + 8
  · exact absurd hab (by bv_omega)
  · exact hpairs.forall ha hb hab (List.mem_cons_of_mem _ List.mem_cons_self) List.mem_cons_self

end Distinct

/-- The records of a stack, which start at multiples of 16, are at distinct addresses. -/
theorem FrameChain.distinct {mem : Word → Word} {fp : Word} {frames : List Word}
    (h : FrameChain mem fp frames) (haligned : ∀ fp ∈ frames, fp.toNat % 16 = 0) :
    Distinct frames := by
  refine List.nodup_flatMap.mpr ⟨fun fp _ => ?_, h.nodup.imp_of_mem fun {a b} ha hb hab => ?_⟩
  · have hne : fp ≠ fp + 8 := by bv_omega
    exact List.nodup_cons.mpr ⟨fun h => hne (List.mem_singleton.mp h), List.nodup_singleton _⟩
  · have ha := haligned a ha
    have hb := haligned b hb
    rintro x hxa hxb
    simp only [List.mem_cons, List.not_mem_nil, or_false] at hxa hxb
    bv_omega

section Resign
variable {pac : PtrAuth} {s : Stack}

theorem mem_resign (fp sp : Word) :
    (s.resign pac fp sp).mem =
      Function.update s.mem (fp + 8) (pac.pacib (pac.xpaci (s.lr fp)) sp) := by
  have hlr : (s.setLr fp (pac.xpaci (s.lr fp))).lr fp = pac.xpaci (s.lr fp) :=
    Function.update_self ..
  show Function.update (s.setLr fp _).mem (fp + 8) (pac.pacib ((s.setLr fp _).lr fp) sp) = _
  rw [hlr]
  exact Function.update_idem ..

variable (pac) in
/-- The body where it has nothing to assert. -/
def resignAt (fp : Word) (s : Stack) : Stack := s.resign pac fp (fp + 16)

theorem sub_eq_iff {a fp : Word} : a - 8 = fp ↔ a = fp + 8 := by
  constructor
  · rintro rfl
    exact (BitVec.sub_add_cancel a 8).symm
  · rintro rfl
    exact BitVec.add_sub_cancel fp 8

variable (pac) in
/-- Frames that are signed again, each of them once. -/
theorem foldl_resign {l : List Word} (hl : l.Nodup) :
    (l.foldl (fun s fp => resignAt pac fp s) s).resigned = s.resigned ++ l ∧
      ∀ a, (l.foldl (fun s fp => resignAt pac fp s) s).mem a =
        if a - 8 ∈ l then pac.pacib (pac.xpaci (s.mem a)) (a - 8 + 16) else s.mem a := by
  induction l generalizing s with
  | nil => exact ⟨(List.append_nil _).symm, fun a => rfl⟩
  | cons fp l ih =>
      obtain ⟨hnotin, hl⟩ := List.nodup_cons.mp hl
      obtain ⟨hlog, hmem⟩ := ih (s := resignAt pac fp s) hl
      refine ⟨hlog.trans (List.append_assoc ..), fun a => ?_⟩
      rw [List.foldl_cons, hmem a, resignAt, mem_resign]
      by_cases ha : a - 8 = fp
      · obtain rfl := sub_eq_iff.mp ha
        rw [ha, if_neg hnotin, if_pos List.mem_cons_self, Function.update_self]
        rfl
      · have hother : a ≠ fp + 8 := fun h => ha (sub_eq_iff.mpr h)
        rw [Function.update_of_ne hother]
        exact if_congr (List.mem_cons.trans (or_iff_right ha)).symm rfl rfl

variable (pac) in
/-- What the body does at a frame leaves the callers alone, and the other link registers. -/
theorem local_resign {frames : List Word} (h : Distinct frames) :
    Local frameRecords frames (resignAt pac) where
  next s a ha b hb := by
    show (s.resign pac a (a + 16)).mem b = s.mem b
    rw [mem_resign, Function.update_of_ne (h.ne ha hb)]
  test s a ha b hb hab := by
    have hother : b + 8 ≠ a + 8 := by bv_omega
    show ptrauthSigned ((s.resign pac a (a + 16)).mem (b + 8)) = ptrauthSigned (s.mem (b + 8))
    rw [mem_resign, Function.update_of_ne hother]

theorem mem_signedFrames {frames : List Word} {mem : Word → Word} {a : Word} :
    a - 8 ∈ signedFrames mem frames ↔ a - 8 ∈ frames ∧ ptrauthSigned (mem a) = true := by
  rw [signedFrames, List.mem_filter, BitVec.sub_add_cancel]

theorem nodup_signedFrames {frames : List Word} (h : Distinct frames) (mem : Word → Word) :
    (signedFrames mem frames).Nodup := h.nodup.filter _

variable (pac) in
/-- **What the loop comes to** on a chain. -/
theorem returns_resigned {mem : Word → Word} {fp : Word} {frames : List Word}
    (hchain : FrameChain mem fp frames) (hdistinct : Distinct frames) :
    Returns (ptrauthResignFrames pac ⟨mem, []⟩ fp)
      (.ok ⟨resigned pac frames mem, signedFrames mem frames⟩) := by
  have hreturns := Records.returns_walk (ε := Abort) (R := frameRecords) (s := ⟨mem, []⟩)
    (local_resign pac hdistinct) hchain (fun a ha => ha) hdistinct.nodup
  obtain ⟨hlog, hmem⟩ := foldl_resign pac (s := ⟨mem, []⟩)
    (nodup_signedFrames hdistinct mem)
  have hstack : (signedFrames mem frames).foldl (fun s fp => resignAt pac fp s) ⟨mem, []⟩ =
      ⟨resigned pac frames mem, signedFrames mem frames⟩ :=
    Stack.ext (funext fun a => (hmem a).trans (if_congr mem_signedFrames rfl rfl)) hlog
  rw [returns_ptrauthResignFrames_iff, pacResignFrames_eq, ← hstack]
  exact hreturns

section Again
variable {mem : Word → Word} {frames : List Word}

/-- Only link registers of the frames change. -/
theorem resigned_of_ne {a : Word} (ha : ∀ fp ∈ frames, a ≠ fp + 8) :
    resigned pac frames mem a = mem a :=
  if_neg fun h => ha (a - 8) h.1 (sub_eq_iff.mp rfl)

/-- Whether a link register has a signature does not change. -/
theorem signed_resigned (a : Word) :
    ptrauthSigned (resigned pac frames mem a) = ptrauthSigned (mem a) := by
  rw [resigned]
  split
  · rename_i h
    rw [pac.signed_pacib, h.2]
  · rfl

theorem resigned_resigned :
    resigned pac frames (resigned pac frames mem) = resigned pac frames mem := by
  funext a
  conv_lhs => rw [resigned, signed_resigned]
  by_cases h : a - 8 ∈ frames ∧ ptrauthSigned (mem a) = true
  · have hmem : resigned pac frames mem a = pac.pacib (pac.xpaci (mem a)) (a - 8 + 16) := if_pos h
    rw [if_pos h, hmem, pac.xpaci_pacib, pac.xpaci_xpaci]
  · rw [if_neg h]

theorem signedFrames_resigned :
    signedFrames (resigned pac frames mem) frames = signedFrames mem frames :=
  List.filter_congr fun fp _ => signed_resigned (fp + 8)

variable (pac) in
theorem chain_resigned {fp : Word} (hchain : FrameChain mem fp frames)
    (hdistinct : Distinct frames) : FrameChain (resigned pac frames mem) fp frames :=
  hchain.congr fun _ hb => resigned_of_ne fun _ ha => hdistinct.ne ha hb

end Again

end Resign

/-- **Frames are signed again once.**  On a chain of frame records `ptrauth_resign_frames` leaves
the memory that the documented loop does, in which the link registers with a signature are signed
again and every other word is as it was; it comes to each of these frames once and its assertion
holds there; and it leaves this memory as it is. -/
theorem ptrauthResignFrames_chain (pac : PtrAuth) {mem : Word → Word} {fp : Word}
    {frames : List Word} (hchain : FrameChain mem fp frames) (hdistinct : Distinct frames) :
    Returns (ptrauthResignFrames pac ⟨mem, []⟩ fp)
        (.ok ⟨resigned pac frames mem, signedFrames mem frames⟩) ∧
      Returns (pacResignFrames pac ⟨mem, []⟩ fp)
        (.ok ⟨resigned pac frames mem, signedFrames mem frames⟩) ∧
      (signedFrames mem frames).Nodup ∧
      (∀ a, (∀ fp ∈ signedFrames mem frames, a ≠ fp + 8) → resigned pac frames mem a = mem a) ∧
      FrameChain (resigned pac frames mem) fp frames ∧
      Returns (ptrauthResignFrames pac ⟨resigned pac frames mem, []⟩ fp)
        (.ok ⟨resigned pac frames mem, signedFrames mem frames⟩) := by
  have hreturns := returns_resigned pac hchain hdistinct
  have hchain' := chain_resigned pac hchain hdistinct
  refine ⟨hreturns, (returns_ptrauthResignFrames_iff ..).mp hreturns,
    nodup_signedFrames hdistinct mem, fun a ha => ?_, hchain', ?_⟩
  · refine if_neg fun h => ha (a - 8) ?_ (sub_eq_iff.mp rfl)
    exact mem_signedFrames.mpr h
  · have hagain := returns_resigned pac hchain' hdistinct
    rwa [resigned_resigned, signedFrames_resigned] at hagain

/-- Signatures that are a part of the modifier, and never 0. -/
def modifierPac : PtrAuth where
  xpaci ptr := ptr &&& ~~~ptrauthBitMask
  pacib ptr mod :=
    (ptr &&& ~~~ptrauthBitMask) ||| (((mod <<< 40) ||| 0x8000000000000000) &&& ptrauthBitMask)
  xpaci_xpaci ptr := by rw [BitVec.and_assoc, BitVec.and_self]
  xpaci_pacib ptr mod := by
    ext i hi
    simp only [BitVec.getElem_and, BitVec.getElem_or, BitVec.getElem_not]
    cases ptr[i] <;> cases ptrauthBitMask[i] <;> simp
  signed_pacib ptr mod := by
    refine bne_iff_ne.mpr fun h => ?_
    have hbit := congrArg (fun w : Word => w[63]) h
    simp [ptrauthBitMask, BitVec.getElem_and, BitVec.getElem_or] at hbit

/-- Three frames, of which the first and the last have a signature. -/
def threeFrames : Word → Word := fun a =>
  if a = 0x1000 then 0x2000 else if a = 0x1008 then 0xFF00000000012340
  else if a = 0x2000 then 0x3000 else if a = 0x2008 then 0x56780
  else if a = 0x3000 then 0 else if a = 0x3008 then 0x00FF800000009abc else 7

theorem frameChain_threeFrames : FrameChain threeFrames 0x1000 [0x1000, 0x2000, 0x3000] :=
  ⟨rfl, by decide, rfl, by decide, rfl, by decide, rfl⟩

theorem ptrauthResignFrames_threeFrames :
    Returns (ptrauthResignFrames modifierPac ⟨threeFrames, []⟩ 0x1000)
        (.ok ⟨resigned modifierPac [0x1000, 0x2000, 0x3000] threeFrames, [0x1000, 0x3000]⟩) :=
  (ptrauthResignFrames_chain modifierPac frameChain_threeFrames (by decide)).1

end Xnd.Pac
