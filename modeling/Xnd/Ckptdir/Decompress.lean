import Xnd.Ckptdir.Compress

/-!
# What a failed decompression leaves

`xnd_decompress_ckpt` creates the uncompressed image before it knows that there will be one,
and `do_decompress` takes the end of the file for the end of the stream.  A restart that finds
an uncompressed image does not look at the compressed one.

`Files.lean` has the images as numbers of pieces; here they are bytes.
-/
namespace Xnd.Ckptdir.Decompress

/-- What the calls of `xnd_decompress_ckpt` come to, except those of `read`. -/
structure Calls where
  openSource : Bool
  openTarget : Bool
  inflateInit : Bool
  limit : Option Nat
  deriving DecidableEq, Repr

/-- How `xnd_decompress_ckpt` ends: whether it returns 0, if no assertion is in the way, what
`inflate` has said last, and the uncompressed image. -/
structure Result where
  zero : Option Bool
  err : Option CoderRet
  plain : Option (List UInt8)
  deriving DecidableEq, Repr

/-- The uncompressed image, which is opened without `O_TRUNC`. -/
def target (plain : Option (List UInt8)) (file : List UInt8) : List UInt8 :=
  file ++ (plain.getD []).drop file.length

/-- `xnd_decompress_ckpt` after `do_decompress`. -/
def afterDecompress (plain : Option (List UInt8)) : Coded → Result
  | .aborted file => ⟨none, none, some (target plain file)⟩
  | .returned zero err file => ⟨some zero, err, some (target plain file)⟩

section Model
variable (inflate : Coder) (o : Calls) (n : Nat) (src : Source) (plain : Option (List UInt8))

/-- `xnd_decompress_ckpt`, when the inner loop takes `n` turns at most. -/
def xndDecompressCkpt : Option Result :=
  if o.openSource = true ∧ o.openTarget = true then
    (doDecompress inflate o.limit o.inflateInit n src).map (afterDecompress plain)
  else some ⟨some false, none, plain⟩

/-- The constructor of `xnd_restart_target`, where the uncompressed image can be opened: the
image it goes on with, unless it exits, and the uncompressed image. -/
def xndRestartTarget : Option (Option (List UInt8) × Option (List UInt8)) :=
  match plain with
  | some image => some (some image, some image)
  | none =>
      (xndDecompressCkpt inflate o n src none).map fun r =>
        (if r.zero = some true then r.plain else none, r.plain)

end Model

/-! ## What is to hold -/

section Spec
variable {inflate : Coder} {decoded : List UInt8 → List UInt8} {Complete : List UInt8 → Prop}
variable {o : Calls} {src : Source}

/-- **All or nothing**, where there is no uncompressed image before: with 0 there is the whole
image, otherwise none. -/
def AllOrNothing (inflate : Coder) (decoded : List UInt8 → List UInt8)
    (Complete : List UInt8 → Prop) (o : Calls) (src : Source) : Prop :=
  ∃ r, (∃ n, ∀ m ≥ n, xndDecompressCkpt inflate o m src none = some r) ∧
    (r.zero = some true → r.err = some .streamEnd ∧
      ∃ e, Complete e ∧ e <+: src.parts.flatten ∧ r.plain = some (decoded e)) ∧
    (r.zero ≠ some true → r.plain = none)

theorem target_none (file : List UInt8) : target none file = file := by
  simp [target]

/-- How `do_decompress` ends when `inflateInit` succeeds. -/
theorem doDecompress_ends (hc : inflate.Decodes decoded Complete) (limit : Option Nat)
    (src : Source) : ∃ r, (∃ n, ∀ m ≥ n, doDecompress inflate limit true m src = some r) ∧
      Decompressed decoded Complete limit [] src.parts.flatten r := by
  have hempty : Fits limit [] := fun _ _ => Nat.zero_le _
  obtain ⟨r, ⟨n, hn⟩, hr⟩ := decompressLoop_ends hc src.fails src.parts .init hempty hc.nonempty
    (nofun : none ≠ some CoderRet.streamEnd)
  exact ⟨r, ⟨n, fun m hm => (if_pos rfl).trans (hn m hm)⟩, hr⟩

/-- Once the uncompressed image is created, it has to be completed. -/
theorem complete_of_allOrNothing (hc : inflate.Decodes decoded Complete)
    (h : AllOrNothing inflate decoded Complete o src) (hsource : o.openSource = true)
    (htarget : o.openTarget = true) : o.inflateInit = true ∧
      ∃ e, Complete e ∧ e <+: src.parts.flatten ∧ Fits o.limit (decoded e) := by
  obtain ⟨r, ⟨n, hn⟩, hzero, hnot⟩ := h
  have hcreated : ∀ m, xndDecompressCkpt inflate o m src none =
      (doDecompress inflate o.limit o.inflateInit m src).map (afterDecompress none) :=
    fun m => if_pos ⟨hsource, htarget⟩
  have hplain : ∀ c, afterDecompress none c = r → r.plain ≠ none := by
    rintro (file | ⟨zero, err, file⟩) rfl <;> exact nofun
  cases hinit : o.inflateInit with
  | false =>
      have hfailed := (hcreated n).symm.trans (hn n (Nat.le_refl n))
      rw [hinit] at hfailed
      obtain rfl := Option.some.inj hfailed
      exact absurd (hnot nofun) nofun
  | true =>
      refine ⟨rfl, ?_⟩
      obtain ⟨c, ⟨n', hn'⟩, hends⟩ := doDecompress_ends hc o.limit src
      have hr := (hcreated _).symm.trans (hn _ (Nat.le_max_left n n'))
      rw [hinit, hn' _ (Nat.le_max_right n n'), Option.map_some] at hr
      have hr := Option.some.inj hr
      obtain ⟨e, he, hpre, hfits, -⟩ | ⟨hnever, -⟩ := hends
      · exact ⟨e, he, hpre, hfits⟩
      · by_cases hret : r.zero = some true
        · obtain ⟨herr, -⟩ := hzero hret
          obtain file | ⟨zero, err, file⟩ := c
          · rw [← hr] at hret
            cases hret
          · rw [← hr] at hret herr
            obtain rfl := Option.some.inj hret
            obtain rfl : err = some .streamEnd := herr
            exact absurd rfl (hnever file)
        · exact absurd (hnot hret) (hplain c hr)

/-- **`xnd_decompress_ckpt` is all-or-nothing exactly when** it does not come to create the
uncompressed image, or what it reads goes up to the end of a stream, and no write fails. -/
theorem allOrNothing_iff (hc : inflate.Decodes decoded Complete) :
    AllOrNothing inflate decoded Complete o src ↔
      o.openSource = false ∨ o.openTarget = false ∨
        o.inflateInit = true ∧
          ∃ e, Complete e ∧ e <+: src.parts.flatten ∧ Fits o.limit (decoded e) := by
  by_cases hopen : o.openSource = true ∧ o.openTarget = true
  · refine ⟨fun h => .inr (.inr (complete_of_allOrNothing hc h hopen.1 hopen.2)), fun h => ?_⟩
    rw [hopen.1, hopen.2] at h
    obtain ⟨hinit, e, he, hpre, hfits⟩ := (h.resolve_left nofun).resolve_left nofun
    obtain ⟨c, ⟨n, hn⟩, hends⟩ := doDecompress_ends hc o.limit src
    obtain ⟨e', he', hpre', -, rfl⟩ | ⟨-, hno⟩ := hends
    · refine ⟨afterDecompress none (.returned true (some .streamEnd) (decoded e')),
        ⟨n, fun m hm => ?_⟩, fun _ => ⟨rfl, e', he', hpre', ?_⟩, fun hnot => absurd rfl hnot⟩
      · rw [xndDecompressCkpt, if_pos hopen, hinit, hn m hm]
        rfl
      · exact congrArg some (target_none _)
    · exact absurd hfits (hno e he List.nil_prefix hpre)
  · have hclosed : o.openSource = false ∨ o.openTarget = false := by
      simpa [or_iff_not_imp_left] using hopen
    refine ⟨fun _ => hclosed.elim .inl fun h => .inr (.inl h), fun _ => ?_⟩
    exact ⟨_, ⟨0, fun m _ => if_neg hopen⟩, nofun, fun _ => rfl⟩

theorem allOrNothing_iff_marked :
    AllOrNothing markedAutomaton.decoder markedAutomaton.decoded markedAutomaton.Complete
        ⟨true, true, true, none⟩ ⟨[marked []], false, by decide⟩ ↔
      true = false ∨ true = false ∨ true = true ∧
        ∃ e, markedAutomaton.Complete e ∧ e <+: [marked []].flatten ∧
          Fits none (markedAutomaton.decoded e) :=
  allOrNothing_iff (Coder.Automaton.decodes markedAutomaton)

/-- **A stream that breaks off**, after its first byte: 0 is returned without an end of the
stream, and the restart goes on with an image of no bytes.  **A write that fails**: the empty
image stays, and the next restart takes it although the stream is complete. -/
theorem not_allOrNothing_marked :
    (∃ split, ¬ AllOrNothing markedAutomaton.decoder markedAutomaton.decoded
        markedAutomaton.Complete ⟨true, true, true, none⟩ ⟨[[0x78]], false, split⟩ ∧
      xndDecompressCkpt markedAutomaton.decoder ⟨true, true, true, none⟩ 1
        ⟨[[0x78]], false, split⟩ none = some ⟨some true, some .ok, some []⟩) ∧
    ∃ split, ¬ AllOrNothing markedAutomaton.decoder markedAutomaton.decoded
        markedAutomaton.Complete ⟨true, true, true, some 0⟩ ⟨[marked [7]], false, split⟩ ∧
      xndRestartTarget markedAutomaton.decoder ⟨true, true, true, some 0⟩ 1
        ⟨[marked [7]], false, split⟩ none = some (none, some []) ∧
      xndRestartTarget markedAutomaton.decoder ⟨true, true, true, none⟩ 1
        ⟨[marked [7]], false, split⟩ (some []) = some (some [], some []) := by
  have hdecodes := Coder.Automaton.decodes markedAutomaton
  refine ⟨⟨by decide, fun h => ?_, by decide⟩, ⟨by decide, fun h => ?_, by decide, rfl⟩⟩
  · obtain ⟨-, e, ⟨q, hq, hfinal⟩, hpre, -⟩ := complete_of_allOrNothing hdecodes h rfl rfl
    have hmem : e = [] ∨ e = [0x78] := by
      simpa using (List.mem_inits e [0x78]).mpr hpre
    obtain rfl | rfl := hmem
    · obtain rfl := Option.some.inj hq
      cases hfinal
    · obtain rfl := Option.some.inj hq
      cases hfinal
  · obtain ⟨-, e, he, hpre, hfits⟩ := complete_of_allOrNothing hdecodes h rfl rfl
    obtain ⟨hcomplete, hdecoded⟩ := marked_inverse [7]
    obtain rfl := hdecodes.exact he hcomplete hpre
    rw [hdecoded] at hfits
    exact absurd (hfits 0 rfl) (by decide)

end Spec

end Xnd.Ckptdir.Decompress
