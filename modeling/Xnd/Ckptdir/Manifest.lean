import Xnd.Ckptdir.Files
import Xnd.Lib.Bytes
import Mathlib.Data.List.TakeWhile

/-!
# The manifest of an epoch

`xnd_ckptfile_write_manifest` goes through the ids from `min_xnd_pid` to `max_xnd_pid`,
which are 32 bits wide, and puts those that have an image into an array of 256 places.
`Files.lean` has the ids of a range as a list of numbers; here are the counter, the array
and the bytes of the file.

No id is above `UINT32_MAX`, so up to there the loop does not end.
-/
namespace Xnd.Ckptdir.Manifest

/-- `xnd_ckptfile_exists`. -/
def xndCkptfileExists (dir : Dir) (xndPid : BitVec 32) : Bool :=
  decide (.ckptfile xndPid.toNat ∈ dir)

/-- `xnd_compressed_ckpt_exists`. -/
def xndCompressedCkptExists (dir : Dir) (xndPid : BitVec 32) : Bool :=
  decide (.compressed xndPid.toNat ∈ dir)

/-- `struct xnd_manifest`, where `xnd_pids` has `manifestEntryMax` places. -/
structure XndManifest where
  entryCount : BitVec 32
  xndPids : List (BitVec 32)
  deriving DecidableEq, Repr

/-- `sizeof(struct xnd_manifest)`. -/
def manifestBytes : Nat := 4 * (manifestEntryMax + 1)

namespace XndManifest

def fields (m : XndManifest) : List (Nat × Nat) :=
  (m.entryCount :: m.xndPids).map fun v => (4, v.toNat)

def encode (m : XndManifest) : List UInt8 := encodeFields m.fields

def decode (bs : List UInt8) : XndManifest :=
  let values := decodeFields (List.replicate (manifestEntryMax + 1) 4) bs
  ⟨.ofNat 32 (values.headD 0), values.tail.map (.ofNat 32)⟩

end XndManifest

/-- How the loop of `xnd_ckptfile_write_manifest` ends: with a store past the end of the
array, or with the ids in it. -/
inductive Filled where
  | overrun
  | filled (count : BitVec 32) (xndPids : List (BitVec 32))
  deriving DecidableEq, Repr

/-- The loop of `xnd_ckptfile_write_manifest`, for `n` turns at most. -/
def fillManifest (dir : Dir) (max : BitVec 32) :
    Nat → BitVec 32 → BitVec 32 → List (BitVec 32) → Option Filled
  | 0, _, _, _ => none
  | n + 1, id, count, xndPids =>
      if id ≤ max then
        if xndCkptfileExists dir id = true ∨ xndCompressedCkptExists dir id = true then
          if count.toNat < xndPids.length then
            fillManifest dir max n (id + 1) (count + 1) (xndPids.set count.toNat id)
          else some .overrun
        else fillManifest dir max n (id + 1) count xndPids
      else some (.filled count xndPids)

/-- What the calls of `xnd_ckptfile_write_manifest` come to; `writeall` is the number of
bytes that are written before a write fails. -/
structure Calls where
  opendir : Bool
  create : Bool
  writeall : Nat
  deriving DecidableEq, Repr

/-- How `xnd_ckptfile_write_manifest` ends: whether it returns 0, and the contents of the
file, if it was created. -/
inductive Written where
  | overrun
  | returned (zero : Bool) (file : Option (List UInt8))
  deriving DecidableEq, Repr

/-- `xnd_ckptfile_write_manifest` after the loop. -/
def finishManifest (o : Calls) (total : BitVec 32) : Filled → Written
  | .overrun => .overrun
  | .filled count xndPids =>
      if count ≠ total then .returned false (some [])
      else
        let manifest := XndManifest.encode ⟨count, xndPids⟩
        .returned (decide (manifestBytes ≤ o.writeall)) (some (manifest.take o.writeall))

/-- `xnd_ckptfile_write_manifest`, when its loop takes `n` turns at most; `xndPids` are the
places of the array before. -/
def xndCkptfileWriteManifest (o : Calls) (total min max : BitVec 32) (dir : Dir) (n : Nat)
    (xndPids : List (BitVec 32)) : Option Written :=
  if o.opendir = true ∧ o.create = true ∧ .manifest ∉ dir then
    (fillManifest dir max n min 0 xndPids).map (finishManifest o total)
  else some (.returned false none)

/-- What the calls of `xnd_ckptfile_extract_manifest` come to; `readall` is the number of
bytes that are read before a read fails. -/
structure ExtractCalls where
  opened : Bool
  readall : Nat
  deriving DecidableEq, Repr

/-- `xnd_ckptfile_extract_manifest`: the manifest, when it returns 0. -/
def xndCkptfileExtractManifest (o : ExtractCalls) (file : List UInt8) : Option XndManifest :=
  if o.opened = true then
    let bs := (file.take o.readall).take manifestBytes
    if bs.length = manifestBytes then some (.decode bs) else none
  else none

/-- The range in `coord_write_ckpt_manifest`, for the ids of the peers. -/
def coordRange (peers : List (BitVec 32)) : BitVec 32 × BitVec 32 :=
  peers.foldl (fun r xndPid => (if xndPid < r.1 then xndPid else r.1,
    if r.2 < xndPid then xndPid else r.2)) (BitVec.allOnes 32, 0)

/-! ## The bytes -/

namespace XndManifest
variable {m : XndManifest}

theorem fields_widths (h : m.xndPids.length = manifestEntryMax) :
    m.fields.map Prod.fst = List.replicate (manifestEntryMax + 1) 4 := by
  have hconst : m.fields.map Prod.fst = (m.entryCount :: m.xndPids).map fun _ => 4 :=
    List.map_map
  rw [hconst, List.map_const', List.length_cons, h]

theorem length_encode (h : m.xndPids.length = manifestEntryMax) :
    m.encode.length = manifestBytes := by
  rw [encode, length_encodeFields, fields_widths h, List.sum_replicate_nat, Nat.mul_comm]
  rfl

theorem decode_encode (h : m.xndPids.length = manifestEntryMax) : decode m.encode = m := by
  have hvalues : decodeFields (List.replicate (manifestEntryMax + 1) 4) m.encode =
      m.entryCount.toNat :: m.xndPids.map BitVec.toNat := by
    rw [encode, ← fields_widths h, decodeFields_encodeFields, fields, List.map_map]
    have hword : ∀ v : BitVec 32, v.toNat % 256 ^ 4 = v.toNat :=
      fun v => Nat.mod_eq_of_lt v.isLt
    exact List.map_congr_left fun v _ => hword v
  have hback : (m.xndPids.map BitVec.toNat).map (BitVec.ofNat 32) = m.xndPids := by
    simp [Function.comp_def]
  simp only [decode, hvalues, List.headD_cons, List.tail_cons, hback]
  simp

end XndManifest

/-- A whole file is extracted as it was written. -/
theorem xndCkptfileExtractManifest_encode {m : XndManifest}
    (h : m.xndPids.length = manifestEntryMax) (o : ExtractCalls) :
    xndCkptfileExtractManifest o m.encode =
      if o.opened = true ∧ manifestBytes ≤ o.readall then some m else none := by
  have hlength := XndManifest.length_encode h
  have hread : ((m.encode.take o.readall).take manifestBytes).length = manifestBytes ↔
      manifestBytes ≤ o.readall := by
    rw [List.length_take, List.length_take, hlength]
    omega
  by_cases hopened : o.opened = true
  · by_cases hall : manifestBytes ≤ o.readall
    · have htake : (m.encode.take o.readall).take manifestBytes = m.encode := by
        rw [List.take_of_length_le (hlength.trans_le hall), List.take_of_length_le hlength.le]
      rw [if_pos ⟨hopened, hall⟩, xndCkptfileExtractManifest, if_pos hopened, htake,
        if_pos hlength, XndManifest.decode_encode h]
    · rw [if_neg fun hand => hall hand.2, xndCkptfileExtractManifest, if_pos hopened,
        if_neg (mt hread.mp hall)]
  · rw [if_neg fun hand => hopened hand.1, xndCkptfileExtractManifest, if_neg hopened]

/-! ## The loop -/

/-- The `d` ids from `lo` on that have an image. -/
def imagedFrom (dir : Dir) (lo d : Nat) : List (BitVec 32) :=
  ((List.range' lo d).map (BitVec.ofNat 32)).filter fun id =>
    xndCkptfileExists dir id || xndCompressedCkptExists dir id

/-- The ids of a range that have an image. -/
def imaged (dir : Dir) (min max : BitVec 32) : List (BitVec 32) :=
  imagedFrom dir min.toNat (max.toNat + 1 - min.toNat)

/-- The stores of the loop, one for each of these ids. -/
def storeIds : List (BitVec 32) → BitVec 32 → List (BitVec 32) → Filled
  | [], count, xndPids => .filled count xndPids
  | id :: ids, count, xndPids =>
      if count.toNat < xndPids.length then
        storeIds ids (count + 1) (xndPids.set count.toNat id)
      else .overrun

section Loop
variable {dir : Dir} {max : BitVec 32}

theorem imagedFrom_succ (dir : Dir) (id : BitVec 32) (d : Nat) :
    imagedFrom dir id.toNat (d + 1) =
      if xndCkptfileExists dir id = true ∨ xndCompressedCkptExists dir id = true then
        id :: imagedFrom dir (id.toNat + 1) d
      else imagedFrom dir (id.toNat + 1) d := by
  rw [imagedFrom, List.range'_succ, List.map_cons, BitVec.ofNat_toNat, BitVec.setWidth_eq,
    List.filter_cons]
  simp only [Bool.or_eq_true]
  rfl

/-- **The loop comes to its end** after a turn for each id, as long as `max` is not the
largest id. -/
theorem fillManifest_eq (hmax : max.toNat + 1 < 2 ^ 32) (d k : Nat) (id count : BitVec 32)
    (xndPids : List (BitVec 32)) (h : d = max.toNat + 1 - id.toNat) :
    fillManifest dir max (d + 1 + k) id count xndPids =
      some (storeIds (imagedFrom dir id.toNat d) count xndPids) := by
  induction d generalizing id count xndPids with
  | zero =>
      have hend : ¬ id ≤ max := by
        rw [BitVec.le_def]
        omega
      rw [Nat.zero_add, Nat.add_comm, fillManifest, if_neg hend]
      rfl
  | succ d ih =>
      have hturn : id ≤ max := by
        rw [BitVec.le_def]
        omega
      have hnext : (id + 1).toNat = id.toNat + 1 := by
        rw [BitVec.toNat_add]
        exact Nat.mod_eq_of_lt (by simp; omega)
      have hd : d = max.toNat + 1 - (id + 1).toNat := by omega
      rw [show d + 1 + 1 + k = d + 1 + k + 1 by omega, fillManifest, if_pos hturn,
        imagedFrom_succ, ← hnext]
      split
      · rw [storeIds]
        split
        · exact ih _ _ _ hd
        · rfl
      · exact ih _ _ _ hd

/-- No id is above the largest one. -/
theorem fillManifest_allOnes (n : Nat) (id count : BitVec 32) (xndPids : List (BitVec 32))
    {count' : BitVec 32} {xndPids' : List (BitVec 32)} :
    fillManifest dir (BitVec.allOnes 32) n id count xndPids ≠ some (.filled count' xndPids') := by
  induction n generalizing id count xndPids with
  | zero => exact nofun
  | succ n ih =>
      have hturn : id ≤ BitVec.allOnes 32 := by
        rw [BitVec.le_def, BitVec.toNat_allOnes]
        omega
      rw [fillManifest, if_pos hturn]
      split
      · split
        · exact ih _ _ _
        · exact nofun
      · exact ih _ _ _

/-- Ids that there is a place for. -/
theorem storeIds_filled (ids done old : List (BitVec 32)) (h : ids.length ≤ old.length)
    (hfit : done.length + ids.length < 2 ^ 32) :
    storeIds ids (.ofNat 32 done.length) (done ++ old) =
      .filled (.ofNat 32 (done ++ ids).length) (done ++ ids ++ old.drop ids.length) := by
  induction ids generalizing done old with
  | nil => simp [storeIds]
  | cons id ids ih =>
      obtain _ | ⟨place, old⟩ := old
      · cases h
      rw [List.length_cons] at hfit
      have hcount : (BitVec.ofNat 32 done.length).toNat = done.length :=
        Nat.mod_eq_of_lt (by omega)
      have hset : (done ++ place :: old).set done.length id = (done ++ [id]) ++ old := by simp
      have hnext : BitVec.ofNat 32 done.length + 1 = .ofNat 32 (done ++ [id]).length := by
        rw [List.length_append, List.length_singleton, BitVec.ofNat_add]
        rfl
      rw [storeIds, hcount, if_pos (by simp), hset, hnext,
        ih (done ++ [id]) old (Nat.le_of_succ_le_succ h) (by simp; omega)]
      simp

/-- Ids that there is no place for. -/
theorem storeIds_overrun (ids : List (BitVec 32)) (count : BitVec 32) (xndPids : List (BitVec 32))
    (h : xndPids.length < count.toNat + ids.length) (hlen : xndPids.length < 2 ^ 32)
    (hcount : count.toNat ≤ xndPids.length) : storeIds ids count xndPids = .overrun := by
  induction ids generalizing count xndPids with
  | nil => exact absurd h (Nat.not_lt.mpr hcount)
  | cons id ids ih =>
      rw [storeIds]
      split
      next hlt =>
        have hnext : (count + 1).toNat = count.toNat + 1 := by
          rw [BitVec.toNat_add]
          exact Nat.mod_eq_of_lt (by simp; omega)
        refine ih _ _ ?_ ?_ ?_
        · rw [List.length_set, hnext]
          rw [List.length_cons] at h
          omega
        · rwa [List.length_set]
        · rw [List.length_set, hnext]
          exact hlt
      next => rfl

end Loop

/-! ## What is to hold -/

/-- The process has an image in the directory, a plain one or a compressed one. -/
def HasImage (dir : Dir) (id : BitVec 32) : Prop :=
  .ckptfile id.toNat ∈ dir ∨ .compressed id.toNat ∈ dir

/-- The ids of a range that have an image, each once and in increasing order. -/
structure Lists (dir : Dir) (min max : BitVec 32) (ids : List (BitVec 32)) : Prop where
  increasing : ids.Pairwise (· < ·)
  mem : ∀ id, id ∈ ids ↔ (min ≤ id ∧ id ≤ max) ∧ HasImage dir id

/-- **A manifest that holds what it is to hold**: `total` ids, which are read back. -/
structure Holds (dir : Dir) (total min max : BitVec 32) (file : List UInt8) : Prop where
  ids : ∃ ids m, Lists dir min max ids ∧ ids.length = total.toNat ∧ m.entryCount = total ∧
    m.xndPids.take total.toNat = ids ∧ file = m.encode ∧
    ∀ o, xndCkptfileExtractManifest o file =
      if o.opened = true ∧ manifestBytes ≤ o.readall then some m else none

/-- **Writing a manifest** comes to an end and keeps to the array, and where it returns 0 the
manifest holds what it is to hold. -/
def WellWritten (dir : Dir) (total min max : BitVec 32) : Prop :=
  ∀ (o : Calls) (xndPids : List (BitVec 32)), xndPids.length = manifestEntryMax →
    ∃ w, (∃ n, ∀ k, xndCkptfileWriteManifest o total min max dir (n + k) xndPids = some w) ∧
      w ≠ .overrun ∧
      ∀ file, w = .returned true file → ∃ bs, file = some bs ∧ Holds dir total min max bs

section Spec
variable {dir : Dir} {total min max : BitVec 32}

theorem lists_imaged (dir : Dir) (min max : BitVec 32) :
    Lists dir min max (imaged dir min max) where
  increasing := by
    refine List.Pairwise.filter _ (List.pairwise_map.mpr ?_)
    have hincreasing : (List.range' min.toNat (max.toNat + 1 - min.toNat)).Pairwise (· < ·) :=
      List.pairwise_lt_range'
    refine hincreasing.imp_of_mem fun {a b} ha hb hlt => ?_
    have hb := List.mem_range'_1.mp hb
    have hbound := max.isLt
    rw [BitVec.lt_def, BitVec.toNat_ofNat, BitVec.toNat_ofNat, Nat.mod_eq_of_lt (by omega),
      Nat.mod_eq_of_lt (by omega)]
    exact hlt
  mem id := by
    have hrange : id ∈ (List.range' min.toNat (max.toNat + 1 - min.toNat)).map (BitVec.ofNat 32) ↔
        min ≤ id ∧ id ≤ max := by
      rw [List.mem_map, BitVec.le_def, BitVec.le_def]
      have hbound := max.isLt
      constructor
      · intro ⟨a, ha, heq⟩
        have ha := List.mem_range'_1.mp ha
        rw [← heq, BitVec.toNat_ofNat, Nat.mod_eq_of_lt (by omega)]
        omega
      · intro hid
        exact ⟨id.toNat, List.mem_range'_1.mpr (by omega), by simp⟩
    rw [imaged, imagedFrom, List.mem_filter, hrange]
    simp [HasImage, xndCkptfileExists, xndCompressedCkptExists]

/-- Above an id that is not the largest one there is another. -/
theorem toNat_succ_lt (h : max ≠ .allOnes 32) : max.toNat + 1 < 2 ^ 32 := by
  refine lt_of_le_of_ne max.isLt fun heq => h (BitVec.eq_of_toNat_eq ?_)
  rw [BitVec.toNat_allOnes]
  omega

/-- What is written when the array has a place for each id. -/
theorem holds_finishManifest {o : Calls} {xndPids : List (BitVec 32)} {file : Option (List UInt8)}
    (hroom : (imaged dir min max).length ≤ manifestEntryMax)
    (hlen : xndPids.length = manifestEntryMax)
    (h : finishManifest o total (.filled (.ofNat 32 (imaged dir min max).length)
      (imaged dir min max ++ xndPids.drop (imaged dir min max).length)) = .returned true file) :
    ∃ bs, file = some bs ∧ Holds dir total min max bs := by
  obtain ⟨ids, hids⟩ : ∃ ids, imaged dir min max = ids := ⟨_, rfl⟩
  have hlists : Lists dir min max ids := hids ▸ lists_imaged dir min max
  rw [hids] at hroom h
  have hplaces : (ids ++ xndPids.drop ids.length).length = manifestEntryMax := by
    rw [List.length_append, List.length_drop, hlen]
    omega
  rw [finishManifest] at h
  split at h
  · cases h
  next htotal =>
    have htotal : total = .ofNat 32 ids.length := (Decidable.not_not.mp htotal).symm
    obtain ⟨hall, hfile⟩ := Written.returned.inj h
    have hencode := XndManifest.length_encode (m := ⟨.ofNat 32 ids.length, _⟩) hplaces
    rw [List.take_of_length_le (hencode.trans_le (of_decide_eq_true hall))] at hfile
    have hcount : total.toNat = ids.length := by
      rw [htotal, BitVec.toNat_ofNat]
      exact Nat.mod_eq_of_lt (hroom.trans_lt (by decide))
    rw [← htotal] at hfile
    exact ⟨_, hfile.symm, ids, ⟨total, ids ++ xndPids.drop ids.length⟩, hlists, hcount.symm, rfl,
      List.take_left' hcount.symm, rfl, xndCkptfileExtractManifest_encode hplaces⟩

/-- The manifest is written in a directory that has none. -/
theorem xndCkptfileWriteManifest_eq {o : Calls}
    (ho : o.opendir = true ∧ o.create = true ∧ .manifest ∉ dir) (n : Nat)
    (xndPids : List (BitVec 32)) :
    xndCkptfileWriteManifest o total min max dir n xndPids =
      (fillManifest dir max n min 0 xndPids).map (finishManifest o total) := if_pos ho

/-- The loop stays within the array and comes to its end. -/
theorem bounds_of_wellWritten (h : WellWritten dir total min max) (hnone : .manifest ∉ dir) :
    max ≠ .allOnes 32 ∧ (imaged dir min max).length ≤ manifestEntryMax := by
  let xndPids := List.replicate manifestEntryMax (0 : BitVec 32)
  have hlen : xndPids.length = manifestEntryMax := List.length_replicate
  obtain ⟨w, ⟨n, hn⟩, hinside, -⟩ := h ⟨true, true, manifestBytes⟩ xndPids hlen
  have hloop : ∀ k, ∃ f, fillManifest dir max (n + k) min 0 xndPids = some f ∧ f ≠ .overrun := by
    intro k
    have hk := hn k
    rw [xndCkptfileWriteManifest_eq ⟨rfl, rfl, hnone⟩] at hk
    obtain ⟨f, hf, hw⟩ := Option.map_eq_some_iff.mp hk
    exact ⟨f, hf, fun hover => hinside (by rw [← hw, hover]; rfl)⟩
  have hmax : max ≠ .allOnes 32 := by
    intro hlargest
    obtain ⟨f, hf, hover⟩ := hloop 0
    obtain _ | ⟨count, ids⟩ := f
    · exact hover rfl
    · exact @fillManifest_allOnes dir _ _ _ _ _ _ (hlargest ▸ hf)
  refine ⟨hmax, Nat.not_lt.mp fun hmany => ?_⟩
  obtain ⟨f, hf, hover⟩ := hloop (max.toNat + 1 - min.toNat + 1)
  rw [Nat.add_comm, fillManifest_eq (toNat_succ_lt hmax) _ _ _ _ _ rfl] at hf
  refine hover ((Option.some.inj hf).symm.trans ?_)
  refine storeIds_overrun _ _ _ ?_ (hlen ▸ by decide) (Nat.zero_le _)
  rw [hlen]
  exact hmany.trans_eq (Nat.zero_add _).symm

/-- **A manifest is written as it is to be exactly when** there is one already, or the range
does not go up to the largest id and at most 256 of its ids have an image. -/
theorem wellWritten_iff : WellWritten dir total min max ↔
    .manifest ∈ dir ∨
      max ≠ .allOnes 32 ∧ (imaged dir min max).length ≤ manifestEntryMax := by
  constructor
  · intro h
    by_cases hnone : .manifest ∈ dir
    · exact .inl hnone
    · exact .inr (bounds_of_wellWritten h hnone)
  · intro h o xndPids hlen
    by_cases ho : o.opendir = true ∧ o.create = true ∧ .manifest ∉ dir
    · obtain ⟨hmax, hroom⟩ := h.resolve_left ho.2.2
      have hfill := storeIds_filled (imaged dir min max) [] xndPids (hlen ▸ hroom)
        (by rw [List.length_nil, Nat.zero_add]; exact hroom.trans_lt (by decide))
      rw [List.nil_append] at hfill
      refine ⟨finishManifest o total (.filled (.ofNat 32 (imaged dir min max).length)
        (imaged dir min max ++ xndPids.drop (imaged dir min max).length)), ⟨max.toNat + 1 - min.toNat + 1, fun k => ?_⟩, ?_, fun file hfile => ?_⟩
      · rw [xndCkptfileWriteManifest_eq ho, fillManifest_eq (toNat_succ_lt hmax) _ _ _ _ _ rfl]
        exact congrArg (fun f => some (finishManifest o total f)) hfill
      · rw [finishManifest]
        split <;> exact nofun
      · exact holds_finishManifest hroom hlen hfile
    · exact ⟨.returned false none, ⟨0, fun k => if_neg ho⟩, nofun, nofun⟩

end Spec

/-! ### 257 peers -/

/-- A directory with the images of the first `n` ids. -/
def crowd (n : Nat) : Dir where
  entries := (List.range n).map fun id => ⟨.ckptfile id, .other⟩
  nodupKeys := by
    rw [List.NodupKeys, List.keys, List.map_map]
    exact List.Nodup.map (fun a b h => Name.ckptfile.inj h) List.nodup_range

/-- **One peer more than there are places for**, and a peer with the largest id. -/
theorem not_wellWritten_crowd :
    coordRange ((List.range 257).map (BitVec.ofNat 32)) = (0, 256) ∧
      ¬ WellWritten (crowd 257) 257 0 256 ∧
      coordRange [BitVec.allOnes 32] = (.allOnes 32, .allOnes 32) ∧
      ¬ WellWritten (∅ : Dir) 1 (.allOnes 32) (.allOnes 32) := by
  refine ⟨by decide +kernel, fun h => ?_, by decide, fun h => ?_⟩
  · have hroom := (bounds_of_wellWritten h (by decide +kernel)).2
    exact absurd hroom (by decide +kernel)
  · exact (bounds_of_wellWritten h (by decide)).1 rfl

end Xnd.Ckptdir.Manifest
