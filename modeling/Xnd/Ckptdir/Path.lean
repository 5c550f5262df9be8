import Xnd.Lib.CString

/-!
# Paths

The functions of `path.c` that take a path apart and put two together. All of them look
for the last '/' or the last '.' of the whole path, and the lengths of `xnd_path_join` are
sums in which a '/' counts as `sizeof('/')`, which in C is the size of an `int`.

* a path is taken apart without loss unless it has a '.', but none behind its last '/'
  (`decomposes_iff`);
* a left side that is empty is read before its start, and some sizes that have room for
  the path are refused (`joins_iff`).
-/
namespace Xnd.Ckptdir.Path

/-- '/'. -/
def slash : UInt8 := 47

/-- '.'. -/
def dot : UInt8 := 46

/-- `sizeof('/')` and `sizeof('\0')`, character constants being of type `int`. -/
def sizeofChar : SizeT := 4

/-- A call returns 0 with a string in its buffer. -/
def Returns (r : Option (Int × List UInt8)) (s : List UInt8) : Prop :=
  ∃ o, r = some (0, o) ∧ Holds o s

/-! ## `xnd_path_join` -/

/-- What the three branches of `xnd_path_join` do with their sum `len`: `l` is copied with
the size `lsize`, and `r` is put behind it, in the last branch after a "/". -/
def copyJoined (out : List UInt8) (outlen len lsize : SizeT) (l r : CStr) (sep : Option CStr) :
    Option (Int × List UInt8) :=
  if outlen < len then some (-1, out)
  else do
    let o ← strlcpy out l lsize
    let o ← match sep with
      | some s => strlcat o.1 s len
      | none => some o.1
    let o ← strlcat o r len
    some (0, o)

/-- The string "/". -/
def slashStr : CStr := ⟨[slash], by decide, by decide⟩

/-- `xnd_path_join`. -/
def xndPathJoin (out : List UInt8) (outlen : SizeT) : Option CStr → Option CStr →
    Option (Int × List UInt8)
  | some l, some r => do
      let last ← l.charAt (l.strlen - 1)
      let first ← r.charAt 0
      if last = slash ∧ first = slash then
        copyJoined out outlen (l.strlen - sizeofChar + r.strlen + sizeofChar) l.strlen l r none
      else if last = slash ∨ first = slash then
        copyJoined out outlen (l.strlen + r.strlen + sizeofChar) (l.strlen + 1) l r none
      else
        copyJoined out outlen (l.strlen + sizeofChar + r.strlen + sizeofChar) (l.strlen + 1) l r
          (some slashStr)
  | _, _ => some (-1, out)

/-- Two paths with one '/' between them: a '/' at the end of the left one or at the start
of the right one is that one. -/
def joined (l r : List UInt8) : List UInt8 :=
  (if l.getLast? = some slash then l.dropLast else l) ++
    slash :: (if r.head? = some slash then r.tail else r)

/-- On how many sides the '/' is missing. -/
def missing (l r : List UInt8) : Nat :=
  (if l.getLast? = some slash then 0 else 1) + (if r.head? = some slash then 0 else 1)

/-- `xnd_path_join` does what its comment says: it stays in its objects, returns 0 if and
only if the path and its terminator fit, and then has put the path into `out`. -/
def Joins (out : Buffer) (l r : CStr) : Prop :=
  ∃ result o, xndPathJoin out.bytes out.size (some l) (some r) = some (result, o) ∧
    (result = 0 ↔ (joined l.bytes r.bytes).length + 1 ≤ out.bytes.length) ∧
    (result = 0 → Holds o (joined l.bytes r.bytes))

theorem copyJoined_fails {out : List UInt8} {outlen len lsize : SizeT} {l r : CStr}
    {sep : Option CStr} (h : outlen < len) :
    copyJoined out outlen len lsize l r sep = some (-1, out) := if_pos h

/-- `l` without its last byte if `lsize` says so, the separator if there is one, and `r`. -/
theorem copyJoined_returns {out : Buffer} {len lsize : SizeT} {l r : CStr} {sep : Option CStr}
    {n : Nat} (hn : n ≤ l.bytes.length) (hlsize : lsize.toNat = n + 1)
    (hlen : n + (sep.elim [] CStr.bytes).length + r.bytes.length < len.toNat)
    (h : ¬ out.size < len) :
    Returns (copyJoined out.bytes out.size len lsize l r sep)
      (l.bytes.take n ++ sep.elim [] CStr.bytes ++ r.bytes) := by
  have hout : len.toNat ≤ out.bytes.length := by
    rw [← out.toNat_size]
    bv_omega
  have htake : (l.bytes.take n).length = n := List.length_take_of_le hn
  have hnul : (0 : UInt8) ∉ l.bytes.take n := fun h0 => l.nonul (List.mem_of_mem_take h0)
  obtain ⟨o, ho, hheld, holen⟩ := strlcpy_take out.bytes l hlsize hn (by omega)
  rw [copyJoined, if_neg h, ho]
  cases sep with
  | none =>
      have hlen' : n + r.bytes.length < len.toNat := hlen
      obtain ⟨o', ho', hheld', -⟩ := strlcat_whole r hheld hnul
        (by rw [htake]; exact hlen') (by rw [htake, holen]; omega)
      exact ⟨o', by simp [ho'], by simpa using hheld'⟩
  | some s =>
      have hlen' : n + s.bytes.length + r.bytes.length < len.toNat := hlen
      obtain ⟨o', ho', hheld', holen'⟩ := strlcat_whole s hheld hnul
        (by rw [htake]; exact Nat.lt_of_le_of_lt (Nat.le_add_right _ _) hlen')
        (by rw [htake, holen]; omega)
      obtain ⟨o'', ho'', hheld'', -⟩ := strlcat_whole r hheld' (by simp [hnul, s.nonul])
        (by rw [List.length_append, htake]; exact hlen')
        (by rw [List.length_append, htake, holen', holen]; omega)
      exact ⟨o'', by simp [ho', ho''], hheld''⟩

theorem head?_eq_slash {bs : List UInt8} : bs.head? = some slash ↔ bs.headD 0 = slash := by
  cases bs with
  | nil => decide
  | cons b bs => simp

theorem getLast?_eq_slash {bs : List UInt8} (h : bs ≠ []) :
    bs.getLast? = some slash ↔ bs.getLast h = slash := by
  rw [List.getLast?_eq_getLast_of_ne_nil h, Option.some.injEq]

/-- Each side that has no '/' adds one byte to the path. -/
theorem length_joined {l : List UInt8} (h : l ≠ []) (r : List UInt8) :
    (joined l r).length + 1 = l.length + r.length + missing l r := by
  have hpos := List.length_pos_iff.mpr h
  have htail : r.head? = some slash → r.tail.length + 1 = r.length := by
    cases r with
    | nil => exact nofun
    | cons b r => exact fun _ => rfl
  rw [joined, missing, List.length_append, List.length_cons]
  by_cases hl : l.getLast? = some slash
  · rw [if_pos hl, if_pos hl, List.length_dropLast]
    by_cases hr : r.head? = some slash
    · have := htail hr
      rw [if_pos hr, if_pos hr]
      omega
    · rw [if_neg hr, if_neg hr]
      omega
  · rw [if_neg hl, if_neg hl]
    by_cases hr : r.head? = some slash
    · have := htail hr
      rw [if_pos hr, if_pos hr]
      omega
    · rw [if_neg hr, if_neg hr]
      omega

/-- How `xnd_path_join` ends, where the sum it compares with counts four bytes for each of
`k` sides, and `n` bytes of `l` are copied. -/
theorem copyJoined_ends {out : Buffer} {len lsize : SizeT} {l r : CStr} {sep : Option CStr}
    {path : List UInt8} {k n : Nat} (hlen : len.toNat = l.bytes.length + r.bytes.length + 4 * k)
    (hn : n ≤ l.bytes.length) (hlsize : lsize.toNat = n + 1)
    (hfit : path.length < len.toNat)
    (hpath : l.bytes.take n ++ sep.elim [] CStr.bytes ++ r.bytes = path) :
    if out.bytes.length < l.bytes.length + r.bytes.length + 4 * k then
      copyJoined out.bytes out.size len lsize l r sep = some (-1, out.bytes)
    else Returns (copyJoined out.bytes out.size len lsize l r sep) path := by
  have hlt : out.size < len ↔ out.bytes.length < l.bytes.length + r.bytes.length + 4 * k := by
    rw [← hlen, ← out.toNat_size]
    exact Iff.rfl
  split
  · next h => exact copyJoined_fails (hlt.mpr h)
  · next h =>
      have htotal : n + (sep.elim [] CStr.bytes).length + r.bytes.length < len.toNat := by
        rw [← hpath, List.length_append, List.length_append, List.length_take_of_le hn] at hfit
        exact hfit
      exact hpath ▸ copyJoined_returns hn hlsize htotal (mt hlt.mp h)

/-- **`xnd_path_join` counts four bytes** for each side that has no '/', where the path
takes one. -/
theorem xndPathJoin_ends (out : Buffer) {l : CStr} (r : CStr) (h : l.bytes ≠ []) :
    if out.bytes.length < l.bytes.length + r.bytes.length + 4 * missing l.bytes r.bytes then
      xndPathJoin out.bytes out.size (some l) (some r) = some (-1, out.bytes)
    else
      Returns (xndPathJoin out.bytes out.size (some l) (some r)) (joined l.bytes r.bytes) := by
  have hll := l.toNat_strlen
  have hrl := r.toNat_strlen
  have hlin := l.inSpace
  have hrin := r.inSpace
  have hpos := List.length_pos_iff.mpr h
  have hfit := length_joined h r.bytes
  have hdrop : l.bytes.take (l.bytes.length - 1) = l.bytes.dropLast := List.dropLast_eq_take.symm
  have hwhole : l.bytes.getLast h = slash → l.bytes.dropLast ++ [slash] = l.bytes := fun hl =>
    hl ▸ List.dropLast_append_getLast h
  have htail : r.bytes.headD 0 = slash → slash :: r.bytes.tail = r.bytes := by
    intro hr
    cases hb : r.bytes with
    | nil => rw [hb] at hr; cases hr
    | cons b bs => rw [hb] at hr; exact congrArg (· :: bs) hr.symm
  simp only [xndPathJoin, CStr.charAt_last h, CStr.charAt_zero, Option.bind_eq_bind,
    Option.bind_some]
  simp only [missing, joined, getLast?_eq_slash h, head?_eq_slash] at hfit ⊢
  have hsize : (l.strlen + 1).toNat = l.bytes.length + 1 := by bv_omega
  -- One case for each of the four sums; in the first, `strlcpy` leaves the '/' of `l` out.
  by_cases hl : l.bytes.getLast h = slash
  · by_cases hr : r.bytes.headD 0 = slash
    · simp only [hl, hr, and_self, if_true] at hfit ⊢
      have hlen : (l.strlen - sizeofChar + r.strlen + sizeofChar).toNat =
          l.bytes.length + r.bytes.length := by
        unfold sizeofChar
        bv_omega
      refine copyJoined_ends hlen (Nat.sub_le _ 1) (by omega) (by omega) ?_
      rw [hdrop, htail hr, Option.elim_none, List.append_nil]
    · simp only [hl, hr, and_false, or_false, if_true, if_false] at hfit ⊢
      have hlen : (l.strlen + r.strlen + sizeofChar).toNat =
          l.bytes.length + r.bytes.length + 4 := by
        unfold sizeofChar
        bv_omega
      refine copyJoined_ends hlen (Nat.le_refl _) hsize (by omega) ?_
      rw [List.take_length, Option.elim_none, List.append_nil, List.append_cons, hwhole hl]
  · by_cases hr : r.bytes.headD 0 = slash
    · simp only [hl, hr, false_and, or_true, if_true, if_false] at hfit ⊢
      have hlen : (l.strlen + r.strlen + sizeofChar).toNat =
          l.bytes.length + r.bytes.length + 4 := by
        unfold sizeofChar
        bv_omega
      refine copyJoined_ends hlen (Nat.le_refl _) hsize (by omega) ?_
      rw [List.take_length, Option.elim_none, List.append_nil, htail hr]
    · simp only [hl, hr, and_false, or_false, if_false] at hfit ⊢
      have hlen : (l.strlen + sizeofChar + r.strlen + sizeofChar).toNat =
          l.bytes.length + r.bytes.length + 8 := by
        unfold sizeofChar
        bv_omega
      refine copyJoined_ends hlen (Nat.le_refl _) hsize (by omega) ?_
      rw [List.take_length, List.append_assoc]
      rfl

/-- **`xnd_path_join` does what it says if and only if** there is something before the
'/' and the size is none of those that have room for the path but not for three bytes more
on each side that has no '/'. -/
theorem joins_iff (out : Buffer) (l r : CStr) :
    Joins out l r ↔ l.bytes ≠ [] ∧
      ((joined l.bytes r.bytes).length + 1 ≤ out.bytes.length →
        (joined l.bytes r.bytes).length + 1 + 3 * missing l.bytes r.bytes ≤
          out.bytes.length) := by
  constructor
  · rintro ⟨result, o, hrun, hzero, -⟩
    have hl : l.bytes ≠ [] := by
      intro h
      rw [xndPathJoin, CStr.charAt_before h] at hrun
      cases hrun
    have hfit := length_joined hl r.bytes
    refine ⟨hl, fun hroom => ?_⟩
    have hends := xndPathJoin_ends out r hl
    split at hends
    · rw [hends] at hrun
      cases hrun
      exact absurd (hzero.mpr hroom) (by decide)
    · omega
  · rintro ⟨hl, hroom⟩
    have hfit := length_joined hl r.bytes
    have hends := xndPathJoin_ends out r hl
    split at hends
    · exact ⟨-1, out.bytes, hends, by omega, by omega⟩
    · obtain ⟨o, hrun, hheld⟩ := hends
      exact ⟨0, o, hrun, by omega, fun _ => hheld⟩

/-- The path "a/" + "b" has three bytes, and `xnd_path_join` refuses to put it into
four. -/
theorem not_joins_in_four : ¬ ∀ (out : Buffer) (l r : CStr), Joins out l r := by
  intro h
  obtain ⟨result, o, hrun, hzero, -⟩ := h ⟨[0, 0, 0, 0], by decide⟩
    ⟨[97, 47], by decide, by decide⟩ ⟨[98], by decide, by decide⟩
  have hrefused : xndPathJoin [0, 0, 0, 0] 4 (some ⟨[97, 47], by decide, by decide⟩)
      (some ⟨[98], by decide, by decide⟩) = some (-1, [0, 0, 0, 0]) := by decide
  cases hrefused.symm.trans hrun
  exact absurd (hzero.mpr (by decide)) (by decide)

/-! ## The parts of a path -/

/-- Where the basename of a path starts. -/
def basenameStart (path : CStr) : Nat :=
  match strrchr path slash with
  | some delim => delim + 1
  | none => 0

/-- `xnd_path_basename_inplace`. -/
def xndPathBasenameInplace (path : CStr) : CStr := path.drop (basenameStart path)

/-- `xnd_path_dirname`. -/
def xndPathDirname (dst : Option (List UInt8)) (dstlen : SizeT) (path : CStr) :
    Option (Int × List UInt8) :=
  match dst with
  | none => some (-1, [])
  | some dst =>
      if dstlen = 0 then some (-1, dst)
      else
        match strrchr path slash with
        | none => (store dst 0 [0]).map fun o => (0, o)
        | some delim =>
            if dstlen ≤ .ofNat 64 delim then some (-1, dst)
            else (strlcpy dst path (.ofNat 64 delim + 1)).map fun o => (0, o.1)

/-- `xnd_path_basename`. -/
def xndPathBasename (dst : List UInt8) (dstlen : SizeT) (path : CStr) :
    Option (Int × List UInt8) :=
  if dstlen ≤ (xndPathBasenameInplace path).strlen then some (-1, dst)
  else (strlcpy dst (xndPathBasenameInplace path) ((xndPathBasenameInplace path).strlen + 1)).map
    fun o => (0, o.1)

/-- The `len` of `xnd_path_stem`: the difference of two pointers as a `size_t`. -/
def stemLen (path : CStr) : SizeT :=
  match strrchr path dot with
  | some d => .ofNat 64 d - .ofNat 64 (basenameStart path)
  | none => (path.drop (basenameStart path)).strlen

/-- `xnd_path_stem`. -/
def xndPathStem (out : List UInt8) (outlen : SizeT) (path : CStr) : Option (Int × List UInt8) :=
  if outlen ≤ stemLen path then some (-1, out)
  else (strlcpy out (path.drop (basenameStart path)) (stemLen path + 1)).map fun o => (0, o.1)

/-- `xnd_path_ext`. -/
def xndPathExt (out : Option (List UInt8)) (outlen : SizeT) (path : CStr) :
    Option (Int × List UInt8) :=
  match out with
  | none => some (-1, [])
  | some out =>
      if outlen = 0 then some (-1, out)
      else
        match strrchr path dot with
        | none => (store out 0 [0]).map fun o => (0, o)
        | some d => (strlcpy out (path.drop (d + 1)) outlen).map fun o =>
            if outlen ≤ o.2 then (-1, o.1) else (0, o.1)

/-- `path` is `dir`, a '/' and `base`, or just `base`; and `base` is `stem`, its last '.'
and `ext`, or just `stem`. -/
structure IsDecomposed (path dir base stem ext : List UInt8) : Prop where
  slashed : slash ∈ path → dir ++ slash :: base = path ∧ slash ∉ base
  bare : slash ∉ path → dir = [] ∧ base = path
  dotted : dot ∈ base → stem ++ dot :: ext = base ∧ dot ∉ ext
  plain : dot ∉ base → stem = base ∧ ext = []

/-- The four functions give the parts of a path. -/
def Decomposes (path : CStr) (dir base stem ext : Buffer) : Prop :=
  ∃ d b s e, Returns (xndPathDirname (some dir.bytes) dir.size path) d ∧
    Returns (xndPathBasename base.bytes base.size path) b ∧
    Returns (xndPathStem stem.bytes stem.size path) s ∧
    Returns (xndPathExt (some ext.bytes) ext.size path) e ∧
    IsDecomposed path.bytes d b s e

/-- If a '.' stands before the last '/', then one stands behind it. -/
def DotBehindSlash (path : List UInt8) : Prop :=
  ∀ dir base, path = dir ++ slash :: base → slash ∉ base → dot ∈ dir → dot ∈ base

theorem basenameStart_le (path : CStr) : basenameStart path ≤ path.bytes.length := by
  unfold basenameStart strrchr
  cases h : lastIndex slash path.bytes with
  | some i => exact (lastIndex_eq_some h).2.2
  | none => exact Nat.zero_le _

/-- Where a path has its last '.', as seen from its basename. -/
theorem drop_basenameStart {path : CStr} {d : Nat} (hd : strrchr path dot = some d)
    (h : basenameStart path ≤ d) :
    (path.bytes.drop (basenameStart path)).take (d - basenameStart path) ++
      dot :: path.bytes.drop (d + 1) = path.bytes.drop (basenameStart path) := by
  obtain ⟨hsplit, -, hlt⟩ := lastIndex_eq_some hd
  have htake : (path.bytes.take d).length = d := List.length_take_of_le (Nat.le_of_lt hlt)
  conv_rhs => rw [hsplit]
  rw [List.drop_append_of_le_length (by omega), List.drop_take]

/-- The last '.' is in the basename if and only if the path says so. -/
theorem dotBehindSlash_iff (path : CStr) :
    DotBehindSlash path.bytes ↔ ∀ d, strrchr path dot = some d → basenameStart path ≤ d := by
  constructor
  · intro h d hd
    by_contra hlt
    obtain ⟨-, hnot, hdlen⟩ := lastIndex_eq_some hd
    cases hs : strrchr path slash with
    | none => simp [basenameStart, hs] at hlt
    | some i =>
        obtain ⟨hsplit, hnot', -⟩ := lastIndex_eq_some hs
        simp only [basenameStart, hs] at hlt
        -- The last '.' is in front of the last '/', so there is none behind that.
        have hi : path.bytes.take i = path.bytes.take d ++ (path.bytes.drop d).take (i - d) := by
          rw [← List.take_add, Nat.add_sub_cancel' (by omega)]
        have hdrop : path.bytes.drop d = dot :: path.bytes.drop (d + 1) := by
          have hget := getElem?_of_lastIndex hd
          rw [List.getElem?_eq_getElem hdlen, Option.some.injEq] at hget
          rw [List.drop_eq_getElem_cons hdlen, hget]
        have hne : d ≠ i := by
          rintro rfl
          cases (getElem?_of_lastIndex hd).symm.trans (getElem?_of_lastIndex hs)
        have hmem : dot ∈ path.bytes.take i := by
          rw [hi, hdrop, show i - d = (i - d - 1) + 1 by omega]
          simp
        have hback := h _ _ hsplit hnot' hmem
        refine hnot ((List.drop_sublist_drop_left _ ?_).subset hback)
        omega
  · rintro h dir base heq hbase hdir
    have hs : strrchr path slash = some dir.length := by
      rw [strrchr, heq, lastIndex_append_cons dir hbase]
    have hstart : basenameStart path = dir.length + 1 := by rw [basenameStart, hs]
    cases hd : strrchr path dot with
    | none => exact absurd (heq ▸ List.mem_append_left _ hdir) (lastIndex_eq_none.mp hd)
    | some d =>
        have hbase' : path.bytes.drop (basenameStart path) = base := by
          rw [hstart, heq]
          simp
        rw [← hbase', ← drop_basenameStart hd (h d hd)]
        simp

/-- A prefix of a string is returned in a buffer that is longer than the string. -/
theorem strlcpy_returns {dst : Buffer} (src : CStr) {size : SizeT} {n : Nat}
    (hsize : size.toNat = n + 1) (hn : n ≤ src.bytes.length)
    (hdst : n < dst.bytes.length) :
    Returns ((strlcpy dst.bytes src size).map fun o => (0, o.1)) (src.bytes.take n) := by
  obtain ⟨o, ho, hheld, -⟩ := strlcpy_take dst.bytes src hsize hn hdst
  exact ⟨o, by rw [ho]; rfl, hheld⟩

/-- The empty string is returned in a buffer that is not empty. -/
theorem store_returns {dst : Buffer} (h : 0 < dst.bytes.length) :
    Returns ((store dst.bytes 0 [0]).map fun o => (0, o)) [] :=
  ⟨_, by rw [store_zero (show [0].length ≤ dst.bytes.length from h)]; rfl, ⟨_, rfl⟩⟩

section
variable {path : CStr} {buf : Buffer}

theorem Buffer.size_ne_zero (h : path.bytes.length < buf.bytes.length) : buf.size ≠ 0 := by
  intro h0
  have := buf.toNat_size
  rw [h0] at this
  simp at this
  omega

theorem xndPathDirname_returns (h : path.bytes.length < buf.bytes.length) :
    Returns (xndPathDirname (some buf.bytes) buf.size path)
      (path.bytes.take (basenameStart path - 1)) := by
  have hsize := buf.toNat_size
  have hin := path.inSpace
  simp only [xndPathDirname, if_neg (Buffer.size_ne_zero h), basenameStart]
  cases hs : strrchr path slash with
  | none => exact store_returns (Nat.zero_lt_of_lt h)
  | some i =>
      have hlt := (lastIndex_eq_some hs).2.2
      have hi : ¬ buf.size ≤ .ofNat 64 i := by bv_omega
      simp only [if_neg hi, Nat.add_sub_cancel]
      exact strlcpy_returns path (by bv_omega) (Nat.le_of_lt hlt) (Nat.lt_trans hlt h)

theorem xndPathBasename_returns (h : path.bytes.length < buf.bytes.length) :
    Returns (xndPathBasename buf.bytes buf.size path)
      (path.bytes.drop (basenameStart path)) := by
  have hsize := buf.toNat_size
  have hstart := basenameStart_le path
  have hlen := (xndPathBasenameInplace path).toNat_strlen
  have hin := (xndPathBasenameInplace path).inSpace
  have hle : (xndPathBasenameInplace path).bytes.length ≤ path.bytes.length := by
    rw [xndPathBasenameInplace, CStr.bytes_drop, List.length_drop]
    exact Nat.sub_le _ _
  have hi : ¬ buf.size ≤ (xndPathBasenameInplace path).strlen := by bv_omega
  have hcopied : ((xndPathBasenameInplace path).strlen + 1).toNat =
      (xndPathBasenameInplace path).bytes.length + 1 := by bv_omega
  have hlt : (xndPathBasenameInplace path).bytes.length < buf.bytes.length := by omega
  have hret := strlcpy_returns _ hcopied (Nat.le_refl _) hlt
  rw [List.take_length] at hret
  rw [xndPathBasename, if_neg hi]
  exact hret

/-- The stem of a path whose last '.', if it has one, is in its basename. -/
theorem xndPathStem_returns {n : Nat} (hn : (stemLen path).toNat = n)
    (hle : n ≤ (path.bytes.drop (basenameStart path)).length)
    (h : path.bytes.length < buf.bytes.length) :
    Returns (xndPathStem buf.bytes buf.size path)
      ((path.bytes.drop (basenameStart path)).take n) := by
  have hsize := buf.toNat_size
  have hin := path.inSpace
  rw [List.length_drop] at hle
  have hi : ¬ buf.size ≤ stemLen path := by bv_omega
  rw [xndPathStem, if_neg hi]
  have hle' : n ≤ (path.drop (basenameStart path)).bytes.length := by
    rw [CStr.bytes_drop, List.length_drop]
    exact hle
  exact strlcpy_returns _ (by bv_omega) hle' (by omega)

/-- The last '.' of a path before its basename makes the length a number that no buffer
holds. -/
theorem xndPathStem_fails {d : Nat} (hd : strrchr path dot = some d) (hlt : d < basenameStart path) :
    xndPathStem buf.bytes buf.size path = some (-1, buf.bytes) := by
  have hsize := buf.toNat_size
  have hstart := basenameStart_le path
  have hin := path.inSpace
  have hbuf := buf.inSpace
  have hlen : stemLen path = .ofNat 64 d - .ofNat 64 (basenameStart path) := by
    rw [stemLen, hd]
  -- The difference is below 0, and a `size_t`.
  have hi : buf.size ≤ stemLen path := by
    rw [hlen]
    bv_omega
  rw [xndPathStem, if_pos hi]

theorem xndPathExt_returns (h : path.bytes.length < buf.bytes.length) :
    Returns (xndPathExt (some buf.bytes) buf.size path)
      (match strrchr path dot with | some d => path.bytes.drop (d + 1) | none => []) := by
  have hsize := buf.toNat_size
  simp only [xndPathExt, if_neg (Buffer.size_ne_zero h)]
  cases hd : strrchr path dot with
  | none => exact store_returns (Nat.zero_lt_of_lt h)
  | some d =>
      have hdrop : (path.drop (d + 1)).bytes.length ≤ path.bytes.length := by
        rw [CStr.bytes_drop, List.length_drop]
        exact Nat.sub_le _ _
      have hlen := (path.drop (d + 1)).toNat_strlen
      have hlt : (path.drop (d + 1)).bytes.length < buf.size.toNat := by omega
      obtain ⟨o, ho, hheld, -⟩ := strlcpy_whole buf.bytes _ hlt (by omega)
      have hi : ¬ buf.size ≤ (path.drop (d + 1)).strlen := by bv_omega
      exact ⟨o, by simp only [ho, Option.map_some, if_neg hi], hheld⟩

end

/-- A path is its directory, a '/' and its basename. -/
theorem slash_split (path : CStr) :
    (slash ∈ path.bytes → path.bytes.take (basenameStart path - 1) ++
        slash :: path.bytes.drop (basenameStart path) = path.bytes ∧
      slash ∉ path.bytes.drop (basenameStart path)) ∧
    (slash ∉ path.bytes → basenameStart path = 0) := by
  cases hs : strrchr path slash with
  | none =>
      have hstart : basenameStart path = 0 := by rw [basenameStart, hs]
      exact ⟨fun h => absurd h (lastIndex_eq_none.mp hs), fun _ => hstart⟩
  | some i =>
      obtain ⟨hsplit, hnot, hlt⟩ := lastIndex_eq_some hs
      have hstart : basenameStart path = i + 1 := by rw [basenameStart, hs]
      rw [hstart, Nat.add_sub_cancel]
      refine ⟨fun _ => ⟨hsplit.symm, hnot⟩, fun h => absurd ?_ h⟩
      rw [hsplit]
      simp

/-- **A path is taken apart without loss if and only if** a '.' before its last '/' means
that there is one behind it. -/
theorem decomposes_iff (path : CStr) (dir base stem ext : Buffer)
    (hdir : path.bytes.length < dir.bytes.length)
    (hbase : path.bytes.length < base.bytes.length)
    (hstem : path.bytes.length < stem.bytes.length)
    (hext : path.bytes.length < ext.bytes.length) :
    Decomposes path dir base stem ext ↔ DotBehindSlash path.bytes := by
  have hstart := basenameStart_le path
  rw [dotBehindSlash_iff]
  constructor
  · rintro ⟨-, -, s, -, -, -, ⟨o, hrun, -⟩, -⟩ d hd
    by_contra hlt
    rw [xndPathStem_fails hd (Nat.lt_of_not_le hlt)] at hrun
    cases hrun
  · intro h
    obtain ⟨hslashed, hbare⟩ := slash_split path
    cases hd : strrchr path dot with
    | none =>
        -- no '.' at all: the stem is the whole basename
        have hlen : (stemLen path).toNat = (path.bytes.drop (basenameStart path)).length := by
          rw [stemLen, hd]
          exact CStr.toNat_strlen _
        have hext' : Returns (xndPathExt (some ext.bytes) ext.size path) _ := xndPathExt_returns hext
        rw [hd] at hext'
        have hdot : dot ∉ path.bytes.drop (basenameStart path) := fun h =>
          lastIndex_eq_none.mp hd (List.mem_of_mem_drop h)
        refine ⟨_, _, _, _, xndPathDirname_returns hdir, xndPathBasename_returns hbase,
          xndPathStem_returns hlen (Nat.le_refl _) hstem, hext', hslashed, fun hno => ?_,
          fun h => absurd h hdot, fun _ => ⟨List.take_length, rfl⟩⟩
        simp [hbare hno]
    | some d =>
        have hle := h d hd
        obtain ⟨-, hnot, hlt⟩ := lastIndex_eq_some hd
        have hin := path.inSpace
        have hlen : (stemLen path).toNat = d - basenameStart path := by
          rw [stemLen, hd]
          bv_omega
        have hext' : Returns (xndPathExt (some ext.bytes) ext.size path) _ := xndPathExt_returns hext
        rw [hd] at hext'
        have hsplit := drop_basenameStart hd hle
        have hdot : dot ∈ path.bytes.drop (basenameStart path) := by
          rw [← hsplit]
          simp
        refine ⟨_, _, _, _, xndPathDirname_returns hdir, xndPathBasename_returns hbase,
          xndPathStem_returns hlen (by rw [List.length_drop]; omega) hstem, hext', hslashed,
          fun hno => ?_, fun _ => ⟨hsplit, hnot⟩, fun h => absurd hdot h⟩
        simp [hbare hno]

/-- The parts of "a/b.c", with five bytes and the terminator for each. -/
theorem decomposes_ab_c :
    Decomposes ⟨[97, 47, 98, 46, 99], by decide, by decide⟩ ⟨[0, 0, 0, 0, 0, 0], by decide⟩
      ⟨[0, 0, 0, 0, 0, 0], by decide⟩ ⟨[0, 0, 0, 0, 0, 0], by decide⟩
      ⟨[0, 0, 0, 0, 0, 0], by decide⟩ := by
  refine (decomposes_iff _ _ _ _ _ (by decide) (by decide) (by decide) (by decide)).mpr ?_
  refine (dotBehindSlash_iff _).mpr fun d hd => ?_
  have h : strrchr ⟨[97, 47, 98, 46, 99], by decide, by decide⟩ dot = some 3 := by decide
  rw [h] at hd
  cases hd
  decide

/-- "a.b/c" has a '.' in its directory and none in its basename: no buffer is large enough
for its stem. -/
theorem not_decomposes_ab_c : ¬ ∀ (path : CStr) (dir base stem ext : Buffer),
    path.bytes.length < dir.bytes.length → path.bytes.length < base.bytes.length →
    path.bytes.length < stem.bytes.length → path.bytes.length < ext.bytes.length →
    Decomposes path dir base stem ext := by
  intro h
  obtain ⟨-, -, s, -, -, -, ⟨o, hrun, -⟩, -⟩ := h ⟨[97, 46, 98, 47, 99], by decide, by decide⟩
    ⟨[0, 0, 0, 0, 0, 0], by decide⟩ ⟨[0, 0, 0, 0, 0, 0], by decide⟩
    ⟨[0, 0, 0, 0, 0, 0], by decide⟩ ⟨[0, 0, 0, 0, 0, 0], by decide⟩
    (by decide) (by decide) (by decide) (by decide)
  have hrefused : xndPathStem [0, 0, 0, 0, 0, 0] 6 ⟨[97, 46, 98, 47, 99], by decide, by decide⟩ =
      some (-1, [0, 0, 0, 0, 0, 0]) := by decide
  cases hrefused.symm.trans hrun

end Xnd.Ckptdir.Path
