import Xnd.Lib.CString
import Mathlib.Data.Nat.Digits.Defs
import Mathlib.Data.Nat.Digits.Lemmas

/-!
# The names of checkpoints

`ckptfile.c` prints the names of the directories and files from a uuid, an epoch and an
`xnd_pid`, and `xnd_ckptfile_parse` reads them back from the path of an image.

**The buffers are large enough** for all of them (`buffersHold`), but the pointer that
`sscanf` starts from is one byte too far, since `sizeof("-checkpoints/")` counts the
terminator: no path is read back (`parse_ckptpath`), where the byte before would do
(`sscanf_behind_slash`).
-/
namespace Xnd.Ckptdir.Names

/-- The bytes of a literal. -/
def ascii (s : String) : List UInt8 := s.toList.map fun c => .ofNat c.toNat

/-! ## Numbers -/

/-- The digits that `%u` and `%llu` print. -/
def decimal (n : Nat) : List UInt8 :=
  if n = 0 then ascii "0" else (Nat.digits 10 n).reverse.map fun d => .ofNat (48 + d)

def isDigit (b : UInt8) : Bool := decide (48 ≤ b) && decide (b ≤ 57)

/-- `isspace`. -/
def isSpace (b : UInt8) : Bool := b == 32 || (decide (9 ≤ b) && decide (b ≤ 13))

/-- The number that digits stand for. -/
def digitsValue (ds : List UInt8) : Nat := Nat.ofDigits 10 (ds.reverse.map fun d => d.toNat - 48)

theorem length_decimal_le {n k : Nat} (hk : 0 < k) (h : n < 10 ^ k) : (decimal n).length ≤ k := by
  unfold decimal
  split
  · exact hk
  · rw [List.length_map, List.length_reverse]
    exact (Nat.digits_length_le_iff (by decide) n).mpr h

theorem isDigit_ofNat {d : Nat} (h : d < 10) :
    isDigit (.ofNat (48 + d)) = true ∧ (UInt8.ofNat (48 + d)).toNat - 48 = d := by
  have hall : ∀ d < 10, isDigit (.ofNat (48 + d)) = true ∧ (UInt8.ofNat (48 + d)).toNat - 48 = d := by
    decide
  exact hall d h

theorem isDigit_of_mem_decimal {n : Nat} {b : UInt8} (h : b ∈ decimal n) : isDigit b = true := by
  unfold decimal at h
  split at h
  · rw [List.mem_singleton.mp h]
    decide
  · obtain ⟨d, hd, rfl⟩ := List.mem_map.mp h
    exact (isDigit_ofNat (Nat.digits_lt_base (by decide) (List.mem_reverse.mp hd))).1

theorem decimal_ne_nil (n : Nat) : decimal n ≠ [] := by
  unfold decimal
  split
  · exact nofun
  · next h => simpa using Nat.digits_ne_nil_iff_ne_zero.mpr h

/-- What is printed stands for the number. -/
theorem digitsValue_decimal (n : Nat) : digitsValue (decimal n) = n := by
  unfold digitsValue decimal
  split
  · next h => rw [h]; decide
  · have hmap : ((Nat.digits 10 n).reverse.map fun d => UInt8.ofNat (48 + d)).reverse.map
        (fun d => d.toNat - 48) = Nat.digits 10 n := by
      rw [← List.map_reverse, List.reverse_reverse, List.map_map]
      exact (List.map_congr_left fun d hd =>
        (isDigit_ofNat (Nat.digits_lt_base (by decide) hd)).2).trans (List.map_id _)
    rw [hmap, Nat.ofDigits_digits]

/-! ## `sscanf` -/

/-- What a format consists of: a byte that is not a space, and `%u` with the width of the
number, which is 64 for `%llu`. -/
inductive Directive where
  | lit (c : UInt8)
  | unsigned (w : Nat)
  deriving DecidableEq, Repr

/-- `EOF`. -/
def eof : Int := -1

/-- The conversion of `%u`: white space, a sign and digits. -/
def scanUnsigned (w : Nat) (input : List UInt8) : Option (Nat × List UInt8) :=
  match input.dropWhile isSpace with
  | [] => none
  | b :: bs =>
      if b = 45 then scanDigits (fun v => (2 ^ w - v % 2 ^ w) % 2 ^ w) bs
      else if b = 43 then scanDigits (· % 2 ^ w) bs
      else scanDigits (· % 2 ^ w) (b :: bs)
where
  /-- `strtoumax` on the digits, and what is made of its result. -/
  scanDigits (conv : Nat → Nat) (bs : List UInt8) : Option (Nat × List UInt8) :=
    if bs.takeWhile isDigit = [] then none
    else some (conv (min (digitsValue (bs.takeWhile isDigit)) (2 ^ 64 - 1)), bs.dropWhile isDigit)

/-- What `sscanf` returns when it stops, with the conversions that it has made. -/
def stopped (atEnd : Prop) [Decidable atEnd] (done : List Nat) : Int × List Nat :=
  if atEnd ∧ done = [] then (eof, done) else (done.length, done)

/-- `sscanf`: its result and the numbers that it has stored. -/
def sscanf : List Directive → List UInt8 → List Nat → Int × List Nat
  | [], _, done => (done.length, done)
  | .lit _ :: _, [], done => stopped True done
  | .lit c :: ds, b :: bs, done => if b = c then sscanf ds bs done else stopped False done
  | .unsigned w :: ds, input, done =>
      match scanUnsigned w input with
      | some (v, rest) => sscanf ds rest (done ++ [v])
      | none => stopped (input.dropWhile isSpace = []) done

theorem sscanf_lits (cs : List UInt8) (ds : List Directive) (rest : List UInt8)
    (done : List Nat) :
    sscanf (cs.map .lit ++ ds) (cs ++ rest) done = sscanf ds rest done := by
  induction cs with
  | nil => rfl
  | cons c cs ih => exact (if_pos rfl).trans ih

theorem takeWhile_decimal (n : Nat) {rest : List UInt8} (hrest : rest.head?.any isDigit = false) :
    (decimal n ++ rest).takeWhile isDigit = decimal n ∧
      (decimal n ++ rest).dropWhile isDigit = rest := by
  have hall : ∀ b ∈ decimal n, isDigit b = true := fun _ => isDigit_of_mem_decimal
  rw [List.takeWhile_append_of_pos hall, List.dropWhile_append_of_pos hall]
  cases rest with
  | nil => simp
  | cons b rest =>
      have hb : isDigit b = false := hrest
      simp [hb]

/-- A number is read back when no digit follows it. -/
theorem scanUnsigned_decimal {w n : Nat} (hw : w ≤ 64) (hn : n < 2 ^ w) {rest : List UInt8}
    (hrest : rest.head?.any isDigit = false) :
    scanUnsigned w (decimal n ++ rest) = some (n, rest) := by
  obtain ⟨htake, hdrop⟩ := takeWhile_decimal n hrest
  obtain ⟨b, bs, hb⟩ := List.exists_cons_of_ne_nil (decimal_ne_nil n)
  have hdigit : isDigit b = true := isDigit_of_mem_decimal (hb ▸ List.mem_cons_self)
  have hspace : isSpace b = false ∧ b ≠ 45 ∧ b ≠ 43 := by
    simp only [isDigit, isSpace, Bool.and_eq_true, decide_eq_true_eq] at hdigit ⊢
    grind
  have hmax : n ≤ 2 ^ 64 - 1 := by
    have := Nat.pow_le_pow_right (show 0 < 2 by decide) hw
    omega
  have hstart : (decimal n ++ rest).dropWhile isSpace = decimal n ++ rest := by
    rw [hb, List.cons_append, List.dropWhile_cons_of_neg (by simp [hspace.1])]
  rw [scanUnsigned, hstart]
  simp only [hb, List.cons_append]
  rw [if_neg hspace.2.1, if_neg hspace.2.2, ← List.cons_append, ← hb, scanUnsigned.scanDigits,
    htake, hdrop, if_neg (decimal_ne_nil n), digitsValue_decimal, Nat.min_eq_left hmax,
    Nat.mod_eq_of_lt hn]

/-! ## Uuids -/

/-- `uuid_t`. -/
structure Uuid where
  bytes : List UInt8
  len : bytes.length = 16
  deriving DecidableEq, Repr

/-- A hexadecimal digit, as `%02X` prints it. -/
def hexDigit (n : Nat) : UInt8 := .ofNat (if n < 10 then 48 + n else 55 + n)

/-- The value of a hexadecimal digit, in either case. -/
def hexValue (b : UInt8) : Option Nat :=
  if isDigit b = true then some (b.toNat - 48)
  else if 65 ≤ b ∧ b ≤ 70 then some (b.toNat - 55)
  else if 97 ≤ b ∧ b ≤ 102 then some (b.toNat - 87)
  else none

def hex (bs : List UInt8) : List UInt8 :=
  bs.flatMap fun b => [hexDigit (b.toNat / 16), hexDigit (b.toNat % 16)]

def unhex : List UInt8 → Option (List UInt8)
  | [] => some []
  | [_] => none
  | a :: b :: rest => do
      let x ← hexValue a
      let y ← hexValue b
      let bs ← unhex rest
      some (.ofNat (16 * x + y) :: bs)

/-- `uuid_unparse`. -/
def uuidUnparse (u : Uuid) : List UInt8 :=
  hex (u.bytes.take 4) ++ ascii "-" ++ hex ((u.bytes.drop 4).take 2) ++ ascii "-" ++
    hex ((u.bytes.drop 6).take 2) ++ ascii "-" ++ hex ((u.bytes.drop 8).take 2) ++ ascii "-" ++
      hex (u.bytes.drop 10)

/-- `uuid_parse`. -/
def uuidParse (s : List UInt8) : Option Uuid := do
  if s.length = 36 ∧ [s[8]?, s[13]?, s[18]?, s[23]?] = List.replicate 4 (some 45) then
    let bs ← unhex (s.take 8 ++ (s.drop 9).take 4 ++ (s.drop 14).take 4 ++ (s.drop 19).take 4 ++
      s.drop 24)
    if h : bs.length = 16 then some ⟨bs, h⟩ else none
  else none

@[simp] theorem length_hex (bs : List UInt8) : (hex bs).length = 2 * bs.length := by
  induction bs with
  | nil => rfl
  | cons b bs ih =>
      rw [hex, List.flatMap_cons, List.length_append, ← hex, ih, List.length_cons]
      exact (Nat.mul_succ 2 _).trans (Nat.add_comm _ _) |>.symm

theorem hex_append (bs cs : List UInt8) : hex (bs ++ cs) = hex bs ++ hex cs :=
  List.flatMap_append

theorem hexValue_hexDigit {n : Nat} (h : n < 16) : hexValue (hexDigit n) = some n := by
  have hall : ∀ n < 16, hexValue (hexDigit n) = some n := by decide
  exact hall n h

theorem unhex_hex (bs : List UInt8) : unhex (hex bs) = some bs := by
  induction bs with
  | nil => rfl
  | cons b bs ih =>
      have hb := b.toNat_lt
      have hhigh : b.toNat / 16 < 16 := by omega
      have hval : 16 * (b.toNat / 16) + b.toNat % 16 = b.toNat := Nat.div_add_mod _ _
      show unhex (hexDigit (b.toNat / 16) :: hexDigit (b.toNat % 16) :: hex bs) = _
      rw [unhex, hexValue_hexDigit hhigh, hexValue_hexDigit (Nat.mod_lt _ (by decide)), ih]
      simp only [Option.bind_eq_bind, Option.bind_some, hval, UInt8.ofNat_toNat]

theorem length_uuidUnparse (u : Uuid) : (uuidUnparse u).length = 36 := by
  simp [uuidUnparse, ascii, u.len]

theorem hexDigit_ne_zero {n : Nat} (h : n < 16) : hexDigit n ≠ 0 := by
  have hall : ∀ n < 16, hexDigit n ≠ 0 := by decide
  exact hall n h

theorem nonul_hex (bs : List UInt8) : (0 : UInt8) ∉ hex bs := by
  intro h
  obtain ⟨b, -, hb⟩ := List.mem_flatMap.mp h
  have := b.toNat_lt
  rcases List.mem_cons.mp hb with h0 | h0
  · exact hexDigit_ne_zero (by omega) h0.symm
  · exact hexDigit_ne_zero (Nat.mod_lt _ (by decide)) (List.mem_singleton.mp h0).symm

theorem nonul_uuidUnparse (u : Uuid) : (0 : UInt8) ∉ uuidUnparse u := by
  have hdash : (0 : UInt8) ∉ ascii "-" := by decide
  simp only [uuidUnparse, List.mem_append, nonul_hex, hdash, or_self, not_false_iff]

/-- **A uuid is read back.** -/
theorem uuidParse_uuidUnparse (u : Uuid) : uuidParse (uuidUnparse u) = some u := by
  obtain ⟨bs, hlen⟩ := u
  match bs, hlen with
  | [a, b, c, d, e, f, g, h, i, j, k, l, m, n, o, p], hlen =>
      have hparts := unhex_hex [a, b, c, d, e, f, g, h, i, j, k, l, m, n, o, p]
      have hdash : ascii "-" = [45] := by decide
      simp only [hex, List.flatMap_cons, List.flatMap_nil, List.cons_append, List.nil_append] at hparts
      simp [uuidParse, uuidUnparse, hex, hdash, hparts]

/-! ## The names -/

/-- `sizeof` a literal: the terminator counts. -/
def sizeofLit (s : String) : Nat := (ascii s).length + 1

/-- `XND_CKPTFILE_MAXLEN`. -/
def xndCkptfileMaxlen : Nat := sizeofLit "ckpt-" + 10 + sizeofLit ".xnd" + sizeofLit ".gz" + 1

/-- `XND_CKPTDIR_BASELEN`. -/
def xndCkptdirBaselen : Nat := 36 + sizeofLit "-checkpoints" + 1

/-- `XND_CKPTDIR_SUBLEN`. -/
def xndCkptdirSublen : Nat := sizeofLit "epoch-" + 21

/-- `XND_CKPTDIR_MAXLEN`. -/
def xndCkptdirMaxlen : Nat := xndCkptdirBaselen + xndCkptdirSublen

/-- `XND_CKPTPATH_MAXLEN`. -/
def xndCkptpathMaxlen : Nat := xndCkptdirMaxlen + xndCkptfileMaxlen

/-- `XND_CKPTFILE_FMT`, printed. -/
def ckptfileText (xndPid : BitVec 32) : List UInt8 :=
  ascii "ckpt-" ++ decimal xndPid.toNat ++ ascii ".xnd"

/-- `XND_COMPRESSED_CKPT_FMT`, printed. -/
def compressedText (xndPid : BitVec 32) : List UInt8 :=
  ascii "ckpt-" ++ decimal xndPid.toNat ++ ascii ".xnd.gz"

/-- `"epoch-%llu"`, printed. -/
def epochText (epoch : BitVec 64) : List UInt8 := ascii "epoch-" ++ decimal epoch.toNat

/-- `XND_CKPTPATH_FMT`, printed. -/
def ckptpathText (u : Uuid) (epoch : BitVec 64) (xndPid : BitVec 32) : List UInt8 :=
  uuidUnparse u ++ ascii "-checkpoints/epoch-" ++ decimal epoch.toNat ++ ascii "/ckpt-" ++
    decimal xndPid.toNat ++ ascii ".xnd"

/-- A literal without a 0. -/
def litStr (s : String) (nonul : (0 : UInt8) ∉ ascii s) (short : (ascii s).length < 2 ^ 47) :
    CStr := ⟨ascii s, nonul, short⟩

/-- `XND_COMPRESSED_SUFFIX`. -/
def compressedSuffix : CStr := litStr ".gz" (by decide) (by decide)

/-- `xnd_ckptpath_name`. -/
def xndCkptpathName (buf : List UInt8) (u : Uuid) (epoch : BitVec 64) (xndPid : BitVec 32)
    (useZlib : Bool) : Option (List UInt8) := do
  let buf ← store buf 0 (List.replicate xndCkptpathMaxlen 0)
  let buf ← snprintf buf (.ofNat 64 xndCkptpathMaxlen) (ckptpathText u epoch xndPid)
  if useZlib = true then
    let n ← strnlen buf buf.length
    strncat buf compressedSuffix (.ofNat 64 xndCkptpathMaxlen - .ofNat 64 n)
  else some buf

/-- `xnd_ckptdir_name`: `basedir` and `subdir`. -/
def xndCkptdirName (basedir subdir : List UInt8) (u : Uuid) (epoch : BitVec 64) :
    Option (List UInt8 × List UInt8) := do
  let basedir ← store basedir 0 (uuidUnparse u ++ [0])
  let basedir ← strncat basedir (litStr "-checkpoints" (by decide) (by decide))
    (.ofNat 64 (sizeofLit "-checkpoints"))
  let subdir ← snprintf subdir (.ofNat 64 xndCkptdirSublen) (epochText epoch)
  some (basedir, subdir)

/-- `xnd_ckptfile_name`. -/
def xndCkptfileName (out : List UInt8) (outlen : SizeT) (xndPid : BitVec 32) :
    Option (Int × List UInt8) :=
  if outlen < .ofNat 64 xndCkptfileMaxlen then some (-1, out)
  else (snprintf out outlen (ckptfileText xndPid)).map fun o => (0, o)

/-- What `xnd_ckptfile_parse` returns, with what it has stored. -/
structure Parsed where
  result : Int
  uuid : Option Uuid
  epoch : Option (BitVec 64)
  xndPid : Option (BitVec 32)
  deriving DecidableEq, Repr

/-- The format `"epoch-%llu/ckpt-%u.xnd"`. -/
def parseFmt : List Directive :=
  (ascii "epoch-").map .lit ++ .unsigned 64 :: (ascii "/ckpt-").map .lit ++
    .unsigned 32 :: (ascii ".xnd").map .lit

/-- `xnd_ckptfile_parse`; `none` is a pointer that is past the terminator. -/
def xndCkptfileParse (path : CStr) : Option Parsed :=
  match uuidParse (path.bytes.take 36) with
  | none => some ⟨-1, none, none, none⟩
  | some u =>
      if 36 + sizeofLit "-checkpoints/" ≤ path.bytes.length then
        match sscanf parseFmt (path.bytes.drop (36 + sizeofLit "-checkpoints/")) [] with
        | (2, [ep, id]) => some ⟨0, some u, some (.ofNat 64 ep), some (.ofNat 32 id)⟩
        | _ => some ⟨-1, some u, none, none⟩
      else none

/-- The path of an image is read back as what it was built from. -/
def RoundTrips (u : Uuid) (epoch : BitVec 64) (xndPid : BitVec 32) : Prop :=
  ∀ buf : List UInt8, buf.length = xndCkptpathMaxlen →
    ∃ o, xndCkptpathName buf u epoch xndPid false = some o ∧
      ∀ path : CStr, Holds o path.bytes →
        xndCkptfileParse path = some ⟨0, some u, some epoch, some xndPid⟩

/-- The buffers hold the whole of the names that are put into them, and nothing is written
outside them. -/
structure BuffersHold (u : Uuid) (epoch : BitVec 64) (xndPid : BitVec 32) : Prop where
  ckptpath : ∀ buf : List UInt8, buf.length = xndCkptpathMaxlen → ∀ useZlib : Bool,
    ∃ o, xndCkptpathName buf u epoch xndPid useZlib = some o ∧
      Holds o (ckptpathText u epoch xndPid ++ if useZlib = true then ascii ".gz" else [])
  ckptdir : ∀ basedir subdir : List UInt8, basedir.length = xndCkptdirBaselen →
    subdir.length = xndCkptdirSublen →
    ∃ b s, xndCkptdirName basedir subdir u epoch = some (b, s) ∧
      Holds b (uuidUnparse u ++ ascii "-checkpoints") ∧ Holds s (epochText epoch)
  ckptfile : ∀ out : List UInt8, out.length = xndCkptfileMaxlen →
    ∃ o, xndCkptfileName out (.ofNat 64 xndCkptfileMaxlen) xndPid = some (0, o) ∧
      Holds o (ckptfileText xndPid)
  printed : ∀ buf : List UInt8, buf.length = xndCkptfileMaxlen →
    ∀ text ∈ [ckptfileText xndPid, compressedText xndPid, ckptfileText xndPid ++ ascii ".gz"],
      ∃ o, snprintf buf (.ofNat 64 xndCkptfileMaxlen) text = some o ∧ Holds o text

theorem length_decimal_epoch (epoch : BitVec 64) : (decimal epoch.toNat).length ≤ 20 :=
  length_decimal_le (by decide) (Nat.lt_of_lt_of_le epoch.isLt (by decide))

theorem length_decimal_xndPid (xndPid : BitVec 32) : (decimal xndPid.toNat).length ≤ 10 :=
  length_decimal_le (by decide) (Nat.lt_of_lt_of_le xndPid.isLt (by decide))

theorem nonul_decimal (n : Nat) : (0 : UInt8) ∉ decimal n := fun h =>
  absurd (isDigit_of_mem_decimal h) (by decide)

section
variable (u : Uuid) (epoch : BitVec 64) (xndPid : BitVec 32)

theorem length_ckptpathText : (ckptpathText u epoch xndPid).length ≤ 95 := by
  have he := length_decimal_epoch epoch
  have hp := length_decimal_xndPid xndPid
  simp only [ckptpathText, List.length_append, length_uuidUnparse]
  have h1 : (ascii "-checkpoints/epoch-").length = 19 := by decide
  have h2 : (ascii "/ckpt-").length = 6 := by decide
  have h3 : (ascii ".xnd").length = 4 := by decide
  omega

theorem nonul_ckptpathText : (0 : UInt8) ∉ ckptpathText u epoch xndPid := by
  have h1 : (0 : UInt8) ∉ ascii "-checkpoints/epoch-" := by decide
  have h2 : (0 : UInt8) ∉ ascii "/ckpt-" := by decide
  have h3 : (0 : UInt8) ∉ ascii ".xnd" := by decide
  simp only [ckptpathText, List.mem_append, nonul_uuidUnparse, nonul_decimal, h1, h2, h3,
    or_self, not_false_iff]

theorem length_epochText : (epochText epoch).length ≤ 26 := by
  have he := length_decimal_epoch epoch
  have h1 : (ascii "epoch-").length = 6 := by decide
  rw [epochText, List.length_append]
  omega

theorem length_ckptfileText : (ckptfileText xndPid).length ≤ 19 := by
  have hp := length_decimal_xndPid xndPid
  have h1 : (ascii "ckpt-").length = 5 := by decide
  have h2 : (ascii ".xnd").length = 4 := by decide
  simp only [ckptfileText, List.length_append]
  omega

/-- The suffix is the one of the compressed names. -/
theorem ckptfileText_append : ckptfileText xndPid ++ ascii ".gz" = compressedText xndPid := by
  rw [ckptfileText, compressedText, List.append_assoc]
  rfl

theorem length_compressedText : (compressedText xndPid).length ≤ 22 := by
  have h := length_ckptfileText xndPid
  have h1 : (ascii ".gz").length = 3 := by decide
  rw [← ckptfileText_append, List.length_append]
  omega

/-- The path, and behind it the suffix if there is to be one. -/
theorem xndCkptpathName_holds {buf : List UInt8} (hbuf : buf.length = xndCkptpathMaxlen)
    (useZlib : Bool) :
    ∃ o, xndCkptpathName buf u epoch xndPid useZlib = some o ∧
      Holds o (ckptpathText u epoch xndPid ++ if useZlib = true then ascii ".gz" else []) := by
  have hmax : xndCkptpathMaxlen = 104 := by decide
  have htext := length_ckptpathText u epoch xndPid
  have hnul := nonul_ckptpathText u epoch xndPid
  have hzero := store_zero (show (List.replicate xndCkptpathMaxlen (0 : UInt8)).length ≤
      buf.length by rw [List.length_replicate, hbuf])
  have hlen := length_store hzero
  have hsize : (ckptpathText u epoch xndPid).length <
      (BitVec.ofNat 64 xndCkptpathMaxlen).toNat := Nat.lt_of_le_of_lt htext (by decide)
  obtain ⟨o, ho, hheld, holen⟩ := snprintf_whole hsize (by rw [hlen, hbuf, hmax]; omega)
  cases useZlib with
  | false =>
      refine ⟨o, ?_, by simpa using hheld⟩
      simp only [xndCkptpathName, hzero, ho, Option.bind_eq_bind, Option.bind_some]
      rfl
  | true =>
      -- `strncat` is given what is left behind the path, of which it needs three bytes.
      have hsuffix : compressedSuffix.bytes.length = 3 := by decide
      have hn : compressedSuffix.bytes.length ≤
          (BitVec.ofNat 64 xndCkptpathMaxlen - .ofNat 64 (ckptpathText u epoch xndPid).length).toNat := by
        rw [hsuffix, hmax]
        bv_omega
      obtain ⟨o', ho', hheld', -⟩ := strncat_whole compressedSuffix hheld hnul hn
        (by rw [hsuffix, holen, hlen, hbuf, hmax]; omega)
      refine ⟨o', ?_, hheld'⟩
      simp only [xndCkptpathName, hzero, ho, Option.bind_eq_bind, Option.bind_some, if_true,
        hheld.strnlen hnul hheld.length_lt, ho']

theorem xndCkptdirName_holds {basedir subdir : List UInt8}
    (hbase : basedir.length = xndCkptdirBaselen) (hsub : subdir.length = xndCkptdirSublen) :
    ∃ b s, xndCkptdirName basedir subdir u epoch = some (b, s) ∧
      Holds b (uuidUnparse u ++ ascii "-checkpoints") ∧ Holds s (epochText epoch) := by
  have hbaselen : xndCkptdirBaselen = 50 := by decide
  have hsublen : xndCkptdirSublen = 28 := by decide
  have huuid := length_uuidUnparse u
  have htext := length_epochText epoch
  have hzero := store_zero (show (uuidUnparse u ++ [0]).length ≤ basedir.length by
    rw [List.length_append, huuid, hbase, hbaselen]
    decide)
  have hlen := length_store hzero
  have hlit : (litStr "-checkpoints" (by decide) (by decide)).bytes.length = 12 := by decide
  obtain ⟨b, hb, hheld, -⟩ := strncat_whole (n := .ofNat 64 (sizeofLit "-checkpoints"))
    (litStr "-checkpoints" (by decide) (by decide)) ⟨_, rfl⟩ (nonul_uuidUnparse u) (by decide)
    (by rw [huuid, hlit, hlen, hbase, hbaselen]; decide)
  have hsize : (epochText epoch).length < (BitVec.ofNat 64 xndCkptdirSublen).toNat :=
    Nat.lt_of_le_of_lt htext (by decide)
  obtain ⟨s, hs, hheld', -⟩ := snprintf_whole hsize (by rw [hsub, hsublen]; omega)
  refine ⟨b, s, ?_, hheld, hheld'⟩
  simp only [xndCkptdirName, hzero, hb, hs, Option.bind_eq_bind, Option.bind_some]

/-- What is shorter than a compressed name is held by a buffer of `XND_CKPTFILE_MAXLEN`. -/
theorem snprintf_ckptfile {buf text : List UInt8} (hbuf : buf.length = xndCkptfileMaxlen)
    (h : text.length ≤ 22) :
    ∃ o, snprintf buf (.ofNat 64 xndCkptfileMaxlen) text = some o ∧ Holds o text := by
  have hsize : text.length < (BitVec.ofNat 64 xndCkptfileMaxlen).toNat :=
    Nat.lt_of_le_of_lt h (by decide)
  have hlt : text.length < buf.length := by
    rw [hbuf]
    exact Nat.lt_of_le_of_lt h (by decide)
  obtain ⟨o, ho, hheld, -⟩ := snprintf_whole hsize hlt
  exact ⟨o, ho, hheld⟩

/-- **Every name fits** in the buffer that it is put into. -/
theorem buffersHold : BuffersHold u epoch xndPid where
  ckptpath _ hbuf useZlib := xndCkptpathName_holds u epoch xndPid hbuf useZlib
  ckptdir _ _ hbase hsub := xndCkptdirName_holds u epoch hbase hsub
  ckptfile out hout := by
    have hlen := length_ckptfileText xndPid
    obtain ⟨o, ho, hheld⟩ := snprintf_ckptfile hout (Nat.le_trans hlen (by decide))
    exact ⟨o, by rw [xndCkptfileName, if_neg (by decide), ho]; rfl, hheld⟩
  printed buf hbuf text htext := by
    refine snprintf_ckptfile hbuf ?_
    have hlen := length_ckptfileText xndPid
    have hgz := length_compressedText xndPid
    rw [ckptfileText_append] at htext
    simp only [List.mem_cons, List.not_mem_nil, or_false] at htext
    rcases htext with rfl | rfl | rfl
    · omega
    · exact hgz
    · exact hgz

/-! ## Reading a path back -/

/-- Where the epoch starts in a path. -/
theorem ckptpathText_eq : ckptpathText u epoch xndPid =
    (uuidUnparse u ++ ascii "-checkpoints/") ++ (ascii "epoch-" ++ (decimal epoch.toNat ++
      (ascii "/ckpt-" ++ (decimal xndPid.toNat ++ ascii ".xnd")))) := by
  have h : ascii "-checkpoints/epoch-" = ascii "-checkpoints/" ++ ascii "epoch-" := by decide
  simp only [ckptpathText, h, List.append_assoc]

theorem length_dir : (uuidUnparse u ++ ascii "-checkpoints/").length = 49 := by
  rw [List.length_append, length_uuidUnparse]
  decide

/-- **From the byte behind the '/'** `sscanf` would have read the epoch and the `xnd_pid`. -/
theorem sscanf_behind_slash :
    sscanf parseFmt ((ckptpathText u epoch xndPid).drop 49) [] =
      (2, [epoch.toNat, xndPid.toNat]) := by
  have hsep (rest : List UInt8) : (ascii "/ckpt-" ++ rest).head?.any isDigit = false := rfl
  rw [ckptpathText_eq, List.drop_append_of_le_length (Nat.le_of_eq (length_dir u).symm),
    List.drop_eq_nil_of_le (Nat.le_of_eq (length_dir u)), List.nil_append, parseFmt,
    List.append_assoc, List.cons_append, sscanf_lits, sscanf,
    scanUnsigned_decimal (Nat.le_refl _) epoch.isLt (hsep _)]
  simp only [sscanf_lits]
  rw [sscanf, scanUnsigned_decimal (by decide) xndPid.isLt (by decide)]
  have h := sscanf_lits (ascii ".xnd") [] [] ([] ++ [epoch.toNat] ++ [xndPid.toNat])
  rw [List.append_nil, List.append_nil] at h
  exact h

/-- **No path is read back**: `sscanf` starts behind the 'e' of "epoch-". -/
theorem parse_ckptpath {path : CStr} (h : path.bytes = ckptpathText u epoch xndPid) :
    xndCkptfileParse path = some ⟨-1, some u, none, none⟩ := by
  have hdir := length_dir u
  have heq := ckptpathText_eq u epoch xndPid
  have htake : path.bytes.take 36 = uuidUnparse u := by
    rw [h, heq, List.append_assoc, List.take_append_of_le_length (by rw [length_uuidUnparse]),
      ← length_uuidUnparse u, List.take_length]
  have hstart : 36 + sizeofLit "-checkpoints/" = 50 := by decide
  have hepoch : ascii "epoch-" = 101 :: ascii "poch-" := by decide
  -- `sizeof` has counted the terminator of the literal.
  have hdrop : path.bytes.drop 50 = ascii "poch-" ++ (decimal epoch.toNat ++
      (ascii "/ckpt-" ++ (decimal xndPid.toNat ++ ascii ".xnd"))) := by
    rw [h, heq, List.drop_append, hdir, List.drop_eq_nil_of_le (by omega), hepoch]
    rfl
  have hlen : 50 ≤ path.bytes.length := by
    rw [h, heq, List.length_append, hdir, hepoch]
    simp only [List.cons_append, List.length_cons]
    omega
  have hscan (rest : List UInt8) : sscanf parseFmt (ascii "poch-" ++ rest) [] = (0, []) := rfl
  rw [xndCkptfileParse, htake, uuidParse_uuidUnparse, hstart]
  simp only [if_pos hlen, hdrop, hscan]

theorem not_roundTrips : ¬ RoundTrips u epoch xndPid := by
  intro h
  have hnul := nonul_ckptpathText u epoch xndPid
  obtain ⟨o, ho, hparse⟩ := h (List.replicate xndCkptpathMaxlen 0) List.length_replicate
  obtain ⟨o', ho', hheld⟩ := xndCkptpathName_holds u epoch xndPid
    (List.length_replicate (n := xndCkptpathMaxlen) (a := 0)) false
  cases ho.symm.trans ho'
  rw [if_neg Bool.false_ne_true, List.append_nil] at hheld
  have hshort : (ckptpathText u epoch xndPid).length < 2 ^ 47 :=
    Nat.lt_of_le_of_lt (length_ckptpathText u epoch xndPid) (by decide)
  have hret := hparse ⟨_, hnul, hshort⟩ hheld
  rw [parse_ckptpath u epoch xndPid rfl] at hret
  cases hret

end

/-- **No path that `xnd_ckptpath_name` builds is read back**, whatever it is built from,
and the buffers are large enough for all of them. -/
theorem parse_never : ∀ (u : Uuid) (epoch : BitVec 64) (xndPid : BitVec 32),
    ¬ RoundTrips u epoch xndPid ∧ BuffersHold u epoch xndPid :=
  fun u epoch xndPid => ⟨not_roundTrips u epoch xndPid, buffersHold u epoch xndPid⟩

/-- The image of process 1 in epoch 0. -/
theorem not_roundTrips_one : ¬ ∀ (u : Uuid) (epoch : BitVec 64) (xndPid : BitVec 32),
    RoundTrips u epoch xndPid ∧ BuffersHold u epoch xndPid := fun h =>
  not_roundTrips ⟨List.replicate 16 0, rfl⟩ 0 1 (h _ 0 1).1

end Xnd.Ckptdir.Names
