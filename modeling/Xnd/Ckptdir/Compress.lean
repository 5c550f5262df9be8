import Xnd.Lib.Coder

/-!
# Compressing an image

`do_compress` and `do_decompress` of `compress.c`: the bytes of one file go through a coder
into another, in buffers of `CHUNK` bytes.  The coder is `zlib`'s, which is a parameter.

The calls of `read` take the file apart in any way, into parts that are not empty; behind
the last one `read` returns 0, or fails.  `writeall` returns less than it was to write from
some number of bytes on, if at all.
-/
namespace Xnd.Ckptdir

/-- `CHUNK`. -/
def chunk : Nat := 16384

/-- The file that is read, as the calls of `read` take it apart, and whether the last call
fails; a call that does not takes between 1 and `CHUNK` bytes. -/
structure Source where
  parts : List (List UInt8)
  fails : Bool
  split : ∀ p ∈ parts, p ≠ [] ∧ p.length ≤ chunk

/-- The calls of `read` take apart a file of these bytes, and none fails. -/
structure Source.Reads (src : Source) (bs : List UInt8) : Prop where
  bytes : src.parts.flatten = bs
  complete : src.fails = false

/-- How `do_compress` and `do_decompress` end: at an assertion, or with a return value; `err` is
what the last call of the coder has said, and `file` what was written. -/
inductive Coded where
  | aborted (file : List UInt8)
  | returned (zero : Bool) (err : Option CoderRet) (file : List UInt8)
  deriving DecidableEq, Repr

/-- `writeall` to a file, where a write fails after `limit` bytes of it: how many bytes are
written, and the file. -/
def writeall (limit : Option Nat) (file bs : List UInt8) : Nat × List UInt8 :=
  match limit with
  | none => (bs.length, file ++ bs)
  | some k => ((bs.take (k - file.length)).length, file ++ bs.take (k - file.length))

/-- How the inner loops end: early, or with what the last call has said, the state, the input
that is left, and the file. -/
inductive Inner (σ : Type) where
  | early (c : Coded)
  | next (err : CoderRet) (s : σ) (input file : List UInt8)

section Code
variable (c : Coder) (limit : Option Nat)

/-- The inner loop of `do_compress`, for `n` turns at most. -/
def deflateLoop (finish : Bool) : Nat → c.State → List UInt8 → List UInt8 → Option (Inner c.State)
  | 0, _, _, _ => none
  | n + 1, s, input, file =>
      let a := c.call s finish input chunk
      if a.ret = .streamError then some (.early (.aborted file))
      else
        let w := writeall limit file a.out
        if w.1 ≠ a.out.length then some (.early (.returned false a.ret w.2))
        else if a.out.length = chunk then deflateLoop finish n a.next (input.drop a.used) w.2
        else some (.next a.ret a.next (input.drop a.used) w.2)

/-- The outer loop of `do_compress`, with inner loops of `n` turns at most. -/
def compressLoop (fails : Bool) (n : Nat) :
    List (List UInt8) → c.State → Option CoderRet → List UInt8 → Option Coded
  | [], s, err, file =>
      if fails = true then some (.returned false err file)
      else
        match deflateLoop c limit true n s [] file with
        | none => none
        | some (.early r) => some r
        | some (.next err _ input file) =>
            if input = [] ∧ err = .streamEnd then some (.returned true err file)
            else some (.aborted file)
  | p :: ps, s, _, file =>
      match deflateLoop c limit false n s p file with
      | none => none
      | some (.early r) => some r
      | some (.next err s input file) =>
          if input = [] then compressLoop fails n ps s err file else some (.aborted file)

/-- `do_compress`, when `deflateInit` succeeds if `init`. -/
def doCompress (init : Bool) (n : Nat) (src : Source) : Option Coded :=
  if init = true then compressLoop c limit src.fails n src.parts c.init none []
  else some (.returned false none [])

/-- The inner loop of `do_decompress`, for `n` turns at most. -/
def inflateLoop : Nat → c.State → List UInt8 → List UInt8 → Option (Inner c.State)
  | 0, _, _, _ => none
  | n + 1, s, input, file =>
      let a := c.call s false input chunk
      match a.ret with
      | .streamError | .needDict => some (.early (.aborted file))
      | .dataError | .memError => some (.early (.returned false a.ret file))
      | .ok | .streamEnd | .bufError =>
          let w := writeall limit file a.out
          if w.1 ≠ a.out.length then some (.early (.returned false a.ret w.2))
          else if a.out.length = chunk then inflateLoop n a.next (input.drop a.used) w.2
          else some (.next a.ret a.next (input.drop a.used) w.2)

/-- The outer loop of `do_decompress`; input that is left is given up. -/
def decompressLoop (fails : Bool) (n : Nat) :
    List (List UInt8) → c.State → Option CoderRet → List UInt8 → Option Coded
  | [], _, err, file => some (.returned (!fails) err file)
  | p :: ps, s, _, file =>
      match inflateLoop c limit n s p file with
      | none => none
      | some (.early r) => some r
      | some (.next err s _ file) =>
          if err = .streamEnd then some (.returned true err file)
          else decompressLoop fails n ps s err file

/-- `do_decompress`, when `inflateInit` succeeds if `init`. -/
def doDecompress (init : Bool) (n : Nat) (src : Source) : Option Coded :=
  if init = true then decompressLoop c limit src.fails n src.parts c.init none []
  else some (.returned false none [])

end Code

/-! ## Compressing -/

section Compress
variable {c : Coder} {encode : List UInt8 → List UInt8}

theorem ne_streamError {r : CoderRet} (h : r.isError = false) : r ≠ .streamError := by
  rintro rfl
  cases h

/-- One turn, where all writes are complete. -/
theorem deflateLoop_succ {finish : Bool} {s : c.State} {input : List UInt8}
    (h : (c.call s finish input chunk).ret.isError = false) (n : Nat) (y : List UInt8) :
    deflateLoop c none finish (n + 1) s input y =
      let a := c.call s finish input chunk
      if a.out.length = chunk then
        deflateLoop c none finish n a.next (input.drop a.used) (y ++ a.out)
      else some (.next a.ret a.next (input.drop a.used) (y ++ a.out)) := by
  rw [deflateLoop]
  simp only [if_neg (ne_streamError h), writeall, ne_eq, not_true_eq_false, if_false]

/-- **The inner loop of `do_compress`** takes all of its input, and at the end of the file it
comes to the end of the stream. -/
theorem deflateLoop_ends (hc : c.Encodes encode) {asked finish : Bool} {s : c.State}
    {x y input : List UInt8} (hfed : c.Fed asked s x y) (hasks : asked = true → finish = true)
    (hno : finish = true → input = []) : ∃ err s' y',
      (∃ n, ∀ m ≥ n, deflateLoop c none finish m s input y = some (.next err s' [] y')) ∧
        c.Fed finish s' (x ++ input) y' ∧
        (finish = true → err = .streamEnd ∧ y' = encode (x ++ input)) := by
  -- what is still to be given gets less with each turn that fills the buffer
  induction hd : (encode (x ++ input)).length - y.length using Nat.strong_induction_on
    generalizing asked s x y input with
  | _ d ih =>
      have hallowed : Coder.Allowed asked finish input chunk := ⟨by decide, hasks, hno⟩
      have hret := hc.steady hfed hallowed
      have hnext := Coder.Fed.call hfed hallowed hret
      have hturn := deflateLoop_succ hret
      have hrest : x ++ input.take (c.call s finish input chunk).used ++
          input.drop (c.call s finish input chunk).used = x ++ input := by
        rw [List.append_assoc, List.take_append_drop]
      have hnoRest : finish = true → input.drop (c.call s finish input chunk).used = [] :=
        fun h => by rw [hno h, List.drop_nil]
      by_cases hfull : (c.call s finish input chunk).out.length = chunk
      · have hgiven := (hc.output hnext _ hnoRest).length_le
        rw [hrest, List.length_append, hfull] at hgiven
        have hless : (encode (x ++ input)).length -
            (y ++ (c.call s finish input chunk).out).length < d := by
          rw [List.length_append, hfull, ← hd]
          have hchunk : 0 < chunk := by decide
          omega
        obtain ⟨err, s', y', ⟨n, hn⟩, hfed', hend⟩ :=
          ih _ hless hnext (fun h => h) hnoRest (by rw [hrest])
        rw [hrest] at hfed' hend
        refine ⟨err, s', y', ⟨n + 1, fun m hm => ?_⟩, hfed', hend⟩
        obtain ⟨m, rfl⟩ : ∃ m', m = m' + 1 := ⟨m - 1, by omega⟩
        rw [hturn]
        simp only [if_pos hfull]
        exact hn m (Nat.le_of_succ_le_succ hm)
      · have hleft := Nat.lt_of_le_of_ne (hc.room hfed hallowed) hfull
        have htakes := hc.takes hfed hallowed hleft
        rw [List.take_of_length_le htakes] at hnext
        refine ⟨(c.call s finish input chunk).ret, _, _, ⟨1, fun m hm => ?_⟩, hnext, fun h => ?_⟩
        · obtain ⟨m, rfl⟩ : ∃ m', m = m' + 1 := ⟨m - 1, by omega⟩
          rw [hturn]
          simp only [if_neg hfull, List.drop_eq_nil_of_le htakes]
        · obtain rfl := h
          obtain rfl := hno rfl
          have hend := hc.ends hfed (by decide) hleft
          rw [List.append_nil]
          exact ⟨hend, hc.whole hfed (by decide) hend⟩

/-- The outer loop of `do_compress` writes the code of what it reads. -/
theorem compressLoop_ends (hc : c.Encodes encode) (parts : List (List UInt8)) {s : c.State}
    {x y : List UInt8} (hfed : c.Fed false s x y) (err : Option CoderRet) :
    ∃ n, ∀ m ≥ n, compressLoop c none false m parts s err y =
      some (.returned true (some .streamEnd) (encode (x ++ parts.flatten))) := by
  induction parts generalizing s x y err with
  | nil =>
      obtain ⟨err', s', y', ⟨n, hn⟩, -, hend⟩ :=
        deflateLoop_ends hc hfed (fun _ => rfl) fun _ => rfl
      obtain ⟨rfl, rfl⟩ := hend rfl
      refine ⟨n, fun m hm => ?_⟩
      simp [compressLoop, hn m hm]
  | cons p ps ih =>
      have hno : false = true → p = [] := nofun
      obtain ⟨err', s', y', ⟨n, hn⟩, hfed', -⟩ := deflateLoop_ends hc hfed (fun h => h) hno
      obtain ⟨n', hn'⟩ := ih hfed' (some err')
      refine ⟨max n n', fun m hm => ?_⟩
      rw [compressLoop, hn m ((Nat.le_max_left n n').trans hm)]
      simp only [if_pos]
      rw [hn' m ((Nat.le_max_right n n').trans hm), List.flatten_cons, List.append_assoc]

end Compress

/-! ## Decompressing -/

/-- So much can be written. -/
def Fits (limit : Option Nat) (bs : List UInt8) : Prop := ∀ k ∈ limit, bs.length ≤ k

theorem Fits.of_prefix {limit : Option Nat} {bs bs' : List UInt8} (h : Fits limit bs')
    (hpre : bs <+: bs') : Fits limit bs :=
  fun k hk => hpre.length_le.trans (h k hk)

/-- What can be written is written. -/
theorem writeall_of_fits {limit : Option Nat} {file bs : List UInt8}
    (h : Fits limit (file ++ bs)) : writeall limit file bs = (bs.length, file ++ bs) := by
  cases limit with
  | none => rfl
  | some k =>
      have hle := h k rfl
      rw [List.length_append] at hle
      have htake : bs.take (k - file.length) = bs := List.take_of_length_le (by omega)
      simp only [writeall, htake]

/-- What is written as a whole could be written. -/
theorem fits_of_writeall {limit : Option Nat} {file bs : List UInt8} (hfile : Fits limit file)
    (h : (writeall limit file bs).1 = bs.length) : Fits limit (file ++ bs) := by
  intro k hk
  have hle := hfile k hk
  obtain rfl : limit = some k := hk
  simp only [writeall, List.length_take] at h
  rw [List.length_append]
  omega

section Decompress
variable {c : Coder} {decoded : List UInt8 → List UInt8} {Complete : List UInt8 → Prop}
variable {limit : Option Nat}

/-- A code `e` that the input goes on with, or is a part of. -/
structure Ahead (Complete : List UInt8 → Prop) (e x input : List UInt8) : Prop where
  complete : Complete e
  behind : x <+: e
  compare : x ++ input <+: e ∨ e <+: x ++ input

/-- What the inner loop of `do_decompress` comes to for an input, after it has taken `x`. -/
inductive Inflated (c : Coder) (decoded : List UInt8 → List UInt8) (Complete : List UInt8 → Prop)
    (limit : Option Nat) (x input : List UInt8) : Inner c.State → Prop
  /-- There is no code, or no place for what it stands for. -/
  | early {r : Coded} (hr : ∀ err file, r ≠ .returned true err file)
      (hno : ∀ e, Ahead Complete e x input → ¬ Fits limit (decoded e)) :
      Inflated c decoded Complete limit x input (.early r)
  /-- The input is taken, up to the end of the code. -/
  | next {err : CoderRet} {s' : c.State} {x' y' rest : List UInt8} (hfed : c.Fed false s' x' y')
      (hx : x' <+: x ++ input) (hahead : ∀ e, Ahead Complete e x input → x' <+: e)
      (hfits : Fits limit y')
      (hend : err = .streamEnd → Complete x' ∧ y' = decoded x')
      (hmore : err ≠ .streamEnd → ¬ Complete x' ∧ x' = x ++ input) :
      Inflated c decoded Complete limit x input (.next err s' rest y')

/-- One turn, with a call that is no error. -/
theorem inflateLoop_succ {s : c.State} {input : List UInt8}
    (h : (c.call s false input chunk).ret.isError = false) (n : Nat) (y : List UInt8) :
    inflateLoop c limit (n + 1) s input y =
      let a := c.call s false input chunk
      let w := writeall limit y a.out
      if w.1 ≠ a.out.length then some (.early (.returned false a.ret w.2))
      else if a.out.length = chunk then inflateLoop c limit n a.next (input.drop a.used) w.2
      else some (.next a.ret a.next (input.drop a.used) w.2) := by
  rw [inflateLoop]
  simp only
  split
  case h_1 hret | h_2 hret | h_3 hret | h_4 hret =>
    rw [hret] at h
    cases h
  all_goals rfl

/-- One turn, with a call that is an error. -/
theorem inflateLoop_error {s : c.State} {input : List UInt8}
    (h : (c.call s false input chunk).ret.isError = true) (y : List UInt8) :
    ∃ r, (∀ n, inflateLoop c limit (n + 1) s input y = some (.early r)) ∧
      ∀ err file, r ≠ .returned true err file := by
  cases hret : (c.call s false input chunk).ret with
  | ok | streamEnd | bufError =>
      rw [hret] at h
      cases h
  | needDict | streamError =>
      refine ⟨.aborted y, fun n => ?_, nofun⟩
      rw [inflateLoop]
      simp only [hret]
  | dataError | memError =>
      refine ⟨.returned false (c.call s false input chunk).ret y, fun n => ?_, nofun⟩
      rw [inflateLoop]
      simp only [hret]

/-- A turn that fills the buffer leaves the rest to the next ones. -/
theorem Inflated.of_rest {x input x' input' : List UInt8} {r : Inner c.State}
    (h : Inflated c decoded Complete limit x' input' r) (hrest : x' ++ input' = x ++ input)
    (hahead : ∀ e, Ahead Complete e x input → x' <+: e) :
    Inflated c decoded Complete limit x input r := by
  have hstill : ∀ e, Ahead Complete e x input → Ahead Complete e x' input' := fun e he =>
    ⟨he.complete, hahead e he, by rw [hrest]; exact he.compare⟩
  cases h with
  | early hr hno => exact .early hr fun e he => hno e (hstill e he)
  | next hfed hx hahead' hfits hend hmore =>
      rw [hrest] at hx hmore
      exact .next hfed hx (fun e he => hahead' e (hstill e he)) hfits hend hmore

/-- A call that is an error. -/
theorem inflated_error (hc : c.Decodes decoded Complete) {s : c.State} {x y input : List UInt8}
    (hfed : c.Fed false s x y) (hret : (c.call s false input chunk).ret.isError = true)
    {r : Coded} (hr : ∀ err file, r ≠ .returned true err file) :
    Inflated c decoded Complete limit x input (.early r) := by
  refine .early hr fun e he => ?_
  have hchunk : 0 < chunk := by decide
  have hsteady := (hc.valid hfed hchunk he.complete he.behind he.compare).1
  rw [hret] at hsteady
  cases hsteady

/-- A call that leaves room in the buffer. -/
theorem inflated_left (hc : c.Decodes decoded Complete) {s : c.State} {x y input : List UInt8}
    (hfed : c.Fed false s x y) (hret : (c.call s false input chunk).ret.isError = false)
    (hleft : (c.call s false input chunk).out.length < chunk)
    (hfits : Fits limit (y ++ (c.call s false input chunk).out)) (rest : List UInt8) :
    Inflated c decoded Complete limit x input (.next (c.call s false input chunk).ret
      (c.call s false input chunk).next rest (y ++ (c.call s false input chunk).out)) := by
  have hchunk : 0 < chunk := by decide
  have hallowed : Coder.Allowed false false input chunk := ⟨hchunk, nofun, nofun⟩
  refine .next (hfed.call hallowed hret) ?_ (fun e he => ?_) hfits (hc.whole hfed hchunk)
    fun hmore => ⟨fun hcomplete => hmore (hc.ends hfed hchunk hret hcomplete hleft), ?_⟩
  · exact (List.prefix_append_right_inj x).mpr (List.take_prefix _ _)
  · exact (hc.valid hfed hchunk he.complete he.behind he.compare).2
  · have hall := (hc.takes hfed hchunk hret hleft).resolve_right hmore
    rw [List.take_of_length_le hall]

/-- **The inner loop of `do_decompress`**, for any input. -/
theorem inflateLoop_ends (hc : c.Decodes decoded Complete) {s : c.State} {x y input : List UInt8}
    (hfed : c.Fed false s x y) (hfits : Fits limit y) : ∃ r,
      (∃ n, ∀ m ≥ n, inflateLoop c limit m s input y = some r) ∧
        Inflated c decoded Complete limit x input r := by
  -- as when compressing, there is less to be given with each turn that fills the buffer
  induction hd : (decoded (x ++ input)).length - y.length using Nat.strong_induction_on
    generalizing s x y input with
  | _ d ih =>
      have hchunk : 0 < chunk := by decide
      cases hret : (c.call s false input chunk).ret.isError with
      | true =>
          obtain ⟨r, hr, hzero⟩ := @inflateLoop_error c limit s input hret y
          refine ⟨.early r, ⟨1, fun m hm => ?_⟩, inflated_error hc hfed hret hzero⟩
          obtain ⟨m, rfl⟩ : ∃ m', m = m' + 1 := ⟨m - 1, by omega⟩
          exact hr m
      | false =>
          have hturn := fun n => @inflateLoop_succ c limit s input hret n y
          have hallowed : Coder.Allowed false false input chunk := ⟨hchunk, nofun, nofun⟩
          have hnext := hfed.call hallowed hret
          have hrest : x ++ input.take (c.call s false input chunk).used ++
              input.drop (c.call s false input chunk).used = x ++ input := by
            rw [List.append_assoc, List.take_append_drop]
          have hahead : ∀ e, Ahead Complete e x input →
              x ++ input.take (c.call s false input chunk).used <+: e := fun e he =>
            (hc.valid hfed hchunk he.complete he.behind he.compare).2
          by_cases hwrite : (writeall limit y (c.call s false input chunk).out).1 =
              (c.call s false input chunk).out.length
          · have hfits' := fits_of_writeall hfits hwrite
            simp only [writeall_of_fits hfits', ne_eq, not_true_eq_false, if_false] at hturn
            by_cases hfull : (c.call s false input chunk).out.length = chunk
            · have hgiven := ((hc.output hnext).trans (hc.mono ⟨_, hrest⟩)).length_le
              rw [List.length_append, hfull] at hgiven
              obtain ⟨r, ⟨n, hn⟩, hr⟩ := ih ((decoded (x ++ input)).length -
                (y ++ (c.call s false input chunk).out).length)
                (by rw [List.length_append, hfull, ← hd]; omega) hnext hfits' (by rw [hrest])
              refine ⟨r, ⟨n + 1, fun m hm => ?_⟩, hr.of_rest hrest hahead⟩
              obtain ⟨m, rfl⟩ : ∃ m', m = m' + 1 := ⟨m - 1, by omega⟩
              rw [hturn, if_pos hfull]
              exact hn m (Nat.le_of_succ_le_succ hm)
            · have hleft := Nat.lt_of_le_of_ne (hc.room hfed hchunk) hfull
              refine ⟨_, ⟨1, fun m hm => ?_⟩, inflated_left hc hfed hret hleft hfits'
                (input.drop (c.call s false input chunk).used)⟩
              obtain ⟨m, rfl⟩ : ∃ m', m = m' + 1 := ⟨m - 1, by omega⟩
              rw [hturn, if_neg hfull]
          · refine ⟨.early (.returned false (c.call s false input chunk).ret
              (writeall limit y (c.call s false input chunk).out).2), ⟨1, fun m hm => ?_⟩,
              .early nofun fun e he hroom => hwrite ?_⟩
            · obtain ⟨m, rfl⟩ : ∃ m', m = m' + 1 := ⟨m - 1, by omega⟩
              rw [hturn]
              simp only [ne_eq, if_pos hwrite]
            · have hplace := hroom.of_prefix ((hc.output hnext).trans (hc.mono (hahead e he)))
              rw [writeall_of_fits hplace]

/-- What `do_decompress` comes to for the parts that are left, after `x`. -/
def Decompressed (decoded : List UInt8 → List UInt8) (Complete : List UInt8 → Prop)
    (limit : Option Nat) (x rest : List UInt8) (r : Coded) : Prop :=
  (∃ e, Complete e ∧ e <+: x ++ rest ∧ Fits limit (decoded e) ∧
      r = .returned true (some .streamEnd) (decoded e)) ∨
    (∀ file, r ≠ .returned true (some .streamEnd) file) ∧
      ∀ e, Complete e → x <+: e → e <+: x ++ rest → ¬ Fits limit (decoded e)

/-- **The outer loop of `do_decompress`**, for any file. -/
theorem decompressLoop_ends (hc : c.Decodes decoded Complete) (fails : Bool)
    (parts : List (List UInt8)) {s : c.State} {x y : List UInt8} (hfed : c.Fed false s x y)
    (hfits : Fits limit y) (hx : ¬ Complete x) {err : Option CoderRet}
    (herr : err ≠ some .streamEnd) : ∃ r,
      (∃ n, ∀ m ≥ n, decompressLoop c limit fails m parts s err y = some r) ∧
        Decompressed decoded Complete limit x parts.flatten r := by
  induction parts generalizing s x y err with
  | nil =>
      refine ⟨_, ⟨0, fun _ _ => rfl⟩, .inr ⟨fun file h => ?_, fun e he hxe hex _ => hx ?_⟩⟩
      · exact herr (Coded.returned.inj h).2.1
      · rw [List.flatten_nil, List.append_nil] at hex
        rwa [hxe.eq_of_length_le hex.length_le]
  | cons p ps ih =>
      obtain ⟨i, ⟨n, hn⟩, hi⟩ := @inflateLoop_ends c decoded Complete limit hc s x y p hfed hfits
      have hcompare : ∀ {e}, e <+: x ++ (p :: ps).flatten → x ++ p <+: e ∨ e <+: x ++ p := by
        intro e he
        rw [List.flatten_cons, ← List.append_assoc] at he
        exact List.prefix_or_prefix_of_prefix (List.prefix_append _ _) he
      cases hi with
      | early hr hno =>
          refine ⟨_, ⟨n, fun m hm => ?_⟩, .inr ⟨hr _, fun e he hxe hex => ?_⟩⟩
          · rw [decompressLoop, hn m hm]
          · exact hno e ⟨he, hxe, hcompare hex⟩
      | @next err' s' x' y' rest hfed' hx' hahead hfits' hend hmore =>
          by_cases hstream : err' = .streamEnd
          · obtain ⟨hcomplete, rfl⟩ := hend hstream
            refine ⟨_, ⟨n, fun m hm => ?_⟩, .inl ⟨x', hcomplete, ?_, hfits', rfl⟩⟩
            · rw [decompressLoop, hn m hm]
              simp only [hstream, if_pos]
            · rw [List.flatten_cons, ← List.append_assoc]
              exact hx'.trans (List.prefix_append _ _)
          · obtain ⟨hgoes, rfl⟩ := hmore hstream
            obtain ⟨r, ⟨n', hn'⟩, hr⟩ := ih hfed' hfits' hgoes fun h =>
              hstream (Option.some.inj h)
            refine ⟨r, ⟨max n n', fun m hm => ?_⟩, ?_⟩
            · rw [decompressLoop, hn m ((Nat.le_max_left n n').trans hm)]
              simp only [if_neg hstream]
              exact hn' m ((Nat.le_max_right n n').trans hm)
            · rw [Decompressed, List.append_assoc, ← List.flatten_cons] at hr
              refine hr.imp_right fun ⟨hnever, hno⟩ => ⟨hnever, fun e he hxe hex hroom => ?_⟩
              exact hno e he (hahead e ⟨he, hxe, hcompare hex⟩) hex hroom

end Decompress

/-! ## Back again -/

/-- The code. -/
def marked (x : List UInt8) : List UInt8 :=
  [0x78, 0x01] ++ x.flatMap (fun b => [0x01, b]) ++ [0x03, 0, 0, 0, 0, 0x01]

/-- The automaton for the code; it is in state 2 in front of a mark. -/
def markedAutomaton : Coder.Automaton where
  State := Nat
  start := 0
  step q b :=
    match q with
    | 0 => if b = 0x78 then some (1, []) else none
    | 1 => if b = 0x01 then some (2, []) else none
    | 2 => if b = 0x01 then some (3, []) else if b = 0x03 then some (4, []) else none
    | 3 => some (2, [b])
    | 4 | 5 | 6 | 7 => if b = 0 then some (q + 1, []) else none
    | 8 => if b = 0x01 then some (9, []) else none
    | _ => none
  final q := q == 9
  not_final_start := rfl
  step_final {q b} h := by
    obtain rfl : q = 9 := beq_iff_eq.mp h
    rfl

theorem run_marks (x : List UInt8) :
    markedAutomaton.run (2 : Nat) (x.flatMap fun b => [0x01, b]) = (x, some (2 : Nat)) := by
  induction x with
  | nil => rfl
  | cons b x ih =>
      have htwo : markedAutomaton.run (2 : Nat) [0x01, b] = ([b], some (2 : Nat)) := rfl
      rw [List.flatMap_cons, Coder.Automaton.run_append htwo, ih]
      rfl

/-- The automaton reads the code. -/
theorem run_marked (x : List UInt8) :
    markedAutomaton.run markedAutomaton.start (marked x) = (x, some (9 : Nat)) := by
  have hheader : markedAutomaton.run (0 : Nat) [0x78, 0x01] = ([], some (2 : Nat)) := rfl
  have htrailer : markedAutomaton.run (2 : Nat) [0x03, 0, 0, 0, 0, 0x01] = ([], some (9 : Nat)) := rfl
  rw [marked, List.append_assoc]
  refine (Coder.Automaton.run_append hheader _).trans ?_
  rw [Coder.Automaton.run_append (run_marks x), htrailer]
  exact congrArg (·, some (9 : Nat)) (List.append_nil x)

theorem encodes_marked : (Coder.waiting [0x78, 0x01] marked).Encodes marked :=
  Coder.encodes_waiting fun x => by
    rw [marked, List.append_assoc]
    exact List.prefix_append _ _

theorem marked_inverse (x : List UInt8) :
    markedAutomaton.Complete (marked x) ∧ markedAutomaton.decoded (marked x) = x := by
  have hrun := run_marked x
  exact ⟨⟨(9 : Nat), congrArg Prod.snd hrun, rfl⟩, congrArg Prod.fst hrun⟩

end Xnd.Ckptdir
