import Mathlib.Data.List.Infix

/-!
# Streaming coders

A coder is called with a part of its input and with room for a part of its output.  It takes
some of the input, fills some of the room, and says how the stream goes on.

`Coder.Fed` is what a client may do with a coder: any calls, until one of them is an error;
once it has asked for the end of the stream it goes on asking for it, without more input.
What a coder is to do is stated on all states that are reached in this way, in terms of all
that it has taken and given: **an encoder** gives the code of what it takes (`Encodes`),
**a decoder** what a code stands for, and says where the code ends (`Decodes`).  How input
and output are cut into parts does not matter to either.
-/
namespace Xnd

/-- What a call says. -/
inductive CoderRet where
  | ok | streamEnd | bufError | needDict | dataError | streamError | memError
  deriving DecidableEq, Repr

/-- The stream cannot go on. -/
def CoderRet.isError : CoderRet → Bool
  | needDict | dataError | streamError | memError => true
  | ok | streamEnd | bufError => false

/-- What a call does: it takes `used` bytes of the input. -/
structure Answer (σ : Type) where
  used : Nat
  out : List UInt8
  ret : CoderRet
  next : σ

/-- An implementation of a coder: `call s finish input room` asks for the end of the stream
if `finish`. -/
structure Coder where
  State : Type
  init : State
  call : State → Bool → List UInt8 → Nat → Answer State

namespace Coder

/-- A call that is allowed after calls of which the last one was with `asked`. -/
structure Allowed (asked finish : Bool) (input : List UInt8) (room : Nat) : Prop where
  room_pos : 0 < room
  asks : asked = true → finish = true
  no_input : finish = true → input = []

/-- The state after calls that took `x` and gave `y`. -/
inductive Fed (c : Coder) : Bool → c.State → List UInt8 → List UInt8 → Prop
  | init : Fed c false c.init [] []
  | call {asked finish : Bool} {s : c.State} {x y input : List UInt8} {room : Nat}
      (h : Fed c asked s x y) (hcall : Allowed asked finish input room)
      (hret : (c.call s finish input room).ret.isError = false) :
      Fed c finish (c.call s finish input room).next
        (x ++ input.take (c.call s finish input room).used)
        (y ++ (c.call s finish input room).out)

/-- **What an encoder does.**  It takes all of its input unless there is no room left, and
its output is the code of its input as far as there was room. -/
structure Encodes (c : Coder) (encode : List UInt8 → List UInt8) : Prop where
  room : ∀ {asked s x y finish input room}, c.Fed asked s x y → Allowed asked finish input room →
    (c.call s finish input room).out.length ≤ room
  steady : ∀ {asked s x y finish input room}, c.Fed asked s x y →
    Allowed asked finish input room → (c.call s finish input room).ret.isError = false
  output : ∀ {asked s x y}, c.Fed asked s x y → ∀ z, (asked = true → z = []) →
    y <+: encode (x ++ z)
  takes : ∀ {asked s x y finish input room}, c.Fed asked s x y → Allowed asked finish input room →
    (c.call s finish input room).out.length < room →
      input.length ≤ (c.call s finish input room).used
  ends : ∀ {asked s x y room}, c.Fed asked s x y → 0 < room →
    (c.call s true [] room).out.length < room → (c.call s true [] room).ret = .streamEnd
  whole : ∀ {asked s x y room}, c.Fed asked s x y → 0 < room →
    (c.call s true [] room).ret = .streamEnd → y ++ (c.call s true [] room).out = encode x

/-- **What a decoder does**, where `decoded` are the bytes that a code stands for, as far as
it goes, and `Complete` are the codes that have an end.  It takes all of its input unless
there is no room left or the code has ended; and it says where the code ends. -/
structure Decodes (c : Coder) (decoded : List UInt8 → List UInt8)
    (Complete : List UInt8 → Prop) : Prop where
  mono : ∀ {x x'}, x <+: x' → decoded x <+: decoded x'
  nonempty : ¬ Complete []
  exact : ∀ {e e'}, Complete e → Complete e' → e <+: e' → e = e'
  room : ∀ {s x y input room}, c.Fed false s x y → 0 < room →
    (c.call s false input room).out.length ≤ room
  output : ∀ {s x y}, c.Fed false s x y → y <+: decoded x
  takes : ∀ {s x y input room}, c.Fed false s x y → 0 < room →
    (c.call s false input room).ret.isError = false →
    (c.call s false input room).out.length < room →
      input.length ≤ (c.call s false input room).used ∨
        (c.call s false input room).ret = .streamEnd
  whole : ∀ {s x y input room}, c.Fed false s x y → 0 < room →
    (c.call s false input room).ret = .streamEnd →
      Complete (x ++ input.take (c.call s false input room).used) ∧
        y ++ (c.call s false input room).out =
          decoded (x ++ input.take (c.call s false input room).used)
  ends : ∀ {s x y input room}, c.Fed false s x y → 0 < room →
    (c.call s false input room).ret.isError = false →
    Complete (x ++ input.take (c.call s false input room).used) →
    (c.call s false input room).out.length < room →
      (c.call s false input room).ret = .streamEnd
  valid : ∀ {s x y input room e}, c.Fed false s x y → 0 < room → Complete e → x <+: e →
    (x ++ input <+: e ∨ e <+: x ++ input) →
      (c.call s false input room).ret.isError = false ∧
        x ++ input.take (c.call s false input room).used <+: e

/-! ## An encoder that waits

It takes everything, and gives nothing but a header before it is asked for the end. -/

section Waiting
variable (header : List UInt8) (encode : List UInt8 → List UInt8)

/-- An encoder whose state is what it has taken, and how much it has given. -/
def waiting : Coder where
  State := List UInt8 × Nat
  init := ([], 0)
  call s finish input room :=
    let code := if finish = true then encode (s.1 ++ input) else header
    let out := (code.drop s.2).take room
    { used := input.length
      out := out
      ret := if finish = true ∧ code.length ≤ s.2 + out.length then .streamEnd else .ok
      next := (s.1 ++ input, s.2 + out.length) }

variable {header encode}

/-- What is given is a part of the code, in front of what is still to be given. -/
theorem prefix_append_take {code y : List UInt8} (h : y <+: code) (room : Nat) :
    y ++ (code.drop y.length).take room <+: code := by
  obtain ⟨rest, rfl⟩ := h
  rw [List.drop_left]
  exact (List.prefix_append_right_inj y).mpr (List.take_prefix _ _)

theorem Fed.waiting (hheader : ∀ x, header <+: encode x) {asked : Bool}
    {s : (Coder.waiting header encode).State} {x y : List UInt8}
    (h : (Coder.waiting header encode).Fed asked s x y) :
    s = (x, y.length) ∧ y <+: if asked = true then encode x else header := by
  induction h with
  | init => exact ⟨rfl, List.nil_prefix⟩
  | @call asked finish s x y input room _ hcall _ ih =>
      obtain ⟨rfl, hy⟩ := ih
      refine ⟨?_, ?_⟩
      · simp [Coder.waiting]
      · cases finish with
        | false =>
            obtain rfl : asked = false := Bool.eq_false_iff.mpr fun hasked =>
              nomatch hcall.asks hasked
            exact prefix_append_take hy room
        | true =>
            obtain rfl := hcall.no_input rfl
            have hcode : y <+: encode x := by
              cases asked
              · exact hy.trans (hheader x)
              · exact hy
            have hnil : ∀ n : Nat, x ++ ([] : List UInt8).take n = x := fun n => by simp
            simp only [hnil, if_pos]
            show y ++ ((encode (x ++ [])).drop y.length).take room <+: encode x
            rw [List.append_nil]
            exact prefix_append_take hcode room

theorem encodes_waiting (hheader : ∀ x, header <+: encode x) :
    (waiting header encode).Encodes encode where
  room _ _ := List.length_take_le _ _
  steady _ _ := (apply_ite CoderRet.isError _ _ _).trans (ite_self false)
  output {asked s x y} h z hz := by
    obtain ⟨-, hy⟩ := h.waiting hheader
    cases asked with
    | false => exact hy.trans (hheader _)
    | true => rwa [hz rfl, List.append_nil]
  takes _ _ _ := le_rfl
  ends {asked s x y room} h _ hlt := by
    obtain ⟨rfl, -⟩ := h.waiting hheader
    simp only [waiting, if_pos, List.append_nil, List.length_take, List.length_drop, true_and]
      at hlt ⊢
    rw [if_pos (by omega)]
  whole {asked s x y room} h _ hend := by
    obtain ⟨rfl, hy⟩ := h.waiting hheader
    have hcode : y <+: encode x := by
      cases asked
      · exact hy.trans (hheader x)
      · exact hy
    simp only [waiting, if_pos, List.append_nil, true_and] at hend ⊢
    split at hend
    next hall =>
      refine (prefix_append_take hcode room).eq_of_length_le ?_
      rw [List.length_append]
      exact hall
    next => cases hend

end Waiting

/-! ## A decoder from an automaton

Each byte of the code takes the automaton to its next state and may give some output; there
is no state for what is no code. -/

/-- An automaton that reads a code. -/
structure Automaton where
  State : Type
  start : State
  step : State → UInt8 → Option (State × List UInt8)
  final : State → Bool
  not_final_start : final start = false
  step_final : ∀ {q b}, final q = true → step q b = none

namespace Automaton
variable (a : Automaton)

/-- The output for a code, and the state behind it. -/
def run : a.State → List UInt8 → List UInt8 × Option a.State
  | q, [] => ([], some q)
  | q, b :: bs =>
      match a.step q b with
      | none => ([], none)
      | some (q', out) => (out ++ (run q' bs).1, (run q' bs).2)

/-- Reads up to the end of the code, or to what is no code: the state behind it, what is taken
of the input, and the output. -/
def read : a.State → List UInt8 → a.State × List UInt8 × List UInt8
  | q, [] => (q, [], [])
  | q, b :: bs =>
      if a.final q = true then (q, [], [])
      else
        match a.step q b with
        | none => (q, [], [])
        | some (q', out) =>
            let r := read q' bs
            (r.1, b :: r.2.1, out ++ r.2.2)

/-- The output for a code, as far as it is one. -/
def decoded (x : List UInt8) : List UInt8 := (a.run a.start x).1

/-- A code that has come to its end. -/
def Complete (x : List UInt8) : Prop := ∃ q, (a.run a.start x).2 = some q ∧ a.final q = true

/-- The answer for an input that is read as far as it is to be; what there is no room for is
kept. -/
def answer (s : a.State × List UInt8) (input : List UInt8) (room : Nat) :
    Answer (a.State × List UInt8) :=
  let r := a.read s.1 input
  let all := s.2 ++ r.2.2
  { used := r.2.1.length
    out := all.take room
    ret := if a.final r.1 = true ∧ all.length ≤ room then .streamEnd else .ok
    next := (r.1, all.drop room) }

/-- The input goes on with what is no code. -/
def Bad (q : a.State) (input : List UInt8) : Prop :=
  (a.read q input).2.1.length < input.length ∧ a.final (a.read q input).1 = false

instance (q : a.State) (input : List UInt8) : Decidable (a.Bad q input) :=
  inferInstanceAs (Decidable (_ ∧ _))

/-- The decoder: its state is that of the automaton, and the output that is kept. -/
abbrev decoder : Coder where
  State := a.State × List UInt8
  init := (a.start, [])
  call s _ input room :=
    if a.Bad s.1 input then ⟨0, [], .dataError, s⟩ else a.answer s input room

section Runs
variable {a}

theorem run_append {q q' : a.State} {x o : List UInt8} (h : a.run q x = (o, some q'))
    (z : List UInt8) : a.run q (x ++ z) = (o ++ (a.run q' z).1, (a.run q' z).2) := by
  induction x generalizing q o with
  | nil =>
      obtain ⟨rfl, rfl⟩ : [] = o ∧ q = q' := by simpa [run] using h
      rfl
  | cons b x ih =>
      rw [run] at h
      split at h
      · cases h
      next q₁ out hstep =>
        obtain ⟨hout, hend⟩ := Prod.mk.inj h
        have hrest : a.run q₁ x = ((a.run q₁ x).1, some q') := Prod.ext rfl hend
        rw [List.cons_append, run, hstep]
        simp only [ih hrest]
        rw [← hout, List.append_assoc]

theorem run_mono (q : a.State) (x z : List UInt8) : (a.run q x).1 <+: (a.run q (x ++ z)).1 := by
  induction x generalizing q with
  | nil => exact List.nil_prefix
  | cons b x ih =>
      rw [List.cons_append, run, run]
      split
      · exact List.nil_prefix
      · exact (List.prefix_append_right_inj _).mpr (ih _)

theorem read_isPrefix (q : a.State) (input : List UInt8) : (a.read q input).2.1 <+: input := by
  induction input generalizing q with
  | nil => exact List.nil_prefix
  | cons b bs ih =>
      rw [read]
      split
      · exact List.nil_prefix
      · split
        · exact List.nil_prefix
        · exact (List.prefix_cons_inj b).mpr (ih _)

/-- What is read is a code. -/
theorem run_read (q : a.State) (input : List UInt8) :
    a.run q (a.read q input).2.1 = ((a.read q input).2.2, some (a.read q input).1) := by
  induction input generalizing q with
  | nil => rfl
  | cons b bs ih =>
      rw [read]
      split
      · rfl
      · split
        · rfl
        next q' out hstep =>
          rw [run, hstep]
          simp only [ih q']

/-- A code that has an end is read up to there. -/
theorem read_valid {q qf : a.State} {t : List UInt8} (hrun : (a.run q t).2 = some qf)
    (hfinal : a.final qf = true) {input : List UInt8} (h : input <+: t ∨ t <+: input) :
    (a.read q input).2.1 <+: t ∧
      ((a.read q input).2.1 = input ∨ a.final (a.read q input).1 = true) := by
  induction input generalizing q t with
  | nil => exact ⟨List.nil_prefix, .inl rfl⟩
  | cons b bs ih =>
      rw [read]
      split
      next hend => exact ⟨List.nil_prefix, .inr hend⟩
      next hgoes =>
        obtain _ | ⟨c, ts⟩ := t
        · obtain rfl : q = qf := Option.some.inj hrun
          exact absurd hfinal hgoes
        · have hsame : b = c ∧ (bs <+: ts ∨ ts <+: bs) := by
            simp only [List.cons_prefix_cons] at h
            grind
          obtain ⟨rfl, hrest⟩ := hsame
          rw [run] at hrun
          split at hrun
          · cases hrun
          next q' out hstep =>
            have hread := ih hrun hrest
            refine ⟨(List.prefix_cons_inj b).mpr hread.1, hread.2.imp_left (congrArg _)⟩

theorem call_of_not_bad {s : a.decoder.State} {input : List UInt8} (h : ¬ a.Bad s.1 input)
    (finish : Bool) (room : Nat) : a.decoder.call s finish input room = a.answer s input room :=
  if_neg h

theorem not_bad_of_ret {s : a.decoder.State} {finish : Bool} {input : List UInt8} {room : Nat}
    (h : (a.decoder.call s finish input room).ret.isError = false) : ¬ a.Bad s.1 input := by
  intro hbad
  have hcall : a.decoder.call s finish input room = ⟨0, [], .dataError, s⟩ := if_pos hbad
  rw [hcall] at h
  cases h

theorem answer_steady (s : a.State × List UInt8) (input : List UInt8) (room : Nat) :
    (a.answer s input room).ret.isError = false :=
  (apply_ite CoderRet.isError _ _ _).trans (ite_self false)

theorem take_used (s : a.State × List UInt8) (input : List UInt8) (room : Nat) :
    input.take (a.answer s input room).used = (a.read s.1 input).2.1 :=
  (List.prefix_iff_eq_take.mp (read_isPrefix s.1 input)).symm

/-- The state of the decoder is that of the automaton. -/
theorem run_of_fed {asked : Bool} {s : a.decoder.State} {x y : List UInt8}
    (h : a.decoder.Fed asked s x y) : a.run a.start x = (y ++ s.2, some s.1) := by
  induction h with
  | init => rfl
  | @call asked finish s x y input room _ _ hret ih =>
      rw [call_of_not_bad (not_bad_of_ret hret), take_used, run_append ih, run_read]
      simp only [answer, List.append_assoc, List.take_append_drop]

theorem run_answer {s : a.decoder.State} {x y : List UInt8} (h : a.decoder.Fed false s x y)
    (input : List UInt8) : a.run a.start (x ++ (a.read s.1 input).2.1) =
      (y ++ s.2 ++ (a.read s.1 input).2.2, some (a.read s.1 input).1) := by
  rw [run_append (run_of_fed h), run_read]

/-- **The automaton's decoder decodes.** -/
theorem decodes (a : Automaton) : a.decoder.Decodes a.decoded a.Complete where
  mono := by
    intro x x' ⟨z, hz⟩
    rw [← hz]
    exact run_mono a.start x z
  nonempty := by
    intro ⟨q, hq, hfinal⟩
    obtain rfl : a.start = q := Option.some.inj hq
    rw [a.not_final_start] at hfinal
    cases hfinal
  exact := by
    intro e e' ⟨q, hq, hfinal⟩ ⟨q', hq', _⟩ ⟨t, ht⟩
    have hrun : a.run a.start e = ((a.run a.start e).1, some q) := Prod.ext rfl hq
    obtain _ | ⟨b, t⟩ := t
    · rw [← ht, List.append_nil]
    · -- behind the end there is nothing
      rw [← ht, run_append hrun, run, a.step_final hfinal] at hq'
      cases hq'
  room {s x y input room} _ _ := by
    by_cases hbad : a.Bad s.1 input
    · rw [show a.decoder.call s false input room = ⟨0, [], .dataError, s⟩ from if_pos hbad]
      exact Nat.zero_le _
    · rw [call_of_not_bad hbad]
      exact List.length_take_le _ _
  output {s x y} h := by
    rw [decoded, run_of_fed h]
    exact List.prefix_append _ _
  takes {s x y input room} _ _ hret hlt := by
    have hbad := not_bad_of_ret hret
    rw [call_of_not_bad hbad] at hlt ⊢
    simp only [answer, List.length_take] at hlt ⊢
    by_cases hall : input.length ≤ (a.read s.1 input).2.1.length
    · exact .inl hall
    · have hfinal : a.final (a.read s.1 input).1 = true := by
        by_contra hnot
        exact hbad ⟨Nat.not_le.mp hall, Bool.eq_false_iff.mpr hnot⟩
      exact .inr (if_pos ⟨hfinal, by omega⟩)
  whole {s x y input room} h _ hend := by
    have hbad : ¬ a.Bad s.1 input := not_bad_of_ret (by rw [hend]; rfl)
    have hrun := run_answer h input
    rw [call_of_not_bad hbad] at hend ⊢
    rw [take_used]
    simp only [answer] at hend ⊢
    split at hend
    next hall =>
      refine ⟨⟨_, congrArg Prod.snd hrun, hall.1⟩, ?_⟩
      rw [decoded, hrun, List.take_of_length_le hall.2, List.append_assoc]
    next => cases hend
  ends {s x y input room} h _ hret hcomplete hlt := by
    have hbad := not_bad_of_ret hret
    rw [call_of_not_bad hbad] at hcomplete hlt ⊢
    rw [take_used] at hcomplete
    obtain ⟨q, hq, hfinal⟩ := hcomplete
    rw [run_answer h input] at hq
    obtain rfl := Option.some.inj hq
    simp only [answer, List.length_take] at hlt ⊢
    exact if_pos ⟨hfinal, by omega⟩
  valid {s x y input room e} h _ hcomplete hpre hcompare := by
    obtain ⟨q, hq, hfinal⟩ := hcomplete
    obtain ⟨t, rfl⟩ := hpre
    rw [run_append (run_of_fed h)] at hq
    have hread := read_valid hq hfinal (hcompare.imp
      (List.prefix_append_right_inj x).mp (List.prefix_append_right_inj x).mp)
    have hbad : ¬ a.Bad s.1 input := by
      intro ⟨hlt, hnot⟩
      obtain hall | hend := hread.2
      · exact absurd hlt (by rw [hall]; exact Nat.lt_irrefl _)
      · rw [hnot] at hend
        cases hend
    rw [call_of_not_bad hbad, take_used]
    exact ⟨answer_steady _ _ _, (List.prefix_append_right_inj x).mpr hread.1⟩

end Runs
end Automaton
end Coder
end Xnd
