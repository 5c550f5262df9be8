import Mathlib.Algebra.BigOperators.Group.List.Basic
import Mathlib.Algebra.Ring.Nat
import Mathlib.Data.List.Infix
import Xnd.Lib.DoWhile

/-!
# Transfers in parts

A call that is asked for `n` bytes may move fewer of them, or none, or fail.  `transfer` is
the loop that calls again for what is left, in words of 64 bits as a program computes them.

What it is to do is `Transfers`: the bytes that went are as if they had gone at once, each
call was for what was left where the one before had stopped, and all of the bytes went
unless a call ended the loop.  **The rule of transfers** is `transfer_spec`: a loop that goes
on at every count does that, or it goes on for ever because from some call on nothing moves.
-/
namespace Xnd.Transfer

/-- What a call that is asked for `n` bytes comes to.  A count is a positive `ssize_t`. -/
inductive Result (n : BitVec 64) where
  | count (k : Nat) (pos : 0 < k) (le : k ≤ n.toNat) (fits : k < 2 ^ 63)
  | eof
  | error (errno : BitVec 64)

namespace Result
variable {n : BitVec 64}

/-- How many bytes went. -/
def moved : Result n → Nat
  | count k .. => k
  | eof => 0
  | error _ => 0

/-- What the call returns. -/
def ret : Result n → BitVec 64
  | count k .. => .ofNat 64 k
  | eof => 0
  | error _ => -1

theorem moved_le (r : Result n) : r.moved ≤ n.toNat := by
  cases r with
  | count k pos le fits => exact le
  | eof => exact Nat.zero_le _
  | error e => exact Nat.zero_le _

end Result

/-- What each call comes to, by its number and by what it is asked for. -/
abbrev Calls := Nat → (n : BitVec 64) → Result n

/-- A call that was made: from where, and for how much. -/
structure Call where
  off : BitVec 64
  asked : BitVec 64
  result : Result asked

/-- The bytes that went in some calls. -/
def moved (log : List Call) : Nat := (log.map fun c => c.result.moved).sum

@[simp] theorem moved_nil : moved [] = 0 := rfl

@[simp] theorem moved_concat (log : List Call) (c : Call) :
    moved (log ++ [c]) = moved log + c.result.moved := by
  simp [moved]

/-- What bytes are moved in: `move off k` moves `k` bytes, the first of which is at `off`. -/
structure Medium (δ : Type) where
  move : Nat → Nat → δ → δ
  move_zero : ∀ off d, move off 0 d = d
  move_add : ∀ off j k d, move (off + j) k (move off j d) = move off (j + k) d

/-- The medium, and the calls so far. -/
structure Io (δ : Type) where
  data : δ
  log : List Call

variable {δ : Type} (m : Medium δ) (calls : Calls) (goesOn : BitVec 64 → Bool) (nbyte : BitVec 64)

/-- A call, that returns what `ret` makes of its result. -/
def issue (ret : {n : BitVec 64} → Result n → BitVec 64) (off n : BitVec 64) (s : Io δ) :
    BitVec 64 × Io δ :=
  let r := calls s.log.length n
  (ret r, ⟨m.move off.toNat r.moved s.data, s.log ++ [⟨off, n, r⟩]⟩)

/-- `ret = call(buf + bytes, nbyte - bytes)`, and then `goesOn(ret) && (bytes += ret) < nbyte`. -/
def turn {σ : Type} (call : BitVec 64 → BitVec 64 → σ → BitVec 64 × σ) (s : BitVec 64 × σ) :
    (BitVec 64 × σ) × Bool :=
  let r := call s.1 (nbyte - s.1) s.2
  if goesOn r.1 = true then ((s.1 + r.1, r.2), decide (s.1 + r.1 < nbyte)) else ((s.1, r.2), false)

/-- The loop: `bytes` at its end, and the state. -/
def transfer {σ : Type} (call : BitVec 64 → BitVec 64 → σ → BitVec 64 × σ) (s : σ) (fuel : Nat) :
    Option (BitVec 64 × σ) :=
  doWhile (turn goesOn nbyte call) fuel (0, s)

/-! ## What a transfer is to do -/

/-- Each call is for what is left, from where the calls before it stopped. -/
def Asks (log : List Call) : Prop :=
  ∀ pre c, pre ++ [c] <+: log → c.off.toNat = moved pre ∧ c.asked.toNat = nbyte.toNat - moved pre

/-- **A transfer** of up to `nbyte` bytes from `d` on; `ends` are the results that end it. -/
structure Transfers (ends : {n : BitVec 64} → Result n → Bool) (d : δ) (r : BitVec 64 × Io δ) :
    Prop where
  le : moved r.2.log ≤ nbyte.toNat
  data : r.2.data = m.move 0 (moved r.2.log) d
  ret : r.1.toNat = moved r.2.log
  signed : moved r.2.log < 2 ^ 63 → r.1.toInt = moved r.2.log
  asks : Asks nbyte r.2.log
  full : moved r.2.log = nbyte.toNat ↔
    ∀ pre c, pre ++ [c] <+: r.2.log → moved pre < nbyte.toNat → ends c.result = false

/-- A loop that goes on for ever: some bytes went as in a transfer, and from then on every call,
which is for the others, comes to nothing. -/
structure Stalls (d : δ) (s : Io δ) : Prop where
  lt : moved s.log < nbyte.toNat
  data : s.data = m.move 0 (moved s.log) d
  asks : Asks nbyte s.log
  nothing : ∀ i, s.log.length ≤ i → calls i (nbyte - .ofNat 64 (moved s.log)) = .eof

theorem Asks.concat {log : List Call} {c : Call} (h : Asks nbyte log)
    (hoff : c.off.toNat = moved log) (hasked : c.asked.toNat = nbyte.toNat - moved log) :
    Asks nbyte (log ++ [c]) := by
  rintro pre c' hpre
  rcases List.prefix_concat_iff.mp hpre with heq | hpre
  · obtain ⟨rfl, hc⟩ := List.append_inj' heq rfl
    obtain rfl := List.singleton_inj.mp hc
    exact ⟨hoff, hasked⟩
  · exact h pre c' hpre

/-! ## The loop -/

section Loop
variable {m calls goesOn nbyte} {ends : {n : BitVec 64} → Result n → Bool} {d : δ}

/-- The invariant of the loop, at the start of a turn. -/
structure Inv (m : Medium δ) (ends : {n : BitVec 64} → Result n → Bool) (nbyte : BitVec 64) (d : δ)
    (s : BitVec 64 × Io δ) : Prop where
  bytes : s.1.toNat = moved s.2.log
  le : moved s.2.log ≤ nbyte.toNat
  left : s.2.log ≠ [] → moved s.2.log < nbyte.toNat
  data : s.2.data = m.move 0 (moved s.2.log) d
  asks : Asks nbyte s.2.log
  goes : ∀ c ∈ s.2.log, ends c.result = false

variable (m calls goesOn nbyte) in
/-- A turn of the loop. -/
def ioTurn (s : BitVec 64 × Io δ) : (BitVec 64 × Io δ) × Bool :=
  turn goesOn nbyte (issue m calls Result.ret) s

/-- The call of the next turn. -/
def nextCall (calls : Calls) (nbyte : BitVec 64) (s : BitVec 64 × Io δ) : Call :=
  ⟨s.1, nbyte - s.1, calls s.2.log.length (nbyte - s.1)⟩

/-- What a loop goes on at: at every count, and not at an error. -/
structure Ending (goesOn : BitVec 64 → Bool) (ends : {n : BitVec 64} → Result n → Bool) : Prop where
  goes : ∀ {n : BitVec 64} (r : Result n), goesOn r.ret = !ends r
  count : ∀ {n : BitVec 64} (k pos le fits), ends (.count k pos le fits : Result n) = false
  error : ∀ {n : BitVec 64} (e), ends (.error e : Result n) = true

theorem Ending.ret (h : Ending goesOn ends) {n : BitVec 64} {r : Result n} (hr : ends r = false) :
    r.ret.toNat = r.moved := by
  cases r with
  | count k pos le fits =>
      rw [Result.ret, Result.moved, BitVec.toNat_ofNat]
      omega
  | eof => rfl
  | error e =>
      rw [h.error] at hr
      cases hr

theorem Ending.moved (h : Ending goesOn ends) {n : BitVec 64} {r : Result n} (hr : ends r = true) :
    r.moved = 0 := by
  cases r with
  | count k pos le fits =>
      rw [h.count] at hr
      cases hr
  | eof => rfl
  | error e => rfl

namespace Inv
variable {s : BitVec 64 × Io δ}

theorem start (m : Medium δ) (ends : {n : BitVec 64} → Result n → Bool) (nbyte : BitVec 64)
    (d : δ) :
    Inv m ends nbyte d (0, ⟨d, []⟩) where
  bytes := rfl
  le := Nat.zero_le _
  left h := absurd rfl h
  data := (m.move_zero 0 d).symm
  asks pre c h := by simp at h
  goes c h := by cases h

theorem asked (h : Inv m ends nbyte d s) :
    (nbyte - s.1).toNat = nbyte.toNat - moved s.2.log := by
  rw [BitVec.toNat_sub_of_le, h.bytes]
  rw [BitVec.le_def, h.bytes]
  exact h.le

variable (calls) in
/-- What holds after the call of a turn, whatever it comes to. -/
theorem called (h : Inv m ends nbyte d s) :
    moved s.2.log + (nextCall calls nbyte s).result.moved ≤ nbyte.toNat ∧
      m.move s.1.toNat (nextCall calls nbyte s).result.moved s.2.data =
        m.move 0 (moved s.2.log + (nextCall calls nbyte s).result.moved) d ∧
      Asks nbyte (s.2.log ++ [nextCall calls nbyte s]) := by
  refine ⟨?_, ?_, ?_⟩
  · have hle := (nextCall calls nbyte s).result.moved_le
    have hasked : (nextCall calls nbyte s).asked.toNat = _ := h.asked
    have := h.le
    omega
  · rw [h.bytes, h.data, ← m.move_add, Nat.zero_add]
  · exact h.asks.concat nbyte h.bytes h.asked

variable (calls) in
/-- What a turn does, and when there is another one. -/
theorem ioTurn_spec (he : Ending goesOn ends) (h : Inv m ends nbyte d s) :
    (ioTurn m calls goesOn nbyte s).1.1.toNat =
        moved s.2.log + (nextCall calls nbyte s).result.moved ∧
      (ioTurn m calls goesOn nbyte s).1.2 =
        ⟨m.move s.1.toNat (nextCall calls nbyte s).result.moved s.2.data,
          s.2.log ++ [nextCall calls nbyte s]⟩ ∧
      ((ioTurn m calls goesOn nbyte s).2 = true ↔
        ends (nextCall calls nbyte s).result = false ∧
          moved s.2.log + (nextCall calls nbyte s).result.moved < nbyte.toNat) := by
  by_cases hr : ends (nextCall calls nbyte s).result = true
  · have hgo : ¬ goesOn (nextCall calls nbyte s).result.ret = true := by rw [he.goes, hr]; decide
    have hturn : ioTurn m calls goesOn nbyte s =
        ((s.1, ⟨m.move s.1.toNat (nextCall calls nbyte s).result.moved s.2.data,
          s.2.log ++ [nextCall calls nbyte s]⟩), false) := if_neg hgo
    rw [hturn, h.bytes, he.moved hr, hr]
    exact ⟨rfl, rfl, by simp⟩
  · have hr := Bool.eq_false_of_not_eq_true hr
    have hgo : goesOn (nextCall calls nbyte s).result.ret = true := by rw [he.goes, hr]; rfl
    have hword : (s.1 + (nextCall calls nbyte s).result.ret).toNat =
        moved s.2.log + (nextCall calls nbyte s).result.moved := by
      have hle := (h.called calls).1
      have hlt := nbyte.isLt
      rw [BitVec.toNat_add, h.bytes, he.ret hr]
      omega
    have hturn : ioTurn m calls goesOn nbyte s =
        ((s.1 + (nextCall calls nbyte s).result.ret,
          ⟨m.move s.1.toNat (nextCall calls nbyte s).result.moved s.2.data,
            s.2.log ++ [nextCall calls nbyte s]⟩),
          decide (s.1 + (nextCall calls nbyte s).result.ret < nbyte)) := if_pos hgo
    rw [hturn]
    refine ⟨hword, rfl, ?_⟩
    rw [decide_eq_true_eq, BitVec.lt_def, hword, hr]
    exact (and_iff_right rfl).symm

/-- The step lemma: a turn that is not the last one keeps the invariant. -/
theorem step (he : Ending goesOn ends) (h : Inv m ends nbyte d s)
    (hgo : (ioTurn m calls goesOn nbyte s).2 = true) :
    Inv m ends nbyte d (ioTurn m calls goesOn nbyte s).1 := by
  obtain ⟨hle, hdata, hasks⟩ := h.called calls
  obtain ⟨hbytes, hio, hmore⟩ := h.ioTurn_spec calls he
  obtain ⟨hr, hlt⟩ := hmore.mp hgo
  constructor
  · rw [hbytes, hio, moved_concat]
  · rw [hio, moved_concat]
    exact hle
  · intro _
    rw [hio, moved_concat]
    exact hlt
  · rw [hio, moved_concat]
    exact hdata
  · rw [hio]
    exact hasks
  · intro c hc
    rw [hio] at hc
    rcases List.mem_append.mp hc with hc | hc
    · exact h.goes c hc
    · obtain rfl := List.mem_singleton.mp hc
      exact hr

/-- At the last turn all has gone, or its result ends the loop. -/
theorem full (he : Ending goesOn ends) (h : Inv m ends nbyte d s)
    (hend : (ioTurn m calls goesOn nbyte s).2 = false) :
    moved s.2.log + (nextCall calls nbyte s).result.moved = nbyte.toNat ↔
      ∀ pre c, pre ++ [c] <+: s.2.log ++ [nextCall calls nbyte s] →
        moved pre < nbyte.toNat → ends c.result = false := by
  have hle := (h.called calls).1
  have hmore := (h.ioTurn_spec calls he).2.2
  constructor
  · intro hall pre c hpre hlt
    rcases List.prefix_concat_iff.mp hpre with heq | hpre
    · obtain ⟨rfl, hc⟩ := List.append_inj' heq rfl
      obtain rfl := List.singleton_inj.mp hc
      -- all that was left has gone in this call, so it was a count
      by_contra hr
      rw [he.moved (Bool.eq_true_of_not_eq_false hr)] at hall
      omega
    · exact h.goes c (hpre.subset (List.mem_append_right _ (List.mem_singleton_self c)))
  · intro hgoes
    rcases Nat.lt_or_ge (moved s.2.log) nbyte.toNat with hlt | hge
    · have hr := hgoes s.2.log (nextCall calls nbyte s) (List.prefix_refl _) hlt
      by_contra hne
      have hgo := hmore.mpr ⟨hr, by omega⟩
      rw [hend] at hgo
      cases hgo
    · omega

/-- After the last turn the bytes have been transferred. -/
theorem transfers (he : Ending goesOn ends) (h : Inv m ends nbyte d s)
    (hend : (ioTurn m calls goesOn nbyte s).2 = false) :
    Transfers m nbyte ends d (ioTurn m calls goesOn nbyte s).1 := by
  obtain ⟨hle, hdata, hasks⟩ := h.called calls
  obtain ⟨hbytes, hio, -⟩ := h.ioTurn_spec calls he
  have hfull := h.full he hend
  rw [← moved_concat] at hle hdata hbytes hfull
  constructor
  · rw [hio]
    exact hle
  · rw [hio]
    exact hdata
  · rw [hio]
    exact hbytes
  · intro hlt
    rw [hio] at hlt ⊢
    have hword : 2 * (ioTurn m calls goesOn nbyte s).1.1.toNat < 2 ^ 64 := by
      rw [hbytes]
      exact Nat.mul_lt_mul_of_pos_left hlt (by decide)
    rw [BitVec.toInt_eq_toNat_of_lt hword, hbytes]
  · rw [hio]
    exact hasks
  · rw [hio]
    exact hfull

end Inv

/-- A loop that has no last turn gets nothing from some call on, and goes on at that. -/
theorem exists_stalls (he : Ending goesOn ends) {s : BitVec 64 × Io δ} (hlog : s.2.log = [])
    (hall : ∀ k, Inv m ends nbyte d (before (ioTurn m calls goesOn nbyte) s k) ∧
      (ioTurn m calls goesOn nbyte (before (ioTurn m calls goesOn nbyte) s k)).2 = true) :
    ∃ j, Stalls m calls nbyte d (before (ioTurn m calls goesOn nbyte) s j).2 ∧
      ∃ n : BitVec 64, ends (.eof : Result n) = false := by
  let state := before (ioTurn m calls goesOn nbyte) s
  have hturn : ∀ k, (state (k + 1)).2.log = (state k).2.log ++ [nextCall calls nbyte (state k)] := by
    intro k
    have hsucc : state (k + 1) = (ioTurn m calls goesOn nbyte (state k)).1 := before_succ k
    rw [hsucc, ((hall k).1.ioTurn_spec calls he).2.1]
  have hlength : ∀ k, (state k).2.log.length = k := by
    intro k
    induction k with
    | zero => exact congrArg List.length hlog
    | succ k ih => rw [hturn, List.length_append, ih, List.length_singleton]
  have hmoved : ∀ k, moved (state (k + 1)).2.log =
      moved (state k).2.log + (nextCall calls nbyte (state k)).result.moved := by
    intro k
    rw [hturn, moved_concat]
  have hmono : Monotone fun k => moved (state k).2.log :=
    monotone_nat_of_le_succ fun k => by
      rw [hmoved]
      exact Nat.le_add_right _ _
  obtain ⟨j, hj⟩ := exists_stays hmono fun k => (hall k).1.le
  -- from turn `j` on the word in `bytes` is the same, so every call is for as much
  have hword : ∀ i, j ≤ i → (state i).1 = (state j).1 := fun i hi =>
    BitVec.eq_of_toNat_eq (((hall i).1.bytes.trans (hj i hi)).trans (hall j).1.bytes.symm)
  have hgoes : ∀ i, j ≤ i → ends (calls i (nbyte - (state j).1)) = false := by
    intro i hi
    have hnext : ends (calls (state i).2.log.length (nbyte - (state i).1)) = false :=
      (((hall i).1.ioTurn_spec calls he).2.2.mp (hall i).2).1
    rwa [hlength, hword i hi] at hnext
  have hnothing : ∀ i, j ≤ i → (calls i (nbyte - (state j).1)).moved = 0 := by
    intro i hi
    have hstay : moved (state (i + 1)).2.log = moved (state i).2.log :=
      (hj (i + 1) (Nat.le_succ_of_le hi)).trans (hj i hi).symm
    have hnext : (calls (state i).2.log.length (nbyte - (state i).1)).moved = 0 :=
      Nat.add_eq_left.mp ((hmoved i).symm.trans hstay)
    rwa [hlength, hword i hi] at hnext
  have heof : ∀ i, j ≤ i → calls i (nbyte - (state j).1) = .eof := by
    intro i hi
    have hgo := hgoes i hi
    have hzero := hnothing i hi
    generalize calls i (nbyte - (state j).1) = r at hgo hzero
    cases r with
    | count k pos le fits => exact absurd hzero (Nat.ne_of_gt pos)
    | eof => rfl
    | error e =>
        rw [he.error] at hgo
        cases hgo
  have hofNat : (state j).1 = .ofNat 64 (moved (state j).2.log) := by
    rw [← (hall j).1.bytes, BitVec.ofNat_toNat, BitVec.setWidth_eq]
  refine ⟨j, ⟨?_, (hall j).1.data, (hall j).1.asks, fun i hi => ?_⟩, nbyte - (state j).1, ?_⟩
  · have hlt := (((hall j).1.ioTurn_spec calls he).2.2.mp (hall j).2).2
    omega
  · rw [← hofNat]
    exact heof i ((hlength j).symm.le.trans hi)
  · have hgo := hgoes j (Nat.le_refl j)
    rwa [heof j (Nat.le_refl j)] at hgo

variable (m calls goesOn nbyte d) in
/-- The state before turn `j`. -/
def stateAt (j : Nat) : Io δ := (before (ioTurn m calls goesOn nbyte) (0, ⟨d, []⟩) j).2

variable (m calls nbyte d) in
/-- **The rule of transfers.** -/
theorem transfer_spec (he : Ending goesOn ends) :
    (∃ r, Returns (transfer goesOn nbyte (issue m calls Result.ret) ⟨d, []⟩) r ∧
        Transfers m nbyte ends d r) ∨
      (∀ fuel, transfer goesOn nbyte (issue m calls Result.ret) ⟨d, []⟩ fuel = none) ∧
        ∃ j, Stalls m calls nbyte d (stateAt m calls goesOn nbyte d j) ∧
          ∃ n : BitVec 64, ends (.eof : Result n) = false := by
  have hrule := doWhile_rule (ioTurn m calls goesOn nbyte) (Inv.start m ends nbyte d)
    fun s h hgo => h.step he hgo
  rcases hrule with ⟨t, ht, hend, hret⟩ | ⟨hnone, hall⟩
  · exact .inl ⟨_, hret, ht.transfers he hend⟩
  · exact .inr ⟨hnone, exists_stalls he rfl hall⟩

/-- The results are those of the calls. -/
def Answers (calls : Calls) (s : BitVec 64 × Io δ) : Prop :=
  ∀ c ∈ s.2.log, ∃ i, c.result = calls i c.asked

/-- They are at the end of the loop. -/
theorem answers_of_transfer {fuel : Nat} {r : BitVec 64 × Io δ}
    (h : transfer goesOn nbyte (issue m calls Result.ret) ⟨d, []⟩ fuel = some r) : Answers calls r := by
  have hstart : Answers calls (0, (⟨d, []⟩ : Io δ)) := fun c hc => absurd hc List.not_mem_nil
  refine doWhile_keeps (fun s hs c hc => ?_) hstart h
  have hlog : (turn goesOn nbyte (issue m calls Result.ret) s).1.2.log =
      s.2.log ++ [nextCall calls nbyte s] := by
    rw [turn]
    split <;> rfl
  rw [hlog] at hc
  rcases List.mem_append.mp hc with hc | hc
  · exact hs c hc
  · obtain rfl := List.mem_singleton.mp hc
    exact ⟨_, rfl⟩

end Loop

end Xnd.Transfer
