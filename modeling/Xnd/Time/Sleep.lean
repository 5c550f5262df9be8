import Mathlib.Algebra.Order.Group.Int
import Mathlib.Tactic.Common

/-!
# Sleeping

The hooks of `sleep`, `usleep` and `nanosleep`: a process waits in `select`, without a
descriptor, and the time that is left is the request less what the clock says.

A `long` is an integer here, since all is about requests whose nanoseconds fit into one.  The
division of the source goes towards zero.
-/
namespace Xnd.Time

/-- `NSEC_PER_SEC`. -/
abbrev nsecPerSec : Int := 1000000000

/-- `NSEC_PER_USEC`. -/
abbrev nsecPerUsec : Int := 1000

/-- `USEC_PER_SEC`. -/
abbrev usecPerSec : Int := 1000000

structure Timeval where
  tvSec : Int
  tvUsec : Int
  deriving DecidableEq, Repr

/-- `TIMEVAL_TO_USEC`. -/
def Timeval.toUsec (t : Timeval) : Int := t.tvSec * usecPerSec + t.tvUsec

structure Timespec where
  tvSec : Int
  tvNsec : Int
  deriving DecidableEq, Repr

namespace Timespec

/-- `TIMESPEC_TO_NSEC`. -/
def toNsec (t : Timespec) : Int := t.tvSec * nsecPerSec + t.tvNsec

/-- `TIMESPEC_NSEC_DIFF`. -/
def nsecDiff (stop start : Timespec) : Int := stop.toNsec - start.toNsec

/-- `TIMESPEC_TO_TIMEVAL`. -/
def toTimeval (t : Timespec) : Timeval := ⟨t.tvSec, t.tvNsec.tdiv nsecPerUsec⟩

/-- Nanoseconds, taken apart by `/` and `%`. -/
def ofNsec (nsec : Int) : Timespec := ⟨nsec.tdiv nsecPerSec, nsec.tmod nsecPerSec⟩

end Timespec

inductive Errno where
  | eintr | einval | other
  deriving DecidableEq, Repr

/-- What a call of `nanosleep` meets: the error of `select`, unless it returns 0, and the
clock before and after it. -/
structure Meets where
  select : Option Errno
  start : Timespec
  stop : Timespec
  deriving DecidableEq, Repr

/-- The time that goes by in `select`. -/
def Meets.elapsed (w : Meets) : Int := w.stop.nsecDiff w.start

/-- What a call of `nanosleep` comes to: the error, unless it returns 0, the timeout that
`select` was called with, and the remainder, if it was asked for. -/
structure Slept where
  err : Option Errno
  timeout : Option Timeval
  rmtp : Option Timespec
  deriving DecidableEq, Repr

/-- `__nanosleep_hook`. -/
def nanosleepHook (rqtp : Timespec) (rmtp : Option Timespec) (w : Meets) : Slept :=
  let rq := rqtp.toNsec
  if rq < 0 ∨ 100000000 ≤ rq then ⟨some .einval, none, rmtp⟩
  else
    { err := w.select
      timeout := some rqtp.toTimeval
      rmtp := if w.select = some .eintr then rmtp.map fun _ => .ofNsec (rq - w.elapsed) else rmtp }

/-- `__sleep_hook`: the value it returns, and what its call of `nanosleep` comes to. -/
def sleepHook (seconds : BitVec 32) (w : Meets) : BitVec 32 × Slept :=
  let s := nanosleepHook ⟨seconds.toNat, 0⟩ (some ⟨0, 0⟩) w
  (if s.err ≠ none then .ofInt 32 (s.rmtp.getD ⟨0, 0⟩).tvSec else 0, s)

/-- `__usleep_hook`. -/
def usleepHook (usec : BitVec 32) (w : Meets) : Slept :=
  nanosleepHook (.ofNsec (usec.toNat * nsecPerUsec)) (some ⟨0, 0⟩) w

/-! ## What is to hold -/

/-- A request that may be made. -/
structure Timespec.Valid (t : Timespec) : Prop where
  sec : 0 ≤ t.tvSec
  nsec : 0 ≤ t.tvNsec ∧ t.tvNsec < nsecPerSec
  fits : t.toNsec < 2 ^ 63

/-- **A request is handed to `select`**, and where this is interrupted there is a remainder
between 0 and the request. -/
structure Served (rqtp : Timespec) (rmtp : Option Timespec) (w : Meets) : Prop where
  timeout : (nanosleepHook rqtp rmtp w).timeout = some rqtp.toTimeval
  remainder : ∀ r, w.select = some .eintr → (nanosleepHook rqtp rmtp w).rmtp = some r →
    r.Valid ∧ r.toNsec ≤ rqtp.toNsec

/-- **`sleep` returns 0** only when a timeout of all the seconds was asked for, and never more
than the seconds. -/
structure SleepServed (seconds : BitVec 32) (w : Meets) : Prop where
  covered : (sleepHook seconds w).1 = 0 → ∃ tv, (sleepHook seconds w).2.timeout = some tv ∧
    seconds.toNat * usecPerSec ≤ tv.toUsec
  le : (sleepHook seconds w).1 ≤ seconds

/-- **`usleep` is not refused**: it does not fail with `EINVAL` before `select` is called. -/
def UsleepServed (usec : BitVec 32) (w : Meets) : Prop :=
  ¬ ((usleepHook usec w).err = some .einval ∧ (usleepHook usec w).timeout = none)

section Spec
variable {rqtp : Timespec} {rmtp : Option Timespec} {w : Meets}

theorem nanosleepHook_refused (h : 100000000 ≤ rqtp.toNsec) :
    nanosleepHook rqtp rmtp w = ⟨some .einval, none, rmtp⟩ := if_pos (.inr h)

theorem nanosleepHook_taken (h : 0 ≤ rqtp.toNsec) (hlt : rqtp.toNsec < 100000000) :
    nanosleepHook rqtp rmtp w = ⟨w.select, some rqtp.toTimeval, if w.select = some .eintr then
      rmtp.map fun _ => .ofNsec (rqtp.toNsec - w.elapsed) else rmtp⟩ :=
  if_neg (by omega)

theorem toNsec_ofNsec (nsec : Int) : (Timespec.ofNsec nsec).toNsec = nsec :=
  (Int.mul_comm _ _ ▸ Int.mul_tdiv_add_tmod nsec nsecPerSec :)

theorem Timespec.Valid.toNsec_nonneg (h : rqtp.Valid) : 0 ≤ rqtp.toNsec := by
  have hsec : 0 ≤ rqtp.tvSec := h.sec
  have hnsec : 0 ≤ rqtp.tvNsec := h.nsec.1
  show 0 ≤ rqtp.tvSec * 1000000000 + rqtp.tvNsec
  omega

/-- Nanoseconds are taken apart as they are to be when there is no sign. -/
theorem valid_ofNsec_iff {nsec : Int} (hfits : nsec < 2 ^ 63) :
    (Timespec.ofNsec nsec).Valid ↔ 0 ≤ nsec := by
  constructor
  · intro h
    rw [← toNsec_ofNsec nsec]
    exact h.toNsec_nonneg
  · intro h
    refine ⟨Int.tdiv_nonneg h (by decide), ⟨Int.tmod_nonneg _ h, ?_⟩, ?_⟩
    · exact Int.tmod_lt_of_pos _ (by decide)
    · rwa [toNsec_ofNsec]

theorem served_nanosleep_iff (hrq : rqtp.Valid) (hclock : 0 ≤ w.elapsed) :
    Served rqtp rmtp w ↔ rqtp.toNsec < 100000000 ∧
      (w.select = some .eintr → rmtp ≠ none → w.elapsed ≤ rqtp.toNsec) := by
  have hfits : rqtp.toNsec - w.elapsed < 2 ^ 63 := by
    have := hrq.fits
    omega
  by_cases hlt : rqtp.toNsec < 100000000
  · have hcall : nanosleepHook rqtp rmtp w = _ := nanosleepHook_taken hrq.toNsec_nonneg hlt
    refine ⟨fun h => ⟨hlt, fun hintr hasked => ?_⟩, fun h => ⟨by rw [hcall], ?_⟩⟩
    · obtain ⟨old, rfl⟩ := Option.ne_none_iff_exists'.mp hasked
      have hvalid := (h.remainder (.ofNsec (rqtp.toNsec - w.elapsed)) hintr
        (by rw [hcall, if_pos hintr]; rfl)).1
      have hpos := (valid_ofNsec_iff hfits).mp hvalid
      omega
    · intro r hintr hr
      rw [hcall] at hr
      simp only [if_pos hintr, Option.map_eq_some_iff] at hr
      obtain ⟨old, rfl, rfl⟩ := hr
      have hle := h.2 hintr nofun
      refine ⟨(valid_ofNsec_iff hfits).mpr (by omega), ?_⟩
      rw [toNsec_ofNsec]
      omega
  · refine ⟨fun h => ?_, fun h => absurd h.1 hlt⟩
    have htimeout := h.timeout
    rw [nanosleepHook_refused (Int.not_lt.mp hlt)] at htimeout
    cases htimeout

/-- Seconds that are no more than there is a sign for. -/
theorem ofInt_neg_eq_zero_iff (secs : Int) :
    BitVec.ofInt 32 (-secs) = 0 ↔ secs % 2 ^ 32 = 0 := by
  rw [← BitVec.toNat_inj, BitVec.toNat_ofInt]
  show ((-secs) % (2 ^ 32 : Nat)).toNat = 0 ↔ _
  omega

theorem served_sleep_iff (seconds : BitVec 32) (hclock : 0 ≤ w.elapsed) :
    SleepServed seconds w ↔ seconds = 0 ∧
      (w.select = some .eintr → w.elapsed / nsecPerSec % 2 ^ 32 = 0) := by
  by_cases hzero : seconds = 0
  · subst hzero
    have hcall := @nanosleepHook_taken ⟨(0 : BitVec 32).toNat, 0⟩ (some ⟨0, 0⟩) w
      (by decide) (by decide)
    have hrq : (Timespec.mk (0 : BitVec 32).toNat 0).toNsec = 0 := rfl
    have hsec : (0 - w.elapsed).tdiv nsecPerSec = -(w.elapsed / nsecPerSec) := by
      rw [Int.zero_sub, Int.neg_tdiv, Int.tdiv_eq_ediv_of_nonneg hclock]
    have htimeout : (sleepHook 0 w).2.timeout = some ⟨0, 0⟩ := by
      rw [sleepHook, hcall]
      rfl
    have hserved : SleepServed 0 w ↔ (sleepHook 0 w).1 = 0 := by
      refine ⟨fun h => BitVec.le_zero_iff.mp h.le, fun h => ⟨fun _ => ⟨_, htimeout, by decide⟩, ?_⟩⟩
      exact BitVec.le_zero_iff.mpr h
    have hret : (sleepHook 0 w).1 = if w.select = some .eintr then
        .ofInt 32 (-(w.elapsed / nsecPerSec)) else 0 := by
      rw [sleepHook, hcall, hrq]
      cases w.select with
      | none => rfl
      | some e =>
          cases e with
          | eintr => exact congrArg (BitVec.ofInt 32) hsec
          | einval | other => rfl
    rw [hserved, hret]
    by_cases hintr : w.select = some .eintr
    · rw [if_pos hintr, ofInt_neg_eq_zero_iff]
      exact ⟨fun h => ⟨rfl, fun _ => h⟩, fun h => h.2 hintr⟩
    · rw [if_neg hintr]
      exact ⟨fun _ => ⟨rfl, fun h => absurd h hintr⟩, fun _ => rfl⟩
  · have hpos : seconds.toNat ≠ 0 := fun h => hzero (BitVec.eq_of_toNat_eq h)
    have hlarge : 100000000 ≤ (Timespec.mk seconds.toNat 0).toNsec := by
      show (100000000 : Int) ≤ seconds.toNat * 1000000000 + 0
      omega
    have hrefused := @nanosleepHook_refused _ (some ⟨0, 0⟩) w hlarge
    refine ⟨fun h => ?_, fun h => absurd h.1 hzero⟩
    obtain ⟨tv, htv, -⟩ := h.covered (by rw [sleepHook, hrefused]; rfl)
    rw [sleepHook, hrefused] at htv
    cases htv

theorem served_usleep_iff (usec : BitVec 32) : UsleepServed usec w ↔ usec.toNat < 100000 := by
  have htotal : (Timespec.ofNsec (usec.toNat * nsecPerUsec)).toNsec = usec.toNat * 1000 :=
    toNsec_ofNsec _
  by_cases hlt : usec.toNat < 100000
  · refine ⟨fun _ => hlt, fun _ h => ?_⟩
    have hnone := h.2
    rw [usleepHook, nanosleepHook_taken (by omega) (by omega)] at hnone
    cases hnone
  · refine ⟨fun h => absurd ?_ h, fun h => absurd h hlt⟩
    rw [usleepHook, nanosleepHook_refused (by omega)]
    exact ⟨rfl, rfl⟩

/-- **The hooks serve their callers exactly when** a request is below 100 milliseconds, the
clock has not gone past it when `select` is interrupted, and it is `sleep` of 0. -/
theorem served_iff (hrq : rqtp.Valid) (hclock : 0 ≤ w.elapsed) (seconds usec : BitVec 32) :
    (Served rqtp rmtp w ↔ rqtp.toNsec < 100000000 ∧
      (w.select = some .eintr → rmtp ≠ none → w.elapsed ≤ rqtp.toNsec)) ∧
    (SleepServed seconds w ↔ seconds = 0 ∧
      (w.select = some .eintr → w.elapsed / nsecPerSec % 2 ^ 32 = 0)) ∧
    (UsleepServed usec w ↔ usec.toNat < 100000) :=
  ⟨served_nanosleep_iff hrq hclock, served_sleep_iff seconds hclock, served_usleep_iff usec⟩

/-- 50 milliseconds, interrupted after 20. -/
theorem served_iff_short :
    (Served ⟨0, 50000000⟩ (some ⟨0, 0⟩) ⟨some .eintr, ⟨7, 0⟩, ⟨7, 20000000⟩⟩ ↔
      (50000000 : Int) < 100000000 ∧ (some Errno.eintr = some .eintr →
        some (Timespec.mk 0 0) ≠ none → (20000000 : Int) ≤ 50000000)) ∧
    (SleepServed 0 ⟨some .eintr, ⟨7, 0⟩, ⟨7, 20000000⟩⟩ ↔ (0 : BitVec 32) = 0 ∧
      (some Errno.eintr = some .eintr → (20000000 : Int) / nsecPerSec % 2 ^ 32 = 0)) ∧
    (UsleepServed 50000 ⟨some .eintr, ⟨7, 0⟩, ⟨7, 20000000⟩⟩ ↔
      (50000 : BitVec 32).toNat < 100000) :=
  served_iff ⟨by decide, by decide, by decide⟩ (by decide) 0 50000

/-- **Requests of 100 milliseconds and of a second are refused**, which `sleep` does not tell;
and what is left is negative when the clock has gone past the request. -/
theorem not_served_long :
    (Timespec.mk 0 100000000).Valid ∧ (∀ rmtp w, ¬ Served ⟨0, 100000000⟩ rmtp w) ∧
    (∀ w, ¬ SleepServed 1 w ∧ (sleepHook 1 w).1 = 0) ∧
    (∀ w, ¬ UsleepServed 100000 w) ∧
    ¬ Served ⟨0, 50000000⟩ (some ⟨0, 0⟩) ⟨some .eintr, ⟨7, 0⟩, ⟨7, 60000000⟩⟩ := by
  refine ⟨⟨by decide, by decide, by decide⟩, fun rmtp w h => ?_, fun w => ⟨fun h => ?_, rfl⟩,
    fun w h => h ⟨rfl, rfl⟩, fun h => ?_⟩
  · cases h.timeout
  · obtain ⟨tv, htv, -⟩ := h.covered rfl
    cases htv
  · have hneg := (h.remainder ⟨0, -10000000⟩ rfl rfl).1.nsec.1
    exact absurd hneg (by decide)

end Spec
end Xnd.Time
