import WasiLibc.Futex.Atomic

/-!
# WasiLibc.Time.Nanosleep

Waiting until an instant of the realtime clock.  The hosts of wasip2 and wasip3
wait on the monotonic clock only, so the time that is left is computed, twice:
`clock_nanosleep` subtracts signed numbers and cuts off what is negative, and
`wait_timeout` compares first and then subtracts unsigned numbers that may wrap
around.

`realtime_deadlines_saturate`: both ask for the exact difference, cut at the
largest `uint64_t`.
-/

namespace WasiLibc.Time

open Futex
open Futex.Atomic (toInt64)

/-- The targets whose hosts wait on the monotonic clock. -/
inductive Target where
  | wasip2
  | wasip3
  deriving DecidableEq, Repr

/-- The clocks of the host. -/
structure Clocks where
  monotonic : BitVec 64
  /-- `wall_clock_now` and `system_clock_now`. -/
  realtime : Instant

def CLOCKID_REALTIME : Int := 0
def CLOCKID_MONOTONIC : Int := 1

def TIMER_ABSTIME : BitVec 32 := 1

/-! ## `clock_nanosleep` -/

/-- `timestamp_to_timespec`: seconds and nanoseconds.  The seconds of wasip2 are
unsigned. -/
def timestampToTimespec : Target → Instant → Int × Int
  | .wasip2, t =>
    if t.seconds > 2 ^ 63 - 1 then (2 ^ 63 - 1, nsecPerSec - 1) else (t.seconds, t.nanoseconds)
  | .wasip3, t => (t.seconds, t.nanoseconds)

/-- `__clock_gettime`. -/
def clockGettime (target : Target) (id : Int) (clocks : Clocks) : Except Errno (Int × Int) :=
  if id = CLOCKID_MONOTONIC then
    .ok (clocks.monotonic.toNat / nsecPerSec, clocks.monotonic.toNat % nsecPerSec)
  else if id = CLOCKID_REALTIME then .ok (timestampToTimespec target clocks.realtime)
  else .error .EINVAL

/-- `rel`: the time from `now` to `at_`. -/
def relative (at_ : Timespec) (now : Int × Int) : Int × Int :=
  let sec := toInt64 (at_.tvSec - now.1)
  let nsec := at_.tvNsec.toInt - now.2
  let (sec, nsec) := if nsec < 0 then (toInt64 (sec - 1), nsec + 1000000000) else (sec, nsec)
  if sec < 0 then (0, 0) else (sec, nsec)

/-- `clock_nanosleep`, with the clocks that it finds: an error, or what the host
is asked to wait for.  On wasip2 this is a pollable of the monotonic clock. -/
def clockNanosleep (target : Target) (id : Int) (flags : BitVec 32) (rqtp : Timespec)
    (clocks : Clocks) : Except Errno Sleep :=
  if flags &&& ~~~TIMER_ABSTIME ≠ 0 then .error .EINVAL
  else if rqtp.tvNsec.toInt ≥ 1000000000 ∨ rqtp.tvNsec.toInt < 0 ∨ rqtp.tvSec < 0 then
    .error .EINVAL
  else if id ≠ CLOCKID_MONOTONIC ∧ flags &&& TIMER_ABSTIME ≠ 0 then
    match clockGettime target id clocks with
    | .error e => .error e
    | .ok now => .ok (.waitFor (clampU64 (relative rqtp now).1 (relative rqtp now).2))
  else if flags &&& TIMER_ABSTIME ≠ 0 then
    .ok (.waitUntil (clampU64 rqtp.tvSec rqtp.tvNsec.toInt))
  else .ok (.waitFor (clampU64 rqtp.tvSec rqtp.tvNsec.toInt))

/-! ## The time that is left -/

/-- The nanoseconds from `now` to `at_`. -/
def left (at_ : Timespec) (now : Instant) : Int :=
  (at_.tvSec - now.seconds) * nsecPerSec + (at_.tvNsec.toInt - now.nanoseconds)

/-- A value that fits into 64 bits, or the largest one. -/
def saturate (n : Int) : Nat := (min n (2 ^ 64 - 1)).toNat

/-- `tv_nsec` is in order, and `tv_sec` is a `time_t`. -/
structure Deadline (at_ : Timespec) : Prop where
  sec : -2 ^ 63 ≤ at_.tvSec ∧ at_.tvSec < 2 ^ 63
  nsec : 0 ≤ at_.tvNsec.toInt ∧ at_.tvNsec.toInt < nsecPerSec

/-- An instant that the host of the target can report: the seconds are a `u64`
on wasip2, and an `s64` on wasip3. -/
structure Reported (target : Target) (now : Instant) : Prop where
  seconds : match target with
    | .wasip2 => 0 ≤ now.seconds ∧ now.seconds < 2 ^ 64
    | .wasip3 => -2 ^ 63 ≤ now.seconds ∧ now.seconds < 2 ^ 63
  nanoseconds : 0 ≤ now.nanoseconds ∧ now.nanoseconds < nsecPerSec

theorem clampU64_eq_saturate {sec nsec : Int} (hnsec : 0 ≤ nsec) :
    clampU64 sec nsec = saturate (sec * nsecPerSec + nsec) := by
  unfold clampU64 saturate
  split <;> omega

theorem toInt64_of_range {n : Int} (h : -2 ^ 63 ≤ n ∧ n < 2 ^ 63) : toInt64 n = n :=
  Int.bmod_eq_of_le (by omega) (by omega)

variable {at_ : Timespec} {now : Instant}

/-- The unsigned subtraction wraps around, and the borrow is right. -/
theorem realtimeDelta_eq (hat : Deadline at_)
    (hnow : Reported .wasip3 now) (hlater : 0 < left at_ now) :
    realtimeDelta ⟨at_.tvSec, at_.tvNsec.toInt⟩ now = saturate (left at_ now) := by
  obtain ⟨hsec, hnsec⟩ := hat
  obtain ⟨hseconds, hnanoseconds⟩ := hnow
  unfold left nsecPerSec at *
  simp only at hseconds
  generalize at_.tvNsec.toInt = nsec at *
  unfold realtimeDelta
  simp only
  split
  case isTrue hborrow =>
    rw [clampU64_eq_saturate (by unfold nsecPerSec; omega)]
    congr 1
    unfold nsecPerSec
    omega
  case isFalse hborrow =>
    rw [clampU64_eq_saturate (by omega)]
    congr 1
    unfold nsecPerSec
    omega

/-- The signed subtraction does not overflow, the borrow is right, and what is
negative is cut off. -/
theorem clampU64_relative (hat : Deadline at_)
    (hsec : 0 ≤ at_.tvSec) (hseconds : 0 ≤ now.seconds ∧ now.seconds < 2 ^ 63)
    (hnanoseconds : 0 ≤ now.nanoseconds ∧ now.nanoseconds < nsecPerSec) :
    clampU64 (relative at_ (now.seconds, now.nanoseconds)).1
        (relative at_ (now.seconds, now.nanoseconds)).2 =
      saturate (max 0 (left at_ now)) := by
  obtain ⟨hrange, hnsec⟩ := hat
  unfold relative left nsecPerSec at *
  generalize at_.tvNsec.toInt = nsec at *
  simp only
  have hsub : toInt64 (at_.tvSec - now.seconds) = at_.tvSec - now.seconds :=
    toInt64_of_range (by omega)
  have hpred : toInt64 (at_.tvSec - now.seconds - 1) = at_.tvSec - now.seconds - 1 :=
    toInt64_of_range (by omega)
  rw [hsub, hpred]
  by_cases hborrow : nsec - now.nanoseconds < 0
  · rw [if_pos hborrow]
    by_cases hpast : at_.tvSec - now.seconds - 1 < 0
    · rw [if_pos hpast, clampU64_eq_saturate (le_refl 0)]
      congr 1
      omega
    · rw [if_neg hpast, clampU64_eq_saturate (by omega)]
      congr 1
      unfold nsecPerSec
      omega
  · rw [if_neg hborrow]
    by_cases hpast : at_.tvSec - now.seconds < 0
    · rw [if_pos hpast, clampU64_eq_saturate (le_refl 0)]
      congr 1
      omega
    · rw [if_neg hpast, clampU64_eq_saturate (by omega)]
      congr 1
      unfold nsecPerSec
      omega

/-- The clock of wasip2 may be cut at the largest `time_t`, but no deadline is
later than that. -/
theorem clampU64_relative_timestamp {target : Target}
    (hat : Deadline at_) (hnow : Reported target now) (hsec : 0 ≤ at_.tvSec)
    (hseconds : 0 ≤ now.seconds) :
    clampU64 (relative at_ (timestampToTimespec target now)).1
        (relative at_ (timestampToTimespec target now)).2 =
      saturate (max 0 (left at_ now)) := by
  cases target with
  | wasip3 => exact clampU64_relative hat hsec ⟨hseconds, hnow.seconds.2⟩ hnow.nanoseconds
  | wasip2 =>
    simp only [timestampToTimespec]
    by_cases hcut : now.seconds > 2 ^ 63 - 1
    · have hpassed : left at_ now ≤ 0 ∧ left at_ ⟨2 ^ 63 - 1, nsecPerSec - 1⟩ ≤ 0 := by
        have := hat.sec
        have := hat.nsec
        have := hnow.nanoseconds
        simp only [left, nsecPerSec] at *
        omega
      rw [if_pos hcut, max_eq_left hpassed.1, ← max_eq_left hpassed.2]
      exact @clampU64_relative at_ ⟨2 ^ 63 - 1, nsecPerSec - 1⟩ hat hsec (by decide) (by decide)
    · rw [if_neg hcut]
      exact clampU64_relative hat hsec ⟨hseconds, by omega⟩ hnow.nanoseconds

/-! ## Both waits -/

/-- What `wait_timeout` does when it is to wait until an instant of the realtime
clock. -/
theorem waitTimeoutSleep_realtime {flags : BitVec 32}
    (hflags : isAbsolute flags = true) (hat : Deadline at_) (hnow : Reported .wasip3 now) :
    waitTimeoutSleep .realtime at_ flags now =
      if 0 < left at_ now then .ok (.waitFor (saturate (left at_ now))) else .error .ETIMEDOUT := by
  have hnsec : ¬ (at_.tvNsec.toInt < 0 ∨ at_.tvNsec.toInt ≥ nsecPerSec) := by
    have := hat.nsec
    omega
  have hpassed : (at_.tvSec < now.seconds ∨
      at_.tvSec = now.seconds ∧ at_.tvNsec.toInt ≤ now.nanoseconds) ↔ ¬ 0 < left at_ now := by
    have := hat.nsec
    have := hnow.nanoseconds
    unfold left nsecPerSec at *
    omega
  unfold waitTimeoutSleep timespecToTimestampClamp
  simp only [reduceCtorEq, hflags, not_true_eq_false, or_self, if_false, if_neg hnsec, hpassed]
  by_cases hlater : 0 < left at_ now
  · rw [if_neg (not_not.mpr hlater), if_pos hlater, realtimeDelta_eq hat hnow hlater]
  · rw [if_pos hlater, if_neg hlater]

/-- What `clock_nanosleep` does when it is to wait until an instant of the
realtime clock. -/
theorem clockNanosleep_realtime {target : Target} {clocks : Clocks}
    (hat : Deadline at_) (hnow : Reported target clocks.realtime) (hsec : 0 ≤ at_.tvSec)
    (hseconds : 0 ≤ clocks.realtime.seconds) :
    clockNanosleep target CLOCKID_REALTIME TIMER_ABSTIME at_ clocks =
      .ok (.waitFor (saturate (max 0 (left at_ clocks.realtime)))) := by
  have hvalid : ¬ (at_.tvNsec.toInt ≥ 1000000000 ∨ at_.tvNsec.toInt < 0 ∨ at_.tvSec < 0) := by
    have := hat.nsec
    unfold nsecPerSec at this
    omega
  unfold clockNanosleep
  rw [if_neg (by decide), if_neg hvalid, if_pos (by decide)]
  simp only [clockGettime, if_neg (by decide : ¬ CLOCKID_REALTIME = CLOCKID_MONOTONIC), if_true,
    clampU64_relative_timestamp hat hnow hsec hseconds]

/-- **A wait for an instant of the realtime clock lasts for the exact difference,
cut at the largest `uint64_t`.**  The cooperative wait reports a timeout when
the instant has passed, whatever the sign of the seconds, and the sleep then
asks for no time. -/
theorem realtime_deadlines_saturate (at_ : Timespec) (now : Instant) (hat : Deadline at_) :
    (∀ flags, isAbsolute flags = true → Reported .wasip3 now →
      waitTimeoutSleep .realtime at_ flags now =
        if 0 < left at_ now then .ok (.waitFor (saturate (left at_ now)))
        else .error .ETIMEDOUT) ∧
    ∀ target monotonic, Reported target now → 0 ≤ at_.tvSec → 0 ≤ now.seconds →
      clockNanosleep target CLOCKID_REALTIME TIMER_ABSTIME at_ ⟨monotonic, now⟩ =
        .ok (.waitFor (if 0 < left at_ now then saturate (left at_ now) else 0)) := by
  refine ⟨fun flags hflags hnow => waitTimeoutSleep_realtime hflags hat hnow,
    fun target monotonic hnow hsec hseconds => ?_⟩
  rw [clockNanosleep_realtime hat hnow hsec hseconds]
  by_cases hlater : 0 < left at_ now
  · rw [if_pos hlater, max_eq_right hlater.le]
  · rw [if_neg hlater, max_eq_left (not_lt.mp hlater)]
    rfl

/-- From the least `int64_t` to the largest there are more nanoseconds than a
`uint64_t` can tell. -/
theorem realtime_deadlines_saturate_extremes :
    waitTimeoutSleep .realtime ⟨2 ^ 63 - 1, 0⟩ FUTEX_TIMESPEC_ABSOLUTE ⟨-2 ^ 63, 0⟩ =
        .ok (.waitFor (2 ^ 64 - 1)) ∧
      clockNanosleep .wasip2 CLOCKID_REALTIME TIMER_ABSTIME ⟨7, 1⟩ ⟨0, 5, 999999999⟩ =
        .ok (.waitFor 1000000002) :=
  ⟨(realtime_deadlines_saturate ⟨2 ^ 63 - 1, 0⟩ ⟨-2 ^ 63, 0⟩ ⟨by decide, by decide⟩).1
      FUTEX_TIMESPEC_ABSOLUTE (by decide) ⟨by decide, by decide⟩,
    (realtime_deadlines_saturate ⟨7, 1⟩ ⟨5, 999999999⟩ ⟨by decide, by decide⟩).2 .wasip2 0
      ⟨by decide, by decide⟩ (by decide) (by decide)⟩

end WasiLibc.Time
