import WasiLibc.Futex.Calls

/-!
# WasiLibc.Futex.Atomic

`__wasilibc_futex_wait` of wasi-threads, on top of the instruction
`memory.atomic.wait32`.  The instruction takes a signed number of
nanoseconds and waits without end if it is negative, so it matters that the
number is computed in `int64_t`.

`futexWait_timely_iff`: the wait is as long as asked for, cut at the largest
`int64_t`, exactly when nothing overflows, or an overflow happens to give
the right number.
-/

namespace WasiLibc.Futex.Atomic

/-- The value of an `int64_t`. -/
def toInt64 (n : Int) : Int := Int.bmod n (2 ^ 64)

/-- `timestamp_to_timespec`: seconds and nanoseconds. -/
def timestampToTimespec (ts : BitVec 64) : Int × Int :=
  (ts.toNat / nsecPerSec, ts.toNat % nsecPerSec)

/-- The time until a deadline, as `max_wait_ns`. -/
def maxWaitUntil (at_ : Timespec) (now : BitVec 64) : Except Errno Int :=
  let (nowSec, nowNsec) := timestampToTimespec now
  let sec := toInt64 (at_.tvSec - nowSec)
  let nsec := at_.tvNsec.toInt - nowNsec
  let (sec, nsec) := if nsec < 0 then (toInt64 (sec - 1), nsec + nsecPerSec) else (sec, nsec)
  if sec < 0 then .error .ETIMEDOUT
  else .ok (toInt64 (sec * nsecPerSec + nsec))

/-- `max_wait_ns`, or the error to return.  `clock` is the answer of the
clock. -/
def maxWaitNs (at_ : Option Timespec) (flags : BitVec 32) (clock : Option (BitVec 64)) :
    Except Errno Int :=
  match at_ with
  | none => .ok (-1)
  | some at_ =>
    -- the first comparison is one of unsigned numbers
    if at_.tvNsec.toNat ≥ 1000000000 then .error .EINVAL
    else if at_.tvNsec.toInt < 0 then .error .EINVAL
    else if isAbsolute flags then
      match clock with
      | none => .error .EINVAL
      | some now => maxWaitUntil at_ now
    else if at_.tvSec < 0 then .error .EINVAL
    else .ok (toInt64 (at_.tvSec * nsecPerSec + at_.tvNsec.toInt))

/-- How `memory.atomic.wait32` ends. -/
inductive WaitResult where
  | ok
  | notEqual
  | timedOut
  deriving DecidableEq, Repr

/-- `__wasilibc_futex_wait_atomic_wait`, after the instruction. -/
def futexWaitAtomicWait : WaitResult → Rc
  | .ok => .zero
  | .notEqual => .neg .EWOULDBLOCK
  | .timedOut => .neg .ETIMEDOUT

/-- What a call comes to: it returns at once, or executes the instruction. -/
inductive Outcome where
  | returns (rc : Rc)
  | waits (maxWaitNs : Int)
  deriving DecidableEq, Repr

/-- What the call returns, if the instruction ends. -/
def Outcome.rc (wait : Int → WaitResult) : Outcome → Rc
  | .returns rc => rc
  | .waits ns => futexWaitAtomicWait (wait ns)

/-- `__wasilibc_futex_wait`; `word` is the value at the address. -/
def futexWait (args : WaitArgs) (word : Int) (clock : Option (BitVec 64)) : Outcome :=
  if args.flags &&& ~~~FUTEX_TIMESPEC_ABSOLUTE ≠ 0 then .returns (.neg .EINVAL)
  else if args.addr % 4 ≠ 0 then .returns (.neg .EINVAL)
  else if word ≠ args.val then .returns (.neg .EWOULDBLOCK)
  else
    match maxWaitNs args.at_ args.flags clock with
    | .error e => .returns (.neg e)
    | .ok ns => .waits ns

/-! ## Deadlines -/

/-- A call that passes the checks, with the time `at_`; `now` is the time of
the clock, which is read for an absolute time. -/
structure Accepted (args : WaitArgs) (word : Int) (at_ : Timespec) : Prop where
  flags : args.flags &&& ~~~FUTEX_TIMESPEC_ABSOLUTE = 0
  aligned : args.addr % 4 = 0
  word : word = args.val
  time : args.at_ = some at_
  /-- `tv_sec` is a `time_t`. -/
  sec : -2 ^ 63 ≤ at_.tvSec ∧ at_.tvSec < 2 ^ 63
  nsec : 0 ≤ at_.tvNsec.toInt ∧ at_.tvNsec.toInt < nsecPerSec
  relative : isAbsolute args.flags = false → 0 ≤ at_.tvSec

/-- The nanoseconds until the deadline. -/
def remaining (args : WaitArgs) (at_ : Timespec) (now : BitVec 64) : Int :=
  at_.tvSec * nsecPerSec + at_.tvNsec.toInt - if isAbsolute args.flags then now.toNat else 0

/-- The call waits as long as there is time, or as long as can be told, and
does not give up before the deadline. -/
def Timely (left : Int) : Outcome → Prop
  | .waits ns => 0 ≤ ns ∧ ns = min (max left 0) (2 ^ 63 - 1)
  | .returns rc => rc = .neg .ETIMEDOUT ∧ left < 0

variable {args : WaitArgs} {word : Int} {at_ : Timespec} {now : BitVec 64}

/-- The sum does not depend on a carry out of the seconds. -/
theorem toInt64_seconds (sec nsec : Int) :
    toInt64 (toInt64 sec * nsecPerSec + nsec) = toInt64 (sec * nsecPerSec + nsec) := by
  unfold toInt64
  rw [← Int.bmod_add_bmod, Int.bmod_mul_bmod, Int.bmod_add_bmod]

theorem toInt64_pred (sec : Int) : toInt64 (toInt64 sec - 1) = toInt64 (sec - 1) := by
  unfold toInt64
  rw [Int.bmod_sub_bmod]

/-- The borrow of the code is a division with remainder. -/
theorem maxWaitUntil_eq (hnsec : 0 ≤ at_.tvNsec.toInt ∧ at_.tvNsec.toInt < nsecPerSec) :
    maxWaitUntil at_ now =
      if toInt64 ((at_.tvSec * nsecPerSec + at_.tvNsec.toInt - now.toNat) / nsecPerSec) < 0 then
        .error .ETIMEDOUT
      else .ok (toInt64 (at_.tvSec * nsecPerSec + at_.tvNsec.toInt - now.toNat)) := by
  unfold maxWaitUntil timestampToTimespec
  generalize at_.tvNsec.toInt = nsec at *
  generalize at_.tvSec = sec at *
  generalize (now.toNat : Int) = now at *
  unfold nsecPerSec at *
  simp only
  split
  case isTrue hborrow =>
    have hdiv : (sec * 1000000000 + nsec - now) / 1000000000 = sec - now / 1000000000 - 1 := by omega
    have hsum : (sec - now / 1000000000 - 1) * 1000000000 + (nsec - now % 1000000000 + 1000000000) =
        sec * 1000000000 + nsec - now := by omega
    have hcarry := toInt64_seconds (sec - now / 1000000000 - 1)
      (nsec - now % 1000000000 + 1000000000)
    unfold nsecPerSec at hcarry
    rw [toInt64_pred, hdiv, hcarry, hsum]
  case isFalse hborrow =>
    have hdiv : (sec * 1000000000 + nsec - now) / 1000000000 = sec - now / 1000000000 := by omega
    have hsum : (sec - now / 1000000000) * 1000000000 + (nsec - now % 1000000000) =
        sec * 1000000000 + nsec - now := by omega
    have hcarry := toInt64_seconds (sec - now / 1000000000) (nsec - now % 1000000000)
    unfold nsecPerSec at hcarry
    rw [hdiv, hcarry, hsum]

/-- What an accepted call comes to. -/
theorem futexWait_eq (h : Accepted args word at_) :
    futexWait args word (some now) =
      if toInt64 (remaining args at_ now / nsecPerSec) < 0 ∧ isAbsolute args.flags then
        .returns (.neg .ETIMEDOUT)
      else .waits (toInt64 (remaining args at_ now)) := by
  have hnsec : ¬ at_.tvNsec.toNat ≥ 1000000000 := by
    have := h.nsec
    unfold nsecPerSec at this
    rw [BitVec.toInt_eq_toNat_cond] at this
    split at this <;> omega
  have hneg : ¬ at_.tvNsec.toInt < 0 := by
    have := h.nsec
    omega
  unfold futexWait
  rw [if_neg (not_not.mpr h.flags), if_neg (not_not.mpr h.aligned), if_neg (not_not.mpr h.word)]
  simp only [maxWaitNs, h.time, if_neg hnsec, if_neg hneg, remaining]
  by_cases habs : isAbsolute args.flags = true
  · simp only [habs, if_true, maxWaitUntil_eq h.nsec, and_true]
    by_cases hpast : toInt64
        ((at_.tvSec * nsecPerSec + at_.tvNsec.toInt - now.toNat) / nsecPerSec) < 0
    · rw [if_pos hpast, if_pos hpast]
    · rw [if_neg hpast, if_neg hpast]
  · have hsec := h.relative (by simpa using habs)
    simp [habs, not_lt.mpr hsec]

/-- The number of nanoseconds that is left lies in the range of `int64_t`,
its seconds in that of `time_t`; or the overflow of the one gives the
largest number, that of the other none. -/
def Representable (left : Int) : Prop :=
  (-2 ^ 63 * nsecPerSec ≤ left ∧ left < 2 ^ 63) ∨
    (2 ^ 63 ≤ left ∧ left % 2 ^ 64 = 2 ^ 63 - 1) ∨
    (left < -2 ^ 63 * nsecPerSec ∧ left % 2 ^ 64 = 0)

theorem timely_waits_iff {left : Int} :
    Timely left (.waits (toInt64 left)) ↔
      (0 ≤ left ∧ left < 2 ^ 63) ∨ (2 ^ 63 ≤ left ∧ left % 2 ^ 64 = 2 ^ 63 - 1) ∨
        (left < 0 ∧ left % 2 ^ 64 = 0) := by
  simp only [Timely, toInt64, Int.bmod_def]
  omega

/-- An accepted call waits until its deadline, or as long as can be told,
exactly when the time that is left is representable. -/
theorem futexWait_timely_iff (h : Accepted args word at_) (now : BitVec 64) :
    Timely (remaining args at_ now) (futexWait args word (some now)) ↔
      Representable (remaining args at_ now) := by
  have hsec := h.sec
  have hnsec := h.nsec
  have hnow := now.isLt
  rw [futexWait_eq h]
  unfold Representable nsecPerSec at *
  by_cases habs : isAbsolute args.flags = true
  · obtain ⟨left, hleft⟩ : ∃ left, remaining args at_ now = left := ⟨_, rfl⟩
    have hlow : -2 ^ 63 * 1000000000 - 2 ^ 64 < left ∧ left < 2 ^ 63 * 1000000000 := by
      simp only [remaining, habs, if_true, nsecPerSec] at hleft
      omega
    rw [hleft]
    by_cases hpast : toInt64 (left / 1000000000) < 0
    · -- the deadline is over
      have hneg : -2 ^ 63 * 1000000000 ≤ left ∧ left < 0 := by
        simp only [toInt64, Int.bmod_def] at hpast
        omega
      rw [if_pos ⟨hpast, habs⟩]
      simp only [Timely, true_and]
      omega
    · have hrange : 0 ≤ left ∨ left < -2 ^ 63 * 1000000000 := by
        simp only [toInt64, Int.bmod_def] at hpast
        omega
      rw [if_neg fun hc => hpast hc.1, timely_waits_iff]
      omega
  · have hrel := h.relative (by simpa using habs)
    have hpos : 0 ≤ remaining args at_ now := by
      simp only [remaining, habs, nsecPerSec, Bool.false_eq_true, if_false]
      omega
    rw [if_neg fun hc => habs hc.2, timely_waits_iff]
    omega

/-- A call with a relative time, aligned and on the expected value. -/
def relativeArgs (at_ : Timespec) : WaitArgs := ⟨0, 0, .monotonic, some at_, 0⟩

theorem accepted_relativeArgs {at_ : Timespec} (hsec : 0 ≤ at_.tvSec ∧ at_.tvSec < 2 ^ 63)
    (hnsec : 0 ≤ at_.tvNsec.toInt ∧ at_.tvNsec.toInt < nsecPerSec) :
    Accepted (relativeArgs at_) 0 at_ :=
  ⟨BitVec.zero_and, rfl, rfl, rfl, by omega, hnsec, fun _ => hsec.1⟩

/-- A wait of one and a half seconds. -/
theorem futexWait_timely_short :
    Accepted (relativeArgs ⟨1, 500000000⟩) 0 ⟨1, 500000000⟩ ∧
      Timely 1500000000 (futexWait (relativeArgs ⟨1, 500000000⟩) 0 (some 0)) := by
  have h : Accepted (relativeArgs ⟨1, 500000000⟩) 0 ⟨1, 500000000⟩ :=
    accepted_relativeArgs (by decide) (by decide)
  exact ⟨h, (futexWait_timely_iff h 0).mpr (.inl (by decide))⟩

/-- A wait of about 292 years is one without end, and one of about 584 years
is over after 290448384 nanoseconds.  A deadline before every other one is
taken for a late one. -/
theorem futexWait_overflows :
    futexWait (relativeArgs ⟨9223372037, 0⟩) 0 (some 0) = .waits (-9223372036709551616) ∧
      futexWait (relativeArgs ⟨18446744074, 0⟩) 0 (some 0) = .waits 290448384 ∧
      futexWait ⟨0, 0, .realtime, some ⟨-2 ^ 63, 0⟩, FUTEX_TIMESPEC_ABSOLUTE⟩ 0
        (some 1000000000) = .waits (-1000000000) := by
  decide

end WasiLibc.Futex.Atomic
