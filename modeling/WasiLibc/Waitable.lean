import Mathlib

/-!
# WasiLibc.Waitable

What the component model's waitables, streams and futures, tell the guest,
and why a program that uses them may stop.
-/

namespace WasiLibc

/-- Why a program stopped: by a failure of libc, or because the host does not
behave as supposed. -/
inductive Fault where
  /-- An `assert` failed. -/
  | assert
  /-- `abort`, `__builtin_trap`, or an operation that the component model
  traps on. -/
  | trap
  /-- The host does not answer so. -/
  | host
  deriving DecidableEq, Repr

/-- A step ends in `P`, unless the host does not behave as supposed. -/
def Ends {σ : Type} (r : Except Fault σ) (P : σ → Prop) : Prop :=
  match r with
  | .ok s => P s
  | .error e => e = .host

/-- `WASIP3_WAITABLE_STATE`: how an operation ended. -/
inductive WaitState where
  | completed
  | dropped
  | cancelled
  deriving DecidableEq, Repr

/-- `wasip3_waitable_status_t`. -/
inductive Status where
  | blocked
  | code (state : WaitState) (count : Nat)
  deriving DecidableEq, Repr

end WasiLibc
