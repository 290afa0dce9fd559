import WasiLibc.Errno
import WasiLibc.Waitable
import WasiLibc.Lib.Wp

/-!
# WasiLibc.Poll.Events

`ppoll`, as far as its three implementations share it: the event masks, the
entries, the checks before the call proper, the walk over the entries, and
`__wasilibc_poll_ready`.

The state of a call holds the entries and what the implementation keeps for
itself, the number of entries reported so far and what it has registered to
wait for (`ρ`).  The objects that the descriptors name, and the host, are the
world `ω` of the target.
-/

namespace WasiLibc.Poll

open Wp

/-! ## Masks -/

/-- The `short` of `events` and `revents`. -/
abbrev Events := BitVec 16

def POLLRDNORM : Events := 0x0001
def POLLWRNORM : Events := 0x0002
def POLLPRI : Events := 0x0200
def POLLERR : Events := 0x1000
def POLLHUP : Events := 0x2000
def POLLNVAL : Events := 0x4000

/-- Some event of `m` is among those of `e`. -/
def Events.Has (e m : Events) : Prop := e &&& m ≠ 0

instance (e m : Events) : Decidable (e.Has m) := inferInstanceAs (Decidable (_ ≠ _))

/-- `events & ~POLLPRI`. -/
def strip (e : Events) : Events := e &&& ~~~POLLPRI

/-- `struct pollfd`. -/
structure PollFd where
  fd : Int
  events : Events
  revents : Events
  deriving DecidableEq, Repr

/-- `struct timespec`. -/
structure Timespec where
  sec : Int
  nsec : Int
  deriving DecidableEq, Repr

namespace Timespec

/-- The check of `ppoll`. -/
def Valid (t : Timespec) : Prop := ¬ (t.sec < 0 ∨ 1000000000 ≤ t.nsec ∨ t.nsec < 0)

instance (t : Timespec) : Decidable t.Valid := inferInstanceAs (Decidable (¬ _))

/-- The requested duration in nanoseconds. -/
def duration (t : Timespec) : Int := t.sec * 1000000000 + t.nsec

/-- `(uint64_t)tv_sec * 1000000000 + tv_nsec`. -/
def ns (t : Timespec) : BitVec 64 := BitVec.ofInt 64 t.sec * 1000000000 + BitVec.ofInt 64 t.nsec

/-- `zero_timeout`. -/
def zero : Timespec := ⟨0, 0⟩

end Timespec

/-! ## The state of a call -/

/-- A call under way. -/
structure State (ρ ω : Type) where
  fds : List PollFd
  /-- `event_count`. -/
  count : Nat
  /-- What has been registered and not been answered. -/
  regs : List ρ
  /-- How long the call has been seen to last, by the end of its timer. -/
  elapsed : Nat
  /-- The duration that the host's clock has been asked for. -/
  clock : Option (BitVec 64)
  world : ω

/-- Programs of a call. -/
abbrev M (ρ ω : Type) := StateT (State ρ ω) (Except Fault)

variable {ρ ω α β : Type}

/-- `if (f() < 0) return -1;`, and then `g`. -/
def andThen (f : M ρ ω (Except Errno α)) (g : α → M ρ ω (Except Errno β)) :
    M ρ ω (Except Errno β) := do
  match ← f with
  | .error e => return .error e
  | .ok a => g a

/-- A step of the objects and the host. -/
def onWorld (f : StateT ω (Except Fault) α) : M ρ ω α := fun s =>
  match f s.world with
  | .ok (a, w) => .ok (a, { s with world := w })
  | .error e => .error e

/-- A call begins. -/
def start (fds : List PollFd) (w : ω) : State ρ ω := ⟨fds, 0, [], 0, none, w⟩

/-- `__wasilibc_poll_ready` for the entry at `cur`; `report` says which of
the events are reported for an entry, from those it asks for. -/
def pollReady (report : Events → Events → Events) (cur : Nat) (events : Events) :
    M ρ ω PUnit := do
  match (← get).fds[cur]? with
  | none => throw .assert
  | some p =>
    let events := report p.events events
    if events ≠ 0 then
      modify fun s => { s with
        fds := s.fds.set cur { p with revents := p.revents ||| events }
        count := if p.revents = 0 then s.count + 1 else s.count }

/-- The loop over the entries that are not negative, from the one at `i`. -/
def registerEach (register : Nat → PollFd → M ρ ω (Except Errno Unit)) :
    Nat → List PollFd → M ρ ω (Except Errno Unit)
  | _, [] => return .ok ()
  | i, p :: ps => do
      if p.fd < 0 then registerEach register (i + 1) ps
      else andThen (register i p) fun _ => registerEach register (i + 1) ps

/-- `validate_something_not_pollpri`. -/
def validateSomethingNotPollpri (fds : List PollFd) : Except Errno Unit :=
  let asking := fds.filter fun p => ¬ (p.fd < 0 ∨ p.events = 0)
  let hasNonPri := asking.any fun p => strip p.events ≠ 0
  let hasPriOnly := asking.any fun p => strip p.events = 0
  if hasPriOnly ∧ ¬ hasNonPri then .error .ENOSYS else .ok ()

/-- `ppoll`, with the implementation of a target. -/
def ppoll (impl : Option Timespec → M ρ ω (Except Errno Nat)) (timeout : Option Timespec) :
    M ρ ω (Except Errno Nat) := do
  if ∃ t ∈ timeout, ¬ t.Valid then return .error .EINVAL
  else
    match validateSomethingNotPollpri (← get).fds with
    | .error e => return .error e
    | .ok _ => do
        modify fun s => { s with fds := s.fds.map fun p => { p with revents := 0 } }
        impl timeout

end WasiLibc.Poll
