import WasiLibc.Lock.Halves

/-!
# WasiLibc.Pipe.State

A wasip3 pipe shared by cooperative threads: `pipe_state_t`, the two halves,
and the ends of the component-model stream by which a thread that blocks on
one half is notified.

No function waits between `STRONG_LOCK` and `STRONG_UNLOCK` of the pipe's
lock, so the lock is free whenever another thread can run, and what a thread
does under the lock is one step.  A thread waits in `pipe_block_thread`, or in
a `poll`.
-/

namespace WasiLibc

/-- The other half of a pipe, and the other end of its stream. -/
def Dir.other : Dir → Dir
  | .read => .write
  | .write => .read

@[simp] theorem Dir.other_other (d : Dir) : d.other.other = d := by cases d <;> rfl

theorem Dir.eq_or_other (d d' : Dir) : d' = d ∨ d' = d.other := by
  cases d <;> cases d' <;> simp [Dir.other]

namespace Pipe

variable {ι : Type}

def PIPE_BUF : Nat := 4096

/-- The state of an end of the stream.  An end is idle until an operation on
it blocks, and again when its completion has been delivered. -/
inductive End where
  | idle
  | copying
  /-- The operation is complete, and the event is not delivered yet. -/
  | finished
  deriving DecidableEq, Repr

/-- An entry of a `poll`: a half of the pipe, and `POLLRDNORM` and
`POLLWRNORM`. -/
structure PollFd where
  half : Dir
  rdnorm : Bool
  wrnorm : Bool
  deriving DecidableEq, Repr

/-- A call on a half of the pipe; `invalid` says that flags or an address are
given. -/
inductive Call where
  | recvfrom (half : Dir) (length : Nat) (invalid : Bool)
  | sendto (half : Dir) (data : List UInt8) (invalid : Bool)
  | setBlocking (half : Dir) (blocking : Bool)
  | poll (fds : List PollFd)
  deriving DecidableEq

/-- The half that the call is on; those of a `poll` are looked up later. -/
def Call.half : Call → Option Dir
  | .recvfrom d _ _ => some d
  | .sendto d _ _ => some d
  | .setBlocking d _ => some d
  | .poll _ => none

/-- What has happened, in order: the calls that have returned, and the halves
that were destroyed. -/
inductive Event where
  | received (length : Nat) (result : Except Errno (List UInt8))
  | sent (data : List UInt8) (result : Except Errno Nat)
  | closed (d : Dir)
  deriving DecidableEq

/-- Where a thread is, at a switch point. -/
inductive Phase where
  | idle
  /-- `pipe_recvfrom` waits in `pipe_block_thread`. -/
  | receiving (length : Nat)
  /-- `pipe_sendto` waits in `pipe_block_thread`. -/
  | sending (data : List UInt8)
  /-- A `poll` has registered at some halves, and has entries to do. -/
  | registering (todo : List PollFd) (regs : List Dir)
  /-- A `poll` waits for events. -/
  | polling (regs : List Dir)
  /-- A `poll` gives up what it has registered. -/
  | cleaning (regs : List Dir)
  deriving DecidableEq

/-- The halves that the thread is blocked on. -/
def Phase.halves : Phase → List Dir
  | .idle => []
  | .receiving _ => [.read]
  | .sending _ => [.write]
  | .registering _ regs => regs
  | .polling regs => regs
  | .cleaning regs => regs

/-- The length of the write that the thread waits to make; a `poll` waits until
one byte can be written. -/
def Phase.asks : Phase → Nat
  | .sending data => data.length
  | _ => 1

/-- The pipe, the ends of its stream, and the threads. -/
structure State (ι : Type) where
  /-- `PIPE_READER_ALIVE` and `PIPE_WRITER_ALIVE`. -/
  alive : Dir → Bool
  /-- `PIPE_READER_BLOCKED` and `PIPE_WRITER_BLOCKED`. -/
  blocked : Dir → Bool
  /-- `PIPE_READER_WOKEN` and `PIPE_WRITER_WOKEN`. -/
  woken : Dir → Bool
  /-- `buffer` is not `NULL`. -/
  allocated : Bool
  cap : Nat
  buffer : List UInt8
  /-- The stream has been made. -/
  stream : Bool
  ends : Dir → End
  blocking : Dir → Bool
  thread : ι → Phase
  /-- How often `pipe_state_free` has run. -/
  freed : Nat
  log : List Event

/-- What `pipe2` makes. -/
def State.initial (nonblock : Bool) : State ι where
  alive := fun _ => true
  blocked := fun _ => false
  woken := fun _ => false
  allocated := false
  cap := 0
  buffer := []
  stream := false
  ends := fun _ => .idle
  blocking := fun _ => !nonblock
  thread := fun _ => .idle
  freed := 0
  log := []

/-- `remaining > 0 && (!atomic || length <= remaining)`. -/
def State.Accepts (s : State ι) (length : Nat) : Prop :=
  0 < s.cap - s.buffer.length ∧ (PIPE_BUF < length ∨ length ≤ s.cap - s.buffer.length)

instance (s : State ι) (n : Nat) : Decidable (s.Accepts n) :=
  inferInstanceAs (Decidable (_ ∧ _))

end Pipe

end WasiLibc
