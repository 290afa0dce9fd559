import WasiLibc.Lock.Halves
import WasiLibc.Stream.Io

/-!
# WasiLibc.Object.State

A TCP socket that is connected, or a file, shared by cooperative threads.

The object owns two wasip3 I/O states, one for each half.  Of such a state the
record of `Stream` has the stream, the flags and the buffer; `blocking_lock`
and `blocking_waiters` are here.  A thread runs until it has to wait for a
lock or for the host; `Phase` says where it waits and what it has to do
after that.  A thread that waits for the host may hold the object's lock.
-/

namespace WasiLibc.Object

open Futex WasiLibc.Stream

variable {T : Threads}

/-- What owns the I/O states. -/
inductive Kind where
  | tcp
  | file
  deriving DecidableEq, Repr

/-! ## Calls -/

/-- The transfer that a `read` or a `write` asks for. -/
inductive Transfer where
  | read (length : Nat)
  | write (buffer : List UInt8)
  deriving DecidableEq, Repr

def Transfer.dir : Transfer → Dir
  | .read _ => .read
  | .write _ => .write

/-- `SHUT_RD`, `SHUT_WR`, `SHUT_RDWR`, or none of them. -/
inductive How where
  | shutRd
  | shutWr
  | shutRdwr
  | other
  deriving DecidableEq, Repr

/-- `SEEK_SET`, `SEEK_CUR`, `SEEK_END`, or none of them. -/
inductive Whence where
  | seekSet
  | seekCur
  | seekEnd
  | other
  deriving DecidableEq, Repr

/-- What an entry of a `poll` asks for: `POLLRDNORM` and `POLLWRNORM`. -/
structure Events where
  rdnorm : Bool
  wrnorm : Bool
  deriving DecidableEq, Repr

/-- A call on the object.  A `poll` lists the object any number of times. -/
inductive Call where
  | io (what : Transfer) (dontwait : Bool)
  | setBlocking (blocking : Bool)
  | shutdown (how : How)
  | seek (offset : Int) (whence : Whence)
  | poll (fds : List Events)
  deriving DecidableEq, Repr

/-- The calls that the kind of object supports. -/
def Call.supported : Kind → Call → Bool
  | _, .io _ _ => true
  | .tcp, .setBlocking _ => true
  | .tcp, .shutdown _ => true
  | .tcp, .poll _ => true
  | .file, .seek _ _ => true
  | _, _ => false

/-- `wasi_read_t` or `wasi_write_t`, with what is to be transferred. -/
structure Io where
  what : Transfer
  blocking : Bool
  timeout : Nat
  deriving DecidableEq, Repr

def Io.dir (c : Io) : Dir := c.what.dir

/-! ## Threads -/

/-- What comes after the I/O states have been closed: the end of a
`shutdown`, or that of a `seek` to a new offset. -/
inductive After where
  | shutdown
  | seek (offset : Int)
  deriving DecidableEq, Repr

/-- Who waits for the operation that is in progress: a `read` or a `write`,
or `wasip3_write_state_close` with data that was acknowledged. -/
inductive Pending where
  | io (c : Io)
  | close (after : After)
  deriving DecidableEq, Repr

def Pending.dir : Pending → Dir
  | .io c => c.dir
  | .close _ => .write

def Pending.timeout : Pending → Nat
  | .io c => c.timeout
  | .close _ => 0

/-- What a thread does once it has the lock that it waits for. -/
inductive Cont where
  /-- The call begins. -/
  | begin (call : Call)
  /-- `wasip3_io_sync` gives the blocking lock back. -/
  | bounced (c : Io)
  /-- `wasip3_io_sync` looks at the flag again. -/
  | retry (c : Io)
  /-- The wait for the operation in progress is over. -/
  | pendingEnd (p : Pending) (event : Option Status)
  /-- The blocking transfer is over. -/
  | transferEnd (c : Io) (amount : Except Errno Nat) (done : Bool)
  /-- A `poll` registers the next entry. -/
  | register (todo : List Events) (regs : List Dir)
  /-- The callback of a `poll`, with the event. -/
  | ready (d : Dir) (event : Status) (regs : List Dir)
  /-- The callback of a `poll`, at its end. -/
  | cleanup (d : Dir) (regs : List Dir) (result : Except Errno Unit)

/-- What a thread waits for the host for. -/
inductive Wait where
  | pending (p : Pending)
  | transfer (c : Io) (status : Status)
  | polling (regs : List Dir)
  /-- A nonblocking transfer, which may have to cancel an operation. -/
  | nonblocking (c : Io)
  /-- The result of a stream that has ended. -/
  | eof (c : Io)
  /-- The size of the file, for a `seek`. -/
  | stat (offset : Int) (whence : Whence)
  /-- The cancellation of a read, when the read half is closed. -/
  | cancelRead (closeWrite : Bool) (after : After)
  /-- The cancellation of a zero-length write, when the write half is
  closed. -/
  | cancelWrite (after : After)

/-- Where a thread is, at a switch point. -/
inductive Phase where
  | idle
  | locking (l : LockId) (k : Cont)
  | waiting (w : Wait)

/-- The halves whose blocking operation the thread is in. -/
def Cont.owned : Cont → List Dir
  | .pendingEnd p _ => [p.dir]
  | .transferEnd c _ _ => [c.dir]
  | .register _ regs => regs
  | .ready d _ regs => d :: regs
  | .cleanup d regs _ => d :: regs
  | _ => []

def Wait.owned : Wait → List Dir
  | .pending p => [p.dir]
  | .transfer c _ => [c.dir]
  | .polling regs => regs
  | _ => []

def Phase.owned : Phase → List Dir
  | .idle => []
  | .locking _ k => k.owned
  | .waiting w => w.owned

/-- The half whose blocking operation the thread waits to end. -/
def Phase.bounces : Phase → Option Dir
  | .locking _ (.bounced c) => some c.dir
  | .locking _ (.retry c) => some c.dir
  | _ => none

/-- The thread holds the object's lock while it waits. -/
def Wait.holds : Wait → Bool
  | .nonblocking _ => true
  | .eof _ => true
  | .stat _ _ => true
  | .cancelRead _ _ => true
  | .cancelWrite _ => true
  | _ => false

/-- The halves that the thread has found unused and means to close. -/
def Wait.clear : Wait → Dir → Bool
  | .stat _ _, _ => true
  | .cancelRead _ _, .read => true
  | .cancelRead closeWrite _, .write => closeWrite
  | .cancelWrite _, .write => true
  | _, _ => false

/-- The thread flushes the write half in order to close it. -/
def Phase.Flushes : Phase → Prop
  | .locking _ (.pendingEnd (.close _) _) => True
  | .waiting (.pending (.close _)) => True
  | _ => False

/-- What a phase means for locks and flags. -/
def Phase.role (p : Phase) : Role where
  at_ := fun l =>
    match p, l with
    | .idle, _ => .outside
    | .locking l' _, .object => if l' = .object then .waiting else .outside
    | .locking l' k, .blocking d =>
      if d ∈ k.owned then .holding else if l' = .blocking d then .waiting else .outside
    | .waiting w, .object => if w.holds then .holding else .outside
    | .waiting w, .blocking d => if d ∈ w.owned then .holding else .outside
  bounces := p.bounces
  clear := fun d =>
    match p with
    | .waiting w => w.clear d
    | _ => false

/-! ## The object -/

/-- What the host does in a step, apart from the script for the streams. -/
structure Env where
  script : List Choice
  /-- The half whose event a `poll` finds. -/
  event : Option Dir
  /-- The size of the file. -/
  stat : Except Errno Nat
  /-- The error that a stream has ended with. -/
  eof : Option Errno

/-- A record of a `memset` of an I/O state: its `blocking_lock` and its
`blocking_waiters` before, and the number of other threads in I/O on it. -/
structure Zeroed where
  dir : Dir
  word : Int
  waiters : Nat
  users : Nat
  deriving DecidableEq, Repr

/-- Nobody used the state. -/
def Zeroed.Clean (z : Zeroed) : Prop := z.word = 0 ∧ z.waiters = 0 ∧ z.users = 0

instance (z : Zeroed) : Decidable z.Clean := inferInstanceAs (Decidable (_ ∧ _ ∧ _))

/-- The object and its threads. -/
structure State (T : Threads) where
  kind : Kind
  thread : Tid T → Phase
  lock : LockId → Lock T
  world : Dir → World
  waiters : Dir → Nat
  /-- The future with the result of the stream has not been read. -/
  result : Dir → Bool
  /-- `socket->blocking`. -/
  blocking : Bool
  timeout : Dir → Nat
  /-- `O_APPEND`. -/
  append : Bool
  offset : Int
  env : Env
  /-- What the last call of each thread has returned. -/
  returned : Tid T → Option (Except Errno Int)
  zeroed : List Zeroed

/-- The host's side of a stream that has just been opened. -/
def openHost : Host := ⟨none, [], [], 0, true, false, false⟩

/-- An object that no thread has used yet: a socket with its streams, or a
file without. -/
def State.initial (kind : Kind) (blocking append : Bool) (timeout : Dir → Nat) : State T where
  kind := kind
  thread := fun _ => .idle
  lock := fun _ => .unlocked
  world := fun _ =>
    ⟨match kind with | .tcp => IoState.init 1 | .file => IoState.zero, openHost, [], [], []⟩
  waiters := fun _ => 0
  result := fun _ => match kind with | .tcp => true | .file => false
  blocking := blocking
  timeout := timeout
  append := append
  offset := 0
  env := ⟨[], none, .ok 0, none⟩
  returned := fun _ => none
  zeroed := []

/-- The roles of the threads. -/
def State.roles (s : State T) (u : Tid T) : Role := (s.thread u).role

end WasiLibc.Object
