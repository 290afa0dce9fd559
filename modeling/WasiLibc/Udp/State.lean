import WasiLibc.Lock.Halves

/-!
# WasiLibc.Udp.State

A wasip3 UDP socket shared by cooperative threads, and the host's side of its
sends.

The flags, the subtasks and the results of `udp_socket_streams_t` are in
`Streams`; its two blocking locks are with the socket's own lock in
`State.lock`.  A thread runs until it has to wait for a lock or for the host;
`Phase` says where it waits and what it has to do after that.
-/

namespace WasiLibc.Udp

open Futex

variable {T : Threads}

/-- The tag of `udp_socket_state_t`. -/
inductive Tag where
  | unbound
  | boundNostreams
  | boundStreaming
  | connected
  deriving DecidableEq, Repr

/-- `udp_streams` is not `NULL`. -/
def Tag.streaming : Tag → Bool
  | .boundStreaming => true
  | .connected => true
  | _ => false

/-! ## Calls -/

/-- The arguments of `sendto`: the datagram, `MSG_DONTWAIT`, whether there is
another flag, the address as `__wasilibc_sockaddr_to_wasi` converts it, if it
is not `NULL`, and its length. -/
structure SendArgs where
  data : List UInt8
  dontwait : Bool
  unsupported : Bool
  addr : Option (Except Errno Unit)
  addrlen : Nat
  deriving DecidableEq

/-- The arguments of `recvfrom`; `addr` is what `__wasilibc_sockaddr_validate`
says. -/
structure RecvArgs where
  length : Nat
  dontwait : Bool
  trunc : Bool
  unsupported : Bool
  addr : Except Errno Unit
  deriving DecidableEq

/-- What an entry of a `poll` asks for: `POLLRDNORM` and `POLLWRNORM`. -/
structure Events where
  rdnorm : Bool
  wrnorm : Bool
  deriving DecidableEq, Repr

/-- A call on the socket.  The address of a `connect`, if it is valid, names a
remote socket or is `AF_UNSPEC`. -/
inductive Call where
  | sendto (a : SendArgs)
  | recvfrom (a : RecvArgs)
  | bind (addr : Except Errno Unit)
  | connect (remote : Except Errno Bool)
  | setBlocking (blocking : Bool)
  /-- `SO_RCVTIMEO` and `SO_SNDTIMEO`. -/
  | setTimeout (d : Dir) (timeout : Nat)
  | poll (fds : List Events)
  deriving DecidableEq

/-- A `sendto` under way, with the number of the call. -/
structure Send where
  id : Nat
  data : List UInt8
  blocking : Bool

/-- A `recvfrom` under way. -/
structure Recv where
  id : Nat
  length : Nat
  trunc : Bool
  blocking : Bool

inductive Io where
  | recv (c : Recv)
  | send (c : Send)

def Io.dir : Io → Dir
  | .recv _ => .read
  | .send _ => .write

def Io.id : Io → Nat
  | .recv c => c.id
  | .send c => c.id

def Io.blocking : Io → Bool
  | .recv c => c.blocking
  | .send c => c.blocking

/-! ## The host -/

/-- `sockets_result_void_error_code_t`, of a send. -/
abbrev SendResult := Except SocketError Unit

/-- The result of a receive, without the address. -/
abbrev RecvResult := Except SocketError (List UInt8)

/-- The event of a subtask, with its result. -/
inductive Event where
  | recv (r : RecvResult)
  | send (r : SendResult)

def Event.dir : Event → Dir
  | .recv _ => .read
  | .send _ => .write

/-- What has become of a call of `udp-socket#send`. -/
inductive Fate where
  | pending
  /-- It has returned: the host has taken the datagram. -/
  | taken
  /-- It was cancelled, and has had no effect. -/
  | cancelled
  deriving DecidableEq, Repr

/-- A call of `udp-socket#send`: the call of `sendto` that it is for, and the
datagram. -/
structure Sent where
  call : Nat
  data : List UInt8
  fate : Fate
  deriving DecidableEq, Repr

/-- What has become of the calls of `udp-socket#receive`, in order. -/
inductive Receipt where
  | started
  /-- The host has returned, and the library has got the event. -/
  | completed (r : RecvResult)
  /-- A call of `recvfrom` returns the result. -/
  | consumed (call : Nat) (r : RecvResult)

/-- What the host does in a step.  An answer `none` says that a call does not
return at once, that an event has not come, or that a cancellation has
had its way. -/
structure Env where
  bind : Except SocketError Unit
  connect : Except SocketError Unit
  recv : Option RecvResult
  recvEvent : Option RecvResult
  send : Option SendResult
  sendEvent : Option SendResult
  /-- The answer to the cancellation of the send with the caller's buffer. -/
  sendCancel : Option SendResult
  /-- The answer to the send with the copy. -/
  resend : Option SendResult
  malloc : Bool
  /-- `__wasilibc_poll_add`. -/
  pollAdd : Dir → Bool
  /-- The half whose event a `poll` finds. -/
  event : Option Dir

/-! ## Threads -/

/-- What a thread does once it has the lock that it waits for. -/
inductive Cont where
  /-- The call begins. -/
  | begin (id : Nat) (call : Call)
  /-- `wasip3_udp_recv_sync` or `wasip3_udp_send_sync` gives the blocking lock
  back. -/
  | bounced (c : Io)
  /-- It looks at the flag again. -/
  | retry (c : Io)
  /-- The wait for the receive is over. -/
  | recvEnd (c : Recv) (event : Option RecvResult)
  /-- The wait for a send is over: for the one of this call, or for an earlier
  one. -/
  | sendEnd (c : Send) (own : Bool) (event : Option SendResult)
  /-- A `poll` registers the next entry. -/
  | register (id : Nat) (todo : List Events) (regs : List Dir)
  /-- The callback of a `poll`, with the event. -/
  | ready (id : Nat) (event : Event) (regs : List Dir)
  /-- The callback of a `poll`, at its end. -/
  | cleanup (id : Nat) (d : Dir) (regs : List Dir) (result : Except Errno Unit)

/-- What a thread waits for the host for. -/
inductive Wait where
  | recv (c : Recv) (timeout : Nat)
  | send (c : Send) (own : Bool) (timeout : Nat)
  | polling (id : Nat) (regs : List Dir)
  /-- The cancellation of the send with the caller's buffer. -/
  | cancelSend (c : Send) (subtask : Nat)
  /-- A `connect` cancels the receive. -/
  | cancelRecv (id : Nat) (remote : Bool)
  /-- A `connect` waits for the send. -/
  | closeSend (id : Nat) (remote : Bool)

/-- Where a thread is, at a switch point. -/
inductive Phase where
  | idle
  | locking (l : LockId) (k : Cont)
  | waiting (w : Wait)

/-- The halves whose blocking operation the thread is in. -/
def Cont.owned : Cont → List Dir
  | .recvEnd _ _ => [.read]
  | .sendEnd _ _ _ => [.write]
  | .register _ _ regs => regs
  | .ready _ event regs => event.dir :: regs
  | .cleanup _ d regs _ => d :: regs
  | _ => []

def Wait.owned : Wait → List Dir
  | .recv _ _ => [.read]
  | .send _ _ _ => [.write]
  | .polling _ regs => regs
  | _ => []

/-- The thread holds the socket's lock while it waits. -/
def Wait.holds : Wait → Bool
  | .cancelSend _ _ => true
  | .cancelRecv _ _ => true
  | .closeSend _ _ => true
  | _ => false

/-- The thread closes the streams. -/
def Wait.closes : Wait → Bool
  | .cancelRecv _ _ => true
  | .closeSend _ _ => true
  | _ => false

/-- What a phase means for locks and flags. -/
def Phase.role (p : Phase) : Role where
  at_ := fun l =>
    match p, l with
    | .idle, _ => .outside
    | .locking l' _, .object => if l' = .object then .waiting else .outside
    | .locking l' k, .blocking d =>
      if d ∈ k.owned then .holding else if l' = .blocking d then .waiting else .outside
    | .waiting w, .object => if w.holds then .holding else .outside
    | .waiting w, .blocking d => if d ∈ w.owned then .holding else .outside
  bounces := none
  clear := fun _ =>
    match p with
    | .waiting w => w.closes
    | _ => false

/-! ## The socket -/

/-- `udp_socket_streams_t`, without the locks: the flags, the subtasks and
their results, and whether `send_args` has a copy of a datagram. -/
structure Streams where
  blocking : Dir → Bool
  recvReady : Bool
  recvSubtask : Bool
  recvResult : RecvResult
  sendReady : Bool
  sendSubtask : Option Nat
  sendResult : SendResult
  copy : Bool

/-- `memset(dst, 0, sizeof(*dst))`. -/
def Streams.zero : Streams where
  blocking := fun _ => false
  recvReady := false
  recvSubtask := false
  recvResult := .ok []
  sendReady := false
  sendSubtask := none
  sendResult := .ok ()
  copy := false

/-- A record of `udp_close_streams` or of the `memset`: the blocking locks, and
the number of other threads that are blocked on or queued at one of them. -/
structure Torn where
  recvWord : Int
  sendWord : Int
  inside : Nat
  deriving DecidableEq, Repr

/-- Nobody used the streams. -/
def Torn.Clean (r : Torn) : Prop := r.recvWord = 0 ∧ r.sendWord = 0 ∧ r.inside = 0

instance (r : Torn) : Decidable r.Clean := inferInstanceAs (Decidable (_ ∧ _ ∧ _))

/-- The socket, its threads, and the host's side. -/
structure State (T : Threads) where
  tag : Tag
  streams : Streams
  lock : LockId → Lock T
  thread : Tid T → Phase
  blocking : Bool
  timeout : Dir → Nat
  closed : Bool
  env : Env
  /-- The calls of `udp-socket#send` so far; a subtask is a number of one. -/
  sends : List Sent
  /-- The calls so far. -/
  calls : List Call
  returned : Nat → Option (Except Errno Nat)
  torn : List Torn
  /-- The receives so far. -/
  receipts : List Receipt

/-- A new socket. -/
def State.initial (blocking : Bool) : State T where
  tag := .unbound
  streams := .zero
  lock := fun _ => .unlocked
  thread := fun _ => .idle
  blocking := blocking
  timeout := fun _ => 0
  closed := false
  env := ⟨.ok (), .ok (), none, none, none, none, none, none, true, fun _ => true, none⟩
  sends := []
  calls := []
  returned := fun _ => none
  torn := []
  receipts := []

/-- The roles of the threads. -/
def State.roles (s : State T) (u : Tid T) : Role := (s.thread u).role

/-- The number of other threads at the blocking locks. -/
def State.inside (s : State T) (t : Tid T) : Nat :=
  (Finset.univ.filter fun u => u ≠ t ∧ ((s.roles u).at_ (.blocking .read) ≠ .outside ∨
    (s.roles u).at_ (.blocking .write) ≠ .outside)).card

end WasiLibc.Udp
