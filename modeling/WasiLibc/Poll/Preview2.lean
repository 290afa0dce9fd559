import WasiLibc.Poll.Events

/-!
# WasiLibc.Poll.Preview2

`ppoll_impl` for wasip2, on top of `wasi:io/poll`.  A descriptor names an
object, and two descriptors may name the same one.  Of an object only that
much is modelled on which a poll depends: which streams a file or a standard
stream can give, and the state of a socket.  What the host answers is a
script, read from the front.
-/

namespace WasiLibc.Poll.Preview2

open Function Wp

/-- `TCP_SOCKET_STATE_*`. -/
inductive TcpState where
  | unbound
  | bound
  | connecting
  | connected
  | connectFailed
  | listening
  deriving DecidableEq, Repr

/-- `UDP_SOCKET_STATE_*`. -/
inductive UdpState where
  | unbound
  | boundNostreams
  | boundStreaming
  | connected
  deriving DecidableEq, Repr

/-- What a descriptor names. -/
inductive Object where
  /-- A file, and whether its input and output streams have been opened. -/
  | file (read write : Bool)
  /-- `stdio_t` with its `fd`. -/
  | stdio (fd : Nat)
  /-- An object without streams, such as a directory. -/
  | other
  | tcp (state : TcpState)
  | udp (state : UdpState)
  deriving DecidableEq, Repr

/-- How `finish-connect` may answer. -/
inductive Connect where
  | ok
  | wouldBlock
  | failed
  deriving DecidableEq, Repr

/-- What the host answers next. -/
inductive Answer where
  /-- Opening the streams of a file or of a UDP socket. -/
  | opened (r : Except Errno Unit)
  /-- `poll`. -/
  | ready (indices : List Nat)
  | finishConnect (r : Connect)
  deriving DecidableEq, Repr

/-- The objects and the host. -/
structure World where
  objects : Nat → Object
  script : List Answer

/-- An entry of `states`: the pollfd and its object, with the events to
report. -/
structure Reg where
  cur : Nat
  object : Nat
  events : Events
  deriving DecidableEq, Repr

abbrev M := Poll.M Reg World

/-! ## Objects and host -/

/-- The host's next answer. -/
def next : StateT World (Except Fault) Answer := do
  match (← get).script with
  | [] => throw .host
  | a :: script => do
      modify fun w => { w with script := script }
      return a

/-- The host opens streams, which changes the object. -/
def openStreams (o : Nat) (opened : Object → Object) :
    StateT World (Except Fault) (Except Errno Unit) := do
  match ← next with
  | .opened (.error e) => return .error e
  | .opened (.ok _) => do
      modify fun w => { w with objects := update w.objects o (opened (w.objects o)) }
      return .ok ()
  | _ => throw .host

/-- The input stream of a file. -/
def openRead : Object → Object
  | .file _ write => .file true write
  | obj => obj

/-- The output stream of a file. -/
def openWrite : Object → Object
  | .file read _ => .file read true
  | obj => obj

/-- `udp_create_streams`. -/
def createStreams : Object → Object
  | .udp .boundNostreams => .udp .boundStreaming
  | obj => obj

/-- `get_read_stream`. -/
def getReadStream (o : Nat) : StateT World (Except Fault) (Except Errno Unit) := do
  match (← get).objects o with
  | .file false _ => openStreams o openRead
  | .file true _ => return .ok ()
  | .stdio fd => return if fd = 0 then .ok () else .error .EOPNOTSUPP
  | _ => return .error .EOPNOTSUPP

/-- `get_write_stream`. -/
def getWriteStream (o : Nat) : StateT World (Except Fault) (Except Errno Unit) := do
  match (← get).objects o with
  | .file _ false => openStreams o openWrite
  | .file _ true => return .ok ()
  | .stdio fd => return if fd = 1 ∨ fd = 2 then .ok () else .error .EOPNOTSUPP
  | _ => return .error .EOPNOTSUPP

/-- `finish-connect` of a socket that is connecting. -/
def finishConnect (o : Nat) : StateT World (Except Fault) Connect := do
  match ← next with
  | .finishConnect r => do
      match r with
      | .ok => modify fun w => { w with objects := update w.objects o (.tcp .connected) }
      | .wouldBlock => pure ⟨⟩
      | .failed =>
        modify fun w => { w with objects := update w.objects o (.tcp .connectFailed) }
      return r
  | _ => throw .host

/-- The object at `o`. -/
def object (o : Nat) : StateT World (Except Fault) Object := return (← get).objects o

/-! ## Registration -/

/-- `__wasilibc_poll_ready`. -/
def ready (cur : Nat) (events : Events) : M PUnit := pollReady (fun _ e => e) cur events

/-- `__wasilibc_poll_add`. -/
def pollAdd (cur o : Nat) (events : Events) : M (Except Errno Unit) := do
  let s ← get
  if 2 * s.fds.length + 1 ≤ s.regs.length then return .error .ENOMEM
  else do
    modify fun s => { s with regs := s.regs ++ [⟨cur, o, events⟩] }
    return .ok ()

/-- Add the pollables for reading and for writing, as far as they are asked
for. -/
def pollAddBoth (cur o : Nat) (events : Events) : M (Except Errno Unit) :=
  andThen (if events.Has POLLRDNORM then pollAdd cur o POLLRDNORM else return .ok ()) fun _ =>
    if events.Has POLLWRNORM then pollAdd cur o POLLWRNORM else return .ok ()

/-- `tcp_poll_register`. -/
def tcpPollRegister (cur o : Nat) (events : Events) : TcpState → M (Except Errno Unit)
  | .connecting =>
    if events.Has (POLLRDNORM ||| POLLWRNORM) then pollAdd cur o events else return .ok ()
  | .listening => if events.Has POLLRDNORM then pollAdd cur o events else return .ok ()
  | .connected => pollAddBoth cur o events
  | .connectFailed => do
      ready cur events
      return .ok ()
  | .unbound => return .error .ENOTSUP
  | .bound => return .error .ENOTSUP

/-- `udp_poll_register`. -/
def udpPollRegister (cur o : Nat) (events : Events) : UdpState → M (Except Errno Unit)
  | .unbound => do
      ready cur events
      return .ok ()
  | .boundNostreams =>
    andThen (onWorld (openStreams o createStreams)) fun _ => pollAddBoth cur o events
  | .boundStreaming => pollAddBoth cur o events
  | .connected => pollAddBoth cur o events

/-- The registration of an object without `poll_register`. -/
def streamsRegister (cur o : Nat) (events : Events) : M (Except Errno Unit) := do
  let events := strip events
  if events &&& ~~~(POLLRDNORM ||| POLLWRNORM) ≠ 0 then return .error .EOPNOTSUPP
  else
    andThen
      (if events.Has POLLRDNORM then
        andThen (onWorld (getReadStream o)) fun _ => pollAdd cur o POLLRDNORM
      else return .ok ())
      fun _ =>
        if events.Has POLLWRNORM then
          andThen (onWorld (getWriteStream o)) fun _ => pollAdd cur o POLLWRNORM
        else return .ok ()

/-- The registration of an object. -/
def objectRegister (cur o : Nat) (events : Events) : Object → M (Except Errno Unit)
  | .tcp state => tcpPollRegister cur o events state
  | .udp state => udpPollRegister cur o events state
  | _ => streamsRegister cur o events

/-- One turn of the loop over the entries, with `descriptor_table_get`. -/
def register (table : Nat → Option Nat) (i : Nat) (p : PollFd) : M (Except Errno Unit) := do
  match table p.fd.toNat with
  | none => do
      ready i POLLNVAL
      return .ok ()
  | some o => objectRegister i o p.events (← onWorld (object o))

/-! ## The wait -/

/-- `tcp_poll_finish`. -/
def tcpPollFinish (cur o : Nat) (events : Events) : TcpState → M PUnit
  | .connecting => do
      match ← onWorld (finishConnect o) with
      | .ok => ready cur (events &&& POLLWRNORM)
      | .wouldBlock => pure ⟨⟩
      | .failed => ready cur events
  | .listening => ready cur (events &&& POLLRDNORM)
  | _ => ready cur events

/-- What is done with an entry of `states` whose pollable is ready. -/
def finish (r : Reg) : M PUnit := do
  match ← onWorld (object r.object) with
  | .tcp state => tcpPollFinish r.cur r.object r.events state
  | _ => ready r.cur r.events

/-- The loop over the answer of `poll`; the pollable after those of `states`
is the timer's. -/
def finishAll (timer : Option (BitVec 64)) : List Nat → M PUnit
  | [] => pure ⟨⟩
  | index :: rest => do
      match (← get).regs[index]? with
      | none => modify fun s => { s with elapsed := (timer.getD 0).toNat }
      | some r => finish r
      finishAll timer rest

/-- `poll_poll` of `n` pollables: the positions of those that are ready, at
least one; it traps if there is no pollable. -/
def pollPoll (n : Nat) : StateT World (Except Fault) (List Nat) := do
  require (0 < n) .trap
  match ← next with
  | .ready indices => do
      require (indices ≠ [] ∧ ∀ i ∈ indices, i < n) .host
      return indices
  | _ => throw .host

/-- `ppoll_impl` after the registration. -/
def ppollWait (timeout : Option Timespec) : M (Except Errno Nat) := do
  let timeout := if 0 < (← get).count then some Timespec.zero else timeout
  let timer := timeout.map Timespec.ns
  modify fun s => { s with clock := timer }
  let n := (← get).regs.length + if timer.isSome then 1 else 0
  let indices ← onWorld (pollPoll n)
  finishAll timer indices
  return .ok (← get).count

/-- `ppoll_impl`. -/
def ppollImpl (table : Nat → Option Nat) (timeout : Option Timespec) : M (Except Errno Nat) := do
  andThen (registerEach (register table) 0 (← get).fds) fun _ => ppollWait timeout

/-- A call of `ppoll`; the descriptor table says which object a descriptor
names. -/
def call (table : Nat → Option Nat) (w : World) (timeout : Option Timespec) (fds : List PollFd) :
    Except Fault (Except Errno Nat × State Reg World) :=
  (ppoll (ppollImpl table) timeout).run (start fds w)

end WasiLibc.Poll.Preview2
