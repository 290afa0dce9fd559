import WasiLibc.Poll.Events
import WasiLibc.Stream.Io

/-!
# WasiLibc.Poll.Preview3

`ppoll_impl` for wasip3, on top of a waitable set.  A registration comes with
a callback, which is run with the event of its waitable, or without one when
the poll ends; which callback it is follows from what is waited for (`Role`).

The streams of files, standard streams and connected sockets are those of
`WasiLibc.Stream`, with the functions modelled there.  Sockets and pipes have
the state on which a poll depends.  What a poll has registered is marked as
blocked, so the call is modelled as the only one that uses its objects; what
other threads do to a pipe shows in the event of its waitable.
-/

namespace WasiLibc.Poll.Preview3

open Wp WasiLibc.Stream

/-! ## Objects -/

/-- `tcp_socket_state_listening_t`. -/
structure Listening where
  done : Bool
  accepting : Bool
  acceptReady : Bool
  blocking : Bool
  deriving DecidableEq, Repr

/-- `tcp_socket_state_t`; of the subtask it is known whether there is one. -/
inductive TcpState where
  | unbound
  | bound
  | connecting (subtask polling : Bool)
  | connected (receive send : Stream.World)
  | connectFailed
  | listening (l : Listening)
  deriving DecidableEq, Repr

/-- `udp_socket_streams_t`. -/
structure Streams where
  recvSubtask : Bool
  recvReady : Bool
  recvBlocking : Bool
  sendSubtask : Bool
  sendReady : Bool
  sendBlocking : Bool
  deriving DecidableEq, Repr

/-- `udp_socket_state_t`. -/
inductive UdpState where
  | unbound
  | boundNostreams
  | boundStreaming (streams : Streams)
  | connected (streams : Streams)
  deriving DecidableEq, Repr

/-- One end of a pipe, with what it sees of the shared state. -/
structure PipeEnd where
  reader : Bool
  bufferLen : Nat
  bufferCap : Nat
  /-- The other end is open. -/
  peerAlive : Bool
  blocked : Bool
  woken : Bool
  deriving DecidableEq, Repr

/-- What a descriptor names. -/
inductive Object where
  /-- A file; its streams are opened when they are needed. -/
  | file (read write : Option Stream.World)
  | stdin (input : Option Stream.World)
  | stdout (output : Option Stream.World)
  /-- An object without streams, such as a directory. -/
  | other
  | tcp (state : TcpState)
  | udp (state : UdpState)
  | pipe (state : PipeEnd)
  deriving DecidableEq, Repr

/-- The stream of an object that is polled for `ev`. -/
def Object.half : Object → PollEvents → Option Stream.World
  | .file read _, .rdnorm => read
  | .file _ write, .wrnorm => write
  | .stdin input, .rdnorm => input
  | .stdout output, .wrnorm => output
  | .tcp (.connected receive _), .rdnorm => receive
  | .tcp (.connected _ send), .wrnorm => send
  | _, _ => none

def Object.setHalf : Object → PollEvents → Stream.World → Object
  | .file _ write, .rdnorm, w => .file w write
  | .file read _, .wrnorm, w => .file read w
  | .stdin _, .rdnorm, w => .stdin w
  | .stdout _, .wrnorm, w => .stdout w
  | .tcp (.connected _ send), .rdnorm, w => .tcp (.connected w send)
  | .tcp (.connected receive _), .wrnorm, w => .tcp (.connected receive w)
  | obj, _, _ => obj

/-- A stream that has just been opened, `wasip3_io_state_init`. -/
def fresh (stream : Nat) : Stream.World :=
  ⟨IoState.init stream, ⟨none, [], [], 0, true, false, false⟩, [], [], []⟩

/-- What is waited for, with the callback that goes with it:
`wasip3_poll_read_ready` or `wasip3_poll_write_ready`, `tcp_connect_ready`,
`tcp_accept_ready`, `wasip3_recv_ready`, `wasip3_send_ready`,
`pipe_read_ready` or `pipe_write_ready`. -/
inductive Role where
  | stream (events : PollEvents)
  | connect
  | accept
  | recv
  | send
  | pipe (events : PollEvents)
  deriving DecidableEq, Repr

/-- A waitable, by the object it belongs to. -/
structure Waitable where
  object : Nat
  role : Role
  deriving DecidableEq, Repr

/-- An event of the waitable set. -/
inductive Event where
  | timeout
  | ready (w : Waitable)
  deriving DecidableEq, Repr

/-- What the host answers next. -/
inductive Answer where
  /-- What happens to a stream during the next operation on it. -/
  | stream (script : List Choice)
  /-- A stream is opened. -/
  | opened (stream : Nat)
  /-- A read of the stream of a listening socket, started or ended. -/
  | accept (status : Status)
  /-- `receive` of a UDP socket returns at once, or not. -/
  | receive (returned : Bool)
  /-- How a connect ended. -/
  | connect (ok : Bool)
  /-- `monotonic-clock#wait-for` returns at once, or not. -/
  | waitFor (returned : Bool)
  /-- A wait or a poll of the waitable set. -/
  | event (e : Option Event)
  deriving DecidableEq, Repr

/-- The objects and the host. -/
structure World where
  objects : Nat → Object
  /-- The timer that is in the waitable set. -/
  timer : Option (BitVec 64)
  script : List Answer

/-- An entry of `states` whose callback has not run. -/
structure Reg where
  cur : Nat
  waitable : Waitable
  deriving DecidableEq, Repr

/-- Programs of the objects and the host. -/
abbrev W := StateT World (Except Fault)

abbrev M := Poll.M Reg World

/-- The host's next answer. -/
def next : W Answer := do
  match (← get).script with
  | [] => throw .host
  | a :: script => do
      modify fun w => { w with script := script }
      return a

/-- The object at `o`. -/
def object (o : Nat) : W Object := return (← get).objects o

def setObject (o : Nat) (obj : Object) : W PUnit :=
  modify fun w => { w with objects := Function.update w.objects o obj }

/-- An operation on a stream of the object. -/
def onHalf {α : Type} (o : Nat) (ev : PollEvents) (f : Stream.M α) : W α := do
  match ((← get).objects o).half ev, ← next with
  | some half, .stream script =>
    match f { half with script := script } with
    | .ok (a, half) => do
        setObject o (((← get).objects o).setHalf ev half)
        return a
    | .error e => throw e
  | _, _ => throw .host

/-- The host opens a stream. -/
def openStream (o : Nat) (ev : PollEvents) (obj : Object) : W (Except Errno Unit) := do
  match ← next with
  | .opened stream => do
      require (stream ≠ 0) .host
      setObject o (obj.setHalf ev (fresh stream))
      return .ok ()
  | _ => throw .host

/-- `get_read_stream` and `get_write_stream`. -/
def getStream (o : Nat) (ev : PollEvents) : W (Except Errno Unit) := do
  match ← object o, ev with
  | .file read write, .rdnorm =>
    if read.isSome then return .ok () else openStream o .rdnorm (.file read write)
  | .file read write, .wrnorm =>
    if write.isSome then return .ok () else openStream o .wrnorm (.file read write)
  | .stdin input, .rdnorm =>
    if input.isSome then return .ok () else openStream o .rdnorm (.stdin input)
  | .stdout output, .wrnorm =>
    if output.isSome then return .ok () else openStream o .wrnorm (.stdout output)
  | _, _ => return .error .EOPNOTSUPP

/-! ## Registration -/

/-- The events that `__wasilibc_poll_ready` reports: `POLLERR`, `POLLHUP`
and `POLLNVAL` always, others if they are asked for. -/
def reported (asked events : Events) : Events :=
  events &&& asked ||| events &&& (POLLERR ||| POLLHUP ||| POLLNVAL)

/-- `__wasilibc_poll_ready`. -/
def ready (cur : Nat) (events : Events) : M PUnit := pollReady reported cur events

/-- `__wasilibc_poll_add`. -/
def pollAdd (cur : Nat) (w : Waitable) : M (Except Errno Unit) := do
  let s ← get
  if 2 * s.fds.length + 1 ≤ s.regs.length then return .error .ENOMEM
  else do
    modify fun s => { s with regs := s.regs ++ [⟨cur, w⟩] }
    return .ok ()

/-- Add a waitable and, if that succeeds, mark it as waited for. -/
def pollAddAnd (cur : Nat) (w : Waitable) (enter : W PUnit) : M (Except Errno Unit) :=
  andThen (pollAdd cur w) fun _ => do
    onWorld enter
    return .ok ()

/-- The mask of the events. -/
def mask : PollEvents → Events
  | .rdnorm => POLLRDNORM
  | .wrnorm => POLLWRNORM

/-- `wasip3_io_sync` and `wasip3_stream_poll_init`. -/
def streamPollStart (ev : PollEvents) : Stream.M (Except Errno PollStatus) := do
  match ← ioSync false with
  | .error e => return .error e
  | .ok _ => return .ok (← streamPollInit ev)

/-- `wasip3_stream_poll`, that is `__wasilibc_read_poll` and
`__wasilibc_write_poll`. -/
def streamPoll (cur o : Nat) (ev : PollEvents) : M (Except Errno Unit) :=
  andThen (onWorld (onHalf o ev (streamPollStart ev))) fun
    | .ready => do
        ready cur (mask ev)
        return .ok ()
    | .inprogress => pollAddAnd cur ⟨o, .stream ev⟩ (onHalf o ev enterBlockingOperation)
    | .error => return .error .ENOMEM

/-- `wasip3_tcp_accept_finish`. -/
def acceptFinish (l : Listening) : Status → W Listening
  | .blocked => throw .trap
  | .code state count => do
      require (l.accepting ∧ ¬ l.done ∧ ¬ l.acceptReady) .assert
      return { l with accepting := false, done := state = .dropped, acceptReady := 0 < count }

/-- The loop of `wasip3_tcp_accept_start`. -/
def acceptStart : Nat → Listening → W Listening
  | 0, _ => throw .host
  | turns + 1, l => do
      if l.done ∨ l.accepting ∨ l.acceptReady then return l
      else
        match ← next with
        | .accept .blocked => return { l with accepting := true }
        | .accept (.code state count) => do
            -- a read that ends at once has a connection or is the last one
            require (state = .dropped ∨ 0 < count) .host
            acceptStart turns (← acceptFinish { l with accepting := true } (.code state count))
        | _ => throw .host

/-- `tcp_poll_register`. -/
def tcpPollRegister (cur o : Nat) (events : Events) : TcpState → M (Except Errno Unit)
  | .connecting subtask polling =>
    if events.Has (POLLRDNORM ||| POLLWRNORM) then
      if ¬ subtask then return .error .EOPNOTSUPP
      else if polling then return .error .EOPNOTSUPP
      else pollAddAnd cur ⟨o, .connect⟩ (setObject o (.tcp (.connecting subtask true)))
    else return .ok ()
  | .listening l =>
    if events.Has POLLRDNORM then
      -- `wasip3_accept_sync`
      if l.blocking then return .error .EOPNOTSUPP
      else do
        let l ← onWorld (acceptStart 2 l)
        onWorld (setObject o (.tcp (.listening l)))
        if l.acceptReady ∨ l.done then do
          ready cur POLLRDNORM
          return .ok ()
        else do
          require l.accepting .assert
          -- `wasip3_accept_enter_blocking`
          pollAddAnd cur ⟨o, .accept⟩
            (setObject o (.tcp (.listening { l with blocking := true })))
    else return .ok ()
  | .connected _ _ =>
    andThen (if events.Has POLLRDNORM then streamPoll cur o .rdnorm else return .ok ()) fun _ =>
      if events.Has POLLWRNORM then streamPoll cur o .wrnorm else return .ok ()
  | .connectFailed => do
      ready cur events
      return .ok ()
  | .unbound => return .error .ENOTSUP
  | .bound => return .error .ENOTSUP

/-- `wasip3_recv_start`. -/
def recvStart (streams : Streams) : W Streams := do
  require (¬ streams.recvBlocking) .assert
  if streams.recvSubtask ∨ streams.recvReady then return streams
  else
    match ← next with
    | .receive true => return { streams with recvReady := true }
    | .receive false => return { streams with recvSubtask := true }
    | _ => throw .host

/-- The part of `udp_poll_register` for reading. -/
def udpPollRead (cur o : Nat) (tag : Streams → UdpState) (streams : Streams) :
    M (Except Errno Streams) := do
  if streams.recvBlocking then return .error .EOPNOTSUPP
  else do
    let streams ← onWorld (recvStart streams)
    onWorld (setObject o (.udp (tag streams)))
    if streams.recvReady then do
      ready cur POLLRDNORM
      return .ok streams
    else do
      require streams.recvSubtask .assert
      -- `wasip3_udp_recv_enter_blocking`
      let blocked := { streams with recvBlocking := true }
      andThen (pollAddAnd cur ⟨o, .recv⟩ (setObject o (.udp (tag blocked)))) fun _ =>
        return .ok blocked

/-- The part of `udp_poll_register` for writing. -/
def udpPollWrite (cur o : Nat) (tag : Streams → UdpState) (streams : Streams) :
    M (Except Errno Unit) := do
  if streams.sendBlocking then return .error .EOPNOTSUPP
  else if streams.sendSubtask then
    -- `wasip3_udp_send_enter_blocking`
    pollAddAnd cur ⟨o, .send⟩ (setObject o (.udp (tag { streams with sendBlocking := true })))
  else do
    ready cur POLLWRNORM
    return .ok ()

def udpPollStreams (cur o : Nat) (events : Events) (tag : Streams → UdpState)
    (streams : Streams) : M (Except Errno Unit) :=
  andThen
    (if events.Has POLLRDNORM then udpPollRead cur o tag streams else return .ok streams)
    fun streams => if events.Has POLLWRNORM then udpPollWrite cur o tag streams else return .ok ()

/-- `udp_poll_register`; `udp_create_streams` without an address cannot fail. -/
def udpPollRegister (cur o : Nat) (events : Events) : UdpState → M (Except Errno Unit)
  | .unbound => do
      ready cur events
      return .ok ()
  | .boundNostreams => do
      let streams : Streams := ⟨false, false, false, false, false, false⟩
      onWorld (setObject o (.udp (.boundStreaming streams)))
      udpPollStreams cur o events .boundStreaming streams
  | .boundStreaming streams => udpPollStreams cur o events .boundStreaming streams
  | .connected streams => udpPollStreams cur o events .connected streams

/-- `pipe_block_reader_enter` or `pipe_block_writer_enter`, and the waitable
is added. -/
def pipePollEnter (cur o : Nat) (p : PipeEnd) : M (Except Errno Unit) := do
  if p.blocked then return .error .EOPNOTSUPP
  else do
    require (¬ p.woken) .assert
    pollAddAnd cur ⟨o, .pipe (if p.reader then .rdnorm else .wrnorm)⟩ (setObject o (.pipe { p with blocked := true }))

/-- `pipe_poll_register`. -/
def pipePollRegister (cur o : Nat) (events : Events) (p : PipeEnd) : M (Except Errno Unit) := do
  if events.Has POLLRDNORM ∧ p.reader then
    if 0 < p.bufferLen ∨ ¬ p.peerAlive then do
      ready cur POLLRDNORM
      return .ok ()
    else pipePollEnter cur o p
  else if events.Has POLLWRNORM ∧ ¬ p.reader then
    if p.bufferCap = 0 ∨ p.bufferLen < p.bufferCap ∨ ¬ p.peerAlive then do
      ready cur POLLWRNORM
      return .ok ()
    else pipePollEnter cur o p
  else return .ok ()

/-- Polling a stream of an object without `poll_register`. -/
def getAndPoll (cur o : Nat) (ev : PollEvents) : M (Except Errno Unit) :=
  andThen (onWorld (getStream o ev)) fun _ => streamPoll cur o ev

/-- The registration of an object without `poll_register`. -/
def streamsRegister (cur o : Nat) (events : Events) : M (Except Errno Unit) := do
  let events := strip events
  if events &&& ~~~(POLLRDNORM ||| POLLWRNORM) ≠ 0 then return .error .EOPNOTSUPP
  else
    andThen (if events.Has POLLRDNORM then getAndPoll cur o .rdnorm else return .ok ()) fun _ =>
      if events.Has POLLWRNORM then getAndPoll cur o .wrnorm else return .ok ()

/-- The registration of an object. -/
def objectRegister (cur o : Nat) (events : Events) : Object → M (Except Errno Unit)
  | .tcp state => tcpPollRegister cur o events state
  | .udp state => udpPollRegister cur o events state
  | .pipe p => pipePollRegister cur o events p
  | _ => streamsRegister cur o events

/-- One turn of the loop over the entries, with `descriptor_table_get`. -/
def register (table : Nat → Option Nat) (i : Nat) (p : PollFd) : M (Except Errno Unit) := do
  match table p.fd.toNat with
  | none => do
      ready i POLLNVAL
      return .ok ()
  | some o => objectRegister i o p.events (← onWorld (object o))

/-! ## Callbacks -/

/-- `tcp_connect_finish`: how the connect ended, and the state it leaves. -/
def connectFinish (o : Nat) : W Bool := do
  match ← next with
  | .connect false => do
      setObject o (.tcp .connectFailed)
      return false
  | .connect true => do
      -- `tcp_setup_connected_state_wasip3`
      match ← next, ← next with
      | .opened receive, .opened send => do
          require (receive ≠ 0 ∧ send ≠ 0) .host
          setObject o (.tcp (.connected (fresh receive) (fresh send)))
          return true
      | _, _ => throw .host
  | _ => throw .host

/-- `tcp_connect_ready`: the events to report. -/
def connectReady (o : Nat) (event : Bool) : W Events := do
  match ← object o with
  | .tcp (.connecting subtask polling) => do
      require polling .assert
      setObject o (.tcp (.connecting subtask false))
      if event then do
        require subtask .assert
        if ← connectFinish o then return POLLWRNORM else return POLLWRNORM ||| POLLRDNORM
      else return 0
  | _ => throw .assert

/-- `tcp_accept_ready`. -/
def acceptReady (o : Nat) (event : Bool) : W Events := do
  match ← object o with
  | .tcp (.listening l) => do
      require l.blocking .assert
      let l := { l with blocking := false }
      if event then
        match ← next with
        | .accept status => do
            setObject o (.tcp (.listening (← acceptFinish l status)))
            return POLLRDNORM
        | _ => throw .host
      else do
        setObject o (.tcp (.listening l))
        return 0
  | _ => throw .assert

/-- `udp_streams`. -/
def udpStreams : UdpState → Option (Streams × (Streams → UdpState))
  | .boundStreaming streams => some (streams, .boundStreaming)
  | .connected streams => some (streams, .connected)
  | _ => none

/-- `wasip3_recv_ready` and `wasip3_send_ready`, by what they check and
change, and report. -/
def udpReady (o : Nat) (event : Bool) (blocking subtask : Streams → Bool)
    (leave finish : Streams → Streams) (events : Events) : W Events := do
  match ← object o with
  | .udp state =>
    match udpStreams state with
    | none => throw .assert
    | some (streams, tag) => do
        require (blocking streams) .assert
        if event then do
          require (subtask streams) .assert
          setObject o (.udp (tag (finish (leave streams))))
          return events
        else do
          setObject o (.udp (tag (leave streams)))
          return 0
  | _ => throw .assert

/-- `wasip3_recv_ready`. -/
def recvReady (o : Nat) (event : Bool) : W Events :=
  udpReady o event Streams.recvBlocking Streams.recvSubtask
    (fun s => { s with recvBlocking := false })
    (fun s => { s with recvSubtask := false, recvReady := true }) POLLRDNORM

/-- `wasip3_send_ready`. -/
def sendReady (o : Nat) (event : Bool) : W Events :=
  udpReady o event Streams.sendBlocking (fun s => s.sendSubtask && !s.sendReady)
    (fun s => { s with sendBlocking := false })
    (fun s => { s with sendSubtask := false, sendReady := true }) POLLWRNORM

/-- `pipe_read_ready` and `pipe_write_ready`; an event shows that another
thread has woken the end. -/
def pipeReady (o : Nat) (ev : PollEvents) (event : Bool) : W Events := do
  match ← object o with
  | .pipe p => do
      setObject o (.pipe { p with blocked := false, woken := false })
      return if event then mask ev else 0
  | _ => throw .assert

/-- The event of the operation in flight on a stream. -/
def takeEvent : Stream.M Status := do
  match ← pollWaitable with
  | some status => return status
  | none => throw .host

/-- `wasip3_poll_read_ready` and `wasip3_poll_write_ready`. -/
def streamReady (o : Nat) (ev : PollEvents) (event : Bool) : W Events :=
  onHalf o ev do
    let status ← if event then some <$> takeEvent else pure none
    if ← Stream.pollReady ev status then return mask ev else return 0

/-- The callback of a waitable, with its event or without: the events that
it reports. -/
def callback (w : Waitable) (event : Bool) : W Events :=
  match w.role with
  | .stream ev => streamReady w.object ev event
  | .connect => connectReady w.object event
  | .accept => acceptReady w.object event
  | .recv => recvReady w.object event
  | .send => sendReady w.object event
  | .pipe ev => pipeReady w.object ev event

/-! ## The wait -/

/-- `wasip3_waitable_set_wait`, and `wasip3_waitable_set_poll` if there need
not be an event: what is in the set may have one. -/
def takeFromSet (blocking : Bool) (regs : List Reg) : W (Option Event) := do
  match ← next with
  | .event none => do
      require (¬ blocking) .host
      return none
  | .event (some .timeout) => do
      require (← get).timer.isSome .host
      return some .timeout
  | .event (some (.ready w)) => do
      require (∃ r ∈ regs, r.waitable = w) .host
      return some (.ready w)
  | _ => throw .host

def waitableSet (blocking : Bool) : M (Option Event) := do
  onWorld (takeFromSet blocking (← get).regs)

/-- Run the callbacks of registrations whose waitable has an event. -/
def deliver : List Reg → M PUnit
  | [] => pure ⟨⟩
  | r :: rs => do
      ready r.cur (← onWorld (callback r.waitable true))
      deliver rs

/-- What the loop does with an event. -/
def handle : Event → M PUnit
  | .timeout => modify fun s => { s with
      elapsed := (s.world.timer.getD 0).toNat
      world := { s.world with timer := none } }
  | .ready w => do
      let due := (← get).regs.filter fun r => r.waitable = w
      modify fun s => { s with regs := s.regs.filter fun r => r.waitable ≠ w }
      deliver due

/-- The loop over the events.  Every event takes the timer or a registration
out of the set. -/
def drain : Nat → Option Event → M PUnit
  | _, none => pure ⟨⟩
  | 0, some _ => throw .assert
  | turns + 1, some e => do
      handle e
      drain turns (← waitableSet false)

/-- The timer starts, if there is a timeout: the timeout that is left. -/
def startTimer : Option Timespec → M (Option Timespec)
  | none => return none
  | some t => do
      modify fun s => { s with clock := some t.ns }
      match ← onWorld next with
      | .waitFor true => do
          modify fun s => { s with elapsed := t.ns.toNat }
          return some .zero
      | .waitFor false => do
          modify fun s => { s with world := { s.world with timer := some t.ns } }
          return some t
      | _ => throw .host

/-- The first event: wait for it, or poll twice with a yield in between. -/
def firstEvent (timeout : Option Timespec) : M (Option Event) := do
  if timeout = none ∨ ∃ t ∈ timeout, t.sec ≠ 0 ∨ t.nsec ≠ 0 then waitableSet true
  else
    match ← waitableSet false with
    | some e => return some e
    | none => waitableSet false

/-- The end of the call: the callbacks that have not run. -/
def cleanup : List Reg → M PUnit
  | [] => modify fun s => { s with regs := [] }
  | r :: rs => do
      let _ ← onWorld (callback r.waitable false)
      cleanup rs

/-- `ppoll_impl` after the registration. -/
def ppollWait (timeout : Option Timespec) : M (Except Errno Nat) := do
  let timeout := if 0 < (← get).count then some Timespec.zero else timeout
  let timeout ← startTimer timeout
  let event ← firstEvent timeout
  drain ((← get).regs.length + 1) event
  return .ok (← get).count

/-- The body of `ppoll_impl`. -/
def ppollBody (table : Nat → Option Nat) (timeout : Option Timespec) : M (Except Errno Nat) := do
  -- `wasip3_waitable_set_new`
  modify fun s => { s with world := { s.world with timer := none } }
  andThen (registerEach (register table) 0 (← get).fds) fun _ => ppollWait timeout

/-- `ppoll_impl`. -/
def ppollImpl (table : Nat → Option Nat) (timeout : Option Timespec) : M (Except Errno Nat) := do
  let r ← ppollBody table timeout
  modify fun s => { s with world := { s.world with timer := none } }
  cleanup (← get).regs
  return r

/-- A call of `ppoll`; the descriptor table says which object a descriptor
names. -/
def call (table : Nat → Option Nat) (w : World) (timeout : Option Timespec) (fds : List PollFd) :
    Except Fault (Except Errno Nat × State Reg World) :=
  (ppoll (ppollImpl table) timeout).run (start fds w)

end WasiLibc.Poll.Preview3
