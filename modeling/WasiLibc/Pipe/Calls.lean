import WasiLibc.Pipe.State

/-!
# WasiLibc.Pipe.Calls

The functions of `pipe.c`, as cooperative threads run them, and the operations
on a stream of the component model without payload, both ends of which belong
to the pipe.

A function that waits is cut there: its thread is in a `Phase`, from which
`resumed` goes on.
-/

namespace WasiLibc.Pipe

open Function Wp

variable {ι : Type} [DecidableEq ι] [Fintype ι]

abbrev M (ι : Type) := StateT (State ι) (Except Fault)

/-! ## The stream -/

def setEnd (d : Dir) (e : End) : M ι PUnit :=
  modify fun s => { s with ends := update s.ends d e }

/-- `stream_read_unit` and `stream_write_unit`, of one element.  An operation
on an end that is not idle traps; it meets one that waits at the other end, or
waits itself. -/
def streamCopy (d : Dir) : M ι Status := do
  require ((← get).stream = true) .trap
  require ((← get).ends d = .idle) .trap
  if (← get).ends d.other = .copying then do
    setEnd d.other .finished
    return .code .completed 1
  else do
    setEnd d .copying
    return .blocked

/-- `stream_cancel_read_unit` and `stream_cancel_write_unit`. -/
def streamCancel (d : Dir) : M ι Status := do
  match (← get).ends d with
  | .idle => throw .trap
  | .copying => do
      setEnd d .idle
      return .code .cancelled 0
  | .finished => do
      setEnd d .idle
      return .code .completed 1

/-- The event of an end is delivered to the thread that waits for it. -/
def deliver (d : Dir) : M ι PUnit := do
  require ((← get).ends d = .finished) .host
  setEnd d .idle

/-- `pipe_ensure_stream`. -/
def ensureStream : M ι PUnit := modify fun s => { s with stream := true }

/-! ## Blocking and notification -/

/-- `pipe_unblock_reader` and `pipe_unblock_writer`, with the half whose
waiter is notified.  The notification goes through the other end. -/
def unblock (d : Dir) : M ι PUnit := do
  if ¬ (← get).blocked d then return ()
  else do
    require ((← get).stream = true) .assert
    if (← get).woken d then return ()
    else do
      modify fun s => { s with woken := update s.woken d true }
      let status ← streamCopy d.other
      require (status = .code .completed 1) .assert

def unblockWriter : M ι PUnit := unblock .write

def unblockReader : M ι PUnit := unblock .read

/-- `pipe_block_reader_enter` and `pipe_block_writer_enter`, with
`pipe_block_enter`. -/
def blockEnter (d : Dir) : M ι (Except Errno Unit) := do
  if (← get).blocked d then return .error .EOPNOTSUPP
  else do
    require (¬ (← get).woken d) .assert
    modify fun s => { s with blocked := update s.blocked d true }
    ensureStream
    let status ← streamCopy d
    require (status = .blocked) .assert
    return .ok ()

def blockReaderEnter : M ι (Except Errno Unit) := blockEnter .read

def blockWriterEnter : M ι (Except Errno Unit) := blockEnter .write

/-- `pipe_block_reader_exit` and `pipe_block_writer_exit`, with
`pipe_block_exit`. -/
def blockExit (d : Dir) : M ι Bool := do
  let woken := (← get).woken d
  modify fun s => { s with
    woken := update s.woken d false
    blocked := update s.blocked d false }
  if ¬ woken then do
    let status ← streamCancel d
    require (status = .code .cancelled 0) .assert
  return woken

def blockReaderExit : M ι Bool := blockExit .read

def blockWriterExit : M ι Bool := blockExit .write

/-! ## Threads -/

/-- The thread waits. -/
def park (t : ι) (p : Phase) : M ι PUnit :=
  modify fun s => { s with thread := update s.thread t p }

/-- The call of the thread returns. -/
def finish (t : ι) (e : Event) : M ι PUnit := do
  modify fun s => { s with log := s.log ++ [e] }
  park t .idle

/-! ## Reading and writing -/

/-- The loop of `pipe_recvfrom`, up to its end or its wait. -/
def recvLoop (t : ι) (length : Nat) : M ι PUnit := do
  if (← get).buffer ≠ [] then do
    let buffer := (← get).buffer
    let amt := min length buffer.length
    modify fun s => { s with buffer := buffer.drop amt }
    unblockWriter
    finish t (.received length (.ok (buffer.take amt)))
  else if ¬ (← get).alive .write then finish t (.received length (.ok []))
  else if ¬ (← get).blocking .read then finish t (.received length (.error .EWOULDBLOCK))
  else
    match ← blockReaderEnter with
    | .error e => finish t (.received length (.error e))
    | .ok _ => park t (.receiving length)

/-- `pipe_recvfrom`. -/
def recvfrom (t : ι) (half : Dir) (length : Nat) (invalid : Bool) : M ι PUnit := do
  if invalid then finish t (.received length (.error .EINVAL))
  else if half ≠ .read then finish t (.received length (.error .EBADF))
  else if length = 0 then finish t (.received length (.ok []))
  else recvLoop t length

/-- The loop of `pipe_sendto`, up to its end or its wait. -/
def sendLoop (t : ι) (data : List UInt8) : M ι PUnit := do
  if ¬ (← get).alive .read then finish t (.sent data (.error .EPIPE))
  else if (← get).Accepts data.length then do
    let remaining := (← get).cap - (← get).buffer.length
    let amt := min data.length remaining
    modify fun s => { s with buffer := s.buffer ++ data.take amt }
    unblockReader
    finish t (.sent data (.ok amt))
  else if ¬ (← get).blocking .write then finish t (.sent data (.error .EWOULDBLOCK))
  else
    match ← blockWriterEnter with
    | .error e => finish t (.sent data (.error e))
    | .ok _ => park t (.sending data)

/-- The buffer is allocated if there is none yet; `malloc` is what the
allocator says. -/
def allocate (malloc : Bool) : M ι Bool := do
  if (← get).allocated then return true
  else do
    modify fun s => { s with cap := PIPE_BUF, allocated := malloc }
    return malloc

/-- `pipe_sendto`. -/
def sendto (t : ι) (half : Dir) (data : List UInt8) (invalid malloc : Bool) : M ι PUnit := do
  if invalid then finish t (.sent data (.error .EINVAL))
  else if half ≠ .write then finish t (.sent data (.error .EBADF))
  else if data = [] then finish t (.sent data (.ok 0))
  else if ← allocate malloc then sendLoop t data
  else finish t (.sent data (.error .ENOMEM))

/-! ## Polling -/

/-- What the host says in a step: `malloc`, `__wasilibc_poll_add`, and the
event that a `poll` finds. -/
inductive Found where
  | half (d : Dir)
  /-- An event of another descriptor or of the timer. -/
  | other
  | none
  deriving DecidableEq, Repr

structure Env where
  malloc : Bool
  pollAdd : Bool
  found : Found

/-- The part of `pipe_poll_register` for a half that is not ready: the thread
is blocked on it, and its end is added to the waitable set. -/
def pollEnter (t : ι) (d : Dir) (pollAdd : Bool) (todo : List PollFd) (regs : List Dir) :
    M ι PUnit := do
  match ← blockEnter d with
  | .error _ => park t (.cleaning regs)
  | .ok _ =>
    if pollAdd then park t (.registering todo (regs ++ [d]))
    else do
      let _ ← blockExit d
      park t (.cleaning regs)

/-- `pipe_poll_register`; a half that is gone is no open descriptor. -/
def pollRegister (t : ι) (fd : PollFd) (pollAdd : Bool) (todo : List PollFd)
    (regs : List Dir) : M ι PUnit := do
  let s ← get
  if ¬ s.alive fd.half then park t (.registering todo regs)
  else if fd.rdnorm ∧ fd.half = .read then
    if s.buffer ≠ [] ∨ ¬ s.alive .write then park t (.registering todo regs)
    else pollEnter t .read pollAdd todo regs
  else if fd.wrnorm ∧ fd.half = .write then
    if s.cap = 0 ∨ s.buffer.length < s.cap ∨ ¬ s.alive .read then park t (.registering todo regs)
    else pollEnter t .write pollAdd todo regs
  else park t (.registering todo regs)

/-- `pipe_read_ready` and `pipe_write_ready` with an event, which is taken from
the waitable set. -/
def pollReady (t : ι) (d : Dir) (regs : List Dir) : M ι PUnit := do
  require (d ∈ regs) .host
  deliver d
  let woken ← blockExit d
  require (woken = true) .assert
  park t (.polling (regs.erase d))

/-- `poll` finds an event, or no more. -/
def pollWait (t : ι) (regs : List Dir) : Found → M ι PUnit
  | .half d => pollReady t d regs
  | .other => return ()
  | .none => do
      require (∀ d ∈ regs, (← get).ends d ≠ .finished) .host
      park t (.cleaning regs)

/-! ## Closing -/

/-- `pipe_state_free`. -/
def stateFree : M ι PUnit := do
  require (¬ (← get).alive .read) .assert
  require (¬ (← get).alive .write) .assert
  modify fun s => { s with freed := s.freed + 1 }

/-- `pipe_free`. -/
def free (d : Dir) : M ι PUnit := do
  modify fun s => { s with
    alive := update s.alive d false
    log := s.log ++ [.closed d] }
  if ¬ (← get).alive .read ∧ ¬ (← get).alive .write then stateFree
  else if d = .read then unblockWriter
  else unblockReader

/-! ## Steps -/

/-- A call begins. -/
def call (t : ι) (malloc : Bool) : Call → M ι PUnit
  | .recvfrom half length invalid => recvfrom t half length invalid
  | .sendto half data invalid => sendto t half data invalid malloc
  | .setBlocking half blocking =>
    modify fun s => { s with blocking := update s.blocking half blocking }
  | .poll fds => park t (.registering fds [])

/-- A thread goes on.  Another descriptor may make a `poll` wait between two of
its entries, so that each entry is a step. -/
def resumed (t : ι) (env : Env) : Phase → M ι PUnit
  | .idle => throw .host
  | .receiving length => do
      deliver .read
      let _ ← blockReaderExit
      recvLoop t length
  | .sending data => do
      deliver .write
      let _ ← blockWriterExit
      sendLoop t data
  | .registering [] regs => park t (.polling regs)
  | .registering (fd :: todo) regs => pollRegister t fd env.pollAdd todo regs
  | .polling regs => pollWait t regs env.found
  | .cleaning [] => park t .idle
  | .cleaning (d :: regs) => do
      let _ ← blockExit d
      park t (.cleaning regs)

/-- A thread calls, or goes on; or the last reference to a half is dropped. -/
inductive Label (ι : Type) where
  | call (t : ι) (c : Call) (env : Env)
  | resume (t : ι) (env : Env)
  | close (d : Dir)

/-- What runs in a step.  A half is destroyed once, when no thread is in a call
on it. -/
def program (s : State ι) : Label ι → M ι PUnit
  | .call t c env => do
      require (s.thread t = .idle ∧ ∀ d ∈ c.half, s.alive d = true) .host
      call t env.malloc c
  | .resume t env => resumed t env (s.thread t)
  | .close d => do
      require (s.alive d = true ∧ ∀ t, d ∉ (s.thread t).halves) .host
      free d

def exec (s : State ι) (l : Label ι) : Except Fault (State ι) := Prod.snd <$> program s l s

/-- A step that is possible. -/
def next (s : State ι) (l : Label ι) : Option (State ι) := (exec s l).toOption

end WasiLibc.Pipe
