import WasiLibc.Stream.Host

/-!
# WasiLibc.Stream.Io

The functions of `file_utils.c` and `wasip3_block_on.c` that read, write,
poll and close a wasip3 stream, on one thread.  The object's lock and
`blocking_lock` do not occur; the flag `WASIP3_IO_BLOCKED` does, with the
trap that the build without threads puts behind it.

A result of `-1` with `errno` is `.error`.  Loops carry a bound on their
number of turns, and running over it is a fault that the correctness
results exclude.
-/

namespace WasiLibc.Stream

open Wp

/-! ## Bookkeeping -/

/-- `wasip3_io_update_code`. -/
def ioUpdateCode : Status → M Nat
  | .blocked => throw .assert
  | .code state count => do
      if state = .dropped then modifyIo fun io => { io with done := true }
      assert (← getIo).inprogress
      modifyIo fun io => { io with inprogress := false }
      if (← getIo).zeroInprogress then do
        modifyIo fun io => { io with zeroInprogress := false }
        assert (¬ (← getIo).shouldBeReady)
        modifyIo fun io => { io with shouldBeReady := true }
      return count

/-- `wasip3_io_sync`. -/
def ioSync (blocking : Bool) : M (Except Errno Unit) := do
  if (← getIo).blocked then
    if blocking then throw .trap else return .error .EOPNOTSUPP
  else return .ok ()

/-- `wasip3_enter_blocking_operation`. -/
def enterBlockingOperation : M PUnit := do
  assert (¬ (← getIo).blocked)
  modifyIo fun io => { io with blocked := true }

/-- `wasip3_exit_blocking_operation`. -/
def exitBlockingOperation : M PUnit := do
  assert (← getIo).blocked
  modifyIo fun io => { io with blocked := false }

/-- `__wasilibc_stream_block_on_timeout`: the amount, and whether the stream
was closed. -/
def streamBlockOnTimeout (status : Status) (timeout : Nat) : M (Except Errno Nat × Bool) := do
  match status with
  | .code state count => return (.ok count, state = .dropped)
  | .blocked =>
    match ← waitableBlockOn timeout with
    | some (.code state count) => return (.ok count, state = .dropped)
    | some .blocked => throw .assert
    | none =>
      match ← streamCancel with
      | .code state count =>
        if state = .cancelled ∧ count = 0 then return (.error .ETIMEDOUT, false)
        else return (.ok count, state = .dropped)
      | .blocked => throw .assert

/-- The blocking case of a read or a write, with the operation to start. -/
def transferBlocking (start : M Status) (timeout : Nat) : M (Except Errno Nat) := do
  modifyIo fun io => { io with shouldBeReady := false }
  enterBlockingOperation
  let status ← start
  let (amount, done) ← streamBlockOnTimeout status timeout
  exitBlockingOperation
  if done then modifyIo fun io => { io with done := true }
  return amount

/-- `wasip3_start_zero_length`, with the operation to start. -/
def startZeroLength (start : M Status) : M Bool := do
  let status ← start
  let io ← getIo
  assert (¬ io.inprogress)
  assert (¬ io.zeroInprogress)
  assert (¬ io.shouldBeReady)
  assert (¬ io.done)
  modifyIo fun io => { io with inprogress := true, zeroInprogress := true }
  if status = .blocked then return true
  else do
    let _ ← ioUpdateCode status
    return false

/-- `wasip3_write_start_zero_length`. -/
def writeStartZeroLength : M Bool := startZeroLength (streamWrite false [])

/-- `wasip3_read_start_zero_length`. -/
def readStartZeroLength : M Bool := startZeroLength (streamRead false 0)

/-- What an attempt returns, once its operation has ended. -/
def attemptEnd (status : Status) : M (Option Nat) := do
  let amount ← ioUpdateCode status
  if 0 < amount then return some amount
  else if (← getIo).done then return some 0
  else return none

/-- The opportunistic attempt of a nonblocking call with the caller's own
buffer: cancelled if it blocks, and returned if anything was transferred. -/
def attempt (start : M Status) (shouldBeReady : Bool) : M (Option Nat) := do
  let status ← start
  modifyIo fun io => { io with inprogress := true }
  if status = .blocked then do
    if shouldBeReady then modifyIo fun io => { io with mustBuffer := true }
    attemptEnd (← streamCancel)
  else attemptEnd status

/-- The loop of a nonblocking call; `none` is its `break`, after which the
data must be buffered.  It turns at most twice, since the second turn comes
with `should_be_ready`. -/
def nonblockingLoop (start zeroLength : M Status) : Nat → M (Option (Except Errno Nat))
  | 0 => throw .assert
  | turns + 1 => do
      let shouldBeReady := (← getIo).shouldBeReady
      modifyIo fun io => { io with shouldBeReady := false }
      let tried ← if (← getIo).mustBuffer then pure none else attempt start shouldBeReady
      match tried with
      | some amount => return some (.ok amount)
      | none =>
        if (← getIo).mustBuffer then return none
        else if ← startZeroLength zeroLength then return some (.error .EWOULDBLOCK)
        else if (← getIo).done then return some (.ok 0)
        else do
          assert (← getIo).shouldBeReady
          nonblockingLoop start zeroLength turns

/-! ## Writing -/

/-- Release the internal buffer. -/
def IoState.freeBuf (io : IoState) : IoState :=
  { io with buf := none, bufStart := 0, bufEnd := 0, bufSize := 0 }

/-- The loop of `wasip3_advance_pending_write`. -/
def advanceLoop : Nat → M Bool
  | 0 => throw .assert
  | turns + 1 => do
      let io ← getIo
      if ¬ io.done ∧ io.bufStart ≠ io.bufEnd then do
        let status ← streamWrite true io.window
        modifyIo fun io => { io with inprogress := true }
        if status = .blocked then return false
        else do
          let n ← ioUpdateCode status
          modifyIo fun io => { io with bufStart := io.bufStart + n }
          advanceLoop turns
      else do
        assert (io.done ∨ io.bufStart = io.bufEnd)
        modifyIo IoState.freeBuf
        return true

/-- `wasip3_advance_pending_write`; each turn of its loop sends a byte. -/
def advancePendingWrite (event : Status) : M Bool := do
  let n ← ioUpdateCode event
  modifyIo fun io => { io with bufStart := io.bufStart + n }
  let io ← getIo
  advanceLoop (io.bufEnd - io.bufStart + 1)

/-- One wait of `wasip3_write_resolve_pending`. -/
def awaitPending (blocking : Bool) (timeout : Nat) : M (Except Errno Status) := do
  if blocking then do
    enterBlockingOperation
    let event ← waitableBlockOn timeout
    exitBlockingOperation
    match event with
    | some event => return .ok event
    | none => return .error .ETIMEDOUT
  else
    match ← pollWaitable with
    | some event => return .ok event
    | none => return .error .EWOULDBLOCK

/-- The loop of `wasip3_write_resolve_pending`. -/
def resolveLoop (blocking : Bool) (timeout : Nat) : Nat → M (Except Errno Unit)
  | 0 => throw .assert
  | turns + 1 => do
      match ← awaitPending blocking timeout with
      | .error e => return .error e
      | .ok event =>
        if ← advancePendingWrite event then return .ok ()
        else if blocking then resolveLoop blocking timeout turns
        else do
          assert (← getIo).inprogress
          return .error .EWOULDBLOCK

/-- `wasip3_write_resolve_pending`; each event tells of a byte sent, or of a
zero-length write. -/
def writeResolvePending (blocking : Bool) (timeout : Nat) : M (Except Errno Unit) := do
  let io ← getIo
  assert (¬ io.blocked)
  if ¬ io.inprogress then return .ok ()
  else do
    assert (io.buf.isSome ∨ io.zeroInprogress)
    resolveLoop blocking timeout (io.bufEnd - io.bufStart + 1)

/-- The blocking case of a write. -/
def writeBlocking (timeout : Nat) (buffer : List UInt8) : M (Except Errno Nat) :=
  transferBlocking (streamWrite false buffer) timeout

/-- The end of a nonblocking write: the data is copied into the internal
buffer, and a write that blocks is reported as done. -/
def writeBuffered (buffer : List UInt8) : M (Except Errno Nat) := do
  let io ← getIo
  assert io.mustBuffer
  assert (¬ io.shouldBeReady)
  assert (¬ io.inprogress)
  assert (¬ io.zeroInprogress)
  assert (¬ io.done)
  assert (io.buf = none)
  if ← alloc then do
    modifyIo fun io => { io with
      buf := some buffer, bufStart := 0, bufEnd := buffer.length, bufSize := buffer.length }
    let status ← streamWrite true buffer
    modifyIo fun io => { io with inprogress := true }
    if status = .blocked then return .ok buffer.length
    else do
      modifyIo IoState.freeBuf
      return .ok (← ioUpdateCode status)
  else return .error .ENOMEM

/-- The nonblocking case of a write. -/
def writeNonblocking (buffer : List UInt8) : M (Except Errno Nat) := do
  match ← nonblockingLoop (streamWrite false buffer) (streamWrite false []) 2 with
  | some result => return result
  | none => writeBuffered buffer

/-- `__wasilibc_write_without_offset_update`, after `wasip3_io_sync`. -/
def writeSynced (blocking : Bool) (timeout : Nat) (buffer : List UInt8) :
    M (Except Errno Nat) := do
  if (← getIo).stream = 0 then return .ok 0
  else
    match ← writeResolvePending blocking timeout with
    | .error e => return .error e
    | .ok _ => do
        assert (¬ (← getIo).inprogress)
        assert (¬ (← getIo).zeroInprogress)
        if buffer = [] then return .ok 0
        else if (← getIo).done then return .ok 0
        else if blocking then writeBlocking timeout buffer
        else writeNonblocking buffer

/-- `__wasilibc_write_without_offset_update`. -/
def writeWithoutOffsetUpdate (blocking : Bool) (timeout : Nat) (buffer : List UInt8) :
    M (Except Errno Nat) := do
  match ← ioSync blocking with
  | .error e => return .error e
  | .ok _ => writeSynced blocking timeout buffer

/-- The first part of `wasip3_write_state_close`: data that was acknowledged
is waited for. -/
def writeStateFlush : M PUnit := do
  let io ← getIo
  if io.inprogress ∧ ¬ io.zeroInprogress then
    match ← writeResolvePending true 0 with
    | .ok _ => assert (¬ (← getIo).inprogress)
    | .error _ => throw .assert
  else pure ()

/-- `wasip3_write_state_close`. -/
def writeStateClose : M PUnit := do
  writeStateFlush
  if (← getIo).inprogress then do
    let _ ← streamCancel
    modifyIo fun _ => IoState.zero
  else modifyIo fun _ => IoState.zero

/-! ## Reading -/

/-- `wasip3_read_start_nonzero`. -/
def readStartNonzero (length : Nat) : M (Except Errno Unit) := do
  let io ← getIo
  assert io.mustBuffer
  assert (¬ io.shouldBeReady)
  assert (¬ io.inprogress)
  assert (¬ io.zeroInprogress)
  assert (¬ io.done)
  assert (io.buf = none)
  assert (length ≠ 0)
  if ← alloc then do
    modifyIo fun io => { io with buf := some [], bufStart := 0, bufEnd := 0, bufSize := length }
    let status ← streamRead true length
    modifyIo fun io => { io with inprogress := true }
    if status = .blocked then return .error .EWOULDBLOCK
    else do
      let n ← ioUpdateCode status
      modifyIo fun io => { io with bufEnd := n }
      return .ok ()
  else return .error .ENOMEM

/-- `wasip3_read_complete_internally`: the copy fills the caller's buffer. -/
def readCompleteInternally (length : Nat) : M Nat := do
  let io ← getIo
  let bufLen := io.bufEnd - io.bufStart
  let amount := if bufLen < length then bufLen else length
  modify fun w => { w with user := (w.io.window).take amount }
  modifyIo fun io => { io with bufStart := io.bufStart + amount }
  if (← getIo).bufStart = (← getIo).bufEnd then modifyIo IoState.freeBuf
  return amount

/-- The first part of a read: an operation that is in flight must end. -/
def readResolvePending (blocking : Bool) (timeout : Nat) : M (Except Errno Unit) := do
  if (← getIo).inprogress then
    match ← awaitPending blocking timeout with
    | .error e => return .error e
    | .ok event => do
        let n ← ioUpdateCode event
        modifyIo fun io => { io with bufEnd := n }
        return .ok ()
  else return .ok ()

/-- The blocking case of a read. -/
def readBlocking (timeout length : Nat) : M (Except Errno Nat) :=
  transferBlocking (streamRead false length) timeout

/-- The nonblocking case of a read. -/
def readNonblocking (length : Nat) : M (Except Errno Nat) := do
  match ← nonblockingLoop (streamRead false length) (streamRead false 0) 2 with
  | some result => return result
  | none =>
    match ← readStartNonzero length with
    | .error e => return .error e
    | .ok _ => return .ok (← readCompleteInternally length)

/-- `__wasilibc_read_without_offset_update`, after `wasip3_io_sync`. -/
def readSynced (blocking : Bool) (timeout length : Nat) : M (Except Errno Nat) := do
  if (← getIo).stream = 0 then return .ok 0
  else
    match ← readResolvePending blocking timeout with
    | .error e => return .error e
    | .ok _ => do
        assert (¬ (← getIo).inprogress)
        if (← getIo).buf.isSome then return .ok (← readCompleteInternally length)
        else if length = 0 then return .ok 0
        else if (← getIo).done then return .ok 0
        else if blocking then readBlocking timeout length
        else readNonblocking length

/-- `__wasilibc_read_without_offset_update`. -/
def readWithoutOffsetUpdate (blocking : Bool) (timeout length : Nat) : M (Except Errno Nat) := do
  match ← ioSync blocking with
  | .error e => return .error e
  | .ok _ => readSynced blocking timeout length

/-! ## Polling -/

/-- `enum wasip3_poll_status`. -/
inductive PollStatus where
  | ready
  | inprogress
  | error
  deriving DecidableEq, Repr

/-- The events that a stream can be polled for. -/
inductive PollEvents where
  | rdnorm
  | wrnorm
  deriving DecidableEq, Repr

/-- `wasip3_stream_poll_init`. -/
def streamPollInit (events : PollEvents) : M PollStatus := do
  let io ← getIo
  if io.stream = 0 then return .ready
  else if io.done then return .ready
  else if io.inprogress then return .inprogress
  else if events = .rdnorm ∧ io.buf.isSome then return .ready
  else if io.mustBuffer then
    match events with
    | .wrnorm => return .ready
    | .rdnorm =>
      match ← readStartNonzero (16 * 1024) with
      | .error .EWOULDBLOCK => return .inprogress
      | .error _ => return .error
      | .ok _ => return .ready
  else if io.shouldBeReady then return .ready
  else
    let startedWork ←
      match events with
      | .wrnorm => writeStartZeroLength
      | .rdnorm => readStartZeroLength
    return if startedWork then .inprogress else .ready

/-- What the callbacks do with an event. -/
def pollEvent (event : Status) : PollEvents → M Bool
  | .rdnorm => do
      let n ← ioUpdateCode event
      modifyIo fun io => { io with bufEnd := n }
      return true
  | .wrnorm => do
      if ← advancePendingWrite event then return true
      else do
        assert (← getIo).inprogress
        return false

/-- The callbacks `wasip3_poll_write_ready` and `wasip3_poll_read_ready`,
run with the event or at the end of the poll without one. -/
def pollReady (events : PollEvents) (event : Option Status) : M Bool := do
  exitBlockingOperation
  match event with
  | none => return false
  | some event => pollEvent event events

/-- The rest of a poll, while an operation is in progress. -/
def pollInprogress (events : PollEvents) : M (Except Errno Bool) := do
  if ← alloc then do
    enterBlockingOperation
    return .ok (← pollReady events (← pollWaitable))
  else return .error .ENOMEM

/-- A `poll` of the stream: `wasip3_stream_poll`, the wait of `ppoll`, and
the callback.  The result tells whether the stream was found ready. -/
def streamPoll (events : PollEvents) : M (Except Errno Bool) := do
  match ← ioSync false with
  | .error e => return .error e
  | .ok _ =>
    match ← streamPollInit events with
    | .ready => return .ok true
    | .error => return .error .ENOMEM
    | .inprogress => pollInprogress events

end WasiLibc.Stream
