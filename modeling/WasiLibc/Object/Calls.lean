import WasiLibc.Object.State

/-!
# WasiLibc.Object.Calls

The functions of `file_utils.c`, `tcp.c`, `file.c` and `ppoll.c` that read,
write, poll, close and seek, as cooperative threads run them.

A function that may wait is cut at its waits.  The part before a wait ends by
parking the thread, and the part after it is a function of its own: a thread
in `Phase.locking l k` goes on with `acquired` when it gets the lock, and one
in `Phase.waiting w` with `answered`.  What happens to the streams in between
is done by the programs of `Stream`.
-/

namespace WasiLibc.Object

open Function Futex Wp

variable {T : Threads} {α : Type}

/-- Why a step is not possible. -/
inductive Stop where
  /-- The host, or the scheduler, does not act so. -/
  | host
  /-- A failure of the code that handles a stream. -/
  | stream (e : Fault)
  /-- An assertion on flags and locks fails, or a thread does not get a lock
  that it must get at once. -/
  | protocol
  deriving DecidableEq, Repr

abbrev M (T : Threads) := StateT (State T) (Except Stop)

/-! ## Locks and threads -/

def setLock (l : LockId) (lk : Lock T) : M T PUnit :=
  modify fun s => { s with lock := update s.lock l lk }

/-- The thread waits. -/
def park (t : Tid T) (p : Phase) : M T PUnit :=
  modify fun s => { s with thread := update s.thread t p }

/-- The call of the thread returns. -/
def finish (t : Tid T) (result : Except Errno Int) : M T PUnit := do
  modify fun s => { s with returned := update s.returned t (some result) }
  park t .idle

/-- `STRONG_LOCK`: if the lock is not free, the thread waits for it with `k`
to do. -/
def lock (t : Tid T) (l : LockId) (k : Cont) : M T Bool := do
  let (got, lk) := ((← get).lock l).lock t
  setLock l lk
  if got then return true
  else do
    park t (.locking l k)
    return false

/-- The rest of `STRONG_LOCK`, in a thread that was woken. -/
def relock (t : Tid T) (l : LockId) : M T Bool := do
  require (t ∉ ((← get).lock l).queue) .host
  let (got, lk) := ((← get).lock l).relock t
  setLock l lk
  return got

/-- `STRONG_UNLOCK`. -/
def unlock (l : LockId) : M T PUnit := do
  setLock l ((← get).lock l).unlock

/-! ## I/O states -/

/-- Run a program on the stream of a half. -/
def onEnd (d : Dir) (p : Stream.M α) : M T α := fun s =>
  match p { s.world d with script := s.env.script } with
  | .ok (a, w) => .ok (a, { s with
      world := update s.world d w
      env := { s.env with script := w.script } })
  | .error .host => .error .host
  | .error e => .error (.stream e)

def getIo (d : Dir) : M T Stream.IoState := return ((← get).world d).io

def modifyIo (d : Dir) (f : Stream.IoState → Stream.IoState) : M T PUnit :=
  modify fun s => { s with
    world := update s.world d { s.world d with io := f (s.world d).io } }

/-- The number of other threads in I/O on the half. -/
def State.users (s : State T) (t : Tid T) (d : Dir) : Nat :=
  (Finset.univ.filter fun u => u ≠ t ∧ (s.roles u).Uses d).card

/-- `memset(state, 0, sizeof(*state))`. -/
def zeroState (t : Tid T) (d : Dir) : M T PUnit :=
  modify fun s => { s with
    world := update s.world d { s.world d with io := .zero }
    waiters := update s.waiters d 0
    lock := update s.lock (.blocking d) { s.lock (.blocking d) with word := 0 }
    zeroed := ⟨d, (s.lock (.blocking d)).word, s.waiters d, s.users t d⟩ :: s.zeroed }

/-- `wasip3_io_state_init`, with a stream that was just opened. -/
def ioStateInit (t : Tid T) (d : Dir) : M T PUnit := do
  zeroState t d
  modify fun s => { s with
    world := update s.world d ⟨.init 1, openHost, [], [], []⟩ }

/-- `wasip3_io_state_blocked`. -/
def ioStateBlocked (d : Dir) : M T Bool := do
  return (← getIo d).blocked || 0 < (← get).waiters d

/-- `wasip3_enter_blocking_operation`. -/
def enterBlockingOperation (t : Tid T) (d : Dir) : M T PUnit := do
  require (¬ (← getIo d).blocked) .protocol
  modifyIo d fun io => { io with blocked := true }
  let (got, lk) := ((← get).lock (.blocking d)).lock t
  setLock (.blocking d) lk
  require (got = true) .protocol

/-- `wasip3_exit_blocking_operation`. -/
def exitBlockingOperation (d : Dir) : M T PUnit := do
  unlock (.blocking d)
  require (← getIo d).blocked .protocol
  modifyIo d fun io => { io with blocked := false }

/-- `wasip3_io_sync`; `none` says that the thread waits.  Between two turns
of the loop there is a wait, unless the flag is set and the blocking lock is
free. -/
def ioSync (t : Tid T) (c : Io) : Nat → M T (Option (Except Errno Unit))
  | 0 => throw .protocol
  | turns + 1 => do
      if (← getIo c.dir).blocked then
        if ¬ c.blocking then return some (.error .EOPNOTSUPP)
        else do
          modify fun s => { s with
            waiters := update s.waiters c.dir (s.waiters c.dir + 1) }
          unlock .object
          if ← lock t (.blocking c.dir) (.bounced c) then do
            unlock (.blocking c.dir)
            if ← lock t .object (.retry c) then do
              modify fun s => { s with
                waiters := update s.waiters c.dir (s.waiters c.dir - 1) }
              ioSync t c turns
            else return none
          else return none
      else return some (.ok ())

/-! ## Reading and writing -/

/-- The end of a call: the object's lock is given back. -/
def leave (t : Tid T) (result : Except Errno Int) : M T PUnit := do
  unlock .object
  finish t result

/-- What `tcp_read_eof`, `tcp_write_eof`, `file_read_eof` and
`file_write_eof` return, once the result of the stream is known. -/
def eofResult (kind : Kind) (d : Dir) (error : Option Errno) : Except Errno Int :=
  match error with
  | some e => .error e
  | none => if kind = .tcp ∧ d = .write then .error .EPIPE else .ok 0

/-- The end of `__wasilibc_read` and `__wasilibc_write`: the offset, and the
callback at the end of the stream. -/
def transferred (t : Tid T) (c : Io) (result : Except Errno Nat) : M T PUnit := do
  match result with
  | .error e => leave t (.error e)
  | .ok (n + 1) => do
      if (← get).kind = .file then
        modify fun s => { s with offset := s.offset + (n + 1 : Nat) }
      leave t (.ok (n + 1 : Nat))
  | .ok 0 => do
      let io ← getIo c.dir
      if io.done ∨ io.stream = 0 then
        if (← get).result c.dir then park t (.waiting (.eof c))
        else leave t (eofResult (← get).kind c.dir none)
      else leave t (.ok 0)

/-- The callback at the end of the stream, when the result has come. -/
def eof (t : Tid T) (c : Io) : M T PUnit := do
  modify fun s => { s with result := update s.result c.dir false }
  leave t (eofResult (← get).kind c.dir (← get).env.eof)

/-- The start of a wait for the operation in progress, as in
`wasip3_write_resolve_pending`. -/
def awaitPending (t : Tid T) (p : Pending) : M T PUnit := do
  enterBlockingOperation t p.dir
  unlock .object
  park t (.waiting (.pending p))

/-- The start of the transfer with the caller's own buffer. -/
def start : Transfer → Stream.M Status
  | .read length => Stream.streamRead false length
  | .write buffer => Stream.streamWrite false buffer

/-- The start of a blocking transfer. -/
def awaitTransfer (t : Tid T) (c : Io) : M T PUnit := do
  modifyIo c.dir fun io => { io with shouldBeReady := false }
  enterBlockingOperation t c.dir
  unlock .object
  let status ← onEnd c.dir (start c.what)
  park t (.waiting (.transfer c status))

/-- A blocking transfer, when no operation is in progress any more. -/
def transferReady (t : Tid T) (c : Io) : M T PUnit := do
  let io ← getIo c.dir
  require (¬ io.inprogress) (.stream .assert)
  match c.what with
  | .read length =>
    if io.buf.isSome then do
      transferred t c (.ok (← onEnd .read (Stream.readCompleteInternally length)))
    else if length = 0 then transferred t c (.ok 0)
    else if io.done then transferred t c (.ok 0)
    else awaitTransfer t c
  | .write buffer => do
      require (¬ io.zeroInprogress) (.stream .assert)
      if buffer = [] then transferred t c (.ok 0)
      else if io.done then transferred t c (.ok 0)
      else awaitTransfer t c

/-- A transfer, after `wasip3_io_sync`. -/
def synced (t : Tid T) (c : Io) : M T PUnit := do
  if c.blocking then
    if (← getIo c.dir).stream = 0 then transferred t c (.ok 0)
    else if (← getIo c.dir).inprogress then awaitPending t (.io c)
    else transferReady t c
  else park t (.waiting (.nonblocking c))

/-- `__wasilibc_read` and `__wasilibc_write`, from `wasip3_io_sync` on. -/
def transfer (t : Tid T) (c : Io) : M T PUnit := do
  match ← ioSync t c 1 with
  | none => pure ()
  | some (.error e) => leave t (.error e)
  | some (.ok _) => synced t c

/-- `wasip3_io_sync`, when the blocking lock has been got. -/
def bounced (t : Tid T) (c : Io) : M T Bool := do
  unlock (.blocking c.dir)
  lock t .object (.retry c)

/-- `wasip3_io_sync`, when the object's lock has been got again. -/
def retry (t : Tid T) (c : Io) : M T PUnit := do
  modify fun s => { s with waiters := update s.waiters c.dir (s.waiters c.dir - 1) }
  transfer t c

/-- A nonblocking transfer. -/
def nonblocking (t : Tid T) (c : Io) : M T PUnit := do
  match c.what with
  | .read length => transferred t c (← onEnd .read (Stream.readSynced false c.timeout length))
  | .write buffer => transferred t c (← onEnd .write (Stream.writeSynced false c.timeout buffer))

/-- `tcp_get_read_stream`, `file_get_read_stream` and the like: how the call
is to be done, and for a file its stream. -/
def getStream (t : Tid T) (what : Transfer) (dontwait : Bool) : M T Io := do
  match (← get).kind with
  | .tcp => return ⟨what, (← get).blocking && !dontwait, (← get).timeout what.dir⟩
  | .file => do
      if (← getIo what.dir).stream = 0 then do
        ioStateInit t what.dir
        modify fun s => { s with result := update s.result what.dir true }
      return ⟨what, true, 0⟩

/-! ## Closing -/

/-- What comes after the I/O states have been closed. -/
def closed (t : Tid T) : After → M T PUnit
  | .shutdown => leave t (.ok 0)
  | .seek offset => do
      modify fun s => { s with result := fun _ => false, offset := offset }
      leave t (.ok offset)

/-- The rest of `wasip3_write_state_close`, after the flush. -/
def closeFlushed (t : Tid T) (after : After) : M T PUnit := do
  if (← getIo .write).inprogress then park t (.waiting (.cancelWrite after))
  else do
    zeroState t .write
    closed t after

/-- `wasip3_write_state_close`: data that was acknowledged is waited for. -/
def writeStateClose (t : Tid T) (after : After) : M T PUnit := do
  let io ← getIo .write
  if io.inprogress ∧ ¬ io.zeroInprogress then awaitPending t (.close after)
  else closeFlushed t after

/-- The write half is closed, if that is wanted. -/
def closeWrite (t : Tid T) (wanted : Bool) (after : After) : M T PUnit := do
  if wanted then writeStateClose t after else closed t after

/-- `wasip3_read_state_close`, and then the write half. -/
def readStateClose (t : Tid T) (write : Bool) (after : After) : M T PUnit := do
  if (← getIo .read).inprogress then park t (.waiting (.cancelRead write after))
  else do
    zeroState t .read
    closeWrite t write after

/-- `wasip3_read_state_close`, when its cancellation has been answered. -/
def cancelRead (t : Tid T) (write : Bool) (after : After) : M T PUnit := do
  let _ ← onEnd .read Stream.streamCancel
  zeroState t .read
  closeWrite t write after

/-- `wasip3_write_state_close`, when its cancellation has been answered. -/
def cancelWrite (t : Tid T) (after : After) : M T PUnit := do
  let _ ← onEnd .write Stream.streamCancel
  zeroState t .write
  closed t after

/-- `tcp_shutdown`. -/
def shutdown (t : Tid T) (how : How) : M T PUnit := do
  let closeReceive := how = .shutRd ∨ how = .shutRdwr
  let closeSend := how = .shutWr ∨ how = .shutRdwr
  if (closeReceive ∧ (← ioStateBlocked .read)) ∨ (closeSend ∧ (← ioStateBlocked .write)) then
    leave t (.error .EOPNOTSUPP)
  else if closeReceive then readStateClose t closeSend .shutdown
  else closeWrite t closeSend .shutdown

/-- The end of `file_seek`, when the current offset is known. -/
def seekFrom (t : Tid T) (offset : Int) (whence : Whence) : M T PUnit := do
  let current := (← get).offset
  let result :=
    match whence with
    | .seekSet => some offset
    | .seekCur => some (current + offset)
    | .seekEnd => some (current + offset)
    | .other => none
  match result with
  | none => leave t (.error .EINVAL)
  | some result =>
    if result < 0 then leave t (.error .EINVAL)
    else if result ≠ current then readStateClose t true (.seek result)
    else leave t (.ok current)

/-- `file_seek`. -/
def seek (t : Tid T) (offset : Int) (whence : Whence) : M T PUnit := do
  if (← ioStateBlocked .read) ∨ (← ioStateBlocked .write) then leave t (.error .EOPNOTSUPP)
  else if (← get).append ∨ whence = .seekEnd then park t (.waiting (.stat offset whence))
  else seekFrom t offset whence

/-- `file_seek`, when `file_seek_end` has got the size of the file. -/
def stat (t : Tid T) (offset : Int) (whence : Whence) : M T PUnit := do
  match (← get).env.stat with
  | .error e => leave t (.error e)
  | .ok size => do
      modify fun s => { s with offset := size }
      seekFrom t offset whence

/-! ## Waiting for an operation in progress -/

/-- The object's lock has been got after the wait. -/
def pendingEnd (t : Tid T) (p : Pending) (event : Option Status) : M T PUnit := do
  exitBlockingOperation p.dir
  match p, event with
  | .io _, none => leave t (.error .ETIMEDOUT)
  | .close _, none => throw (.stream .assert)
  | .io c, some event =>
    match c.dir with
    | .read => do
        let n ← onEnd .read (Stream.ioUpdateCode event)
        modifyIo .read fun io => { io with bufEnd := n }
        transferReady t c
    | .write => do
        if ← onEnd .write (Stream.advancePendingWrite event) then transferReady t c
        else awaitPending t (.io c)
  | .close after, some event => do
      if ← onEnd .write (Stream.advancePendingWrite event) then do
        require (¬ (← getIo .write).inprogress) (.stream .assert)
        closeFlushed t after
      else awaitPending t (.close after)

/-- The object's lock has been got after a blocking transfer. -/
def transferEnd (t : Tid T) (c : Io) (amount : Except Errno Nat) (done : Bool) : M T PUnit := do
  exitBlockingOperation c.dir
  if done then modifyIo c.dir fun io => { io with done := true }
  transferred t c amount

/-! ## Polling -/

/-- `POLLRDNORM` or `POLLWRNORM`. -/
def pollEvents : Dir → Stream.PollEvents
  | .read => .rdnorm
  | .write => .wrnorm

/-- `wasip3_stream_poll`, with the halves that the call has registered. -/
def streamPoll (t : Tid T) (d : Dir) (regs : List Dir) : M T (Except Errno Unit × List Dir) := do
  if (← getIo d).blocked then return (.error .EOPNOTSUPP, regs)
  else
    match ← onEnd d (Stream.streamPollInit (pollEvents d)) with
    | .ready => return (.ok (), regs)
    | .error => return (.error .ENOMEM, regs)
    | .inprogress =>
      if ← onEnd d Stream.alloc then do
        enterBlockingOperation t d
        return (.ok (), regs ++ [d])
      else return (.error .ENOMEM, regs)

/-- `tcp_poll_register`, under the object's lock. -/
def pollRegister (t : Tid T) (ev : Events) (regs : List Dir) :
    M T (Except Errno Unit × List Dir) := do
  let (result, regs) ← if ev.rdnorm then streamPoll t .read regs else pure (.ok (), regs)
  match result with
  | .error e => do
      unlock .object
      return (.error e, regs)
  | .ok _ => do
      let (result, regs) ← if ev.wrnorm then streamPoll t .write regs else pure (.ok (), regs)
      unlock .object
      return (result, regs)

/-- A callback of `poll` at its end, under the object's lock. -/
def pollCancelled (d : Dir) : M T PUnit := do
  exitBlockingOperation d
  unlock .object

/-- The end of `poll`: the callbacks that have not been called, without an
event. -/
def pollCleanup (t : Tid T) (result : Except Errno Unit) : List Dir → M T PUnit
  | [] => finish t (result.map fun _ => 0)
  | d :: regs => do
      if ← lock t .object (.cleanup d regs result) then do
        pollCancelled d
        pollCleanup t result regs

/-- `poll` goes on after an entry has been registered, or not. -/
def pollRegistered (t : Tid T) (next : List Dir → M T PUnit) :
    Except Errno Unit × List Dir → M T PUnit
  | (.ok _, regs) => next regs
  | (.error e, regs) => pollCleanup t (.error e) regs

/-- The loop of `poll` over its entries. -/
def pollLoop (t : Tid T) : List Events → List Dir → M T PUnit
  | [], regs => park t (.waiting (.polling regs))
  | ev :: todo, regs => do
      if ← lock t .object (.register (ev :: todo) regs) then do
        pollRegistered t (pollLoop t todo) (← pollRegister t ev regs)

/-- The loop of `poll`, when it has got the object's lock for an entry. -/
def pollResumed (t : Tid T) (todo : List Events) (regs : List Dir) : M T PUnit := do
  match todo with
  | [] => throw .protocol
  | ev :: todo => pollRegistered t (pollLoop t todo) (← pollRegister t ev regs)

/-- `wasip3_poll_read_ready` and `wasip3_poll_write_ready`, under the
object's lock and with an event. -/
def pollReady (t : Tid T) (d : Dir) (event : Status) (regs : List Dir) : M T PUnit := do
  exitBlockingOperation d
  match d with
  | .read => do
      let n ← onEnd .read (Stream.ioUpdateCode event)
      modifyIo .read fun io => { io with bufEnd := n }
  | .write => do
      if ← onEnd .write (Stream.advancePendingWrite event) then pure ()
      else require (← getIo .write).inprogress (.stream .assert)
  unlock .object
  park t (.waiting (.polling regs))

/-- `poll` finds an event, or no more. -/
def polling (t : Tid T) (regs : List Dir) : M T PUnit := do
  match (← get).env.event with
  | none => pollCleanup t (.ok ()) regs
  | some d => do
      require (d ∈ regs) .host
      match ← onEnd d Stream.pollWaitable with
      | none => throw .host
      | some event =>
        if ← lock t .object (.ready d event (regs.erase d)) then
          pollReady t d event (regs.erase d)

/-! ## Threads -/

/-- A call begins, under the object's lock. -/
def begin (t : Tid T) : Call → M T PUnit
  | .io what dontwait => do transfer t (← getStream t what dontwait)
  | .setBlocking blocking => do
      modify fun s => { s with blocking := blocking }
      leave t (.ok 0)
  | .shutdown how => shutdown t how
  | .seek offset whence => seek t offset whence
  | .poll _ => throw .protocol

/-- A call. -/
def call (t : Tid T) : Call → M T PUnit
  | .poll fds => pollLoop t fds []
  | c => do if ← lock t .object (.begin c) then begin t c

/-- A thread goes on with the lock that it has waited for. -/
def acquired (t : Tid T) : Cont → M T PUnit
  | .begin c => begin t c
  | .bounced c => do if ← bounced t c then retry t c
  | .retry c => retry t c
  | .pendingEnd p event => pendingEnd t p event
  | .transferEnd c amount done => transferEnd t c amount done
  | .register todo regs => pollResumed t todo regs
  | .ready d event regs => pollReady t d event regs
  | .cleanup d regs result => do
      pollCancelled d
      pollCleanup t result regs

/-- A thread goes on when the host has answered. -/
def answered (t : Tid T) : Wait → M T PUnit
  | .pending p => do
      let event ← onEnd p.dir (Stream.waitableBlockOn p.timeout)
      if ← lock t .object (.pendingEnd p event) then pendingEnd t p event
  | .transfer c status => do
      let (amount, done) ← onEnd c.dir (Stream.streamBlockOnTimeout status c.timeout)
      if ← lock t .object (.transferEnd c amount done) then transferEnd t c amount done
  | .polling regs => polling t regs
  | .nonblocking c => nonblocking t c
  | .eof c => eof t c
  | .stat offset whence => stat t offset whence
  | .cancelRead write after => cancelRead t write after
  | .cancelWrite after => cancelWrite t after

/-- A thread calls, or goes on. -/
inductive Label (T : Threads) where
  | call (t : Tid T) (c : Call) (env : Env)
  | resume (t : Tid T) (env : Env)

def Label.tid : Label T → Tid T
  | .call t _ _ => t
  | .resume t _ => t

def Label.env : Label T → Env
  | .call _ _ env => env
  | .resume _ env => env

/-- What the thread runs. -/
def program (s : State T) : Label T → M T PUnit
  | .call t c _ => do
      require (c.supported s.kind = true) .host
      match s.thread t with
      | .idle => call t c
      | _ => throw .host
  | .resume t _ =>
    match s.thread t with
    | .idle => throw .host
    | .locking l k => do if ← relock t l then acquired t k
    | .waiting w => answered t w

/-- A step: the thread runs until it has to wait. -/
def exec (s : State T) (l : Label T) : Except Stop (State T) :=
  Prod.snd <$> program s l { s with env := l.env }

/-- A step that is possible. -/
def next (s : State T) (l : Label T) : Option (State T) := (exec s l).toOption

end WasiLibc.Object
