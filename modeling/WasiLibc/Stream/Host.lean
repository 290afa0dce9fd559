import WasiLibc.Errno
import WasiLibc.Waitable
import WasiLibc.Lib.Wp

/-!
# WasiLibc.Stream.Host

One end of a wasip3 `stream<u8>`, as libc sees it: the record
`wasip3_io_state_t`, and the component model behind it.

The host's side is a state too.  At most one operation is in flight
(`Flight`); while it is, the peer may move bytes at any time, which the
guest learns only from the event that completes the operation or from its
cancellation.  What the host will do is a script of `Choice`s: `next` lets
the peer act as the script says and then takes the next answer.  A script
that does not fit, or has no answer left, stops the program with
`Fault.host`: the host does not behave like this, or has not answered yet.
-/

namespace WasiLibc.Stream

open Wp

/-- `wasip3_io_state_t`, with one field for each flag.  Of a buffer that is
being read into, `buf` holds the bytes that have arrived; `bufSize` is what
was allocated for it. -/
structure IoState where
  stream : Nat
  done : Bool
  inprogress : Bool
  zeroInprogress : Bool
  shouldBeReady : Bool
  mustBuffer : Bool
  blocked : Bool
  buf : Option (List UInt8)
  bufStart : Nat
  bufEnd : Nat
  bufSize : Nat
  deriving DecidableEq, Repr

namespace IoState

/-- `memset(state, 0, sizeof(*state))`. -/
def zero : IoState := ⟨0, false, false, false, false, false, false, none, 0, 0, 0⟩

/-- `__wasip3_io_state_init`. -/
def init (stream : Nat) : IoState := { zero with stream := stream }

/-- `buf[buf_start..buf_end)`. -/
def window (io : IoState) : List UInt8 :=
  ((io.buf.getD []).take io.bufEnd).drop io.bufStart

end IoState

/-- The operation in flight: a write of `bytes`, or a read of up to `len`
bytes, from or into the internal buffer or that of the caller, with the
number of bytes moved so far. -/
inductive Flight where
  | write (internal : Bool) (bytes : List UInt8) (got : Nat)
  | read (internal : Bool) (len : Nat) (got : Nat)
  deriving DecidableEq, Repr

def Flight.got : Flight → Nat
  | .write _ _ got => got
  | .read _ _ got => got

def Flight.len : Flight → Nat
  | .write _ bytes _ => bytes.length
  | .read _ len _ => len

def Flight.internal : Flight → Bool
  | .write internal _ _ => internal
  | .read internal _ _ => internal

/-- The host's side of the stream. -/
structure Host where
  flight : Option Flight
  /-- The bytes delivered to the reader of an output stream. -/
  delivered : List UInt8
  /-- The bytes put into an input stream by its writer. -/
  source : List UInt8
  /-- How many bytes of `source` have been transferred. -/
  moved : Nat
  /-- May the peer drop its end? -/
  mayDrop : Bool
  /-- The peer has dropped its end. -/
  dropped : Bool
  /-- The guest has been told so, and may not use the stream any more. -/
  ended : Bool
  deriving DecidableEq, Repr

/-- What the host does next. -/
inductive Choice where
  /-- The peer moves `k` more bytes of the operation in flight. -/
  | progress (k : Nat)
  /-- The peer puts bytes into an input stream. -/
  | put (bytes : List UInt8)
  /-- The peer drops its end. -/
  | drop
  /-- An operation completes at once. -/
  | ready (k : Nat) (dropped : Bool)
  /-- An operation blocks. -/
  | blocked
  /-- A wait or a poll delivers the event of the operation in flight. -/
  | event (dropped : Bool)
  /-- A poll finds no event, or the timer ends a wait. -/
  | nothing
  /-- `monotonic_clock_wait_for` returns at once, or not. -/
  | elapsed (atOnce : Bool)
  /-- The answer to a cancellation. -/
  | cancel (state : WaitState)
  /-- `malloc` or `__wasilibc_poll_add` succeeds, or not. -/
  | alloc (ok : Bool)
  deriving DecidableEq, Repr

/-- What libc asks of the host: an operation with the caller's buffer, one of
length zero or one with the internal buffer, or to wait. -/
inductive Act where
  | direct
  | zero
  | internal
  | wait
  deriving DecidableEq, Repr

def Act.of (internal : Bool) (len : Nat) : Act :=
  if internal then .internal else if len = 0 then .zero else .direct

/-- A stream end in use: libc's record, the host's side, the caller's buffer
as far as it has been filled, what the host will do, and what libc has asked
of it. -/
structure World where
  io : IoState
  host : Host
  user : List UInt8
  script : List Choice
  acts : List Act
  deriving DecidableEq, Repr

/-- Programs over a stream end. -/
abbrev M := StateT World (Except Fault)

def getIo : M IoState := return (← get).io

def modifyIo (f : IoState → IoState) : M PUnit := modify fun w => { w with io := f w.io }

def modifyHost (f : Host → Host) : M PUnit := modify fun w => { w with host := f w.host }

def act (a : Act) : M PUnit := modify fun w => { w with acts := w.acts ++ [a] }

/-- `assert`. -/
def assert (c : Prop) [Decidable c] : M PUnit := require c .assert

/-! ## The peer -/

/-- Bytes read arrive in the buffer of the operation. -/
def World.receive (w : World) (internal : Bool) (bytes : List UInt8) : World :=
  if internal then { w with io := { w.io with buf := w.io.buf.map (· ++ bytes) } }
  else { w with user := w.user ++ bytes }

/-- The next `k` bytes of the source. -/
def Host.fetch (h : Host) (k : Nat) : List UInt8 := (h.source.drop h.moved).take k

/-- The peer moves `k` bytes of the operation in flight. -/
def World.progress (w : World) (k : Nat) : Option World :=
  match w.host.flight with
  | some (.write internal bytes got) =>
    if 0 < k ∧ got + k ≤ bytes.length then
      some { w with host := { w.host with
        flight := some (.write internal bytes (got + k))
        delivered := w.host.delivered ++ (bytes.drop got).take k } }
    else none
  | some (.read internal len got) =>
    if 0 < k ∧ got + k ≤ len ∧ w.host.moved + k ≤ w.host.source.length then
      some { w.receive internal (w.host.fetch k) with host := { w.host with
        flight := some (.read internal len (got + k))
        moved := w.host.moved + k } }
    else none
  | none => none

/-- What the peer may do on its own, at any time. -/
def World.peer (w : World) : Choice → Option World
  | .progress k => w.progress k
  | .put bytes =>
    if w.host.dropped then none
    else some { w with host := { w.host with source := w.host.source ++ bytes } }
  | .drop => if w.host.mayDrop then some { w with host := { w.host with dropped := true } } else none
  | _ => none

/-- A choice that is the peer's own. -/
def Choice.isPeer : Choice → Bool
  | .progress _ => true
  | .put _ => true
  | .drop => true
  | _ => false

/-- Follow the script to the next answer. -/
def settle : List Choice → World → Except Fault (Choice × World)
  | [], _ => .error .host
  | c :: cs, w =>
    if c.isPeer then
      match w.peer c with
      | some w => settle cs w
      | none => .error .host
    else .ok (c, { w with script := cs })

/-- The host's next answer. -/
def next : M Choice := fun w => settle w.script w

/-! ## The canonical built-ins -/

def statusOf (dropped : Bool) (k : Nat) : Status :=
  .code (if dropped then .dropped else .completed) k

/-- May an operation of length `len` end after `k` bytes?  One that did not
block moves at least one byte, or reports that the peer has gone. -/
def Host.mayEnd (h : Host) (len k : Nat) (dropped : Bool) : Prop :=
  k ≤ len ∧ (0 < k ∨ len = 0 ∨ dropped) ∧ (dropped → h.dropped)

instance (h : Host) (len k : Nat) (dropped : Bool) : Decidable (h.mayEnd len k dropped) :=
  inferInstanceAs (Decidable (_ ∧ _ ∧ _))

/-- An operation may be started only when none is in flight and the peer is
not known to have gone. -/
def Host.usable (h : Host) : Prop := h.flight = none ∧ h.ended = false

instance (h : Host) : Decidable h.usable := inferInstanceAs (Decidable (_ ∧ _))

/-- `filesystem_stream_u8_write`. -/
def streamWrite (internal : Bool) (bytes : List UInt8) : M Status := do
  act (.of internal bytes.length)
  require (← get).host.usable .trap
  match ← next with
  | .blocked => do
      modifyHost fun h => { h with flight := some (.write internal bytes 0) }
      return .blocked
  | .ready k dropped => do
      require ((← get).host.mayEnd bytes.length k dropped) .host
      modifyHost fun h => { h with delivered := h.delivered ++ bytes.take k, ended := dropped }
      return statusOf dropped k
  | _ => throw .host

/-- `filesystem_stream_u8_read`. -/
def streamRead (internal : Bool) (len : Nat) : M Status := do
  act (.of internal len)
  require (← get).host.usable .trap
  match ← next with
  | .blocked => do
      modifyHost fun h => { h with flight := some (.read internal len 0) }
      return .blocked
  | .ready k dropped => do
      require ((← get).host.mayEnd len k dropped ∧
        (← get).host.moved + k ≤ (← get).host.source.length) .host
      modify fun w => { w.receive internal (w.host.fetch k) with
        host := { w.host with moved := w.host.moved + k, ended := dropped } }
      return statusOf dropped k
  | _ => throw .host

/-- The operation in flight ends. -/
def finish (state : WaitState) : M Status := do
  match (← get).host.flight with
  | none => throw .trap
  | some f => do
      require (state = .cancelled ∨
        (← get).host.mayEnd f.len f.got (state = .dropped)) .host
      modifyHost fun h => { h with flight := none, ended := state = .dropped }
      return .code state f.got

/-- `filesystem_stream_u8_cancel_write` and `filesystem_stream_u8_cancel_read`. -/
def streamCancel : M Status := do
  match ← next with
  | .cancel state => finish state
  | _ => throw .host

/-- `__wasilibc_poll_waitable`: the event of the stream, if there is one. -/
def pollWaitable : M (Option Status) := do
  match ← next with
  | .event dropped => some <$> finish (if dropped then .dropped else .completed)
  | .nothing => return none
  | _ => throw .host

/-- `__wasilibc_waitable_block_on`: the event of the stream, or `none` when
the timeout came first; a timeout of 0 is none. -/
def waitableBlockOn (timeout : Nat) : M (Option Status) := do
  act .wait
  if timeout = 0 then
    match ← next with
    | .event dropped => some <$> finish (if dropped then .dropped else .completed)
    | _ => throw .host
  else
    match ← next with
    | .elapsed _ =>
      -- poll if the timer is over, else wait for the stream or the timer
      match ← next with
      | .event dropped => some <$> finish (if dropped then .dropped else .completed)
      | .nothing => return none
      | _ => throw .host
    | _ => throw .host

/-- `malloc`, or another allocation. -/
def alloc : M Bool := do
  match ← next with
  | .alloc ok => return ok
  | _ => throw .host

end WasiLibc.Stream
