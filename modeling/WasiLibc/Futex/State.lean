import WasiLibc.Errno
import WasiLibc.Waitable
import WasiLibc.Lib.DList
import WasiLibc.Lib.Wp

/-!
# WasiLibc.Futex.State

The state behind the futexes of cooperative threads: the waitlist nodes on
the stacks of the waiting threads, the waitlists on the heap with the map
that finds them by address, the unit futures of the component model, and
where each thread is.

A thread is inside at most one futex call, so a node is named by its thread.
Threads switch only where a call suspends, yields or waits for the host; a
`Phase` is what a thread left behind when it switched.  `History` records
what was called and returned; no program reads it.
-/

namespace WasiLibc.Futex

open Function Wp

/-- The threads of a component.  Their indices are entries of a table, whose
length the component model bounds. -/
structure Threads where
  count : Nat
  count_lt : count < 2 ^ 28

abbrev Tid (T : Threads) := Fin T.count

instance {T : Threads} : LawfulBEq (Tid T) := inferInstance

/-- The address of a futex word. -/
abbrev Addr := Nat

/-! ## Waitlists -/

/-- `WAITLIST_NODE_TID` and `WAITLIST_NODE_FUTURE`. -/
inductive Kind where
  | tid
  | future
  deriving DecidableEq, Repr

/-- `struct __waitlist_node`, without its links. -/
structure Node where
  kind : Kind
  tidOrFuture : Nat
  woken : Bool
  deriving DecidableEq, Repr

/-- `struct __futex_waitlist`. -/
structure Waitlist (T : Threads) where
  list : Option (Tid T)
  refcnt : Nat
  deriving DecidableEq, Repr

/-- A unit future: is a read of it pending, was it written, does its writer
know how the write ended, and the two ends. -/
structure Future where
  reading : Bool
  written : Bool
  settled : Bool
  readable : Bool
  writable : Bool
  deriving DecidableEq, Repr

/-! ## Threads -/

/-- The sleep that a timed wait asks the host for:
`monotonic_clock_wait_until` or `monotonic_clock_wait_for`. -/
inductive Sleep where
  | waitUntil (mark : Nat)
  | waitFor (duration : Nat)
  deriving DecidableEq, Repr

/-- Where in `__wasilibc_futex_wait` a thread has switched. -/
inductive Stage where
  /-- In `thread.suspend`. -/
  | suspended
  /-- In `thread.suspend`, resumed by another thread. -/
  | resumed
  /-- In `waitable-set.wait`, with the sleep and the future. -/
  | timed (sleep : Sleep) (future : Nat)
  /-- In `subtask.cancel`, after the event of the future. -/
  | cancelling (future : Nat)
  deriving DecidableEq, Repr

/-- What a thread is doing. -/
inductive Phase where
  /-- It runs outside the futex calls, or is about to. -/
  | running
  /-- It is inside `__wasilibc_futex_wait` on `addr`, with the waitlist it
  found. -/
  | waiting (call : Nat) (addr : Addr) (waiters : Nat) (stage : Stage)
  /-- It has yielded inside `__wasilibc_futex_wake`, and will return
  `woken`. -/
  | yielded (call : Nat) (woken : Nat)
  deriving DecidableEq, Repr

/-! ## History -/

/-- What `__wasilibc_futex_wait` returns: 0, `-e`, or `e`. -/
inductive Rc where
  | zero
  | neg (e : Errno)
  | pos (e : Errno)
  deriving DecidableEq, Repr

/-- A wait: the wakes that dequeued it, and its result. -/
structure WaitRecord where
  dequeuers : List Nat
  result : Option Rc
  deriving DecidableEq, Repr

/-- A wake: its arguments, the waits that were queued on its address when it
was called, those that it dequeued, and its result. -/
structure WakeRecord where
  addr : Addr
  count : Int
  flags : BitVec 32
  queued : List Nat
  dequeued : List Nat
  result : Option (Except Errno Nat)

/-- What has been called, by the number of the call. -/
structure History where
  calls : Nat
  wait : Nat → WaitRecord
  wake : Nat → Option WakeRecord

namespace History

def empty : History := ⟨0, fun _ => ⟨[], none⟩, fun _ => none⟩

/-- A wait is called. -/
def waitCalled (h : History) : History := { h with calls := h.calls + 1 }

/-- Wait `call` returns. -/
def waitReturns (h : History) (call : Nat) (rc : Rc) : History :=
  { h with wait := update h.wait call { h.wait call with result := some rc } }

/-- A wake is called. -/
def wakeCalled (h : History) (addr : Addr) (count : Int) (flags : BitVec 32)
    (queued : List Nat) : History :=
  { h with
    calls := h.calls + 1
    wake := update h.wake h.calls (some ⟨addr, count, flags, queued, [], none⟩) }

/-- Wake `k` dequeues wait `call`. -/
def dequeue (h : History) (k call : Nat) : History :=
  { h with
    wait := update h.wait call
      { h.wait call with dequeuers := (h.wait call).dequeuers ++ [k] }
    wake := update h.wake k
      ((h.wake k).map fun r => { r with dequeued := r.dequeued ++ [call] }) }

/-- Wake `k` returns. -/
def wakeReturns (h : History) (k : Nat) (rc : Except Errno Nat) : History :=
  { h with wake := update h.wake k ((h.wake k).map fun r => { r with result := some rc }) }

end History

/-! ## The state -/

/-- The state that threads share. -/
structure State (T : Threads) where
  thread : Tid T → Phase
  /-- The nodes on the stacks of the threads, and their links. -/
  node : Tid T → Node
  link : Tid T → DList.Link (Tid T)
  /-- The waitlists on the heap, by their number, and those freed. -/
  waitlist : Nat → Option (Waitlist T)
  nextWaitlist : Nat
  freed : List Nat
  /-- `futex_map`, null until it is needed. -/
  futexMap : Option (Addr → Option Nat)
  future : Nat → Future
  nextFuture : Nat
  history : History

variable {T : Threads}

namespace State

/-- No thread has used a futex. -/
def initial : State T where
  thread _ := .running
  node _ := ⟨.tid, 0, false⟩
  link _ := ⟨none, none⟩
  waitlist _ := none
  nextWaitlist := 0
  freed := []
  futexMap := none
  future _ := ⟨false, false, false, false, false⟩
  nextFuture := 0
  history := History.empty

/-- The waitlist that the map has for an address. -/
def lookup (s : State T) (addr : Addr) : Option Nat := s.futexMap.bind fun map => map addr

/-- The call of a thread that is queued on `addr`: inside
`__wasilibc_futex_wait` on it, and not dequeued. -/
def queuedCall (s : State T) (addr : Addr) (t : Tid T) : Option Nat :=
  match s.thread t with
  | .waiting call a _ _ => if a = addr ∧ (s.node t).woken = false then some call else none
  | _ => none

/-- The waits queued on an address. -/
def queuedOn (s : State T) (addr : Addr) : List Nat :=
  (List.finRange T.count).filterMap (s.queuedCall addr)

/-- The wait that a thread is in. -/
def callOf (s : State T) (t : Tid T) : Option Nat :=
  match s.thread t with
  | .waiting call _ _ _ => some call
  | _ => none

end State

/-- Programs of a thread between two switches. -/
abbrev M (T : Threads) := StateT (State T) (Except Fault)

/-- `assert`. -/
def assert (c : Prop) [Decidable c] : M T PUnit := require c .assert

def setThread (t : Tid T) (phase : Phase) : M T PUnit :=
  modify fun s => { s with thread := update s.thread t phase }

def setNode (t : Tid T) (node : Node) : M T PUnit :=
  modify fun s => { s with node := update s.node t node }

def setWaitlist (id : Nat) (waiters : Option (Waitlist T)) : M T PUnit :=
  modify fun s => { s with waitlist := update s.waitlist id waiters }

def setFuture (f : Nat) (future : Future) : M T PUnit :=
  modify fun s => { s with future := update s.future f future }

def record (f : History → History) : M T PUnit :=
  modify fun s => { s with history := f s.history }

/-- Follow a pointer to a waitlist. -/
def getWaitlist (id : Nat) : M T (Waitlist T) := do
  match (← get).waitlist id with
  | some waiters => return waiters
  | none => throw .trap

/-! ## Futures of the component model -/

/-- `future_new_unit`: the number stands for both ends. -/
def futureNew : M T Nat := do
  let f := (← get).nextFuture
  modify fun s => { s with nextFuture := f + 1 }
  setFuture f ⟨false, false, false, true, true⟩
  return f

/-- `future_read_unit`. -/
def futureRead (f : Nat) : M T Status := do
  let future := (← get).future f
  require (future.readable ∧ ¬ future.reading) .trap
  if future.written then return .code .completed 0
  else do
    setFuture f { future with reading := true }
    return .blocked

/-- `future_write_unit`: a future is written once, to a pending read, or the
writer is told that nobody reads any more. -/
def futureWrite (f : Nat) : M T Status := do
  let future := (← get).future f
  require (future.writable ∧ ¬ future.settled) .trap
  if ¬ future.readable then do
    setFuture f { future with settled := true }
    return .code .dropped 0
  else if future.reading then do
    setFuture f { future with written := true, settled := true }
    return .code .completed 0
  else return .blocked

/-- `future_cancel_read_unit`: both ends are in this component, so it does
not wait; a read that was completed is not undone. -/
def futureCancelRead (f : Nat) : M T Status := do
  let future := (← get).future f
  require (future.readable ∧ future.reading) .trap
  setFuture f { future with reading := false }
  return .code (if future.written then .completed else .cancelled) 0

/-- The event of a completed read is delivered. -/
def futureReadEvent (f : Nat) : M T PUnit := do
  let future := (← get).future f
  require (future.reading ∧ future.written) .host
  setFuture f { future with reading := false }

/-- `future_drop_readable_unit`. -/
def futureDropReadable (f : Nat) : M T PUnit := do
  let future := (← get).future f
  require (future.readable ∧ ¬ future.reading) .trap
  setFuture f { future with readable := false }

/-- `future_drop_writable_unit`: not before the writer knows how its write
ended. -/
def futureDropWritable (f : Nat) : M T PUnit := do
  let future := (← get).future f
  require (future.writable ∧ future.settled) .trap
  setFuture f { future with writable := false }

/-- `thread.resume-later` and `thread.yield-then-resume`: the thread must be
suspended, and will run. -/
def threadResume (tid : Nat) : M T PUnit := do
  if h : tid < T.count then
    match (← get).thread ⟨tid, h⟩ with
    | .waiting call addr waiters .suspended =>
      setThread ⟨tid, h⟩ (.waiting call addr waiters .resumed)
    | _ => throw .trap
  else throw .trap

end WasiLibc.Futex
