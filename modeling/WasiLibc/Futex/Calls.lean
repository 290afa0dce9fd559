import WasiLibc.Futex.State

/-!
# WasiLibc.Futex.Calls

`__wasilibc_futex_wait` and `__wasilibc_futex_wake` of cooperative threads,
cut where a thread switches.

A program here runs from one switch to the next; `exec` picks the one that a
thread has come to.  What the host and the memory answer is an argument of
the step: the value of the futex word, the time, whether a sleep is over at
once, and which allocations succeed.
-/

namespace WasiLibc.Futex

open Wp

variable {T : Threads}

/-! ## Waitlists -/

/-- `list_insert`. -/
def listInsert (list : Option (Tid T)) (node : Tid T) : M T (Option (Tid T)) := do
  let s ← get
  let (link, list) := DList.insert s.link list node
  modify fun s => { s with
    link := link
    node := Function.update s.node node { s.node node with woken := false } }
  return list

/-- `list_remove`. -/
def listRemove (list : Option (Tid T)) (node : Tid T) : M T (Option (Tid T)) := do
  let s ← get
  let (link, list) := DList.remove s.link list node
  modify fun s => { s with link := link }
  return list

/-- `list_insert(&waiters->list, node)`. -/
def waitlistInsert (waiters : Nat) (node : Tid T) : M T PUnit := do
  let list ← listInsert (← getWaitlist waiters).list node
  setWaitlist waiters (some { (← getWaitlist waiters) with list := list })

/-- `list_remove(&waiters->list, node)`. -/
def waitlistRemove (waiters : Nat) (node : Tid T) : M T PUnit := do
  let list ← listRemove (← getWaitlist waiters).list node
  setWaitlist waiters (some { (← getWaitlist waiters) with list := list })

/-- `free`. -/
def free (waiters : Nat) : M T PUnit := do
  setWaitlist waiters none
  modify fun s => { s with freed := s.freed ++ [waiters] }

/-! ## The map -/

/-- Which allocations succeed: that of the map, of a waitlist, and of an
entry of the map. -/
structure Memory where
  map : Bool
  malloc : Bool
  set : Bool
  deriving DecidableEq, Repr

/-- `get_futex_map`. -/
def getFutexMap (create : Bool) (mem : Memory) : M T (Option (Addr → Option Nat)) := do
  let s ← get
  if s.futexMap.isSome ∨ ¬ create then return s.futexMap
  else do
    let map : Option (Addr → Option Nat) := if mem.map then some fun _ => none else none
    modify fun s => { s with futexMap := map }
    return map

/-- The last part of `find_futex_entry`: a new waitlist is put into the map. -/
def createFutexEntry (map : Addr → Option Nat) (addr : Addr) (mem : Memory) :
    M T (Option Nat) := do
  if ¬ mem.malloc then return none
  else do
    let waiters := (← get).nextWaitlist
    modify fun s => { s with nextWaitlist := waiters + 1 }
    setWaitlist waiters (some ⟨none, 0⟩)
    if ¬ mem.set then do
      free waiters
      return none
    else do
      modify fun s => { s with futexMap := some (Function.update map addr (some waiters)) }
      return some waiters

/-- `find_futex_entry`. -/
def findFutexEntry (addr : Addr) (create : Bool) (mem : Memory) : M T (Option Nat) := do
  match ← getFutexMap create mem with
  | none => return none
  | some map =>
    match map addr with
    | some waiters => return some waiters
    | none => if ¬ create then return none else createFutexEntry map addr mem

/-- `release_futex_entry`. -/
def releaseFutexEntry (addr : Addr) (waiters : Nat) : M T PUnit := do
  let list ← getWaitlist waiters
  setWaitlist waiters (some { list with refcnt := list.refcnt - 1 })
  if 0 < list.refcnt - 1 then return ⟨⟩
  else do
    assert (list.list = none)
    modify fun s => { s with
      futexMap := s.futexMap.map fun map => Function.update map addr none }
    free waiters

/-! ## Deadlines -/

/-- `struct timespec`, whose `tv_nsec` is a `long`. -/
structure Timespec where
  tvSec : Int
  tvNsec : BitVec 32
  deriving DecidableEq, Repr

/-- `CLOCK_REALTIME` and `CLOCK_MONOTONIC`. -/
inductive ClockId where
  | realtime
  | monotonic
  deriving DecidableEq, Repr

/-- `system_clock_instant_t`. -/
structure Instant where
  seconds : Int
  nanoseconds : Int
  deriving DecidableEq, Repr

def nsecPerSec : Int := 1000000000

/-- A product or sum that does not fit into 64 bits becomes the largest
value. -/
def clampU64 (sec nsec : Int) : Nat :=
  if sec * nsecPerSec ≥ 2 ^ 64 ∨ sec * nsecPerSec + nsec ≥ 2 ^ 64 then 2 ^ 64 - 1
  else (sec * nsecPerSec + nsec).toNat

/-- `timespec_to_instant_clamp`. -/
def timespecToInstantClamp (ts : Timespec) : Option Nat :=
  if ts.tvNsec.toInt < 0 ∨ ts.tvNsec.toInt ≥ nsecPerSec then none
  else if ts.tvSec < 0 then some 0
  else some (clampU64 ts.tvSec ts.tvNsec.toInt)

/-- `timespec_to_timestamp_clamp`. -/
def timespecToTimestampClamp (ts : Timespec) : Option Instant :=
  if ts.tvNsec.toInt < 0 ∨ ts.tvNsec.toInt ≥ nsecPerSec then none
  else some ⟨ts.tvSec, ts.tvNsec.toInt⟩

/-- The time from `now` to `desired`, which is later, in nanoseconds. -/
def realtimeDelta (desired now : Instant) : Nat :=
  let deltaSec := (desired.seconds - now.seconds) % 2 ^ 64
  let deltaNsec := desired.nanoseconds - now.nanoseconds
  if deltaNsec < 0 then clampU64 ((deltaSec - 1) % 2 ^ 64) (deltaNsec + nsecPerSec)
  else clampU64 deltaSec deltaNsec

/-- `__WASILIBC_FUTEX_YIELD`. -/
def FUTEX_YIELD : BitVec 32 := 1

/-- `__WASILIBC_FUTEX_TIMESPEC_ABSOLUTE`. -/
def FUTEX_TIMESPEC_ABSOLUTE : BitVec 32 := 2

def isAbsolute (flags : BitVec 32) : Bool := flags &&& FUTEX_TIMESPEC_ABSOLUTE ≠ 0

/-- The first part of `wait_timeout`: the sleep to ask for. -/
def waitTimeoutSleep (clk : ClockId) (at_ : Timespec) (flags : BitVec 32) (now : Instant) :
    Except Errno Sleep :=
  if clk = .monotonic ∨ ¬ isAbsolute flags then
    match timespecToInstantClamp at_ with
    | none => .error .EINVAL
    | some deadline => .ok (if isAbsolute flags then .waitUntil deadline else .waitFor deadline)
  else
    match timespecToTimestampClamp at_ with
    | none => .error .EINVAL
    | some desired =>
      if desired.seconds < now.seconds ∨
          (desired.seconds = now.seconds ∧ desired.nanoseconds ≤ now.nanoseconds) then
        .error .ETIMEDOUT
      else .ok (.waitFor (realtimeDelta desired now))

/-! ## `__wasilibc_futex_wait` -/

/-- The arguments of `__wasilibc_futex_wait`. -/
structure WaitArgs where
  addr : Addr
  val : Int
  clk : ClockId
  at_ : Option Timespec
  flags : BitVec 32
  deriving DecidableEq, Repr

/-- What a wait finds: the word at the address, the time of the system clock,
whether its sleep is over at once, and the allocations. -/
structure WaitEnv where
  word : Int
  now : Instant
  elapsed : Bool
  mem : Memory
  deriving DecidableEq, Repr

/-- Wait `call` returns. -/
def waitReturns (call : Nat) (rc : Rc) : M T PUnit := record (·.waitReturns call rc)

/-- `rc ? -rc : 0`. -/
def Rc.ofErrno : Option Errno → Rc
  | some e => .neg e
  | none => .zero

/-- The end of `__wasilibc_futex_wait`. -/
def waitEnd (call : Nat) (addr : Addr) (waiters : Nat) (rc : Option Errno) : M T PUnit := do
  releaseFutexEntry addr waiters
  waitReturns call (.ofErrno rc)

/-- `wait_indefinitely`, up to its `thread.suspend`. -/
def waitIndefinitely (t : Tid T) (call : Nat) (addr : Addr) (waiters : Nat) : M T PUnit := do
  setNode t ⟨.tid, t, false⟩
  waitlistInsert waiters t
  setThread t (.waiting call addr waiters .suspended)

/-- `wait_timeout`, up to its `waitable-set.wait`: an error, or the thread
waits. -/
def waitTimeout (t : Tid T) (call : Nat) (addr : Addr) (waiters : Nat) (clk : ClockId)
    (at_ : Timespec) (flags : BitVec 32) (env : WaitEnv) : M T (Option Errno) := do
  match waitTimeoutSleep clk at_ flags env.now with
  | .error e => return some e
  | .ok sleep =>
    if env.elapsed then return some .ETIMEDOUT
    else do
      let future ← futureNew
      let rc ← futureRead future
      assert (rc = .blocked)
      setNode t ⟨.future, future, false⟩
      waitlistInsert waiters t
      setThread t (.waiting call addr waiters (.timed sleep future))
      return none

/-- `waiters->refcnt++`. -/
def retain (waiters : Nat) : M T PUnit := do
  let list ← getWaitlist waiters
  setWaitlist waiters (some { list with refcnt := list.refcnt + 1 })

/-- The checks of `__wasilibc_futex_wait` before it looks for the waitlist:
what it returns when one of them fails. -/
def waitChecks (args : WaitArgs) (word : Int) : Option Rc :=
  if args.flags &&& ~~~FUTEX_TIMESPEC_ABSOLUTE ≠ 0 then some (.neg .EINVAL)
  else if args.addr % 4 ≠ 0 then some (.neg .EINVAL)
  else if word ≠ args.val then some (.neg .EWOULDBLOCK)
  else
    match args.at_ with
    | some at_ =>
      -- the first comparison is one of unsigned numbers
      if at_.tvNsec.toNat ≥ 1000000000 then some (.neg .EINVAL)
      else if at_.tvNsec.toInt < 0 then some (.neg .EINVAL)
      else if word ≠ args.val then some .zero
      else none
    | none => if word ≠ args.val then some .zero else none

/-- `__wasilibc_futex_wait`, up to its first switch. -/
def futexWait (t : Tid T) (args : WaitArgs) (env : WaitEnv) : M T PUnit := do
  let call := (← get).history.calls
  record (·.waitCalled)
  match waitChecks args env.word with
  | some rc => waitReturns call rc
  | none =>
    match ← findFutexEntry args.addr true env.mem with
    | none => waitReturns call (.pos .ENOMEM)
    | some waiters => do
        retain waiters
        match args.at_ with
        | some at_ =>
          if ¬ isAbsolute args.flags ∧ at_.tvSec < 0 then waitReturns call (.neg .EINVAL)
          else
            match ← waitTimeout t call args.addr waiters args.clk at_ args.flags env with
            | some e => waitEnd call args.addr waiters (some e)
            | none => return ⟨⟩
        | none => waitIndefinitely t call args.addr waiters

/-- `__wasilibc_futex_wait` from the end of `thread.suspend`. -/
def waitResumed (t : Tid T) (call : Nat) (addr : Addr) (waiters : Nat) : M T PUnit := do
  setThread t .running
  waitEnd call addr waiters none

/-- The last part of `wait_timeout`, and of the call. -/
def waitTimeoutEnd (t : Tid T) (call : Nat) (addr : Addr) (waiters future : Nat) :
    M T PUnit := do
  futureDropReadable future
  let woken := ((← get).node t).woken
  if ¬ woken then do
    waitlistRemove waiters t
    let rc ← futureWrite future
    assert (rc = .code .dropped 0)
  futureDropWritable future
  setThread t .running
  waitEnd call addr waiters (if woken then none else some .ETIMEDOUT)

/-- The events that a timed wait waits for. -/
inductive TimedEvent where
  | subtask
  | futureRead
  deriving DecidableEq, Repr

/-- `wait_timeout` from the end of `waitable-set.wait`. -/
def waitTimeoutEvent (t : Tid T) (call : Nat) (addr : Addr) (waiters future : Nat) :
    TimedEvent → M T PUnit
  | .subtask => do
      let rc ← futureCancelRead future
      if ((← get).node t).woken then assert (rc = .code .completed 0)
      else assert (rc = .code .cancelled 0)
      waitTimeoutEnd t call addr waiters future
  | .futureRead => do
      futureReadEvent future
      setThread t (.waiting call addr waiters (.cancelling future))

/-! ## `__wasilibc_futex_wake` -/

/-- `wake_node`: does the caller switch? -/
def wakeNode (node : Tid T) (yield : Bool) : M T Bool := do
  let n := (← get).node node
  setNode node { n with woken := true }
  match n.kind with
  | .tid => do
      threadResume n.tidOrFuture
      return yield
  | .future => do
      let rc ← futureWrite n.tidOrFuture
      assert (rc = .code .completed 0)
      return false

/-- Wake `call` dequeues the wait that `node` belongs to. -/
def recordDequeue (call : Nat) (node : Tid T) : M T PUnit := do
  match (← get).callOf node with
  | some wait => record (·.dequeue call wait)
  | none => return ⟨⟩

/-- The first loop of `__wasilibc_futex_wake`: up to `count` nodes go from
the waitlist to the list `toWake`. -/
def dequeueLoop (call waiters : Nat) : Nat → Option (Tid T) → M T (Option (Tid T))
  | 0, toWake => return toWake
  | count + 1, toWake => do
      match (← getWaitlist waiters).list with
      | none => return toWake
      | some node => do
          waitlistRemove waiters node
          recordDequeue call node
          let toWake ← listInsert toWake node
          dequeueLoop call waiters count toWake

/-- The second loop of `__wasilibc_futex_wake`: the nodes of `toWake` are
woken.  It also tells whether the caller has yielded to the last one.  The
nodes lie on the stacks of different threads, so that it turns at most as
often as there are threads. -/
def wakeLoop (yield : Bool) : Nat → Option (Tid T) → Nat → M T (Nat × Bool)
  | _, none, woken => return (woken, false)
  | 0, some _, _ => throw .trap
  | fuel + 1, some node, woken => do
      let toWake ← listRemove (some node) node
      let yielded ← wakeNode node (toWake = none ∧ yield)
      if yielded then return (woken + 1, true)
      else wakeLoop yield fuel toWake (woken + 1)

def INT_MAX : Int := 2147483647

/-- `__wasilibc_futex_wake`, up to its switch. -/
def futexWake (t : Tid T) (addr : Addr) (count : Int) (flags : BitVec 32) : M T PUnit := do
  let s ← get
  let call := s.history.calls
  record (·.wakeCalled addr count flags (s.queuedOn addr))
  if flags ≠ 0 ∧ flags ≠ FUTEX_YIELD then record (·.wakeReturns call (.error .EINVAL))
  else do
    let yield : Bool := flags &&& FUTEX_YIELD ≠ 0
    match ← findFutexEntry addr false ⟨false, false, false⟩ with
    | none => record (·.wakeReturns call (.ok 0))
    | some waiters => do
        let count := if count < 0 then INT_MAX else count
        let toWake ← dequeueLoop call waiters count.toNat none
        let (woken, yielded) ← wakeLoop yield T.count toWake 0
        if yielded then setThread t (.yielded call woken)
        else record (·.wakeReturns call (.ok woken))

/-- `__wasilibc_futex_wake` from the end of `thread.yield-then-resume`. -/
def wakeResumed (t : Tid T) (call woken : Nat) : M T PUnit := do
  setThread t .running
  record (·.wakeReturns call (.ok woken))

/-! ## Steps -/

/-- One thread runs up to its next switch. -/
inductive Label (T : Threads) where
  /-- It calls `__wasilibc_futex_wait`. -/
  | wait (t : Tid T) (args : WaitArgs) (env : WaitEnv)
  /-- It calls `__wasilibc_futex_wake`. -/
  | wake (t : Tid T) (addr : Addr) (count : Int) (flags : BitVec 32)
  /-- It goes on after `thread.suspend` or `thread.yield-then-resume`. -/
  | resume (t : Tid T)
  /-- Its `waitable-set.wait` returns an event. -/
  | event (t : Tid T) (event : TimedEvent)
  /-- Its `subtask.cancel` returns. -/
  | cancelled (t : Tid T)

/-- The thread that runs. -/
def Label.tid : Label T → Tid T
  | .wait t _ _ => t
  | .wake t _ _ _ => t
  | .resume t => t
  | .event t _ => t
  | .cancelled t => t

/-- The program of a step, if the thread has come to it. -/
def program (s : State T) : Label T → Option (M T PUnit)
  | .wait t args env => if s.thread t = .running then some (futexWait t args env) else none
  | .wake t addr count flags =>
    if s.thread t = .running then some (futexWake t addr count flags) else none
  | .resume t =>
    match s.thread t with
    | .waiting call addr waiters .resumed => some (waitResumed t call addr waiters)
    | .yielded call woken => some (wakeResumed t call woken)
    | _ => none
  | .event t event =>
    match s.thread t with
    | .waiting call addr waiters (.timed _ future) =>
      some (waitTimeoutEvent t call addr waiters future event)
    | _ => none
  | .cancelled t =>
    match s.thread t with
    | .waiting call addr waiters (.cancelling future) =>
      some (waitTimeoutEnd t call addr waiters future)
    | _ => none

/-- One step. -/
def exec (s : State T) (l : Label T) : Except Fault (State T) :=
  match program s l with
  | some p => (p s).map (·.2)
  | none => .error .host

/-- One step that is possible. -/
def next (s : State T) (l : Label T) : Option (State T) := (exec s l).toOption

end WasiLibc.Futex
