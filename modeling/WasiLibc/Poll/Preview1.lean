import WasiLibc.Poll.Events

/-!
# WasiLibc.Poll.Preview1

`ppoll_impl` for wasip1, on top of `poll_oneoff`.  The host knows the
descriptors; its answer is the whole of the world.  An event carries the
`userdata` and the type of the subscription it answers, so it is given by
the position of that subscription.
-/

namespace WasiLibc.Poll.Preview1

open Wp

/-- `__WASI_EVENTTYPE_FD_READ` and `__WASI_EVENTTYPE_FD_WRITE`. -/
inductive EventType where
  | fdRead
  | fdWrite
  deriving DecidableEq, Repr

/-- `__wasi_subscription_t`, with the entry that is its `userdata`. -/
inductive Subscription where
  | fd (cur : Nat) (type : EventType)
  | clock (timeout : BitVec 64)
  deriving DecidableEq, Repr

/-- `__wasi_event_t`. -/
structure Event where
  subscription : Nat
  error : Option Errno
  /-- `__WASI_EVENTRWFLAGS_FD_READWRITE_HANGUP`. -/
  hangup : Bool
  deriving DecidableEq, Repr

/-- What `poll_oneoff` will answer. -/
abbrev Answer := Except Errno (List Event)

abbrev M := Poll.M Subscription Answer

/-- One turn of the loop that makes the subscriptions. -/
def subscribe (i : Nat) (p : PollFd) : M (Except Errno Unit) := do
  let events := strip p.events
  if events.Has POLLRDNORM then
    modify fun s => { s with regs := s.regs ++ [.fd i .fdRead] }
  if events.Has POLLWRNORM then
    modify fun s => { s with regs := s.regs ++ [.fd i .fdWrite] }
  if ¬ (events.Has POLLRDNORM ∨ events.Has POLLWRNORM) ∧ events ≠ 0 then return .error .ENOSYS
  else return .ok ()

/-- `__wasi_poll_oneoff`: at least one event, each of a subscription, or an
error; it is an error to have no subscription. -/
def pollOneoff : M Answer := do
  let s ← get
  match s.world with
  | .error e => return .error e
  | .ok events => do
      require (events ≠ [] ∧ ∀ e ∈ events, e.subscription < s.regs.length) .host
      return .ok events

/-- The events that are reported for one of the host's. -/
def Event.revents (e : Event) (type : EventType) : Events :=
  match e.error with
  | some .EBADF => POLLNVAL
  | some .EPIPE => POLLHUP
  | some _ => POLLERR
  | none =>
    (match type with
      | .fdRead => POLLRDNORM
      | .fdWrite => POLLWRNORM) ||| if e.hangup then POLLHUP else 0

/-- One turn of the loop that sets `revents`. -/
def report (e : Event) : M PUnit := do
  let s ← get
  match s.regs[e.subscription]? with
  | none => throw .host
  | some (.clock timeout) => modify fun s => { s with elapsed := timeout.toNat }
  | some (.fd cur type) =>
    match s.fds[cur]? with
    | none => throw .assert
    | some p => modify fun s => { s with
        fds := s.fds.set cur { p with revents := p.revents ||| e.revents type } }

def reportAll : List Event → M PUnit
  | [] => pure ⟨⟩
  | e :: es => do
      report e
      reportAll es

/-- The last loop: `POLLHUP` excludes `POLLWRNORM`, and the entries are
counted. -/
def conclude : List PollFd → List PollFd × Nat
  | [] => ([], 0)
  | p :: ps =>
    let q := if p.revents.Has POLLHUP then { p with revents := p.revents &&& ~~~POLLWRNORM } else p
    let (qs, n) := conclude ps
    (q :: qs, if q.revents ≠ 0 then n + 1 else n)

/-- `ppoll_impl`. -/
def ppollImpl (timeout : Option Timespec) : M (Except Errno Nat) := do
  andThen (registerEach subscribe 0 (← get).fds) fun _ => do
    modify fun s => { s with
      regs := s.regs ++ (timeout.map fun t => .clock t.ns).toList
      clock := timeout.map Timespec.ns }
    match ← pollOneoff with
    | .error e => return .error (if (← get).regs = [] then .ENOTSUP else e)
    | .ok events => do
        reportAll events
        let s ← get
        modify fun s => { s with fds := (conclude s.fds).1 }
        return .ok (conclude s.fds).2

/-- A call of `ppoll`. -/
def call (answer : Answer) (timeout : Option Timespec) (fds : List PollFd) :
    Except Fault (Except Errno Nat × State Subscription Answer) :=
  (ppoll ppollImpl timeout).run (start fds answer)

end WasiLibc.Poll.Preview1
