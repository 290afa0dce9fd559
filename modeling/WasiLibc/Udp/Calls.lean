import WasiLibc.Udp.State

/-!
# WasiLibc.Udp.Calls

The functions of `udp.c` for wasip3 that send, receive, poll, connect and
close, as cooperative threads run them.

A function that may wait is cut at its waits, as in `Object.Calls`: a thread in
`Phase.locking l k` goes on with `acquired` when it gets the lock, and one in
`Phase.waiting w` with `answered`.
-/

namespace WasiLibc.Udp

open Function Futex Wp

variable {T : Threads}

abbrev M (T : Threads) := StateT (State T) (Except Fault)

/-! ## Locks and threads -/

def setLock (l : LockId) (lk : Lock T) : M T PUnit :=
  modify fun s => { s with lock := update s.lock l lk }

/-- The thread waits. -/
def park (t : Tid T) (p : Phase) : M T PUnit :=
  modify fun s => { s with thread := update s.thread t p }

/-- The call of the thread returns. -/
def finish (t : Tid T) (id : Nat) (result : Except Errno Nat) : M T PUnit := do
  modify fun s => { s with returned := update s.returned id (some result) }
  park t .idle

/-- `STRONG_LOCK`: if the lock is not free, the thread waits for it with `k`
to do. -/
def lock (t : Tid T) (l : LockId) (k : Cont) : M T Bool := do
  let (got, lk) := ((← get).lock l).lock t
  setLock l lk
  if got then return true
  else do
    park t (.locking l k)
    return false

/-- The rest of `STRONG_LOCK`, in a thread that was woken. -/
def relock (t : Tid T) (l : LockId) : M T Bool := do
  require (t ∉ ((← get).lock l).queue) .host
  let (got, lk) := ((← get).lock l).relock t
  setLock l lk
  return got

/-- `STRONG_UNLOCK`. -/
def unlock (l : LockId) : M T PUnit := do
  setLock l ((← get).lock l).unlock

/-- The end of a call: the socket's lock is given back. -/
def leave (t : Tid T) (id : Nat) (result : Except Errno Nat) : M T PUnit := do
  unlock .object
  finish t id result

def getStreams : M T Streams := return (← get).streams

def modifyStreams (f : Streams → Streams) : M T PUnit :=
  modify fun s => { s with streams := f s.streams }

/-! ## Blocking operations -/

/-- `wasip3_udp_recv_enter_blocking` and `wasip3_udp_send_enter_blocking`.  A
thread that does not get the blocking lock here would never go on. -/
def enterBlocking (t : Tid T) (d : Dir) : M T PUnit := do
  require ((← get).tag.streaming = true) .assert
  require (¬ (← getStreams).blocking d) .assert
  modifyStreams fun st => { st with blocking := update st.blocking d true }
  let (got, lk) := ((← get).lock (.blocking d)).lock t
  setLock (.blocking d) lk
  require (got = true) .trap

/-- `wasip3_udp_recv_exit_blocking` and `wasip3_udp_send_exit_blocking`. -/
def exitBlocking (d : Dir) : M T PUnit := do
  require ((← get).tag.streaming = true) .assert
  unlock (.blocking d)
  require ((← getStreams).blocking d) .assert
  modifyStreams fun st => { st with blocking := update st.blocking d false }

/-- `wasip3_udp_recv_sync` and `wasip3_udp_send_sync`; `none` says that the
thread waits.  The loop has no end, and no wait, if the flag is set while the
blocking lock is free. -/
def sync (t : Tid T) (c : Io) : M T (Option (Except Errno Unit)) := do
  if ¬ (← get).tag.streaming then return some (.error .EOPNOTSUPP)
  else if ¬ (← getStreams).blocking c.dir then return some (.ok ())
  else if ¬ c.blocking then return some (.error .EOPNOTSUPP)
  else do
    unlock .object
    if ← lock t (.blocking c.dir) (.bounced c) then throw .trap
    else return none

/-! ## Opening and closing -/

/-- The record of a teardown. -/
def tear (t : Tid T) : M T PUnit :=
  modify fun s => { s with torn :=
    ⟨(s.lock (.blocking .read)).word, (s.lock (.blocking .write)).word, s.inside t⟩ :: s.torn }

/-- `memset(dst, 0, sizeof(*dst))`. -/
def zeroStreams (t : Tid T) : M T PUnit := do
  tear t
  modify fun s => { s with
    streams := .zero
    lock := fun
      | .object => s.lock .object
      | .blocking d => { s.lock (.blocking d) with word := 0 } }

/-- `udp_create_streams`. -/
def createStreams (t : Tid T) (remote : Bool) : M T (Except Errno Unit) := do
  require ((← get).tag = .boundNostreams) .trap
  zeroStreams t
  if remote then
    match (← get).env.connect with
    | .error e => return .error (mapSocketError e)
    | .ok _ => do
        modify fun s => { s with tag := .connected }
        return .ok ()
  else do
    modify fun s => { s with tag := .boundStreaming }
    return .ok ()

/-- `udp_do_bind`. -/
def doBind : M T (Except Errno Unit) := do
  if (← get).tag ≠ .unbound then return .error .EINVAL
  else
    match (← get).env.bind with
    | .error e => return .error (mapSocketError e)
    | .ok _ => do
        modify fun s => { s with tag := .boundNostreams }
        return .ok ()

/-! ## Receiving -/

/-- An entry in the record of the receives, with a change of the streams. -/
def record (entries : List Receipt) (f : Streams → Streams) : M T PUnit :=
  modify fun s => { s with streams := f s.streams, receipts := s.receipts ++ entries }

/-- `wasip3_recv_start`. -/
def recvStart : M T Bool := do
  let st ← getStreams
  require (¬ st.blocking .read) .assert
  if st.recvSubtask ∨ st.recvReady then return false
  else do
    match (← get).env.recv with
    | some r => record [.started, .completed r] fun st =>
      { st with recvResult := r, recvReady := true }
    | none => record [.started] fun st => { st with recvSubtask := true }
    return true

/-- `wasip3_recv_end`. -/
def recvEnd (r : RecvResult) : M T PUnit := do
  require ((← getStreams).recvSubtask) .assert
  modifyStreams fun st => { st with recvSubtask := false, recvReady := true, recvResult := r }

/-- The event of the receive, if it has come. -/
def takeRecv : Option RecvResult → M T PUnit
  | some r => record [.completed r] id
  | none => return

/-- The end of `udp_recvfrom`: the result is given to the caller. -/
def recvReturn (t : Tid T) (c : Recv) : M T PUnit := do
  let st ← getStreams
  require st.recvReady .assert
  require (¬ st.recvSubtask) .assert
  record [.consumed c.id st.recvResult] fun st => { st with recvReady := false }
  match st.recvResult with
  | .error e => leave t c.id (.error (mapSocketError e))
  | .ok data => leave t c.id (.ok (if c.trunc then data.length else min data.length c.length))

/-- `udp_recvfrom`, after `wasip3_udp_recv_sync`. -/
def recvSynced (t : Tid T) (c : Recv) : M T PUnit := do
  let started ← recvStart
  if started ∧ ¬ c.blocking ∧ ¬ (← getStreams).recvReady then leave t c.id (.error .EWOULDBLOCK)
  else if (← getStreams).recvSubtask then
    if c.blocking then do
      let timeout := (← get).timeout .read
      enterBlocking t .read
      unlock .object
      park t (.waiting (.recv c timeout))
    else
      match (← get).env.recvEvent with
      | some r => do
          takeRecv (some r)
          recvEnd r
          recvReturn t c
      | none => leave t c.id (.error .EWOULDBLOCK)
  else recvReturn t c

/-- The socket's lock has been got after the wait for the receive. -/
def recvEnded (t : Tid T) (c : Recv) (event : Option RecvResult) : M T PUnit := do
  exitBlocking .read
  match event with
  | none => leave t c.id (.error .EWOULDBLOCK)
  | some r => do
      recvEnd r
      recvReturn t c

/-! ## Sending -/

/-- `sockets_method_udp_socket_send`: a datagram is given to the host, which
returns at once or not. -/
def hostSend (c : Send) (answer : Option SendResult) : M T Nat := do
  let subtask := (← get).sends.length
  modify fun s => { s with
    sends := s.sends ++ [⟨c.id, c.data, if answer.isSome then .taken else .pending⟩] }
  return subtask

/-- A subtask of a send ends. -/
def hostEnd (subtask : Nat) (fate : Fate) : M T PUnit := do
  match (← get).sends[subtask]? with
  | some ⟨call, data, .pending⟩ =>
    modify fun s => { s with sends := s.sends.set subtask ⟨call, data, fate⟩ }
  | _ => throw .trap

/-- The send in flight has returned: `UDP_STREAMS_SEND_READY` is set, and the
subtask is dropped. -/
def sendReturned (r : SendResult) : M T PUnit := do
  match (← getStreams).sendSubtask with
  | none => throw .trap
  | some subtask => do
      hostEnd subtask .taken
      modifyStreams fun st => { st with sendSubtask := none, sendReady := true, sendResult := r }

/-- The end of `wasip3_send_resolve`: the result of a send is looked at, and
`next` follows if there was no error. -/
def resolved (t : Tid T) (c : Send) (next : M T PUnit) : M T PUnit := do
  let st ← getStreams
  if st.sendReady then do
    modifyStreams fun st => { st with copy := false, sendReady := false }
    match st.sendResult with
    | .error e => leave t c.id (.error (mapSocketError e))
    | .ok _ => next
  else next

/-- `wasip3_send_resolve`; `own` says that the send is the one of this call. -/
def sendResolve (t : Tid T) (c : Send) (own : Bool) (next : M T PUnit) : M T PUnit := do
  if (← getStreams).sendSubtask.isSome then
    if c.blocking then do
      let timeout := (← get).timeout .write
      enterBlocking t .write
      unlock .object
      park t (.waiting (.send c own timeout))
    else
      match (← get).env.sendEvent with
      | some r => do
          sendReturned r
          resolved t c next
      | none => leave t c.id (.error .EWOULDBLOCK)
  else resolved t c next

/-- The end of `udp_sendto`: the result is waited for, or left to the next
call. -/
def sent (t : Tid T) (c : Send) : M T PUnit := do
  if c.blocking ∨ (← getStreams).sendReady then
    sendResolve t c true (leave t c.id (.ok c.data.length))
  else leave t c.id (.ok c.data.length)

/-- A send has returned at once, or when it was cancelled. -/
def sendAnswered (r : SendResult) : M T PUnit := do
  let st ← getStreams
  require (st.sendSubtask = none) .assert
  require (¬ st.sendReady) .assert
  modifyStreams fun st => { st with sendResult := r, sendReady := true }

/-- `udp_sendto`, when no send is active: the first attempt, with the caller's
buffer. -/
def issue (t : Tid T) (c : Send) : M T PUnit := do
  let st ← getStreams
  require (st.sendSubtask = none) .assert
  require (¬ st.sendReady) .assert
  require (¬ st.copy) .assert
  let answer := (← get).env.send
  let subtask ← hostSend c answer
  match answer with
  | some r => do
      sendAnswered r
      sent t c
  | none => park t (.waiting (.cancelSend c subtask))

/-- The second attempt of `udp_sendto`, with a copy of the datagram. -/
def resend (t : Tid T) (c : Send) (answer : Option SendResult) : M T PUnit := do
  modifyStreams fun st => { st with copy := true }
  let subtask ← hostSend c answer
  match answer with
  | some r => do
      sendAnswered r
      sent t c
  | none => do
      modifyStreams fun st => { st with sendSubtask := some subtask }
      sent t c

/-- The send with the caller's buffer has been cancelled: unless it has
returned, another one is made with a copy. -/
def sendCancelled (t : Tid T) (c : Send) (subtask : Nat) : M T PUnit := do
  match (← get).env.sendCancel with
  | some r => do
      hostEnd subtask .taken
      sendAnswered r
      sent t c
  | none => do
      hostEnd subtask .cancelled
      if ¬ (← get).env.malloc then leave t c.id (.error .ENOMEM)
      else resend t c (← get).env.resend

/-- `udp_sendto`, after `wasip3_udp_send_sync`. -/
def sendSynced (t : Tid T) (c : Send) : M T PUnit := sendResolve t c false (issue t c)

/-- The socket's lock has been got after the wait for a send. -/
def sendEnded (t : Tid T) (c : Send) (own : Bool) (event : Option SendResult) : M T PUnit := do
  exitBlocking .write
  match event with
  | none => leave t c.id (.error .EWOULDBLOCK)
  | some r => do
      sendReturned r
      resolved t c (if own then leave t c.id (.ok c.data.length) else issue t c)

/-! ## Calls -/

/-- A call goes on after its `sync`. -/
def synced (t : Tid T) : Io → M T PUnit
  | .recv c => recvSynced t c
  | .send c => sendSynced t c

/-- `udp_recvfrom` and `udp_sendto`, from `sync` on. -/
def transfer (t : Tid T) (c : Io) : M T PUnit := do
  match ← sync t c with
  | none => pure ()
  | some (.error e) => leave t c.id (.error e)
  | some (.ok _) => synced t c

/-- `sync`, when the blocking lock has been got. -/
def bounced (t : Tid T) (c : Io) : M T Bool := do
  unlock (.blocking c.dir)
  lock t .object (.retry c)

/-- The streams are made if there are none yet. -/
def needStreams (t : Tid T) : M T (Except Errno Unit) := do
  if (← get).tag = .boundNostreams then createStreams t false else return .ok ()

/-- `udp_recvfrom`. -/
def recvfrom (t : Tid T) (id : Nat) (a : RecvArgs) : M T PUnit := do
  if a.unsupported then leave t id (.error .EOPNOTSUPP)
  else
    match a.addr with
    | .error e => leave t id (.error e)
    | .ok _ =>
      match ← needStreams t with
      | .error e => leave t id (.error e)
      | .ok _ =>
        if ¬ (← get).tag.streaming then leave t id (.error .EINVAL)
        else
          transfer t (.recv ⟨id, a.length, a.trunc, (← get).blocking && !a.dontwait⟩)

/-- The checks of `udp_sendto` on the address. -/
def sendAddress (tag : Tag) (a : SendArgs) : Except Errno Unit :=
  match a.addr with
  | some addr => if tag = .connected then .error .EISCONN else addr
  | none =>
    if a.addrlen ≠ 0 then .error .EINVAL
    else if tag ≠ .connected then .error .EDESTADDRREQ
    else .ok ()

/-- The socket is bound if it is not bound yet. -/
def needBound : M T (Except Errno Unit) := do
  if (← get).tag = .unbound then doBind else return .ok ()

/-- `udp_sendto`. -/
def sendto (t : Tid T) (id : Nat) (a : SendArgs) : M T PUnit := do
  if a.unsupported then leave t id (.error .EOPNOTSUPP)
  else
    match sendAddress (← get).tag a with
    | .error e => leave t id (.error e)
    | .ok _ =>
      match ← needBound with
      | .error e => leave t id (.error e)
      | .ok _ =>
        match ← needStreams t with
        | .error e => leave t id (.error e)
        | .ok _ =>
          if ¬ (← get).tag.streaming then leave t id (.error .EINVAL)
          else transfer t (.send ⟨id, a.data, (← get).blocking && !a.dontwait⟩)

/-! ## Connecting -/

/-- The end of `udp_connect`. -/
def reconnect (t : Tid T) (id : Nat) (remote : Bool) : M T PUnit := do
  match ← createStreams t remote with
  | .error e => leave t id (.error e)
  | .ok _ => leave t id (.ok 0)

/-- The end of `udp_close_streams`, and then the new streams. -/
def closedStreams (t : Tid T) (id : Nat) (remote : Bool) : M T PUnit := do
  modifyStreams fun st => { st with copy := false, sendReady := false }
  modify fun s => { s with tag := .boundNostreams }
  reconnect t id remote

/-- The second part of `udp_close_streams`: the packet that was received is
released, and a send is waited for. -/
def closeSend (t : Tid T) (id : Nat) (remote : Bool) : M T PUnit := do
  modifyStreams fun st => { st with recvReady := false }
  if (← getStreams).sendSubtask.isSome then do
    require (¬ (← getStreams).sendReady) .assert
    park t (.waiting (.closeSend id remote))
  else closedStreams t id remote

/-- `udp_close_streams`, in a `connect`. -/
def closeStreams (t : Tid T) (id : Nat) (remote : Bool) : M T PUnit := do
  tear t
  let st ← getStreams
  require (¬ st.blocking .read) .assert
  require (¬ st.blocking .write) .assert
  if st.recvSubtask then do
    require (¬ st.recvReady) .assert
    park t (.waiting (.cancelRecv id remote))
  else closeSend t id remote

/-- `udp_close_streams`, when the cancellation of the receive has been
answered. -/
def recvCancelled (t : Tid T) (id : Nat) (remote : Bool) : M T PUnit := do
  modifyStreams fun st => { st with recvSubtask := false }
  closeSend t id remote

/-- `udp_close_streams`, when the send has returned. -/
def sendClosed (t : Tid T) (id : Nat) (remote : Bool) : M T PUnit := do
  match (← get).env.sendEvent with
  | none => throw .host
  | some r => do
      sendReturned r
      closedStreams t id remote

/-- `udp_connect`. -/
def connect (t : Tid T) (id : Nat) (remote : Except Errno Bool) : M T PUnit := do
  match remote with
  | .error e => leave t id (.error e)
  | .ok remote =>
    match ← needBound with
    | .error e => leave t id (.error e)
    | .ok _ =>
      if (← get).tag.streaming then
        if (← getStreams).blocking .read ∨ (← getStreams).blocking .write then
          leave t id (.error .EOPNOTSUPP)
        else closeStreams t id remote
      else reconnect t id remote

/-! ## Polling -/

/-- The readable part of `udp_poll_register`, with the halves that the call
has registered. -/
def pollRecv (t : Tid T) (regs : List Dir) : M T (Except Errno Unit × List Dir) := do
  if (← getStreams).blocking .read then return (.error .EOPNOTSUPP, regs)
  else do
    let _ ← recvStart
    if (← getStreams).recvReady then return (.ok (), regs)
    else do
      require ((← getStreams).recvSubtask) .assert
      if (← get).env.pollAdd .read then do
        enterBlocking t .read
        return (.ok (), regs ++ [.read])
      else return (.error .ENOMEM, regs)

/-- The writable part of `udp_poll_register`. -/
def pollSend (t : Tid T) (regs : List Dir) : M T (Except Errno Unit × List Dir) := do
  if (← getStreams).blocking .write then return (.error .EOPNOTSUPP, regs)
  else if (← getStreams).sendSubtask.isSome then
    if (← get).env.pollAdd .write then do
      enterBlocking t .write
      return (.ok (), regs ++ [.write])
    else return (.error .ENOMEM, regs)
  else return (.ok (), regs)

/-- The two parts of `udp_poll_register`. -/
def pollStreams (t : Tid T) (ev : Events) (regs : List Dir) :
    M T (Except Errno Unit × List Dir) := do
  let (result, regs) ← if ev.rdnorm then pollRecv t regs else pure (.ok (), regs)
  match result with
  | .error e => return (.error e, regs)
  | .ok _ => if ev.wrnorm then pollSend t regs else return (.ok (), regs)

/-- `udp_poll_register`, under the socket's lock. -/
def pollRegister (t : Tid T) (ev : Events) (regs : List Dir) :
    M T (Except Errno Unit × List Dir) := do
  if (← get).tag = .unbound then do
    unlock .object
    return (.ok (), regs)
  else
    match ← needStreams t with
    | .error e => do
        unlock .object
        return (.error e, regs)
    | .ok _ => do
        let r ← pollStreams t ev regs
        unlock .object
        return r

/-- A callback of `poll` at its end, under the socket's lock. -/
def pollCancelled (d : Dir) : M T PUnit := do
  exitBlocking d
  unlock .object

/-- The end of `poll`: the callbacks that have not been called, without an
event. -/
def pollCleanup (t : Tid T) (id : Nat) (result : Except Errno Unit) : List Dir → M T PUnit
  | [] => finish t id (result.map fun _ => 0)
  | d :: regs => do
      if ← lock t .object (.cleanup id d regs result) then do
        pollCancelled d
        pollCleanup t id result regs

/-- `poll` goes on after an entry has been registered, or not. -/
def pollRegistered (t : Tid T) (id : Nat) (next : List Dir → M T PUnit) :
    Except Errno Unit × List Dir → M T PUnit
  | (.ok _, regs) => next regs
  | (.error e, regs) => pollCleanup t id (.error e) regs

/-- The loop of `poll` over its entries. -/
def pollLoop (t : Tid T) (id : Nat) : List Events → List Dir → M T PUnit
  | [], regs => park t (.waiting (.polling id regs))
  | ev :: todo, regs => do
      if ← lock t .object (.register id (ev :: todo) regs) then do
        pollRegistered t id (pollLoop t id todo) (← pollRegister t ev regs)

/-- The loop of `poll`, when it has got the socket's lock for an entry. -/
def pollResumed (t : Tid T) (id : Nat) (todo : List Events) (regs : List Dir) : M T PUnit := do
  match todo with
  | [] => throw .assert
  | ev :: todo => pollRegistered t id (pollLoop t id todo) (← pollRegister t ev regs)

/-- `wasip3_recv_ready` and `wasip3_send_ready`, under the socket's lock and
with an event. -/
def pollReady (t : Tid T) (id : Nat) (event : Event) (regs : List Dir) : M T PUnit := do
  exitBlocking event.dir
  match event with
  | .recv r => recvEnd r
  | .send r => do
      require (¬ (← getStreams).sendReady) .assert
      sendReturned r
  unlock .object
  park t (.waiting (.polling id regs))

/-- The event of a half, if it has come. -/
def Env.pollEvent (env : Env) : Dir → Option Event
  | .read => env.recvEvent.map .recv
  | .write => env.sendEvent.map .send

/-- The result of a receive. -/
def Event.received : Event → Option RecvResult
  | .recv r => some r
  | .send _ => none

/-- `poll` finds an event, or no more. -/
def polling (t : Tid T) (id : Nat) (regs : List Dir) : M T PUnit := do
  match (← get).env.event with
  | none => pollCleanup t id (.ok ()) regs
  | some d => do
      require (d ∈ regs) .host
      match (← get).env.pollEvent d with
      | none => throw .host
      | some event => do
          takeRecv event.received
          if ← lock t .object (.ready id event (regs.erase d)) then
            pollReady t id event (regs.erase d)

/-! ## Threads -/

/-- A call begins, under the socket's lock. -/
def begin (t : Tid T) (id : Nat) : Call → M T PUnit
  | .sendto a => sendto t id a
  | .recvfrom a => recvfrom t id a
  | .bind addr => do
      match addr with
      | .error e => leave t id (.error e)
      | .ok _ =>
        match ← doBind with
        | .error e => leave t id (.error e)
        | .ok _ => leave t id (.ok 0)
  | .connect remote => connect t id remote
  | .setBlocking blocking => do
      modify fun s => { s with blocking := blocking }
      leave t id (.ok 0)
  | .setTimeout d timeout => do
      modify fun s => { s with timeout := update s.timeout d timeout }
      leave t id (.ok 0)
  | .poll _ => throw .assert

/-- A call. -/
def call (t : Tid T) (id : Nat) : Call → M T PUnit
  | .poll fds => pollLoop t id fds []
  | c => do if ← lock t .object (.begin id c) then begin t id c

/-- A thread goes on with the lock that it has waited for. -/
def acquired (t : Tid T) : Cont → M T PUnit
  | .begin id c => begin t id c
  | .bounced c => do if ← bounced t c then transfer t c
  | .retry c => transfer t c
  | .recvEnd c event => recvEnded t c event
  | .sendEnd c own event => sendEnded t c own event
  | .register id todo regs => pollResumed t id todo regs
  | .ready id event regs => pollReady t id event regs
  | .cleanup id d regs result => do
      pollCancelled d
      pollCleanup t id result regs

/-- The event that a wait with a timeout ends with; a timeout of 0 is none. -/
def awaited {α : Type} (timeout : Nat) (event : Option α) : M T (Option α) := do
  require (timeout = 0 → event.isSome) .host
  return event

/-- A thread goes on when the host has answered. -/
def answered (t : Tid T) : Wait → M T PUnit
  | .recv c timeout => do
      let event ← awaited timeout (← get).env.recvEvent
      takeRecv event
      if ← lock t .object (.recvEnd c event) then recvEnded t c event
  | .send c own timeout => do
      let event ← awaited timeout (← get).env.sendEvent
      if ← lock t .object (.sendEnd c own event) then sendEnded t c own event
  | .polling id regs => polling t id regs
  | .cancelSend c subtask => sendCancelled t c subtask
  | .cancelRecv id remote => recvCancelled t id remote
  | .closeSend id remote => sendClosed t id remote

/-- A thread calls, or goes on; or the last descriptor is closed. -/
inductive Label (T : Threads) where
  | call (t : Tid T) (c : Call) (env : Env)
  | resume (t : Tid T) (env : Env)
  | close (t : Tid T) (env : Env)

def Label.tid : Label T → Tid T
  | .call t _ _ => t
  | .resume t _ => t
  | .close t _ => t

def Label.env : Label T → Env
  | .call _ _ env => env
  | .resume _ env => env
  | .close _ env => env

/-- The thread is not in a call. -/
def Phase.isIdle : Phase → Bool
  | .idle => true
  | _ => false

/-- `udp_free`: nobody uses the socket any more, and it is left to itself while
it waits for a send. -/
def free (t : Tid T) : M T PUnit := do
  if (← get).tag.streaming then do
    tear t
    if (← getStreams).sendSubtask.isSome then
      match (← get).env.sendEvent with
      | none => throw .host
      | some r => sendReturned r
  modify fun s => { s with closed := true }

/-- What the thread runs. -/
def program (s : State T) : Label T → M T PUnit
  | .call t c _ => do
      require (s.closed = false ∧ (s.thread t).isIdle = true) .host
      modify fun s => { s with calls := s.calls ++ [c] }
      call t s.calls.length c
  | .resume t _ =>
    match s.thread t with
    | .idle => throw .host
    | .locking l k => do if ← relock t l then acquired t k
    | .waiting w => answered t w
  | .close t _ => do
      require (s.closed = false ∧ ∀ u, (s.thread u).isIdle = true) .host
      free t

/-- A step: the thread runs until it has to wait. -/
def exec (s : State T) (l : Label T) : Except Fault (State T) :=
  Prod.snd <$> program s l { s with env := l.env }

/-- A step that is possible. -/
def next (s : State T) (l : Label T) : Option (State T) := (exec s l).toOption

end WasiLibc.Udp
