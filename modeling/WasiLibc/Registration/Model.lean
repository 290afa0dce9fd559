import WasiLibc.DescriptorTable.Table
import WasiLibc.Lib.Wp
import WasiLibc.Waitable

/-!
# WasiLibc.Registration.Model

How a new object gets a descriptor on wasip2 and wasip3: the owned handle
goes from the caller through `__wasilibc_add_file`, `tcp_add` or
`__wasilibc_add_udp_socket` to `descriptor_table_insert`, and any allocation
on the way may fail.

A call consumes the answers of the allocator, one for each allocation it
makes.  Releases of handles are recorded in order.  The objects hold what
their destructors release; other fields of theirs are left out.
-/

namespace WasiLibc.Registration

open DescriptorTable Errno Function Wp

/-! ## Handles and objects -/

inductive HandleKind where
  | descriptor
  | tcpSocket
  | udpSocket
  | inputStream
  | outputStream
deriving DecidableEq, Repr

/-- An owned handle of the component model. -/
structure Handle where
  kind : HandleKind
  index : Nat
deriving DecidableEq, Repr

/-- `tcp_socket_state_t`, as far as new sockets have it. -/
inductive TcpState where
  | unbound
  /-- Connected on wasip2: the streams are children of the socket. -/
  | streaming (input output : Handle)
  /-- Connected on wasip3. -/
  | connected
deriving DecidableEq, Repr

inductive Object where
  | stdio (fd : Nat)
  | file (fileHandle : Handle)
  | tcp (socket : Handle) (state : TcpState)
  | udp (socket : Handle)
deriving DecidableEq, Repr

/-- The handles that `vtable->free` releases, in order.  The streams of a new
file and of standard input and output are not there yet. -/
def Object.handles : Object → List Handle
  | .stdio _ => []
  | .file h => [h]
  | .tcp h .unbound => [h]
  | .tcp h (.streaming input output) => [input, output, h]
  | .tcp h .connected => [h]
  | .udp h => [h]

/-- The vtable of an object, as the table knows it. -/
def Object.vtable : Object → Nat
  | .stdio _ => 0
  | .file _ => 1
  | .tcp _ _ => 2
  | .udp _ => 3

/-! ## The state -/

structure State where
  /-- `global_table`, and the reference counts. -/
  table : DescriptorTable.State
  heap : Nat → Option Object
  /-- Addresses from here on have not been allocated. -/
  brk : Nat
  stdioInitialized : Bool
  numPreopens : Nat
  preopenCapacity : Nat
  /-- The `accept_result` of a listening socket under
  `TCP_LISTENING_ACCEPT_READY`. -/
  acceptResult : Option Handle
  /-- The handles that have been released. -/
  drops : List Handle
  /-- What the allocator will answer. -/
  answers : List Bool

abbrev M := StateT State (Except Fault)

/-- An allocation. -/
def allocate : M Bool := do
  match (← get).answers with
  | [] => throw .host
  | answer :: answers => do
    modify fun s => { s with answers := answers }
    return answer

/-- `calloc` of an object, which is then filled in. -/
def calloc (obj : Object) : M (Option Nat) := do
  if ← allocate then
    let data := (← get).brk
    modify fun s => { s with heap := update s.heap data (some obj), brk := data + 1 }
    return some data
  else return none

/-- `filesystem_descriptor_drop_own` and the like. -/
def dropOwn (h : Handle) : M PUnit := modify fun s => { s with drops := s.drops ++ [h] }

/-- `vtable->free`. -/
def vtableFree (data : Nat) : M PUnit := do
  match (← get).heap data with
  | none => throw .trap
  | some obj =>
    modify fun s => { s with
      drops := s.drops ++ obj.handles
      heap := update s.heap data none }

/-! ## `descriptor_table_insert` -/

/-- `descriptor_table_entry_dec`. -/
def entryDec (entry : Entry) : M PUnit := do
  match descriptorTableEntryDec (← get).table.objs entry with
  | none => throw .assert
  | some objs =>
    modify fun s => { s with table.objs := objs }
    if objs.cnt entry.data = 0 then vtableFree entry.data

/-- The entry goes where `table_allocate` puts it; `realloc` is what becomes of a
`realloc`. -/
def place (entry : Entry) (realloc : Bool) : M (Except Errno Nat) := do
  match tableAllocate (← get).table.table entry realloc with
  | .ok (fd, table) =>
    modify fun s => { s with table.table := table }
    return .ok fd
  | .error e =>
    entryDec entry
    return .error e

/-- `descriptor_table_insert_entry`; the table is reallocated only if it is
full. -/
def insertEntry (entry : Entry) : M (Except Errno Nat) := do
  let t := (← get).table
  require (0 < t.objs.cnt entry.data) .assert
  if t.table.freeFrom t.table.nextFd = t.table.len then place entry (← allocate)
  else place entry true

/-- The first lines of `descriptor_table_insert`. -/
def firstReference (entry : Entry) : M PUnit := do
  require ((← get).table.objs.cnt entry.data = 0) .assert
  modify fun s => { s with table.objs := { s.table.objs with
    cnt := update s.table.objs.cnt entry.data 1
    liveDescriptors := s.table.objs.liveDescriptors + 1 } }

/-- `stdio_add`, `stdio_add_input` and `stdio3_add_output`.  Standard input and
output count as initialized by then, so `descriptor_table_insert` is just
this. -/
def stdioAdd (fd : Nat) : M (Except Errno Nat) := do
  match ← calloc (.stdio fd) with
  | none => return .error ENOMEM
  | some data =>
    firstReference ⟨data, (Object.stdio fd).vtable⟩
    insertEntry ⟨data, (Object.stdio fd).vtable⟩

/-- `init_stdio`: the descriptors are added until one of them fails. -/
def initStdio : M (Except Errno Unit) := do
  modify fun s => { s with stdioInitialized := true }
  match ← stdioAdd 0 with
  | .error e => return .error e
  | .ok _ =>
    match ← stdioAdd 1 with
    | .error e => return .error e
    | .ok _ =>
      match ← stdioAdd 2 with
      | .error e => return .error e
      | .ok _ => return .ok ()

/-- `descriptor_table_insert`. -/
def descriptorTableInsert (entry : Entry) : M (Except Errno Nat) := do
  firstReference entry
  if (← get).stdioInitialized then insertEntry entry
  else
    match ← initStdio with
    | .error e =>
      entryDec entry
      return .error e
    | .ok _ => insertEntry entry

/-! ## New objects -/

/-- The object is allocated and inserted; if there is no memory for it then the
handle is released.  The address is what `tcp_add` stores through `out`. -/
def add (obj : Object) (h : Handle) : M (Except Errno Nat × Nat) := do
  match ← calloc obj with
  | none =>
    dropOwn h
    return (.error ENOMEM, 0)
  | some data => return (← descriptorTableInsert ⟨data, obj.vtable⟩, data)

/-- `__wasilibc_add_file`. -/
def wasilibcAddFile (h : Handle) : M (Except Errno Nat) := return (← add (.file h) h).1

/-- `tcp_add`. -/
def tcpAdd (h : Handle) : M (Except Errno Nat × Nat) := add (.tcp h .unbound) h

/-- `__wasilibc_add_tcp_socket`. -/
def wasilibcAddTcpSocket (h : Handle) : M (Except Errno Nat) := return (← tcpAdd h).1

/-- `__wasilibc_add_udp_socket`. -/
def wasilibcAddUdpSocket (h : Handle) : M (Except Errno Nat) := return (← add (.udp h) h).1

/-- `preopen_state_initialize`. -/
def preopenStateInitialize (h : Handle) : M (Except Errno Nat) := do
  match ← wasilibcAddFile h with
  | .error e =>
    dropOwn h
    return .error e
  | .ok fd => return .ok fd

/-- `resize`, without the array itself. -/
def resize : M Bool := do
  if ← allocate then
    modify fun s => { s with preopenCapacity :=
      if s.preopenCapacity = 0 then 4 else s.preopenCapacity * 2 }
    return true
  else return false

/-- There is room for a preopen. -/
def reserve : M Bool := do
  let s ← get
  if s.numPreopens = s.preopenCapacity then resize else return true

/-- `internal_register_preopened_fd_unlocked`, with the descriptor that the
preopen gets as its result. -/
def internalRegisterPreopenedFdUnlocked (h : Handle) : M (Except Errno Nat) := do
  if ← reserve then
    -- `strdup`
    if ← allocate then
      match ← preopenStateInitialize h with
      | .error e => return .error e
      | .ok fd =>
        modify fun s => { s with numPreopens := s.numPreopens + 1 }
        return .ok fd
    else return .error ENOMEM
  else return .error ENOMEM

/-- `tcp_accept4` on wasip2, from the client and the streams that the host has
given. -/
def tcpAccept4Preview2 (client input output : Handle) : M (Except Errno Nat) := do
  match ← tcpAdd client with
  | (.error e, _) =>
    dropOwn input
    dropOwn output
    return .error e
  | (.ok fd, data) =>
    modify fun s => { s with
      heap := update s.heap data (some (.tcp client (.streaming input output))) }
    return .ok fd

/-- `tcp_accept4` on wasip3, from an accepted client on. -/
def tcpAccept4Preview3 : M (Except Errno Nat) := do
  match (← get).acceptResult with
  | none => throw .assert
  | some client =>
    let r ← tcpAdd client
    modify fun s => { s with acceptResult := none }
    match r with
    | (.error e, _) => return .error e
    | (.ok fd, data) =>
      modify fun s => { s with
        heap := update s.heap data (some (.tcp client .connected)) }
      return .ok fd

/-- The ways in which an owned handle is registered. -/
inductive Op where
  /-- `openat`. -/
  | openat (handle : Handle)
  | registerPreopen (handle : Handle)
  /-- `socket`. -/
  | tcpSocket (handle : Handle)
  | udpSocket (handle : Handle)
  | accept2 (client input output : Handle)
  | accept3 (client : Handle)
deriving DecidableEq, Repr

def Op.run : Op → M (Except Errno Nat)
  | .openat h => wasilibcAddFile h
  | .registerPreopen h => internalRegisterPreopenedFdUnlocked h
  | .tcpSocket h => wasilibcAddTcpSocket h
  | .udpSocket h => wasilibcAddUdpSocket h
  | .accept2 client input output => tcpAccept4Preview2 client input output
  | .accept3 client => do
    modify fun s => { s with acceptResult := some client }
    tcpAccept4Preview3

end WasiLibc.Registration
