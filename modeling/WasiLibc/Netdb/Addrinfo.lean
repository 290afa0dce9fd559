import WasiLibc.Lib.Linear
import WasiLibc.Lib.Wp
import WasiLibc.Netdb.Port
import WasiLibc.Socket.Options

/-!
# WasiLibc.Netdb.Addrinfo

`getaddrinfo` and `freeaddrinfo`, for wasip2 and wasip3.

The memory holds the nodes and the socket addresses that have been allocated;
an allocation is known by its number, which is also its address, and the
environment says which of them succeed.  What is allocated or opened during
the call and what is given back is written into a log.  `strtol` is that of
`Netdb.Port`; `inet_pton` and the table of services, which a program may
replace, belong to the environment.  A string is the list of its bytes.

The resolver of wasip2 is a stream that is asked for one address after the
other and may have to be waited for, that of wasip3 answers with a list.
-/

namespace WasiLibc.Netdb

open Socket Wp

/-! ## Arguments -/

/-- `EAI_*`. -/
inductive Eai where
  | BADFLAGS
  | NONAME
  | AGAIN
  | FAIL
  | FAMILY
  | SOCKTYPE
  | SERVICE
  | MEMORY
  | SYSTEM
  deriving DecidableEq, Repr

/-- The value that is returned. -/
def Eai.code : Eai → Int
  | .BADFLAGS => -1
  | .NONAME => -2
  | .AGAIN => -3
  | .FAIL => -4
  | .FAMILY => -6
  | .SOCKTYPE => -7
  | .SERVICE => -8
  | .MEMORY => -10
  | .SYSTEM => -11

abbrev Flags := BitVec 32

def AI_PASSIVE : Flags := 0x01
def AI_CANONNAME : Flags := 0x02
def AI_NUMERICHOST : Flags := 0x04
def AI_V4MAPPED : Flags := 0x08
def AI_ALL : Flags := 0x10
def AI_ADDRCONFIG : Flags := 0x20
def AI_NUMERICSERV : Flags := 0x400

/-- The flags that are not refused. -/
def knownFlags : Flags :=
  AI_PASSIVE ||| AI_CANONNAME ||| AI_NUMERICHOST ||| AI_V4MAPPED ||| AI_ALL ||| AI_ADDRCONFIG |||
    AI_NUMERICSERV

def PF_UNSPEC : Int := 0
def PF_INET : Int := 1
def PF_INET6 : Int := 2

/-- The fields of `hint` that are read. -/
structure Hint where
  aiFlags : Flags
  aiFamily : Int
  aiSocktype : Int
  deriving DecidableEq, Repr

/-- `hint ? hint->... : 0`. -/
def hintOr {α : Type} (hint : Option Hint) (field : Hint → α) (default : α) : α :=
  (hint.map field).getD default

abbrev Protocols := BitVec 16

def SERVICE_PROTOCOL_TCP : Protocols := 1
def SERVICE_PROTOCOL_UDP : Protocols := 2

/-- `service_entry_t`. -/
structure ServiceEntry where
  sName : List UInt8
  port : BitVec 16
  protocol : Protocols
  deriving DecidableEq

/-- What the call depends on besides its arguments. -/
structure Env where
  /-- `__wasi_sockets_services_db`. -/
  services : List ServiceEntry
  /-- `inet_pton(AF_INET, ..)`: the bytes of the address. -/
  inetPton4 : List UInt8 → Option (Vector (BitVec 8) 4)
  /-- `inet_pton(AF_INET6, ..)`. -/
  inetPton6 : List UInt8 → Option (Vector (BitVec 8) 16)
  /-- Which of the allocations of the call succeed. -/
  mallocs : Nat → Bool
  /-- The memory of the `sockaddr_storage` of `add_addr`. -/
  storage : Memory

/-- `__wasilibc_get_service_entry_by_name`. -/
def getServiceEntryByName (env : Env) (name : List UInt8) : Option ServiceEntry :=
  env.services.find? fun entry => name = entry.sName

/-- `ipv4_address`. -/
def ipv4Address (b : Vector (BitVec 8) 4) : IpAddress := .ipv4 ⟨b[0], b[1], b[2], b[3]⟩

/-- `ipv6_address`. -/
def ipv6Address (b : Vector (BitVec 8) 16) : IpAddress := .ipv6 (ipv6OfBytes b)

def any4 : Vector (BitVec 8) 4 := .replicate 4 0
def loopback4 : Vector (BitVec 8) 4 := #v[127, 0, 0, 1]
def in6addrAny : Vector (BitVec 8) 16 := .replicate 16 0
def in6addrLoopback : Vector (BitVec 8) 16 := (Vector.replicate 15 0).push 1

/-! ## What needs no resolver -/

/-- What `getaddrinfo` has found out before it makes the list. -/
structure Query where
  flags : Flags
  port : Int
  protocol : Protocols
  /-- `local`. -/
  locals : List IpAddress

/-- The port and the protocols of the service. -/
def lookupService (env : Env) (flags : Flags) (serv : Option (List UInt8)) :
    Except Eai (Int × Protocols) :=
  match serv with
  | none => .ok (0, SERVICE_PROTOCOL_TCP ||| SERVICE_PROTOCOL_UDP)
  | some serv =>
    let port := parsePort serv
    if port < 0 then
      if flags &&& AI_NUMERICSERV ≠ 0 then .error .NONAME
      else
        match getServiceEntryByName env serv with
        | none => .error .NONAME
        | some service => .ok (service.port.toNat, service.protocol)
    else .ok (port, SERVICE_PROTOCOL_TCP ||| SERVICE_PROTOCOL_UDP)

/-- The protocols that the type of the socket leaves. -/
def narrow (socktype : Int) (protocol : Protocols) : Protocols :=
  if socktype = SOCK_STREAM then protocol &&& SERVICE_PROTOCOL_TCP
  else if socktype = SOCK_DGRAM then protocol &&& SERVICE_PROTOCOL_UDP
  else protocol

/-- The addresses for a host that is NULL or a literal; there is none if the
resolver has to be asked. -/
def localAddresses (env : Env) (flags : Flags) (family : Int) (host : Option (List UInt8)) :
    Except Eai (List IpAddress) :=
  match host with
  | none =>
    .ok ((if family ≠ PF_INET6 then
        [ipv4Address (if flags &&& AI_PASSIVE ≠ 0 then any4 else loopback4)] else []) ++
      if family ≠ PF_INET then
        [ipv6Address (if flags &&& AI_PASSIVE ≠ 0 then in6addrAny else in6addrLoopback)] else [])
  | some host =>
    match env.inetPton4 host with
    | some a4 => if family = PF_INET6 then .error .NONAME else .ok [ipv4Address a4]
    | none =>
      match env.inetPton6 host with
      | some a6 => if family = PF_INET then .error .NONAME else .ok [ipv6Address a6]
      | none => if flags &&& AI_NUMERICHOST ≠ 0 then .error .NONAME else .ok []

/-- `getaddrinfo` up to the declaration of `result`. -/
def prepare (env : Env) (host serv : Option (List UInt8)) (hint : Option Hint) :
    Except Eai Query := do
  let flags := hintOr hint Hint.aiFlags 0
  if flags &&& ~~~knownFlags ≠ 0 then throw .BADFLAGS
  let family := hintOr hint Hint.aiFamily PF_UNSPEC
  if family ≠ PF_UNSPEC ∧ family ≠ PF_INET ∧ family ≠ PF_INET6 then throw .FAMILY
  let socktype := hintOr hint Hint.aiSocktype 0
  if socktype ≠ 0 ∧ socktype ≠ SOCK_STREAM ∧ socktype ≠ SOCK_DGRAM then throw .SOCKTYPE
  if host = none ∧ serv = none then throw .NONAME
  let (port, protocol) ← lookupService env flags serv
  let protocol := narrow socktype protocol
  if protocol = 0 then throw .SERVICE
  let locals ← localAddresses env flags family host
  return ⟨flags, port, protocol, locals⟩

/-! ## Memory -/

/-- `struct addrinfo`. -/
structure AddrInfo where
  aiFlags : Flags
  aiFamily : Int
  aiSocktype : Int
  aiProtocol : Int
  aiAddrlen : Nat
  aiAddr : Nat
  aiCanonname : Option Nat
  aiNext : Option Nat
  deriving DecidableEq, Repr

/-- What has to be given back. -/
inductive Resource where
  /-- A node, a socket address or a name that has been allocated. -/
  | node (p : Nat)
  | sockaddr (p : Nat)
  | canonname (p : Nat)
  /-- The list of addresses of wasip3. -/
  | addresses
  /-- The stream of addresses of wasip2, and its pollable. -/
  | stream
  | pollable
  /-- The text of an error of wasip3. -/
  | message
  deriving DecidableEq, Repr

/-- The memory of the call. -/
structure State where
  /-- `*res`. -/
  res : Option Nat
  result : Option Nat
  current : Option Nat
  nodes : Nat → Option AddrInfo
  sockaddrs : Nat → Option Sockaddr
  /-- The number of allocations that have been tried. -/
  allocated : Nat
  /-- Whether `pollable.__handle` is not 0. -/
  pollable : Bool
  errno : Option Errno
  log : List (Linear.Event Resource)

/-- At the start `*res` is anything. -/
def State.start (res : Option Nat) : State :=
  ⟨res, none, none, fun _ => none, fun _ => none, 0, false, none, []⟩

abbrev M := StateT State (Except Fault)

def acquire (r : Resource) : M PUnit := modify fun s => { s with log := s.log ++ [.acquire r] }

def release (r : Resource) : M PUnit := modify fun s => { s with log := s.log ++ [.release r] }

/-- `malloc`. -/
def malloc (env : Env) (make : Nat → Resource) : M (Option Nat) := do
  let p := (← get).allocated
  modify fun s => { s with allocated := p + 1 }
  if env.mallocs p then do
    acquire (make p)
    return some p
  else return none

/-- `free`. -/
def free (make : Nat → Resource) : Option Nat → M PUnit
  | none => pure ⟨⟩
  | some p => release (make p)

/-- The node at an address; there must be one. -/
def node (p : Nat) : M AddrInfo := do
  match (← get).nodes p with
  | none => throw .trap
  | some n => return n

def setNode (p : Nat) (n : AddrInfo) : M PUnit :=
  modify fun s => { s with nodes := Function.update s.nodes p (some n) }

/-- The loop of `freeaddrinfo`.  Every node is an allocation of its own, so it
has at most as many turns as there were allocations. -/
def freeLoop : Nat → Option Nat → M PUnit
  | _, none => pure ⟨⟩
  | 0, some _ => throw .trap
  | turns + 1, some p => do
      let n ← node p
      free .canonname n.aiCanonname
      free .sockaddr (some n.aiAddr)
      free .node (some p)
      modify fun s => { s with nodes := Function.update s.nodes p none }
      freeLoop turns n.aiNext

/-- `freeaddrinfo`. -/
def freeaddrinfo (p : Option Nat) : M PUnit := do freeLoop (← get).allocated p

/-! ## The list -/

/-- The family of an address, as `ai_family`. -/
def family : IpAddress → Int
  | .ipv4 _ => PF_INET
  | .ipv6 _ => PF_INET6

/-- The address is of another family than the one that is asked for. -/
def Unwanted (hint : Option Hint) (address : IpAddress) : Prop :=
  ∃ h ∈ hint, h.aiFamily ≠ PF_UNSPEC ∧ h.aiFamily ≠ family address

instance (hint : Option Hint) (address : IpAddress) : Decidable (Unwanted hint address) := by
  unfold Unwanted
  infer_instance

/-- `add_addr`; the port is in network byte order. -/
def addAddr (env : Env) (address : IpAddress) (port : BitVec 16) (socktype : Int)
    (hint : Option Hint) : M Bool := do
  if Unwanted hint address then return true
  else do
    let addr := addAddrSockaddr address port env.storage
    let node ← malloc env .node
    let addrRet ← malloc env .sockaddr
    match node, addrRet with
    | some n, some a => do
        modify fun s => { s with sockaddrs := Function.update s.sockaddrs a (some addr) }
        setNode n {
          aiFlags := 0
          aiFamily := family address
          aiSocktype := socktype
          aiProtocol := if socktype = SOCK_STREAM then IPPROTO_TCP else IPPROTO_UDP
          aiAddrlen := addr.addrlen
          aiAddr := a
          aiCanonname := none
          aiNext := none }
        modify fun s => { s with result := s.result.or (some n) }
        match (← get).current with
        | none => pure ⟨⟩
        | some c => do
            let last ← Netdb.node c
            setNode c { last with aiNext := some n }
        modify fun s => { s with current := some n }
        return true
    | _, _ => do
        free .node node
        free .sockaddr addrRet
        return false

/-- An early return of `EAI_MEMORY` if `add_addr` fails, for one protocol. -/
def addProtocol (env : Env) (q : Query) (hint : Option Hint) (address : IpAddress)
    (protocol : Protocols) (socktype : Int) : M (Except Eai Unit) := do
  if q.protocol &&& protocol ≠ 0 then do
    if ← addAddr env address (htons (BitVec.ofInt 16 q.port)) socktype hint then return .ok ()
    else return .error .MEMORY
  else return .ok ()

/-- One turn of either loop over addresses. -/
def addAddress (env : Env) (q : Query) (hint : Option Hint) (address : IpAddress) :
    M (Except Eai Unit) := do
  match ← addProtocol env q hint address SERVICE_PROTOCOL_TCP SOCK_STREAM with
  | .error e => return .error e
  | .ok _ => addProtocol env q hint address SERVICE_PROTOCOL_UDP SOCK_DGRAM

/-- The loop over addresses that are all there. -/
def addAll (env : Env) (q : Query) (hint : Option Hint) : List IpAddress → M (Except Eai Unit)
  | [] => return .ok ()
  | a :: as => do
      match ← addAddress env q hint a with
      | .error e => return .error e
      | .ok _ => addAll env q hint as

/-! ## The resolver -/

/-- `ip_name_lookup_error_code_t` of wasip3; `other` may have a text. -/
inductive LookupError where
  | accessDenied
  | invalidArgument
  | nameUnresolvable
  | temporaryResolverFailure
  | permanentResolverFailure
  | other (text : Bool)
  deriving DecidableEq, Repr

/-- What the resolver answers: on wasip2 when it is asked for a stream and then
each time for the next address, on wasip3 at once. -/
inductive Resolver where
  | wasip2 (stream : Except NetworkError Unit) (next : List (Except NetworkError (Option IpAddress)))
  | wasip3 (addresses : Except LookupError (List IpAddress))

/-- `return EAI_SYSTEM` with `errno`. -/
def system (errno : Errno) : M Eai := do
  modify fun s => { s with errno := some errno }
  return .SYSTEM

/-- `map_error` of wasip2. -/
def mapErrorPreview2 (error : NetworkError) : M Eai :=
  match error with
  | .outOfMemory => return .MEMORY
  | .nameUnresolvable => return .NONAME
  | .temporaryResolverFailure => return .AGAIN
  | .permanentResolverFailure => return .FAIL
  | error =>
    match mapNetworkError error with
    | none => throw .trap
    | some errno => system errno

/-- `map_error` of wasip3. -/
def mapErrorPreview3 : LookupError → M Eai
  | .nameUnresolvable => return .NONAME
  | .temporaryResolverFailure => return .AGAIN
  | .permanentResolverFailure => return .FAIL
  | .other text => do
      if text then release .message
      system Errno.EIO
  | .accessDenied => system .EACCES
  | .invalidArgument => system .EINVAL

/-- The loop over the stream of wasip2. -/
def streamLoop (env : Env) (q : Query) (hint : Option Hint) :
    List (Except NetworkError (Option IpAddress)) → M (Except Eai Unit)
  | [] => throw .host
  | .error error :: next =>
    if error ≠ .wouldBlock then return .error (← mapErrorPreview2 error)
    else do
      if ¬ (← get).pollable then do
        acquire .pollable
        modify fun s => { s with pollable := true }
      streamLoop env q hint next
  | .ok none :: _ => return .ok ()
  | .ok (some address) :: next => do
      match ← addAddress env q hint address with
      | .error e => return .error e
      | .ok _ => streamLoop env q hint next

/-- The deferred drops of wasip2, the last one first. -/
def dropStream : M PUnit := do
  if (← get).pollable then release .pollable
  release .stream

/-- The part of `getaddrinfo` that asks the resolver. -/
def resolve (env : Env) (q : Query) (hint : Option Hint) : Resolver → M (Except Eai Unit)
  | .wasip2 (.error error) _ => return .error (← mapErrorPreview2 error)
  | .wasip2 (.ok _) next => do
      acquire .stream
      let r ← streamLoop env q hint next
      dropStream
      return r
  | .wasip3 (.error error) => do
      if error = .other true then acquire .message
      return .error (← mapErrorPreview3 error)
  | .wasip3 (.ok addresses) => do
      acquire .addresses
      match ← addAll env q hint addresses with
      | .error e => return .error e
      | .ok _ => do
          release .addresses
          return .ok ()

/-! ## The call -/

/-- From the finished list to `return 0`. -/
def hand (env : Env) (q : Query) (host : Option (List UInt8)) : M (Except Eai Unit) := do
  match (← get).result with
  | none => return .error .NONAME
  | some p => do
      if host ≠ none ∧ q.flags &&& AI_CANONNAME ≠ 0 then do
        let name ← malloc env .canonname
        let n ← node p
        setNode p { n with aiCanonname := name }
        if name = none then return .error .MEMORY
      modify fun s => { s with res := s.result, result := none }
      return .ok ()

/-- The local addresses, or those of the resolver. -/
def addAddresses (env : Env) (resolver : Resolver) (q : Query) (hint : Option Hint) :
    M (Except Eai Unit) :=
  if q.locals ≠ [] then addAll env q hint q.locals else resolve env q hint resolver

/-- `getaddrinfo` from the declaration of `result` on, without the deferred
`freeaddrinfo`. -/
def makeList (env : Env) (resolver : Resolver) (q : Query) (host : Option (List UInt8))
    (hint : Option Hint) : M (Except Eai Unit) := do
  match ← addAddresses env resolver q hint with
  | .error e => return .error e
  | .ok _ => hand env q host

/-- `getaddrinfo`. -/
def getaddrinfo (env : Env) (resolver : Resolver) (host serv : Option (List UInt8))
    (hint : Option Hint) : M Int := do
  modify fun s => { s with res := none }
  match prepare env host serv hint with
  | .error e => return e.code
  | .ok q => do
      let r ← makeList env resolver q host hint
      freeaddrinfo (← get).result
      match r with
      | .error e => return e.code
      | .ok _ => return 0

end WasiLibc.Netdb
