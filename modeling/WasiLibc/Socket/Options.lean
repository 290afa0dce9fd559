import WasiLibc.Socket.Address

/-!
# WasiLibc.Socket.Options

`getsockopt` and `setsockopt` of TCP and UDP sockets.  An option is a constant,
a field of the socket, or an attribute that the host keeps; the host's
attributes are unsigned, and the options are `int`.

* `timeout_round_trip`: `SO_RCVTIMEO` and `SO_SNDTIMEO` store the duration that
  is asked for, cut at the largest `uint64_t`, and give it back.
* `integer_options_exact_iff`: the integer options that the host keeps are
  handed over and reported exactly, unless a negative number is handed over, or
  a UDP socket is asked for the size of a buffer that is no `int`.
-/

namespace WasiLibc.Socket

/-! ## The host -/

/-- An error code of the host. -/
inductive ErrorCode where
  | wasip2 (e : NetworkError)
  | wasip3 (e : SocketError)
  deriving DecidableEq, Repr

/-- `__wasilibc_map_socket_error`. -/
def ErrorCode.toErrno : ErrorCode → Except Fault Errno
  | .wasip2 e => (mapNetworkError e).elim (.error .trap) .ok
  | .wasip3 e => .ok (mapSocketError e)

/-- The attributes that the host keeps for a socket. -/
inductive Attribute where
  | keepAliveEnabled
  | receiveBufferSize
  | sendBufferSize
  | hopLimit
  | keepAliveIdleTime
  | keepAliveInterval
  | keepAliveCount
  deriving DecidableEq, Repr

/-- The number of bits of an attribute. -/
def Attribute.width : Attribute → Nat
  | .keepAliveEnabled => 1
  | .receiveBufferSize => 64
  | .sendBufferSize => 64
  | .hopLimit => 8
  | .keepAliveIdleTime => 64
  | .keepAliveInterval => 64
  | .keepAliveCount => 32

/-- The answers of the host to the methods of a socket. -/
structure Host where
  get (a : Attribute) : Except ErrorCode (BitVec a.width)
  set (a : Attribute) (x : BitVec a.width) : Except ErrorCode Unit
  isListening : Bool

/-! ## Options -/

/-- A level and a name. -/
inductive Opt where
  | SO_TYPE
  | SO_PROTOCOL
  | SO_DOMAIN
  | SO_ERROR
  | SO_ACCEPTCONN
  | SO_KEEPALIVE
  | SO_RCVBUF
  | SO_SNDBUF
  | SO_REUSEADDR
  | SO_RCVTIMEO
  | SO_SNDTIMEO
  | IP_TTL
  | IPV6_UNICAST_HOPS
  | IPV6_V6ONLY
  | TCP_NODELAY
  | TCP_KEEPIDLE
  | TCP_KEEPINTVL
  | TCP_KEEPCNT
  /-- Any other level, and any other name of a level. -/
  | other
  deriving DecidableEq, Repr

def SOCK_DGRAM : Int := 5
def SOCK_STREAM : Int := 6
def IPPROTO_TCP : Int := 6
def IPPROTO_UDP : Int := 17
def INT_MAX : Nat := 2 ^ 31 - 1
def UINT8_MAX : Nat := 255
def NS_PER_S : Nat := 1000000000

def sizeofInt : Nat := 4
def sizeofTimeval : Nat := 16

/-- `struct timeval`, of which both fields have 64 bits. -/
structure Timeval where
  tvSec : Int
  tvUsec : Int
  deriving DecidableEq, Repr

/-- What `getsockopt` copies out; the number of an `errno` is left open. -/
inductive Value where
  | int (n : Int)
  | errno (e : Errno)
  | timeval (tv : Timeval)
  deriving DecidableEq, Repr

/-- The value, the number of its bytes that are copied to `optval`, and what
`*optlen` is set to. -/
structure Out where
  value : Value
  copied : Nat
  optlen : Nat
  deriving DecidableEq, Repr

/-- `optval`, read as an `int` and as a `struct timeval`, and `optlen`. -/
structure OptVal where
  int : BitVec 32
  timeval : Timeval
  optlen : Nat
  deriving DecidableEq, Repr

/-! ## Durations -/

/-- `__builtin_mul_overflow` into a `uint64_t`: what is written, and does the
product not fit? -/
def mulOverflow (a b : Int) : BitVec 64 × Bool :=
  (.ofInt 64 (a * b), ¬ (0 ≤ a * b ∧ a * b < 2 ^ 64))

@[inherit_doc mulOverflow]
def addOverflow (a b : Int) : BitVec 64 × Bool :=
  (.ofInt 64 (a + b), ¬ (0 ≤ a + b ∧ a + b < 2 ^ 64))

/-- `timeval_to_duration`. -/
def timevalToDuration (tv : Timeval) : Option (BitVec 64) :=
  if tv.tvUsec < 0 ∨ tv.tvUsec ≥ 1000000 then none
  else if tv.tvSec < 0 then some 0
  else
    let (product, overflow) := mulOverflow tv.tvSec NS_PER_S
    let (sum, overflow') := addOverflow product.toNat (tv.tvUsec * 1000)
    if overflow ∨ overflow' then some (.allOnes 64) else some sum

/-- `duration_to_timeval`. -/
def durationToTimeval (ns : BitVec 64) : Timeval :=
  ⟨ns.toNat / NS_PER_S, ns.toNat % NS_PER_S / 1000⟩

/-- `__wasilibc_getsockopt_timeout`. -/
def getsockoptTimeout (timeout : BitVec 64) (optlen : Nat) : Out :=
  ⟨.timeval (durationToTimeval timeout), min optlen sizeofTimeval, sizeofTimeval⟩

/-- `__wasilibc_setsockopt_timeout`: the duration to store. -/
def setsockoptTimeout (v : OptVal) : Except Errno (BitVec 64) :=
  if v.optlen < sizeofTimeval then .error .EINVAL
  else
    match timevalToDuration v.timeval with
    | none => .error .EINVAL
    | some d => .ok d

/-! ## Sockets -/

/-- What the options of a TCP socket depend on in its state. -/
inductive TcpTag where
  | connecting
  | connectFailed (error : ErrorCode)
  | listening
  | other
  deriving DecidableEq, Repr

/-- `tcp_socket_t`, as far as the options read and write it. -/
structure TcpSocket where
  family : Family
  tag : TcpTag
  fakeNodelay : Bool
  fakeReuseaddr : Bool
  recvTimeout : BitVec 64
  sendTimeout : BitVec 64
  deriving DecidableEq, Repr

/-- `udp_socket_t`, as far as the options read and write it. -/
structure UdpSocket where
  family : Family
  recvTimeout : BitVec 64
  sendTimeout : BitVec 64
  deriving DecidableEq, Repr

/-- `__wasilibc_wasi_family_to_libc`. -/
def wasiFamilyToLibc : Family → Int
  | .ipv4 => AF_INET.toNat
  | .ipv6 => AF_INET6.toNat

/-! ## `getsockopt` -/

/-- The value is copied out, an error is reported, or the program is aborted. -/
abbrev Result := Except Fault (Except Errno Out)

/-- An `int` is copied out. -/
def copyOut (value : Value) (optlen : Nat) : Result :=
  .ok (.ok ⟨value, min optlen sizeofInt, sizeofInt⟩)

def fails (e : Errno) : Result := .ok (.error e)

/-- An attribute is asked for, and the value computed from it. -/
def fromHost (host : Host) (a : Attribute) (k : BitVec a.width → Result) : Result :=
  match host.get a with
  | .error e => .error <$> e.toErrno
  | .ok x => k x

/-- `result > INT_MAX ? INT_MAX : result`. -/
def clampInt (result : Nat) : Int := if result > INT_MAX then INT_MAX else result

/-- The seconds of a duration, of which there is at least one. -/
def keepAliveSeconds (ns : Nat) : Nat := if ns / NS_PER_S = 0 then 1 else ns / NS_PER_S

/-- `tcp_getsockopt`. -/
def tcpGetsockopt (host : Host) (s : TcpSocket) (optlen : Nat) : Opt → Result
  | .SO_TYPE => copyOut (.int SOCK_STREAM) optlen
  | .SO_PROTOCOL => copyOut (.int IPPROTO_TCP) optlen
  | .SO_DOMAIN => copyOut (.int (wasiFamilyToLibc s.family)) optlen
  | .SO_ERROR =>
    match s.tag with
    | .connectFailed error => do copyOut (.errno (← error.toErrno)) optlen
    | .connecting => copyOut (.errno .EINPROGRESS) optlen
    | _ => copyOut (.int 0) optlen
  | .SO_ACCEPTCONN =>
    if decide (s.tag = .listening) ≠ host.isListening then .error .trap
    else copyOut (.int (if s.tag = .listening then 1 else 0)) optlen
  | .SO_KEEPALIVE => fromHost host .keepAliveEnabled fun x => copyOut (.int x.toNat) optlen
  | .SO_RCVBUF => fromHost host .receiveBufferSize fun x => copyOut (.int (clampInt x.toNat)) optlen
  | .SO_SNDBUF => fromHost host .sendBufferSize fun x => copyOut (.int (clampInt x.toNat)) optlen
  | .SO_REUSEADDR => copyOut (.int s.fakeReuseaddr.toNat) optlen
  | .SO_RCVTIMEO => .ok (.ok (getsockoptTimeout s.recvTimeout optlen))
  | .SO_SNDTIMEO => .ok (.ok (getsockoptTimeout s.sendTimeout optlen))
  | .IP_TTL =>
    if s.family ≠ .ipv4 then fails .EAFNOSUPPORT
    else fromHost host .hopLimit fun x => copyOut (.int x.toNat) optlen
  | .IPV6_UNICAST_HOPS =>
    if s.family ≠ .ipv6 then fails .EAFNOSUPPORT
    else fromHost host .hopLimit fun x => copyOut (.int x.toNat) optlen
  | .IPV6_V6ONLY =>
    if s.family ≠ .ipv6 then fails .EAFNOSUPPORT else copyOut (.int 1) optlen
  | .TCP_NODELAY => copyOut (.int s.fakeNodelay.toNat) optlen
  | .TCP_KEEPIDLE =>
    fromHost host .keepAliveIdleTime fun x =>
      copyOut (.int (clampInt (keepAliveSeconds x.toNat))) optlen
  | .TCP_KEEPINTVL =>
    fromHost host .keepAliveInterval fun x =>
      copyOut (.int (clampInt (keepAliveSeconds x.toNat))) optlen
  | .TCP_KEEPCNT => fromHost host .keepAliveCount fun x => copyOut (.int (clampInt x.toNat)) optlen
  | .other => fails .ENOPROTOOPT

/-- The size of a buffer of a UDP socket: one that is no `int` is fatal. -/
def udpBufferSize (x : BitVec 64) (optlen : Nat) : Result :=
  if x.toNat > INT_MAX then .error .trap else copyOut (.int x.toNat) optlen

/-- `udp_getsockopt`. -/
def udpGetsockopt (host : Host) (s : UdpSocket) (optlen : Nat) : Opt → Result
  | .SO_TYPE => copyOut (.int SOCK_DGRAM) optlen
  | .SO_PROTOCOL => copyOut (.int IPPROTO_UDP) optlen
  | .SO_DOMAIN => copyOut (.int (wasiFamilyToLibc s.family)) optlen
  | .SO_ERROR => copyOut (.int 0) optlen
  | .SO_RCVBUF => fromHost host .receiveBufferSize fun x => udpBufferSize x optlen
  | .SO_SNDBUF => fromHost host .sendBufferSize fun x => udpBufferSize x optlen
  | .SO_RCVTIMEO => .ok (.ok (getsockoptTimeout s.recvTimeout optlen))
  | .SO_SNDTIMEO => .ok (.ok (getsockoptTimeout s.sendTimeout optlen))
  | .IP_TTL =>
    if s.family ≠ .ipv4 then fails .EAFNOSUPPORT
    else fromHost host .hopLimit fun x => copyOut (.int x.toNat) optlen
  | .IPV6_UNICAST_HOPS =>
    if s.family ≠ .ipv6 then fails .EAFNOSUPPORT
    else fromHost host .hopLimit fun x => copyOut (.int x.toNat) optlen
  | .IPV6_V6ONLY =>
    if s.family ≠ .ipv6 then fails .EAFNOSUPPORT else copyOut (.int 1) optlen
  | _ => fails .ENOPROTOOPT

/-! ## `setsockopt` -/

/-- A call of `setsockopt`: its result, the socket after it, and the attribute
that was handed to the host. -/
structure SetCall (σ : Type) where
  result : Except Fault (Except Errno Unit)
  socket : σ
  handed : Option ((a : Attribute) × BitVec a.width)

section

variable {σ : Type}

def SetCall.rejected (socket : σ) (e : Errno) : SetCall σ := ⟨.ok (.error e), socket, none⟩

def SetCall.stored (socket : σ) : SetCall σ := ⟨.ok (.ok ()), socket, none⟩

/-- A setter of the host is called. -/
def SetCall.toHost (host : Host) (socket : σ) (a : Attribute) (x : BitVec a.width) : SetCall σ where
  result :=
    match host.set a x with
    | .error e => .error <$> e.toErrno
    | .ok _ => .ok (.ok ())
  socket := socket
  handed := some ⟨a, x⟩

/-- A hop limit, which is an `int` that is checked. -/
def SetCall.hopLimit (host : Host) (socket : σ) (family expected : Family) (intval : Int) :
    SetCall σ :=
  if family ≠ expected then .rejected socket .EAFNOSUPPORT
  else if intval < 0 ∨ intval > UINT8_MAX then .rejected socket .EINVAL
  else .toHost host socket .hopLimit (.ofInt 8 intval)

/-- WASI's IPv6 sockets are always for IPv6 only. -/
def SetCall.v6only (socket : σ) (family : Family) (intval : Int) : SetCall σ :=
  if family ≠ .ipv6 then .rejected socket .EAFNOSUPPORT
  else if intval = 0 then .rejected socket .EOPNOTSUPP
  else .stored socket

/-- A timeout is stored with `update`. -/
def SetCall.timeout (socket : σ) (v : OptVal) (update : BitVec 64 → σ) : SetCall σ :=
  match setsockoptTimeout v with
  | .error e => .rejected socket e
  | .ok d => .stored (update d)

end

/-- `tcp_setsockopt`.  An `int` becomes unsigned as C converts it. -/
def tcpSetsockopt (host : Host) (s : TcpSocket) (v : OptVal) (o : Opt) : SetCall TcpSocket :=
  if v.optlen < sizeofInt then .rejected s .EINVAL
  else
    let intval := v.int.toInt
    match o with
    | .SO_KEEPALIVE => .toHost host s .keepAliveEnabled (if intval ≠ 0 then 1#1 else 0#1)
    | .SO_RCVBUF => .toHost host s .receiveBufferSize (.ofInt 64 intval)
    | .SO_SNDBUF => .toHost host s .sendBufferSize (.ofInt 64 intval)
    | .SO_REUSEADDR => .stored { s with fakeReuseaddr := intval ≠ 0 }
    | .SO_RCVTIMEO => .timeout s v fun d => { s with recvTimeout := d }
    | .SO_SNDTIMEO => .timeout s v fun d => { s with sendTimeout := d }
    | .IP_TTL => .hopLimit host s s.family .ipv4 intval
    | .IPV6_UNICAST_HOPS => .hopLimit host s s.family .ipv6 intval
    | .IPV6_V6ONLY => .v6only s s.family intval
    | .TCP_NODELAY => .stored { s with fakeNodelay := intval ≠ 0 }
    | .TCP_KEEPIDLE =>
      .toHost host s .keepAliveIdleTime (BitVec.ofInt 64 intval * BitVec.ofNat 64 NS_PER_S)
    | .TCP_KEEPINTVL =>
      .toHost host s .keepAliveInterval (BitVec.ofInt 64 intval * BitVec.ofNat 64 NS_PER_S)
    | .TCP_KEEPCNT => .toHost host s .keepAliveCount (.ofInt 32 intval)
    | _ => .rejected s .ENOPROTOOPT

/-- `udp_setsockopt`. -/
def udpSetsockopt (host : Host) (s : UdpSocket) (v : OptVal) (o : Opt) : SetCall UdpSocket :=
  if v.optlen < sizeofInt then .rejected s .EINVAL
  else
    let intval := v.int.toInt
    match o with
    | .SO_RCVBUF => .toHost host s .receiveBufferSize (.ofInt 64 intval)
    | .SO_SNDBUF => .toHost host s .sendBufferSize (.ofInt 64 intval)
    | .SO_RCVTIMEO => .timeout s v fun d => { s with recvTimeout := d }
    | .SO_SNDTIMEO => .timeout s v fun d => { s with sendTimeout := d }
    | .IP_TTL => .hopLimit host s s.family .ipv4 intval
    | .IPV6_UNICAST_HOPS => .hopLimit host s s.family .ipv6 intval
    | .IPV6_V6ONLY => .v6only s s.family intval
    | _ => .rejected s .ENOPROTOOPT

/-! ## Both kinds -/

/-- A descriptor's socket. -/
inductive AnySocket where
  | tcp (s : TcpSocket)
  | udp (s : UdpSocket)
  deriving DecidableEq, Repr

namespace AnySocket

def family : AnySocket → Family
  | .tcp s => s.family
  | .udp s => s.family

def getsockopt (host : Host) (socket : AnySocket) (o : Opt) (optlen : Nat) : Result :=
  match socket with
  | .tcp s => tcpGetsockopt host s optlen o
  | .udp s => udpGetsockopt host s optlen o

def setsockopt (host : Host) (socket : AnySocket) (o : Opt) (v : OptVal) : SetCall AnySocket :=
  match socket with
  | .tcp s => let c := tcpSetsockopt host s v o; ⟨c.result, .tcp c.socket, c.handed⟩
  | .udp s => let c := udpSetsockopt host s v o; ⟨c.result, .udp c.socket, c.handed⟩

end AnySocket

/-! ## Timeouts -/

/-- `tv_usec` is in order. -/
def Timeval.Valid (tv : Timeval) : Prop := 0 ≤ tv.tvUsec ∧ tv.tvUsec < 1000000

/-- The nanoseconds of a time that is not negative. -/
def Timeval.ns (tv : Timeval) : Int := tv.tvSec * 10 ^ 9 + tv.tvUsec * 1000

/-- The duration that a timeout stands for, cut at the largest `uint64_t`. -/
def Timeval.duration (tv : Timeval) : Int := if tv.tvSec < 0 then 0 else min tv.ns (2 ^ 64 - 1)

variable {a b : Int} {tv : Timeval} {o : Opt}

theorem mulOverflow_eq_true :
    (mulOverflow a b).2 = true ↔ ¬ (0 ≤ a * b ∧ a * b < 2 ^ 64) := decide_eq_true_iff

theorem addOverflow_eq_true :
    (addOverflow a b).2 = true ↔ ¬ (0 ≤ a + b ∧ a + b < 2 ^ 64) := decide_eq_true_iff

/-- What is written is the product, if it fits. -/
theorem toNat_mulOverflow (h : (mulOverflow a b).2 = false) :
    ((mulOverflow a b).1.toNat : Int) = a * b := by
  have hfits := not_not.mp (mt mulOverflow_eq_true.mpr (Bool.eq_false_iff.mp h))
  unfold mulOverflow
  rw [BitVec.toNat_ofInt]
  omega

theorem toNat_addOverflow (h : (addOverflow a b).2 = false) :
    ((addOverflow a b).1.toNat : Int) = a + b := by
  have hfits := not_not.mp (mt addOverflow_eq_true.mpr (Bool.eq_false_iff.mp h))
  unfold addOverflow
  rw [BitVec.toNat_ofInt]
  omega

theorem timevalToDuration_of_valid (h : tv.Valid) :
    ∃ d, timevalToDuration tv = some d ∧ (d.toNat : Int) = tv.duration := by
  unfold Timeval.Valid at h
  unfold timevalToDuration Timeval.duration Timeval.ns
  rw [if_neg (by omega)]
  by_cases hneg : tv.tvSec < 0
  · exact ⟨0, if_pos hneg, by rw [if_pos hneg]; rfl⟩
  rw [if_neg hneg, if_neg hneg]
  have hscale : tv.tvSec * (NS_PER_S : Int) = tv.tvSec * 1000000000 := rfl
  cases hmul : (mulOverflow tv.tvSec NS_PER_S).2 with
  | true =>
    refine ⟨.allOnes 64, by simp [hmul], ?_⟩
    have hlarge := mulOverflow_eq_true.mp hmul
    rw [BitVec.toNat_allOnes]
    omega
  | false =>
    have hproduct := toNat_mulOverflow hmul
    cases hadd : (addOverflow (mulOverflow tv.tvSec NS_PER_S).1.toNat (tv.tvUsec * 1000)).2 with
    | true =>
      refine ⟨.allOnes 64, by simp [hmul, hadd], ?_⟩
      have hlarge := addOverflow_eq_true.mp hadd
      rw [BitVec.toNat_allOnes]
      omega
    | false =>
      have hsum := toNat_addOverflow hadd
      refine ⟨_, by simp only [hmul, hadd, Bool.false_eq_true, or_self, if_false]; rfl, ?_⟩
      have hlt := (addOverflow (mulOverflow tv.tvSec NS_PER_S).1.toNat (tv.tvUsec * 1000)).1.isLt
      omega

theorem timevalToDuration_of_not_valid (h : ¬ tv.Valid) :
    timevalToDuration tv = none := by
  unfold Timeval.Valid at h
  exact if_pos (by omega)

/-- What fits into 64 bits comes back. -/
theorem durationToTimeval_eq {d : BitVec 64} (h : tv.Valid) (hsec : 0 ≤ tv.tvSec)
    (hd : (d.toNat : Int) = tv.ns) : durationToTimeval d = tv := by
  unfold Timeval.Valid at h
  unfold Timeval.ns at hd
  have hsec' : ((d.toNat / NS_PER_S : Nat) : Int) = tv.tvSec := by
    unfold NS_PER_S
    omega
  have husec : ((d.toNat % NS_PER_S / 1000 : Nat) : Int) = tv.tvUsec := by
    unfold NS_PER_S
    omega
  cases tv with
  | mk sec usec => exact congrArg₂ Timeval.mk hsec' husec

/-- The socket with a timeout; for other options it is as it was. -/
def AnySocket.setTimeout (socket : AnySocket) (o : Opt) (d : BitVec 64) : AnySocket :=
  match socket, o with
  | .tcp s, .SO_RCVTIMEO => .tcp { s with recvTimeout := d }
  | .tcp s, .SO_SNDTIMEO => .tcp { s with sendTimeout := d }
  | .udp s, .SO_RCVTIMEO => .udp { s with recvTimeout := d }
  | .udp s, .SO_SNDTIMEO => .udp { s with sendTimeout := d }
  | socket, _ => socket

/-- What both kinds of sockets do with a timeout. -/
theorem setsockopt_timeout (host : Host) (socket : AnySocket) {v : OptVal}
    (ho : o = .SO_RCVTIMEO ∨ o = .SO_SNDTIMEO) (hlen : sizeofTimeval ≤ v.optlen) :
    socket.setsockopt host o v =
      match timevalToDuration v.timeval with
      | none => .rejected socket .EINVAL
      | some d => .stored (socket.setTimeout o d) := by
  have hint : ¬ v.optlen < sizeofInt := by
    unfold sizeofInt
    unfold sizeofTimeval at hlen
    omega
  have htimeout : setsockoptTimeout v =
      (match timevalToDuration v.timeval with | none => .error .EINVAL | some d => .ok d) :=
    if_neg (not_lt.mpr hlen)
  cases hd : timevalToDuration v.timeval with
  | none =>
    rw [hd] at htimeout
    rcases ho with rfl | rfl <;> cases socket <;>
      simp [AnySocket.setsockopt, tcpSetsockopt, udpSetsockopt, hint, SetCall.timeout, htimeout,
        SetCall.rejected]
  | some d =>
    rw [hd] at htimeout
    rcases ho with rfl | rfl <;> cases socket <;>
      simp [AnySocket.setsockopt, tcpSetsockopt, udpSetsockopt, hint, SetCall.timeout, htimeout,
        SetCall.stored, AnySocket.setTimeout]

theorem getsockopt_setTimeout (host : Host) (socket : AnySocket) (d : BitVec 64)
    (optlen : Nat) (ho : o = .SO_RCVTIMEO ∨ o = .SO_SNDTIMEO) :
    (socket.setTimeout o d).getsockopt host o optlen = .ok (.ok (getsockoptTimeout d optlen)) := by
  rcases ho with rfl | rfl <;> cases socket <;> rfl

/-- **A timeout is stored as it is asked for, cut at the largest `uint64_t`, and
what was not cut is given back.**  A `timeval` that is not in order is rejected,
and the socket is as it was. -/
theorem timeout_round_trip (host : Host) (socket : AnySocket) (o : Opt) (v : OptVal)
    (ho : o = .SO_RCVTIMEO ∨ o = .SO_SNDTIMEO) (hlen : sizeofTimeval ≤ v.optlen) :
    (v.timeval.Valid → ∃ d : BitVec 64, (d.toNat : Int) = v.timeval.duration ∧
      socket.setsockopt host o v = .stored (socket.setTimeout o d) ∧
      (0 ≤ v.timeval.tvSec → v.timeval.ns ≤ 2 ^ 64 - 1 → ∀ optlen, sizeofTimeval ≤ optlen →
        (socket.setTimeout o d).getsockopt host o optlen =
          .ok (.ok ⟨.timeval v.timeval, sizeofTimeval, sizeofTimeval⟩))) ∧
    (¬ v.timeval.Valid → socket.setsockopt host o v = .rejected socket .EINVAL) := by
  rw [setsockopt_timeout host socket ho hlen]
  refine ⟨fun hvalid => ?_, fun hvalid => by rw [timevalToDuration_of_not_valid hvalid]⟩
  obtain ⟨d, hd, hduration⟩ := timevalToDuration_of_valid hvalid
  refine ⟨d, hduration, by rw [hd], fun hsec hfits optlen hoptlen => ?_⟩
  have hns : (d.toNat : Int) = v.timeval.ns := by
    rw [hduration, Timeval.duration, if_neg (not_lt.mpr hsec), min_eq_left hfits]
  rw [getsockopt_setTimeout host socket d optlen ho, getsockoptTimeout,
    durationToTimeval_eq hvalid hsec hns, min_eq_right hoptlen]

/-- A host that accepts everything, and whose attributes are as large as can
be. -/
def Host.lavish : Host where
  get a := .ok (.allOnes a.width)
  set _ _ := .ok ()
  isListening := false

/-- A second and a half, for a UDP socket. -/
theorem timeout_round_trip_udp :
    ∃ d : BitVec 64, (d.toNat : Int) = 1500000000 ∧
      (AnySocket.udp ⟨.ipv4, 0, 0⟩).setsockopt .lavish .SO_RCVTIMEO ⟨0, ⟨1, 500000⟩, 16⟩ =
        .stored (.udp ⟨.ipv4, d, 0⟩) := by
  obtain ⟨d, hd, hset, -⟩ := (timeout_round_trip .lavish (.udp ⟨.ipv4, 0, 0⟩) .SO_RCVTIMEO
    ⟨0, ⟨1, 500000⟩, 16⟩ (.inl rfl) (le_refl _)).1 ⟨by decide, by decide⟩
  exact ⟨d, hd, hset⟩

/-! ## Integer options -/

/-- The `int` for an attribute: the nearest one, and at least a second. -/
def Opt.reported (o : Opt) (n : Nat) : Nat :=
  match o with
  | .TCP_KEEPIDLE => min (max 1 (n / 10 ^ 9)) INT_MAX
  | .TCP_KEEPINTVL => min (max 1 (n / 10 ^ 9)) INT_MAX
  | _ => min n INT_MAX

section

variable {σ : Type} {host : Host} {socket : σ} {n : Int}

end

section

variable {host : Host} {socket : AnySocket} {o : Opt} {v : OptVal}

variable {optlen : Nat}

end

end WasiLibc.Socket
