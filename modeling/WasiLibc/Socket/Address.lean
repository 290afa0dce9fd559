import WasiLibc.Errno
import WasiLibc.Waitable
import WasiLibc.Lib.Bytes

/-!
# WasiLibc.Socket.Address

Socket addresses: the values of the host's interface, `struct sockaddr_in` and
`struct sockaddr_in6`, and the three functions that turn one into the other.
A `struct sockaddr` that the program passes is memory, which is read as one of
the two after its first field has been looked at.

`sockaddr_lossless`: the conversions are inverse to each other, and
`getaddrinfo` builds what `__wasilibc_wasi_to_sockaddr` builds.
-/

namespace WasiLibc.Socket

open Bytes

/-! ## Addresses of the host -/

/-- `sockets_ip_address_family_t`. -/
inductive Family where
  | ipv4
  | ipv6
  deriving DecidableEq, Repr

/-- `sockets_ipv4_address_t`. -/
structure Ipv4Address where
  (f0 f1 f2 f3 : BitVec 8)
  deriving DecidableEq, Repr

/-- `sockets_ipv6_address_t`. -/
structure Ipv6Address where
  (f0 f1 f2 f3 f4 f5 f6 f7 : BitVec 16)
  deriving DecidableEq, Repr

/-- `sockets_ip_address_t`. -/
inductive IpAddress where
  | ipv4 (ip : Ipv4Address)
  | ipv6 (ip : Ipv6Address)
  deriving DecidableEq, Repr

/-- `sockets_ipv4_socket_address_t`. -/
structure Ipv4SocketAddress where
  port : BitVec 16
  address : Ipv4Address
  deriving DecidableEq, Repr

/-- `sockets_ipv6_socket_address_t`. -/
structure Ipv6SocketAddress where
  port : BitVec 16
  flowInfo : BitVec 32
  address : Ipv6Address
  scopeId : BitVec 32
  deriving DecidableEq, Repr

/-- `sockets_ip_socket_address_t`. -/
inductive IpSocketAddress where
  | ipv4 (a : Ipv4SocketAddress)
  | ipv6 (a : Ipv6SocketAddress)
  deriving DecidableEq, Repr

def IpSocketAddress.family : IpSocketAddress → Family
  | .ipv4 _ => .ipv4
  | .ipv6 _ => .ipv6

/-! ## Addresses of the program -/

def AF_UNSPEC : BitVec 16 := 0
def AF_INET : BitVec 16 := 1
def AF_INET6 : BitVec 16 := 2

/-- `struct sockaddr_in`. -/
structure SockaddrIn where
  sinFamily : BitVec 16
  sinPort : BitVec 16
  sAddr : BitVec 32
  deriving DecidableEq

/-- `struct sockaddr_in6`. -/
structure SockaddrIn6 where
  sin6Family : BitVec 16
  sin6Port : BitVec 16
  sin6Flowinfo : BitVec 32
  s6Addr : Vector (BitVec 8) 16
  sin6ScopeId : BitVec 32
  deriving DecidableEq

inductive Sockaddr where
  | in4 (a : SockaddrIn)
  | in6 (a : SockaddrIn6)
  deriving DecidableEq

/-- `sizeof(struct sockaddr)`: the family is aligned to 16 bytes. -/
def sizeofSockaddr : Nat := 16
def sizeofSockaddrIn : Nat := 16
def sizeofSockaddrIn6 : Nat := 32

/-- What `*addrlen` is set to. -/
def Sockaddr.addrlen : Sockaddr → Nat
  | .in4 _ => sizeofSockaddrIn
  | .in6 _ => sizeofSockaddrIn6

/-- The bytes from an address on. -/
abbrev Memory := Nat → BitVec 8

def Memory.u16 (m : Memory) (o : Nat) : BitVec 16 := word16 (m o) (m (o + 1))

def Memory.u32 (m : Memory) (o : Nat) : BitVec 32 :=
  word32 (m o) (m (o + 1)) (m (o + 2)) (m (o + 3))

/-- The memory read as a `struct sockaddr_in`. -/
def Memory.sockaddrIn (m : Memory) : SockaddrIn := ⟨m.u16 0, m.u16 2, m.u32 4⟩

/-- The memory read as a `struct sockaddr_in6`. -/
def Memory.sockaddrIn6 (m : Memory) : SockaddrIn6 :=
  ⟨m.u16 0, m.u16 2, m.u32 4, .ofFn fun i => m (8 + i), m.u32 24⟩

/-- The memory read as what the family says. -/
def Memory.sockaddr (m : Memory) : Family → Sockaddr
  | .ipv4 => .in4 m.sockaddrIn
  | .ipv6 => .in6 m.sockaddrIn6

/-- The memory that holds the structure; what is between the fields and after
them is left as it is. -/
def SockaddrIn.store (a : SockaddrIn) (pad : Memory) : Memory
  | 0 => byte a.sinFamily 0
  | 1 => byte a.sinFamily 1
  | 2 => byte a.sinPort 0
  | 3 => byte a.sinPort 1
  | 4 => byte a.sAddr 0
  | 5 => byte a.sAddr 1
  | 6 => byte a.sAddr 2
  | 7 => byte a.sAddr 3
  | i => pad i

@[inherit_doc SockaddrIn.store]
def SockaddrIn6.store (a : SockaddrIn6) (pad : Memory) : Memory := fun i =>
  if h : 8 ≤ i ∧ i < 24 then a.s6Addr[i - 8]
  else
    match i with
    | 0 => byte a.sin6Family 0
    | 1 => byte a.sin6Family 1
    | 2 => byte a.sin6Port 0
    | 3 => byte a.sin6Port 1
    | 4 => byte a.sin6Flowinfo 0
    | 5 => byte a.sin6Flowinfo 1
    | 6 => byte a.sin6Flowinfo 2
    | 7 => byte a.sin6Flowinfo 3
    | 24 => byte a.sin6ScopeId 0
    | 25 => byte a.sin6ScopeId 1
    | 26 => byte a.sin6ScopeId 2
    | 27 => byte a.sin6ScopeId 3
    | i => pad i

def Sockaddr.store : Sockaddr → Memory → Memory
  | .in4 a => a.store
  | .in6 a => a.store

theorem sockaddrIn_store (a : SockaddrIn) (pad : Memory) : (a.store pad).sockaddrIn = a := by
  simp [Memory.sockaddrIn, Memory.u16, Memory.u32, SockaddrIn.store]

theorem sockaddrIn6_store (a : SockaddrIn6) (pad : Memory) : (a.store pad).sockaddrIn6 = a := by
  have haddr : Vector.ofFn (fun i : Fin 16 => a.store pad (8 + i)) = a.s6Addr := by
    ext i hi
    have hin : 8 ≤ 8 + i ∧ 8 + i < 24 := by omega
    have hstore : a.store pad (8 + i) = a.s6Addr[8 + i - 8] := dif_pos hin
    simp [hstore]
  calc (a.store pad).sockaddrIn6
      = ⟨word16 (byte a.sin6Family 0) (byte a.sin6Family 1),
          word16 (byte a.sin6Port 0) (byte a.sin6Port 1),
          word32 (byte a.sin6Flowinfo 0) (byte a.sin6Flowinfo 1) (byte a.sin6Flowinfo 2)
            (byte a.sin6Flowinfo 3),
          .ofFn fun i => a.store pad (8 + i),
          word32 (byte a.sin6ScopeId 0) (byte a.sin6ScopeId 1) (byte a.sin6ScopeId 2)
            (byte a.sin6ScopeId 3)⟩ := rfl
    _ = a := by simp only [word16_byte, word32_byte, haddr]

/-! ## The conversions -/

/-- `htons`: bytes are stored with the least significant one first, so this is
`bswap_16`. -/
def htons (x : BitVec 16) : BitVec 16 := x <<< 8 ||| x >>> 8

@[inherit_doc htons]
def ntohs (x : BitVec 16) : BitVec 16 := x <<< 8 ||| x >>> 8

/-- `(((unsigned short)ip[0]) << 8) | ip[1]`, a group of an IPv6 address. -/
def group (high low : BitVec 8) : BitVec 16 :=
  (high.setWidth 32 <<< 8 ||| low.setWidth 32).setWidth 16

/-- `f >> 8`, as an `unsigned char`. -/
def highByte (f : BitVec 16) : BitVec 8 := (f.setWidth 32 >>> 8).setWidth 8

/-- `f & 0xFF`, as an `unsigned char`. -/
def lowByte (f : BitVec 16) : BitVec 8 := (f.setWidth 32 &&& 0xFF).setWidth 8

/-- `__wasilibc_sockaddr_to_wasi`. -/
def sockaddrToWasi (expectedFamily : Family) (address : Option Memory) (len : Nat) :
    Except Errno IpSocketAddress :=
  match address with
  | none => .error .EINVAL
  | some m =>
    if len < sizeofSockaddr then .error .EINVAL
    else
      match expectedFamily with
      | .ipv4 =>
        if m.u16 0 ≠ AF_INET then .error .EAFNOSUPPORT
        else if len < sizeofSockaddrIn then .error .EINVAL
        else
          let ip := m.sockaddrIn.sAddr
          .ok (.ipv4 {
            port := ntohs m.sockaddrIn.sinPort
            address :=
              ⟨(ip &&& 0xFF).setWidth 8, ((ip >>> 8) &&& 0xFF).setWidth 8,
                ((ip >>> 16) &&& 0xFF).setWidth 8, (ip >>> 24).setWidth 8⟩ })
      | .ipv6 =>
        if m.u16 0 ≠ AF_INET6 then .error .EAFNOSUPPORT
        else if len < sizeofSockaddrIn6 then .error .EINVAL
        else
          let ip := m.sockaddrIn6.s6Addr
          .ok (.ipv6 {
            port := ntohs m.sockaddrIn6.sin6Port
            flowInfo := m.sockaddrIn6.sin6Flowinfo
            address :=
              ⟨group ip[0] ip[1], group ip[2] ip[3], group ip[4] ip[5], group ip[6] ip[7],
                group ip[8] ip[9], group ip[10] ip[11], group ip[12] ip[13],
                group ip[14] ip[15]⟩
            scopeId := m.sockaddrIn6.sin6ScopeId })

/-- The tag of `output_sockaddr_t`. -/
inductive OutputTag where
  | null
  | v4
  | v6
  deriving DecidableEq, Repr

/-- `__wasilibc_sockaddr_validate`: is there an address to write to, and what is
at `addrlen`? -/
def sockaddrValidate (expectedFamily : Family) (addr : Bool) (addrlen : Option Nat) :
    Except Errno OutputTag :=
  match addr, addrlen with
  | false, none => .ok .null
  | true, some len =>
    match expectedFamily with
    | .ipv4 => if len < sizeofSockaddrIn then .error .EINVAL else .ok .v4
    | .ipv6 => if len < sizeofSockaddrIn6 then .error .EINVAL else .ok .v6
  | _, _ => .error .EINVAL

/-- The bytes of an IPv4 address in a word: `f0 | (f1 << 8) | (f2 << 16) | (f3 << 24)`. -/
def sAddr (ip : Ipv4Address) : BitVec 32 :=
  ip.f0.setWidth 32 ||| ip.f1.setWidth 32 <<< 8 ||| ip.f2.setWidth 32 <<< 16 |||
    ip.f3.setWidth 32 <<< 24

/-- The bytes of an IPv6 address. -/
def s6Addr (ip : Ipv6Address) : Vector (BitVec 8) 16 :=
  #v[highByte ip.f0, lowByte ip.f0, highByte ip.f1, lowByte ip.f1,
    highByte ip.f2, lowByte ip.f2, highByte ip.f3, lowByte ip.f3,
    highByte ip.f4, lowByte ip.f4, highByte ip.f5, lowByte ip.f5,
    highByte ip.f6, lowByte ip.f6, highByte ip.f7, lowByte ip.f7]

/-- `__wasilibc_wasi_to_sockaddr`, with the tag of the output. -/
def wasiToSockaddr (input : IpSocketAddress) (output : OutputTag) : Except Fault Sockaddr :=
  match input with
  | .ipv4 a =>
    if output ≠ .v4 then .error .trap
    else .ok (.in4 { sinFamily := AF_INET, sinPort := htons a.port, sAddr := sAddr a.address })
  | .ipv6 a =>
    if output ≠ .v6 then .error .trap
    else .ok (.in6 {
      sin6Family := AF_INET6
      sin6Port := htons a.port
      sin6Flowinfo := a.flowInfo
      s6Addr := s6Addr a.address
      sin6ScopeId := a.scopeId })

/-- The `sockaddr` that `add_addr` builds in the memory of a `sockaddr_storage`;
the port is in network byte order. -/
def addAddrSockaddr (address : IpAddress) (port : BitVec 16) (storage : Memory) : Sockaddr :=
  match address with
  | .ipv4 ip =>
    .in4 { storage.sockaddrIn with
      sinFamily := AF_INET
      sinPort := port
      sAddr := ip.f0.setWidth 32 ||| ip.f1.setWidth 32 <<< 8 ||| ip.f2.setWidth 32 <<< 16 |||
        ip.f3.setWidth 32 <<< 24 }
  | .ipv6 ip =>
    .in6 { storage.sockaddrIn6 with
      sin6Family := AF_INET6
      sin6Port := port
      s6Addr := storage.sockaddrIn6.s6Addr
        |>.set 0 (highByte ip.f0) |>.set 1 (lowByte ip.f0)
        |>.set 2 (highByte ip.f1) |>.set 3 (lowByte ip.f1)
        |>.set 4 (highByte ip.f2) |>.set 5 (lowByte ip.f2)
        |>.set 6 (highByte ip.f3) |>.set 7 (lowByte ip.f3)
        |>.set 8 (highByte ip.f4) |>.set 9 (lowByte ip.f4)
        |>.set 10 (highByte ip.f5) |>.set 11 (lowByte ip.f5)
        |>.set 12 (highByte ip.f6) |>.set 13 (lowByte ip.f6)
        |>.set 14 (highByte ip.f7) |>.set 15 (lowByte ip.f7)
      sin6Flowinfo := 0
      sin6ScopeId := 0 }

/-! ## Bytes -/

@[simp] theorem ntohs_htons (x : BitVec 16) : ntohs (htons x) = x := by
  unfold ntohs htons
  ext i h
  simp
  grind

@[simp] theorem htons_ntohs (x : BitVec 16) : htons (ntohs x) = x := ntohs_htons x

@[simp] theorem group_bytes (f : BitVec 16) : group (highByte f) (lowByte f) = f := by
  unfold group highByte lowByte
  rw [setWidth_and_mask]
  ext i h
  simp
  grind

@[simp] theorem highByte_group (high low : BitVec 8) : highByte (group high low) = high := by
  unfold group highByte
  ext i h
  simp
  grind

@[simp] theorem lowByte_group (high low : BitVec 8) : lowByte (group high low) = low := by
  unfold group lowByte
  rw [setWidth_and_mask]
  ext i h
  simp

/-- The bytes that `__wasilibc_sockaddr_to_wasi` takes from a word. -/
def ipv4OfWord (x : BitVec 32) : Ipv4Address := ⟨byte x 0, byte x 1, byte x 2, byte x 3⟩

/-- The groups that `__wasilibc_sockaddr_to_wasi` takes from the bytes. -/
def ipv6OfBytes (ip : Vector (BitVec 8) 16) : Ipv6Address :=
  ⟨group ip[0] ip[1], group ip[2] ip[3], group ip[4] ip[5], group ip[6] ip[7],
    group ip[8] ip[9], group ip[10] ip[11], group ip[12] ip[13], group ip[14] ip[15]⟩

@[simp] theorem ipv4OfWord_sAddr (ip : Ipv4Address) : ipv4OfWord (sAddr ip) = ip := by
  have h := byte_word32 ip.f0 ip.f1 ip.f2 ip.f3
  unfold word32 at h
  unfold ipv4OfWord sAddr
  rw [h.1, h.2.1, h.2.2.1, h.2.2.2]

@[simp] theorem sAddr_ipv4OfWord (x : BitVec 32) : sAddr (ipv4OfWord x) = x := word32_byte x

@[simp] theorem ipv6OfBytes_s6Addr (ip : Ipv6Address) : ipv6OfBytes (s6Addr ip) = ip := by
  simp [ipv6OfBytes, s6Addr]

@[simp] theorem s6Addr_ipv6OfBytes (ip : Vector (BitVec 8) 16) : s6Addr (ipv6OfBytes ip) = ip := by
  simp only [ipv6OfBytes, s6Addr, highByte_group, lowByte_group]
  ext i hi
  interval_cases i <;> rfl

/-! ## What is accepted -/

variable {len : Nat} {a : IpSocketAddress} {m : Memory}

/-- The checks of both families. -/
theorem checked_eq_ok {family expected : BitVec 16} {size : Nat} {r : IpSocketAddress}
    (hsize : sizeofSockaddr ≤ size) :
    (if len < sizeofSockaddr then .error .EINVAL
      else if family ≠ expected then .error .EAFNOSUPPORT
      else if len < size then .error .EINVAL
      else .ok r : Except Errno IpSocketAddress) = .ok a ↔
      family = expected ∧ size ≤ len ∧ a = r := by
  by_cases hfamily : family = expected
  · by_cases hlen : size ≤ len
    · rw [if_neg (by omega), if_neg (not_not.mpr hfamily), if_neg (by omega)]
      grind
    · by_cases hshort : len < sizeofSockaddr
      · simp [hshort, hlen]
      · simp [hshort, hfamily, hlen, not_le.mp hlen]
  · by_cases hshort : len < sizeofSockaddr
    · simp [hshort, hfamily]
    · simp [hshort, hfamily]

theorem sockaddrToWasi_ipv4_eq_ok :
    sockaddrToWasi .ipv4 (some m) len = .ok a ↔
      m.u16 0 = AF_INET ∧ sizeofSockaddrIn ≤ len ∧
        a = .ipv4 ⟨ntohs m.sockaddrIn.sinPort, ipv4OfWord m.sockaddrIn.sAddr⟩ := by
  unfold sockaddrToWasi ipv4OfWord byte
  simp only [setWidth_and_mask]
  exact checked_eq_ok (by decide)

theorem sockaddrToWasi_ipv6_eq_ok :
    sockaddrToWasi .ipv6 (some m) len = .ok a ↔
      m.u16 0 = AF_INET6 ∧ sizeofSockaddrIn6 ≤ len ∧
        a = .ipv6 ⟨ntohs m.sockaddrIn6.sin6Port, m.sockaddrIn6.sin6Flowinfo,
          ipv6OfBytes m.sockaddrIn6.s6Addr, m.sockaddrIn6.sin6ScopeId⟩ :=
  checked_eq_ok (by decide)

/-- An output of the family, which `__wasilibc_sockaddr_validate` gives if there
is room for the address. -/
def Family.output : Family → OutputTag
  | .ipv4 => .v4
  | .ipv6 => .v6

/-- The socket address of an address and a port, without flow information and
scope. -/
def IpAddress.withPort (port : BitVec 16) : IpAddress → IpSocketAddress
  | .ipv4 ip => .ipv4 ⟨port, ip⟩
  | .ipv6 ip => .ipv6 ⟨port, 0, ip, 0⟩

/-! ## Round trips -/

/-- A value of the host's interface survives the way to the program and back. -/
theorem sockaddrToWasi_wasiToSockaddr (a : IpSocketAddress) (pad : Memory) :
    ∃ sockaddr, wasiToSockaddr a a.family.output = .ok sockaddr ∧
      sockaddrToWasi a.family (some (sockaddr.store pad)) sockaddr.addrlen = .ok a := by
  cases a with
  | ipv4 a =>
    refine ⟨_, rfl, sockaddrToWasi_ipv4_eq_ok.mpr ⟨?_, le_refl _, ?_⟩⟩
    · exact congrArg SockaddrIn.sinFamily (sockaddrIn_store _ pad)
    · simp only [Sockaddr.store, sockaddrIn_store, ntohs_htons, ipv4OfWord_sAddr]
  | ipv6 a =>
    refine ⟨_, rfl, sockaddrToWasi_ipv6_eq_ok.mpr ⟨?_, le_refl _, ?_⟩⟩
    · exact congrArg SockaddrIn6.sin6Family (sockaddrIn6_store _ pad)
    · simp only [Sockaddr.store, sockaddrIn6_store, ntohs_htons, ipv6OfBytes_s6Addr]

/-- An address of the program that is accepted survives the way to the host and
back. -/
theorem wasiToSockaddr_sockaddrToWasi {family : Family} (h : sockaddrToWasi family (some m) len = .ok a) :
    wasiToSockaddr a family.output = .ok (m.sockaddr family) := by
  cases family with
  | ipv4 =>
    obtain ⟨hfamily, -, rfl⟩ := sockaddrToWasi_ipv4_eq_ok.mp h
    simp [wasiToSockaddr, Family.output, Memory.sockaddr, Memory.sockaddrIn, hfamily]
  | ipv6 =>
    obtain ⟨hfamily, -, rfl⟩ := sockaddrToWasi_ipv6_eq_ok.mp h
    simp [wasiToSockaddr, Family.output, Memory.sockaddr, Memory.sockaddrIn6, hfamily]

/-- All 16 bytes of the storage are written. -/
theorem addAddrSockaddr_eq (address : IpAddress) (port : BitVec 16) (storage : Memory) :
    wasiToSockaddr (address.withPort port) (address.withPort port).family.output =
      .ok (addAddrSockaddr address (htons port) storage) := by
  cases address with
  | ipv4 ip => rfl
  | ipv6 ip =>
    simp only [wasiToSockaddr, IpAddress.withPort, IpSocketAddress.family, Family.output,
      addAddrSockaddr, ne_eq, not_true_eq_false, if_false, Except.ok.injEq, Sockaddr.in6.injEq,
      SockaddrIn6.mk.injEq, true_and, and_true]
    generalize storage.sockaddrIn6.s6Addr = v
    ext i hi
    interval_cases i <;> simp [s6Addr]

/-- **The conversions of socket addresses lose nothing.**  A value of the host's
interface comes back unchanged.  An address of the program that is accepted
comes back with the same family, port, address, flow information and scope.
And `add_addr` of `getaddrinfo` builds the address that
`__wasilibc_wasi_to_sockaddr` builds without flow information and scope. -/
theorem sockaddr_lossless :
    (∀ a pad, ∃ sockaddr, wasiToSockaddr a a.family.output = .ok sockaddr ∧
      sockaddrToWasi a.family (some (sockaddr.store pad)) sockaddr.addrlen = .ok a) ∧
    (∀ family m len a, sockaddrToWasi family (some m) len = .ok a →
      wasiToSockaddr a family.output = .ok (m.sockaddr family)) ∧
    ∀ address port storage,
      wasiToSockaddr (address.withPort port) (address.withPort port).family.output =
        .ok (addAddrSockaddr address (htons port) storage) :=
  ⟨sockaddrToWasi_wasiToSockaddr, fun _ _ _ _ h => wasiToSockaddr_sockaddrToWasi h,
    addAddrSockaddr_eq⟩

/-- The address 127.0.0.1, port 8080. -/
theorem sockaddr_lossless_loopback :
    sockaddrToWasi .ipv4 (some (SockaddrIn.store ⟨AF_INET, 0x901F, 0x0100007F⟩ fun _ => 0)) 16 =
        .ok (.ipv4 ⟨8080, 127, 0, 0, 1⟩) ∧
      wasiToSockaddr (.ipv4 ⟨8080, 127, 0, 0, 1⟩) .v4 =
        .ok (.in4 ⟨AF_INET, 0x901F, 0x0100007F⟩) :=
  ⟨by decide, sockaddr_lossless.2.1 .ipv4 (SockaddrIn.store ⟨AF_INET, 0x901F, 0x0100007F⟩ fun _ => 0)
    16 _ (by decide)⟩

end WasiLibc.Socket
