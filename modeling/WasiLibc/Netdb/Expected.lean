import WasiLibc.Netdb.Calls

/-!
# WasiLibc.Netdb.Expected

What `getaddrinfo` is for: `expected` says which list is the answer for a host,
a service, a hint and a resolver, and `getaddrinfo_expected` that a call that
returns 0 has returned this list.
-/

namespace WasiLibc.Netdb

open Socket Wp SList

/-! ## The answer -/

/-- The protocols for which there are nodes, in their order. -/
inductive Protocol where
  | tcp
  | udp
  deriving DecidableEq, Repr

namespace Protocol

def all : List Protocol := [tcp, udp]

def mask : Protocol → Protocols
  | tcp => SERVICE_PROTOCOL_TCP
  | udp => SERVICE_PROTOCOL_UDP

def socktype : Protocol → Int
  | tcp => SOCK_STREAM
  | udp => SOCK_DGRAM

def ipproto : Protocol → Int
  | tcp => IPPROTO_TCP
  | udp => IPPROTO_UDP

end Protocol

/-- The port of a service: none, a number, or a name of the table. -/
def servicePort (env : Env) : Option (List UInt8) → Nat
  | none => 0
  | some serv =>
    if IsPort serv then decimal serv
    else ((getServiceEntryByName env serv).map fun entry => entry.port.toNat).getD 0

/-- The protocols of a service. -/
def serviceProtocols (env : Env) : Option (List UInt8) → Protocols
  | none => SERVICE_PROTOCOL_TCP ||| SERVICE_PROTOCOL_UDP
  | some serv =>
    if IsPort serv then SERVICE_PROTOCOL_TCP ||| SERVICE_PROTOCOL_UDP
    else ((getServiceEntryByName env serv).map ServiceEntry.protocol).getD 0

/-- The protocol is one of the service, and the type of the socket leaves it. -/
def Allowed (env : Env) (serv : Option (List UInt8)) (hint : Option Hint) (p : Protocol) : Prop :=
  serviceProtocols env serv &&& p.mask ≠ 0 ∧
    (hintOr hint Hint.aiSocktype 0 = 0 ∨ hintOr hint Hint.aiSocktype 0 = p.socktype)

instance (env : Env) (serv : Option (List UInt8)) (hint : Option Hint) (p : Protocol) :
    Decidable (Allowed env serv hint p) := by
  unfold Allowed
  infer_instance

/-- The family of the address passes the hint. -/
def Passes (hint : Option Hint) (address : IpAddress) : Prop :=
  hintOr hint Hint.aiFamily PF_UNSPEC = PF_UNSPEC ∨
    hintOr hint Hint.aiFamily PF_UNSPEC = family address

instance (hint : Option Hint) (address : IpAddress) : Decidable (Passes hint address) := by
  unfold Passes
  infer_instance

/-- The addresses of a host: the local ones for NULL, a literal, or those of
the resolver. -/
def addressesOf (env : Env) (resolver : Resolver) (host : Option (List UInt8))
    (hint : Option Hint) : List IpAddress :=
  match host with
  | none =>
    if hintOr hint Hint.aiFlags 0 &&& AI_PASSIVE ≠ 0 then
      [ipv4Address any4, ipv6Address in6addrAny]
    else [ipv4Address loopback4, ipv6Address in6addrLoopback]
  | some host =>
    match env.inetPton4 host, env.inetPton6 host with
    | some a4, _ => [ipv4Address a4]
    | none, some a6 => [ipv6Address a6]
    | none, none => resolver.addresses

/-- The answer: for each address that passes the hint, one node for each
protocol that is allowed. -/
def expected (env : Env) (resolver : Resolver) (host serv : Option (List UInt8))
    (hint : Option Hint) : List Entry :=
  ((addressesOf env resolver host hint).filter fun a => Passes hint a).flatMap fun a =>
    (Protocol.all.filter fun p => Allowed env serv hint p).map fun p =>
      entryOf a (BitVec.ofNat 16 (servicePort env serv)) p.socktype p.ipproto

/-! ## What is found out before the list is made -/

variable {env : Env} {resolver : Resolver} {host serv : Option (List UInt8)} {hint : Option Hint}
  {q : Query}

/-- What has passed the checks. -/
structure Prepared (env : Env) (host serv : Option (List UInt8)) (hint : Option Hint) (q : Query) :
    Prop where
  flags : hintOr hint Hint.aiFlags 0 &&& ~~~knownFlags = 0
  family : hintOr hint Hint.aiFamily PF_UNSPEC = PF_UNSPEC ∨
    hintOr hint Hint.aiFamily PF_UNSPEC = PF_INET ∨ hintOr hint Hint.aiFamily PF_UNSPEC = PF_INET6
  socktype : hintOr hint Hint.aiSocktype 0 = 0 ∨ hintOr hint Hint.aiSocktype 0 = SOCK_STREAM ∨
    hintOr hint Hint.aiSocktype 0 = SOCK_DGRAM
  named : ¬ (host = none ∧ serv = none)
  service : ∃ protocol, lookupService env (hintOr hint Hint.aiFlags 0) serv =
    .ok (q.port, protocol) ∧ q.protocol = narrow (hintOr hint Hint.aiSocktype 0) protocol
  protocol : q.protocol ≠ 0
  locals : localAddresses env (hintOr hint Hint.aiFlags 0)
    (hintOr hint Hint.aiFamily PF_UNSPEC) host = .ok q.locals
  kept : q.flags = hintOr hint Hint.aiFlags 0

/-- A check that is passed. -/
theorem check_eq_ok {α : Type} {c : Prop} [Decidable c] {e : Eai} {x : Except Eai α} {a : α} :
    (if c then .error e else x) = .ok a ↔ ¬ c ∧ x = .ok a := by
  by_cases h : c <;> simp [h]

theorem error_bind {α β : Type} {e : Eai} {f : α → Except Eai β} :
    Except.error e >>= f = .error e := rfl

theorem bind_eq_ok {α β : Type} {x : Except Eai α} {f : α → Except Eai β} {b : β} :
    x >>= f = .ok b ↔ ∃ a, x = .ok a ∧ f a = .ok b := by
  cases x <;> simp [bind, Except.bind]

theorem prepare_eq_ok_iff : prepare env host serv hint = .ok q ↔ Prepared env host serv hint q := by
  unfold prepare
  simp only [throw, throwThe, MonadExceptOf.throw, pure, Except.pure, error_bind, check_eq_ok,
    bind_eq_ok, Except.ok.injEq]
  constructor
  · rintro ⟨hflags, hfamily, hsocktype, hnamed, ⟨port, protocol⟩, hservice, hprotocol, locals,
      hlocals, rfl⟩
    exact ⟨not_not.mp hflags, by tauto, by tauto, hnamed, ⟨protocol, hservice, rfl⟩, hprotocol,
      hlocals, rfl⟩
  · intro h
    obtain ⟨protocol, hservice, hnarrow⟩ := h.service
    refine ⟨not_not.mpr h.flags, by have := h.family; tauto, by have := h.socktype; tauto, h.named,
      (q.port, protocol), hservice, hnarrow ▸ h.protocol, q.locals, h.locals, ?_⟩
    rw [← hnarrow, ← h.kept]

/-! ## The service -/

/-- The service is NULL, a port, or a name of the table that may be looked up. -/
def KnownService (env : Env) (flags : Flags) (serv : Option (List UInt8)) : Prop :=
  ∀ name, serv = some name → IsPort name ∨
    flags &&& AI_NUMERICSERV = 0 ∧ (getServiceEntryByName env name).isSome

theorem lookupService_eq_ok_iff {flags : Flags} {r : Int × Protocols} :
    lookupService env flags serv = .ok r ↔
      KnownService env flags serv ∧ ((servicePort env serv : Int), serviceProtocols env serv) = r := by
  cases serv with
  | none => simp [lookupService, KnownService, servicePort, serviceProtocols]
  | some serv =>
    simp only [lookupService, parsePort_eq, KnownService, servicePort, serviceProtocols,
      Option.some.injEq, forall_eq']
    by_cases hport : IsPort serv
    · simp [hport, if_neg (Int.not_lt.mpr (Int.natCast_nonneg _))]
    · simp only [if_neg hport, if_pos (by decide : (-1 : Int) < 0), check_eq_ok, not_not]
      cases hentry : getServiceEntryByName env serv with
      | none => simp [hport]
      | some entry => simp [hport]

/-- What the type of the socket leaves of a mask. -/
theorem narrow_mask_iff {socktype : Int}
    (hsocktype : socktype = 0 ∨ socktype = SOCK_STREAM ∨ socktype = SOCK_DGRAM)
    (protocol : Protocols) (p : Protocol) :
    narrow socktype protocol &&& p.mask ≠ 0 ↔
      protocol &&& p.mask ≠ 0 ∧ (socktype = 0 ∨ socktype = p.socktype) := by
  have hmasks : ∀ p' : Protocol, (protocol &&& p'.mask) &&& p.mask ≠ 0 ↔
      protocol &&& p.mask ≠ 0 ∧ p'.socktype = p.socktype := by
    intro p'
    rw [BitVec.and_assoc]
    have hdiff : Protocol.tcp.mask &&& Protocol.udp.mask = 0 ∧
        Protocol.udp.mask &&& Protocol.tcp.mask = 0 := by decide
    have htype : Protocol.tcp.socktype ≠ Protocol.udp.socktype := by decide
    cases p <;> cases p' <;> simp [hdiff.1, hdiff.2, htype, htype.symm]
  rcases hsocktype with rfl | rfl | rfl
  · rw [narrow, if_neg (by decide), if_neg (by decide)]
    simp
  · rw [narrow, if_pos rfl, or_iff_right (by decide)]
    exact hmasks .tcp
  · rw [narrow, if_neg (by decide), if_pos rfl, or_iff_right (by decide)]
    exact hmasks .udp

/-- The mask that is left has the protocols that are allowed. -/
theorem Prepared.mask_iff (h : Prepared env host serv hint q) (p : Protocol) :
    q.protocol &&& p.mask ≠ 0 ↔ Allowed env serv hint p := by
  obtain ⟨protocol, hservice, hnarrow⟩ := h.service
  have hprotocol : serviceProtocols env serv = protocol :=
    congrArg Prod.snd (lookupService_eq_ok_iff.mp hservice).2
  rw [hnarrow, ← hprotocol]
  exact narrow_mask_iff h.socktype _ p

theorem unwanted_iff (hint : Option Hint) (a : IpAddress) : Unwanted hint a ↔ ¬ Passes hint a := by
  cases hint with
  | none => simp [Unwanted, Passes, hintOr]
  | some h => simp [Unwanted, Passes, hintOr]

/-- The nodes of one address. -/
theorem Prepared.entriesOf_eq (h : Prepared env host serv hint q) (a : IpAddress) :
    entriesOf q hint a = if Passes hint a then
      (Protocol.all.filter fun p => Allowed env serv hint p).map fun p =>
        entryOf a (BitVec.ofNat 16 (servicePort env serv)) p.socktype p.ipproto
    else [] := by
  obtain ⟨protocol, hservice, -⟩ := h.service
  have hport : BitVec.ofInt 16 q.port = BitVec.ofNat 16 (servicePort env serv) := by
    have heq : (servicePort env serv : Int) = q.port :=
      congrArg Prod.fst (lookupService_eq_ok_iff.mp hservice).2
    rw [← heq]
    exact BitVec.ofInt_natCast ..
  have htcp : q.protocol &&& SERVICE_PROTOCOL_TCP ≠ 0 ↔ Allowed env serv hint .tcp :=
    h.mask_iff .tcp
  have hudp : q.protocol &&& SERVICE_PROTOCOL_UDP ≠ 0 ↔ Allowed env serv hint .udp :=
    h.mask_iff .udp
  simp only [entriesOf, entriesFor, wanted, htcp, hudp, unwanted_iff, hport, Protocol.all]
  by_cases hpass : Passes hint a <;> by_cases ht : Allowed env serv hint .tcp <;>
    by_cases hu : Allowed env serv hint .udp <;>
    simp [hpass, ht, hu, Protocol.socktype, Protocol.ipproto]

/-! ## The addresses -/

/-- The local addresses are made for the families that pass the hint, and
other addresses are passed over later. -/
theorem Prepared.addresses_eq (h : Prepared env host serv hint q) (resolver : Resolver) :
    ((q.addresses resolver).filter fun a => Passes hint a) =
      (addressesOf env resolver host hint).filter fun a => Passes hint a := by
  have hlocals := h.locals
  unfold Query.addresses addressesOf
  cases host with
  | none =>
    simp only [localAddresses, Except.ok.injEq] at hlocals
    have h4 : ∀ b, Netdb.family (ipv4Address b) = PF_INET := fun _ => rfl
    have h6 : ∀ b, Netdb.family (ipv6Address b) = PF_INET6 := fun _ => rfl
    have hdistinct : PF_INET ≠ PF_UNSPEC ∧ PF_INET6 ≠ PF_UNSPEC ∧ PF_INET ≠ PF_INET6 := by decide
    have hpair : (if hintOr hint Hint.aiFlags 0 &&& AI_PASSIVE ≠ 0 then
          [ipv4Address any4, ipv6Address in6addrAny]
        else [ipv4Address loopback4, ipv6Address in6addrLoopback]) =
        [ipv4Address (if hintOr hint Hint.aiFlags 0 &&& AI_PASSIVE ≠ 0 then any4 else loopback4),
          ipv6Address (if hintOr hint Hint.aiFlags 0 &&& AI_PASSIVE ≠ 0 then in6addrAny
            else in6addrLoopback)] := by
      split <;> rfl
    simp only [← hlocals, hpair]
    rcases h.family with hfamily | hfamily | hfamily <;>
      simp [hfamily, Passes, h4, h6, hdistinct, hdistinct.1.symm, hdistinct.2.1.symm,
        hdistinct.2.2.symm]
  | some host =>
    simp only [localAddresses] at hlocals
    cases h4 : env.inetPton4 host with
    | some a4 =>
      simp only [h4, check_eq_ok, Except.ok.injEq] at hlocals
      simp [← hlocals.2, h4]
    | none =>
      cases h6 : env.inetPton6 host with
      | some a6 =>
        simp only [h4, h6, check_eq_ok, Except.ok.injEq] at hlocals
        simp [← hlocals.2, h4, h6]
      | none =>
        simp only [h4, h6, check_eq_ok, Except.ok.injEq] at hlocals
        simp [← hlocals.2, h4, h6]

/-- The list that is made is the answer. -/
theorem Prepared.expected_eq (h : Prepared env host serv hint q) (resolver : Resolver) :
    (q.addresses resolver).flatMap (entriesOf q hint) = expected env resolver host serv hint := by
  have hskip : ∀ as : List IpAddress, as.flatMap (entriesOf q hint) =
      (as.filter fun a => Passes hint a).flatMap fun a =>
        (Protocol.all.filter fun p => Allowed env serv hint p).map fun p =>
          entryOf a (BitVec.ofNat 16 (servicePort env serv)) p.socktype p.ipproto := by
    intro as
    induction as with
    | nil => rfl
    | cons a as ih =>
      rw [List.flatMap_cons, ih, h.entriesOf_eq]
      by_cases hpass : Passes hint a <;> simp [hpass]
  rw [hskip, h.addresses_eq]
  rfl

/-! ## The result -/

/-- The memory holds the list of the entries `es` from `*res` on. -/
def Lists (s : State) (es : List Entry) : Prop :=
  ∃ ps, Chain AddrInfo.aiNext s.nodes s.res ps ∧ ps.map s.entryAt = es.map some

/-- **A call that returns 0 has returned the answer, which is not empty.** -/
theorem getaddrinfo_expected (env : Env) (resolver : Resolver) (host serv : Option (List UInt8))
    (hint : Option Hint) (res : Option Nat) (s : State)
    (hrun : getaddrinfo env resolver host serv hint (State.start res) = .ok (0, s)) :
    Lists s (expected env resolver host serv hint) ∧ expected env resolver host serv hint ≠ [] := by
  cases post_of_wp (getaddrinfo_spec env resolver host serv hint res) hrun with
  | refused _ hcode => exact absurd rfl hcode
  | leaked _ _ hcode => exact absurd rfl hcode
  | failed _ _ hcode => exact absurd rfl hcode
  | returned hprepare _ _ hlist =>
    rw [(prepare_eq_ok_iff.mp hprepare).expected_eq] at hlist
    exact ⟨⟨_, hlist.chain, hlist.entries⟩, hlist.nonempty⟩

/-- An environment in which every allocation succeeds and no host is a literal. -/
def plainEnv : Env where
  services := [⟨"http".toUTF8.toList, 80, 3⟩, ⟨"ssh".toUTF8.toList, 22, 1⟩]
  inetPton4 := fun _ => none
  inetPton6 := fun _ => none
  mallocs := fun _ => true
  storage := fun _ => 0

/-- A stream that is not ready at first and then gives one address. -/
def oneAddress : Resolver :=
  .wasip2 (.ok ()) [.error .wouldBlock, .ok (some (.ipv4 ⟨10, 0, 0, 1⟩)), .ok none]

theorem getaddrinfo_expected_http :
    ∃ s, getaddrinfo plainEnv oneAddress (some "host".toUTF8.toList)
        (some "http".toUTF8.toList) none (State.start none) = .ok (0, s) ∧
      Lists s [entryOf (.ipv4 ⟨10, 0, 0, 1⟩) 80 SOCK_STREAM IPPROTO_TCP,
        entryOf (.ipv4 ⟨10, 0, 0, 1⟩) 80 SOCK_DGRAM IPPROTO_UDP] := by
  have hreturns : (getaddrinfo plainEnv oneAddress (some "host".toUTF8.toList)
      (some "http".toUTF8.toList) none (State.start none)).map Prod.fst = .ok 0 := by decide +kernel
  have hexpected : expected plainEnv oneAddress (some "host".toUTF8.toList)
      (some "http".toUTF8.toList) none =
        [entryOf (.ipv4 ⟨10, 0, 0, 1⟩) 80 SOCK_STREAM IPPROTO_TCP,
          entryOf (.ipv4 ⟨10, 0, 0, 1⟩) 80 SOCK_DGRAM IPPROTO_UDP] := by decide +kernel
  cases hrun : getaddrinfo plainEnv oneAddress (some "host".toUTF8.toList)
      (some "http".toUTF8.toList) none (State.start none) with
  | error f =>
    rw [hrun] at hreturns
    cases hreturns
  | ok r =>
    obtain ⟨code, s⟩ := r
    rw [hrun] at hreturns
    cases hreturns
    exact ⟨s, rfl, hexpected ▸ (getaddrinfo_expected _ _ _ _ _ _ s hrun).1⟩

end WasiLibc.Netdb
