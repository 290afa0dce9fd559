import WasiLibc.Lib.SList
import WasiLibc.Netdb.Addrinfo

/-!
# WasiLibc.Netdb.Lists

The list that `getaddrinfo` builds.

`Built` is the invariant of its loops: the nodes from `result` on are a chain
whose last is `current`, they say what has been added so far, and they and
their socket addresses are what the call holds besides what it got from the
host.  `Added` is what a part of the loops does to it.  An address adds its
nodes just if all allocations for them succeed.
-/

namespace WasiLibc.Netdb

open Function SList Socket Wp

/-! ## Entries -/

/-- What a node says, with the socket address that it points to. -/
structure Entry where
  aiFamily : Int
  aiSocktype : Int
  aiProtocol : Int
  aiAddrlen : Nat
  aiAddr : Sockaddr
  deriving DecidableEq

/-- The entry at an address. -/
def State.entryAt (s : State) (p : Nat) : Option Entry := do
  let n ← s.nodes p
  let addr ← s.sockaddrs n.aiAddr
  return ⟨n.aiFamily, n.aiSocktype, n.aiProtocol, n.aiAddrlen, addr⟩

/-- The socket address of an address and a port, without flow information and
scope. -/
def toSockaddr (address : IpAddress) (port : BitVec 16) : Sockaddr :=
  match address with
  | .ipv4 ip => .in4 ⟨AF_INET, htons port, sAddr ip⟩
  | .ipv6 ip => .in6 ⟨AF_INET6, htons port, 0, s6Addr ip, 0⟩

/-- The entry of an address for one protocol. -/
def entryOf (address : IpAddress) (port : BitVec 16) (socktype protocol : Int) : Entry :=
  ⟨family address, socktype, protocol, (toSockaddr address port).addrlen, toSockaddr address port⟩

theorem addAddrSockaddr_eq_toSockaddr (address : IpAddress) (port : BitVec 16)
    (storage : Memory) : addAddrSockaddr address (htons port) storage = toSockaddr address port := by
  have h := addAddrSockaddr_eq address port storage
  cases address with
  | ipv4 ip => exact (Except.ok.inj h).symm
  | ipv6 ip => exact (Except.ok.inj h).symm

/-! ## The invariant -/

/-- The resource is not an allocation after the first `k`. -/
def Resource.Below (k : Nat) : Resource → Prop
  | .node p => p < k
  | .sockaddr p => p < k
  | .canonname p => p < k
  | _ => True

theorem Resource.Below.mono {k k' : Nat} (hk : k ≤ k') {r : Resource} (h : r.Below k) :
    r.Below k' := by
  cases r with
  | node p => exact Nat.lt_of_lt_of_le h hk
  | sockaddr p => exact Nat.lt_of_lt_of_le h hk
  | canonname p => exact Nat.lt_of_lt_of_le h hk
  | _ => trivial

/-- What belongs to a node, in the order in which it is freed. -/
def AddrInfo.resources (n : AddrInfo) (p : Nat) : List Resource :=
  (n.aiCanonname.map Resource.canonname).toList ++ [.sockaddr n.aiAddr, .node p]

/-- What belongs to the nodes at `ps`. -/
def State.owned (s : State) (ps : List Nat) : List Resource :=
  ps.flatMap fun p => ((s.nodes p).map fun n => n.resources p).getD []

/-- The nodes at `ps` are linked from `result` to `current` and say `es`, and
nothing is held besides them and `held`. -/
structure Built (s : State) (ps : List Nat) (es : List Entry) (held : List Resource) : Prop where
  chain : Chain AddrInfo.aiNext s.nodes s.result ps
  last : s.current = ps.getLast?
  nodup : ps.Nodup
  below : ∀ p ∈ ps, p < s.allocated
  fresh : ∀ r ∈ s.owned ps ++ held, r.Below s.allocated
  unnamed : ∀ p ∈ ps, ∀ n, s.nodes p = some n → n.aiCanonname = none
  entries : ps.map s.entryAt = es.map some
  holds : Linear.Holds s.log (s.owned ps ++ held)
  res : s.res = none

variable {env : Env} {s s' : State} {ps : List Nat} {es new : List Entry} {held : List Resource}

/-- Other allocations that are given back at once. -/
theorem Built.grow (h : Built s ps es held) {k : Nat} (hk : s.allocated ≤ k)
    {log : List (Linear.Event Resource)} (hlog : Linear.Holds log (s.owned ps ++ held)) :
    Built { s with allocated := k, log := log } ps es held :=
  ⟨h.chain, h.last, h.nodup, fun p hp => Nat.lt_of_lt_of_le (h.below p hp) hk,
    fun r hr => (h.fresh r hr).mono hk, h.unnamed, h.entries, hlog, h.res⟩

/-- What is new is not held. -/
theorem Built.notMem (h : Built s ps es held) {r : Resource} (hr : ¬ r.Below s.allocated) :
    r ∉ s.owned ps ++ held := fun hin => hr (h.fresh r hin)

/-- The node at one of the addresses. -/
theorem Built.nodeAt (h : Built s ps es held) {p : Nat} (hp : p ∈ ps) :
    ∃ n, s.nodes p = some n ∧ n.aiAddr < s.allocated := by
  obtain ⟨n, hn⟩ := h.chain.mem_isSome hp
  refine ⟨n, hn, h.fresh (.sockaddr n.aiAddr) (List.mem_append_left _ ?_)⟩
  refine List.mem_flatMap.mpr ⟨p, hp, ?_⟩
  simp [hn, AddrInfo.resources]

/-- Two memories that differ in the links of the nodes at `ps` only. -/
structure SameBut (ps : List Nat) (s s' : State) : Prop where
  nodes : ∀ p ∈ ps, ∃ n next, s.nodes p = some n ∧ s'.nodes p = some { n with aiNext := next }
  sockaddrs : ∀ p ∈ ps, ∀ n, s.nodes p = some n → s'.sockaddrs n.aiAddr = s.sockaddrs n.aiAddr

theorem SameBut.owned (h : SameBut ps s s') : s'.owned ps = s.owned ps := by
  refine List.flatMap_congr fun p hp => ?_
  obtain ⟨n, next, hn, hn'⟩ := h.nodes p hp
  rw [hn, hn']
  rfl

theorem SameBut.entries (h : SameBut ps s s') : ps.map s'.entryAt = ps.map s.entryAt := by
  refine List.map_congr_left fun p hp => ?_
  obtain ⟨n, next, hn, hn'⟩ := h.nodes p hp
  simp [State.entryAt, hn, hn', h.sockaddrs p hp n hn]

theorem SameBut.unnamed (h : SameBut ps s s')
    (hunnamed : ∀ p ∈ ps, ∀ n, s.nodes p = some n → n.aiCanonname = none) :
    ∀ p ∈ ps, ∀ n, s'.nodes p = some n → n.aiCanonname = none := by
  intro p hp n' hn'
  obtain ⟨n, next, hn, hlink⟩ := h.nodes p hp
  cases hlink.symm.trans hn'
  exact hunnamed p hp n hn

/-! ## `malloc` and `add_addr` -/

theorem wp_malloc {ok : Fault → Prop} {make : Nat → Resource} {Q : Option Nat → State → Prop} :
    wp ok (malloc env make) Q s ↔
      if env.mallocs s.allocated then
        Q (some s.allocated) { s with
          allocated := s.allocated + 1, log := s.log ++ [.acquire (make s.allocated)] }
      else Q none { s with allocated := s.allocated + 1 } := by
  unfold malloc
  rw [wp_bind, wp_get, wp_bind, wp_modify, wp_ite]
  rfl

variable {e : Entry} {ok : Prop}

/-- A node and its socket address have been allocated and linked at the end. -/
theorem Built.concat (h : Built s ps es held) {n : AddrInfo} {addr : Sockaddr}
    (hsame : SameBut ps s s')
    (hchain : Chain AddrInfo.aiNext s'.nodes s'.result (ps ++ [s.allocated]))
    (hcurrent : s'.current = some s.allocated) (hnode : s'.nodes s.allocated = some n)
    (hname : n.aiCanonname = none) (hptr : n.aiAddr = s.allocated + 1)
    (haddr : s'.sockaddrs (s.allocated + 1) = some addr)
    (halloc : s'.allocated = s.allocated + 2)
    (hlog : s'.log = s.log ++ [.acquire (.node s.allocated)] ++
      [.acquire (.sockaddr (s.allocated + 1))])
    (hres : s'.res = s.res)
    (he : e = ⟨n.aiFamily, n.aiSocktype, n.aiProtocol, n.aiAddrlen, addr⟩) :
    Built s' (ps ++ [s.allocated]) (es ++ [e]) held := by
  have howned : s'.owned (ps ++ [s.allocated]) =
      s.owned ps ++ [.sockaddr (s.allocated + 1), .node s.allocated] := by
    have happend : s'.owned (ps ++ [s.allocated]) = s'.owned ps ++ s'.owned [s.allocated] := by
      simp [State.owned]
    rw [happend, hsame.owned]
    simp [State.owned, hnode, AddrInfo.resources, hname, hptr]
  have hnotMem : s.allocated ∉ ps := fun hin => Nat.lt_irrefl _ (h.below _ hin)
  refine ⟨hchain, by simp [hcurrent], ?_, ?_, ?_, ?_, ?_, ?_, hres.trans h.res⟩
  · rw [← List.concat_eq_append]
    exact (List.nodup_concat ps s.allocated).mpr ⟨hnotMem, h.nodup⟩
  · intro p hp
    rw [halloc]
    rcases List.mem_append.mp hp with hp | hp
    · exact Nat.lt_add_right 2 (h.below p hp)
    · cases List.mem_singleton.mp hp
      omega
  · intro r hr
    rw [howned, halloc] at *
    simp only [List.mem_append, List.mem_cons, List.not_mem_nil, or_false] at hr
    rcases hr with (hr | rfl | rfl) | hr
    · exact (h.fresh r (List.mem_append_left _ hr)).mono (by omega)
    · show s.allocated + 1 < s.allocated + 2
      omega
    · show s.allocated < s.allocated + 2
      omega
    · exact (h.fresh r (List.mem_append_right _ hr)).mono (by omega)
  · intro p hp n' hn'
    rcases List.mem_append.mp hp with hp | hp
    · exact hsame.unnamed h.unnamed p hp n' hn'
    · cases List.mem_singleton.mp hp
      cases hnode.symm.trans hn'
      exact hname
  · simp [hsame.entries, h.entries, State.entryAt, hnode, hptr, haddr, he]
  · rw [hlog, howned]
    have hnode' := h.holds.acquire (h.notMem (r := .node s.allocated) (Nat.lt_irrefl _))
    have haddr' := hnode'.acquire (r := .sockaddr (s.allocated + 1)) (by
      rw [List.mem_cons, not_or]
      exact ⟨by simp, h.notMem (Nat.not_lt.mpr (Nat.le_succ _))⟩)
    have hperm : ([Resource.sockaddr (s.allocated + 1), .node s.allocated] ++ s.owned ps ++
        held).Perm (s.owned ps ++ [.sockaddr (s.allocated + 1), .node s.allocated] ++ held) :=
      List.perm_append_comm.append_right held
    exact haddr'.perm hperm

/-- The entries of an address for one protocol: none, if the address is of
another family than the one that is asked for. -/
def wanted (hint : Option Hint) (address : IpAddress) (port : BitVec 16) (socktype protocol : Int) :
    List Entry :=
  if Unwanted hint address then [] else [entryOf address port socktype protocol]

/-- What a part of the loops does that is to add the entries `new`, with the
result `ok`. -/
structure Added (env : Env) (es new : List Entry) (held : List Resource) (s s' : State)
    (ok : Prop) : Prop where
  built : ok → ∃ ps, Built s' ps (es ++ new) held
  failed : ¬ ok → ∃ ps es', Built s' ps es' held
  ok_iff : ok ↔ ∀ i < 2 * new.length, env.mallocs (s.allocated + i) = true
  allocated : ok → s'.allocated = s.allocated + 2 * new.length
  pollable : s'.pollable = s.pollable

/-- Nothing is added. -/
theorem Built.added_nil (h : Built s ps es held) (hok : ok) :
    Added env es [] held s s ok where
  built _ := ⟨ps, by rwa [List.append_nil]⟩
  failed hnot := absurd hok hnot
  ok_iff := by simp [hok]
  allocated _ := rfl
  pollable := rfl

/-- The allocations of `add_addr` fail, and what has been allocated is freed. -/
theorem Built.added_false (h : Built s ps es held)
    {log : List (Linear.Event Resource)} (hlog : Linear.Holds log (s.owned ps ++ held))
    (hfail : ¬ (env.mallocs s.allocated = true ∧ env.mallocs (s.allocated + 1) = true)) (hok : ¬ ok) :
    Added env es [e] held s { s with allocated := s.allocated + 2, log := log } ok where
  built h := absurd h hok
  failed _ := ⟨ps, es, h.grow (Nat.le_add_right _ _) hlog⟩
  ok_iff := iff_of_false hok fun hall => hfail ⟨hall 0 (by simp), hall 1 (by simp)⟩
  allocated h := absurd h hok
  pollable := rfl

/-- A node has been linked. -/
theorem Added.of_built (h : ∃ ps, Built s' ps (es ++ [e]) held)
    (halloc : s'.allocated = s.allocated + 2) (hpoll : s'.pollable = s.pollable)
    (hmallocs : env.mallocs s.allocated = true ∧ env.mallocs (s.allocated + 1) = true) (hok : ok) : Added env es [e] held s s' ok where
  built _ := h
  failed hnot := absurd hok hnot
  ok_iff := by
    refine iff_of_true hok fun i hi => ?_
    have : i = 0 ∨ i = 1 := by
      simp only [List.length_singleton] at hi
      omega
    rcases this with rfl | rfl
    · exact hmallocs.1
    · exact hmallocs.2
  allocated _ := halloc
  pollable := hpoll

theorem addAddr_spec {ok : Fault → Prop} (h : Built s ps es held) (address : IpAddress)
    (port : BitVec 16) (socktype : Int) (hint : Option Hint) :
    wp ok (addAddr env address (htons port) socktype hint)
      (fun r s' => Added env es (wanted hint address port socktype
        (if socktype = SOCK_STREAM then IPPROTO_TCP else IPPROTO_UDP)) held s s' (r = true)) s := by
  unfold addAddr wanted
  by_cases hunwanted : Unwanted hint address
  · rw [if_pos hunwanted, if_pos hunwanted]
    exact h.added_nil rfl
  rw [if_neg hunwanted, if_neg hunwanted, wp_bind, wp_malloc]
  have hnode := h.holds.acquire (h.notMem (r := .node s.allocated) (Nat.lt_irrefl _))
  have haddr := h.holds.acquire (h.notMem (r := .sockaddr (s.allocated + 1))
    (Nat.not_lt.mpr (Nat.le_succ _)))
  by_cases hm : env.mallocs s.allocated = true <;>
    by_cases hm' : env.mallocs (s.allocated + 1) = true
  · rw [if_pos hm, wp_bind, wp_malloc, if_pos hm', addAddrSockaddr_eq_toSockaddr]
    rcases List.eq_nil_or_concat ps with rfl | ⟨init, c, rfl⟩
    · -- the first node
      have hresult : s.result = none := h.chain
      simp only [wp_bind, wp_modify, wp_get, wp_pure, setNode, h.last, List.getLast?_nil]
      refine Added.of_built ⟨[] ++ [s.allocated], ?_⟩ (by rfl) (by rfl) ⟨hm, hm'⟩ trivial
      refine h.concat ⟨by simp, by simp⟩ ?_ rfl (update_self ..) rfl rfl
        (update_self ..) rfl rfl rfl rfl
      exact ⟨by simp [hresult], _, update_self .., rfl⟩
    · -- the last node is made to point to the new one
      rw [List.concat_eq_append] at h
      have hc : c ∈ init ++ [c] := by simp
      have hold : ∀ p ∈ init ++ [c], p ≠ s.allocated := fun p hp => Nat.ne_of_lt (h.below p hp)
      have hne : c ≠ s.allocated := hold c hc
      obtain ⟨last, hlast, -⟩ := h.nodeAt hc
      obtain ⟨first, hfirst⟩ : ∃ first, s.result = some first := by
        rw [h.chain.head]
        cases init <;> simp
      simp only [wp_bind, wp_modify, wp_get, wp_pure, setNode, h.last, List.getLast?_append,
        List.getLast?_singleton, Option.some_or, Netdb.node, update_of_ne hne, hlast]
      refine Added.of_built ⟨init ++ [c] ++ [s.allocated], ?_⟩ (by rfl) (by rfl) ⟨hm, hm'⟩ trivial
      refine h.concat ⟨fun p hp => ?_, fun p hp n hn => ?_⟩ ?_ rfl
        ((update_of_ne hne.symm ..).trans (update_self ..)) rfl rfl
        (update_self ..) rfl rfl rfl rfl
      · obtain ⟨n, hn, -⟩ := h.nodeAt hp
        by_cases hpc : p = c
        · subst hpc
          exact ⟨last, some s.allocated, hlast, update_self ..⟩
        · refine ⟨n, n.aiNext, hn, ?_⟩
          exact (update_of_ne hpc ..).trans ((update_of_ne (hold p hp) ..).trans hn)
      · obtain ⟨n', hn', hlt⟩ := h.nodeAt hp
        cases hn.symm.trans hn'
        exact update_of_ne (by omega) ..
      · simp only [hfirst, Option.some_or]
        have hframe : ∀ v, Chain AddrInfo.aiNext (update s.nodes s.allocated v)
            (some first) (init ++ [c]) := fun v =>
          (hfirst ▸ h.chain).frame fun p hp => update_of_ne (hold p hp) ..
        exact (hframe _).concat h.nodup rfl (fun hin => hold _ hin rfl) (update_self ..) rfl
  · rw [if_pos hm, wp_bind, wp_malloc, if_neg hm']
    exact h.added_false (hnode.giveUp (.inl rfl)) (fun hall => hm' hall.2) Bool.false_ne_true
  · rw [if_neg hm, wp_bind, wp_malloc, if_pos hm']
    exact h.added_false (haddr.giveUp (.inl rfl)) (fun hall => hm hall.1) Bool.false_ne_true
  · rw [if_neg hm, wp_bind, wp_malloc, if_neg hm']
    exact h.added_false h.holds (fun hall => hm hall.1) Bool.false_ne_true

/-! ## The loops -/

/-- A part that fails has failed to add what would have come after it. -/
theorem Added.append_failed {ok' : Prop} (h : Added env es new held s s' ok) (hok : ¬ ok)
    (hok' : ¬ ok') (more : List Entry) : Added env es (new ++ more) held s s' ok' where
  built h' := absurd h' hok'
  failed _ := h.failed hok
  ok_iff := by
    refine iff_of_false hok' fun hall => hok (h.ok_iff.mpr fun i hi => hall i ?_)
    rw [List.length_append]
    omega
  allocated h' := absurd h' hok'
  pollable := h.pollable

/-- One part after the other. -/
theorem Added.append {s'' : State} {ok' : Prop} {more : List Entry}
    (h : Added env es new held s s' ok) (hok : ok)
    (h' : Added env (es ++ new) more held s' s'' ok') :
    Added env es (new ++ more) held s s'' ok' where
  built hok' := by
    rw [← List.append_assoc]
    exact h'.built hok'
  failed := h'.failed
  ok_iff := by
    rw [h'.ok_iff, h.allocated hok, List.length_append]
    have hfirst := h.ok_iff.mp hok
    constructor
    · intro hall i hi
      by_cases hlt : i < 2 * new.length
      · exact hfirst i hlt
      · have := hall (i - 2 * new.length) (by omega)
        rwa [Nat.add_assoc, Nat.add_sub_cancel' (Nat.le_of_not_lt hlt)] at this
    · intro hall i hi
      have := hall (2 * new.length + i) (by omega)
      rwa [← Nat.add_assoc] at this
  allocated hok' := by
    rw [h'.allocated hok', h.allocated hok, List.length_append]
    omega
  pollable := h'.pollable.trans h.pollable

/-- The entries of an address for one protocol, if the protocol is allowed. -/
def entriesFor (q : Query) (hint : Option Hint) (address : IpAddress) (protocol : Protocols)
    (socktype ipproto : Int) : List Entry :=
  if q.protocol &&& protocol ≠ 0 then
    wanted hint address (BitVec.ofInt 16 q.port) socktype ipproto
  else []

/-- The entries of an address. -/
def entriesOf (q : Query) (hint : Option Hint) (address : IpAddress) : List Entry :=
  entriesFor q hint address SERVICE_PROTOCOL_TCP SOCK_STREAM IPPROTO_TCP ++
    entriesFor q hint address SERVICE_PROTOCOL_UDP SOCK_DGRAM IPPROTO_UDP

variable {q : Query} {hint : Option Hint} {ok : Fault → Prop}

theorem addProtocol_spec (h : Built s ps es held) (address : IpAddress) (protocol : Protocols)
    {socktype ipproto : Int}
    (hipproto : (if socktype = SOCK_STREAM then IPPROTO_TCP else IPPROTO_UDP) = ipproto) :
    wp ok (addProtocol env q hint address protocol socktype)
      (fun r s' => Added env es (entriesFor q hint address protocol socktype ipproto) held s s'
        (r = .ok ())) s := by
  unfold addProtocol entriesFor
  by_cases hallowed : q.protocol &&& protocol ≠ 0
  · rw [if_pos hallowed, if_pos hallowed, wp_bind]
    refine wp_mono (addAddr_spec h address (BitVec.ofInt 16 q.port) socktype hint) fun b s' h' => ?_
    rw [hipproto] at h'
    cases b with
    | true => simpa using h'
    | false => simpa using h'
  · rw [if_neg hallowed, if_neg hallowed]
    exact h.added_nil rfl

theorem addAddress_spec (h : Built s ps es held) (address : IpAddress) :
    wp ok (addAddress env q hint address)
      (fun r s' => Added env es (entriesOf q hint address) held s s' (r = .ok ())) s := by
  unfold addAddress entriesOf
  rw [wp_bind]
  refine wp_mono (addProtocol_spec h address SERVICE_PROTOCOL_TCP rfl) fun r s₁ h₁ => ?_
  cases r with
  | error e => exact h₁.append_failed (by simp) (by simp) _
  | ok u =>
    obtain ⟨ps₁, hb₁⟩ := h₁.built rfl
    exact wp_mono (addProtocol_spec hb₁ address SERVICE_PROTOCOL_UDP (by decide))
      fun r s₂ h₂ => h₁.append rfl h₂

/-- The whole loop over addresses that are all there. -/
theorem addAll_spec (h : Built s ps es held) (addresses : List IpAddress) :
    wp ok (addAll env q hint addresses)
      (fun r s' => Added env es (addresses.flatMap (entriesOf q hint)) held s s' (r = .ok ())) s := by
  induction addresses generalizing s ps es with
  | nil => exact h.added_nil rfl
  | cons a as ih =>
    rw [addAll, wp_bind, List.flatMap_cons]
    refine wp_mono (addAddress_spec h a) fun r s₁ h₁ => ?_
    cases r with
    | error e => exact h₁.append_failed (by simp) (by simp) _
    | ok u =>
      obtain ⟨ps₁, hb₁⟩ := h₁.built rfl
      exact wp_mono (ih hb₁) fun r s₂ h₂ => h₁.append rfl h₂

end WasiLibc.Netdb
