import WasiLibc.Netdb.Expected

/-!
# WasiLibc.Netdb.Leaks

What `getaddrinfo` gives back.

Everything that a call acquires is released once, by a deferred statement or
right where it was acquired, with one exception: the list of addresses of
wasip3 is freed after the loop over it, and a failed allocation returns from
inside the loop.  `getaddrinfo_clean_iff` says when this does not happen.
-/

namespace WasiLibc.Netdb

open Socket Wp SList Linear

/-! ## Clean calls -/

/-- What a call is to leave behind.  A failure leaves `*res` NULL and nothing
that is held; a success leaves the list, whose parts are all that is held, and
`freeaddrinfo` releases them. -/
structure Clean (code : Int) (s : State) : Prop where
  failure : code ≠ 0 → s.res = none ∧ Settled s.log
  success : code = 0 → ∃ ps, Chain AddrInfo.aiNext s.nodes s.res ps ∧ Holds s.log (s.owned ps) ∧
    ∃ s', freeaddrinfo s.res s = .ok (⟨⟩, s') ∧ Settled s'.log

/-- The call gets as far as asking the resolver. -/
structure Consults (env : Env) (host serv : Option (List UInt8)) (hint : Option Hint) : Prop where
  flags : hintOr hint Hint.aiFlags 0 &&& ~~~knownFlags = 0
  family : hintOr hint Hint.aiFamily PF_UNSPEC = PF_UNSPEC ∨
    hintOr hint Hint.aiFamily PF_UNSPEC = PF_INET ∨ hintOr hint Hint.aiFamily PF_UNSPEC = PF_INET6
  socktype : hintOr hint Hint.aiSocktype 0 = 0 ∨ hintOr hint Hint.aiSocktype 0 = SOCK_STREAM ∨
    hintOr hint Hint.aiSocktype 0 = SOCK_DGRAM
  service : KnownService env (hintOr hint Hint.aiFlags 0) serv
  allowed : ∃ p, Allowed env serv hint p
  host : ∃ name, host = some name ∧ env.inetPton4 name = none ∧ env.inetPton6 name = none
  numeric : hintOr hint Hint.aiFlags 0 &&& AI_NUMERICHOST = 0

/-- Every allocation for the nodes of the resolver's addresses succeeds, if they
are in a list. -/
def NodesFit (env : Env) (resolver : Resolver) (host serv : Option (List UInt8))
    (hint : Option Hint) : Prop :=
  ∀ addresses, resolver = .wasip3 (.ok addresses) → Consults env host serv hint →
    ∀ i < 2 * (expected env resolver host serv hint).length, env.mallocs i = true

variable {env : Env} {resolver : Resolver} {host serv : Option (List UInt8)} {hint : Option Hint}
  {q : Query} {s : State} {ps : List Nat} {es : List Entry}

/-- `freeaddrinfo` of a list that has been returned. -/
theorem Returned.clean (h : Returned s ps es) : Clean 0 s := by
  refine ⟨fun hne => absurd rfl hne, fun _ => ⟨ps, h.chain, h.holds, ?_⟩⟩
  have hholds : Holds s.log (s.owned ps ++ []) := by
    rw [List.append_nil]
    exact h.holds
  have hfree : wp (fun _ => False) _ _ s := freeaddrinfo_spec h.chain h.nodup h.below hholds
  obtain ⟨_, s', hrun, hholds, -⟩ := exists_ok_of_wp hfree
  exact ⟨s', hrun, hholds.settled⟩

/-- A resource that is still held has not been given up. -/
theorem not_settled {r : Resource} (h : Holds s.log [r]) : ¬ Settled s.log := by
  intro hsettled
  have hcount := h.count r
  rw [hsettled.nothing r, List.count_singleton_self] at hcount
  omega

/-- A query without local addresses is one for the resolver. -/
theorem Prepared.locals_eq_nil_iff (h : Prepared env host serv hint q) :
    q.locals = [] ↔ (∃ name, host = some name ∧ env.inetPton4 name = none ∧
      env.inetPton6 name = none) ∧ hintOr hint Hint.aiFlags 0 &&& AI_NUMERICHOST = 0 := by
  have hlocals := h.locals
  cases host with
  | none =>
    simp only [localAddresses, Except.ok.injEq] at hlocals
    have hne : q.locals ≠ [] := by
      rw [← hlocals]
      have hdistinct : PF_INET6 ≠ PF_INET := by decide
      by_cases hfamily : hintOr hint Hint.aiFamily PF_UNSPEC = PF_INET6 <;>
        simp [hfamily, hdistinct]
    simp [hne]
  | some name =>
    simp only [localAddresses] at hlocals
    cases h4 : env.inetPton4 name with
    | some a4 =>
      simp only [h4, check_eq_ok, Except.ok.injEq] at hlocals
      simp [← hlocals.2, h4]
    | none =>
      cases h6 : env.inetPton6 name with
      | some a6 =>
        simp only [h4, h6, check_eq_ok, Except.ok.injEq] at hlocals
        simp [← hlocals.2, h6]
      | none =>
        simp only [h4, h6, check_eq_ok, Except.ok.injEq, not_not] at hlocals
        simpa [← hlocals.2, h4, h6] using hlocals.1

/-- The resolver is asked in the calls that are described so, with what is
allowed. -/
theorem exists_prepared_iff :
    (∃ q, Prepared env host serv hint q ∧ q.locals = [] ∧ ∃ p, Allowed env serv hint p) ↔
      Consults env host serv hint := by
  constructor
  · rintro ⟨q, h, hlocals, hallowed⟩
    obtain ⟨protocol, hservice, -⟩ := h.service
    obtain ⟨hhost, hnumeric⟩ := h.locals_eq_nil_iff.mp hlocals
    exact ⟨h.flags, h.family, h.socktype, (lookupService_eq_ok_iff.mp hservice).1, hallowed, hhost,
      hnumeric⟩
  · intro h
    obtain ⟨name, rfl, h4, h6⟩ := h.host
    obtain ⟨p, hp⟩ := h.allowed
    refine ⟨⟨hintOr hint Hint.aiFlags 0, servicePort env serv,
      narrow (hintOr hint Hint.aiSocktype 0) (serviceProtocols env serv), []⟩,
      ⟨h.flags, h.family, h.socktype, by simp, ⟨_, lookupService_eq_ok_iff.mpr ⟨h.service, rfl⟩, rfl⟩,
        fun hzero => ?_, ?_, rfl⟩, rfl, p, hp⟩
    · have hmask := (narrow_mask_iff h.socktype (serviceProtocols env serv) p).mpr hp
      have hnarrow : narrow (hintOr hint Hint.aiSocktype 0) (serviceProtocols env serv) = 0 := hzero
      rw [hnarrow] at hmask
      exact hmask BitVec.zero_and
    · simp only [localAddresses, h4, h6]
      exact if_neg (not_not.mpr h.numeric)

/-- Without a protocol there is nothing to allocate. -/
theorem expected_eq_nil (h : ¬ ∃ p, Allowed env serv hint p) :
    expected env resolver host serv hint = [] := by
  have hnone : ∀ p, ¬ Allowed env serv hint p := fun p hp => h ⟨p, hp⟩
  simp [expected, hnone]

/-- The list is left behind just if it is asked for and a node does not fit. -/
theorem leaks_iff :
    (∃ q, prepare env host serv hint = .ok q ∧ q.Leaks env hint resolver) ↔
      ¬ NodesFit env resolver host serv hint := by
  have hlength : ∀ {q addresses}, Prepared env host serv hint q → q.locals = [] →
      resolver = .wasip3 (.ok addresses) →
      addresses.flatMap (entriesOf q hint) = expected env resolver host serv hint := by
    rintro q addresses h hlocals rfl
    rw [← h.expected_eq, Query.addresses, if_neg (not_not.mpr hlocals)]
    rfl
  simp only [prepare_eq_ok_iff, NodesFit, not_forall]
  constructor
  · rintro ⟨q, h, hlocals, addresses, heq, hfail⟩
    rw [hlength h hlocals heq] at hfail
    have hallowed : ∃ p, Allowed env serv hint p := by
      by_contra hnone
      rw [expected_eq_nil hnone] at hfail
      exact hfail (by simp)
    refine ⟨addresses, heq, exists_prepared_iff.mp ⟨q, h, hlocals, hallowed⟩, ?_⟩
    simpa using hfail
  · rintro ⟨addresses, heq, hconsults, hfail⟩
    obtain ⟨q, h, hlocals, -⟩ := exists_prepared_iff.mpr hconsults
    refine ⟨q, h, hlocals, addresses, heq, ?_⟩
    rw [hlength h hlocals heq]
    simpa using hfail

theorem Resolver.stops_host (resolver : Resolver) {f : Fault} (h : resolver.Stops f) :
    f = .host := by
  cases resolver with
  | wasip2 stream next => exact h
  | wasip3 addresses => exact h.elim

/-- **`getaddrinfo` releases what it acquires just if, on wasip3, the nodes for
the addresses of the resolver can all be allocated.** -/
theorem getaddrinfo_clean_iff (env : Env) (resolver : Resolver) (host serv : Option (List UInt8))
    (hint : Option Hint) (res : Option Nat) :
    ((∀ f, getaddrinfo env resolver host serv hint (State.start res) = .error f → f = .host) ∧
      ∀ code s, getaddrinfo env resolver host serv hint (State.start res) = .ok (code, s) →
        Clean code s) ↔ NodesFit env resolver host serv hint := by
  have hspec := getaddrinfo_spec env resolver host serv hint res
  constructor
  · rintro ⟨-, hclean⟩
    by_contra hnot
    obtain ⟨q, hprepare, hleaks⟩ := leaks_iff.mpr hnot
    have hstops : resolver.Stops = fun _ => False := by
      obtain ⟨-, addresses, rfl, -⟩ := hleaks
      rfl
    rw [hstops] at hspec
    obtain ⟨code, s, hrun, hended⟩ := exists_ok_of_wp hspec
    cases hended with
    | refused hprepare' => cases hprepare.symm.trans hprepare'
    | failed hprepare' hleaks' =>
      cases hprepare.symm.trans hprepare'
      exact hleaks' hleaks
    | returned hprepare' hleaks' =>
      cases hprepare.symm.trans hprepare'
      exact hleaks' hleaks
    | leaked _ _ hcode _ hholds => exact not_settled hholds ((hclean code s hrun).failure hcode).2
  · intro hfit
    refine ⟨fun f hrun => resolver.stops_host (ok_of_wp hspec hrun), fun code s hrun => ?_⟩
    cases post_of_wp hspec hrun with
    | refused _ hcode hres hholds =>
      exact ⟨fun _ => ⟨hres, hholds.settled⟩, fun hzero => absurd hzero hcode⟩
    | failed _ _ hcode hres hholds =>
      exact ⟨fun _ => ⟨hres, hholds.settled⟩, fun hzero => absurd hzero hcode⟩
    | leaked hprepare hleaks => exact absurd hfit (leaks_iff.mp ⟨_, hprepare, hleaks⟩)
    | returned _ _ hcode hlist =>
      subst hcode
      exact hlist.clean

/-- The first node is allocated, and the second is not. -/
def tightEnv : Env := { plainEnv with mallocs := fun i => i < 2 }

/-- An address is resolved, and there is memory for its first node only: the
call fails, and the list of addresses is still held. -/
theorem getaddrinfo_leaks_addresses :
    (getaddrinfo tightEnv (.wasip3 (.ok [.ipv4 ⟨10, 0, 0, 1⟩])) (some "host".toUTF8.toList)
      (some "http".toUTF8.toList) none (State.start none)).map (fun r => (r.1, r.2.res, r.2.log)) =
    .ok (Eai.MEMORY.code, none,
      [.acquire .addresses, .acquire (.node 0), .acquire (.sockaddr 1),
        .release (.sockaddr 1), .release (.node 0)]) := by decide +kernel

end WasiLibc.Netdb
