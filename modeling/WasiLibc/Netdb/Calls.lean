import WasiLibc.Netdb.Lists

/-!
# WasiLibc.Netdb.Calls

A whole call of `getaddrinfo`: what the resolver adds to the list, how the list
is handed to the caller, and what `freeaddrinfo` gives back.

`getaddrinfo_spec` says how a call may end.  It returns the list of its
addresses and holds nothing besides, or it fails and holds nothing; or it
fails in the loop over the list of addresses of wasip3, which then is never
freed (`Leaks`).
-/

namespace WasiLibc.Netdb

open Function SList Socket Wp

variable {env : Env} {s : State} {ps : List Nat} {es : List Entry} {held : List Resource}
  {q : Query} {hint : Option Hint} {ok : Fault → Prop} {r : Resource}

/-! ## What the host gives -/

/-- The resource is one of the host's. -/
def Resource.Hosted : Resource → Prop
  | .node _ => False
  | .sockaddr _ => False
  | .canonname _ => False
  | _ => True

theorem Resource.Hosted.notMem_owned (h : r.Hosted) (s : State) (ps : List Nat) :
    r ∉ s.owned ps := by
  intro hin
  obtain ⟨p, -, hin⟩ := List.mem_flatMap.mp hin
  cases hn : s.nodes p with
  | none => simp [hn] at hin
  | some n =>
    cases r <;> simp [hn, AddrInfo.resources, Resource.Hosted] at hin h

theorem Resource.Hosted.below (h : r.Hosted) (k : Nat) : r.Below k := by
  cases r with
  | node p => exact h.elim
  | sockaddr p => exact h.elim
  | canonname p => exact h.elim
  | _ => trivial

theorem Built.acquire (h : Built s ps es held) (hhost : r.Hosted) (hr : r ∉ held) :
    Built { s with log := s.log ++ [.acquire r] } ps es (r :: held) := by
  have hnotMem : r ∉ s.owned ps ++ held := by
    rw [List.mem_append, not_or]
    exact ⟨hhost.notMem_owned s ps, hr⟩
  refine ⟨h.chain, h.last, h.nodup, h.below, fun r' hr' => ?_, h.unnamed, h.entries,
    (h.holds.acquire hnotMem).perm List.perm_middle.symm, h.res⟩
  rcases List.mem_append.mp hr' with hr' | hr'
  · exact h.fresh r' (List.mem_append_left _ hr')
  · rcases List.mem_cons.mp hr' with rfl | hr'
    · exact hhost.below _
    · exact h.fresh r' (List.mem_append_right _ hr')

theorem Built.release (h : Built s ps es (r :: held)) :
    Built { s with log := s.log ++ [.release r] } ps es held := by
  refine ⟨h.chain, h.last, h.nodup, h.below, fun r' hr' => h.fresh r' ?_, h.unnamed, h.entries,
    (h.holds.perm List.perm_middle).giveUp (.inl rfl), h.res⟩
  rcases List.mem_append.mp hr' with hr' | hr'
  · exact List.mem_append_left _ hr'
  · exact List.mem_append_right _ (List.mem_cons_of_mem r hr')

/-- Fields that the list does not depend on. -/
theorem Built.setErrno (h : Built s ps es held) (errno : Option Errno) :
    Built { s with errno := errno } ps es held :=
  ⟨h.chain, h.last, h.nodup, h.below, h.fresh, h.unnamed, h.entries, h.holds, h.res⟩

/-! ## The resolver -/

/-- The addresses that the stream of wasip2 gives before its end. -/
def delivered : List (Except NetworkError (Option IpAddress)) → List IpAddress
  | [] => []
  | .error _ :: next => delivered next
  | .ok none :: _ => []
  | .ok (some address) :: next => address :: delivered next

/-- What is held during the loop over the stream. -/
def streamHeld (pollable : Bool) : List Resource :=
  (if pollable then [.pollable] else []) ++ [.stream]

/-- `map_error` of wasip2 is not asked about an error that it cannot map. -/
theorem mapErrorPreview2_spec (h : Built s ps es held) (error : NetworkError) :
    wp ok (mapErrorPreview2 error)
      (fun _ s' => Built s' ps es held ∧ s'.pollable = s.pollable) s := by
  cases error with
  | outOfMemory => exact ⟨h, rfl⟩
  | nameUnresolvable => exact ⟨h, rfl⟩
  | temporaryResolverFailure => exact ⟨h, rfl⟩
  | permanentResolverFailure => exact ⟨h, rfl⟩
  | _ => exact ⟨h.setErrno _, rfl⟩

/-- How a part may end: with the list of the entries `es` and `held` besides,
or with a part of a list and `leaked` besides. -/
def Outcome (es : List Entry) (held leaked : List Resource) : Except Eai Unit → State → Prop
  | .ok _, s => ∃ ps, Built s ps es held
  | .error _, s => ∃ ps es', Built s ps es' leaked

theorem streamLoop_spec (h : Built s ps es (streamHeld s.pollable))
    (next : List (Except NetworkError (Option IpAddress))) :
    wp (· = .host) (streamLoop env q hint next) (fun r s' =>
      Outcome (es ++ (delivered next).flatMap (entriesOf q hint)) (streamHeld s'.pollable)
        (streamHeld s'.pollable) r s') s := by
  induction next generalizing s ps es with
  | nil => rfl
  | cons answer next ih =>
    match answer with
    | .error error =>
      simp only [streamLoop]
      split
      · rw [wp_bind]
        exact wp_mono (mapErrorPreview2_spec h error) fun e s' h' => ⟨ps, es, h'.2 ▸ h'.1⟩
      · -- the pollable is made the first time that the stream would block
        rw [wp_bind, wp_get]
        cases hpoll : s.pollable with
        | true => exact ih h
        | false =>
          rw [hpoll] at h
          have h' := h.acquire (r := .pollable) trivial (by simp [streamHeld])
          exact ih (s := { s with log := s.log ++ [.acquire .pollable], pollable := true })
            ⟨h'.chain, h'.last, h'.nodup, h'.below, h'.fresh, h'.unnamed, h'.entries, h'.holds,
              h'.res⟩
    | .ok none => exact ⟨ps, by simpa [delivered] using h⟩
    | .ok (some address) =>
      rw [streamLoop, wp_bind]
      refine wp_mono (addAddress_spec h address) fun r s₁ h₁ => ?_
      cases r with
      | error e =>
        obtain ⟨ps₁, es₁, hb₁⟩ := h₁.failed (by simp)
        refine ⟨ps₁, es₁, ?_⟩
        rw [h₁.pollable]
        exact hb₁
      | ok u =>
        obtain ⟨ps₁, hb₁⟩ := h₁.built rfl
        rw [← h₁.pollable] at hb₁
        simpa only [delivered, List.flatMap_cons, List.append_assoc] using ih hb₁

theorem dropStream_spec (h : Built s ps es (streamHeld s.pollable)) :
    wp ok dropStream (fun _ s' => Built s' ps es []) s := by
  unfold dropStream
  rw [wp_bind, wp_get]
  cases hpoll : s.pollable with
  | true =>
    rw [hpoll] at h
    exact h.release.release
  | false =>
    rw [hpoll] at h
    exact h.release

/-- The addresses that the resolver gives. -/
def Resolver.addresses : Resolver → List IpAddress
  | .wasip2 _ next => delivered next
  | .wasip3 (.ok addresses) => addresses
  | .wasip3 (.error _) => []

/-- What is not given back when the resolver's part fails. -/
def Resolver.leaked : Resolver → List Resource
  | .wasip3 (.ok _) => [.addresses]
  | _ => []

/-- Only a stream may have to be waited for without an end. -/
def Resolver.Stops : Resolver → Fault → Prop
  | .wasip2 _ _ => (· = .host)
  | .wasip3 _ => fun _ => False

theorem resolve_spec (h : Built s ps es []) (hpoll : s.pollable = false) (resolver : Resolver) :
    wp resolver.Stops (resolve env q hint resolver) (fun r s' =>
      Outcome (es ++ resolver.addresses.flatMap (entriesOf q hint)) [] resolver.leaked r s' ∧
      ∀ addresses, resolver = .wasip3 (.ok addresses) →
        (r = .ok () ↔ ∀ i < 2 * (addresses.flatMap (entriesOf q hint)).length,
          env.mallocs (s.allocated + i) = true)) s := by
  match resolver with
  | .wasip2 (.error error) next =>
    rw [resolve, wp_bind]
    refine wp_mono (mapErrorPreview2_spec h error) fun e s' h' => ⟨⟨ps, es, h'.1⟩, ?_⟩
    exact nofun
  | .wasip2 (.ok _) next =>
    have hstream := h.acquire (r := .stream) trivial (by simp)
    have hheld : [Resource.stream] = streamHeld s.pollable := by rw [hpoll]; rfl
    rw [hheld] at hstream
    rw [resolve, wp_bind]
    refine wp_bind.mpr (wp_mono (streamLoop_spec hstream next) fun r s₁ h₁ => ?_)
    rw [wp_bind]
    cases r with
    | ok u =>
      obtain ⟨ps₁, hb₁⟩ := h₁
      refine wp_mono (dropStream_spec hb₁) fun _ s₂ h₂ => ⟨⟨ps₁, h₂⟩, ?_⟩
      exact nofun
    | error e =>
      obtain ⟨ps₁, es₁, hb₁⟩ := h₁
      refine wp_mono (dropStream_spec hb₁) fun _ s₂ h₂ => ⟨⟨ps₁, es₁, h₂⟩, ?_⟩
      exact nofun
  | .wasip3 (.error error) =>
    have hmessage := (h.acquire (r := .message) trivial (by simp)).release
    have hnot : ∀ addresses, Resolver.wasip3 (.error error) ≠ .wasip3 (.ok addresses) :=
      nofun
    cases error with
    | other text =>
      cases text with
      | true => exact ⟨⟨ps, es, hmessage.setErrno _⟩, fun addresses heq => (hnot _ heq).elim⟩
      | false => exact ⟨⟨ps, es, h.setErrno _⟩, fun addresses heq => (hnot _ heq).elim⟩
    | accessDenied => exact ⟨⟨ps, es, h.setErrno _⟩, fun addresses heq => (hnot _ heq).elim⟩
    | invalidArgument => exact ⟨⟨ps, es, h.setErrno _⟩, fun addresses heq => (hnot _ heq).elim⟩
    | _ => exact ⟨⟨ps, es, h⟩, fun addresses heq => (hnot _ heq).elim⟩
  | .wasip3 (.ok addresses) =>
    rw [resolve, wp_bind]
    refine wp_bind.mpr (wp_mono (addAll_spec (h.acquire (r := .addresses) trivial (by simp))
      addresses) fun r s₁ h₁ => ?_)
    have hiff := h₁.ok_iff
    cases r with
    | error e =>
      refine ⟨h₁.failed (by simp), ?_⟩
      rintro _ ⟨⟩
      exact hiff
    | ok u =>
      obtain ⟨ps₁, hb₁⟩ := h₁.built rfl
      refine ⟨⟨ps₁, hb₁.release⟩, ?_⟩
      rintro _ ⟨⟩
      exact hiff

/-! ## `freeaddrinfo` -/

variable {p : Nat} {n : AddrInfo}

theorem State.owned_cons (s : State) (hn : s.nodes p = some n)
    (ps : List Nat) : s.owned (p :: ps) = n.resources p ++ s.owned ps := by
  simp [State.owned, hn]

theorem State.owned_congr {s s' : State} (h : ∀ p ∈ ps, s'.nodes p = s.nodes p) :
    s'.owned ps = s.owned ps :=
  List.flatMap_congr fun p hp => by rw [h p hp]

/-- Everything in a list is given back. -/
theorem releaseAll {log : List (Linear.Event Resource)} {rs : List Resource}
    (h : Linear.Holds log (rs ++ held)) :
    Linear.Holds (log ++ rs.map Linear.Event.release) held := by
  induction rs generalizing log with
  | nil => simpa using h
  | cons r rs ih =>
    have hfirst : Linear.Holds (log ++ [.release r]) (rs ++ held) := h.giveUp (.inl rfl)
    simpa using ih hfirst

theorem wp_node {Q : AddrInfo → State → Prop} (hn : s.nodes p = some n) :
    wp ok (node p) Q s ↔ Q n s := by
  unfold node
  rw [wp_bind, wp_get, hn]
  rfl

@[simp] theorem freeLoop_none (turns : Nat) : freeLoop turns none = pure ⟨⟩ := by
  cases turns <;> rfl

/-- One turn of the loop. -/
theorem wp_freeLoop_some {turns : Nat} {Q : PUnit → State → Prop}
    (hn : s.nodes p = some n) :
    wp ok (freeLoop (turns + 1) (some p)) Q s ↔ wp ok (freeLoop turns n.aiNext) Q { s with
      log := s.log ++ (n.resources p).map .release
      nodes := update s.nodes p none } := by
  rw [freeLoop, wp_bind, wp_node hn]
  cases hname : n.aiCanonname <;>
    simp [wp_bind, free, release, hname, AddrInfo.resources]

/-- The loop gives back what belongs to the nodes, and nothing else. -/
theorem freeLoop_spec {turns : Nat} {p : Option Nat} (hchain : Chain AddrInfo.aiNext s.nodes p ps)
    (hnodup : ps.Nodup) (hturns : ps.length ≤ turns)
    (hholds : Linear.Holds s.log (s.owned ps ++ held)) :
    wp ok (freeLoop turns p) (fun _ s' => Linear.Holds s'.log held ∧ s'.res = s.res) s := by
  induction ps generalizing turns p s with
  | nil =>
    have hp : p = none := hchain
    rw [hp, freeLoop_none]
    exact ⟨by simpa [State.owned] using hholds, rfl⟩
  | cons p ps ih =>
    obtain ⟨rfl, n, hn, hrest⟩ := hchain
    obtain ⟨hnotMem, hnodup⟩ := List.nodup_cons.mp hnodup
    obtain ⟨turns, rfl⟩ : ∃ k, turns = k + 1 := by
      refine ⟨turns - 1, ?_⟩
      rw [List.length_cons] at hturns
      omega
    have hframe : ∀ p' ∈ ps, update s.nodes p none p' = s.nodes p' := by
      intro p' hp'
      have hne : p' ≠ p := ne_of_mem_of_not_mem hp' hnotMem
      exact update_of_ne hne ..
    rw [wp_freeLoop_some hn]
    refine ih (hrest.frame hframe) hnodup (Nat.le_of_succ_le_succ hturns) ?_
    rw [State.owned_cons s hn, List.append_assoc] at hholds
    rw [State.owned_congr hframe]
    exact releaseAll hholds

/-- `freeaddrinfo` of a list. -/
theorem freeaddrinfo_spec {p : Option Nat} (hchain : Chain AddrInfo.aiNext s.nodes p ps)
    (hnodup : ps.Nodup) (hbelow : ∀ p ∈ ps, p < s.allocated)
    (hholds : Linear.Holds s.log (s.owned ps ++ held)) :
    wp ok (freeaddrinfo p) (fun _ s' => Linear.Holds s'.log held ∧ s'.res = s.res) s := by
  have hlength : ps.length ≤ s.allocated := by
    have hsub : ps ⊆ List.range s.allocated := fun p hp => List.mem_range.mpr (hbelow p hp)
    simpa using (List.subperm_of_subset hnodup hsub).length_le
  unfold freeaddrinfo
  rw [wp_bind, wp_get]
  exact freeLoop_spec hchain hnodup hlength hholds

/-! ## The call -/

/-- The caller has the list of the entries `es`, and nothing else is held. -/
structure Returned (s : State) (ps : List Nat) (es : List Entry) : Prop where
  chain : Chain AddrInfo.aiNext s.nodes s.res ps
  nodup : ps.Nodup
  below : ∀ p ∈ ps, p < s.allocated
  entries : ps.map s.entryAt = es.map some
  nonempty : es ≠ []
  holds : Linear.Holds s.log (s.owned ps)

/-- How `hand` ends. -/
def Handed (es : List Entry) : Except Eai Unit → State → Prop
  | .ok _, s => s.result = none ∧ ∃ ps, Returned s ps es
  | .error _, s => ∃ ps, Built s ps es []

theorem Built.returned (h : Built s ps es []) (hps : ps ≠ []) :
    Returned { s with res := s.result, result := none } ps es := by
  refine ⟨h.chain, h.nodup, h.below, h.entries, ?_, ?_⟩
  · rintro rfl
    exact hps (List.map_eq_nil_iff.mp h.entries)
  · have hholds := h.holds
    rwa [List.append_nil] at hholds

/-- The first node gets the name. -/
theorem Built.returned_named (h : Built s (p :: ps) es [])
    (hn : s.nodes p = some n) :
    Returned { s with
      allocated := s.allocated + 1
      log := s.log ++ [.acquire (.canonname s.allocated)]
      nodes := update s.nodes p (some { n with aiCanonname := some s.allocated })
      res := s.result, result := none } (p :: ps) es := by
  obtain ⟨hnotMem, -⟩ := List.nodup_cons.mp h.nodup
  refine ⟨h.chain.relink hn rfl, h.nodup, fun p' hp' => Nat.lt_succ_of_lt (h.below p' hp'), ?_, ?_,
    ?_⟩
  · rw [← h.entries]
    refine List.map_congr_left fun p' _ => ?_
    by_cases hp' : p' = p
    · subst hp'
      simp [State.entryAt, hn]
    · simp [State.entryAt, update_of_ne hp']
  · rintro rfl
    exact List.cons_ne_nil _ _ (List.map_eq_nil_iff.mp h.entries)
  · have hname := h.holds.acquire (h.notMem (r := .canonname s.allocated) (Nat.lt_irrefl _))
    have hunnamed := h.unnamed p List.mem_cons_self n hn
    rw [List.append_nil, State.owned_cons s hn] at hname
    rw [State.owned_cons _ (update_self ..), State.owned_congr fun p' hp' =>
      update_of_ne (ne_of_mem_of_not_mem hp' hnotMem) ..]
    simpa [AddrInfo.resources, hunnamed] using hname

theorem hand_spec (h : Built s ps es []) (host : Option (List UInt8)) :
    wp ok (hand env q host) (Handed es) s := by
  unfold hand
  rw [wp_bind, wp_get]
  cases ps with
  | nil =>
    have hresult : s.result = none := h.chain
    rw [hresult]
    exact ⟨[], h⟩
  | cons p ps =>
    obtain ⟨hresult, n, hn, -⟩ := id h.chain
    rw [hresult]
    simp only
    by_cases hname : host ≠ none ∧ q.flags &&& AI_CANONNAME ≠ 0
    · rw [if_pos hname, wp_bind, wp_malloc]
      by_cases hm : env.mallocs s.allocated = true
      · rw [if_pos hm, wp_bind]
        refine (wp_node (by exact hn)).mpr ?_
        exact ⟨rfl, _, h.returned_named hn⟩
      · -- the name of the node is still NULL
        have hnodes : update s.nodes p (some { n with aiCanonname := none }) = s.nodes := by
          rw [update_eq_self_iff, hn, ← h.unnamed p List.mem_cons_self n hn]
        have hgrow := h.grow (Nat.le_succ s.allocated) h.holds
        rw [← hnodes] at hgrow
        rw [if_neg hm, wp_bind]
        refine (wp_node (by exact hn)).mpr ?_
        exact ⟨p :: ps, hgrow⟩
    · rw [if_neg hname]
      exact ⟨rfl, _, h.returned (List.cons_ne_nil _ _)⟩

/-- The addresses of the list. -/
def Query.addresses (q : Query) (resolver : Resolver) : List IpAddress :=
  if q.locals ≠ [] then q.locals else resolver.addresses

/-- The list of addresses of wasip3 is left behind: an allocation for one of
its nodes fails. -/
def Query.Leaks (q : Query) (env : Env) (hint : Option Hint) (resolver : Resolver) : Prop :=
  q.locals = [] ∧ ∃ addresses, resolver = .wasip3 (.ok addresses) ∧
    ¬ ∀ i < 2 * (addresses.flatMap (entriesOf q hint)).length, env.mallocs i = true

/-- How `makeList` ends if nothing is left behind. -/
def Made (es : List Entry) : Except Eai Unit → State → Prop
  | .ok _, s => s.result = none ∧ ∃ ps, Returned s ps es
  | .error _, s => ∃ ps es', Built s ps es' []

theorem Handed.made {r : Except Eai Unit} (h : Handed es r s) : Made es r s := by
  cases r with
  | ok u => exact h
  | error e =>
    obtain ⟨ps, hb⟩ := h
    exact ⟨ps, es, hb⟩

theorem makeList_spec (h : Built s [] [] []) (hpoll : s.pollable = false)
    (halloc : s.allocated = 0) (resolver : Resolver) (host : Option (List UInt8)) :
    wp resolver.Stops (makeList env resolver q host hint) (fun r s' =>
      (q.Leaks env hint resolver ∧ r ≠ .ok () ∧ ∃ ps es, Built s' ps es [.addresses]) ∨
      (¬ q.Leaks env hint resolver ∧
        Made ((q.addresses resolver).flatMap (entriesOf q hint)) r s')) s := by
  unfold makeList Query.addresses
  rw [wp_bind]
  unfold addAddresses
  by_cases hlocals : q.locals ≠ []
  · rw [if_pos hlocals, if_pos hlocals]
    have hnot : ¬ q.Leaks env hint resolver := fun hleak => hlocals hleak.1
    refine wp_mono (addAll_spec h q.locals) fun r s₁ h₁ => ?_
    cases r with
    | error e => exact .inr ⟨hnot, h₁.failed (by simp)⟩
    | ok u =>
      obtain ⟨ps₁, hb₁⟩ := h₁.built rfl
      exact wp_mono (hand_spec hb₁ host) fun r s₂ h₂ => .inr ⟨hnot, h₂.made⟩
  · rw [if_neg hlocals, if_neg hlocals]
    refine wp_mono (resolve_spec h hpoll resolver) fun r s₁ h₁ => ?_
    obtain ⟨h₁, hiff⟩ := h₁
    simp only [halloc, Nat.zero_add] at hiff
    cases r with
    | error e =>
      match resolver with
      | .wasip2 _ _ =>
        refine .inr ⟨?_, h₁⟩
        rintro ⟨-, addresses, ⟨⟩, -⟩
      | .wasip3 (.error _) =>
        refine .inr ⟨?_, h₁⟩
        rintro ⟨-, addresses, ⟨⟩, -⟩
      | .wasip3 (.ok addresses) =>
        refine .inl ⟨⟨not_not.mp hlocals, addresses, rfl, ?_⟩, by simp, h₁⟩
        exact mt (hiff addresses rfl).mpr (by simp)
    | ok u =>
      obtain ⟨ps₁, hb₁⟩ := h₁
      refine wp_mono (hand_spec hb₁ host) fun r s₂ h₂ => .inr ⟨?_, h₂.made⟩
      rintro ⟨-, addresses, heq, hnot⟩
      exact hnot ((hiff addresses heq).mp rfl)

theorem Eai.code_ne_zero (e : Eai) : e.code ≠ 0 := by
  cases e <;> decide

/-- How a call may end. -/
inductive Ended (env : Env) (resolver : Resolver) (host serv : Option (List UInt8))
    (hint : Option Hint) (code : Int) (s : State) : Prop where
  | refused {e : Eai} (hprepare : prepare env host serv hint = .error e) (hcode : code ≠ 0)
      (hres : s.res = none) (hholds : Linear.Holds s.log [])
  | leaked {q : Query} (hprepare : prepare env host serv hint = .ok q)
      (hleaks : q.Leaks env hint resolver) (hcode : code ≠ 0) (hres : s.res = none)
      (hholds : Linear.Holds s.log [.addresses])
  | failed {q : Query} (hprepare : prepare env host serv hint = .ok q)
      (hleaks : ¬ q.Leaks env hint resolver) (hcode : code ≠ 0) (hres : s.res = none)
      (hholds : Linear.Holds s.log [])
  | returned {q : Query} {ps : List Nat} (hprepare : prepare env host serv hint = .ok q)
      (hleaks : ¬ q.Leaks env hint resolver) (hcode : code = 0)
      (hlist : Returned s ps ((q.addresses resolver).flatMap (entriesOf q hint)))

/-- The deferred `freeaddrinfo` of a list that is not handed out. -/
theorem Built.freed (h : Built s ps es held) :
    wp ok (freeaddrinfo s.result)
      (fun _ s' => Linear.Holds s'.log held ∧ s'.res = none) s := by
  have hfree : wp ok (freeaddrinfo s.result) _ s :=
    freeaddrinfo_spec h.chain h.nodup h.below h.holds
  rwa [h.res] at hfree

theorem getaddrinfo_spec (env : Env) (resolver : Resolver) (host serv : Option (List UInt8))
    (hint : Option Hint) (res : Option Nat) :
    wp resolver.Stops (getaddrinfo env resolver host serv hint)
      (Ended env resolver host serv hint) (State.start res) := by
  unfold getaddrinfo
  rw [wp_bind, wp_modify]
  cases hprepare : prepare env host serv hint with
  | error e => exact .refused hprepare e.code_ne_zero rfl .nil
  | ok q =>
    have hstart : Built { State.start res with res := none } [] [] [] :=
      ⟨rfl, rfl, .nil, by simp, by simp [State.owned], by simp, rfl, .nil, rfl⟩
    rw [wp_bind]
    refine wp_mono (makeList_spec hstart rfl rfl resolver host) fun r s₁ h₁ => ?_
    rw [wp_bind, wp_get, wp_bind]
    rcases h₁ with ⟨hleaks, hr, ps, es, hb⟩ | ⟨hleaks, hmade⟩
    · refine wp_mono hb.freed fun _ s₂ h₂ => ?_
      cases r with
      | error e => exact .leaked hprepare hleaks e.code_ne_zero h₂.2 h₂.1
      | ok u => exact absurd rfl hr
    · cases r with
      | error e =>
        obtain ⟨ps, es, hb⟩ := hmade
        exact wp_mono hb.freed fun _ s₂ h₂ => .failed hprepare hleaks e.code_ne_zero h₂.2 h₂.1
      | ok u =>
        obtain ⟨hresult, ps, hlist⟩ := hmade
        rw [hresult]
        unfold freeaddrinfo
        rw [wp_bind, wp_get, freeLoop_none]
        exact .returned hprepare hleaks rfl hlist

end WasiLibc.Netdb
