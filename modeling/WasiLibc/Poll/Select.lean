import WasiLibc.Poll.Counting

/-!
# WasiLibc.Poll.Select

`pselect`: the three sets are merged into one array of entries for `ppoll`,
one for each descriptor, and filled again from what it reports.

A set is the array of its members, which has room for `FD_SETSIZE` of them;
to write behind it is a fault of the model.  All the sets that are NULL are
one local set, which is written and counted like the others.
-/

namespace WasiLibc.Poll

open Errno Function Wp

/-! ## The sets -/

def FD_SETSIZE : Nat := 1024

/-- `fd_set`. -/
structure FdSet where
  fds : List Int
  bounded : fds.length ≤ FD_SETSIZE

/-- `FD_ZERO`. -/
def FdSet.zero : FdSet := ⟨[], Nat.zero_le _⟩

/-- `set->__fds[set->__nfds++] = fd`. -/
def FdSet.push (set : FdSet) (fd : Int) : Except Fault FdSet :=
  if h : set.fds.length < FD_SETSIZE then
    .ok ⟨set.fds ++ [fd], by simpa using Nat.succ_le_of_lt h⟩
  else .error .trap

/-- The arguments of `pselect` that point to sets. -/
inductive Arg where
  | readfds
  | writefds
  | errorfds
deriving DecidableEq, Repr

/-- `sets[s].events`. -/
def Arg.events : Arg → Events
  | .readfds => POLLRDNORM
  | .writefds => POLLWRNORM
  | .errorfds => POLLPRI

def Arg.all : List Arg := [.readfds, .writefds, .errorfds]

/-- The sets in memory: those of the caller, and the local one. -/
structure Sets where
  given : Arg → Option FdSet
  empty : FdSet

namespace Sets

/-- The set that the argument points to, with the local set for NULL. -/
def get (s : Sets) (a : Arg) : FdSet := (s.given a).getD s.empty

/-- A write through the argument. -/
def set (s : Sets) (a : Arg) (new : FdSet) : Sets :=
  match s.given a with
  | some _ => { s with given := fun b => if b = a then some new else s.given b }
  | none => { s with empty := new }

/-- `FD_ZERO` for every argument. -/
def zero (s : Sets) : Sets := Arg.all.foldl (fun s a => s.set a .zero) s

/-- The sum of the cardinalities. -/
def count (s : Sets) : Nat :=
  (s.get .readfds).fds.length + (s.get .writefds).fds.length + (s.get .errorfds).fds.length

end Sets

/-! ## The call -/

/-- Combines the event with those of the entry of the descriptor, or appends
an entry for it. -/
def addEvents (fd : Int) (events : Events) : List PollFd → List PollFd
  | [] => [⟨fd, 0 ||| events, 0⟩]
  | p :: ps =>
    if p.fd = fd then { p with events := p.events ||| events } :: ps
    else p :: addEvents fd events ps

/-- The loop over the members of one set. -/
def addSet (nfds : Int) (events : Events) (fds : List Int) (poll : List PollFd) : List PollFd :=
  fds.foldl (fun poll fd => if fd ≥ nfds then poll else addEvents fd events poll) poll

/-- The array `poll_fds`. -/
def pollFds (nfds : Int) (s : Sets) : List PollFd :=
  Arg.all.foldl (fun poll a => addSet nfds a.events (s.get a).fds poll) []

/-- Appends the entry to one set if it is ready for the event of the set. -/
def reportTo (p : PollFd) (s : Sets) (a : Arg) : Except Fault Sets :=
  if p.revents.Has a.events then do
    return s.set a (← (s.get a).push p.fd)
  else return s

/-- The last loop, which fills the sets. -/
def fill (s : Sets) (poll : List PollFd) : Except Fault Sets :=
  poll.foldlM (fun s p => Arg.all.foldlM (reportTo p) s) s

/-- `pselect`, over what `ppoll` does with the entries. -/
def pselect (ppoll : List PollFd → Except Fault (Except Errno Nat × List PollFd)) (nfds : Int)
    (given : Arg → Option FdSet) : Except Fault (Except Errno Nat × Sets) := do
  let s : Sets := ⟨given, .zero⟩
  if nfds < 0 then
    return (.error EINVAL, s)
  let (result, poll) ← ppoll (pollFds nfds s)
  match result with
  | .error e => return (.error e, s)
  | .ok _ =>
    if poll.any fun p => p.revents.Has POLLNVAL then
      return (.error EBADF, s)
    let s ← fill s.zero poll
    return (.ok s.count, s)

/-- A system on which `pselect` runs: a target with the state of the host and
of the objects. -/
inductive System where
  | wasip1 (answer : Preview1.Answer)
  | wasip2 (table : Nat → Option Nat) (w : Preview2.World)
  | wasip3 (table : Nat → Option Nat) (w : Preview3.World)

namespace System

/-- The call of `ppoll`: its result, and the entries afterwards. -/
def ppoll (sys : System) (timeout : Option Timespec) (fds : List PollFd) :
    Except Fault (Except Errno Nat × List PollFd) :=
  match sys with
  | .wasip1 answer => (Preview1.call answer timeout fds).map fun r => (r.1, r.2.fds)
  | .wasip2 table w => (Preview2.call table w timeout fds).map fun r => (r.1, r.2.fds)
  | .wasip3 table w => (Preview3.call table w timeout fds).map fun r => (r.1, r.2.fds)

/-- The descriptors that are open, as far as the library knows. -/
def opened : System → Int → Prop
  | .wasip1 _ => fun _ => True
  | .wasip2 table _ => Opened table
  | .wasip3 table _ => Opened table

/-- The descriptor is found not to be open in a call of `ppoll`: on wasip1 it
is for the host to say so. -/
def Closed (sys : System) (timeout : Option Timespec) (fds : List PollFd) (fd : Int) : Prop :=
  match sys with
  | .wasip1 answer => ∃ events n s, answer = .ok events ∧
      Preview1.call answer timeout fds = .ok (.ok n, s) ∧
      ∃ e ∈ events, e.error = some EBADF ∧ ∃ cur type p,
        s.regs[e.subscription]? = some (.fd cur type) ∧ s.fds[cur]? = some p ∧ p.fd = fd
  | .wasip2 table _ => ¬ Opened table fd
  | .wasip3 table _ => ¬ Opened table fd

end System

/-! ## The entries -/

/-- Some entry of the descriptor asks for an event of `m`. -/
def AsksFor (poll : List PollFd) (fd : Int) (m : Events) : Prop :=
  ∃ p ∈ poll, p.fd = fd ∧ p.events.Has m

variable {poll : List PollFd} {a : Arg} {fds : List PollFd}

theorem asksFor_cons {p : PollFd} {fd : Int} {m : Events} :
    AsksFor (p :: poll) fd m ↔ p.fd = fd ∧ p.events.Has m ∨ AsksFor poll fd m := by
  simp [AsksFor]

variable {nfds fd fd' : Int} {events m : Events} {poll : List PollFd}

theorem asksFor_addEvents :
    AsksFor (addEvents fd events poll) fd' m ↔
      AsksFor poll fd' m ∨ fd' = fd ∧ events.Has m := by
  induction poll with
  | nil =>
    rw [addEvents, asksFor_cons, has_or, or_iff_right (not_has_zero m)]
    simp [AsksFor, eq_comm]
  | cons p poll ih =>
    rw [addEvents]
    split
    case isTrue h =>
      rw [asksFor_cons, asksFor_cons, has_or]
      grind
    case isFalse h =>
      rw [asksFor_cons, asksFor_cons, ih]
      grind

theorem mem_addEvents :
    fd' ∈ (addEvents fd events poll).map PollFd.fd ↔ fd' ∈ poll.map PollFd.fd ∨ fd' = fd := by
  induction poll with
  | nil => simp [addEvents]
  | cons p poll ih =>
    rw [addEvents]
    split
    case isTrue h => grind
    case isFalse h =>
      rw [List.map_cons, List.mem_cons, ih, List.map_cons, List.mem_cons]
      grind

/-- There is one entry for each descriptor. -/
theorem nodup_addEvents (h : (poll.map PollFd.fd).Nodup) :
    ((addEvents fd events poll).map PollFd.fd).Nodup := by
  induction poll with
  | nil => simp [addEvents]
  | cons p poll ih =>
    rw [List.map_cons, List.nodup_cons] at h
    rw [addEvents]
    split
    case isTrue => exact List.nodup_cons.mpr h
    case isFalse hne =>
      rw [List.map_cons, List.nodup_cons, mem_addEvents]
      exact ⟨not_or.mpr ⟨h.1, hne⟩, ih h.2⟩

/-- The entries after the loop over one set. -/
theorem addSet_spec (nfds : Int) (events : Events) (fds : List Int) (poll : List PollFd) :
    (∀ fd m, AsksFor (addSet nfds events fds poll) fd m ↔
      AsksFor poll fd m ∨ (fd ∈ fds ∧ fd < nfds) ∧ events.Has m) ∧
    (∀ fd, fd ∈ (addSet nfds events fds poll).map PollFd.fd ↔
      fd ∈ poll.map PollFd.fd ∨ fd ∈ fds ∧ fd < nfds) ∧
    ((poll.map PollFd.fd).Nodup → ((addSet nfds events fds poll).map PollFd.fd).Nodup) := by
  induction fds generalizing poll with
  | nil => simp [addSet]
  | cons fd fds ih =>
    have hcons : addSet nfds events (fd :: fds) poll = addSet nfds events fds
        (if fd ≥ nfds then poll else addEvents fd events poll) := rfl
    rw [hcons]
    obtain ⟨hasks, hmem, hnodup⟩ := ih (if fd ≥ nfds then poll else addEvents fd events poll)
    by_cases hge : fd ≥ nfds
    · simp only [if_pos hge] at *
      grind
    · simp only [if_neg hge] at *
      simp only [asksFor_addEvents] at hasks
      simp only [mem_addEvents] at hmem
      refine ⟨?_, ?_, fun h => hnodup (nodup_addEvents h)⟩
      · grind
      · grind

/-- The events of the arguments are different ones. -/
theorem has_events (a b : Arg) : a.events.Has b.events ↔ a = b := by
  cases a <;> cases b <;> decide

/-- Every descriptor below `nfds` has one entry, which asks for the events of
the sets it is in. -/
theorem pollFds_spec (nfds : Int) (s : Sets) :
    (∀ fd a, AsksFor (pollFds nfds s) fd a.events ↔ fd ∈ (s.get a).fds ∧ fd < nfds) ∧
    (∀ fd, fd ∈ (pollFds nfds s).map PollFd.fd ↔ ∃ a, fd ∈ (s.get a).fds ∧ fd < nfds) ∧
    ((pollFds nfds s).map PollFd.fd).Nodup := by
  simp only [pollFds, Arg.all, List.foldl_cons, List.foldl_nil]
  obtain ⟨hr, hr', hr''⟩ := addSet_spec nfds Arg.readfds.events (s.get .readfds).fds []
  obtain ⟨hw, hw', hw''⟩ := addSet_spec nfds Arg.writefds.events (s.get .writefds).fds
    (addSet nfds Arg.readfds.events (s.get .readfds).fds [])
  obtain ⟨he, he', he''⟩ := addSet_spec nfds Arg.errorfds.events (s.get .errorfds).fds
    (addSet nfds Arg.writefds.events (s.get .writefds).fds
      (addSet nfds Arg.readfds.events (s.get .readfds).fds []))
  refine ⟨fun fd a => ?_, fun fd => ?_, he'' (hw'' (hr'' List.nodup_nil))⟩
  · rw [he, hw, hr]
    simp only [has_events]
    cases a <;> simp [AsksFor]
  · rw [he', hw', hr']
    constructor
    · rintro (((h | h) | h) | h)
      · cases h
      · exact ⟨_, h⟩
      · exact ⟨_, h⟩
      · exact ⟨_, h⟩
    · rintro ⟨a, h⟩
      cases a
      · exact .inl (.inl (.inr h))
      · exact .inl (.inr h)
      · exact .inr h

/-! ## The sets afterwards -/

/-- The sets of the caller hold the members `f`, and the local set is empty. -/
structure Holds (given : Arg → Option FdSet) (f : Arg → List Int) (s : Sets) : Prop where
  given : ∀ a, (s.given a).map FdSet.fds = (given a).map fun _ => f a
  empty : s.empty.fds = []

variable {given : Arg → Option FdSet} {f : Arg → List Int} {s : Sets}

theorem Holds.set (h : Holds given f s) (ha : (given a).isSome) (new : FdSet) :
    Holds given (update f a new.fds) (s.set a new) := by
  obtain ⟨old, hold⟩ := Option.isSome_iff_exists.mp ha
  have hsome : ∃ set, s.given a = some set := by
    have := h.given a
    rw [hold, Option.map_some, Option.map_eq_some_iff] at this
    exact this.imp fun _ h => h.1
  obtain ⟨set, hset⟩ := hsome
  refine ⟨fun b => ?_, ?_⟩
  · simp only [Sets.set, hset]
    by_cases hb : b = a
    · subst hb
      simp [hold]
    · simp [hb, h.given b]
  · simp only [Sets.set, hset]
    exact h.empty

/-- `FD_ZERO` also clears the local set, which is empty anyway. -/
theorem Holds.setZero (h : Holds given f s) (a : Arg) :
    Holds given (update f a []) (s.set a .zero) := by
  cases ha : given a with
  | some set => exact h.set (by rw [ha]; rfl) .zero
  | none =>
    have hnone : s.given a = none := by simpa [ha] using h.given a
    refine ⟨fun b => ?_, by simp [Sets.set, hnone, FdSet.zero]⟩
    simp only [Sets.set, hnone]
    by_cases hb : b = a
    · subst hb
      simp [ha, hnone]
    · simp [hb, h.given b]

/-- The members of the sets of the caller, with none for NULL. -/
def members (given : Arg → Option FdSet) (a : Arg) : List Int := ((given a).map FdSet.fds).getD []

theorem holds_given (given : Arg → Option FdSet) : Holds given (members given) ⟨given, .zero⟩ := by
  refine ⟨fun a => ?_, rfl⟩
  cases ha : given a <;> simp [members, ha]

theorem holds_zero (given : Arg → Option FdSet) :
    Holds given (fun _ => []) (Sets.zero ⟨given, .zero⟩) := by
  have h := (((holds_given given).setZero .readfds).setZero .writefds).setZero .errorfds
  have heq : update (update (update (members given) .readfds [])
      .writefds []) .errorfds [] = fun _ => [] := by
    funext a
    cases a <;> simp [update]
  rwa [heq] at h

theorem FdSet.push_ok {set : FdSet} (fd : Int) (h : set.fds.length < FD_SETSIZE) :
    ∃ new, set.push fd = .ok new ∧ new.fds = set.fds ++ [fd] := by
  unfold push
  exact ⟨_, dif_pos h, rfl⟩

/-- The members that an entry adds to a set. -/
def added (p : PollFd) (a : Arg) : List Int := if p.revents.Has a.events then [p.fd] else []

/-- An entry is appended to a set that is there and has room for it. -/
theorem reportTo_ok (h : Holds given f s) (p : PollFd) (a : Arg)
    (hroom : p.revents.Has a.events → (given a).isSome ∧ (f a).length < FD_SETSIZE) :
    ∃ s', reportTo p s a = .ok s' ∧ Holds given (update f a (f a ++ added p a)) s' := by
  unfold reportTo added
  by_cases hhas : p.revents.Has a.events
  · obtain ⟨hsome, hlt⟩ := hroom hhas
    obtain ⟨set, hset⟩ := Option.isSome_iff_exists.mp hsome
    have hget : (s.get a).fds = f a := by
      have hmap := h.given a
      rw [hset, Option.map_some, Option.map_eq_some_iff] at hmap
      obtain ⟨set', hset', hfds⟩ := hmap
      simp [Sets.get, hset', hfds]
    obtain ⟨new, hpush, hnew⟩ := FdSet.push_ok p.fd (show (s.get a).fds.length < FD_SETSIZE by rw [hget]; exact hlt)
    refine ⟨s.set a new, by rw [if_pos hhas, hpush]; rfl, ?_⟩
    rw [if_pos hhas, ← hget, ← hnew]
    exact h.set hsome new
  · refine ⟨s, by rw [if_neg hhas]; rfl, ?_⟩
    rwa [if_neg hhas, List.append_nil, update_eq_self]

/-- One turn of the last loop. -/
theorem reportAll_ok (h : Holds given f s) (p : PollFd)
    (hroom : ∀ a, p.revents.Has a.events → (given a).isSome ∧ (f a).length < FD_SETSIZE) :
    ∃ s', Arg.all.foldlM (reportTo p) s = .ok s' ∧ Holds given (fun a => f a ++ added p a) s' := by
  obtain ⟨s₁, h₁, hs₁⟩ := reportTo_ok h p .readfds (hroom _)
  obtain ⟨s₂, h₂, hs₂⟩ := reportTo_ok hs₁ p .writefds (by simpa using hroom .writefds)
  obtain ⟨s₃, h₃, hs₃⟩ := reportTo_ok hs₂ p .errorfds (by simpa using hroom .errorfds)
  refine ⟨s₃, ?_, ?_⟩
  · simp only [Arg.all, List.foldlM_cons, List.foldlM_nil, bind, Except.bind, h₁, h₂, h₃]
    rfl
  · convert hs₃ using 1
    funext a
    cases a <;> simp [update]

/-- The descriptors that are reported for a set. -/
def reported (poll : List PollFd) (a : Arg) : List Int := poll.flatMap fun p => added p a

/-- The last loop puts into each set what is reported for it. -/
theorem fill_ok (h : Holds given f s) (poll : List PollFd)
    (hroom : ∀ a, reported poll a ≠ [] →
      (given a).isSome ∧ (f a ++ reported poll a).length ≤ FD_SETSIZE) :
    ∃ s', fill s poll = .ok s' ∧ Holds given (fun a => f a ++ reported poll a) s' := by
  induction poll generalizing f s with
  | nil => exact ⟨s, rfl, by simpa [reported] using h⟩
  | cons p poll ih =>
    have hcons : ∀ a, reported (p :: poll) a = added p a ++ reported poll a := fun a => by
      simp [reported]
    obtain ⟨s₁, h₁, hs₁⟩ := reportAll_ok h p fun a hhas => by
      have hadd : added p a = [p.fd] := if_pos hhas
      obtain ⟨hsome, hle⟩ := hroom a (by rw [hcons, hadd]; simp)
      rw [hcons, hadd] at hle
      simp only [List.length_append, List.length_cons] at hle
      exact ⟨hsome, by omega⟩
    obtain ⟨s₂, h₂, hs₂⟩ := ih hs₁ fun a hne => by
      obtain ⟨hsome, hle⟩ := hroom a (by rw [hcons]; simp [hne])
      rw [hcons, ← List.append_assoc] at hle
      exact ⟨hsome, hle⟩
    refine ⟨s₂, ?_, ?_⟩
    · unfold fill at h₂ ⊢
      rw [List.foldlM_cons, h₁]
      exact h₂
    · simpa only [hcons, List.append_assoc] using hs₂

/-! ## The interface over `ppoll` -/

/-- `ppoll` has reported the descriptor ready for the event of the set. -/
def Ready (poll : List PollFd) (fd : Int) (a : Arg) : Prop :=
  ∃ p ∈ poll, p.fd = fd ∧ p.revents.Has a.events

theorem mem_reported : fd ∈ reported poll a ↔ Ready poll fd a := by
  simp only [reported, List.mem_flatMap, added, Ready]
  refine exists_congr fun p => and_congr_right fun _ => ?_
  split
  case isTrue h => simp [h, eq_comm]
  case isFalse h => simp [h]

theorem reported_sublist (poll : List PollFd) (a : Arg) :
    (reported poll a).Sublist (poll.map PollFd.fd) := by
  induction poll with
  | nil => exact List.Sublist.refl _
  | cons p poll ih =>
    have hcons : reported (p :: poll) a = added p a ++ reported poll a := by simp [reported]
    rw [hcons, List.map_cons, added]
    split
    · exact ih.cons_cons p.fd
    · exact ih.cons p.fd

theorem exists_of_map_fds {ρ ω : Type} {r : Except Fault (Except Errno Nat × State ρ ω)}
    {result : Except Errno Nat}
    (h : (r.map fun r => (r.1, r.2.fds)) = .ok (result, poll)) :
    ∃ s, r = .ok (result, s) ∧ s.fds = poll := by
  match r, h with
  | .ok (result, s), h =>
    cases h
    exact ⟨s, rfl, rfl⟩

/-- What a successful `ppoll` reports, on any target. -/
theorem System.reports (sys : System) {timeout : Option Timespec} {n : Nat}
    (h : sys.ppoll timeout fds = .ok (.ok n, poll)) :
    poll.map PollFd.asks = fds.map PollFd.asks ∧ ∀ p ∈ poll, p.Fits sys.opened := by
  cases sys with
  | wasip1 answer =>
    obtain ⟨s, hrun, rfl⟩ := exists_of_map_fds h
    exact ⟨(Preview1.reported_call hrun).asks, (Preview1.reported_call hrun).fits⟩
  | wasip2 table w =>
    obtain ⟨s, hrun, rfl⟩ := exists_of_map_fds h
    exact ⟨(Preview2.reported_call hrun).asks, (Preview2.reported_call hrun).fits⟩
  | wasip3 table w =>
    obtain ⟨s, hrun, rfl⟩ := exists_of_map_fds h
    exact ⟨(Preview3.reported_call hrun).asks, (Preview3.reported_call hrun).fits⟩

/-! ### The answers of wasip1 -/

namespace Preview1

/-- The entries of the events that say `EBADF` are marked. -/
def Flagged (events : List Event) (s : State Subscription Answer) : Prop :=
  ∀ e ∈ events, e.error = some EBADF → ∀ cur type, s.regs[e.subscription]? = some (.fd cur type) →
    ∃ p, s.fds[cur]? = some p ∧ p.revents.Has POLLNVAL

variable {s : State Subscription Answer}

theorem flagged_report {seen : List Event} (h : Flagged seen s)
    (e : Event) : wp anyFault (report e) (fun _ => Flagged (seen ++ [e])) s := by
  unfold report
  rw [wp_bind, wp_get]
  cases hr : s.regs[e.subscription]? with
  | none => trivial
  | some r =>
    cases r with
    | clock timeout =>
      intro e' he' hbad cur type hreg
      rcases List.mem_append.mp he' with he' | he'
      · exact h e' he' hbad cur type hreg
      · cases List.mem_singleton.mp he'
        exact absurd (hr.symm.trans hreg) (by simp)
    | fd cur type =>
      cases hp : s.fds[cur]? with
      | none => simp only [hp]; trivial
      | some p =>
        simp only [hp, wp_modify]
        have hlt : cur < s.fds.length := (List.getElem?_eq_some_iff.mp hp).1
        intro e' he' hbad cur' type' hreg
        by_cases hcur : cur' = cur
        · subst hcur
          refine ⟨_, List.getElem?_set_self hlt, has_or.mpr ?_⟩
          rcases List.mem_append.mp he' with he' | he'
          · obtain ⟨q, hq, hhas⟩ := h e' he' hbad cur' type' hreg
            cases hp.symm.trans hq
            exact .inl hhas
          · cases List.mem_singleton.mp he'
            refine .inr ?_
            simp only [Event.revents, hbad]
            decide
        · rw [List.getElem?_set_ne (Ne.symm hcur)]
          rcases List.mem_append.mp he' with he' | he'
          · exact h e' he' hbad cur' type' hreg
          · cases List.mem_singleton.mp he'
            cases hr.symm.trans hreg
            exact absurd rfl hcur

theorem flagged_reportAll {seen : List Event} (h : Flagged seen s)
    (events : List Event) :
    wp anyFault (reportAll events) (fun _ => Flagged (seen ++ events)) s := by
  induction events generalizing seen s with
  | nil => simpa [reportAll, wp_pure] using h
  | cons e es ih =>
    rw [reportAll, wp_bind]
    refine wp_mono (flagged_report h e) fun _ s' h' => ?_
    simpa using ih h'

/-- `POLLHUP` excludes other events than this one. -/
theorem conclude_nval {l : List PollFd} {cur : Nat}
    (h : ∃ p, l[cur]? = some p ∧ p.revents.Has POLLNVAL) :
    ∃ p, (conclude l).1[cur]? = some p ∧ p.revents.Has POLLNVAL := by
  induction l generalizing cur with
  | nil => simp at h
  | cons p ps ih =>
    obtain ⟨q, hq, hhas⟩ := h
    cases cur with
    | succ cur => exact ih ⟨q, hq, hhas⟩
    | zero =>
      cases hq
      refine ⟨_, rfl, ?_⟩
      split
      · show (_ &&& _) &&& _ ≠ (0 : Events)
        rw [BitVec.and_assoc]
        exact hhas
      · exact hhas

theorem keeps_world (answer : Answer) (i : Nat) (p : PollFd) :
    Keeps anyFault (fun s => s.world = answer) (subscribe i p) := by
  have hadd : ∀ r : Subscription, Keeps anyFault (fun s => s.world = answer)
      (modify fun s => { s with regs := s.regs ++ [r] } : M PUnit) := fun r => .modify fun _ h => h
  have hlast : ∀ (c : Prop) [Decidable c], Keeps anyFault (fun s => s.world = answer)
      (if c then return .error .ENOSYS else return .ok () : M (Except Errno Unit)) :=
    fun _ _ => .ite (fun _ => .pure _) fun _ => .pure _
  have hwrite : ∀ (c d : Prop) [Decidable c] [Decidable d], Keeps anyFault
      (fun s => s.world = answer) (do
        if c then
          modify fun s => { s with regs := s.regs ++ [.fd i .fdWrite] }
        if d then return .error .ENOSYS else return .ok () : M (Except Errno Unit)) :=
    fun _ _ => .ite (fun _ => .bind (hadd _) fun _ => hlast _) fun _ => hlast _
  exact .ite (fun _ => .bind (hadd _) fun _ => hwrite _ _) fun _ => hwrite _ _

theorem flagged_call {events : List Event} {timeout : Option Timespec} {fds : List PollFd}
    {n : Nat}
    (hrun : call (.ok events) timeout fds = .ok (.ok n, s)) : Flagged events s := by
  have himpl : wp anyFault (ppollImpl timeout) (fun r s' => ∀ n, r = .ok n → Flagged events s')
      (start (cleared fds) (.ok events)) := by
    unfold ppollImpl andThen
    rw [wp_bind, wp_get, wp_bind]
    refine wp_mono (keeps_registerEach (fun i p _ _ => keeps_world (.ok events) i p) _ 0
      List.drop_zero _ rfl) fun r s₁ h₁ => ?_
    cases r with
    | error e => exact nofun
    | ok u =>
      rw [wp_bind, wp_modify, wp_bind]
      unfold pollOneoff
      rw [wp_bind, wp_get]
      simp only [h₁]
      rw [wp_bind, wp_require]
      refine ⟨fun _ => ?_, fun _ => trivial⟩
      rw [wp_pure, wp_bind]
      have hnone : ∀ s, Flagged [] s := nofun
      refine wp_mono (flagged_reportAll (hnone _) events) fun _ s₂ h₂ n _ => ?_
      exact fun e he hbad cur type hreg => conclude_nval (h₂ e he hbad cur type hreg)
  rcases ppoll_eq ppollImpl timeout fds (.ok events) with ⟨e, heq⟩ | heq
  · rw [call, StateT.run, heq] at hrun
    cases hrun
  · exact post_of_wp himpl (heq ▸ hrun) n rfl

end Preview1

/-! ### The claim of the interface -/

theorem map_fd_of_asks
    (h : poll.map PollFd.asks = fds.map PollFd.asks) :
    poll.map PollFd.fd = fds.map PollFd.fd := by
  have hfst := congrArg (List.map Prod.fst) h
  rwa [List.map_map, List.map_map] at hfst

/-- The entry of a descriptor that is not open is marked. -/
theorem System.nval_of_closed (sys : System) {timeout : Option Timespec}
    {n : Nat} (h : sys.ppoll timeout fds = .ok (.ok n, poll)) (hfd : fd ∈ fds.map PollFd.fd)
    (hpos : 0 ≤ fd) (hclosed : sys.Closed timeout fds fd) :
    ∃ p ∈ poll, p.revents.Has POLLNVAL := by
  have hunopened : ¬ sys.opened fd → ∃ p ∈ poll, p.revents.Has POLLNVAL := by
    intro hnot
    obtain ⟨hasks, hfits⟩ := sys.reports h
    rw [← map_fd_of_asks hasks] at hfd
    obtain ⟨p, hp, rfl⟩ := List.mem_map.mp hfd
    refine ⟨p, hp, ?_⟩
    rw [(hfits p hp).unopened hpos hnot]
    decide
  cases sys with
  | wasip1 answer =>
    obtain ⟨s, hrun, rfl⟩ := exists_of_map_fds h
    obtain ⟨events, n', s', rfl, hrun', e, he, hbad, cur, type, p, hreg, hp, -⟩ := hclosed
    cases hrun.symm.trans hrun'
    obtain ⟨q, hq, hhas⟩ := Preview1.flagged_call hrun e he hbad cur type hreg
    exact ⟨q, List.mem_of_getElem? hq, hhas⟩
  | wasip2 table w => exact hunopened hclosed
  | wasip3 table w => exact hunopened hclosed

/-- What a successful `pselect` leaves: each set has the members below `nfds`
that are ready for its event, once each, and the result is their number. -/
structure Selected (nfds : Int) (given : Arg → Option FdSet) (poll : List PollFd) (n : Nat)
    (s : Sets) : Prop where
  null : ∀ a, (s.given a).isSome = (given a).isSome
  nodup : ∀ a, (members s.given a).Nodup
  mem : ∀ a fd, fd ∈ members s.given a ↔ (fd ∈ members given a ∧ fd < nfds) ∧ Ready poll fd a
  sum : n = (members s.given .readfds).length + (members s.given .writefds).length +
    (members s.given .errorfds).length

theorem get_fds (given : Arg → Option FdSet) (a : Arg) :
    ((⟨given, .zero⟩ : Sets).get a).fds = members given a := by
  cases ha : given a <;> simp [Sets.get, members, ha, FdSet.zero]

/-- What `ppoll` reports ready was asked for. -/
theorem Ready.requested {given : Arg → Option FdSet} {opened : Int → Prop}
    (hasks : poll.map PollFd.asks = (pollFds nfds ⟨given, .zero⟩).map PollFd.asks)
    (hfits : ∀ p ∈ poll, p.Fits opened) (h : Ready poll fd a) :
    fd ∈ members given a ∧ fd < nfds := by
  obtain ⟨p, hp, rfl, hhas⟩ := h
  have hmask : a.events ∈ maskable := by cases a <;> simp [Arg.events, maskable]
  have hasked : p.events.Has a.events := (hfits p hp).within _ hmask hhas
  have hmem : p.asks ∈ (pollFds nfds ⟨given, .zero⟩).map PollFd.asks :=
    hasks ▸ List.mem_map_of_mem hp
  obtain ⟨q, hq, heq⟩ := List.mem_map.mp hmem
  have hfd : q.fd = p.fd := congrArg Prod.fst heq
  have hevents : q.events = p.events := congrArg Prod.snd heq
  have hfor : AsksFor (pollFds nfds ⟨given, .zero⟩) p.fd a.events :=
    ⟨q, hq, hfd, hevents ▸ hasked⟩
  rw [(pollFds_spec nfds _).1, get_fds] at hfor
  exact hfor

/-- The sets can be filled, since what is reported for a set was in it. -/
theorem fill_selected {given : Arg → Option FdSet} {opened : Int → Prop}
    (hasks : poll.map PollFd.asks = (pollFds nfds ⟨given, .zero⟩).map PollFd.asks)
    (hfits : ∀ p ∈ poll, p.Fits opened) :
    ∃ s, fill (Sets.zero ⟨given, .zero⟩) poll = .ok s ∧ Selected nfds given poll s.count s := by
  have hsub : ∀ a, reported poll a ⊆ members given a := fun a fd hfd =>
    ((mem_reported.mp hfd).requested hasks hfits).1
  have hnodup : ∀ a, (reported poll a).Nodup := fun a => by
    refine (reported_sublist poll a).nodup ?_
    rw [map_fd_of_asks hasks]
    exact (pollFds_spec nfds _).2.2
  have hroom : ∀ a, reported poll a ≠ [] →
      (given a).isSome ∧ ([] ++ reported poll a).length ≤ FD_SETSIZE := by
    intro a hne
    have hle := (List.subperm_of_subset (hnodup a) (hsub a)).length_le
    cases ha : given a with
    | none =>
      rw [members, ha] at hle
      exact absurd (List.length_eq_zero_iff.mp (Nat.le_zero.mp hle)) hne
    | some set =>
      rw [members, ha] at hle
      exact ⟨rfl, Nat.le_trans hle set.bounded⟩
  obtain ⟨s, hfill, hs⟩ := fill_ok (holds_zero given) poll hroom
  have hmembers : ∀ a, members s.given a = reported poll a := by
    intro a
    have hmap := hs.given a
    unfold members
    rw [hmap]
    cases ha : given a with
    | some set => rfl
    | none =>
      have hnil : members given a = [] := by simp [members, ha]
      have := hsub a
      rw [hnil, List.subset_nil] at this
      rw [this]
      rfl
  have hget : ∀ a, (s.get a).fds = members s.given a := by
    intro a
    cases ha : s.given a <;> simp [Sets.get, members, ha, hs.empty]
  refine ⟨s, hfill, ?_, ?_, ?_, ?_⟩
  · intro a
    have hmap := congrArg Option.isSome (hs.given a)
    simpa only [Option.isSome_map] using hmap
  · intro a
    rw [hmembers]
    exact hnodup a
  · intro a fd
    rw [hmembers, mem_reported]
    exact ⟨fun h => ⟨h.requested hasks hfits, h⟩, And.right⟩
  · rw [Sets.count, hget, hget, hget]

theorem pselect_eq (ppoll : List PollFd → Except Fault (Except Errno Nat × List PollFd))
    (hnfds : 0 ≤ nfds) (given : Arg → Option FdSet) :
    pselect ppoll nfds given =
      (ppoll (pollFds nfds ⟨given, .zero⟩)).bind fun (result, poll) =>
        match result with
        | .error e => .ok (.error e, ⟨given, .zero⟩)
        | .ok _ =>
          if poll.any fun p => p.revents.Has POLLNVAL then .ok (.error EBADF, ⟨given, .zero⟩)
          else (fill (Sets.zero ⟨given, .zero⟩) poll).bind fun s => .ok (.ok s.count, s) := by
  unfold pselect
  rw [if_neg (by omega)]
  rfl

/-- `pselect` as a set interface over `ppoll`, on any target.  A failure leaves
the sets of the caller alone.  If `ppoll` fails then so does `pselect`, with
the same error; if it succeeds then a descriptor that is not open makes
`EBADF`, and otherwise the sets are what they should be. -/
theorem pselect_spec (sys : System) (timeout : Option Timespec) (nfds : Int) (hnfds : 0 ≤ nfds)
    (given : Arg → Option FdSet) :
    (∀ e s, pselect (sys.ppoll timeout) nfds given = .ok (.error e, s) → s.given = given) ∧
    (∀ e poll, sys.ppoll timeout (pollFds nfds ⟨given, .zero⟩) = .ok (.error e, poll) →
      pselect (sys.ppoll timeout) nfds given = .ok (.error e, ⟨given, .zero⟩)) ∧
    ∀ n poll, sys.ppoll timeout (pollFds nfds ⟨given, .zero⟩) = .ok (.ok n, poll) →
      ((∃ a, ∃ fd ∈ members given a, 0 ≤ fd ∧ fd < nfds ∧
          sys.Closed timeout (pollFds nfds ⟨given, .zero⟩) fd) →
        pselect (sys.ppoll timeout) nfds given = .ok (.error EBADF, ⟨given, .zero⟩)) ∧
      (pselect (sys.ppoll timeout) nfds given = .ok (.error EBADF, ⟨given, .zero⟩) ∧
          (∃ p ∈ poll, p.revents.Has POLLNVAL) ∨
        ∃ m s, pselect (sys.ppoll timeout) nfds given = .ok (.ok m, s) ∧
          Selected nfds given poll m s) := by
  rw [pselect_eq _ hnfds]
  cases hpoll : sys.ppoll timeout (pollFds nfds ⟨given, .zero⟩) with
  | error fault => simp [Except.bind]
  | ok r =>
    obtain ⟨result, poll⟩ := r
    cases result with
    | error e =>
      refine ⟨?_, ?_, by simp⟩
      · rintro e s ⟨⟩
        rfl
      · rintro e poll ⟨⟩
        rfl
    | ok n =>
      obtain ⟨hasks, hfits⟩ := sys.reports hpoll
      obtain ⟨s, hfill, hsel⟩ := fill_selected hasks hfits
      simp only [Except.bind, hfill]
      by_cases hany : ∃ p ∈ poll, p.revents.Has POLLNVAL
      · rw [if_pos (by simpa using hany)]
        refine ⟨?_, by simp, ?_⟩
        · rintro e s ⟨⟩
          rfl
        · rintro n poll ⟨⟩
          exact ⟨fun _ => rfl, .inl ⟨rfl, hany⟩⟩
      · rw [if_neg (by simpa using hany)]
        refine ⟨by simp, by simp, ?_⟩
        rintro n poll ⟨⟩
        refine ⟨?_, .inr ⟨_, _, rfl, hsel⟩⟩
        rintro ⟨a, fd, hfd, hpos, hlt, hclosed⟩
        refine absurd (sys.nval_of_closed hpoll ?_ hpos hclosed) hany
        rw [(pollFds_spec nfds _).2.1]
        exact ⟨a, by rwa [get_fds], hlt⟩

/-- One argument is a set with one member, and the others are NULL. -/
def oneSet (a : Arg) (fd : Int) : Arg → Option FdSet := fun b =>
  if b = a then some ⟨[fd], Nat.succ_le_succ (Nat.zero_le _)⟩ else none

theorem pselect_spec_pipe :
    ∃ s, pselect (System.ppoll (.wasip3 oneOpen readablePipe) none) 4 (oneSet .readfds 3) =
        .ok (.ok 1, s) ∧
      Selected 4 (oneSet .readfds 3) [⟨3, POLLRDNORM, POLLRDNORM⟩] 1 s := by
  have hpoll : System.ppoll (.wasip3 oneOpen readablePipe) none
      (pollFds 4 ⟨oneSet .readfds 3, .zero⟩) = .ok (.ok 1, [⟨3, POLLRDNORM, POLLRDNORM⟩]) := rfl
  have hspec := (pselect_spec (.wasip3 oneOpen readablePipe) none 4 (by decide)
    (oneSet .readfds 3)).2.2 1 _ hpoll
  obtain ⟨-, ⟨p, hp, hhas⟩⟩ | ⟨m, s, hrun, hsel⟩ := hspec.2
  · cases List.mem_singleton.mp hp
    exact absurd hhas (by decide)
  · have hm : m = 1 := by
      have hfill : (pselect (System.ppoll (.wasip3 oneOpen readablePipe) none) 4
          (oneSet .readfds 3)).map Prod.fst = .ok (.ok 1) := rfl
      rw [hrun] at hfill
      cases hfill
      rfl
    subst hm
    exact ⟨s, hrun, hsel⟩

/-- The error of `ppoll` comes first: descriptor 4 is not open, but only
`POLLPRI` is asked for, or the timeout is not valid. -/
theorem pselect_no_badf :
    ¬ Opened oneOpen 4 ∧
    (pselect (System.ppoll (.wasip3 oneOpen readablePipe) none) 5 (oneSet .errorfds 4)).map
      Prod.fst = .ok (.error ENOSYS) ∧
    (pselect (System.ppoll (.wasip3 oneOpen readablePipe) (some ⟨-1, 0⟩)) 5
      (oneSet .readfds 4)).map Prod.fst = .ok (.error EINVAL) :=
  ⟨by simp [Opened, oneOpen], rfl, rfl⟩

end WasiLibc.Poll
