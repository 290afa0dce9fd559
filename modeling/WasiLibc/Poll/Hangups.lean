import WasiLibc.Poll.Select

/-!
# WasiLibc.Poll.Hangups

What becomes of the events of `poll_oneoff` when `pselect` waits without a
timeout on wasip1.

`ppoll` turns an event into `POLLNVAL`, `POLLHUP`, `POLLERR`, `POLLRDNORM` or
`POLLWRNORM`, and a hangup takes `POLLWRNORM` away again; `pselect` makes an
error of the first and has no set for the next two.  So an event can leave no
trace in the sets (`pselect_shows_iff` says which), and `pselect` then returns
0 although nothing limits its wait.
-/

namespace WasiLibc.Poll

open Errno Wp

namespace Preview1

/-! ## The subscriptions -/

/-- The subscriptions of the entry at `i`. -/
def subscriptionsOf (i : Nat) (p : PollFd) : List Subscription :=
  if p.fd < 0 then []
  else (if p.events.Has POLLRDNORM then [.fd i .fdRead] else []) ++
    if p.events.Has POLLWRNORM then [.fd i .fdWrite] else []

/-- The subscriptions of the entries, the first of which is at `i`. -/
def subscriptions : Nat → List PollFd → List Subscription
  | _, [] => []
  | i, p :: ps => subscriptionsOf i p ++ subscriptions (i + 1) ps

/-- An entry that can be subscribed to, or asks for nothing. -/
def Plain (p : PollFd) : Prop :=
  p.events.Has POLLRDNORM ∨ p.events.Has POLLWRNORM ∨ strip p.events = 0

variable {fds : List PollFd} {events seen : List Event} {cur : Nat} {m : Events}

theorem strip_has (e : Events) (hm : ~~~POLLPRI &&& m = m) : (strip e).Has m ↔ e.Has m := by
  unfold strip Events.Has
  rw [BitVec.and_assoc, hm]

variable {p : PollFd} {e : Event} {s : State Subscription Answer} {r : Events}

theorem subscribe_eq (hp : Plain p) (hfd : ¬ p.fd < 0) (i : Nat)
    (s : State Subscription Answer) :
    subscribe i p s = .ok (.ok (), { s with regs := s.regs ++ subscriptionsOf i p }) := by
  have hr := strip_has p.events (m := POLLRDNORM) (by decide)
  have hw := strip_has p.events (m := POLLWRNORM) (by decide)
  have hlast : ¬ (¬ ((strip p.events).Has POLLRDNORM ∨ (strip p.events).Has POLLWRNORM) ∧
      strip p.events ≠ 0) := by
    rw [hr, hw]
    unfold Plain at hp
    grind
  have hregs : ∀ l, s.regs ++ (l ++ []) = s.regs ++ l := fun l => by rw [List.append_nil]
  unfold subscribe subscriptionsOf
  rw [if_neg hfd]
  by_cases hread : p.events.Has POLLRDNORM <;> by_cases hwrite : p.events.Has POLLWRNORM
  · rw [if_pos (hr.mpr hread), if_pos (hw.mpr hwrite), if_neg hlast, if_pos hread, if_pos hwrite,
      ← List.append_assoc]
    rfl
  · rw [if_pos (hr.mpr hread), if_neg (mt hw.mp hwrite), if_neg hlast, if_pos hread,
      if_neg hwrite, hregs]
    rfl
  · rw [if_neg (mt hr.mp hread), if_pos (hw.mpr hwrite), if_neg hlast, if_neg hread,
      if_pos hwrite]
    rfl
  · rw [if_neg (mt hr.mp hread), if_neg (mt hw.mp hwrite), if_neg hlast, if_neg hread,
      if_neg hwrite, hregs, List.append_nil]
    rfl

theorem registerEach_subscribe (h : ∀ p ∈ fds, Plain p) (i : Nat)
    (s : State Subscription Answer) :
    registerEach subscribe i fds s =
      .ok (.ok (), { s with regs := s.regs ++ subscriptions i fds }) := by
  induction fds generalizing i s with
  | nil =>
    rw [subscriptions, List.append_nil]
    rfl
  | cons p ps ih =>
    have hps := ih fun q hq => h q (List.mem_cons_of_mem p hq)
    rw [registerEach, subscriptions, ← List.append_assoc]
    by_cases hfd : p.fd < 0
    · rw [if_pos hfd, hps, subscriptionsOf, if_pos hfd, List.append_nil]
    · have hbind : ∀ g : Unit → M (Except Errno Unit), andThen (subscribe i p) g s =
          g () { s with regs := s.regs ++ subscriptionsOf i p } := fun g => by
        show (subscribe i p s >>= _) = _
        rw [subscribe_eq (h p List.mem_cons_self) hfd]
        rfl
      rw [if_neg hfd, hbind, hps]

/-- A subscription is that of an entry. -/
theorem mem_subscriptions {i : Nat} {r : Subscription} (h : r ∈ subscriptions i fds) :
    ∃ k type p, r = .fd (i + k) type ∧ fds[k]? = some p ∧ 0 ≤ p.fd ∧
      (p.events.Has POLLRDNORM ∨ p.events.Has POLLWRNORM) := by
  induction fds generalizing i with
  | nil => cases h
  | cons p ps ih =>
    rcases List.mem_append.mp h with h | h
    · unfold subscriptionsOf at h
      refine ⟨0, ?_⟩
      grind
    · obtain ⟨k, type, q, rfl, hq, hrest⟩ := ih h
      exact ⟨k + 1, type, q, by rw [Nat.add_assoc, Nat.add_comm 1], hq, hrest⟩

theorem subscriptions_cleared (i : Nat) :
    subscriptions i (cleared fds) = subscriptions i fds := by
  induction fds generalizing i with
  | nil => rfl
  | cons p ps ih => exact congrArg (subscriptionsOf i p ++ ·) (ih (i + 1))

/-! ## The events of an entry -/

/-- What the host may answer: at least one event, each of a subscription. -/
structure Answers (fds : List PollFd) (events : List Event) : Prop where
  nonempty : events ≠ []
  subscribed : ∀ e ∈ events, e.subscription < (subscriptions 0 fds).length

/-- The event is of the entry at `cur`. -/
def Event.Of (fds : List PollFd) (e : Event) (cur : Nat) (type : EventType) : Prop :=
  (subscriptions 0 fds)[e.subscription]? = some (.fd cur type)

/-- The events report one of `m` for the entry at `cur`. -/
def Marked (fds : List PollFd) (events : List Event) (cur : Nat) (m : Events) : Prop :=
  ∃ e ∈ events, ∃ type, e.Of fds cur type ∧ (e.revents type).Has m

theorem Answers.exists_of (h : Answers fds events) (he : e ∈ events) :
    ∃ cur type p, e.Of fds cur type ∧ fds[cur]? = some p ∧ 0 ≤ p.fd ∧
      (p.events.Has POLLRDNORM ∨ p.events.Has POLLWRNORM) := by
  have hget := List.getElem?_eq_getElem (h.subscribed e he)
  obtain ⟨k, type, p, hr, hp, hpos, hasks⟩ := mem_subscriptions (List.mem_of_getElem? hget)
  rw [Nat.zero_add] at hr
  exact ⟨k, type, p, hget.trans (congrArg some hr), hp, hpos, hasks⟩

theorem marked_append {type : EventType} (he : e.Of fds cur type) {cur' : Nat} :
    Marked fds (seen ++ [e]) cur' m ↔
      Marked fds seen cur' m ∨ cur' = cur ∧ (e.revents type).Has m := by
  have hof : ∀ type', e.Of fds cur' type' ↔ cur' = cur ∧ type' = type := fun type' => by
    unfold Event.Of at he ⊢
    rw [he]
    simp [eq_comm]
  simp only [Marked, List.mem_append, List.mem_singleton, or_and_right, exists_or,
    exists_eq_left, hof]
  simp

/-- The entries after a part of the events: each has what that part reports. -/
structure Told (fds : List PollFd) (seen : List Event) (s : State Subscription Answer) : Prop where
  regs : s.regs = subscriptions 0 fds
  asks : s.fds.map PollFd.asks = fds.map PollFd.asks
  revents : ∀ cur p, s.fds[cur]? = some p → ∀ m, p.revents.Has m ↔ Marked fds seen cur m

theorem told_report (h : Told fds seen s)
    {type : EventType} (he : e.Of fds cur type) (hp : fds[cur]? = some p) :
    wp (fun _ => False) (report e) (fun _ => Told fds (seen ++ [e])) s := by
  have hreg : s.regs[e.subscription]? = some (.fd cur type) := h.regs ▸ he
  have hlen : s.fds.length = fds.length := by simpa using congrArg List.length h.asks
  have hlt : cur < s.fds.length := hlen ▸ (List.getElem?_eq_some_iff.mp hp).1
  have hq : s.fds[cur]? = some s.fds[cur] := List.getElem?_eq_getElem hlt
  unfold report
  rw [wp_bind, wp_get, hreg]
  simp only [hq, wp_modify]
  refine ⟨h.regs, (asks_set hq _).trans h.asks, fun cur' p' hp' m => ?_⟩
  rw [marked_append he]
  by_cases hcur : cur' = cur
  · subst hcur
    have hp'' : _ = some p' := (List.getElem?_set_self hlt).symm.trans hp'
    cases hp''
    rw [has_or, h.revents cur' _ hq]
    simp
  · rw [h.revents cur' p' ((List.getElem?_set_ne (Ne.symm hcur)).symm.trans hp')]
    simp [hcur]

theorem told_reportAll (hhost : Answers fds events) {rest : List Event} (h : Told fds seen s) (hevents : events = seen ++ rest) :
    wp (fun _ => False) (reportAll rest) (fun _ => Told fds events) s := by
  induction rest generalizing seen s with
  | nil =>
    rw [List.append_nil] at hevents
    exact hevents ▸ h
  | cons e es ih =>
    obtain ⟨cur, type, p, he, hp, -⟩ := hhost.exists_of (e := e) (by simp [hevents])
    rw [reportAll, wp_bind]
    refine wp_mono (told_report h he hp) fun _ s' h' => ?_
    exact ih h' (by rw [hevents, List.append_assoc]; rfl)

/-! ## A call without a timeout -/

/-- What the last loop makes of the events of an entry. -/
def concluded (r : Events) : Events := if r.Has POLLHUP then r &&& ~~~POLLWRNORM else r

theorem conclude_getElem? (l : List PollFd) (cur : Nat) :
    (conclude l).1[cur]? = l[cur]?.map fun p => { p with revents := concluded p.revents } := by
  induction l generalizing cur with
  | nil => rfl
  | cons p ps ih =>
    cases cur with
    | succ cur => exact ih cur
    | zero =>
      refine congrArg some ?_
      show (if _ then _ else _ : PollFd) = ⟨p.fd, p.events, concluded p.revents⟩
      unfold concluded
      split <;> rfl

theorem concluded_has (hm : ~~~POLLWRNORM &&& m = m) :
    (concluded r).Has m ↔ r.Has m := by
  unfold concluded
  split
  · rw [Events.Has, BitVec.and_assoc, hm]
    rfl
  · rfl

theorem concluded_has_wrnorm :
    (concluded r).Has POLLWRNORM ↔ r.Has POLLWRNORM ∧ ¬ r.Has POLLHUP := by
  unfold concluded
  by_cases h : r.Has POLLHUP
  · rw [if_pos h, Events.Has, BitVec.and_assoc,
      (by decide : ~~~POLLWRNORM &&& POLLWRNORM = 0#16), BitVec.and_zero]
    simp [h]
  · simp [h]

/-- Before the events the entries have none. -/
theorem told_cleared (hregs : s.regs = subscriptions 0 fds)
    (hfds : s.fds = cleared fds) : Told fds [] s := by
  refine ⟨hregs, hfds ▸ asks_cleared fds, fun cur p hp m => ?_⟩
  rw [hfds] at hp
  obtain ⟨q, -, rfl⟩ := List.mem_map.mp (List.mem_of_getElem? hp)
  exact iff_of_false (not_has_zero m) (by simp [Marked])

/-- The entries after a call without a timeout. -/
theorem call_told (hplain : ∀ p ∈ fds, Plain p) (hhost : Answers fds events)
    (hcheck : validateSomethingNotPollpri fds = .ok ()) :
    ∃ n s, call (.ok events) none fds = .ok (.ok n, s) ∧
      ∀ cur p, s.fds[cur]? = some p → ∃ r, p.revents = concluded r ∧
        ∀ m, r.Has m ↔ Marked fds events cur m := by
  have himpl : wp (fun _ => False) (ppollImpl none) (fun r s => (∃ n, r = .ok n) ∧
      ∀ cur p, s.fds[cur]? = some p → ∃ r, p.revents = concluded r ∧
        ∀ m, r.Has m ↔ Marked fds events cur m) (start (cleared fds) (.ok events)) := by
    have hplain' : ∀ p ∈ cleared fds, Plain p := fun p hp => by
      obtain ⟨q, hq, rfl⟩ := List.mem_map.mp hp
      exact hplain q hq
    unfold ppollImpl andThen
    rw [wp_bind, wp_get, wp_bind]
    unfold wp
    rw [show (start (cleared fds) (.ok events) : State Subscription Answer).fds = cleared fds
      from rfl, registerEach_subscribe hplain', subscriptions_cleared]
    show wp _ _ _ _
    rw [wp_bind, wp_modify, wp_bind]
    unfold pollOneoff
    rw [wp_bind, wp_get]
    show wp _ (do require _ _; return _) _ _
    rw [wp_bind, wp_require]
    have hall : events ≠ [] ∧ ∀ e ∈ events,
        e.subscription < (([] ++ subscriptions 0 fds) ++ []).length := by
      simpa using ⟨hhost.nonempty, hhost.subscribed⟩
    refine ⟨fun _ => ?_, fun hnot => hnot hall⟩
    rw [wp_pure, wp_bind]
    refine wp_mono (told_reportAll hhost (told_cleared (by simp [start]) rfl) rfl) fun _ s h => ?_
    refine ⟨⟨_, rfl⟩, fun cur p hp => ?_⟩
    have hp' := (conclude_getElem? s.fds cur).symm.trans hp
    obtain ⟨q, hq, rfl⟩ := Option.map_eq_some_iff.mp hp'
    exact ⟨q.revents, rfl, h.revents cur q hq⟩
  obtain ⟨r, s, hrun, ⟨n, rfl⟩, hentries⟩ := exists_ok_of_wp himpl
  exact ⟨n, s, (ppoll_none_eq ppollImpl hcheck _).trans hrun, hentries⟩

/-! ## The entries of `pselect` -/

theorem Plain.or (h : Plain p) (a : Arg) :
    Plain { p with events := p.events ||| a.events } := by
  simp only [Plain, has_or] at h ⊢
  cases a with
  | readfds => exact .inl (.inr (by decide))
  | writefds => exact .inr (.inl (.inr (by decide)))
  | errorfds =>
    refine h.imp .inl (Or.imp .inl fun hzero => ?_)
    have hstrip : strip (p.events ||| POLLPRI) = strip p.events := by
      ext i hi
      simp only [strip, BitVec.getElem_and, BitVec.getElem_or, BitVec.getElem_not]
      grind
    exact hstrip.trans hzero

theorem plain_addEvents {poll : List PollFd} (h : ∀ p ∈ poll, Plain p) (fd : Int) (a : Arg) :
    ∀ p ∈ addEvents fd a.events poll, Plain p := by
  induction poll with
  | nil =>
    refine fun p hp => List.mem_singleton.mp hp ▸ ?_
    have hnew : Plain ⟨fd, 0, 0⟩ := .inr (.inr (by decide : strip 0 = 0))
    exact hnew.or a
  | cons q poll ih =>
    have hpoll := ih fun p hp => h p (List.mem_cons_of_mem q hp)
    rw [addEvents]
    split
    · exact List.forall_mem_cons.mpr ⟨(h q List.mem_cons_self).or a,
        fun p hp => h p (List.mem_cons_of_mem q hp)⟩
    · exact List.forall_mem_cons.mpr ⟨h q List.mem_cons_self, hpoll⟩

theorem plain_addSet (nfds : Int) (a : Arg) (l : List Int) {poll : List PollFd}
    (h : ∀ p ∈ poll, Plain p) : ∀ p ∈ addSet nfds a.events l poll, Plain p := by
  induction l generalizing poll with
  | nil => exact h
  | cons fd l ih =>
    show ∀ p ∈ addSet nfds a.events l (if fd ≥ nfds then poll else _), Plain p
    split
    · exact ih h
    · exact ih (plain_addEvents h fd a)

/-- `pselect` asks for nothing that cannot be subscribed to. -/
theorem plain_pollFds (nfds : Int) (s : Sets) : ∀ p ∈ pollFds nfds s, Plain p := by
  have hnil : ∀ p ∈ ([] : List PollFd), Plain p := nofun
  exact plain_addSet nfds .errorfds _ (plain_addSet nfds .writefds _
    (plain_addSet nfds .readfds _ hnil))

theorem validate_ok (hp : p ∈ fds) (hpos : 0 ≤ p.fd)
    (hasks : p.events.Has POLLRDNORM ∨ p.events.Has POLLWRNORM) :
    validateSomethingNotPollpri fds = .ok () := by
  classical
  refine (validate_eq fds).trans (if_neg ?_)
  rintro ⟨-, hall⟩
  have hr := strip_has p.events (m := POLLRDNORM) (by decide)
  have hw := strip_has p.events (m := POLLWRNORM) (by decide)
  rw [hall p hp hpos, iff_false_left (not_has_zero _)] at hr hw
  exact hasks.elim hr hw

/-! ## The events that are shown -/

/-- The events that are reported for an event of the host, one by one. -/
theorem revents_spec (e : Event) (type : EventType) :
    ((e.revents type).Has POLLNVAL ↔ e.error = some EBADF) ∧
    ((e.revents type).Has POLLHUP ↔ e.error = some EPIPE ∨ e.error = none ∧ e.hangup = true) ∧
    ((e.revents type).Has POLLRDNORM ↔ type = .fdRead ∧ e.error = none) ∧
    ((e.revents type).Has POLLWRNORM ↔ type = .fdWrite ∧ e.error = none) ∧
    ¬ (e.revents type).Has POLLPRI := by
  unfold Event.revents
  split
  case h_1 h => simp [h, Events.Has, POLLNVAL, POLLHUP, POLLRDNORM, POLLWRNORM, POLLPRI]
  case h_2 h => simp [h, Events.Has, POLLNVAL, POLLHUP, POLLRDNORM, POLLWRNORM, POLLPRI]
  case h_3 err hbad hpipe h =>
    have hne : err ≠ EBADF ∧ err ≠ EPIPE := ⟨hbad, hpipe⟩
    simp [h, hne, Events.Has, POLLERR, POLLNVAL, POLLHUP, POLLRDNORM, POLLWRNORM, POLLPRI]
  case h_4 h =>
    cases type <;> cases e.hangup <;>
      simp [h, Events.Has, POLLNVAL, POLLHUP, POLLRDNORM, POLLWRNORM, POLLPRI]

/-- The event says that its descriptor has hung up. -/
def Event.HangsUp (e : Event) : Prop :=
  e.error = some EPIPE ∨ e.error = none ∧ e.hangup = true

/-- The entry at `cur` comes into a set: it can be read from, or it can be
written to and has not hung up. -/
def Carried (fds : List PollFd) (events : List Event) (cur : Nat) : Prop :=
  (∃ e ∈ events, e.Of fds cur .fdRead ∧ e.error = none) ∨
  (∃ e ∈ events, e.Of fds cur .fdWrite ∧ e.error = none) ∧
    ∀ e ∈ events, ∀ type, e.Of fds cur type → ¬ e.HangsUp

/-- The events of an entry that has what `pselect` looks for. -/
theorem carried_iff (h : ∀ m, r.Has m ↔ Marked fds events cur m) :
    (∃ a : Arg, (concluded r).Has a.events) ↔ Carried fds events cur := by
  have hrd : r.Has POLLRDNORM ↔ ∃ e ∈ events, e.Of fds cur .fdRead ∧ e.error = none := by
    simp only [h, Marked, (revents_spec _ _).2.2.1]
    grind
  have hwr : r.Has POLLWRNORM ↔ ∃ e ∈ events, e.Of fds cur .fdWrite ∧ e.error = none := by
    simp only [h, Marked, (revents_spec _ _).2.2.2.1]
    grind
  have hhup : ¬ r.Has POLLHUP ↔ ∀ e ∈ events, ∀ type, e.Of fds cur type → ¬ e.HangsUp := by
    simp only [h, Marked, (revents_spec _ _).2.1]
    simp [Event.HangsUp]
  have hpri : ¬ r.Has POLLPRI := by
    rw [h]
    rintro ⟨e, -, type, -, hhas⟩
    exact (revents_spec e type).2.2.2.2 hhas
  rw [Carried, ← hrd, ← hwr, ← hhup, ← concluded_has_wrnorm,
    ← concluded_has (by decide : ~~~POLLWRNORM &&& POLLRDNORM = POLLRDNORM)]
  constructor
  · rintro ⟨a, ha⟩
    cases a with
    | readfds => exact .inl ha
    | writefds => exact .inr ha
    | errorfds => exact absurd ((concluded_has (by decide)).mp ha) hpri
  · rintro (ha | ha)
    · exact ⟨.readfds, ha⟩
    · exact ⟨.writefds, ha⟩

/-- An event that is an `EBADF` leaves a mark. -/
theorem marked_nval (hhost : Answers fds events) :
    (∃ cur, Marked fds events cur POLLNVAL) ↔ ∃ e ∈ events, e.error = some EBADF := by
  simp only [Marked, (revents_spec _ _).1]
  constructor
  · rintro ⟨cur, e, he, type, -, hbad⟩
    exact ⟨e, he, hbad⟩
  · rintro ⟨e, he, hbad⟩
    obtain ⟨cur, type, -, hof, -⟩ := hhost.exists_of he
    exact ⟨cur, e, he, type, hof, hbad⟩

end Preview1

/-! ## The sets -/

open Preview1 (Event Answers Carried)

/-- A failure, or a positive number and sets in which the descriptor of every
event of the host is found. -/
def Shows (fds : List PollFd) (events : List Event) (r : Except Errno Nat) (s : Sets) : Prop :=
  (∃ err, r = .error err) ∨ ∃ n, r = .ok n ∧ 0 < n ∧
    ∀ e ∈ events, ∀ cur type p, e.Of fds cur type → fds[cur]? = some p →
      ∃ a, p.fd ∈ members s.given a

variable {nfds : Int} {given : Arg → Option FdSet} {events : List Event} {poll : List PollFd}

/-- The entry of a descriptor is the only one that makes it ready. -/
theorem ready_iff (hnodup : (poll.map PollFd.fd).Nodup) {cur : Nat} {p : PollFd}
    (hp : poll[cur]? = some p) (a : Arg) : Ready poll p.fd a ↔ p.revents.Has a.events := by
  constructor
  · rintro ⟨q, hq, hfd, hhas⟩
    rwa [← List.inj_on_of_nodup_map hnodup hq (List.mem_of_getElem? hp) hfd]
  · exact fun hhas => ⟨p, List.mem_of_getElem? hp, rfl, hhas⟩

theorem Selected.pos {n : Nat} {s : Sets} (h : Selected nfds given poll n s) {fd : Int} {a : Arg}
    (hfd : fd ∈ members s.given a) : 0 < n := by
  have hlen := List.length_pos_of_mem hfd
  rw [h.sum]
  cases a <;> omega

/-- The entries after the call of `ppoll`: which they are, and what they are
told. -/
structure Heard (fds : List PollFd) (events : List Event) (poll : List PollFd) : Prop where
  asks : poll.map PollFd.asks = fds.map PollFd.asks
  fits : ∀ p ∈ poll, p.Fits fun _ => True
  told : ∀ cur p, poll[cur]? = some p → ∃ r, p.revents = Preview1.concluded r ∧
    ∀ m, r.Has m ↔ Preview1.Marked fds events cur m

namespace Heard

variable {fds : List PollFd}

/-- The entry after the call for one before it. -/
theorem entry (h : Heard fds events poll) {cur : Nat} {p : PollFd} (hp : fds[cur]? = some p) :
    ∃ q : PollFd, poll[cur]? = some q ∧ q.fd = p.fd := by
  have hget := congrArg (·[cur]?) (map_fd_of_asks h.asks)
  simpa only [List.getElem?_map, hp, Option.map_some, Option.map_eq_some_iff] using hget

theorem nval_iff (h : Heard fds events poll) (hhost : Answers fds events) :
    (∃ q ∈ poll, q.revents.Has POLLNVAL) ↔ ∃ e ∈ events, e.error = some EBADF := by
  have hnval : ∀ cur q, poll[cur]? = some q →
      (q.revents.Has POLLNVAL ↔ Preview1.Marked fds events cur POLLNVAL) := by
    intro cur q hq
    obtain ⟨r, hr, hmarked⟩ := h.told cur q hq
    rw [hr, Preview1.concluded_has (by decide), hmarked]
  rw [← Preview1.marked_nval hhost]
  constructor
  · rintro ⟨q, hq, hhas⟩
    obtain ⟨cur, hcur⟩ := List.mem_iff_getElem?.mp hq
    exact ⟨cur, (hnval cur q hcur).mp hhas⟩
  · rintro ⟨cur, hmark⟩
    obtain ⟨e, he, type, hof, -⟩ := id hmark
    obtain ⟨cur', type', p, hof', hp, -⟩ := hhost.exists_of he
    cases hof.symm.trans hof'
    obtain ⟨q, hq, -⟩ := h.entry hp
    exact ⟨q, List.mem_of_getElem? hq, (hnval cur q hq).mpr hmark⟩

/-- A descriptor is in a set just if the events of its entry are carried. -/
theorem shown_iff (h : Heard (pollFds nfds ⟨given, .zero⟩) events poll) {n : Nat} {s : Sets}
    (hsel : Selected nfds given poll n s) {cur : Nat} {p : PollFd}
    (hp : (pollFds nfds ⟨given, .zero⟩)[cur]? = some p) :
    (∃ a, p.fd ∈ members s.given a) ↔ Carried (pollFds nfds ⟨given, .zero⟩) events cur := by
  have hnodup : (poll.map PollFd.fd).Nodup := by
    rw [map_fd_of_asks h.asks]
    exact (pollFds_spec nfds _).2.2
  obtain ⟨q, hq, hfd⟩ := h.entry hp
  obtain ⟨r, hr, hmarked⟩ := h.told cur q hq
  rw [← Preview1.carried_iff hmarked, ← hr, ← hfd]
  refine exists_congr fun a => ?_
  rw [hsel.mem, ready_iff hnodup hq]
  exact and_iff_right_of_imp fun hhas =>
    ((ready_iff hnodup hq a).mpr hhas).requested h.asks h.fits

end Heard

/-- `pselect` without a timeout comes back with what the host has answered. -/
theorem heard_ppoll (hhost : Answers (pollFds nfds ⟨given, .zero⟩) events) :
    0 ≤ nfds ∧ ∃ n poll,
      System.ppoll (.wasip1 (.ok events)) none (pollFds nfds ⟨given, .zero⟩) =
        .ok (.ok n, poll) ∧ Heard (pollFds nfds ⟨given, .zero⟩) events poll := by
  obtain ⟨e, he⟩ := List.exists_mem_of_ne_nil _ hhost.nonempty
  obtain ⟨cur, type, p, -, hp, hpos, hasks⟩ := hhost.exists_of he
  have hmem := List.mem_of_getElem? hp
  obtain ⟨a, -, hlt⟩ := ((pollFds_spec nfds _).2.1 p.fd).mp (List.mem_map_of_mem hmem)
  obtain ⟨n, s, hcall, htold⟩ := Preview1.call_told (Preview1.plain_pollFds nfds _) hhost
    (Preview1.validate_ok hmem hpos hasks)
  have hpoll : System.ppoll (.wasip1 (.ok events)) none (pollFds nfds ⟨given, .zero⟩) =
      .ok (.ok n, s.fds) := by
    rw [System.ppoll, hcall]
    rfl
  obtain ⟨hasks', hfits⟩ := System.reports _ hpoll
  exact ⟨by omega, n, s.fds, hpoll, hasks', hfits, htold⟩

/-- **An event of the host is found in the sets of a `pselect` without a timeout
just if its descriptor can be read from, or can be written to and has not hung
up**, or if the call fails because some descriptor is not open. -/
theorem pselect_shows_iff (nfds : Int) (given : Arg → Option FdSet) (events : List Event)
    (hhost : Answers (pollFds nfds ⟨given, .zero⟩) events) :
    (∃ r s, pselect (System.ppoll (.wasip1 (.ok events)) none) nfds given = .ok (r, s) ∧
      Shows (pollFds nfds ⟨given, .zero⟩) events r s) ↔
    (∃ e ∈ events, e.error = some EBADF) ∨
      ∀ e ∈ events, ∀ cur type, e.Of (pollFds nfds ⟨given, .zero⟩) cur type →
        Carried (pollFds nfds ⟨given, .zero⟩) events cur := by
  obtain ⟨hnfds, n, poll, hpoll, hheard⟩ := heard_ppoll hhost
  rw [pselect_eq _ hnfds, hpoll]
  simp only [Except.bind]
  by_cases hbad : ∃ e ∈ events, e.error = some EBADF
  · rw [if_pos (by simpa using (hheard.nval_iff hhost).mpr hbad)]
    exact iff_of_true ⟨_, _, rfl, .inl ⟨_, rfl⟩⟩ (.inl hbad)
  · obtain ⟨s, hfill, hsel⟩ := fill_selected hheard.asks hheard.fits
    rw [if_neg (by simpa using mt (hheard.nval_iff hhost).mp hbad), hfill, or_iff_right hbad]
    constructor
    · rintro ⟨r, s', ⟨⟩, hshows⟩ e he cur type hof
      obtain ⟨err, ⟨⟩⟩ | ⟨m, -, -, hall⟩ := hshows
      obtain ⟨cur', type', p, hof', hp, -⟩ := hhost.exists_of he
      cases hof.symm.trans hof'
      exact (hheard.shown_iff hsel hp).mp (hall e he cur type p hof hp)
    · intro hcarried
      obtain ⟨e, he⟩ := List.exists_mem_of_ne_nil _ hhost.nonempty
      obtain ⟨cur, type, p, hof, hp, -⟩ := hhost.exists_of he
      obtain ⟨a, hin⟩ := (hheard.shown_iff hsel hp).mpr (hcarried e he cur type hof)
      refine ⟨_, s, rfl, .inr ⟨s.count, rfl, hsel.pos hin, fun e he cur type p hof hp => ?_⟩⟩
      exact (hheard.shown_iff hsel hp).mpr (hcarried e he cur type hof)

/-- Descriptor 3 can be written to. -/
theorem pselect_shows_iff_write :
    ∃ r s, pselect (System.ppoll (.wasip1 (.ok [⟨0, none, false⟩])) none) 4 (oneSet .writefds 3) =
      .ok (r, s) ∧
      Shows (pollFds 4 ⟨oneSet .writefds 3, .zero⟩) [⟨0, none, false⟩] r s := by
  have hhost : Answers (pollFds 4 ⟨oneSet .writefds 3, .zero⟩) [⟨0, none, false⟩] :=
    ⟨by simp, by decide⟩
  have hsubs : Preview1.subscriptions 0 (pollFds 4 ⟨oneSet .writefds 3, .zero⟩) =
      [.fd 0 .fdWrite] := by decide
  refine (pselect_shows_iff 4 (oneSet .writefds 3) _ hhost).mpr (.inr ?_)
  intro e he cur type hof
  cases List.mem_singleton.mp he
  unfold Event.Of at hof
  rw [hsubs] at hof
  cases hof
  refine .inr ⟨⟨_, he, ?_, rfl⟩, fun e' he' type' _ => ?_⟩
  · unfold Event.Of
    rw [hsubs]
    rfl
  · cases List.mem_singleton.mp he'
    simp [Event.HangsUp]

/-- Descriptor 3 is in the write set, and its peer has hung up: nothing is
reported. -/
theorem pselect_shows_nothing :
    Answers (pollFds 4 ⟨oneSet .writefds 3, .zero⟩) [⟨0, none, true⟩] ∧
    (pselect (System.ppoll (.wasip1 (.ok [⟨0, none, true⟩])) none) 4 (oneSet .writefds 3)).map
        (fun r => (r.1, Arg.all.map (members r.2.given))) = .ok (.ok 0, [[], [], []]) :=
  ⟨⟨by simp, by decide⟩, rfl⟩

end WasiLibc.Poll
