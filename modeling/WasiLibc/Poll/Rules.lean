import WasiLibc.Poll.Events

/-!
# WasiLibc.Poll.Rules

What `ppoll` reports, for any target that reports through
`__wasilibc_poll_ready`.

`Tally` is the invariant of a call: the count is the number of entries with
events, and the entries that the walk has passed carry no event that they
may not.  Everything that a target does leaves it alone, apart from
`pollReady`; `Keeps.pollReady` is what a target has to show for that.
-/

namespace WasiLibc.Poll

open Wp

/-! ## Masks -/

theorem has_or {a b m : Events} : (a ||| b).Has m ↔ a.Has m ∨ b.Has m := by
  have h : (a ||| b) &&& m = a &&& m ||| b &&& m := by
    ext i hi
    simp [Bool.and_or_distrib_right]
  have hzero : a &&& m ||| b &&& m = 0 ↔ a &&& m = 0 ∧ b &&& m = 0 := BitVec.or_eq_zero_iff
  rw [Events.Has, h, Ne, hzero, not_and_or]
  rfl

theorem Events.Has.left {a b m : Events} (h : (a &&& b).Has m) : a.Has m := by
  intro hzero
  apply h
  rw [BitVec.and_comm a b, BitVec.and_assoc, hzero]
  exact BitVec.and_zero

theorem Events.Has.right {a b m : Events} (h : (a &&& b).Has m) : b.Has m :=
  (BitVec.and_comm a b ▸ h : (b &&& a).Has m).left

theorem not_has_zero (m : Events) : ¬ (0 : Events).Has m := fun h => h BitVec.zero_and

/-- The events that are reported only if they are asked for. -/
def maskable : List Events := [POLLRDNORM, POLLWRNORM, POLLPRI]

/-- What is reported has been asked for, as far as it is maskable. -/
def Within (reported asked : Events) : Prop := ∀ m ∈ maskable, reported.Has m → asked.Has m

namespace Within

variable {a b asked : Events}

theorem zero (asked : Events) : Within 0 asked := fun m _ h => (not_has_zero m h).elim

theorem rfl : Within asked asked := fun _ _ h => h

theorem or (ha : Within a asked) (hb : Within b asked) : Within (a ||| b) asked :=
  fun m hm h => (has_or.mp h).elim (ha m hm) (hb m hm)

theorem and (ha : Within a asked) (m : Events) : Within (a &&& m) asked :=
  fun k hk h => ha k hk h.left

/-- Events that are not maskable. -/
theorem of_free (h : ∀ m ∈ maskable, ¬ a.Has m) : Within a asked :=
  fun m hm h' => (h m hm h').elim

/-- A single event that has been asked for. -/
theorem of_has {m : Events} (h : asked.Has m) (hm : ∀ k ∈ maskable, m.Has k → k = m) :
    Within m asked :=
  fun k hk h' => hm k hk h' ▸ h

theorem rdnorm (h : asked.Has POLLRDNORM) : Within POLLRDNORM asked :=
  of_has h (by simp [maskable, Events.Has, POLLRDNORM, POLLWRNORM, POLLPRI])

theorem wrnorm (h : asked.Has POLLWRNORM) : Within POLLWRNORM asked :=
  of_has h (by simp [maskable, Events.Has, POLLRDNORM, POLLWRNORM, POLLPRI])

theorem nval : Within POLLNVAL asked :=
  of_free (by simp [maskable, Events.Has, POLLRDNORM, POLLWRNORM, POLLPRI, POLLNVAL])

/-- Stripping `POLLPRI` takes nothing from the others. -/
theorem of_strip (h : Within a (strip asked)) : Within a asked :=
  fun m hm h' => (h m hm h').left

end Within

/-! ## The invariant -/

/-- What an entry asks for. -/
def PollFd.asks (p : PollFd) : Int × Events := (p.fd, p.events)

/-- A report leaves what the entries ask for. -/
theorem asks_set {l : List PollFd} {i : Nat} {p : PollFd} (hp : l[i]? = some p) (r : Events) :
    (l.set i { p with revents := r }).map PollFd.asks = l.map PollFd.asks := by
  have hlt : i < l.length := (List.getElem?_eq_some_iff.mp hp).1
  have hget : l[i] = p := (List.getElem?_eq_some_iff.mp hp).2
  refine List.ext_getElem? fun j => ?_
  by_cases hji : j = i
  · subst hji
    simp [hlt, hget, PollFd.asks]
  · simp [List.getElem?_set_ne (Ne.symm hji)]

/-- An entry that has been reported on: a negative one has no events, others
have none that they did not ask for, and if the descriptor is not open then
the entry says just that. -/
structure PollFd.Fits (opened : Int → Prop) (p : PollFd) : Prop where
  negative : p.fd < 0 → p.revents = 0
  within : Within p.revents p.events
  unopened : 0 ≤ p.fd → ¬ opened p.fd → p.revents = POLLNVAL

variable {ρ ω α β : Type}

/-- An entry that may be reported on: it names an open descriptor. -/
def Reportable (opened : Int → Prop) (fds : List PollFd) (cur : Nat) (events : Events) : Prop :=
  ∃ p, fds[cur]? = some p ∧ 0 ≤ p.fd ∧ opened p.fd ∧ p.events = events

/-- The walk over `fds` has come to the entry at `k`; all that has been
registered satisfies `K`, and `c` is what the clock has been asked for. -/
structure Tally (opened : Int → Prop) (fds : List PollFd) (K : ρ → Prop)
    (c : Option (BitVec 64)) (k : Nat) (s : State ρ ω) : Prop where
  asks : s.fds.map PollFd.asks = fds.map PollFd.asks
  count : s.count = s.fds.countP fun p => p.revents ≠ 0
  passed : ∀ i p, i < k → s.fds[i]? = some p → p.Fits opened
  ahead : ∀ i p, k ≤ i → s.fds[i]? = some p → p.revents = 0
  regs : ∀ r ∈ s.regs, K r
  clock : s.clock = c

/-- Partial correctness: a call may stop. -/
abbrev anyFault : Fault → Prop := fun _ => True

theorem wp_onWorld {ok : Fault → Prop} {f : StateT ω (Except Fault) α}
    {Q : α → State ρ ω → Prop} {s : State ρ ω} :
    wp ok (onWorld f) Q s ↔ wp ok f (fun a w => Q a { s with world := w }) s.world := by
  unfold wp onWorld
  cases f s.world with
  | ok p => exact Iff.rfl
  | error e => exact Iff.rfl

theorem keeps_andThen {ok : Fault → Prop} {I : State ρ ω → Prop} {f : M ρ ω (Except Errno α)}
    {g : α → M ρ ω (Except Errno β)} (hf : Keeps ok I f) (hg : ∀ a, Keeps ok I (g a)) :
    Keeps ok I (andThen f g) := by
  refine .bind hf fun r => ?_
  cases r with
  | error e => exact .pure _
  | ok a => exact hg a

/-- An invariant that the registration of every entry keeps. -/
theorem keeps_registerEach {ok : Fault → Prop} {I : State ρ ω → Prop} {fds : List PollFd}
    {register : Nat → PollFd → M ρ ω (Except Errno Unit)}
    (hregister : ∀ i p, fds[i]? = some p → 0 ≤ p.fd → Keeps ok I (register i p))
    (ps : List PollFd) (i : Nat) (hps : fds.drop i = ps) :
    Keeps ok I (registerEach register i ps) := by
  induction ps generalizing i with
  | nil => exact .pure _
  | cons p ps ih =>
    have hp : fds[i]? = some p := by
      rw [← List.head?_drop, hps]
      rfl
    have hrest := ih (i + 1) (by rw [← List.drop_drop, hps]; rfl)
    exact .ite (fun _ => hrest) fun hpos =>
      keeps_andThen (hregister i p hp (by omega)) fun _ => hrest

namespace Tally

variable {opened : Int → Prop} {fds : List PollFd} {K : ρ → Prop} {c : Option (BitVec 64)}
  {k : Nat} {s : State ρ ω}

theorem getElem? (h : Tally opened fds K c k s) {i : Nat} {p : PollFd} (hp : fds[i]? = some p) :
    ∃ q, s.fds[i]? = some q ∧ q.fd = p.fd ∧ q.events = p.events := by
  have heq := congrArg (·[i]?) h.asks
  simp only [List.getElem?_map, hp, Option.map_some, Option.map_eq_some_iff] at heq
  obtain ⟨q, hq, hasks⟩ := heq
  exact ⟨q, hq, congrArg Prod.fst hasks, congrArg Prod.snd hasks⟩

/-- Only the entries, the count and the registrations matter, beside the clock. -/
theorem congr {s' : State ρ ω} {c' : Option (BitVec 64)} (h : Tally opened fds K c k s)
    (hfds : s'.fds = s.fds) (hcount : s'.count = s.count) (hregs : ∀ r ∈ s'.regs, K r)
    (hclock : s'.clock = c') : Tally opened fds K c' k s' := by
  refine ⟨?_, ?_, ?_, ?_, hregs, hclock⟩
  · rw [hfds]; exact h.asks
  · rw [hfds, hcount]; exact h.count
  · rw [hfds]; exact h.passed
  · rw [hfds]; exact h.ahead

/-- The walk passes an entry that needs no report. -/
theorem pass (h : Tally opened fds K c k s) {p : PollFd} (hp : fds[k]? = some p)
    (hopen : p.fd < 0 ∨ opened p.fd) : Tally opened fds K c (k + 1) s := by
  refine ⟨h.asks, h.count, ?_, fun i q hi hq => h.ahead i q (by omega) hq, h.regs, h.clock⟩
  intro i q hi hq
  by_cases hik : i < k
  · exact h.passed i q hik hq
  · obtain rfl : i = k := by omega
    obtain ⟨q', hq', hfd, -⟩ := h.getElem? hp
    rw [hq] at hq'
    cases hq'
    have hzero := h.ahead i q (Nat.le_refl _) hq
    refine ⟨fun _ => hzero, hzero ▸ .zero _, fun hpos hclosed => ?_⟩
    rw [hfd] at hpos hclosed
    rcases hopen with hneg | hopen
    · omega
    · exact (hclosed hopen).elim

/-- Setting the events of one entry, and counting it if it had none; the
entry has been passed, or is passed now. -/
theorem set (h : Tally opened fds K c k s) {cur k' : Nat} {q : PollFd} {r : Events}
    (hq : s.fds[cur]? = some q) (hr : r ≠ 0) (hcur : cur < k' ∧ k ≤ k')
    (hothers : ∀ i < k', i ≠ cur → i < k)
    (hfits : ({ q with revents := r } : PollFd).Fits opened) :
    Tally opened fds K c k' { s with
      fds := s.fds.set cur { q with revents := r }
      count := if q.revents = 0 then s.count + 1 else s.count } := by
  have hlt : cur < s.fds.length := (List.getElem?_eq_some_iff.mp hq).1
  have hget : s.fds[cur] = q := (List.getElem?_eq_some_iff.mp hq).2
  refine ⟨?_, ?_, ?_, ?_, h.regs, h.clock⟩
  · exact (asks_set hq r).trans h.asks
  · show (if _ then _ else _) = List.countP _ (s.fds.set cur _)
    rw [List.countP_set hlt, hget, h.count]
    have hpos : q.revents ≠ 0 → 0 < s.fds.countP fun p => p.revents ≠ 0 := fun hne =>
      List.countP_pos_iff.mpr ⟨q, List.mem_of_getElem? hq, by simpa using hne⟩
    by_cases hzero : q.revents = 0
    · rw [if_pos hzero, if_neg (by simpa using hzero), if_pos (by simpa using hr)]
      rfl
    · have := hpos hzero
      rw [if_neg hzero, if_pos (by simpa using hzero), if_pos (by simpa using hr)]
      omega
  · intro i p hi hp
    by_cases hic : i = cur
    · subst hic
      rw [List.getElem?_set_self hlt] at hp
      cases hp
      exact hfits
    · rw [List.getElem?_set_ne (Ne.symm hic)] at hp
      exact h.passed i p (hothers i hi hic) hp
  · intro i p hi hp
    rw [List.getElem?_set_ne (by omega)] at hp
    exact h.ahead i p (Nat.le_trans hcur.2 hi) hp

theorem onWorld (f : StateT ω (Except Fault) α) :
    Keeps anyFault (Tally opened fds K c k (ω := ω)) (onWorld f) := by
  intro s h
  rw [wp_onWorld]
  unfold wp
  cases f s.world with
  | ok p => exact h.congr rfl rfl h.regs h.clock
  | error e => trivial

/-- A report on an open descriptor keeps the invariant, if it is within what
is asked for. -/
theorem pollReady {report : Events → Events → Events} {cur : Nat} {asked events : Events}
    (hrep : Reportable opened fds cur asked) (hcur : cur < k)
    (hwithin : Within (report asked events) asked) :
    Keeps anyFault (Tally opened fds K c k (ω := ω)) (pollReady report cur events) := by
  obtain ⟨p, hp, hpos, hopen, rfl⟩ := hrep
  intro s h
  obtain ⟨q, hq, hfd, hevents⟩ := h.getElem? hp
  unfold Poll.pollReady
  simp only [wp_bind, wp_get, hq, hevents]
  rw [wp_ite]
  split
  case isFalse => exact h
  case isTrue hne =>
    have hfits := h.passed cur q hcur hq
    rw [← hevents] at hwithin hne ⊢
    refine h.set hq ?_ ⟨hcur, Nat.le_refl _⟩ (fun _ hi _ => hi)
      ⟨fun hneg => ?_, ?_, fun _ hclosed => ?_⟩
    · intro hzero
      exact hne (BitVec.or_eq_zero_iff.mp hzero).2
    · have : q.fd < 0 := hneg
      omega
    · exact hfits.within.or hwithin
    · exact (hclosed (hfd ▸ hopen : opened q.fd)).elim

/-- The report on an entry whose descriptor is not open, and the walk passes
it. -/
theorem pollReady_nval {report : Events → Events → Events} {p : PollFd} (hp : fds[k]? = some p)
    (hpos : 0 ≤ p.fd) (hreport : report p.events POLLNVAL = POLLNVAL)
    (h : Tally opened fds K c k s) :
    wp anyFault (Poll.pollReady report k POLLNVAL : M ρ ω PUnit)
      (fun _ s' => Tally opened fds K c (k + 1) s') s := by
  obtain ⟨q, hq, hfd, hevents⟩ := h.getElem? hp
  have hzero := h.ahead k q (Nat.le_refl _) hq
  have hzero' : (0 : Events) ||| POLLNVAL = POLLNVAL := BitVec.zero_or
  have hne : POLLNVAL ≠ 0 := by simp [POLLNVAL]
  unfold Poll.pollReady
  simp only [wp_bind, wp_get, hq, hevents, hreport]
  rw [wp_ite, if_pos hne, ← hevents]
  have hfits : ({ q with revents := q.revents ||| POLLNVAL } : PollFd).Fits opened := by
    rw [hzero, hzero']
    exact ⟨fun hneg => absurd hneg (by show ¬ q.fd < 0; omega), .nval, fun _ _ => rfl⟩
  refine h.set hq ?_ ⟨Nat.lt_succ_self _, Nat.le_succ _⟩ (fun i hi hne => by omega) hfits
  rw [hzero, hzero']
  exact hne

/-- The walk over the entries, from what it does with one. -/
theorem registerEach {register : Nat → PollFd → M ρ ω (Except Errno Unit)}
    (hregister : ∀ i p, fds[i]? = some p → 0 ≤ p.fd → ∀ s, Tally opened fds K c i s →
      wp anyFault (register i p) (fun _ s' => Tally opened fds K c (i + 1) s') s)
    (ps : List PollFd) (i : Nat) (hps : fds.drop i = ps) (h : Tally opened fds K c i s) :
    wp anyFault (registerEach register i ps)
      (fun r s' => ∃ k, Tally opened fds K c k s' ∧ (r = .ok () → fds.length ≤ k)) s := by
  induction ps generalizing i s with
  | nil =>
    unfold Poll.registerEach
    exact ⟨i, h, fun _ => List.drop_eq_nil_iff.mp hps⟩
  | cons p ps ih =>
    have hp : fds[i]? = some p := by
      rw [← List.head?_drop, hps]
      rfl
    have hrest : fds.drop (i + 1) = ps := by
      rw [← List.drop_drop, hps]
      rfl
    unfold Poll.registerEach
    rw [wp_ite]
    split
    case isTrue hneg => exact ih (i + 1) hrest (h.pass hp (.inl hneg))
    case isFalse hpos =>
      unfold andThen
      rw [wp_bind]
      refine wp_mono (hregister i p hp (by omega) s h) fun r s' h' => ?_
      cases r with
      | error e => exact ⟨i + 1, h', nofun⟩
      | ok u => exact ih (i + 1) hrest h'

end Tally

/-- What a call that returns `n` reports: the entries are those of the
caller, each has the events it may have, and `n` of them have any. -/
structure Reported (opened : Int → Prop) (fds : List PollFd) (n : Nat) (s : State ρ ω) :
    Prop where
  asks : s.fds.map PollFd.asks = fds.map PollFd.asks
  count : n = s.fds.countP fun p => p.revents ≠ 0
  fits : ∀ p ∈ s.fds, p.Fits opened

section

variable {opened : Int → Prop} {fds : List PollFd} {K : ρ → Prop} {c : Option (BitVec 64)}
  {k n : Nat} {s : State ρ ω}

theorem Tally.reported (h : Tally opened fds K c k s) (hk : fds.length ≤ k) :
    Reported opened fds s.count s := by
  refine ⟨h.asks, h.count, fun p hp => ?_⟩
  obtain ⟨i, hi, rfl⟩ := List.mem_iff_getElem.mp hp
  have hlen : s.fds.length = fds.length := by simpa using congrArg List.length h.asks
  exact h.passed i _ (by omega) (List.getElem?_eq_getElem hi)

/-- The entries as the implementation gets them. -/
def cleared (fds : List PollFd) : List PollFd := fds.map fun p => { p with revents := 0 }

theorem asks_cleared (fds : List PollFd) :
    (cleared fds).map PollFd.asks = fds.map PollFd.asks := by
  simp [cleared, PollFd.asks, Function.comp_def]

theorem tally_cleared (fds : List PollFd) (w : ω) :
    Tally opened (cleared fds) K none 0 (start (cleared fds) w) := by
  have hzero : ∀ p ∈ cleared fds, p.revents = 0 := by
    intro p hp
    obtain ⟨q, -, rfl⟩ := List.mem_map.mp hp
    rfl
  refine ⟨rfl, ?_, fun i p hi => by omega,
    fun i p _ hp => hzero p (List.mem_of_getElem? hp), nofun, rfl⟩
  exact (List.countP_eq_zero.mpr fun p hp => by simp [hzero p hp]).symm

/-- A call that returns a number reports what its implementation does. -/
theorem Reported.of_cleared (h : Reported opened (cleared fds) n s) : Reported opened fds n s :=
  ⟨h.asks.trans (asks_cleared fds), h.count, h.fits⟩

end

/-- The events that are asked for are `POLLPRI` alone, by some entry at least. -/
def OnlyPri (fds : List PollFd) : Prop :=
  (∃ p ∈ fds, 0 ≤ p.fd ∧ p.events ≠ 0) ∧ ∀ p ∈ fds, 0 ≤ p.fd → strip p.events = 0

theorem validate_eq (fds : List PollFd) [Decidable (OnlyPri fds)] :
    validateSomethingNotPollpri fds = if OnlyPri fds then .error .ENOSYS else .ok () := by
  have hzero : strip 0 = 0 := by decide
  unfold validateSomethingNotPollpri
  refine if_congr ?_ rfl rfl
  simp only [List.any_eq_true, List.mem_filter, decide_eq_true_eq, OnlyPri]
  constructor
  · rintro ⟨⟨p, ⟨hp, hasks⟩, -⟩, hall⟩
    refine ⟨⟨p, hp, by omega, by tauto⟩, fun q hq hpos => ?_⟩
    by_contra hne
    refine hall ⟨q, ⟨hq, ?_⟩, hne⟩
    rintro (hneg | hevents)
    · omega
    · exact hne (hevents ▸ hzero)
  · rintro ⟨⟨p, hp, hpos, hne⟩, hall⟩
    refine ⟨⟨p, ⟨hp, fun hskip => hskip.elim (by omega) hne⟩, hall p hp hpos⟩, ?_⟩
    rintro ⟨q, ⟨hq, hasks⟩, hq'⟩
    exact hq' (hall q hq (by omega))

/-- A call whose timeout is in order. -/
theorem ppoll_run {impl : Option Timespec → M ρ ω (Except Errno Nat)} {timeout : Option Timespec}
    (ht : ¬ ∃ t ∈ timeout, ¬ t.Valid) (fds : List PollFd) (w : ω) :
    ppoll impl timeout (start fds w) = match validateSomethingNotPollpri fds with
      | .error e => .ok (.error e, start fds w)
      | .ok _ => impl timeout (start (cleared fds) w) := by
  have hrun : ppoll impl timeout (start fds w) = _ := congrFun (if_neg ht) (start fds w)
  refine hrun.trans ?_
  cases hcheck : validateSomethingNotPollpri fds <;>
    simp only [bind, StateT.bind, Except.bind, get, getThe, MonadStateOf.get, StateT.get, pure,
      Except.pure, start, hcheck] <;> rfl

/-- A call without a timeout whose entries pass the check. -/
theorem ppoll_none_eq (impl : Option Timespec → M ρ ω (Except Errno Nat)) {fds : List PollFd}
    (hcheck : validateSomethingNotPollpri fds = .ok ()) (w : ω) :
    ppoll impl none (start fds w) = impl none (start (cleared fds) w) := by
  rw [ppoll_run (by simp), hcheck]

/-- A call fails its checks, or is that of the implementation. -/
theorem ppoll_eq (impl : Option Timespec → M ρ ω (Except Errno Nat)) (timeout : Option Timespec)
    (fds : List PollFd) (w : ω) :
    (∃ e, ppoll impl timeout (start fds w) = .ok (.error e, start fds w)) ∨
      ppoll impl timeout (start fds w) = impl timeout (start (cleared fds) w) := by
  by_cases ht : ∃ t ∈ timeout, ¬ t.Valid
  · exact .inl ⟨.EINVAL, congrFun (if_pos ht) _⟩
  · rw [ppoll_run ht]
    cases hcheck : validateSomethingNotPollpri fds with
    | error e => exact .inl ⟨e, rfl⟩
    | ok u => exact .inr rfl

/-- The entries are those of the caller, with events that they ask for. -/
structure Bounded (fds : List PollFd) (s : State ρ ω) : Prop where
  asks : s.fds.map PollFd.asks = fds.map PollFd.asks
  within : ∀ p ∈ s.fds, Within p.revents p.events

section

variable {opened : Int → Prop} {fds : List PollFd} {K : ρ → Prop} {c : Option (BitVec 64)}
  {k n : Nat} {s : State ρ ω}

theorem Tally.bounded (h : Tally opened fds K c k s) : Bounded fds s := by
  refine ⟨h.asks, fun p hp => ?_⟩
  obtain ⟨i, hi, rfl⟩ := List.mem_iff_getElem.mp hp
  by_cases hik : i < k
  · exact (h.passed i _ hik (List.getElem?_eq_getElem hi)).within
  · rw [h.ahead i _ (by omega) (List.getElem?_eq_getElem hi)]
    exact .zero _

/-- From the implementation to the call. -/
theorem reported_of_ppoll {w : ω} {impl : Option Timespec → M ρ ω (Except Errno Nat)}
    {timeout : Option Timespec}
    (himpl : wp anyFault (impl timeout)
      (fun r s' => ∃ c k, Tally opened (cleared fds) K c k s' ∧
        ∀ n, r = .ok n → (cleared fds).length ≤ k ∧ n = s'.count) (start (cleared fds) w))
    (hrun : ppoll impl timeout (start fds w) = .ok (.ok n, s)) : Reported opened fds n s := by
  rcases ppoll_eq impl timeout fds w with ⟨e, heq⟩ | heq
  · rw [heq] at hrun
    cases hrun
  · obtain ⟨c, k, htally, hn⟩ := post_of_wp himpl (heq ▸ hrun)
    obtain ⟨hk, rfl⟩ := hn n rfl
    exact (htally.reported hk).of_cleared

end

end WasiLibc.Poll
