import WasiLibc.Poll.Preview1
import WasiLibc.Poll.Walk

/-!
# WasiLibc.Poll.Counting

What `ppoll` returns and reports, on each target: the result is the number
of entries with events, and an entry has no event that it may not have.

On wasip2 and wasip3 this is the invariant `Tally`, kept by whatever an
object does in its registration, its callback or at the end of the wait.  On
wasip1 the entries are counted at the end.
-/

namespace WasiLibc.Poll

open Wp Twin

/-- The descriptors that the table knows. -/
def Opened (table : Nat → Option Nat) (fd : Int) : Prop := (table fd.toNat).isSome

/-! ## wasip2 -/

namespace Preview2

variable {opened : Int → Prop} {fds : List PollFd} {c : Option (BitVec 64)} {k cur o : Nat}
  {events : Events} {s : State Reg World} {table : Nat → Option Nat}

/-- A registration is of an open descriptor, with events that its entry asks
for. -/
def Reg.Fits (opened : Int → Prop) (fds : List PollFd) (r : Reg) : Prop :=
  ∃ asked, Reportable opened fds r.cur asked ∧ Within r.events asked

/-- The invariant of a call. -/
abbrev Tallied (opened : Int → Prop) (fds : List PollFd) :
    Option (BitVec 64) → Nat → State Reg World → Prop :=
  Tally opened fds (Reg.Fits opened fds)

theorem keeps_ready {asked : Events} (hrep : Reportable opened fds cur asked) (hcur : cur < k)
    (hwithin : Within events asked) : Keeps anyFault (Tallied opened fds c k) (ready cur events) :=
  Tally.pollReady hrep hcur hwithin

theorem keeps_pollAdd {asked : Events} (hrep : Reportable opened fds cur asked)
    (hwithin : Within events asked) :
    Keeps anyFault (Tallied opened fds c k) (pollAdd cur o events) := by
  refine .get fun s _ => .ite (fun _ => .pure _) fun _ => ?_
  refine .bind (.modify fun s h => h.congr rfl rfl (fun r hr => ?_) h.clock) fun _ => .pure _
  rcases List.mem_append.mp hr with hr | hr
  · exact h.regs r hr
  · cases List.mem_singleton.mp hr
    exact ⟨asked, hrep, hwithin⟩

theorem keeps_pollAddBoth (hrep : Reportable opened fds cur events) :
    Keeps anyFault (Tallied opened fds c k) (pollAddBoth cur o events) := by
  refine keeps_andThen (.ite (fun hr => ?_) fun _ => .pure _) fun _ =>
    .ite (fun hw => ?_) fun _ => .pure _
  · exact keeps_pollAdd hrep (.rdnorm hr)
  · exact keeps_pollAdd hrep (.wrnorm hw)

theorem keeps_tcpPollRegister (hrep : Reportable opened fds cur events) (hcur : cur < k)
    (state : TcpState) :
    Keeps anyFault (Tallied opened fds c k) (tcpPollRegister cur o events state) := by
  cases state with
  | connecting => exact .ite (fun _ => keeps_pollAdd hrep .rfl) fun _ => .pure _
  | listening => exact .ite (fun _ => keeps_pollAdd hrep .rfl) fun _ => .pure _
  | connected => exact keeps_pollAddBoth hrep
  | connectFailed => exact .bind (keeps_ready hrep hcur .rfl) fun _ => .pure _
  | unbound => exact .pure _
  | bound => exact .pure _

theorem keeps_udpPollRegister (hrep : Reportable opened fds cur events) (hcur : cur < k)
    (state : UdpState) :
    Keeps anyFault (Tallied opened fds c k) (udpPollRegister cur o events state) := by
  cases state with
  | unbound => exact .bind (keeps_ready hrep hcur .rfl) fun _ => .pure _
  | boundNostreams =>
    exact keeps_andThen (Tally.onWorld _) fun _ => keeps_pollAddBoth hrep
  | boundStreaming => exact keeps_pollAddBoth hrep
  | connected => exact keeps_pollAddBoth hrep

theorem keeps_streamsRegister (hrep : Reportable opened fds cur events) :
    Keeps anyFault (Tallied opened fds c k) (streamsRegister cur o events) := by
  refine .ite (fun _ => .pure _) fun _ =>
    keeps_andThen (.ite (fun hr => ?_) fun _ => .pure _) fun _ =>
      .ite (fun hw => ?_) fun _ => .pure _
  · exact keeps_andThen (Tally.onWorld _) fun _ =>
      keeps_pollAdd hrep (Within.rdnorm hr).of_strip
  · exact keeps_andThen (Tally.onWorld _) fun _ =>
      keeps_pollAdd hrep (Within.wrnorm hw).of_strip

theorem keeps_objectRegister (hrep : Reportable opened fds cur events) (hcur : cur < k)
    (obj : Object) : Keeps anyFault (Tallied opened fds c k) (objectRegister cur o events obj) := by
  cases obj with
  | tcp state => exact keeps_tcpPollRegister hrep hcur state
  | udp state => exact keeps_udpPollRegister hrep hcur state
  | file read write => exact keeps_streamsRegister hrep
  | stdio fd => exact keeps_streamsRegister hrep
  | other => exact keeps_streamsRegister hrep

theorem tallied_register {p : PollFd} (hp : fds[k]? = some p) (hpos : 0 ≤ p.fd)
    (h : Tallied (Opened table) fds c k s) :
    wp anyFault (register table k p) (fun _ s' => Tallied (Opened table) fds c (k + 1) s') s := by
  unfold register
  cases ho : table p.fd.toNat with
  | none =>
    rw [wp_bind]
    exact wp_mono (Tally.pollReady_nval hp hpos rfl h) fun _ _ h' => h'
  | some o =>
    have hopen : Opened table p.fd := by simp [Opened, ho]
    exact Keeps.bind (Tally.onWorld _) (fun obj =>
      keeps_objectRegister ⟨p, hp, hpos, hopen, rfl⟩ (Nat.lt_succ_self k) obj) s
        (h.pass hp (.inr hopen))

theorem Reg.Fits.lt {r : Reg} (h : r.Fits opened fds) : r.cur < fds.length := by
  obtain ⟨_, ⟨p, hp, -⟩, -⟩ := h
  exact (List.getElem?_eq_some_iff.mp hp).1

theorem tallied_finishAll (hk : fds.length ≤ k) (timer : Option (BitVec 64))
    (indices : List Nat) : Keeps anyFault (Tallied opened fds c k) (finishAll timer indices) := by
  refine keeps_finishAll (fun _ => Tally.onWorld _) (fun _ => Tally.onWorld _) ?_
    (fun _ h => h.regs) (fun _ _ h => h.congr rfl rfl h.regs h.clock) timer indices
  intro r e hr he
  have hlt := Nat.lt_of_lt_of_le hr.lt hk
  obtain ⟨asked, hrep, hwithin⟩ := hr
  exact keeps_ready hrep hlt fun m hm h => hwithin m hm (he m hm h)

/-- What the clock is asked for. -/
def asked (timeout : Option Timespec) (count : Nat) : Option (BitVec 64) :=
  (if 0 < count then some .zero else timeout).map Timespec.ns

theorem tallied_registerEach (h : Tallied (Opened table) fds c 0 s) :
    wp anyFault (registerEach (register table) 0 fds)
      (fun r s' => ∃ k, Tallied (Opened table) fds c k s' ∧ (r = .ok () → fds.length ≤ k)) s :=
  Tally.registerEach (fun _ _ hp hpos _ => tallied_register hp hpos) fds 0 List.drop_zero h

theorem tallied_ppollWait (timeout : Option Timespec) (hk : fds.length ≤ k)
    (h : Tallied opened fds c k s) :
    wp anyFault (ppollWait timeout)
      (fun r s' => Tallied opened fds (asked timeout s.count) k s' ∧ r = .ok s'.count) s := by
  simp only [ppollWait, wp_bind, wp_get, wp_modify, wp_pure]
  refine wp_mono (Tally.onWorld _ _ (h.congr rfl rfl h.regs rfl)) fun indices s₁ h₁ => ?_
  exact wp_mono (tallied_finishAll hk _ _ s₁ h₁) fun _ s₂ h₂ => ⟨h₂, trivial⟩

/-- The implementation reports what it may, and counts it. -/
theorem tallied_ppollImpl (timeout : Option Timespec) (hfds : s.fds = fds)
    (h : Tallied (Opened table) fds c 0 s) :
    wp anyFault (ppollImpl table timeout)
      (fun r s' => ∃ c k, Tallied (Opened table) fds c k s' ∧
        ∀ n, r = .ok n → fds.length ≤ k ∧ n = s'.count) s := by
  unfold ppollImpl andThen
  rw [wp_bind, wp_get, hfds, wp_bind]
  refine wp_mono (tallied_registerEach h) fun r s' h' => ?_
  obtain ⟨k, h', hk⟩ := h'
  cases r with
  | error e => exact ⟨c, k, h', nofun⟩
  | ok u =>
    refine wp_mono (tallied_ppollWait timeout (hk rfl) h') ?_
    rintro _ s₁ ⟨h₁, rfl⟩
    exact ⟨_, k, h₁, fun n hn => ⟨hk rfl, by cases hn; rfl⟩⟩

end Preview2

/-! ## wasip3 -/

namespace Preview3

variable {opened : Int → Prop} {fds : List PollFd} {c : Option (BitVec 64)} {k : Nat}

/-- What is reported is asked for, whatever the object says. -/
theorem within_reported (asked events : Events) : Within (reported asked events) asked := by
  have hconst : ∀ m ∈ maskable, ¬ (POLLERR ||| POLLHUP ||| POLLNVAL).Has m := by
    simp [maskable, Events.Has, POLLRDNORM, POLLWRNORM, POLLPRI, POLLERR, POLLHUP, POLLNVAL]
  intro m hm h
  unfold reported at h
  rcases has_or.mp h with h | h
  · exact h.right
  · exact (hconst m hm h.right).elim

theorem reported_nval (asked : Events) : reported asked POLLNVAL = POLLNVAL := by
  have h : POLLNVAL &&& (POLLERR ||| POLLHUP ||| POLLNVAL) = POLLNVAL := by
    simp [POLLERR, POLLHUP, POLLNVAL]
  unfold reported
  rw [h]
  ext i hi
  rw [BitVec.getElem_or, BitVec.getElem_and, Bool.or_eq_right_iff_imp]
  intro hboth
  exact (Bool.and_eq_true _ _ ▸ hboth).1

/-- A registration is of an open descriptor. -/
def Reg.Fits (opened : Int → Prop) (fds : List PollFd) (r : Reg) : Prop :=
  ∃ asked, Reportable opened fds r.cur asked

/-- The invariant of a call. -/
abbrev Tallied (opened : Int → Prop) (fds : List PollFd) :
    Option (BitVec 64) → Nat → State Reg World → Prop :=
  Tally opened fds (Reg.Fits opened fds)

/-- The walk keeps the invariant, with reports of what is open. -/
theorem closed_tallied : Closed (fun _ => none)
    (fun cur => (∃ asked, Reportable opened fds cur asked) ∧ cur < k) (fun _ => True)
    (Only (Tallied opened fds c k)) where
  length h := by rw [h.1]
  count h := by rw [h.1]
  same h := by rw [h.1]
  host h := by rw [h.1]
  calm _ _ _ ho := by cases ho
  plain _ := trivial
  ready := by
    rintro cur e ⟨⟨asked, hrep⟩, hcur⟩ -
    exact alike_of_keeps (Tally.pollReady hrep hcur (within_reported asked e))
  world := by
    rintro s _ w ⟨rfl, h⟩ -
    exact ⟨rfl, h.congr rfl rfl h.regs h.clock⟩
  elapsed := by
    rintro s _ n ⟨rfl, h⟩
    exact ⟨rfl, h.congr rfl rfl h.regs h.clock⟩
  regs := by
    rintro s _ l ⟨rfl, h⟩ hl
    exact ⟨rfl, h.congr rfl rfl (fun r hr => (hl r hr).elim (h.regs r) fun hr => hr.1) h.clock⟩

variable {s : State Reg World} {table : Nat → Option Nat}

theorem tallied_register {p : PollFd} (hp : fds[k]? = some p) (hpos : 0 ≤ p.fd)
    (h : Tallied (Opened table) fds c k s) :
    wp anyFault (register table k p) (fun _ s' => Tallied (Opened table) fds c (k + 1) s') s := by
  unfold register
  cases ho : table p.fd.toNat with
  | none =>
    rw [wp_bind]
    exact wp_mono (Tally.pollReady_nval hp hpos (reported_nval _) h) fun _ _ h' => h'
  | some o =>
    have hopen : Opened table p.fd := by simp [Opened, ho]
    have hrep : Reportable (Opened table) fds k p.events := ⟨p, hp, hpos, hopen, rfl⟩
    exact Keeps.bind (Tally.onWorld _) (fun obj => keeps_of_alike (alike_objectRegister
      closed_tallied ⟨⟨_, hrep⟩, Nat.lt_succ_self k⟩ rfl fun _ => ⟨trivial, rfl⟩)) s
        (h.pass hp (.inr hopen))

theorem Reg.Fits.lt {r : Reg} (h : r.Fits opened fds) : r.cur < fds.length := by
  obtain ⟨_, p, hp, -⟩ := h
  exact (List.getElem?_eq_some_iff.mp hp).1

theorem tallied_registerEach (h : Tallied (Opened table) fds c 0 s) :
    wp anyFault (registerEach (register table) 0 fds)
      (fun r s' => ∃ k, Tallied (Opened table) fds c k s' ∧ (r = .ok () → fds.length ≤ k)) s :=
  Tally.registerEach (fun _ _ hp hpos _ => tallied_register hp hpos) fds 0 List.drop_zero h

theorem tallied_startTimer (timeout : Option Timespec) (h : Tallied opened fds c k s) :
    wp anyFault (startTimer timeout)
      (fun _ s' => ∃ c', Tallied opened fds c' k s' ∧ ∀ t ∈ timeout, c' = some t.ns) s := by
  cases timeout with
  | none => exact ⟨c, h, nofun⟩
  | some t =>
    -- for any duration, so that the kernel does not evaluate it
    have htimer : ∀ d : BitVec 64, Keeps anyFault (Tallied opened fds (some d) k)
        (awaitTimer t d) := fun d => keeps_of_alike (alike_awaitTimer closed_tallied t d)
    show wp anyFault (awaitTimer t t.ns) _ { s with clock := some t.ns }
    refine wp_mono (htimer t.ns _ (h.congr rfl rfl h.regs rfl)) fun _ s' h' => ⟨_, h', ?_⟩
    rintro _ ⟨⟩
    rfl

theorem tallied_ppollWait (timeout : Option Timespec) (hk : fds.length ≤ k)
    (h : Tallied opened fds c k s) :
    wp anyFault (ppollWait timeout) (fun r s' => ∃ c', Tallied opened fds c' k s' ∧
      r = .ok s'.count ∧ ∀ t ∈ timeout, s.count = 0 → c' = some t.ns) s := by
  simp only [ppollWait, wp_bind, wp_get, wp_pure]
  refine wp_mono (tallied_startTimer _ h) ?_
  rintro timeout' s₁ ⟨c', h₁, hc⟩
  refine wp_mono (keeps_of_alike (alike_firstEvent closed_tallied timeout') s₁ h₁)
    fun event s₂ h₂ => ?_
  refine wp_mono (keeps_of_alike (alike_drain closed_tallied ?_ _ event) s₂ h₂)
    fun _ s₃ h₃ => ⟨c', h₃, trivial, fun t ht hcount => hc t ?_⟩
  · rintro s _ ⟨rfl, h⟩ r hr
    exact ⟨h.regs r hr, Nat.lt_of_lt_of_le (h.regs r hr).lt hk⟩
  · rwa [hcount]

theorem tallied_ppollBody (timeout : Option Timespec) (hfds : s.fds = fds)
    (h : Tallied (Opened table) fds c 0 s) :
    wp anyFault (ppollBody table timeout)
      (fun r s' => ∃ c k, Tallied (Opened table) fds c k s' ∧
        ∀ n, r = .ok n → fds.length ≤ k ∧ n = s'.count) s := by
  subst hfds
  have hnew : Tallied (Opened table) s.fds c 0 { s with world := { s.world with timer := none } } :=
    h.congr rfl rfl h.regs h.clock
  unfold ppollBody andThen
  rw [wp_bind, wp_modify, wp_bind, wp_get, wp_bind]
  refine wp_mono (tallied_registerEach hnew) fun r s' h' => ?_
  obtain ⟨k, h', hk⟩ := h'
  cases r with
  | error e => exact ⟨c, k, h', nofun⟩
  | ok u =>
    refine wp_mono (tallied_ppollWait timeout (hk rfl) h') ?_
    rintro _ s₁ ⟨c', h₁, rfl, -⟩
    exact ⟨c', k, h₁, fun n hn => ⟨hk rfl, by cases hn; rfl⟩⟩

/-- The end of the call changes no entry. -/
theorem tallied_cleanup (regs : List Reg) (h : Tallied opened fds c k s) :
    wp anyFault (cleanup regs) (fun _ s' => Tallied opened fds c k s' ∧ s'.count = s.count)
      { s with world := { s.world with timer := none } } := by
  have hcount : ∀ s : State Reg World,
      wp anyFault (cleanup regs) (fun _ s' => s'.count = s.count) s := by
    induction regs with
    | nil => exact fun _ => rfl
    | cons r rs ih =>
      intro s
      unfold cleanup
      rw [wp_bind, wp_onWorld]
      unfold wp
      cases callback r.waitable false s.world with
      | ok p => exact ih { s with world := p.2 }
      | error e => trivial
  exact wp_and (keeps_of_alike (alike_cleanup closed_tallied regs) _
    (h.congr rfl rfl h.regs h.clock)) (hcount _)

/-- The implementation reports what it may, and counts it. -/
theorem tallied_ppollImpl (timeout : Option Timespec) (hfds : s.fds = fds)
    (h : Tallied (Opened table) fds c 0 s) :
    wp anyFault (ppollImpl table timeout)
      (fun r s' => ∃ c k, Tallied (Opened table) fds c k s' ∧
        ∀ n, r = .ok n → fds.length ≤ k ∧ n = s'.count) s := by
  unfold ppollImpl
  rw [wp_bind]
  refine wp_mono (tallied_ppollBody timeout hfds h) fun r s' h' => ?_
  obtain ⟨c, k, h', hn⟩ := h'
  rw [wp_bind, wp_modify, wp_bind, wp_get, wp_bind]
  refine wp_mono (tallied_cleanup s'.regs h') fun _ s₂ h₂ =>
    ⟨c, k, h₂.1, fun n hr => ⟨(hn n hr).1, ?_⟩⟩
  rw [h₂.2]
  exact (hn n hr).2

end Preview3

/-! ## wasip1 -/

namespace Preview1

variable {fds : List PollFd}

/-- A subscription of an entry is for something that the entry asks for. -/
def Subscription.Fits (fds : List PollFd) : Subscription → Prop
  | .clock _ => True
  | .fd cur type => ∃ p, fds[cur]? = some p ∧ 0 ≤ p.fd ∧
      p.events.Has (match type with | .fdRead => POLLRDNORM | .fdWrite => POLLWRNORM)

/-- The invariant of a call until the entries are counted; which descriptors
are open is for the host to know. -/
structure Sound (fds : List PollFd) (c : Option (BitVec 64)) (s : State Subscription Answer) :
    Prop where
  asks : s.fds.map PollFd.asks = fds.map PollFd.asks
  entries : ∀ p ∈ s.fds, p.Fits fun _ => True
  regs : ∀ r ∈ s.regs, r.Fits fds
  clock : s.clock = c

variable {c : Option (BitVec 64)} {s : State Subscription Answer}

theorem Sound.subscribe (h : Sound fds c s) {r : Subscription} (hr : r.Fits fds) :
    Sound fds c { s with regs := s.regs ++ [r] } := by
  refine ⟨h.asks, h.entries, fun r' hr' => ?_, h.clock⟩
  rcases List.mem_append.mp hr' with hr' | hr'
  · exact h.regs r' hr'
  · exact List.mem_singleton.mp hr' ▸ hr

theorem keeps_subscribe {i : Nat} {p : PollFd} (hp : fds[i]? = some p) (hpos : 0 ≤ p.fd) :
    Keeps anyFault (Sound fds c) (subscribe i p) := by
  have hread : (strip p.events).Has POLLRDNORM → Subscription.Fits fds (.fd i .fdRead) :=
    fun hr => ⟨p, hp, hpos, hr.left⟩
  have hwrite : (strip p.events).Has POLLWRNORM → Subscription.Fits fds (.fd i .fdWrite) :=
    fun hw => ⟨p, hp, hpos, hw.left⟩
  have hlast : ∀ (b : Prop) [Decidable b], Keeps anyFault (Sound fds c)
      (if b then return .error .ENOSYS else return .ok () : M (Except Errno Unit)) :=
    fun _ _ => .ite (fun _ => .pure _) fun _ => .pure _
  unfold subscribe
  refine .ite (fun hr => ?_) fun _ => ?_
  · refine .bind (.modify fun s h => h.subscribe (hread hr)) fun _ => ?_
    exact .ite (fun hw => .bind (.modify fun s h => h.subscribe (hwrite hw)) fun _ => hlast _)
      fun _ => hlast _
  · exact .ite (fun hw => .bind (.modify fun s h => h.subscribe (hwrite hw)) fun _ => hlast _)
      fun _ => hlast _

/-- The events of an answer are asked for by the entry of its subscription. -/
theorem within_revents (e : Event) {type : EventType} {asked : Events}
    (h : asked.Has (match type with | .fdRead => POLLRDNORM | .fdWrite => POLLWRNORM)) :
    Within (e.revents type) asked := by
  have hfree : ∀ a ∈ [POLLNVAL, POLLHUP, POLLERR], Within a asked := by
    intro a ha
    refine .of_free ?_
    simp only [List.mem_cons, List.not_mem_nil, or_false] at ha
    rcases ha with rfl | rfl | rfl <;>
      simp [maskable, Events.Has, POLLRDNORM, POLLWRNORM, POLLPRI, POLLNVAL, POLLHUP, POLLERR]
  have hhangup : Within (if e.hangup then POLLHUP else 0) asked := by
    split
    · exact hfree _ (by simp)
    · exact .zero _
  unfold Event.revents
  split
  · exact hfree _ (by simp)
  · exact hfree _ (by simp)
  · exact hfree _ (by simp)
  · cases type with
    | fdRead => exact Within.or (.rdnorm h) hhangup
    | fdWrite => exact Within.or (.wrnorm h) hhangup

/-- An entry gets events that it asks for. -/
theorem Sound.set (h : Sound fds c s) {cur : Nat} {p q : PollFd}
    (hp : fds[cur]? = some p) (hpos : 0 ≤ p.fd) (hq : s.fds[cur]? = some q) {r : Events}
    (hr : Within r p.events) :
    Sound fds c { s with fds := s.fds.set cur { q with revents := q.revents ||| r } } := by
  have hasks : q.asks = p.asks := by
    have heq := congrArg (·[cur]?) h.asks
    simpa [hq, hp] using heq
  have hfd : q.fd = p.fd := congrArg Prod.fst hasks
  have hevents : q.events = p.events := congrArg Prod.snd hasks
  refine ⟨?_, fun p' hp' => ?_, h.regs, h.clock⟩
  · exact (asks_set hq _).trans h.asks
  · rcases List.mem_or_eq_of_mem_set hp' with hp' | rfl
    · exact h.entries p' hp'
    · have hold := h.entries q (List.mem_of_getElem? hq)
      refine ⟨fun hneg => ?_, ?_, fun _ hclosed => (hclosed trivial).elim⟩
      · have : q.fd < 0 := hneg
        omega
      · exact hold.within.or (hevents ▸ hr)

theorem keeps_report (e : Event) : Keeps anyFault (Sound fds c) (report e) := by
  intro s h
  unfold report
  rw [wp_bind, wp_get]
  cases hr : s.regs[e.subscription]? with
  | none => trivial
  | some r =>
    cases r with
    | clock timeout => exact ⟨h.asks, h.entries, h.regs, h.clock⟩
    | fd cur type =>
      obtain ⟨p, hp, hpos, hasked⟩ := h.regs _ (List.mem_of_getElem? hr)
      cases hq : s.fds[cur]? with
      | none => simp only [hq]; trivial
      | some q =>
        simp only [hq, wp_modify]
        exact h.set hp hpos hq (within_revents e hasked)

theorem keeps_reportAll (events : List Event) :
    Keeps anyFault (Sound fds c) (reportAll events) := by
  induction events with
  | nil => exact .pure _
  | cons e es ih => exact .bind (keeps_report e) fun _ => ih

/-- The last loop keeps what is asked for, and each entry sound. -/
theorem conclude_spec {l : List PollFd} (h : ∀ p ∈ l, p.Fits fun _ => True) :
    (conclude l).1.map PollFd.asks = l.map PollFd.asks ∧
    (conclude l).2 = (conclude l).1.countP (fun p => p.revents ≠ 0) ∧
    ∀ p ∈ (conclude l).1, p.Fits fun _ => True := by
  induction l with
  | nil => simp [conclude]
  | cons p ps ih =>
    obtain ⟨hasks, hcount, hfits⟩ := ih fun q hq => h q (List.mem_cons_of_mem p hq)
    have hp := h p List.mem_cons_self
    have hhead : ∀ q, q = (if p.revents.Has POLLHUP then
        { p with revents := p.revents &&& ~~~POLLWRNORM } else p) →
        q.asks = p.asks ∧ q.Fits fun _ => True := by
      rintro q rfl
      split
      · refine ⟨rfl, fun hneg => ?_, hp.within.and _, fun _ hclosed => (hclosed trivial).elim⟩
        show p.revents &&& _ = 0
        rw [hp.negative hneg]
        exact BitVec.zero_and
      · exact ⟨rfl, hp⟩
    obtain ⟨hq, hqfits⟩ := hhead _ rfl
    simp only [conclude, List.map_cons, List.countP_cons, List.forall_mem_cons]
    refine ⟨by rw [hasks, hq], ?_, hqfits, hfits⟩
    rw [hcount]
    generalize (if p.revents.Has POLLHUP then _ else p : PollFd) = q
    by_cases hzero : q.revents = 0
    · simp [hzero]
    · rw [if_pos hzero, if_pos (by simpa using hzero)]

theorem keeps_pollOneoff : Keeps anyFault (Sound fds c) pollOneoff := by
  refine .get fun s _ => ?_
  cases s.world with
  | error e => exact .pure _
  | ok events => exact .bind (.require trivial) fun _ => .pure _

/-- The clock is asked for the timeout, if there is one. -/
theorem Sound.ask (h : Sound fds c s) (timeout : Option Timespec) :
    Sound fds (timeout.map Timespec.ns) { s with
      regs := s.regs ++ (timeout.map fun t => Subscription.clock t.ns).toList
      clock := timeout.map Timespec.ns } := by
  refine ⟨h.asks, h.entries, fun r hr => ?_, rfl⟩
  rcases List.mem_append.mp hr with hr | hr
  · exact h.regs r hr
  · simp only [Option.mem_toList, Option.map_eq_some_iff] at hr
    obtain ⟨t, -, rfl⟩ := hr
    trivial

/-- The implementation reports what it may, and counts it. -/
theorem sound_ppollImpl (timeout : Option Timespec) (hfds : s.fds = fds) (h : Sound fds none s) :
    wp anyFault (ppollImpl timeout)
      (fun r s' => ∃ c, Sound fds c s' ∧
        (c = timeout.map Timespec.ns ∨ c = none ∧ ∃ e, r = .error e) ∧
        ∀ n, r = .ok n → Reported (fun _ => True) fds n s') s := by
  unfold ppollImpl andThen
  rw [wp_bind, wp_get, hfds, wp_bind]
  refine wp_mono (keeps_registerEach (fun i p hp hpos => keeps_subscribe hp hpos) fds 0
    List.drop_zero s h) fun r s' h' => ?_
  cases r with
  | error e => exact ⟨none, h', .inr ⟨rfl, e, rfl⟩, nofun⟩
  | ok u =>
    rw [wp_bind, wp_modify, wp_bind]
    refine wp_mono (keeps_pollOneoff _ (h'.ask timeout)) fun r s₁ h₁ => ?_
    cases r with
    | error e => exact ⟨_, h₁, .inl rfl, nofun⟩
    | ok events =>
      rw [wp_bind]
      refine wp_mono (keeps_reportAll events s₁ h₁) fun _ s₂ h₂ => ?_
      obtain ⟨hasks, hcount, hfits⟩ := conclude_spec h₂.entries
      refine ⟨_, ⟨hasks.trans h₂.asks, hfits, h₂.regs, h₂.clock⟩, .inl rfl, fun n hn => ?_⟩
      cases hn
      exact ⟨hasks.trans h₂.asks, hcount, hfits⟩

theorem sound_cleared (fds : List PollFd) (answer : Answer) :
    Sound (cleared fds) none (start (cleared fds) answer) := by
  refine ⟨rfl, fun p hp => ?_, nofun, rfl⟩
  obtain ⟨q, -, rfl⟩ := List.mem_map.mp hp
  exact ⟨fun _ => rfl, .zero _, fun _ hclosed => (hclosed trivial).elim⟩

end Preview1

variable {timeout : Option Timespec} {fds : List PollFd} {n : Nat}

theorem Preview1.reported_call {answer : Answer} {s : State Subscription Answer}
    (hrun : call answer timeout fds = .ok (.ok n, s)) : Reported (fun _ => True) fds n s := by
  have himpl := sound_ppollImpl timeout (s := start (cleared fds) answer) rfl
    (sound_cleared fds answer)
  rcases ppoll_eq ppollImpl timeout fds answer with ⟨e, heq⟩ | heq
  · rw [call, StateT.run, heq] at hrun
    cases hrun
  · obtain ⟨_, -, -, hn⟩ := post_of_wp himpl (heq.symm.trans hrun)
    exact (hn n rfl).of_cleared

theorem Preview2.reported_call {table : Nat → Option Nat} {w : World} {s : State Reg World}
    (hrun : call table w timeout fds = .ok (.ok n, s)) : Reported (Opened table) fds n s :=
  reported_of_ppoll (tallied_ppollImpl timeout rfl (tally_cleared fds w)) hrun

theorem Preview3.reported_call {table : Nat → Option Nat} {w : World} {s : State Reg World}
    (hrun : call table w timeout fds = .ok (.ok n, s)) : Reported (Opened table) fds n s :=
  reported_of_ppoll (tallied_ppollImpl timeout rfl (tally_cleared fds w)) hrun

/-- Whenever `ppoll` returns a number, on any target, for any objects and
whatever the host does, it is the number of entries with events.  Negative
entries have none, readiness is reported only where it was asked for, and an
entry whose descriptor is not open says just that.  (wasip1 leaves it to the
host which descriptors are open.) -/
theorem ppoll_count (timeout : Option Timespec) (fds : List PollFd) :
    (∀ answer n s, Preview1.call answer timeout fds = .ok (.ok n, s) →
      Reported (fun _ => True) fds n s) ∧
    (∀ table w n s, Preview2.call table w timeout fds = .ok (.ok n, s) →
      Reported (Opened table) fds n s) ∧
    (∀ table w n s, Preview3.call table w timeout fds = .ok (.ok n, s) →
      Reported (Opened table) fds n s) :=
  ⟨fun _ _ _ => Preview1.reported_call, fun _ _ _ _ => Preview2.reported_call,
    fun _ _ _ _ => Preview3.reported_call⟩

/-- Descriptor 3 is the reading end of a pipe with data in it. -/
def oneOpen (fd : Nat) : Option Nat := if fd = 3 then some 0 else none

def readablePipe : Preview3.World :=
  ⟨fun _ => .pipe ⟨true, 1, 4, true, false, false⟩, none, [.waitFor true, .event none, .event none]⟩

/-- The pipe is listed twice, descriptor 4 is not open, and the last entry is
negative. -/
def fourEntries : List PollFd :=
  [⟨3, POLLRDNORM, 0⟩, ⟨3, POLLRDNORM ||| POLLWRNORM, 0⟩, ⟨4, POLLRDNORM, 0⟩, ⟨-1, POLLRDNORM, 0⟩]

theorem ppoll_count_pipe :
    ∃ s, Preview3.call oneOpen readablePipe none fourEntries = .ok (.ok 3, s) ∧
      Reported (Opened oneOpen) fourEntries 3 s := by
  have hrun : ∃ s, Preview3.call oneOpen readablePipe none fourEntries = .ok (.ok 3, s) := ⟨_, rfl⟩
  obtain ⟨s, hs⟩ := hrun
  exact ⟨s, hs, (ppoll_count none fourEntries).2.2 oneOpen readablePipe 3 s hs⟩

end WasiLibc.Poll
