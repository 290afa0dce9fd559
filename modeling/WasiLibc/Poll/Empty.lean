import WasiLibc.Poll.Walk

/-!
# WasiLibc.Poll.Empty

When `ppoll` of wasip2 has nothing to wait for.

A call registers what its entries ask for, and adds the timer if it has a
timeout or has already counted an event.  `poll_poll` of no pollable is a trap,
and nothing in the call guards against it: `ppoll_never_traps_iff` says for
which entries and timeouts the trap is out of reach.
-/

namespace WasiLibc.Poll.Preview2

open Wp

/-- Every stop but the trap of `poll_poll`. -/
abbrev NotTrap : Fault → Prop := fun f => f ≠ .trap

/-! ## Entries with nothing to wait for -/

/-- The object registers nothing for the events, and has none to report. -/
def Object.Idle (obj : Object) (events : Events) : Prop :=
  match obj with
  | .tcp .unbound => False
  | .tcp .bound => False
  | .tcp .connecting => ¬ events.Has (POLLRDNORM ||| POLLWRNORM)
  | .tcp .connected => ¬ (events.Has POLLRDNORM ∨ events.Has POLLWRNORM)
  | .tcp .connectFailed => events = 0
  | .tcp .listening => ¬ events.Has POLLRDNORM
  | .udp .unbound => events = 0
  | .udp _ => ¬ (events.Has POLLRDNORM ∨ events.Has POLLWRNORM)
  | _ => strip events = 0

/-- The entry names an object that is idle for what it asks for. -/
def IdleEntry (table : Nat → Option Nat) (objects : Nat → Object) (p : PollFd) : Prop :=
  ∃ o, table p.fd.toNat = some o ∧ (objects o).Idle p.events

/-- Streams that are opened leave an object as idle as it was. -/
theorem idle_openRead (obj : Object) (e : Events) : (openRead obj).Idle e ↔ obj.Idle e := by
  cases obj <;> rfl

theorem idle_openWrite (obj : Object) (e : Events) : (openWrite obj).Idle e ↔ obj.Idle e := by
  cases obj <;> rfl

theorem idle_createStreams (obj : Object) (e : Events) :
    (createStreams obj).Idle e ↔ obj.Idle e := by
  cases obj with
  | udp state => cases state <;> rfl
  | _ => rfl

/-- What is asked for of a stream, if it is supported. -/
theorem has_of_supported {e : Events} (hsupported : e &&& ~~~(POLLRDNORM ||| POLLWRNORM) = 0)
    (hne : e ≠ 0) : e.Has POLLRDNORM ∨ e.Has POLLWRNORM := by
  by_contra hnot
  simp only [not_or, Events.Has, not_not] at hnot
  apply hne
  have hsplit : e = (e &&& ~~~(POLLRDNORM ||| POLLWRNORM)) |||
      ((e &&& POLLRDNORM) ||| (e &&& POLLWRNORM)) := by
    ext i hi
    simp only [BitVec.getElem_or, BitVec.getElem_and, BitVec.getElem_not]
    grind
  rw [hsplit, hsupported, hnot.1, hnot.2]
  rfl

/-! ## A registration that is not idle -/

variable {α β : Type} {w : World} {b : Prop} {s : State Reg World} {cur o : Nat} {events : Events}

/-- The postcondition of a step that may fail, for its success. -/
def OnOk (P : State Reg World → Prop) (r : Except Errno α) (s : State Reg World) : Prop :=
  ∀ a, r = .ok a → P s

theorem wp_andThen {ok : Fault → Prop} {P Q : State Reg World → Prop}
    {f : M (Except Errno α)} {g : α → M (Except Errno β)} (hf : wp ok f (OnOk P) s)
    (hg : ∀ a s', P s' → wp ok (g a) (OnOk Q) s') : wp ok (andThen f g) (OnOk Q) s := by
  unfold andThen
  rw [wp_bind]
  refine wp_mono hf fun r s' h => ?_
  cases r with
  | error e => exact nofun
  | ok a => exact hg a s' (h a rfl)

/-- The walk over the entries: an event is counted if an entry has one, the
objects are as idle as they were in `w`, and if `b` then there is something to
wait for or to report. -/
structure Walk (w : World) (b : Prop) (s : State Reg World) : Prop where
  counted : ∀ p ∈ s.fds, p.revents ≠ 0 → 0 < s.count
  alike : ∀ o e, (s.world.objects o).Idle e ↔ (w.objects o).Idle e
  stirred : b → s.regs ≠ [] ∨ 0 < s.count

theorem Walk.mono {b' : Prop} (h : Walk w b s) (hb : b' → b) : Walk w b' s :=
  ⟨h.counted, h.alike, fun h' => h.stirred (hb h')⟩

theorem walk_pollAdd (h : Walk w b s) :
    wp NotTrap (pollAdd cur o events) (OnOk (Walk w True)) s := by
  unfold pollAdd
  rw [wp_bind, wp_get, wp_ite]
  split
  · exact nofun
  · exact fun a _ => ⟨h.counted, h.alike, fun _ => .inl (by simp)⟩

theorem walk_ready (h : Walk w b s) :
    wp NotTrap (ready cur events) (fun _ => Walk w (b ∨ events ≠ 0)) s := by
  unfold ready pollReady
  rw [wp_bind, wp_get]
  cases hp : s.fds[cur]? with
  | none => simp [NotTrap]
  | some p =>
    simp only
    rw [wp_ite]
    split
    case isFalse hzero => exact h.mono fun hb => hb.resolve_right hzero
    case isTrue hne =>
      have hpos : 0 < if p.revents = 0 then s.count + 1 else s.count := by
        split
        · exact Nat.succ_pos _
        case isFalse hrevents => exact h.counted p (List.mem_of_getElem? hp) hrevents
      exact ⟨fun _ _ _ => hpos, h.alike, fun _ => .inr hpos⟩

/-- A registration that is made only for an event that is asked for. -/
theorem walk_asked {c : Prop} [Decidable c] {f : M (Except Errno Unit)} (h : Walk w b s)
    (hf : wp NotTrap f (OnOk (Walk w True)) s) :
    wp NotTrap (if c then f else return .ok ()) (OnOk (Walk w (b ∨ c))) s := by
  split
  · exact wp_mono hf fun r s' h' a ha => (h' a ha).mono fun _ => trivial
  case isFalse hnot => exact fun a _ => h.mono fun hb => hb.resolve_right hnot

theorem walk_pollAddBoth (h : Walk w b s) :
    wp NotTrap (pollAddBoth cur o events)
      (OnOk (Walk w (b ∨ events.Has POLLRDNORM ∨ events.Has POLLWRNORM))) s := by
  refine wp_andThen (walk_asked h (walk_pollAdd h)) fun _ s' h' => ?_
  exact wp_mono (walk_asked h' (walk_pollAdd h')) fun _ _ h'' a ha =>
    (h'' a ha).mono or_assoc.mpr

/-- The host opens streams. -/
theorem walk_openStreams {opened : Object → Object}
    (hopened : ∀ obj e, (opened obj).Idle e ↔ obj.Idle e) (h : Walk w b s) :
    wp NotTrap (onWorld (openStreams o opened)) (fun _ => Walk w b) s := by
  rw [wp_onWorld]
  unfold openStreams next
  rw [wp_bind, wp_bind, wp_get]
  cases s.world.script with
  | nil => simp [NotTrap]
  | cons a script =>
    simp only [wp_bind, wp_modify, wp_pure]
    cases a with
    | ready => simp [NotTrap]
    | finishConnect => simp [NotTrap]
    | opened r =>
      cases r with
      | error e => exact ⟨h.counted, h.alike, h.stirred⟩
      | ok u =>
        refine ⟨h.counted, fun o' e => ?_, h.stirred⟩
        by_cases ho : o' = o
        · subst ho
          simp [hopened, h.alike]
        · simp [Function.update_of_ne ho, h.alike]

theorem walk_getReadStream (h : Walk w b s) :
    wp NotTrap (onWorld (getReadStream o)) (fun _ => Walk w b) s := by
  have hopen := walk_openStreams (o := o) idle_openRead h
  rw [wp_onWorld] at hopen ⊢
  unfold getReadStream
  rw [wp_bind, wp_get]
  split
  · exact hopen
  all_goals exact h

theorem walk_getWriteStream (h : Walk w b s) :
    wp NotTrap (onWorld (getWriteStream o)) (fun _ => Walk w b) s := by
  have hopen := walk_openStreams (o := o) idle_openWrite h
  rw [wp_onWorld] at hopen ⊢
  unfold getWriteStream
  rw [wp_bind, wp_get]
  split
  · exact hopen
  all_goals exact h

theorem walk_streamsRegister (h : Walk w b s) :
    wp NotTrap (streamsRegister cur o events) (OnOk (Walk w (b ∨ strip events ≠ 0))) s := by
  simp only [streamsRegister]
  split
  case isTrue => exact nofun
  case isFalse hsupported =>
    rw [not_not] at hsupported
    have hread : wp NotTrap (andThen (onWorld (getReadStream o)) fun _ => pollAdd cur o POLLRDNORM)
        (OnOk (Walk w True)) s :=
      wp_andThen (wp_mono (walk_getReadStream h) fun _ _ h' _ _ => h') fun _ _ h' => walk_pollAdd h'
    refine wp_andThen (walk_asked h hread) fun _ s' h' => ?_
    refine wp_mono (walk_asked h' ?_) fun _ _ h'' a ha => (h'' a ha).mono fun hb =>
      or_assoc.mpr (hb.imp_right (has_of_supported hsupported))
    exact wp_andThen (wp_mono (walk_getWriteStream h') fun _ _ h' _ _ => h')
      fun _ _ h' => walk_pollAdd h'

theorem walk_tcpPollRegister (h : Walk w b s) (state : TcpState) :
    wp NotTrap (tcpPollRegister cur o events state)
      (OnOk (Walk w (b ∨ ¬ (Object.tcp state).Idle events))) s := by
  have hadd : ∀ {c : Prop} [Decidable c], wp NotTrap
      (if c then pollAdd cur o events else return .ok ()) (OnOk (Walk w (b ∨ ¬ ¬ c))) s :=
    wp_mono (walk_asked h (walk_pollAdd h)) fun _ _ h' a ha =>
      (h' a ha).mono fun hb => hb.imp_right not_not.mp
  cases state with
  | unbound => exact nofun
  | bound => exact nofun
  | connecting => exact hadd
  | listening => exact hadd
  | connected =>
    exact wp_mono (walk_pollAddBoth h) fun r s' h' a ha =>
      (h' a ha).mono fun hb => hb.imp_right not_not.mp
  | connectFailed =>
    simp only [tcpPollRegister, wp_bind, wp_pure]
    exact wp_mono (walk_ready h) fun _ s' h' a _ => h'

theorem walk_udpPollRegister (h : Walk w b s) (state : UdpState) :
    wp NotTrap (udpPollRegister cur o events state)
      (OnOk (Walk w (b ∨ ¬ (Object.udp state).Idle events))) s := by
  have hboth : ∀ s, Walk w b s → wp NotTrap (pollAddBoth cur o events)
      (OnOk (Walk w (b ∨ ¬ ¬ (events.Has POLLRDNORM ∨ events.Has POLLWRNORM)))) s :=
    fun s h => wp_mono (walk_pollAddBoth h) fun r s' h' a ha =>
      (h' a ha).mono fun hb => hb.imp_right not_not.mp
  cases state with
  | unbound =>
    simp only [udpPollRegister, wp_bind, wp_pure]
    exact wp_mono (walk_ready h) fun _ s' h' a _ => h'
  | boundNostreams =>
    refine wp_andThen (wp_mono (walk_openStreams idle_createStreams h) fun _ _ h' _ _ => h')
      fun _ s' h' => hboth s' h'
  | boundStreaming => exact hboth s h
  | connected => exact hboth s h

theorem walk_objectRegister (h : Walk w b s) (obj : Object) :
    wp NotTrap (objectRegister cur o events obj) (OnOk (Walk w (b ∨ ¬ obj.Idle events))) s := by
  cases obj with
  | tcp state => exact walk_tcpPollRegister h state
  | udp state => exact walk_udpPollRegister h state
  | file => exact walk_streamsRegister h
  | stdio => exact walk_streamsRegister h
  | other => exact walk_streamsRegister h

variable {table : Nat → Option Nat}

/-- One entry: if it is not idle then there is something to wait for or to
report afterwards, unless its registration fails. -/
theorem walk_register (h : Walk w b s) (i : Nat) (p : PollFd) :
    wp NotTrap (register table i p)
      (OnOk (Walk w (b ∨ ¬ IdleEntry table w.objects p))) s := by
  unfold register
  cases ho : table p.fd.toNat with
  | none =>
    simp only [wp_bind, wp_pure]
    refine wp_mono (walk_ready h) fun _ s' h' a _ => h'.mono fun hb => ?_
    exact hb.imp_right fun _ => by decide
  | some o =>
    simp only [wp_bind, wp_onWorld]
    show wp NotTrap (objectRegister i o p.events (s.world.objects o)) _ s
    refine wp_mono (walk_objectRegister h (s.world.objects o)) fun r s' h' a ha => ?_
    refine (h' a ha).mono fun hb => hb.imp_right fun hnot hidle => hnot ?_
    exact ⟨o, ho, (h.alike o p.events).mp hidle⟩

theorem walk_registerEach (h : Walk w b s) (i : Nat)
    (ps : List PollFd) :
    wp NotTrap (registerEach (register table) i ps)
      (OnOk (Walk w (b ∨ ∃ p ∈ ps, 0 ≤ p.fd ∧ ¬ IdleEntry table w.objects p))) s := by
  induction ps generalizing b s i with
  | nil => exact fun a _ => h.mono fun hb => hb.resolve_right (by simp)
  | cons p ps ih =>
    rw [registerEach]
    split
    case isTrue hneg =>
      refine wp_mono (ih h (i + 1)) fun r s' h' a ha => (h' a ha).mono fun hb => ?_
      refine hb.imp_right ?_
      rintro ⟨q, hq, hpos, hq'⟩
      rcases List.mem_cons.mp hq with rfl | hq
      · omega
      · exact ⟨q, hq, hpos, hq'⟩
    case isFalse =>
      refine wp_andThen (walk_register h i p) fun _ s' h' => ?_
      refine wp_mono (ih h' (i + 1)) fun r s' h' a ha => (h' a ha).mono fun hb => ?_
      rcases hb with hb | ⟨q, hq, hpos, hq'⟩
      · exact .inl (.inl hb)
      · rcases List.mem_cons.mp hq with rfl | hq
        · exact .inl (.inr hq')
        · exact .inr ⟨q, hq, hpos, hq'⟩

/-! ## The wait -/

theorem keeps_ready_notTrap (cur : Nat) (events : Events) :
    Keeps NotTrap (fun _ => True) (ready cur events) := by
  intro s _
  unfold ready pollReady
  rw [wp_bind, wp_get]
  cases s.fds[cur]? with
  | none => simp [NotTrap]
  | some p =>
    simp only
    rw [wp_ite]
    split <;> trivial

theorem keeps_finishConnect_notTrap (o : Nat) :
    Keeps NotTrap (fun _ => True) (onWorld (finishConnect o) : M Connect) := by
  intro s _
  rw [wp_onWorld]
  unfold finishConnect next
  rw [wp_bind, wp_bind, wp_get]
  cases s.world.script with
  | nil => simp [NotTrap]
  | cons a script =>
    simp only [wp_bind, wp_modify, wp_pure]
    cases a with
    | ready => simp [NotTrap]
    | opened => simp [NotTrap]
    | finishConnect r => cases r <;> trivial

theorem keeps_finishAll_notTrap (timer : Option (BitVec 64)) (indices : List Nat) :
    Keeps NotTrap (fun _ => True) (finishAll timer indices) := by
  have hobject : ∀ o, Keeps NotTrap (fun _ => True) (onWorld (object o) : M Object) :=
    fun _ _ _ => wp_onWorld.mpr trivial
  exact keeps_finishAll (K := fun _ => True) hobject keeps_finishConnect_notTrap
    (fun _ _ => keeps_ready_notTrap _ _) (fun _ _ _ _ => trivial) (fun _ _ _ => trivial) _ _

/-- `poll_poll` of something. -/
theorem pollPoll_notTrap {n : Nat} (hn : 0 < n) :
    wp NotTrap (onWorld (pollPoll n)) (fun _ _ => True) s := by
  rw [wp_onWorld]
  unfold pollPoll next
  rw [wp_bind, wp_require]
  refine ⟨fun _ => ?_, fun hnot => absurd hn hnot⟩
  rw [wp_bind, wp_bind, wp_get]
  cases s.world.script with
  | nil => simp [NotTrap]
  | cons a script =>
    simp only [wp_bind, wp_modify, wp_pure]
    cases a with
    | ready indices => simp [NotTrap]
    | opened => simp [NotTrap]
    | finishConnect => simp [NotTrap]

theorem ppollWait_notTrap {timeout : Option Timespec}
    (h : timeout.isSome ∨ s.regs ≠ [] ∨ 0 < s.count) :
    wp NotTrap (ppollWait timeout) (fun _ _ => True) s := by
  unfold ppollWait
  rw [wp_bind, wp_get, wp_bind, wp_modify, wp_bind, wp_get, wp_bind]
  have hn : 0 < s.regs.length + if (Option.map Timespec.ns
      (if 0 < s.count then some Timespec.zero else timeout)).isSome then 1 else 0 := by
    by_cases hcount : 0 < s.count
    · simp [hcount]
    · rcases h with h | h | h
      · simp [hcount, h]
      · exact Nat.add_pos_left (List.length_pos_iff.mpr h) _
      · exact absurd h hcount
  refine wp_mono (pollPoll_notTrap hn) fun indices s' _ => ?_
  rw [wp_bind]
  exact wp_mono (keeps_finishAll_notTrap _ indices s' trivial) fun _ _ _ => trivial

/-- Nothing to wait for, nothing to report, and no timeout. -/
theorem ppollWait_traps (hregs : s.regs = []) (hcount : s.count = 0) :
    ppollWait none s = .error .trap := by
  obtain ⟨fds, count, regs, elapsed, clock, world⟩ := s
  cases hregs
  cases hcount
  rfl

/-! ## Entries that are all idle -/

/-- Nothing has been registered or reported, and the host will still open
streams `n` times. -/
structure Quiet (w : World) (fds : List PollFd) (n : Nat) (s : State Reg World) : Prop where
  fds : s.fds = fds
  regs : s.regs = []
  count : s.count = 0
  alike : ∀ o e, (s.world.objects o).Idle e ↔ (w.objects o).Idle e
  script : ∃ k, n ≤ k ∧ s.world.script = List.replicate k (.opened (.ok ()))

variable {fds : List PollFd} {n : Nat}

theorem Quiet.le {m : Nat} (h : Quiet w fds n s) (hle : m ≤ n) : Quiet w fds m s := by
  obtain ⟨k, hk, hscript⟩ := h.script
  exact ⟨h.fds, h.regs, h.count, h.alike, k, Nat.le_trans hle hk, hscript⟩

theorem quiet_ready (h : Quiet w fds n s) {p : PollFd} (hp : fds[cur]? = some p) :
    wp (fun _ => False) (ready cur 0) (fun _ => Quiet w fds n) s := by
  unfold ready pollReady
  rw [wp_bind, wp_get, h.fds, hp]
  exact h

theorem quiet_openStreams {opened : Object → Object}
    (hopened : ∀ obj e, (opened obj).Idle e ↔ obj.Idle e) (h : Quiet w fds (n + 1) s) :
    wp (fun _ => False) (onWorld (openStreams o opened))
      (fun r s' => r = .ok () ∧ Quiet w fds n s') s := by
  obtain ⟨k, hk, hscript⟩ := h.script
  obtain ⟨k, rfl⟩ : ∃ k', k = k' + 1 := ⟨k - 1, by omega⟩
  rw [wp_onWorld]
  unfold openStreams next
  rw [wp_bind, wp_bind, wp_get, hscript, List.replicate_succ]
  refine ⟨rfl, h.fds, h.regs, h.count, fun o' e => ?_, k, by omega, rfl⟩
  by_cases ho : o' = o
  · subst ho
    simp [hopened, h.alike]
  · simp [Function.update_of_ne ho, h.alike]

theorem pollAddBoth_idle (h : ¬ (events.Has POLLRDNORM ∨ events.Has POLLWRNORM)) :
    pollAddBoth cur o events = pure (.ok ()) := by
  unfold pollAddBoth
  rw [if_neg fun hr => h (.inl hr), if_neg fun hw => h (.inr hw)]
  rfl

theorem streamsRegister_idle (h : strip events = 0) :
    streamsRegister cur o events = pure (.ok ()) := by
  simp only [streamsRegister, h, if_neg (not_has_zero _)]
  rfl

/-- The registration of an object that is idle. -/
theorem quiet_objectRegister (h : Quiet w fds (n + 1) s) {p : PollFd} (hp : fds[cur]? = some p)
    {obj : Object} (hidle : obj.Idle events) :
    wp (fun _ => False) (objectRegister cur o events obj)
      (fun r s' => r = .ok () ∧ Quiet w fds n s') s := by
  have hle : Quiet w fds n s := h.le (Nat.le_succ n)
  have hready : events = 0 → wp (fun _ => False)
      (do ready cur events; return .ok () : M (Except Errno Unit))
      (fun r s' => r = .ok () ∧ Quiet w fds n s') s := by
    rintro rfl
    rw [wp_bind]
    exact wp_mono (quiet_ready hle hp) fun _ s' h' => ⟨rfl, h'⟩
  have hboth : ¬ (events.Has POLLRDNORM ∨ events.Has POLLWRNORM) →
      wp (fun _ => False) (pollAddBoth cur o events)
        (fun r s' => r = .ok () ∧ Quiet w fds n s') s := by
    intro hnot
    rw [pollAddBoth_idle hnot]
    exact ⟨rfl, hle⟩
  have hstreams : strip events = 0 → wp (fun _ => False) (streamsRegister cur o events)
      (fun r s' => r = .ok () ∧ Quiet w fds n s') s := by
    intro hzero
    rw [streamsRegister_idle hzero]
    exact ⟨rfl, hle⟩
  cases obj with
  | file => exact hstreams hidle
  | stdio => exact hstreams hidle
  | other => exact hstreams hidle
  | tcp state =>
    cases state with
    | unbound => exact hidle.elim
    | bound => exact hidle.elim
    | connecting =>
      simp only [objectRegister, tcpPollRegister, if_neg hidle]
      exact ⟨rfl, hle⟩
    | listening =>
      simp only [objectRegister, tcpPollRegister, if_neg hidle]
      exact ⟨rfl, hle⟩
    | connected => exact hboth hidle
    | connectFailed => exact hready hidle
  | udp state =>
    cases state with
    | unbound => exact hready hidle
    | boundNostreams =>
      simp only [objectRegister, udpPollRegister, andThen, pollAddBoth_idle hidle, wp_bind]
      refine wp_mono (quiet_openStreams idle_createStreams h) ?_
      rintro r s' ⟨rfl, h'⟩
      exact ⟨rfl, h'⟩
    | boundStreaming => exact hboth hidle
    | connected => exact hboth hidle

theorem quiet_registerEach {ps : List PollFd} {i : Nat}
    (h : Quiet w fds ps.length s) (hps : fds.drop i = ps)
    (hidle : ∀ p ∈ ps, 0 ≤ p.fd → IdleEntry table w.objects p) :
    wp (fun _ => False) (registerEach (register table) i ps)
      (fun r s' => r = .ok () ∧ Quiet w fds 0 s') s := by
  induction ps generalizing i s with
  | nil => exact ⟨rfl, h⟩
  | cons p ps ih =>
    have hp : fds[i]? = some p := by
      rw [← List.head?_drop, hps]
      rfl
    have hrest : ∀ s, Quiet w fds ps.length s → _ := fun s h =>
      ih (i := i + 1) h (by rw [← List.drop_drop, hps]; rfl)
        fun q hq => hidle q (List.mem_cons_of_mem p hq)
    rw [registerEach]
    split
    case isTrue => exact hrest s (h.le (Nat.le_succ _))
    case isFalse hpos =>
      obtain ⟨o, ho, hobj⟩ := hidle p List.mem_cons_self (by omega)
      unfold andThen register
      rw [ho]
      simp only [wp_bind, wp_onWorld]
      show wp _ (objectRegister i o p.events (s.world.objects o)) _ s
      refine wp_mono (quiet_objectRegister h hp ((h.alike o p.events).mpr hobj)) ?_
      rintro r s' ⟨rfl, h'⟩
      exact hrest s' h'

/-! ## The call -/

/-- What is cleared makes no difference to a registration. -/
theorem exists_stirring_cleared {objects : Nat → Object} :
    (∃ p ∈ cleared fds, 0 ≤ p.fd ∧ ¬ IdleEntry table objects p) ↔
      ∃ p ∈ fds, 0 ≤ p.fd ∧ ¬ IdleEntry table objects p := by
  constructor
  · rintro ⟨p, hp, h⟩
    obtain ⟨q, hq, rfl⟩ := List.mem_map.mp hp
    exact ⟨q, hq, h⟩
  · rintro ⟨p, hp, h⟩
    exact ⟨_, List.mem_map_of_mem hp, h⟩

/-- The check refuses a call whatever its timeout is. -/
theorem ppoll_refused {impl : Option Timespec → M (Except Errno Nat)} {e : Errno}
    (hcheck : validateSomethingNotPollpri fds = .error e) (timeout : Option Timespec) (w : World) :
    ∃ e', ppoll impl timeout (start fds w) = .ok (.error e', start fds w) := by
  by_cases ht : ∃ t ∈ timeout, ¬ t.Valid
  · exact ⟨.EINVAL, congrFun (if_pos ht) _⟩
  · exact ⟨e, by rw [ppoll_run ht, hcheck]⟩

theorem ppollImpl_notTrap {objects : Nat → Object}
    {timeout : Option Timespec} (script : List Answer)
    (h : timeout.isSome ∨ ∃ p ∈ fds, 0 ≤ p.fd ∧ ¬ IdleEntry table objects p) :
    wp NotTrap (ppollImpl table timeout) (OnOk fun _ => True)
      (start (cleared fds) ⟨objects, script⟩) := by
  have hwalk : Walk ⟨objects, script⟩ False (start (cleared fds) ⟨objects, script⟩) := by
    refine ⟨fun p hp hne => ?_, fun _ _ => Iff.rfl, False.elim⟩
    obtain ⟨q, -, rfl⟩ := List.mem_map.mp hp
    exact absurd rfl hne
  unfold ppollImpl
  rw [wp_bind, wp_get]
  refine wp_andThen (walk_registerEach hwalk 0 (cleared fds)) fun _ s hs => ?_
  refine wp_mono (ppollWait_notTrap (h.imp_right fun hstirs => ?_)) fun _ _ _ _ _ => trivial
  exact hs.stirred (.inr (exists_stirring_cleared.mpr hstirs))

/-- **`ppoll` of wasip2 never polls an empty list just if it has a timeout, or is
refused for asking for `POLLPRI` alone, or has an entry that is not idle.** -/
theorem ppoll_never_traps_iff (table : Nat → Option Nat) (objects : Nat → Object)
    (timeout : Option Timespec) (fds : List PollFd) :
    (∀ script, call table ⟨objects, script⟩ timeout fds ≠ .error .trap) ↔
      timeout.isSome ∨ OnlyPri fds ∨ ∃ p ∈ fds, 0 ≤ p.fd ∧ ¬ IdleEntry table objects p := by
  classical
  constructor
  · intro hnever
    by_contra hnot
    obtain ⟨htimeout, hpri, hidle⟩ : timeout = none ∧ ¬ OnlyPri fds ∧
        ∀ p ∈ cleared fds, 0 ≤ p.fd → IdleEntry table objects p := by
      simp only [not_or, Option.not_isSome_iff_eq_none] at hnot
      refine ⟨hnot.1, hnot.2.1, fun p hp hpos => ?_⟩
      by_contra hne
      exact hnot.2.2 (exists_stirring_cleared.mp ⟨p, hp, hpos, hne⟩)
    subst htimeout
    have hcheck : validateSomethingNotPollpri fds = .ok () := (validate_eq fds).trans (if_neg hpri)
    let w : World := ⟨objects, List.replicate (cleared fds).length (.opened (.ok ()))⟩
    have hquiet : Quiet w (cleared fds) (cleared fds).length (start (cleared fds) w) :=
      ⟨rfl, rfl, rfl, fun _ _ => Iff.rfl, _, Nat.le_refl _, rfl⟩
    have hregister : wp (fun _ => False) (registerEach (register table) 0 (cleared fds)) _ _ :=
      quiet_registerEach hquiet List.drop_zero hidle
    obtain ⟨r, s, hrun, rfl, hs⟩ := exists_ok_of_wp hregister
    apply hnever w.script
    refine (ppoll_none_eq (ppollImpl table) hcheck w).trans ?_
    show (registerEach (register table) 0 (cleared fds) (start (cleared fds) w) >>= _) = _
    rw [hrun]
    exact ppollWait_traps hs.regs hs.count
  · intro hcond script htrap
    rcases ppoll_eq (ppollImpl table) timeout fds ⟨objects, script⟩ with ⟨e, heq⟩ | heq
    · cases heq.symm.trans htrap
    · have hnot : ¬ (timeout.isSome ∨ ∃ p ∈ fds, 0 ≤ p.fd ∧ ¬ IdleEntry table objects p) :=
        fun h => ok_of_wp (ppollImpl_notTrap script h) (heq.symm.trans htrap) rfl
      have hpri : OnlyPri fds :=
        (hcond.resolve_left fun h => hnot (.inl h)).resolve_right fun h => hnot (.inr h)
      have hcheck := (validate_eq fds).trans (if_pos hpri)
      obtain ⟨e, hrefused⟩ : ∃ e, ppoll (ppollImpl table) timeout _ = .ok (.error e, _) :=
        ppoll_refused hcheck timeout ⟨objects, script⟩
      cases hrefused.symm.trans htrap

/-- A listening socket that is polled for writing has nothing to register, and
neither has an array without entries. -/
theorem ppoll_traps :
    call (fun _ => some 0) ⟨fun _ => .tcp .listening, []⟩ none [⟨3, POLLWRNORM, 0⟩] =
      .error .trap ∧
    call (fun _ => none) ⟨fun _ => .other, []⟩ none [] = .error .trap :=
  ⟨rfl, rfl⟩

end WasiLibc.Poll.Preview2
