import WasiLibc.Pipe.Waits
import WasiLibc.Lib.Steps

/-!
# WasiLibc.Pipe.Correct

What holds in all runs of a pipe: the bytes come out as they went in, no wakeup
is lost, and the state is freed once.  An operation on the stream never traps
as long as no thread overtakes a waiter that has been notified.
-/

namespace WasiLibc.Pipe

open Function Wp

variable {ι : Type} {ok : Fault → Prop} {s s' : State ι}

/-! ## Records -/

/-- The bytes that writes have accepted, in the order in which they
returned. -/
def accepted (log : List Event) : List UInt8 :=
  log.flatMap fun
    | .sent data (.ok n) => data.take n
    | _ => []

/-- The bytes that reads have returned. -/
def returned (log : List Event) : List UInt8 :=
  log.flatMap fun
    | .received _ (.ok bytes) => bytes
    | _ => []

/-- The log fits to the buffer and to the halves. -/
structure Recorded (s : State ι) : Prop where
  bytes : accepted s.log = returned s.log ++ s.buffer
  atomic : ∀ data n, .sent data (.ok n) ∈ s.log → 1 ≤ data.length → data.length ≤ PIPE_BUF →
    n = data.length
  eof : ∀ (i length : Nat), s.log[i]? = some (.received length (.ok [])) → 0 < length →
    .closed .write ∈ s.log.take i ∧ accepted (s.log.take i) = returned (s.log.take i)
  gone : ∀ d, s.alive d = false → .closed d ∈ s.log

/-- Something happens. -/
theorem Recorded.push (h : Recorded s) {e : Event} (hlog : s'.log = s.log ++ [e])
    (hbytes : s.buffer ++ accepted [e] = returned [e] ++ s'.buffer)
    (hatomic : ∀ data n, e = .sent data (.ok n) → 1 ≤ data.length → data.length ≤ PIPE_BUF →
      n = data.length)
    (heof : ∀ length, e = .received length (.ok []) → 0 < length →
      s.alive .write = false ∧ s.buffer = [])
    (hgone : ∀ d, s'.alive d = false → s.alive d = false ∨ e = .closed d) : Recorded s' := by
  refine ⟨?_, fun data n hmem => ?_, fun i length hi hpos => ?_, fun d hd => ?_⟩
  · have happend : ∀ f : Event → List UInt8,
        (s.log ++ [e]).flatMap f = s.log.flatMap f ++ [e].flatMap f := by simp
    rw [hlog, accepted, returned, happend, happend]
    have hold := h.bytes
    unfold accepted returned at hold hbytes
    rw [hold, List.append_assoc, hbytes, List.append_assoc]
  · rw [hlog, List.mem_append, List.mem_singleton] at hmem
    rcases hmem with hmem | hmem
    · exact h.atomic data n hmem
    · exact hatomic data n hmem.symm
  · rw [hlog] at hi ⊢
    by_cases hlt : i < s.log.length
    · rw [List.getElem?_append_left hlt] at hi
      rw [List.take_append_of_le_length hlt.le]
      exact h.eof i length hi hpos
    · have hi' : i = s.log.length := by
        have := (List.getElem?_eq_some_iff.mp hi).1
        simp only [List.length_append, List.length_singleton] at this
        omega
      subst hi'
      rw [List.getElem?_append_right le_rfl] at hi
      obtain ⟨hdead, hnil⟩ := heof length (by simpa using hi) hpos
      rw [List.take_left]
      exact ⟨h.gone .write hdead, by rw [h.bytes, hnil, List.append_nil]⟩
  · rw [hlog, List.mem_append, List.mem_singleton]
    exact (hgone d hd).imp (h.gone d) Eq.symm

theorem Recorded.congr (h : Recorded s)
    (hs : (s'.log, s'.buffer, s'.alive) = (s.log, s.buffer, s.alive)) : Recorded s' := by
  simp only [Prod.mk.injEq] at hs
  obtain ⟨hlog, hbuffer, halive⟩ := hs
  constructor
  case bytes => rw [hlog, hbuffer]; exact h.bytes
  case atomic => rw [hlog]; exact h.atomic
  case eof => rw [hlog]; exact h.eof
  case gone => rw [halive, hlog]; exact h.gone

theorem Recorded.received (h : Recorded s) {length : Nat} {e : Errno} :
    Recorded { s with log := s.log ++ [.received length (.error e)] } :=
  h.push rfl (by simp [Pipe.accepted, Pipe.returned]) nofun nofun fun _ => .inl

theorem Recorded.sent (h : Recorded s) {data : List UInt8} {e : Errno} :
    Recorded { s with log := s.log ++ [.sent data (.error e)] } :=
  h.push rfl (by simp [Pipe.accepted, Pipe.returned]) nofun nofun fun _ => .inl

/-! ## Calls -/

/-- The invariant at switch points. -/
structure Good (ok : Fault → Prop) (s : State ι) : Prop where
  inv : Inv ok s s.thread
  recorded : Recorded s

/-- The waiter of the other half, if it has to be notified, can be. -/
def Clear (ok : Fault → Prop) (s : State ι) (d : Dir) : Prop :=
  ¬ ok .trap → s.blocked d.other = true → s.woken d.other = false → s.ends d = .idle

variable {d : Dir}

/-- Both halves cannot have a waiter that is not notified. -/
theorem Inv.notified_of_blocked {phase : ι → Phase} (h : Inv ok s phase)
    (hb : s.blocked d = true) (hother : s.blocked d.other = true)
    (hwother : s.woken d.other = false) : s.woken d = true := by
  by_contra hw
  have hw : s.woken d = false := by simpa using hw
  obtain ⟨t, ht⟩ := (h.wired.blocked d).mp hb
  refine h.apart (h.stuck t d ht hw) (fun hd => ?_) ((h.wired.copying _).mpr ⟨hother, hwother⟩)
  subst hd
  exact h.asks t ht

/-- A half whose notified waiter is not overtaken is clear. -/
theorem Inv.clear {phase : ι → Phase} (h : Inv ok s phase)
    (hnot : ¬ ok .trap → ¬ (s.woken d = true ∧ s.blocked d.other = true ∧
      s.woken d.other = false)) : Clear ok s d := by
  intro htrap hb hw
  refine h.wired.idle htrap d ?_
  by_contra hblocked
  exact hnot htrap ⟨h.notified_of_blocked (by simpa using hblocked) hb hw, hb, hw⟩

/-- A thread that has just left leaves its end idle. -/
theorem clear_left : Clear ok (s.left d) d := fun _ _ _ => by simp [State.left]

/-- Run to a switch point. -/
abbrev Stops (ok : Fault → Prop) (f : M ι PUnit) (s : State ι) : Prop :=
  wp ok f (fun _ s' => Good ok s') s

theorem Good.free (h : Good ok s) (halive : s.alive d = true)
    (hnobody : ∀ t, d ∉ (s.thread t).halves) : Stops ok (free d) s := by
  have hgone : ∀ {s' : State ι}, s'.log = s.log ++ [.closed d] → s'.buffer = s.buffer →
      s'.alive = update s.alive d false → Recorded s' := by
    intro s' hlog hbuffer halive'
    refine h.recorded.push hlog (by simp [Pipe.accepted, Pipe.returned, hbuffer]) nofun nofun
      fun e he => ?_
    by_cases hed : e = d
    · exact .inr (by rw [hed])
    · exact .inl (by simpa [halive', hed] using he)
  have hidle : ¬ ok .trap → s.ends d = .idle := by
    intro htrap
    refine h.inv.wired.idle htrap d ?_
    by_contra hb
    obtain ⟨t, ht⟩ := (h.inv.wired.blocked d).mp (by simpa using hb)
    exact hnobody t ht
  simp only [Pipe.free, wp_bind, wp_modify, wp_get, wp_ite]
  have hboth : (¬ update s.alive d false .read = true ∧
      ¬ update s.alive d false .write = true) ↔ s.alive d.other = false := by
    cases d <;> simp [Dir.other]
  simp only [hboth]
  split
  case isTrue hother =>
    have hdead := hboth.mpr hother
    simp only [stateFree, wp_bind, wp_get, wp_require, wp_modify]
    refine ⟨fun _ => ⟨fun _ => ⟨?_, hgone rfl rfl rfl⟩, fun hn => absurd hdead.2 hn⟩,
      fun hn => absurd hdead.1 hn⟩
    exact (h.inv.closeLast halive hnobody hother).congr rfl rfl
  case isFalse hother =>
    have hclose := h.inv.close halive hnobody (by simpa using hother)
    have hgood : Good ok (State.notified { s with
        alive := update s.alive d false
        log := s.log ++ [.closed d] } d.other) := ⟨hclose.congr rfl rfl, hgone rfl rfl rfl⟩
    have hrun : wp ok (unblock d.other) (fun _ s' => Good ok s') { s with
        alive := update s.alive d false
        log := s.log ++ [.closed d] } :=
      runs_unblock (h.inv.wired.congr rfl) (fun _ _ htrap => by simpa using hidle htrap) hgood
    cases d with
    | read => exact hrun
    | write => exact hrun

section

variable [DecidableEq ι] {t : ι} {d : Dir}

theorem Inv.parked {p : Phase} (h : Inv ok s (update s.thread t p)) (hr : Recorded s) :
    Stops ok (park t p) s :=
  ⟨h.congr rfl rfl, hr.congr rfl⟩

/-- A call returns with an error, or without bytes. -/
theorem Inv.finished {e : Event} (h : Inv ok s (update s.thread t .idle))
    (hr : Recorded { s with log := s.log ++ [e] }) : Stops ok (finish t e) s :=
  ⟨h.congr rfl rfl, hr.congr rfl⟩

theorem Inv.recvLoop {length : Nat} (h : Inv ok s (update s.thread t .idle))
    (hr : Recorded s) (halive : s.alive .read = true) (hclear : Clear ok s .read) :
    Stops ok (recvLoop t length) s := by
  simp only [Pipe.recvLoop, wp_bind, wp_get, wp_ite, wp_modify]
  split
  case isTrue hne =>
    refine runs_unblock (h.wired.congr rfl) (fun hb hw htrap => hclear htrap hb hw) ?_
    refine (h.take _).finished ?_
    refine hr.push rfl ?_ (by simp) (fun _ he hpos => ?_) fun _ => .inl
    · simp [Pipe.accepted, Pipe.returned, State.notified]
    · have hlen := List.length_pos_iff.mpr hne
      simp only [Event.received.injEq, Except.ok.injEq, List.take_eq_nil_iff] at he
      obtain ⟨rfl, hzero | hnil⟩ := he
      · omega
      · exact absurd hnil hne
  case isFalse hnil =>
    simp only [ne_eq, not_not] at hnil
    split
    case isTrue hdead =>
      refine h.finished (hr.push rfl ?_ (by simp) (fun _ _ _ => ⟨?_, hnil⟩) fun _ => .inl)
      · simp [Pipe.accepted, Pipe.returned]
      · simpa using hdead
    case isFalse hwriter =>
      split
      case isTrue => exact h.finished hr.received
      case isFalse =>
        have hstuck : s.Stuck 1 .read := ⟨hnil, by simpa using hwriter⟩
        refine runs_blockEnter h.wired (fun _ => h.apart hstuck (by simp))
          (fun _ => h.finished hr.received) fun hb => ?_
        exact (h.entered (q := .receiving length) hb rfl (by intros; contradiction) hstuck (by intros; contradiction) halive).parked
          (hr.congr rfl)

theorem Inv.sendLoop {data : List UInt8} (h : Inv ok s (update s.thread t .idle))
    (hr : Recorded s) (hne : data ≠ []) (hcap : s.cap = PIPE_BUF) (halive : s.alive .write = true)
    (hclear : Clear ok s .write) : Stops ok (sendLoop t data) s := by
  have hpos := List.length_pos_iff.mpr hne
  simp only [Pipe.sendLoop, wp_bind, wp_get, wp_ite, wp_modify]
  split
  case isTrue => exact h.finished hr.sent
  case isFalse hreader =>
    split
    case isTrue haccepts =>
      obtain ⟨hroom, hatomic⟩ := haccepts
      refine runs_unblock (h.wired.congr rfl) (fun hb hw htrap => hclear htrap hb hw) ?_
      have hfits : s.buffer.length +
          (data.take (min data.length (s.cap - s.buffer.length))).length ≤ s.cap := by
        have := h.storage.bound
        simp only [List.length_take]
        omega
      refine (h.put hfits).finished ?_
      refine hr.push rfl ?_ (fun data' n he _ hle => ?_) (by simp) fun _ => .inl
      · simp [Pipe.accepted, Pipe.returned, State.notified]
      · simp only [Event.sent.injEq, Except.ok.injEq] at he
        obtain ⟨rfl, rfl⟩ := he
        omega
    case isFalse hfull =>
      split
      case isTrue => exact h.finished hr.sent
      case isFalse =>
        have hstuck : s.Stuck data.length .write := ⟨by simpa using hreader, hfull⟩
        refine runs_blockEnter h.wired (fun _ => h.apart hstuck fun _ => ⟨hpos, hcap⟩)
          (fun _ => h.finished hr.sent) fun hb => ?_
        exact (h.entered (q := .sending data) hb rfl (by intros; contradiction) hstuck
          (fun _ => ⟨hpos, hcap⟩) halive).parked (hr.congr rfl)

/-- A thread is where it is. -/
theorem Good.here (h : Good ok s) {p : Phase} (ht : s.thread t = p) :
    Inv ok s (update s.thread t p) := by
  rw [← ht, update_eq_self]
  exact h.inv

theorem Good.recvfrom {half : Dir} {length : Nat} {invalid : Bool} (h : Good ok s)
    (ht : s.thread t = .idle) (halive : s.alive half = true)
    (hclear : half = .read → invalid = false → 0 < length → Clear ok s .read) :
    Stops ok (recvfrom t half length invalid) s := by
  have hidle := h.here ht
  simp only [Pipe.recvfrom, wp_ite]
  split
  case isTrue => exact hidle.finished h.recorded.received
  case isFalse hvalid =>
    split
    case isTrue => exact hidle.finished h.recorded.received
    case isFalse hread =>
      simp only [ne_eq, not_not] at hread
      subst hread
      split
      case isTrue hzero =>
        refine hidle.finished (h.recorded.push rfl ?_ nofun (fun _ he hpos => ?_)
          fun _ => .inl)
        · simp [Pipe.accepted, Pipe.returned]
        · simp only [Event.received.injEq] at he
          omega
      case isFalse hne =>
        refine hidle.recvLoop h.recorded halive (hclear rfl ?_ (Nat.pos_of_ne_zero hne))
        simpa using hvalid

theorem Good.sendto {half : Dir} {data : List UInt8} {invalid malloc : Bool} (h : Good ok s)
    (ht : s.thread t = .idle) (halive : s.alive half = true)
    (hclear : half = .write → invalid = false → data ≠ [] → Clear ok s .write) :
    Stops ok (sendto t half data invalid malloc) s := by
  have hidle := h.here ht
  simp only [Pipe.sendto, wp_ite]
  split
  case isTrue => exact hidle.finished h.recorded.sent
  case isFalse hvalid =>
    split
    case isTrue => exact hidle.finished h.recorded.sent
    case isFalse hwrite =>
      simp only [ne_eq, not_not] at hwrite
      subst hwrite
      split
      case isTrue hnil =>
        subst hnil
        refine hidle.finished (h.recorded.push rfl ?_ (fun _ _ he => ?_) nofun fun _ => .inl)
        · simp [Pipe.accepted, Pipe.returned]
        · simp only [Event.sent.injEq] at he
          simp [← he.1]
      case isFalse hne =>
        have hclear := hclear rfl (by simpa using hvalid) hne
        simp only [Pipe.allocate, wp_bind, wp_get, wp_ite, wp_pure, wp_modify]
        split
        case isTrue hallocated =>
          exact hidle.sendLoop h.recorded hne (h.inv.storage.allocated hallocated) halive
            hclear
        case isFalse =>
          have hnew := hidle.allocate malloc
          split
          case isTrue => exact hnew.sendLoop (h.recorded.congr rfl) hne rfl halive hclear
          case isFalse => exact hnew.finished (h.recorded.sent.congr rfl)

/-! ## Polling -/

variable {regs : List Dir}

theorem Good.pollEnter {pollAdd : Bool} {fd : PollFd} {todo : List PollFd}
    (h : Good ok s) (ht : s.thread t = .registering (fd :: todo) regs) (hstuck : s.Stuck 1 d)
    (hcap : d = .write → s.cap = PIPE_BUF) (halive : s.alive d = true) :
    Stops ok (pollEnter t d pollAdd todo regs) s := by
  have hinv := h.here ht
  have hn : d = .write → 0 < 1 ∧ s.cap = PIPE_BUF := fun hd => ⟨Nat.one_pos, hcap hd⟩
  refine wp_bind.mpr (runs_blockEnter hinv.wired (fun _ => h.inv.apart hstuck hn) (fun _ => ?_)
    fun hb => ?_)
  · exact (hinv.moved (q := .cleaning regs) rfl rfl).parked h.recorded
  · have hentered := hinv.entered (q := .registering todo (regs ++ [d])) hb rfl (fun _ _ => rfl)
      hstuck hn halive
    simp only [wp_ite]
    split
    case isTrue => exact hentered.parked (h.recorded.congr rfl)
    case isFalse =>
      have hmem : d ∈ regs ++ [d] := by simp
      have hnew : d ∉ regs := by
        intro hd
        rw [(hinv.wired.blocked d).mpr ⟨t, by rwa [update_self]⟩] at hb
        cases hb
      have hwoken : s.woken d = false := by
        by_contra hw
        rw [hinv.wired.woken d (by simpa using hw)] at hb
        cases hb
      have herase : (regs ++ [d]).erase d = regs := by simp [List.erase_append, hnew]
      refine wp_bind.mpr (runs_blockExit hentered.wired (by simp [State.entered]) ?_)
      refine Inv.parked (hentered.exited (q := .cleaning regs) hmem herase.symm (fun _ => rfl)
        fun _ => hwoken) (h.recorded.congr rfl)

theorem Good.pollRegister {pollAdd : Bool} {fd : PollFd} {todo : List PollFd}
    (h : Good ok s) (ht : s.thread t = .registering (fd :: todo) regs) :
    Stops ok (pollRegister t fd pollAdd todo regs) s := by
  have hstay : Stops ok (park t (.registering todo regs)) s :=
    ((h.here ht).moved (q := .registering todo regs) rfl rfl).parked h.recorded
  simp only [Pipe.pollRegister, wp_bind, wp_get, wp_ite]
  split
  case isTrue => exact hstay
  case isFalse halive =>
    have halive : s.alive fd.half = true := by simpa using halive
    split
    case isTrue hrd =>
      split
      case isTrue => exact hstay
      case isFalse hnot =>
        simp only [not_or, ne_eq, not_not] at hnot
        exact h.pollEnter ht ⟨hnot.1, hnot.2⟩ (by simp) (hrd.2 ▸ halive)
    case isFalse =>
      split
      case isTrue hwr =>
        split
        case isTrue => exact hstay
        case isFalse hnot =>
          simp only [not_or, not_not] at hnot
          have hcap := h.inv.storage.cap.resolve_left hnot.1
          refine h.pollEnter ht ⟨hnot.2.2, fun haccepts => ?_⟩ (fun _ => hcap)
            (hwr.2 ▸ halive)
          have := haccepts.1
          omega
      case isFalse => exact hstay

theorem Good.pollWait {found : Found} (h : Good ok s)
    (ht : s.thread t = .polling regs) (hok : ok .host) : Stops ok (pollWait t regs found) s := by
  have hinv := h.here ht
  cases found with
  | half d =>
    refine wp_bind.mpr (wp_require.mpr ⟨fun hd => ?_, fun _ => hok⟩)
    have hb := (hinv.wired.blocked d).mpr ⟨t, by rwa [update_self]⟩
    refine runs_wake hinv.wired hb hok ?_
    refine wp_bind.mpr (wp_require.mpr ⟨fun _ => ?_, fun hn => absurd rfl hn⟩)
    exact (hinv.left (q := .polling (regs.erase d)) hd rfl fun _ => rfl).parked
      (h.recorded.congr rfl)
  | other => exact h
  | none =>
    refine wp_bind.mpr (wp_get.mpr (wp_bind.mpr (wp_require.mpr ⟨fun _ => ?_, fun _ => hok⟩)))
    exact (hinv.moved (q := .cleaning regs) rfl rfl).parked h.recorded

/-! ## Steps -/

/-- A read or a write begins while a notified waiter of its half has not run
yet, and the other half has a waiter that is not notified. -/
def Overtakes (s : State ι) : Label ι → Prop
  | .call _ (.recvfrom .read length false) _ =>
    0 < length ∧ s.woken .read = true ∧ s.blocked .write = true ∧ s.woken .write = false
  | .call _ (.sendto .write data false) _ =>
    data ≠ [] ∧ s.woken .write = true ∧ s.blocked .read = true ∧ s.woken .read = false
  | _ => False

/-- A `poll` gives up a half for which it has been notified, without its
event. -/
def Discards (s : State ι) : Label ι → Prop
  | .resume t _ => ∃ d regs, s.thread t = .cleaning (d :: regs) ∧ s.woken d = true
  | _ => False

variable {l : Label ι}

theorem Good.call {c : Call} {malloc : Bool} (h : Good ok s) (ht : s.thread t = .idle)
    (halive : ∀ d ∈ c.half, s.alive d = true) {env : Env}
    (hnot : ¬ ok .trap → ¬ Overtakes s (.call t c env)) : Stops ok (call t malloc c) s := by
  cases c with
  | recvfrom half length invalid =>
    refine h.recvfrom ht (halive half rfl) ?_
    rintro rfl rfl hpos
    exact h.inv.clear fun htrap hover => hnot htrap ⟨hpos, hover⟩
  | sendto half data invalid =>
    refine h.sendto ht (halive half rfl) ?_
    rintro rfl rfl hne
    exact h.inv.clear fun htrap hover => hnot htrap ⟨hne, hover⟩
  | setBlocking half blocking => exact ⟨h.inv.congr rfl rfl, h.recorded.congr rfl⟩
  | poll fds => exact ((h.here ht).moved (q := .registering fds []) rfl rfl).parked h.recorded

theorem Good.resumed {env : Env} (h : Good ok s) (hok : ok .host)
    (hnot : ¬ ok .trap → ¬ Discards s (.resume t env)) :
    Stops ok (resumed t env (s.thread t)) s := by
  cases ht : s.thread t with
  | idle => exact hok
  | receiving length =>
    have hmem : .read ∈ (Phase.receiving length).halves := by simp [Phase.halves]
    have hinv := h.here ht
    have hb := (h.inv.wired.blocked .read).mpr ⟨t, by rwa [ht]⟩
    refine runs_wake hinv.wired hb hok ?_
    exact (hinv.left (q := .idle) hmem rfl nofun).recvLoop (h.recorded.congr rfl)
      (h.inv.alive t .read (by rwa [ht])) clear_left
  | sending data =>
    have hmem : .write ∈ (Phase.sending data).halves := by simp [Phase.halves]
    have hinv := h.here ht
    have hb := (h.inv.wired.blocked .write).mpr ⟨t, by rwa [ht]⟩
    have hasks := h.inv.asks t (by rwa [ht])
    rw [ht] at hasks
    refine runs_wake hinv.wired hb hok ?_
    exact (hinv.left (q := .idle) hmem rfl (absurd rfl)).sendLoop (h.recorded.congr rfl)
      (List.length_pos_iff.mp hasks.1) hasks.2 (h.inv.alive t .write (by rwa [ht])) clear_left
  | registering todo regs =>
    cases todo with
    | nil => exact ((h.here ht).moved (q := .polling regs) rfl rfl).parked h.recorded
    | cons fd todo => exact h.pollRegister ht
  | polling regs => exact h.pollWait ht hok
  | cleaning regs =>
    cases regs with
    | nil => exact ((h.here ht).moved (q := .idle) rfl rfl).parked h.recorded
    | cons d regs =>
      have hmem : d ∈ (Phase.cleaning (d :: regs)).halves := by simp [Phase.halves]
      have hinv := h.here ht
      have hb := (h.inv.wired.blocked d).mpr ⟨t, by rwa [ht]⟩
      refine wp_bind.mpr (runs_blockExit hinv.wired hb ?_)
      refine Inv.parked (hinv.exited (q := .cleaning regs) hmem ?_ (fun _ => rfl)
        fun htrap => ?_) (h.recorded.congr rfl)
      · simp [Phase.halves]
      · by_contra hw
        exact hnot htrap ⟨d, regs, ht, by simpa using hw⟩

variable [Fintype ι]

theorem Good.program (h : Good ok s) (hok : ok .host)
    (hnot : ¬ ok .trap → ¬ Overtakes s l ∧ ¬ Discards s l) : Stops ok (program s l) s := by
  cases l with
  | call t c env =>
    refine wp_bind.mpr (wp_require.mpr ⟨fun hcan => ?_, fun _ => hok⟩)
    exact h.call hcan.1 hcan.2 fun htrap => (hnot htrap).1
  | resume t env => exact h.resumed hok fun htrap => (hnot htrap).2
  | close d =>
    refine wp_bind.mpr (wp_require.mpr ⟨fun hcan => ?_, fun _ => hok⟩)
    exact h.free hcan.1 hcan.2

theorem Good.next (h : Good ok s) (hok : ok .host)
    (hnot : ¬ ok .trap → ¬ Overtakes s l ∧ ¬ Discards s l) (hs : next s l = some s') :
    Good ok s' :=
  state_of_wp (h.program hok hnot) hs

omit [DecidableEq ι] [Fintype ι] in
theorem good_initial (nonblock : Bool) : Good ok (State.initial nonblock : State ι) where
  inv := by
    refine ⟨⟨by simp [State.initial], .inl rfl, nofun⟩, ⟨?_, ?_, ?_, nofun, ?_, nofun, ?_, nofun⟩,
      ?_, ?_, ?_, rfl⟩ <;> simp [State.initial, Phase.halves]
  recorded := ⟨rfl, by simp [State.initial], by simp [State.initial], by simp [State.initial]⟩

/-! ## Runs -/

theorem good_of_reaches {nonblock : Bool}
    (h : Steps.Reaches next (fun _ _ => True) (State.initial nonblock : State ι) s) :
    Good (fun _ => True) s :=
  h.invariant (good_initial nonblock) fun _ _ _ hgood _ hs =>
    hgood.next trivial (absurd trivial) hs

/-- **The bytes come out as they went in**, in every run of any threads: what
writes have accepted is what reads have returned and then the buffer, which
has at most `PIPE_BUF` bytes; a write of at most `PIPE_BUF` bytes is accepted
as a whole or not; and a read finds the end of the file only when the write
half is gone and everything has been returned. -/
theorem bytes_in_order (nonblock : Bool)
    (h : Steps.Reaches next (fun _ _ => True) (State.initial nonblock : State ι) s) :
    accepted s.log = returned s.log ++ s.buffer ∧ s.buffer.length ≤ PIPE_BUF ∧
    (∀ data n, .sent data (.ok n) ∈ s.log → 1 ≤ data.length → data.length ≤ PIPE_BUF →
      n = data.length) ∧
    (∀ (i length : Nat), s.log[i]? = some (.received length (.ok [])) → 0 < length →
      .closed .write ∈ s.log.take i ∧ accepted (s.log.take i) = returned (s.log.take i)) := by
  have hgood := good_of_reaches h
  have hbound : s.buffer.length ≤ PIPE_BUF := by
    have hle := hgood.inv.storage.bound
    rcases hgood.inv.storage.cap with hcap | hcap
    · rw [hcap] at hle
      exact hle.trans (Nat.zero_le _)
    · rwa [hcap] at hle
  exact ⟨hgood.recorded.bytes, hbound, hgood.recorded.atomic, hgood.recorded.eof⟩

/-- What the host does by default in the examples. -/
def quiet : Env := ⟨true, true, .none⟩

/-- Three bytes are written and read in two parts, and then the end of the file
is found. -/
theorem bytes_in_order_eof :
    ∃ s : State (Fin 2), Steps.Reaches next (fun _ _ => True) (State.initial false) s ∧
      s.log = [.sent [1, 2, 3] (.ok 3), .received 2 (.ok [1, 2]), .closed .write,
        .received 5 (.ok [3]), .received 5 (.ok [])] ∧
      accepted s.log = returned s.log ++ s.buffer := by
  have hrun : (([.call 1 (.sendto .write [1, 2, 3] false) quiet,
      .call 0 (.recvfrom .read 2 false) quiet, .close .write,
      .call 0 (.recvfrom .read 5 false) quiet, .call 0 (.recvfrom .read 5 false) quiet] :
        List (Label (Fin 2))).foldlM next (State.initial false)).map State.log =
      some [.sent [1, 2, 3] (.ok 3), .received 2 (.ok [1, 2]), .closed .write,
        .received 5 (.ok [3]), .received 5 (.ok [])] := by decide +kernel
  obtain ⟨s, hs, hobs⟩ := Option.map_eq_some_iff.mp hrun
  have hreach := Steps.reaches_of_foldlM hs
  exact ⟨s, hreach, hobs, (bytes_in_order false hreach).1⟩

/-- **No wakeup is lost**, in every run of any threads: a thread that is
blocked on a half and has not been notified is right to wait; and the state is
freed once, when both halves are gone. -/
theorem no_lost_wakeup (nonblock : Bool)
    (h : Steps.Reaches next (fun _ _ => True) (State.initial nonblock : State ι) s) :
    (∀ t, .read ∈ (s.thread t).halves → s.woken .read = false →
      s.buffer = [] ∧ s.alive .write = true) ∧
    (∀ t, .write ∈ (s.thread t).halves → s.woken .write = false →
      s.alive .read = true ∧ ¬ s.Accepts (s.thread t).asks) ∧
    s.freed = if s.alive .read || s.alive .write then 0 else 1 := by
  have hinv := (good_of_reaches h).inv
  exact ⟨fun t => hinv.stuck t .read, fun t => hinv.stuck t .write, hinv.freed⟩

/-- A reader waits. -/
theorem no_lost_wakeup_reading :
    ∃ s : State (Fin 1), Steps.Reaches next (fun _ _ => True) (State.initial false) s ∧
      s.thread 0 = .receiving 1 ∧ s.woken .read = false ∧
      s.buffer = [] ∧ s.alive .write = true := by
  have hrun : (([.call 0 (.recvfrom .read 1 false) quiet] : List (Label (Fin 1))).foldlM next
      (State.initial false)).map (fun s => (s.thread 0, s.woken .read)) =
      some (.receiving 1, false) := by decide +kernel
  obtain ⟨s, hs, hobs⟩ := Option.map_eq_some_iff.mp hrun
  obtain ⟨hthread, hwoken⟩ := Prod.mk.inj hobs
  have hreach := Steps.reaches_of_foldlM hs
  have hmem : .read ∈ (s.thread 0).halves := by simp [hthread, Phase.halves]
  exact ⟨s, hreach, hthread, hwoken, (no_lost_wakeup false hreach).1 0 hmem hwoken⟩

/-- **An operation on the stream never traps**, and its status is the one that
is asserted, in every run in which no read or write overtakes a notified
waiter, and no `poll` gives up a half for which it has been notified. -/
theorem stream_never_traps (nonblock : Bool)
    (h : Steps.Reaches next (fun s l => ¬ Overtakes s l ∧ ¬ Discards s l)
      (State.initial nonblock : State ι) s)
    (hl : ¬ Overtakes s l ∧ ¬ Discards s l) :
    exec s l ≠ .error .trap ∧ exec s l ≠ .error .assert := by
  have hgood : Good (· = .host) s := h.invariant (good_initial nonblock)
    fun _ _ _ hgood hok hs => hgood.next rfl (fun _ => hok) hs
  have hhost : ∀ e, exec s l = .error e → e = .host := by
    intro e he
    refine ok_of_wp (hgood.program (l := l) rfl fun _ => hl) ?_
    unfold exec at he
    cases hp : Pipe.program s l s with
    | error e' => simpa [hp, Functor.map, Except.map] using he
    | ok r => simp [hp, Functor.map, Except.map] at he
  exact ⟨fun he => Fault.noConfusion (hhost _ he), fun he => Fault.noConfusion (hhost _ he)⟩

/-- The start of a run: a reader waits and is notified by a write, and then
another write does not fit. -/
def notifying : List (Label (Fin 3)) :=
  [.call 0 (.recvfrom .read 1 false) quiet,
   .call 1 (.sendto .write [7] false) quiet,
   .call 1 (.sendto .write (List.replicate PIPE_BUF 0) false) quiet]

/-- The reader runs, and notifies the writer. -/
theorem stream_never_traps_notifying :
    ∃ s : State (Fin 3), Steps.Reaches next (fun s l => ¬ Overtakes s l ∧ ¬ Discards s l)
      (State.initial false) s ∧ s.woken .read = true ∧
      exec s (.resume 0 quiet) ≠ .error .trap ∧ exec s (.resume 0 quiet) ≠ .error .assert := by
  let test : State (Fin 3) → Label (Fin 3) → Bool := fun s l =>
    match l with
    | .call _ (.recvfrom _ _ _) _ => !s.woken .read
    | .call _ (.sendto _ _ _) _ => !s.woken .write
    | _ => false
  have htest : ∀ s l, test s l = true → ¬ Overtakes s l ∧ ¬ Discards s l := by
    intro s l htest
    refine ⟨fun hover => ?_, fun hdiscards => ?_⟩
    · unfold Overtakes at hover
      split at hover
      case h_1 => simp [test, hover.2.1] at htest
      case h_2 => simp [test, hover.2.1] at htest
      case h_3 => exact hover
    · unfold Discards at hdiscards
      split at hdiscards
      case h_1 => simp [test] at htest
      case h_2 => exact hdiscards
  have hrun : (notifying.foldlM (fun s l => if test s l then next s l else none)
      (State.initial false)).map (fun s => (s.thread 0, s.woken .read)) =
      some (.receiving 1, true) := by decide +kernel
  obtain ⟨s, hs, hobs⟩ := Option.map_eq_some_iff.mp hrun
  obtain ⟨hthread, hwoken⟩ := Prod.mk.inj hobs
  have hreach := Steps.reaches_of_foldlM_test htest hs
  refine ⟨s, hreach, hwoken, stream_never_traps false hreach ⟨id, ?_⟩⟩
  rintro ⟨d, regs, hcleaning, _⟩
  rw [hthread] at hcleaning
  cases hcleaning

/-- Before the reader runs, another thread reads: the notification of the
writer goes through the reader's end, which is busy. -/
theorem trap_at_busy_end :
    ∃ s : State (Fin 3), Steps.Reaches next (fun _ _ => True) (State.initial false) s ∧
      s.ends .read ≠ .idle ∧ exec s (.call 2 (.recvfrom .read 1 false) quiet) = .error .trap := by
  let l : Label (Fin 3) := .call 2 (.recvfrom .read 1 false) quiet
  have hrun : (notifying.foldlM next (State.initial false)).map
      (fun s => (s.ends .read, (exec s l).map fun _ => ())) =
      some (.finished, .error .trap) := by decide +kernel
  obtain ⟨s, hs, hobs⟩ := Option.map_eq_some_iff.mp hrun
  obtain ⟨hends, hexec⟩ := Prod.mk.inj hobs
  refine ⟨s, Steps.reaches_of_foldlM hs, by rw [hends]; nofun, ?_⟩
  cases hl : exec s l with
  | error e =>
    rw [hl] at hexec
    exact congrArg _ (Except.error.inj hexec)
  | ok s' =>
    rw [hl] at hexec
    cases hexec

/-- **The flags tell where the threads are**: a half is marked exactly while one
thread waits on it, its end of the stream is busy until that thread is
notified, and only a waiter is notified. -/
theorem waiters_exact (nonblock : Bool)
    (h : Steps.Reaches next (fun _ _ => True) (State.initial nonblock : State ι) s) (d : Dir) :
    (s.blocked d = true ↔ ∃! t, d ∈ (s.thread t).halves) ∧
    (s.ends d = .copying ↔ s.blocked d = true ∧ s.woken d = false) ∧
    (s.woken d = true → s.blocked d = true ∧ s.ends d = .finished) := by
  have hwired := (good_of_reaches h).inv.wired
  refine ⟨(hwired.blocked d).trans ⟨?_, ExistsUnique.exists⟩, hwired.copying d,
    fun hw => ⟨hwired.woken d hw, hwired.finished d hw⟩⟩
  rintro ⟨t, ht⟩
  exact ⟨t, ht, fun u hu => hwired.unique u t d hu ht⟩

/-- A reader waits, and has been notified. -/
theorem waiters_exact_notified :
    ∃ s : State (Fin 3), s.blocked .read = true ∧ ∃! t, .read ∈ (s.thread t).halves := by
  have hrun : (notifying.foldlM next (State.initial false)).map (fun s => s.blocked .read) =
      some true := by decide +kernel
  obtain ⟨s, hs, hb⟩ := Option.map_eq_some_iff.mp hrun
  exact ⟨s, hb, (waiters_exact false (Steps.reaches_of_foldlM hs) .read).1.mp hb⟩

end

end WasiLibc.Pipe
