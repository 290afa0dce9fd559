import WasiLibc.Lib.Steps
import WasiLibc.Stream.Output.Pending

/-!
# WasiLibc.Stream.Output.Calls

Writing loses, duplicates and reorders nothing: the specifications of the
three calls on an output stream, `runs_write`, `runs_writePoll` and
`runs_writeClose`, and what they mean for whole histories
(`output_lossless`).
-/

namespace WasiLibc.Stream

open Wp

variable {drops : Prop} {low base acked buffer : List UInt8} {w w' : World}

/-! ## Writing -/

/-- The outcome of a write of `buffer`: the bytes reported are promised. -/
def Wrote (drops : Prop) (low acked buffer : List UInt8) (r : Except Errno Nat) (w : World) : Prop :=
  match r with
  | .ok n => n ≤ buffer.length ∧ Open drops low (acked ++ buffer.take n) w
  | .error _ => Open drops low acked w

/-- A write that has ended, of the caller's buffer or of nothing, leaves the
stream idle. -/
theorem WriteEnd.idle {io : IoState} {state : WaitState} {n : Nat}
    (h : WriteEnd drops low base buffer io (.code state n) w) (hio : IdleIo io)
    (hdone : io.done = decide (state = .dropped)) (hacked : ¬ drops → base = acked) :
    n ≤ buffer.length ∧ Idle drops low (acked ++ buffer.take n) w := by
  obtain ⟨rfl, state', got, hst, hgot, -, hq, hended⟩ := h
  cases hst
  refine ⟨hgot, hio, _, hq, hended.trans hdone.symm, fun hd => ?_⟩
  rw [hacked hd]

theorem runs_writeBlocking (timeout : Nat) (h : Idle drops low acked w)
    (hdone : w.io.done = false) :
    Runs (writeBlocking timeout buffer) (Wrote drops low acked buffer) w := by
  obtain ⟨hio, base, hq, hended, hacked⟩ := h
  have t := writeTransfer drops low base false buffer
  refine wp_mono (t.blocking timeout hio.blocked ?_) ?_
  · rintro w' rfl
    exact runs_streamWrite hq (hended.trans hdone)
  rintro r w₁ ⟨state, n, hend, rfl⟩
  have hleft : IdleIo (Transfer.left w.io state) := { hio with blocked := rfl, buffer := fun _ => rfl }
  obtain ⟨hn, hidle⟩ := hend.idle hleft (by simp [Transfer.left, hdone]) hacked
  unfold Transfer.outcome
  split
  case isTrue hc =>
    rw [hc.2, List.take_zero, List.append_nil] at hidle
    exact .inl hidle
  case isFalse => exact ⟨hn, .inl hidle⟩

/-- A write can be started. -/
def Writable (drops : Prop) (low acked : List UInt8) (w : World) : Prop :=
  Idle drops low acked w ∧ w.io.done = false

/-- A zero-length write is started. -/
theorem runs_writeStartZeroLength (h : Writable drops low acked w)
    (hsbr : w.io.shouldBeReady = false) (hmb : w.io.mustBuffer = false) :
    Runs (startZeroLength (streamWrite false [])) (fun started w' =>
      if started then Busy drops low acked w'
      else Idle drops low acked w' ∧ w'.io.shouldBeReady = true) w := by
  obtain ⟨⟨hio, base, hq, hended, hacked⟩, hdone⟩ := h
  have t := writeTransfer drops low base false []
  refine wp_mono (t.startZeroLength hio.inprogress hio.zeroInprogress hsbr hdone
    (runs_streamWrite hq (hended.trans hdone))) ?_
  intro started w₁ h₁
  cases started with
  | true =>
    obtain ⟨hio₁, hf⟩ := h₁
    refine ⟨false, base, [], ?_, hf, by simpa using hacked⟩
    rw [hio₁]
    exact { hio with
      done := hdone
      inprogress := rfl
      window := by simp [IoState.window, hio.buf]
      start_le := by simp [hio.bufStart]
      end_le := by simp [hio.bufEnd]
      size := by simp [hio.buf]
      ready := hsbr
      zero := fun _ => ⟨hio.buf, hmb⟩
      data := by simp }
  | false =>
    obtain ⟨state, n, -, hend⟩ := h₁
    have hidle : IdleIo { w.io with shouldBeReady := true, done := decide (state = .dropped) } :=
      { hio with buffer := by simp [hmb] }
    refine ⟨by simpa using (hend.idle hidle rfl hacked).2, ?_⟩
    rw [hend.1]

/-- The loop of a nonblocking write. -/
theorem writeAttempts (drops : Prop) (low acked : List UInt8) (hne : buffer ≠ []) :
    Attempts (streamWrite false buffer) (streamWrite false []) (Writable drops low acked)
      (fun n => Wrote drops low acked buffer (.ok n)) (Busy drops low acked) where
  clear h := by
    obtain ⟨⟨hio, hq⟩, hdone⟩ := h
    exact ⟨⟨{ hio with buffer := fun _ => rfl }, hq⟩, hdone⟩
  attempt {w} h hsbr ready := by
    obtain ⟨⟨hio, base, hq, hended, hacked⟩, hdone⟩ := h
    have t := writeTransfer drops low base false buffer
    refine wp_mono (t.attempt ready hio.inprogress hio.zeroInprogress
      (runs_streamWrite hq (hended.trans hdone))) ?_
    rintro r w₁ ⟨state, n, mb, hend, -, hready, rfl⟩
    have hidle : IdleIo { w.io with
        mustBuffer := mb, done := w.io.done || decide (state = .dropped) } :=
      { hio with buffer := fun _ => hsbr }
    obtain ⟨hn, hidle₁⟩ := hend.idle hidle (by simp [hdone]) hacked
    obtain ⟨hio₁, state', got, hst, -, hpos, -⟩ := hend
    cases hst
    by_cases hzero : 0 < n
    · rw [if_pos hzero]
      exact ⟨hn, .inl hidle₁⟩
    · obtain rfl : n = 0 := by omega
      by_cases hopen : w₁.io.done = true
      · rw [if_neg hzero, if_pos hopen]
        exact ⟨hn, .inl hidle₁⟩
      · rw [if_neg hzero, if_neg hopen]
        refine ⟨⟨by simpa using hidle₁, by simpa using hopen⟩, by rw [hio₁]; exact hsbr, ?_⟩
        intro hr
        rw [hio₁]
        refine hready ?_ hr
        cases state with
        | cancelled => rfl
        | completed => exact absurd (hpos rfl) (by simp [hne])
        | dropped => exact absurd (by rw [hio₁]; simp) hopen
  probe {w} h hsbr hmb := by
    refine wp_mono (runs_writeStartZeroLength h hsbr hmb) ?_
    intro started w₁ h₁
    cases started with
    | true => exact h₁
    | false =>
      simp only [Bool.false_eq_true, if_false] at h₁ ⊢
      split
      case isTrue => exact ⟨Nat.zero_le _, .inl (by simpa using h₁.1)⟩
      case isFalse hopen => exact ⟨⟨h₁.1, by simpa using hopen⟩, h₁.2⟩

/-- The data is promised as soon as it is in the internal buffer. -/
theorem runs_writeBuffered (h : Writable drops low acked w) (hsbr : w.io.shouldBeReady = false)
    (hmb : w.io.mustBuffer = true) :
    Runs (writeBuffered buffer) (Wrote drops low acked buffer) w := by
  obtain ⟨⟨hio, base, hq, hended, hacked⟩, hdone⟩ := h
  simp only [writeBuffered, wp_bind, runs_getIo, runs_assert]
  refine ⟨hmb, by simp [hsbr], by simp [hio.inprogress], by simp [hio.zeroInprogress],
    by simp [hdone], hio.buf, wp_mono (runs_alloc_quiet hq) ?_⟩
  rintro ok w₁ ⟨hio₁, hended₁, hq₁⟩
  cases ok with
  | false =>
    simp only [Bool.false_eq_true, if_false, wp_pure]
    exact .inl ⟨hio₁ ▸ hio, base, hq₁, by rw [hended₁, hio₁, hended], hacked⟩
  | true =>
    simp only [if_true, wp_bind, runs_modifyIo]
    refine wp_mono (runs_streamWrite (by exact hq₁)
      (hended₁.trans (hended.trans hdone))) ?_
    intro st w₂ h₂
    rw [hio₁] at h₂
    rcases h₂ with ⟨rfl, hio₂, hf⟩ | ⟨⟨hio₂, hl⟩, -⟩
    · simp only [if_true, wp_pure]
      refine ⟨Nat.le_refl _, .inr ⟨true, base, buffer, ?_, hf, fun hd => ?_⟩⟩
      · rw [hio₂]
        exact { hio with
          done := hdone
          inprogress := rfl
          window := by simp [IoState.window]
          start_le := Nat.zero_le _
          end_le := Nat.le_refl _
          size := Nat.le_refl _
          ready := hsbr
          zero := by simp [hio.zeroInprogress]
          data := fun _ => ⟨rfl, rfl⟩ }
      · rw [hacked hd, List.take_length]
    · obtain ⟨state, got, rfl, hgot, -, hq₂, hended₂⟩ := hl
      simp only [reduceCtorEq, if_false, wp_bind, runs_modifyIo]
      refine (runs_ioUpdateCode rfl ?_).mpr ⟨hgot, .inl ⟨?_, _, hq₂, ?_, fun hd => by rw [hacked hd]⟩⟩
      · simp [IoState.freeBuf, hio₂, hio.zeroInprogress]
      · rw [hio₂]
        exact { hio with
          inprogress := rfl
          zeroInprogress := rfl
          buf := rfl
          bufStart := rfl
          bufEnd := rfl
          buffer := fun _ => by
            simp [IoState.updated, IoState.freeBuf, hsbr, hio.zeroInprogress] }
      · simp [hended₂, hio₂, IoState.updated, IoState.freeBuf, hdone]

theorem runs_writeNonblocking (hne : buffer ≠ []) (h : Writable drops low acked w) :
    Runs (writeNonblocking buffer) (Wrote drops low acked buffer) w := by
  simp only [writeNonblocking, wp_bind]
  refine wp_mono ((writeAttempts drops low acked hne).loop 2 h (.inl (Nat.le_refl 2))) ?_
  intro r w₁ h₁
  cases r with
  | none => exact runs_writeBuffered h₁.1 h₁.2.1 h₁.2.2
  | some r =>
    cases r with
    | ok n => exact h₁
    | error e => exact .inr h₁

/-! ## The three calls -/

/-- The invariant of an output stream: open with `acked` promised, or closed
with all of it delivered. -/
def Inv (drops : Prop) (low acked : List UInt8) (w : World) : Prop :=
  Open drops low acked w ∨ Closed drops low acked w

theorem Inv.blocked (h : Inv drops low acked w) : w.io.blocked = false := by
  rcases h with (h | ⟨_, _, _, h⟩) | h
  · exact h.1.blocked
  · exact h.io.blocked
  · rw [h.1]; rfl

/-- Between two calls the host's script does not matter. -/
theorem Inv.reset (h : Inv drops low acked w) (script : List Choice) :
    Inv drops low acked { w with script := script } := by
  rcases h with (h | ⟨internal, base, rest, h⟩) | h
  · exact .inl (.inl h)
  · exact .inl (.inr ⟨internal, base, rest, h.io, h.flying, h.acked⟩)
  · exact .inr h

/-- A write promises the bytes it reports. -/
theorem runs_write (h : Inv drops low acked w) (blocking : Bool) (timeout : Nat)
    (buffer : List UInt8) :
    Runs (writeWithoutOffsetUpdate blocking timeout buffer) (fun r w' =>
      match r with
      | .ok n => n ≤ buffer.length ∧ Inv drops low (acked ++ buffer.take n) w'
      | .error _ => Inv drops low acked w') w := by
  have hstay : ∀ w', Inv drops low acked w' →
      0 ≤ buffer.length ∧ Inv drops low (acked ++ buffer.take 0) w' :=
    fun w' h' => ⟨Nat.zero_le _, by simpa using h'⟩
  simp only [writeWithoutOffsetUpdate, wp_bind]
  refine runs_ioSync blocking h.blocked ?_
  simp only [writeSynced, wp_bind, runs_getIo]
  rcases h with h | h
  · have hstream : ¬ w.io.stream = 0 := by
      rcases h with h | ⟨_, _, _, h⟩
      · exact h.1.stream
      · exact h.io.stream
    rw [if_neg hstream]
    refine wp_bind.mpr (wp_mono (runs_writeResolvePending blocking timeout h) ?_)
    intro r w₁ h₁
    cases r with
    | error e => exact .inl (.inr h₁.1)
    | ok u =>
      simp only [wp_bind, runs_getIo, runs_assert]
      refine ⟨by simp [h₁.1.inprogress], by simp [h₁.1.zeroInprogress], ?_⟩
      by_cases hb : buffer = []
      · rw [if_pos hb]
        exact hstay w₁ (.inl (.inl h₁))
      · rw [if_neg hb, wp_bind]
        simp only [runs_getIo]
        by_cases hd : w₁.io.done = true
        · rw [if_pos hd]
          exact hstay w₁ (.inl (.inl h₁))
        · rw [if_neg hd]
          have hd : w₁.io.done = false := by simpa using hd
          have hwrote : Runs (if blocking then writeBlocking timeout buffer
              else writeNonblocking buffer) (Wrote drops low acked buffer) w₁ := by
            cases blocking with
            | true => exact runs_writeBlocking timeout h₁ hd
            | false => exact runs_writeNonblocking hb ⟨h₁, hd⟩
          refine wp_mono hwrote ?_
          intro r w₂ h₂
          cases r with
          | ok n => exact ⟨h₂.1, .inl h₂.2⟩
          | error e => exact .inl h₂
  · rw [if_pos (by rw [h.1]; rfl)]
    exact hstay w (.inr h)

/-- After the flush nothing is in flight, or a zero-length write. -/
def Flushed (drops : Prop) (low acked : List UInt8) (w : World) : Prop :=
  Idle drops low acked w ∨ (Busy drops low acked w ∧ w.io.zeroInprogress = true) ∨
    Closed drops low acked w

theorem runs_writeStateFlush (h : Inv drops low acked w) :
    Runs writeStateFlush (fun _ w' => Flushed drops low acked w') w := by
  simp only [writeStateFlush, wp_bind, runs_getIo]
  rcases h with h | h
  · by_cases hc : w.io.inprogress = true ∧ ¬ w.io.zeroInprogress = true
    · rw [if_pos hc]
      refine wp_bind.mpr (wp_mono (runs_writeResolvePending true 0 h) ?_)
      intro r w₁ h₁
      cases r with
      | ok u =>
        simp only [wp_bind, runs_getIo, runs_assert]
        exact ⟨by simp [h₁.1.inprogress], .inl h₁⟩
      | error e => exact absurd rfl (h₁.2 rfl)
    · rw [if_neg hc]
      rcases h with h | ⟨internal, base, rest, h⟩
      · exact .inl h
      · refine .inr (.inl ⟨⟨internal, base, rest, h⟩, ?_⟩)
        by_contra hz
        exact hc ⟨h.io.inprogress, hz⟩
  · rw [if_neg (by rw [h.1]; decide)]
    exact .inr (.inr h)

/-- Closing sends everything that was promised. -/
theorem runs_writeClose (h : Inv drops low acked w) :
    Runs writeStateClose (fun _ w' => Closed drops low acked w') w := by
  simp only [writeStateClose, wp_bind]
  refine wp_mono (runs_writeStateFlush h) ?_
  intro _ w₁ h₁
  simp only [runs_getIo]
  rcases h₁ with ⟨hio, base, hq, -, hacked⟩ | ⟨⟨internal, base, rest, h⟩, hz⟩ | h₁
  · rw [if_neg (by simp [hio.inprogress])]
    exact ⟨rfl, base, hq, hacked⟩
  · rw [if_pos h.io.inprogress]
    obtain rfl : rest = [] := by
      rw [← h.io.window]
      simp [IoState.window, (h.io.zero hz).1]
    have t := writeTransfer drops low base internal []
    refine wp_bind.mpr (wp_mono (t.cancel ⟨rfl, h.flying⟩) ?_)
    rintro st w₂ ⟨-, state, got, -, -, -, hq, -⟩
    exact ⟨rfl, base, by simpa using hq, by simpa using h.acked⟩
  · rw [if_neg (by rw [h₁.1]; decide)]
    exact ⟨rfl, h₁.2⟩

theorem runs_streamPollInit_write (h : Inv drops low acked w) :
    Runs (streamPollInit .wrnorm) (fun r w' =>
      match r with
      | .ready => Inv drops low acked w'
      | .inprogress => Busy drops low acked w'
      | .error => False) w := by
  simp only [streamPollInit, wp_bind, runs_getIo]
  rcases h with (h | ⟨internal, base, rest, h⟩) | h
  · rw [if_neg h.1.stream]
    by_cases hd : w.io.done = true
    · rw [if_pos hd]
      exact .inl (.inl h)
    · rw [if_neg hd, if_neg (by simp [h.1.inprogress]), if_neg (by simp)]
      by_cases hmb : w.io.mustBuffer = true
      · rw [if_pos hmb]
        exact .inl (.inl h)
      · rw [if_neg hmb]
        by_cases hsbr : w.io.shouldBeReady = true
        · rw [if_pos hsbr]
          exact .inl (.inl h)
        · rw [if_neg hsbr]
          simp only [writeStartZeroLength, wp_bind]
          refine wp_mono (runs_writeStartZeroLength ⟨h, by simpa using hd⟩ (by simpa using hsbr)
            (by simpa using hmb)) ?_
          intro started w₁ h₁
          cases started with
          | true => exact h₁
          | false => exact .inl (.inl h₁.1)
  · rw [if_neg h.io.stream, if_neg (by simp [h.io.done]), if_pos h.io.inprogress]
    exact ⟨internal, base, rest, h⟩
  · rw [if_pos (by rw [h.1]; rfl)]
    exact .inr h

/-- A poll may send buffered data, and promises nothing. -/
theorem runs_writePoll (h : Inv drops low acked w) :
    Runs (streamPoll .wrnorm) (fun _ w' => Inv drops low acked w') w := by
  simp only [streamPoll, wp_bind]
  refine runs_ioSync false h.blocked ?_
  simp only [wp_bind]
  refine wp_mono (runs_streamPollInit_write h) ?_
  intro r w₁ h₁
  cases r with
  | ready => exact h₁
  | error => exact h₁.elim
  | inprogress =>
    obtain ⟨internal, base, rest, h₁⟩ := h₁
    have t := writeTransfer drops low base internal rest
    refine t.pollInprogress h₁.io.blocked ⟨rfl, h₁.flying⟩ ?_ ?_
    · rintro w₂ ⟨hio₂, hf₂⟩
      exact .inl (.inr ⟨internal, base, rest, hio₂ ▸ h₁.io, hf₂, h₁.acked⟩)
    · rintro st w₂ ⟨hio₂, hl⟩ hne
      simp only [pollEvent, wp_bind]
      refine wp_mono (runs_advancePendingWrite (hio₂ ▸ h₁.io) hl hne h₁.acked) ?_
      intro ready w₃ h₃
      cases ready with
      | true => exact .inl (.inl h₃)
      | false =>
        obtain ⟨internal', base', rest', hw, -⟩ := h₃
        simp only [Bool.false_eq_true, if_false, wp_bind, runs_getIo, runs_assert]
        exact ⟨hw.io.inprogress, .inl (.inr ⟨internal', base', rest', hw⟩)⟩

/-! ## Histories -/

/-- An output stream in use, with what its callers were told: the first `n`
bytes of the buffer of every write that returned `n`, in the order of the
calls. -/
structure Output where
  world : World
  acked : List UInt8
  deriving DecidableEq, Repr

/-- A call, with what the host does during it, or an act of the reader
between two calls. -/
inductive OutputCall where
  | write (blocking : Bool) (timeout : Nat) (buffer : List UInt8) (script : List Choice)
  | poll (script : List Choice)
  | close (script : List Choice)
  | peer (c : Choice)

namespace Output

/-- A stream that has just been opened, whose reader does not drop it. -/
def initial (stream : Nat) : Output :=
  ⟨⟨IoState.init stream, ⟨none, [], [], 0, false, false, false⟩, [], [], []⟩, []⟩

/-- A stream that has just been opened, whose reader may drop it or not. -/
def opened (stream : Nat) (mayDrop : Bool) : Output :=
  ⟨⟨IoState.init stream, ⟨none, [], [], 0, mayDrop, false, false⟩, [], [], []⟩, []⟩

/-- One call. -/
def step (s : Output) : OutputCall → Except Fault Output
  | .write blocking timeout buffer script => do
      match ← writeWithoutOffsetUpdate blocking timeout buffer
        { s.world with script := script } with
      | (.ok n, w) => return ⟨w, s.acked ++ buffer.take n⟩
      | (.error _, w) => return ⟨w, s.acked⟩
  | .poll script => do
      let (_, w) ← streamPoll .wrnorm { s.world with script := script }
      return ⟨w, s.acked⟩
  | .close script => do
      let (_, w) ← writeStateClose { s.world with script := script }
      return ⟨w, s.acked⟩
  | .peer c =>
    match s.world.peer c with
    | some w => return ⟨w, s.acked⟩
    | none => throw .host

/-- One call that the host answers. -/
def next (s : Output) (call : OutputCall) : Option Output := (s.step call).toOption

/-- Every call keeps the invariant, and takes nothing back. -/
theorem step_spec {s : Output} (h : Inv drops low s.acked s.world) (call : OutputCall) :
    Ends (s.step call) fun s' => Inv drops low s'.acked s'.world := by
  cases call with
  | write blocking timeout buffer script =>
    have hrun := runs_write (h.reset script) blocking timeout buffer
    simp only [step]
    cases hf : writeWithoutOffsetUpdate blocking timeout buffer
        { s.world with script := script } with
    | error e => exact ok_of_wp hrun hf
    | ok p =>
      obtain ⟨r, w'⟩ := p
      have hpost := post_of_wp hrun hf
      cases r with
      | ok n => exact hpost.2
      | error e => exact hpost
  | poll script =>
    exact ends_of_runs (runs_writePoll (h.reset script))
      (P := fun s' : Output => Inv drops low s'.acked s'.world) (k := fun _ w' => ⟨w', s.acked⟩)
      fun _ _ h' => h'
  | close script =>
    exact ends_of_runs (runs_writeClose (h.reset script))
      (P := fun s' : Output => Inv drops low s'.acked s'.world) (k := fun _ w' => ⟨w', s.acked⟩)
      fun _ _ h' => .inr h'
  | peer c =>
    simp only [step]
    cases hp : s.world.peer c with
    | none => rfl
    | some w' =>
      rcases h with (⟨hio, base, hq, hended, hacked⟩ | ⟨internal, base, rest, h⟩) |
        ⟨hio, base, hq, hacked⟩
      · obtain ⟨hio', hended', hq'⟩ := hq.peer hp
        exact .inl (.inl ⟨hio' ▸ hio, base, hq', by rw [hended', hio', hended], hacked⟩)
      · obtain ⟨hio', hf'⟩ := h.flying.peer hp
        exact .inl (.inr ⟨internal, base, rest, hio' ▸ h.io, hf', h.acked⟩)
      · obtain ⟨hio', -, hq'⟩ := hq.peer hp
        exact .inr ⟨hio'.trans hio, base, hq', hacked⟩

theorem inv_opened {stream : Nat} (hs : stream ≠ 0) (mayDrop : Bool) :
    Inv (mayDrop = true) [] (opened stream mayDrop).acked (opened stream mayDrop).world :=
  .inl (.inl ⟨⟨hs, rfl, rfl, rfl, rfl, rfl, rfl, fun _ => rfl⟩, [],
    ⟨rfl, rfl, id, by simp [opened], by simp [opened], List.nil_prefix⟩, rfl, fun _ => rfl⟩)

/-- The invariant holds in every reachable state. -/
theorem inv_of_reaches {stream : Nat} (hs : stream ≠ 0) {mayDrop : Bool} {s : Output}
    (h : Steps.Reaches next (fun _ _ => True) (opened stream mayDrop) s) :
    Inv (mayDrop = true) [] s.acked s.world := by
  refine h.invariant (I := fun s => Inv (mayDrop = true) [] s.acked s.world)
    (inv_opened hs mayDrop) ?_
  intro s call s' hi _ hnext
  have hstep := step_spec hi call
  unfold next at hnext
  cases hs' : s.step call with
  | error e => rw [hs'] at hnext; cases hnext
  | ok s'' =>
    rw [hs'] at hnext hstep
    cases hnext
    exact hstep

/-- What has been delivered so far is a lower bound from now on. -/
theorem inv_raise (h : Inv drops low acked w) : Inv drops w.host.delivered acked w := by
  rcases h with (⟨hio, base, hq, hrest⟩ | ⟨internal, base, rest, h⟩) | ⟨hio, base, hq, hacked⟩
  · exact .inl (.inl ⟨hio, base,
      { hq with alive := { hq.alive with low := List.prefix_rfl } }, hrest⟩)
  · exact .inl (.inr ⟨internal, base, rest, { h with
      flying := { h.flying with alive := { h.flying.alive with low := List.prefix_rfl } } }⟩)
  · exact .inr ⟨hio, base, { hq with alive := { hq.alive with low := List.prefix_rfl } }, hacked⟩

theorem inv_low (h : Inv drops low acked w) : low <+: w.host.delivered := by
  rcases h with (⟨-, _, hq, -⟩ | ⟨_, _, _, h⟩) | ⟨-, _, hq, -⟩
  · exact hq.alive.low
  · exact h.flying.alive.low
  · exact hq.alive.low

/-- What was delivered is a beginning of what was promised to a reader that
stays, and after a close it is all of it. -/
theorem inv_delivered (h : Inv drops low acked w) (hd : ¬ drops) :
    w.host.delivered <+: acked ∧ (w.io.stream = 0 → w.host.delivered = acked) := by
  rcases h with (⟨hio, base, hq, -, hacked⟩ | ⟨internal, base, rest, h⟩) | ⟨-, base, hq, hacked⟩
  · rw [hq.delivered, hacked hd]
    exact ⟨List.prefix_rfl, fun _ => rfl⟩
  · obtain ⟨got, -, -, hdel⟩ := h.flying.flight
    rw [hdel, ← h.acked hd]
    exact ⟨(List.prefix_append_right_inj base).mpr ( List.take_prefix got rest),
      fun h0 => absurd h0 h.io.stream⟩
  · rw [hq.delivered, hacked hd]
    exact ⟨List.prefix_rfl, fun _ => rfl⟩

/-- Nothing is lost, duplicated or reordered. -/
structure Lossless (s : Output) : Prop where
  /-- What was delivered is a beginning of what the callers were told. -/
  delivered : s.world.host.delivered <+: s.acked
  /-- After a close it is all of it. -/
  closed : s.world.io.stream = 0 → s.world.host.delivered = s.acked
  /-- No call fails an assertion or traps. -/
  sound : ∀ call e, s.step call = .error e → e = .host
  /-- Nothing that was delivered is taken back, so that the first property
  also holds at every moment of a call. -/
  grows : ∀ call s', s.step call = .ok s' → s.world.host.delivered <+: s'.world.host.delivered

/-- Output streams are lossless, after any history of calls. -/
theorem output_lossless {stream : Nat} (hs : stream ≠ 0) {s : Output}
    (h : Steps.Reaches next (fun _ _ => True) (initial stream) s) : s.Lossless where
  delivered := (inv_delivered (inv_of_reaches hs h) Bool.false_ne_true).1
  closed := (inv_delivered (inv_of_reaches hs h) Bool.false_ne_true).2
  sound call e herr := by
    have hstep := step_spec (inv_of_reaches hs h) call
    rw [herr] at hstep
    exact hstep
  grows call s' hok := by
    have hstep := step_spec (inv_raise (inv_of_reaches hs h)) call
    rw [hok] at hstep
    exact inv_low hstep

/-- A nonblocking write that had to be buffered, two bytes taken by the
reader, and the close that sends the third. -/
theorem output_lossless_buffered :
    ∃ s, Steps.Reaches next (fun _ _ => True) (initial 1) s ∧ s.Lossless ∧
      s.world.io.stream = 0 ∧ s.world.host.delivered = [97, 98, 99] ∧ s.acked = [97, 98, 99] := by
  have hrun : ([.write false 0 [97, 98, 99] [.blocked, .cancel .cancelled, .ready 0 false, .blocked,
      .cancel .cancelled, .alloc true, .blocked], .peer (.progress 2),
      .close [.event false, .ready 1 false]].foldlM next (initial 1)).map
        (fun s => (s.world.io.stream, s.world.host.delivered, s.acked)) =
      some (0, [97, 98, 99], [97, 98, 99]) := by decide +kernel
  obtain ⟨s, hs, hobs⟩ := Option.map_eq_some_iff.mp hrun
  simp only [Prod.mk.injEq] at hobs
  exact ⟨s, Steps.reaches_of_foldlM hs, output_lossless (by decide) (Steps.reaches_of_foldlM hs),
    hobs.1, hobs.2.1, hobs.2.2⟩

end Output

end WasiLibc.Stream
