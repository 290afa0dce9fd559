import WasiLibc.Stream.Output.Host

/-!
# WasiLibc.Stream.Output.Pending

The write that libc has in progress.

Libc's side of an output stream is idle, or has an operation in progress
whose data is the window of the internal buffer.  `Open drops low acked`
joins it to the host's side: unless the reader may drop its end, what the
callers were told is what has been delivered, followed by what is still to be
sent from the window.  The specifications here say that waiting for the
operation and starting the next one keep this, and that the loops of the
source come to an end.
-/

namespace WasiLibc.Stream

open Wp

variable {drops : Prop} {low base bytes acked rest : List UInt8} {internal : Bool} {w w' : World}

/-- No operation is in progress and nothing is buffered. -/
structure IdleIo (io : IoState) : Prop where
  stream : io.stream ≠ 0
  inprogress : io.inprogress = false
  zeroInprogress : io.zeroInprogress = false
  blocked : io.blocked = false
  buf : io.buf = none
  bufStart : io.bufStart = 0
  bufEnd : io.bufEnd = 0
  buffer : io.mustBuffer = true → io.shouldBeReady = false

/-- What the loop of `wasip3_advance_pending_write` sees: no operation is in
progress, and `rest` is still to be sent from the buffer. -/
structure DrainIo (rest : List UInt8) (io : IoState) : Prop where
  stream : io.stream ≠ 0
  inprogress : io.inprogress = false
  zeroInprogress : io.zeroInprogress = false
  blocked : io.blocked = false
  window : io.window = rest
  start_le : io.bufStart ≤ io.bufEnd
  end_le : io.bufEnd ≤ (io.buf.getD []).length
  size : (io.buf.getD []).length ≤ io.bufSize
  data : io.buf.isSome = true → io.shouldBeReady = false
  buffer : io.mustBuffer = true → io.shouldBeReady = false

/-- An operation is in progress: a write of `rest`, the window of the
buffer, or a zero-length write. -/
structure BusyIo (internal : Bool) (rest : List UInt8) (io : IoState) : Prop where
  stream : io.stream ≠ 0
  done : io.done = false
  inprogress : io.inprogress = true
  blocked : io.blocked = false
  window : io.window = rest
  start_le : io.bufStart ≤ io.bufEnd
  end_le : io.bufEnd ≤ (io.buf.getD []).length
  size : (io.buf.getD []).length ≤ io.bufSize
  ready : io.shouldBeReady = false
  zero : io.zeroInprogress = true → io.buf = none ∧ io.mustBuffer = false
  data : io.zeroInprogress = false → io.buf.isSome = true ∧ internal = true

/-- Nothing is in progress, and what was promised has been delivered. -/
def Idle (drops : Prop) (low acked : List UInt8) (w : World) : Prop :=
  IdleIo w.io ∧ ∃ base, Quiet drops low base w.host ∧ w.host.ended = w.io.done ∧
    (¬ drops → base = acked)

/-- A write of `rest` is in progress, all that is missing of what was
promised. -/
structure Writing (drops : Prop) (low acked : List UInt8) (internal : Bool)
    (base rest : List UInt8) (w : World) : Prop where
  io : BusyIo internal rest w.io
  flying : Flying drops low base internal rest w.host
  acked : ¬ drops → base ++ rest = acked

/-- A write of at most `n` bytes, but at least one, is in progress. -/
def Sending (drops : Prop) (low acked : List UInt8) (n : Nat) (w : World) : Prop :=
  ∃ internal base rest, Writing drops low acked internal base rest w ∧
    0 < rest.length ∧ rest.length ≤ n

def Busy (drops : Prop) (low acked : List UInt8) (w : World) : Prop :=
  ∃ internal base rest, Writing drops low acked internal base rest w

def Closed (drops : Prop) (low acked : List UInt8) (w : World) : Prop :=
  w.io = IoState.zero ∧ ∃ base, Quiet drops low base w.host ∧ (¬ drops → base = acked)

variable {io : IoState}

theorem IoState.length_window (hend : io.bufEnd ≤ (io.buf.getD []).length) :
    io.window.length = io.bufEnd - io.bufStart := by
  simp only [window, List.length_drop, List.length_take]
  omega

theorem DrainIo.length (h : DrainIo rest io) :
    rest.length = io.bufEnd - io.bufStart := by
  rw [← h.window, IoState.length_window h.end_le]

/-- Sending `n` bytes shortens the window. -/
theorem DrainIo.advance (h : DrainIo rest io) {n : Nat} (hn : n ≤ rest.length) :
    DrainIo (rest.drop n) { io with bufStart := io.bufStart + n } := by
  have hlen := h.length
  have hle := h.start_le
  refine { h with window := ?_, start_le := ?_ }
  · rw [← h.window]
    simp [IoState.window, List.drop_drop]
  · simp only
    omega

/-- Once the window is empty, or the reader has gone, the buffer is released. -/
theorem DrainIo.idle (h : DrainIo rest io) : IdleIo io.freeBuf :=
  { h with buf := rfl, bufStart := rfl, bufEnd := rfl }

/-- The event of an operation in progress leaves its window to be sent. -/
theorem BusyIo.updated (h : BusyIo internal rest io) (state : WaitState) :
    DrainIo rest (io.updated state) := by
  refine { h with inprogress := rfl, zeroInprogress := rfl, data := ?_, buffer := ?_ }
  all_goals
    intro hx
    cases hz : io.zeroInprogress with
    | false => simp [IoState.updated, h.ready, hz]
    | true =>
      have hzero := h.zero hz
      simp [IoState.updated, hzero.1, hzero.2] at hx

/-- A write of the window that blocks is in progress. -/
theorem DrainIo.busy (h : DrainIo rest io) (hne : io.bufStart ≠ io.bufEnd)
    (hdone : io.done = false) : BusyIo true rest { io with inprogress := true } := by
  have hbuf : io.buf.isSome = true := by
    have hend := h.end_le
    have hle := h.start_le
    cases hb : io.buf with
    | some b => rfl
    | none =>
      simp only [hb, Option.getD_none, List.length_nil] at hend
      omega
  exact { h with
    done := hdone
    inprogress := rfl
    ready := h.data hbuf
    zero := by simp [h.zeroInprogress]
    data := fun _ => ⟨hbuf, rfl⟩ }

/-- The loop sends the window until it is empty, a write blocks or the reader
has gone. -/
theorem runs_advanceLoop (turns : Nat) (hio : DrainIo rest w.io)
    (hq : Quiet drops low base w.host) (hended : w.host.ended = w.io.done)
    (hacked : ¬ drops → base ++ rest = acked)
    (hturns : rest.length < turns ∨ w.io.done = true ∧ 0 < turns) :
    Runs (advanceLoop turns) (fun ready w' =>
      if ready then Idle drops low acked w'
      else w.io.done = false ∧ Sending drops low acked rest.length w') w := by
  induction turns generalizing w base rest with
  | zero => omega
  | succ turns ih =>
    simp only [advanceLoop, wp_bind, runs_getIo]
    by_cases hc : ¬ w.io.done = true ∧ w.io.bufStart ≠ w.io.bufEnd
    · have hdone : w.io.done = false := by simpa using hc.1
      rw [if_pos hc, wp_bind]
      refine wp_mono (runs_streamWrite hq (hended.trans hdone)) ?_
      intro st w₁ h₁
      rw [hio.window] at h₁
      have hbusy := hio.busy hc.2 hdone
      have hlen := hio.length
      have hle := hio.start_le
      simp only [wp_bind, runs_modifyIo]
      rcases h₁ with ⟨rfl, hio₁, hf⟩ | ⟨⟨hio₁, state, got, rfl, hgot, hpos, hq₁, hended₁⟩, hne⟩
      · simp only [if_true, wp_pure, Bool.false_eq_true, if_false]
        exact ⟨hdone, true, base, rest, ⟨hio₁ ▸ hbusy, hf, hacked⟩, by omega, Nat.le_refl _⟩
      · rw [if_neg (by simp), wp_bind]
        refine (runs_ioUpdateCode rfl (by simp [hio₁, hio.zeroInprogress])).mpr ?_
        simp only [wp_bind, runs_modifyIo]
        have hdrain : DrainIo (rest.drop got) { (({ w₁.io with inprogress := true } :
            IoState).updated state) with bufStart := w₁.io.bufStart + got } := by
          rw [hio₁]
          exact (hbusy.updated state).advance hgot
        have hended' : w₁.host.ended =
            (({ w₁.io with inprogress := true } : IoState).updated state).done := by
          simp [hended₁, IoState.updated, hio₁, hdone]
        -- a turn is left: bytes were sent, or the next turn is the last
        have hturns' : (rest.drop got).length < turns ∨
            (({ w₁.io with inprogress := true } : IoState).updated state).done = true ∧
              0 < turns := by
          have hlt : rest.length < turns + 1 := hturns.resolve_right (by simp [hdone])
          rw [List.length_drop]
          cases state with
          | dropped => exact .inr ⟨by simp [IoState.updated], by omega⟩
          | cancelled => exact absurd rfl (hne got)
          | completed =>
            have hgot0 := (hpos rfl).resolve_right (List.ne_nil_of_length_pos (by omega))
            omega
        refine wp_mono (ih hdrain hq₁ hended' ?_ hturns') ?_
        · intro hd
          rw [List.append_assoc, List.take_append_drop]
          exact hacked hd
        · intro ready w₂ h₂
          cases ready with
          | true => exact h₂
          | false =>
            obtain ⟨-, internal', base', rest', hw, hpos', hle'⟩ := h₂
            rw [List.length_drop] at hle'
            exact ⟨hdone, internal', base', rest', hw, hpos', by omega⟩
    · rw [if_neg hc, wp_bind]
      have hor : w.io.done = true ∨ w.io.bufStart = w.io.bufEnd := by
        by_contra hno
        exact hc (not_or.mp hno)
      simp only [runs_assert, wp_bind, runs_modifyIo, wp_pure, if_true]
      refine ⟨hor, hio.idle, base, hq, hended, fun hd => ?_⟩
      have hdone : w.io.done = false := by
        by_contra hno
        exact hd (hq.alive.dropped (hq.alive.ended (hended.trans (by simpa using hno))))
      have hnil : rest = [] := by
        rw [← List.length_eq_zero_iff, hio.length]
        have hend := hor.resolve_left (by simp [hdone])
        omega
      rw [← hacked hd, hnil, List.append_nil]

/-- The event of the write in progress advances it by the bytes sent. -/
theorem runs_advancePendingWrite {st : Status} (hio : BusyIo internal rest w.io)
    (hl : Landed drops low base rest st w.host) (hne : IsEvent st)
    (hacked : ¬ drops → base ++ rest = acked) :
    Runs (advancePendingWrite st) (fun ready w' =>
      if ready then Idle drops low acked w'
      else Sending drops low acked (rest.length - 1) w') w := by
  obtain ⟨state, got, rfl, hgot, hpos, hq, hended⟩ := hl
  simp only [advancePendingWrite, wp_bind]
  refine (runs_ioUpdateCode hio.inprogress (fun _ => hio.ready)).mpr ?_
  simp only [runs_modifyIo, runs_getIo]
  have hdrain := (hio.updated state).advance hgot
  have hdone : (w.io.updated state).done = decide (state = .dropped) := by
    simp [IoState.updated, hio.done]
  have hacked' : ¬ drops → base ++ rest.take got ++ rest.drop got = acked := by
    intro hd
    rw [List.append_assoc, List.take_append_drop]
    exact hacked hd
  refine wp_mono (runs_advanceLoop _ hdrain hq (hended.trans hdone.symm) hacked' (.inl ?_)) ?_
  · rw [hdrain.length]
    exact Nat.lt_succ_self _
  intro ready w₁ h₁
  cases ready with
  | true => exact h₁
  | false =>
    obtain ⟨hopen, internal', base', rest', hw, hpos', hle⟩ := h₁
    rw [List.length_drop] at hle
    refine ⟨internal', base', rest', hw, hpos', ?_⟩
    cases state with
    | completed =>
      rcases hpos rfl with h0 | hnil
      · omega
      · rw [hnil, List.length_nil] at hle
        omega
    | cancelled => exact absurd rfl (hne got)
    | dropped => simp [hdone] at hopen

/-- Resolving the write in progress: it is over, or goes on. -/
theorem runs_resolveLoop (blocking : Bool) (timeout turns : Nat)
    (h : Writing drops low acked internal base rest w) (hturns : rest.length < turns) :
    Runs (resolveLoop blocking timeout turns) (fun r w' =>
      match r with
      | .ok _ => Idle drops low acked w'
      | .error _ => Busy drops low acked w' ∧ (blocking = true → timeout ≠ 0)) w := by
  induction turns generalizing w internal base rest with
  | zero => omega
  | succ turns ih =>
    have t := writeTransfer drops low base internal rest
    simp only [resolveLoop, wp_bind]
    refine wp_mono (t.await h.io.blocked ⟨rfl, h.flying⟩ blocking timeout) ?_
    intro r w₁ h₁
    cases r with
    | error e =>
      obtain ⟨⟨hio₁, hf₁⟩, ht⟩ := h₁
      exact ⟨⟨internal, base, rest, hio₁ ▸ h.io, hf₁, h.acked⟩, ht⟩
    | ok st =>
      obtain ⟨⟨hio₁, hl⟩, hne⟩ := h₁
      simp only [wp_bind]
      refine wp_mono (runs_advancePendingWrite (hio₁ ▸ h.io) hl hne h.acked) ?_
      intro ready w₂ h₂
      cases ready with
      | true => exact h₂
      | false =>
        obtain ⟨internal', base', rest', hw, hpos, hle⟩ := h₂
        simp only [Bool.false_eq_true, if_false]
        cases blocking with
        | true => exact ih hw (by omega)
        | false =>
          simp only [Bool.false_eq_true, if_false, wp_bind, runs_getIo, runs_assert,
            wp_pure, false_implies, and_true]
          exact ⟨hw.io.inprogress, internal', base', rest', hw⟩

/-- What a call starts from: the stream is idle or busy, with `acked` promised. -/
def Open (drops : Prop) (low acked : List UInt8) (w : World) : Prop :=
  Idle drops low acked w ∨ Busy drops low acked w

theorem runs_writeResolvePending (blocking : Bool) (timeout : Nat)
    (h : Open drops low acked w) :
    Runs (writeResolvePending blocking timeout) (fun r w' =>
      match r with
      | .ok _ => Idle drops low acked w'
      | .error _ => Busy drops low acked w' ∧ (blocking = true → timeout ≠ 0)) w := by
  simp only [writeResolvePending, wp_bind, runs_getIo, runs_assert]
  rcases h with h | ⟨internal, base, rest, h⟩
  · refine ⟨by simp [h.1.blocked], ?_⟩
    rw [if_pos (by simp [h.1.inprogress])]
    exact h
  · refine ⟨by simp [h.io.blocked], ?_⟩
    rw [if_neg (by simp [h.io.inprogress])]
    refine wp_bind.mpr (runs_assert.mpr ⟨?_, runs_resolveLoop blocking timeout _ h ?_⟩)
    · cases hz : w.io.zeroInprogress with
      | true => exact .inr rfl
      | false => exact .inl (h.io.data hz).1
    · rw [← h.io.window, IoState.length_window h.io.end_le]
      exact Nat.lt_succ_self _

end WasiLibc.Stream
