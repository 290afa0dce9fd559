import WasiLibc.Stream.Input.Host

/-!
# WasiLibc.Stream.Input.Pending

The bytes that libc holds for a reader.

Between two calls an input stream is settled, with the window of the
internal buffer still to be returned, or a read is in progress: a
zero-length one, or one into the internal buffer.  `Readable returned` says
that everything transferred has been returned, or is in the window, or is
on its way into the buffer.
-/

namespace WasiLibc.Stream

open Wp

/-- No read is in progress.  The window is what is left of the buffer, which
is released when nothing is left; only the end of the stream leaves an empty
one behind. -/
structure SettledIo (io : IoState) : Prop where
  stream : io.stream ≠ 0
  inprogress : io.inprogress = false
  zeroInprogress : io.zeroInprogress = false
  blocked : io.blocked = false
  start_le : io.bufStart ≤ io.bufEnd
  end_eq : io.bufEnd = (io.buf.getD []).length
  size : io.bufEnd ≤ io.bufSize
  empty : io.buf.isSome = true → io.bufStart = io.bufEnd → io.done = true
  buffer : io.mustBuffer = true → io.shouldBeReady = false

/-- A read is in progress: a zero-length one, or one into the buffer. -/
structure ReadingIo (internal : Bool) (io : IoState) : Prop where
  stream : io.stream ≠ 0
  done : io.done = false
  inprogress : io.inprogress = true
  blocked : io.blocked = false
  bufStart : io.bufStart = 0
  bufEnd : io.bufEnd = 0
  ready : io.shouldBeReady = false
  zero : internal = false → io.zeroInprogress = true ∧ io.buf = none ∧ io.mustBuffer = false
  data : internal = true → io.zeroInprogress = false

/-- Settled, with `returned` returned and the window to come. -/
def Settled (returned : List UInt8) (w : World) : Prop :=
  SettledIo w.io ∧ w.host.flight = none ∧ Taken (returned ++ w.io.window) w.host ∧
    w.host.ended = w.io.done

/-- A read is in progress, with `returned` returned. -/
def Reading (returned : List UInt8) (w : World) : Prop :=
  ∃ internal len, ReadingIo internal w.io ∧ (internal = false → len = 0) ∧
    (internal = true → 0 < len ∧ len ≤ w.io.bufSize) ∧ Arriving internal w.user returned len w.io w

def Readable (returned : List UInt8) (w : World) : Prop :=
  Settled returned w ∨ Reading returned w

variable {returned user took : List UInt8} {w w' : World}

variable {io : IoState} {internal : Bool} {len : Nat}

theorem IoState.window_nil (hs : io.bufStart = 0) (he : io.bufEnd = 0) :
    io.window = [] := by
  simp [IoState.window, hs, he]

theorem IoState.window_of_none (hb : io.buf = none) : io.window = [] := by
  simp [IoState.window, hb]

theorem Readable.blocked (h : Readable returned w) : w.io.blocked = false := by
  rcases h with h | ⟨_, _, hio, -⟩
  · exact h.1.blocked
  · exact hio.blocked

theorem Readable.stream (h : Readable returned w) : w.io.stream ≠ 0 := by
  rcases h with h | ⟨_, _, hio, -⟩
  · exact h.1.stream
  · exact hio.stream

/-- A read in flight can be described from the state it is in. -/
theorem Arriving.rebase
    (h : Arriving internal user took len io w) (hlen : internal = false → len = 0) :
    Arriving internal w.user took len w.io w := by
  obtain ⟨bytes, hflight, hle, hholds, ht, hend⟩ := h
  refine ⟨bytes, hflight, hle, ?_, ht, hend⟩
  unfold Holds at *
  cases internal with
  | true =>
    simp only [if_true] at hholds ⊢
    refine ⟨?_, trivial⟩
    rw [hholds.1]
  | false =>
    have hnil : bytes = [] := List.length_eq_zero_iff.mp (by have := hlen rfl; omega)
    simp [hnil]

/-- Only the buffer of a stream changes while a read is in progress. -/
theorem Reading.of_arriving
    (hio : ReadingIo internal io) (hlen : internal = false → len = 0)
    (hpos : internal = true → 0 < len ∧ len ≤ io.bufSize)
    (h : Arriving internal user returned len io w) : Reading returned w := by
  have hrebase := h.rebase hlen
  obtain ⟨bytes, -, -, hholds, -, -⟩ := h
  have heq := hholds.io_eq
  refine ⟨internal, len, ?_, hlen, ?_, hrebase⟩
  · rw [heq]
    refine { hio with zero := fun h => ?_ }
    subst h
    exact hio.zero rfl
  · rw [heq]
    exact hpos

/-- The record once the read has ended with `n` bytes. -/
def IoState.completed (io : IoState) (state : WaitState) (n : Nat) : IoState :=
  { io.updated state with bufEnd := n }

/-- The bytes that a read has brought are the window. -/
theorem settled_completed {state : WaitState}
    {bytes : List UInt8} (hio : ReadingIo internal io) (hlen : internal = false → bytes = [])
    (hsize : internal = true → bytes.length ≤ io.bufSize)
    (hholds : Holds internal user io bytes w) (hflight : w.host.flight = none)
    (ht : Taken (returned ++ bytes) w.host) (hended : w.host.ended = decide (state = .dropped))
    (hpos : internal = true → state ≠ .dropped → 0 < bytes.length) :
    Settled returned { w with io := w.io.completed state bytes.length } := by
  have heq := hholds.io_eq
  have hbuf : w.io.buf.getD [] = bytes := by
    cases internal with
    | true => simp [heq]
    | false => simp [heq, (hio.zero rfl).2.1, hlen rfl]
  have hdone : (w.io.completed state bytes.length).done = decide (state = .dropped) := by
    simp [IoState.completed, IoState.updated, heq, hio.done]
  have hstart : w.io.bufStart = 0 := by rw [heq]; exact hio.bufStart
  refine ⟨⟨?_, rfl, rfl, ?_, ?_, hbuf ▸ rfl, ?_, ?_, ?_⟩, hflight, ?_, hended.trans hdone.symm⟩
  · simp only [IoState.completed, IoState.updated, heq]
    exact hio.stream
  · simp only [IoState.completed, IoState.updated, heq]
    exact hio.blocked
  · simp [IoState.completed, IoState.updated, hstart]
  · cases internal with
    | true => simpa [IoState.completed, IoState.updated, heq] using hsize rfl
    | false => simp [IoState.completed, hlen rfl]
  · intro hsome hnil
    rw [hdone]
    cases internal with
    | true =>
      by_contra hs
      have := hpos rfl (by simpa using hs)
      simp only [IoState.completed, IoState.updated, hstart] at hnil
      omega
    | false => simp [IoState.completed, IoState.updated, heq, (hio.zero rfl).2.1] at hsome
  · cases internal with
    | true => simp [IoState.completed, IoState.updated, heq, hio.ready, hio.data rfl]
    | false => simp [IoState.completed, IoState.updated, heq, (hio.zero rfl).2.2]
  · simpa [IoState.completed, IoState.updated, IoState.window, hstart, hbuf] using ht

/-- The event of a read in progress makes its bytes the window. -/
theorem runs_completed {st : Status}
    {Q : World → Prop} (hio : ReadingIo internal io) (hlen : internal = false → len = 0)
    (hpos : internal = true → 0 < len ∧ len ≤ io.bufSize)
    (ha : Arrived internal user returned len io st w) (hst : IsEvent st)
    (hQ : ∀ w', Settled returned w' → w'.user = w.user → w'.io.buf = w.io.buf → Q w') :
    Runs (ioUpdateCode st) (fun n w' => Q { w' with io := { w'.io with bufEnd := n } }) w := by
  obtain ⟨state, bytes, rfl, hle, hflight, hholds, ht, hended, hpos'⟩ := ha
  have heq := hholds.io_eq
  refine (runs_ioUpdateCode (by rw [heq]; exact hio.inprogress)
    (fun _ => by rw [heq]; exact hio.ready)).mpr (hQ _ ?_ rfl rfl)
  refine settled_completed hio (fun h => ?_) (fun h => Nat.le_trans hle (hpos h).2) hholds hflight ht
    hended (fun h hs => ?_)
  · exact List.length_eq_zero_iff.mp (by have := hlen h; omega)
  · have hc : state = .completed := by
      cases state with
      | completed => rfl
      | dropped => exact absurd rfl hs
      | cancelled => exact absurd rfl (hst _)
    have := hpos h
    rcases hpos' hc with h0 | h0
    · exact h0
    · omega

/-- The caller's buffer is not touched by a read in progress. -/
theorem Arrived.user_eq {st : Status}
    (h : Arrived internal user took len io st w) (hlen : internal = false → len = 0) :
    w.user = user := by
  obtain ⟨_, bytes, -, hle, -, hholds, -⟩ := h
  unfold Holds at hholds
  cases internal with
  | true => exact hholds.2
  | false =>
    have hnil : bytes = [] := List.length_eq_zero_iff.mp (by have := hlen rfl; omega)
    simpa [hnil] using hholds.2

/-- Resolving the read in progress: its bytes are the window, or it goes on. -/
theorem runs_readResolvePending (h : Readable returned w) (blocking : Bool) (timeout : Nat) :
    Runs (readResolvePending blocking timeout) (fun r w' =>
      match r with
      | .ok _ => Settled returned w' ∧ w'.user = w.user
      | .error _ => Readable returned w') w := by
  simp only [readResolvePending, wp_bind, runs_getIo]
  rcases h with h | ⟨internal, len, hio, hlen, hpos, ha⟩
  · rw [if_neg (by simp [h.1.inprogress])]
    exact ⟨h, rfl⟩
  · rw [if_pos hio.inprogress]
    have t := readTransfer internal w.user returned len
    refine wp_bind.mpr (wp_mono (t.await hio.blocked ha blocking timeout) ?_)
    intro r w₁ h₁
    cases r with
    | error e => exact .inr (.of_arriving hio hlen hpos h₁.1)
    | ok st =>
      simp only [wp_bind, runs_modifyIo, wp_pure]
      exact runs_completed (Q := fun w' => Settled returned w' ∧ w'.user = w.user) hio hlen
        hpos h₁.1 h₁.2 fun w' hs hu _ => ⟨hs, hu.trans (h₁.1.user_eq hlen)⟩

end WasiLibc.Stream
