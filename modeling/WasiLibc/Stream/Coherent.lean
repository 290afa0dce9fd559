import WasiLibc.Stream.Input.Calls
import WasiLibc.Stream.Output.Calls

/-!
# WasiLibc.Stream.Coherent

What the flags and the window of `wasip3_io_state_t` say together.

The invariants of the two directions know which operation is in progress and
where its bytes are.  `Coherent` is what they have in common, in terms of the
record alone and of the operation that the host has in flight.
-/

namespace WasiLibc.Stream

/-- The flags, the window and the operation in flight agree. -/
structure Coherent (w : World) : Prop where
  zero : w.io.zeroInprogress = true → w.io.inprogress = true
  ready : w.io.shouldBeReady = true → w.io.inprogress = false ∧ w.io.mustBuffer = false
  /-- An operation in flight that moves bytes has the buffer for them, and it
  is libc's own. -/
  data : ∀ f, w.host.flight = some f → f.len ≠ 0 → w.io.buf.isSome = true ∧ f.internal = true
  start_le : w.io.bufStart ≤ w.io.bufEnd
  end_le : w.io.bufEnd ≤ w.io.bufSize
  /-- The host has an operation in flight exactly while the flag says so. -/
  flight : w.host.flight.isSome = w.io.inprogress

theorem bool_excludes {a b : Bool} (h : b = true → a = false) (ha : a = true) : b = false := by
  cases b with
  | false => rfl
  | true => simp [h rfl] at ha

theorem coherent_inv {drops : Prop} {low acked : List UInt8} {w : World}
    (h : Inv drops low acked w) : Coherent w := by
  rcases h with (⟨hio, base, hq, -⟩ | ⟨internal, base, rest, hio, hf, -⟩) | ⟨hio, base, hq, -⟩
  · exact {
      zero := by simp [hio.zeroInprogress]
      ready := fun hr => ⟨hio.inprogress, bool_excludes hio.buffer hr⟩
      data := by simp [hq.flight]
      start_le := by simp [hio.bufStart]
      end_le := by simp [hio.bufEnd]
      flight := by simp [hq.flight, hio.inprogress] }
  · obtain ⟨got, -, hflight, -⟩ := hf.flight
    refine ⟨fun _ => hio.inprogress, by simp [hio.ready], ?_, hio.start_le,
      Nat.le_trans hio.end_le hio.size, by simp [hflight, hio.inprogress]⟩
    intro f hsome hlen
    cases hflight.symm.trans hsome
    cases hz : w.io.zeroInprogress with
    | false => exact hio.data hz
    | true =>
      refine absurd ?_ hlen
      rw [Flight.len, ← hio.window, IoState.window, (hio.zero hz).1]
      simp
  · refine ⟨?_, ?_, by simp [hq.flight], ?_, ?_, ?_⟩
    all_goals simp [hio, IoState.zero, hq.flight]

theorem coherent_readable {returned : List UInt8} {w : World} (h : Readable returned w) :
    Coherent w := by
  rcases h with ⟨hio, hflight, -⟩ | ⟨internal, len, hio, hlen, -, bytes, hflight, -, hholds, -⟩
  · exact {
      zero := by simp [hio.zeroInprogress]
      ready := fun hr => ⟨hio.inprogress, bool_excludes hio.buffer hr⟩
      data := by simp [hflight]
      start_le := hio.start_le
      end_le := hio.size
      flight := by simp [hflight, hio.inprogress] }
  · refine ⟨fun _ => hio.inprogress, by simp [hio.ready], ?_, by simp [hio.bufStart],
      by simp [hio.bufEnd], by simp [hflight, hio.inprogress]⟩
    intro f hsome hpos
    cases hflight.symm.trans hsome
    cases internal with
    | false => exact absurd (hlen rfl) hpos
    | true =>
      have hbuf := congrArg IoState.buf hholds.io_eq
      exact ⟨by rw [hbuf]; rfl, rfl⟩

/-- Every state of a stream is coherent, whatever was called before and
whatever the host answered, and no call fails an assertion or traps. -/
theorem io_coherent {stream : Nat} (hs : stream ≠ 0) :
    (∀ s, Steps.Reaches Input.next (fun _ _ => True) (Input.initial stream) s →
      Coherent s.world ∧ ∀ call e, s.step call = .error e → e = .host) ∧
    ∀ mayDrop s, Steps.Reaches Output.next (fun _ _ => True) (Output.opened stream mayDrop) s →
      Coherent s.world ∧ ∀ call e, s.step call = .error e → e = .host := by
  constructor
  · intro s h
    have hinv := Input.readable_of_reaches hs h
    refine ⟨coherent_readable hinv, fun call e herr => ?_⟩
    have hstep := Input.step_spec hinv call
    rw [herr] at hstep
    exact hstep
  · intro mayDrop s h
    have hinv := Output.inv_of_reaches hs h
    refine ⟨coherent_inv hinv, fun call e herr => ?_⟩
    have hstep := Output.step_spec hinv call
    rw [herr] at hstep
    exact hstep

/-- Of three bytes that were buffered the reader takes one and goes; the poll
that learns of it releases the buffer. -/
theorem io_coherent_dropped :
    ∃ s, Steps.Reaches Output.next (fun _ _ => True) (Output.opened 1 true) s ∧
      Coherent s.world ∧ s.world.io.done = true ∧ s.world.io.buf = none ∧
      s.world.host.delivered = [97] := by
  have hrun : ([.write false 0 [97, 98, 99] [.blocked, .cancel .cancelled, .ready 0 false, .blocked,
      .cancel .cancelled, .alloc true, .blocked], .peer (.progress 1), .peer .drop,
      .poll [.alloc true, .event true]].foldlM Output.next (Output.opened 1 true)).map
        (fun s => (s.world.io.done, s.world.io.buf, s.world.host.delivered)) =
      some (true, none, [97]) := by decide +kernel
  obtain ⟨s, hs, hobs⟩ := Option.map_eq_some_iff.mp hrun
  simp only [Prod.mk.injEq] at hobs
  exact ⟨s, Steps.reaches_of_foldlM hs,
    ((io_coherent (by decide)).2 true s (Steps.reaches_of_foldlM hs)).1, hobs⟩

end WasiLibc.Stream
