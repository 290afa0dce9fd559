import WasiLibc.Stream.Coherent
import WasiLibc.Stream.Frame

/-!
# WasiLibc.Stream.Nonblocking

What a nonblocking call asks of the host, from any state that the stream can
reach, and what it leaves in flight.
-/

namespace WasiLibc.Stream

open Wp

variable {α : Type} {w : World} {p : M α}

theorem asks_write (timeout : Nat) (buffer : List UInt8) :
    Asks w (fun _ l => Bounded (view w).1 l) (writeWithoutOffsetUpdate false timeout buffer) := by
  refine (keeps_ioSync).asks fun w₁ r h₁ => ?_
  rw [← h₁]
  cases r with
  | error e => exact asks_pure bounded_nil
  | ok _ => exact asks_writeSynced timeout buffer

theorem asks_read (timeout length : Nat) :
    Asks w (fun _ l => Bounded 0 l) (readWithoutOffsetUpdate false timeout length) := by
  refine (keeps_ioSync).asks fun w₁ r _ => ?_
  cases r with
  | error e => exact asks_pure bounded_nil
  | ok _ => exact asks_readSynced timeout length

/-- A call from `w` has returned in `w'`: what it asked for is bounded, and
nothing in flight refers to the caller's buffer. -/
structure Prompt (n : Nat) (w w' : World) : Prop where
  asked : ∃ l, w'.acts = w.acts ++ l ∧ Bounded n l
  free : ∀ f, w'.host.flight = some f → f.len = 0 ∨ f.internal = true

theorem prompt_of_asks {n : Nat} {Q : α → World → Prop} (h : Asks w (fun _ l => Bounded n l) p)
    (hrun : Runs p Q w) (hQ : ∀ a w', Q a w' → Coherent w') :
    Runs p (fun _ w' => Prompt n w w') w := by
  unfold Asks Runs wp at *
  split at hrun
  case h_2 e herr => simpa [herr] using hrun
  case h_1 a w' hok =>
    simp only [hok] at h ⊢
    refine ⟨h.2, fun f hf => ?_⟩
    by_cases hlen : f.len = 0
    · exact .inl hlen
    · exact .inr ((hQ a w' hrun).data f hf hlen).2

/-- From every reachable state a nonblocking call returns without waiting,
after at most two attempts with the caller's buffer, a probe for each, one
operation with the internal buffer, and one for each byte that an earlier
write has left in it. -/
theorem nonblocking_prompt {stream : Nat} (hs : stream ≠ 0) :
    (∀ s, Steps.Reaches Input.next (fun _ _ => True) (Input.initial stream) s →
      ∀ timeout length script, Runs (readWithoutOffsetUpdate false timeout length)
        (fun _ w' => Prompt 0 s.world w') (s.enter script)) ∧
    ∀ mayDrop s, Steps.Reaches Output.next (fun _ _ => True) (Output.opened stream mayDrop) s →
      ∀ timeout buffer script, Runs (writeWithoutOffsetUpdate false timeout buffer)
        (fun _ w' => Prompt (s.world.io.bufEnd - s.world.io.bufStart) s.world w')
        { s.world with script := script } := by
  constructor
  · intro s h timeout length script
    refine wp_mono (prompt_of_asks (asks_read timeout length) (Input.runs_readEnter
      (Input.readable_of_reaches hs h) false timeout length script) ?_) fun _ _ h => ⟨h.1, h.2⟩
    intro r w' hr
    cases r with
    | ok n => exact coherent_readable (.inl hr.settled)
    | error e => exact coherent_readable hr
  · intro mayDrop s h timeout buffer script
    refine wp_mono (prompt_of_asks (asks_write timeout buffer) (runs_write
      ((Output.inv_of_reaches hs h).reset script) false timeout buffer) ?_) fun _ _ h => ⟨h.1, h.2⟩
    intro r w' hr
    cases r with
    | ok n => exact coherent_inv hr.2
    | error e => exact coherent_inv hr

/-- Three bytes were buffered, and all of them are still in the buffer. -/
theorem nonblocking_prompt_resend :
    ∃ s, Steps.Reaches Output.next (fun _ _ => True) (Output.opened 1 false) s ∧
      s.world.io.window = [97, 98, 99] ∧
      Runs (writeWithoutOffsetUpdate false 0 [100]) (fun _ w' => Prompt 3 s.world w')
        { s.world with script := [.event false, .ready 2 false, .alloc true, .blocked] } := by
  have hrun : ([.write false 0 [97, 98, 99] [.blocked, .cancel .cancelled, .ready 0 false, .blocked,
      .cancel .cancelled, .alloc true, .blocked], .peer (.progress 1)].foldlM Output.next
        (Output.opened 1 false)).map (fun s => (s.world.io.window, s.world.io.bufEnd,
          s.world.io.bufStart)) = some ([97, 98, 99], 3, 0) := by decide +kernel
  obtain ⟨s, hs, hobs⟩ := Option.map_eq_some_iff.mp hrun
  simp only [Prod.mk.injEq] at hobs
  have hreach := Steps.reaches_of_foldlM hs
  have hprompt := (nonblocking_prompt (by decide)).2 false s hreach 0 [100]
    [.event false, .ready 2 false, .alloc true, .blocked]
  rw [hobs.2.1, hobs.2.2] at hprompt
  exact ⟨s, hreach, hobs.1, hprompt⟩

/-- One call with three operations on the internal buffer: the first two send
what was left of an earlier write, a byte each. -/
theorem nonblocking_internal_thrice :
    ∃ s r w', Steps.Reaches Output.next (fun _ _ => True) (Output.initial 1) s ∧
      writeWithoutOffsetUpdate false 0 [100] { s.world with
        script := [.event false, .ready 1 false, .ready 1 false, .alloc true, .blocked] } =
        .ok (r, w') ∧
      w'.acts.count .internal = s.world.acts.count .internal + 3 := by
  have hrun : ([.write false 0 [97, 98, 99] [.blocked, .cancel .cancelled, .ready 0 false, .blocked,
      .cancel .cancelled, .alloc true, .blocked], .peer (.progress 1)].foldlM Output.next
        (Output.initial 1)).map (fun s => ((writeWithoutOffsetUpdate false 0 [100] { s.world with
          script := [.event false, .ready 1 false, .ready 1 false, .alloc true, .blocked] }).toOption.map
            fun p => decide (p.2.acts.count .internal = s.world.acts.count .internal + 3))) =
      some (some true) := by decide +kernel
  obtain ⟨s, hs, hobs⟩ := Option.map_eq_some_iff.mp hrun
  obtain ⟨⟨r, w'⟩, hcall, hcount⟩ := Option.map_eq_some_iff.mp hobs
  refine ⟨s, r, w', Steps.reaches_of_foldlM hs, ?_, of_decide_eq_true hcount⟩
  cases hres : writeWithoutOffsetUpdate false 0 [100] { s.world with
      script := [.event false, .ready 1 false, .ready 1 false, .alloc true, .blocked] } with
  | error e =>
    rw [hres] at hcall
    cases hcall
  | ok p =>
    rw [hres] at hcall
    cases hcall
    rfl

end WasiLibc.Stream
