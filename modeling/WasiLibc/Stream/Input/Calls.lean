import WasiLibc.Lib.Steps
import WasiLibc.Stream.Input.Pending

/-!
# WasiLibc.Stream.Input.Calls

Reading loses, duplicates and reorders nothing: the specifications of the
two calls on an input stream, `runs_read` and `runs_readPoll`, and what they
mean for whole histories (`input_lossless`).
-/

namespace WasiLibc.Stream

open Wp

variable {returned user took : List UInt8} {w w' : World}

/-! ## Reading -/

/-- A read of up to `length` bytes gave the caller `n`, which are returned
now.  Nothing was there to give only at the end of the stream, when all of
it had been returned. -/
structure Gave (returned : List UInt8) (length n : Nat) (w : World) : Prop where
  le : n ≤ length
  user : w.user.length = n
  settled : Settled (returned ++ w.user) w
  eof : n = 0 → 0 < length → w.io.done = true ∧ w.io.window = []

/-- The outcome of a read. -/
def Got (returned : List UInt8) (length : Nat) (r : Except Errno Nat) (w : World) : Prop :=
  match r with
  | .ok n => Gave returned length n w
  | .error _ => Readable returned w

/-- A read can be started with the caller's buffer. -/
structure Fresh (returned : List UInt8) (w : World) : Prop where
  settled : Settled returned w
  buf : w.io.buf = none
  done : w.io.done = false
  user : w.user = []

variable {io : IoState} {length : Nat} {state : WaitState}

theorem SettledIo.end_of_none (h : SettledIo io) (hb : io.buf = none) :
    io.bufStart = 0 ∧ io.bufEnd = 0 := by
  have hend := h.end_eq
  have := h.start_le
  simp only [hb, Option.getD_none, List.length_nil] at hend
  omega

/-- A fresh stream is still, whatever the flags that the call sets. -/
theorem Fresh.still (h : Fresh returned w) : Still [] returned w.io false w := by
  obtain ⟨⟨hio, hflight, ht, hended⟩, hbuf, hdone, huser⟩ := h
  rw [IoState.window_of_none hbuf, List.append_nil] at ht
  exact ⟨rfl, huser, hflight, ht, hended.trans hdone⟩

/-- Copying from the internal buffer. -/
theorem runs_readCompleteInternally (h : Settled returned w) (hbuf : w.io.buf.isSome = true)
    (length : Nat) :
    Runs (readCompleteInternally length) (Gave returned length) w := by
  obtain ⟨hio, hflight, ht, hended⟩ := h
  have hlen : w.io.window.length = w.io.bufEnd - w.io.bufStart := by
    simp only [IoState.window, List.length_drop, List.length_take]
    have := hio.end_eq
    omega
  simp only [readCompleteInternally, wp_bind, runs_getIo, wp_modify, runs_modifyIo]
  generalize hamount : (if w.io.bufEnd - w.io.bufStart < length then
    w.io.bufEnd - w.io.bufStart else length) = amount
  have hle : amount ≤ w.io.window.length ∧ amount ≤ length := by
    rw [hlen]
    split at hamount <;> omega
  have hstart := hio.start_le
  have hsplit : w.io.window.take amount ++ w.io.window.drop amount = w.io.window :=
    List.take_append_drop _ _
  have heof : amount = 0 → 0 < length → w.io.done = true := by
    intro h0 hpos
    refine hio.empty hbuf ?_
    split at hamount <;> omega
  by_cases hc : w.io.bufStart + amount = w.io.bufEnd
  · -- everything is returned
    rw [if_pos hc]
    have hnil : w.io.window.drop amount = [] := List.drop_eq_nil_of_le (by omega)
    rw [hnil, List.append_nil] at hsplit
    refine ⟨hle.2, by simp [hle.1], ⟨⟨hio.stream, hio.inprogress, hio.zeroInprogress, hio.blocked,
      Nat.le_refl _, rfl, Nat.le_refl _, by simp [IoState.freeBuf], hio.buffer⟩, hflight, ?_,
      hended⟩, ?_⟩
    · show Taken (returned ++ w.io.window.take amount ++ []) w.host
      rw [List.append_nil, hsplit]
      exact ht
    · intro h0 hpos
      exact ⟨heof h0 hpos, by simp [IoState.freeBuf, IoState.window]⟩
  · rw [if_neg hc]
    have hwindow : ({ w.io with bufStart := w.io.bufStart + amount } : IoState).window =
        w.io.window.drop amount := by
      simp [IoState.window, List.drop_drop]
    refine ⟨hle.2, by simp [hle.1], ⟨⟨hio.stream, hio.inprogress, hio.zeroInprogress, hio.blocked,
      ?_, hio.end_eq, hio.size, fun _ he => absurd he hc, hio.buffer⟩, hflight, ?_, hended⟩, ?_⟩
    · simp only
      omega
    · simp only [hwindow]
      rw [List.append_assoc, hsplit]
      exact ht
    · intro h0 hpos
      refine ⟨heof h0 hpos, ?_⟩
      simp only [hwindow]
      exact List.drop_eq_nil_of_le (by split at hamount <;> omega)

/-- The record of a stream without a buffer, whatever the flags of readiness
and of its end. -/
theorem Fresh.flags (h : Fresh returned w) (done ready mb : Bool)
    (hready : mb = true → ready = false) :
    SettledIo { w.io with done := done, shouldBeReady := ready, mustBuffer := mb } := by
  have hbuf := h.buf
  exact { h.settled.1 with empty := by simp [hbuf], buffer := hready }

/-- A read with the caller's buffer, or of nothing, has ended. -/
structure Ended (returned : List UInt8) (length n : Nat) (state : WaitState) (io : IoState)
    (w : World) : Prop where
  io : w.io = io
  le : n ≤ length
  user : w.user.length = n
  settled : Settled (returned ++ w.user) w
  window : w.io.window = []
  pos : state = .completed → 0 < n ∨ length = 0

theorem Arrived.ended {n : Nat}
    (h : Arrived false [] returned length io (.code state n) w) (hio : SettledIo io)
    (hbuf : io.buf = none) (hdone : io.done = decide (state = .dropped)) :
    Ended returned length n state io w := by
  obtain ⟨state', bytes, hst, hle, hflight, hholds, ht, hended, hpos⟩ := h
  cases hst
  simp only [Holds, Bool.false_eq_true, if_false, List.nil_append] at hholds
  obtain ⟨rfl, rfl⟩ := hholds
  have hwindow := IoState.window_of_none hbuf
  refine ⟨rfl, hle, rfl, ⟨hio, hflight, ?_, hended.trans hdone.symm⟩, hwindow, hpos⟩
  rw [hwindow, List.append_nil]
  exact ht

/-- The caller gets the bytes of a read that moved some, or found the end. -/
theorem Ended.gave {n : Nat}
    (h : Ended returned length n state io w) (heof : n = 0 → 0 < length → w.io.done = true) :
    Gave returned length n w :=
  ⟨h.le, h.user, h.settled, fun h0 hpos => ⟨heof h0 hpos, h.window⟩⟩

theorem Ended.nil
    (h : Ended returned length 0 state io w) : Settled returned w := by
  have hnil : w.user = [] := List.length_eq_zero_iff.mp h.user
  simpa [hnil] using h.settled

theorem runs_readBlocking (timeout : Nat) (h : Fresh returned w)
    (hlen : 0 < length) : Runs (readBlocking timeout length) (Got returned length) w := by
  obtain ⟨-, huser, hflight, ht, hended⟩ := h.still
  have t := readTransfer false [] returned length
  refine wp_mono (t.blocking timeout h.settled.1.blocked ?_) ?_
  · rintro w' rfl
    exact runs_streamRead ⟨rfl, huser, hflight, ht, hended⟩ (by simp)
  rintro r w₁ ⟨state, n, hend, rfl⟩
  have hleft : SettledIo (Transfer.left w.io state) :=
    { h.flags (w.io.done || state = .dropped) false w.io.mustBuffer (fun _ => rfl) with
      blocked := rfl }
  have he := hend.ended hleft h.buf (by simp [Transfer.left, h.done])
  unfold Transfer.outcome
  split
  case isTrue hc =>
    obtain ⟨-, rfl⟩ := hc
    exact .inl he.nil
  case isFalse hc =>
    refine he.gave fun h0 _ => ?_
    rw [he.io]
    cases state with
    | dropped => simp [Transfer.left]
    | completed => exact absurd (he.pos rfl) (by omega)
    | cancelled => exact absurd ⟨rfl, h0⟩ hc

/-- A zero-length read is started. -/
theorem runs_readStartZeroLength (hs : Settled returned w) (hbuf : w.io.buf = none)
    (hdone : w.io.done = false) (hsbr : w.io.shouldBeReady = false)
    (hmb : w.io.mustBuffer = false) :
    Runs (startZeroLength (streamRead false 0)) (fun started w' => w'.user = w.user ∧
      if started then Reading returned w'
      else Settled returned w' ∧ w'.io.buf = none ∧
        (w'.io.done = false → w'.io.shouldBeReady = true)) w := by
  obtain ⟨hio, hflight, ht, hended⟩ := hs
  obtain ⟨hstart, hend⟩ := hio.end_of_none hbuf
  rw [IoState.window_of_none hbuf, List.append_nil] at ht
  have t := readTransfer false w.user returned 0
  refine wp_mono (t.startZeroLength hio.inprogress hio.zeroInprogress hsbr hdone
    (runs_streamRead ⟨rfl, rfl, hflight, ht, hended.trans hdone⟩ (by simp))) ?_
  intro started w₁ h₁
  cases started with
  | true =>
    have hreading : ReadingIo false { w.io with inprogress := true, zeroInprogress := true } :=
      { hio with
        done := hdone
        inprogress := rfl
        bufStart := hstart
        bufEnd := hend
        ready := hsbr
        zero := fun _ => ⟨rfl, hbuf, hmb⟩
        data := by simp }
    refine ⟨?_, .of_arriving hreading (fun _ => rfl) (by simp) h₁⟩
    obtain ⟨bytes, -, hle, hholds, -, -⟩ := h₁
    obtain rfl : bytes = [] := List.length_eq_zero_iff.mp (by omega)
    simpa [Holds] using hholds.2
  | false =>
    obtain ⟨state, n, -, h₁⟩ := h₁
    refine ⟨h₁.user_eq fun _ => rfl, ?_⟩
    obtain ⟨state', bytes, hst, hle, hflight₁, hholds, ht₁, hended₁, -⟩ := h₁
    cases hst
    obtain rfl : bytes = [] := List.length_eq_zero_iff.mp (by omega)
    simp only [Holds, Bool.false_eq_true, if_false] at hholds ⊢
    rw [hholds.1]
    refine ⟨⟨?_, hflight₁, ?_, ?_⟩, hbuf, fun _ => rfl⟩
    · rw [hholds.1]
      exact { hio with empty := by simp [hbuf], buffer := by simp [hmb] }
    · rw [hholds.1]
      simpa [IoState.window, hbuf] using ht₁
    · rw [hholds.1, hended₁]

/-- The loop of a nonblocking read. -/
theorem readAttempts (returned : List UInt8) (hlen : 0 < length) :
    Attempts (streamRead false length) (streamRead false 0) (Fresh returned)
      (Gave returned length) (Reading returned) where
  clear h := by
    obtain ⟨⟨hio, hrest⟩, hbuf, hdone, huser⟩ := h
    exact ⟨⟨{ hio with buffer := fun _ => rfl }, hrest⟩, hbuf, hdone, huser⟩
  attempt {w} h hsbr ready := by
    have t := readTransfer false [] returned length
    have hio := h.settled.1
    refine wp_mono (t.attempt ready hio.inprogress hio.zeroInprogress
      (runs_streamRead h.still (by simp))) ?_
    rintro r w₁ ⟨state, n, mb, hend, -, hready, rfl⟩
    have hflags := h.flags (w.io.done || state = .dropped) false mb (fun _ => rfl)
    rw [← hsbr] at hflags
    have he := hend.ended hflags h.buf (by simp [h.done])
    by_cases hpos : 0 < n
    · rw [if_pos hpos]
      exact he.gave fun h0 => absurd h0 (by omega)
    · obtain rfl : n = 0 := by omega
      by_cases hdone : w₁.io.done = true
      · rw [if_neg hpos, if_pos hdone]
        exact he.gave fun _ _ => hdone
      · rw [if_neg hpos, if_neg hdone]
        refine ⟨⟨he.nil, by rw [he.io]; exact h.buf, by simpa using hdone,
          List.length_eq_zero_iff.mp he.user⟩, by rw [he.io]; exact hsbr, fun hr => ?_⟩
        rw [he.io]
        refine hready ?_ hr
        cases state with
        | cancelled => rfl
        | completed => exact absurd (he.pos rfl) (by omega)
        | dropped => exact absurd (by rw [he.io]; simp) hdone
  probe {w} h hsbr hmb := by
    refine wp_mono (runs_readStartZeroLength h.settled h.buf h.done hsbr hmb) ?_
    rintro started w₁ ⟨huser, h₁⟩
    have hnil : w₁.user = [] := huser.trans h.user
    cases started with
    | true => exact h₁
    | false =>
      obtain ⟨hs, hbuf, hsbr₁⟩ := h₁
      simp only [Bool.false_eq_true, if_false]
      split
      case isTrue hd =>
        exact ⟨Nat.zero_le _, by simp [hnil], by simpa [hnil] using hs,
          fun _ _ => ⟨hd, IoState.window_of_none hbuf⟩⟩
      case isFalse hd =>
        have hd : w₁.io.done = false := by simpa using hd
        exact ⟨⟨hs, hbuf, hd, hnil⟩, hsbr₁ hd⟩

/-- A read into the internal buffer is started. -/
theorem runs_readStartNonzero (hlen : 0 < length) (hs : Settled returned w)
    (hbuf : w.io.buf = none) (hdone : w.io.done = false) (hsbr : w.io.shouldBeReady = false)
    (hmb : w.io.mustBuffer = true) :
    Runs (readStartNonzero length) (fun r w' => w'.user = w.user ∧
      match r with
      | .ok _ => Settled returned w' ∧ w'.io.buf.isSome = true
      | .error .EWOULDBLOCK => Reading returned w'
      | .error _ => Settled returned w') w := by
  obtain ⟨hio, hflight, ht, hended⟩ := id hs
  rw [IoState.window_of_none hbuf, List.append_nil] at ht
  have hstill : Still w.user returned w.io false w := ⟨rfl, rfl, hflight, ht, hended.trans hdone⟩
  simp only [readStartNonzero, wp_bind, runs_getIo, runs_assert]
  refine ⟨hmb, by simp [hsbr], by simp [hio.inprogress], by simp [hio.zeroInprogress],
    by simp [hdone], hbuf, by omega, wp_mono (runs_alloc_still hstill) ?_⟩
  rintro ok w₁ ⟨hio₁, huser₁, hflight₁, ht₁, hended₁⟩
  cases ok with
  | false =>
    simp only [Bool.false_eq_true, if_false, wp_pure]
    refine ⟨huser₁, ?_, hflight₁, ?_, by rw [hio₁, hended₁, hdone]⟩
    · rw [hio₁]; exact hio
    · rw [hio₁, IoState.window_of_none hbuf, List.append_nil]; exact ht₁
  | true =>
    simp only [if_true, wp_bind, runs_modifyIo]
    -- the record with the buffer that was allocated
    generalize hio₂ : { w₁.io with
      buf := some [], bufStart := 0, bufEnd := 0, bufSize := length } = io₂
    have hreading : ReadingIo true { io₂ with inprogress := true } := by
      rw [← hio₂, hio₁]
      exact { hio with
        done := hdone
        inprogress := rfl
        bufStart := rfl
        bufEnd := rfl
        ready := hsbr
        zero := by simp
        data := fun _ => hio.zeroInprogress }
    have hsize : length ≤ io₂.bufSize := hio₂ ▸ Nat.le_refl length
    have t := readTransfer true w.user returned length
    refine wp_mono (runs_streamRead ⟨rfl, huser₁, hflight₁, ht₁, hended₁⟩
      (fun _ => by rw [← hio₂])) ?_
    intro st w₂ h₂
    rcases h₂ with ⟨rfl, ha⟩ | ⟨ha, hst⟩
    · simp only [if_true, wp_pure]
      have ha' := t.flags (f := fun io => { io with inprogress := true }) (fun _ _ => rfl) ha
      refine ⟨?_, .of_arriving hreading (by simp) (fun _ => ⟨hlen, hsize⟩) ha'⟩
      obtain ⟨bytes, -, -, hholds, -⟩ := ha
      exact hholds.2
    · obtain ⟨state, k, rfl⟩ := t.code ha
      have ha' := t.flagsEnd (f := fun io => { io with inprogress := true }) (fun _ _ => rfl) ha
      simp only [reduceCtorEq, if_false, wp_bind, runs_modifyIo, wp_pure]
      refine runs_completed (Q := fun w' => w'.user = w.user ∧ Settled returned w' ∧
        w'.io.buf.isSome = true) hreading (by simp) (fun _ => ⟨hlen, hsize⟩) ha' hst
        fun w' hs hu hb => ⟨hu.trans (ha'.user_eq (by simp)), hs, ?_⟩
      obtain ⟨_, bytes, -, -, -, hholds, -⟩ := ha
      rw [hb]
      simp [hholds.io_eq]

theorem runs_readNonblocking (hlen : 0 < length) (h : Fresh returned w) :
    Runs (readNonblocking length) (Got returned length) w := by
  simp only [readNonblocking, wp_bind]
  refine wp_mono ((readAttempts returned hlen).loop 2 h (.inl (Nat.le_refl 2))) ?_
  intro r w₁ h₁
  cases r with
  | some r =>
    cases r with
    | ok n => exact h₁
    | error e => exact .inr h₁
  | none =>
    obtain ⟨hfresh, hsbr, hmb⟩ := h₁
    refine wp_bind.mpr (wp_mono (runs_readStartNonzero hlen hfresh.settled hfresh.buf
      hfresh.done hsbr hmb) ?_)
    rintro r w₂ ⟨huser, h₂⟩
    cases r with
    | ok u =>
      simp only [wp_bind]
      exact wp_mono (runs_readCompleteInternally h₂.1 h₂.2 length) fun n w' h' => h'
    | error e =>
      cases e with
      | EWOULDBLOCK => exact .inr h₂
      | _ => exact .inl h₂

/-! ## The two calls -/

theorem runs_read (h : Readable returned w) (huser : w.user = [])
    (blocking : Bool) (timeout : Nat) :
    Runs (readWithoutOffsetUpdate blocking timeout length) (Got returned length) w := by
  simp only [readWithoutOffsetUpdate, wp_bind]
  refine runs_ioSync blocking h.blocked ?_
  simp only [readSynced, wp_bind, runs_getIo]
  rw [if_neg h.stream]
  refine wp_bind.mpr (wp_mono (runs_readResolvePending h blocking timeout) ?_)
  intro r w₁ h₁
  cases r with
  | error e => exact h₁
  | ok u =>
    obtain ⟨hs, hu⟩ := h₁
    have hu : w₁.user = [] := hu.trans huser
    have hnone : length = 0 ∨ (w₁.io.done = true ∧ w₁.io.buf = none) →
        Gave returned length 0 w₁ := by
      intro hz
      refine ⟨Nat.zero_le _, by simp [hu], by simpa [hu] using hs, fun _ hpos => ?_⟩
      obtain ⟨hd, hb⟩ := hz.resolve_left (by omega)
      exact ⟨hd, IoState.window_of_none hb⟩
    simp only [wp_bind, runs_getIo, runs_assert]
    refine ⟨by simp [hs.1.inprogress], ?_⟩
    by_cases hbuf : w₁.io.buf.isSome = true
    · rw [if_pos hbuf]
      exact wp_bind.mpr (wp_mono (runs_readCompleteInternally hs hbuf length) fun _ _ h' => h')
    · have hb : w₁.io.buf = none := by simpa using hbuf
      rw [if_neg hbuf]
      by_cases hz : length = 0
      · rw [if_pos hz]
        exact hnone (.inl hz)
      · rw [if_neg hz, wp_bind]
        simp only [runs_getIo]
        by_cases hd : w₁.io.done = true
        · rw [if_pos hd]
          exact hnone (.inr ⟨hd, hb⟩)
        · rw [if_neg hd]
          have hfresh : Fresh returned w₁ := ⟨hs, hb, by simpa using hd, hu⟩
          have hpos : 0 < length := Nat.pos_of_ne_zero hz
          by_cases hblocking : blocking = true
          · rw [if_pos hblocking]
            exact runs_readBlocking timeout hfresh hpos
          · rw [if_neg hblocking]
            exact runs_readNonblocking hpos hfresh

theorem runs_streamPollInit_read (h : Readable returned w) :
    Runs (streamPollInit .rdnorm) (fun r w' =>
      match r with
      | .ready => Readable returned w'
      | .inprogress => Reading returned w'
      | .error => Readable returned w') w := by
  simp only [streamPollInit, wp_bind, runs_getIo]
  rcases h with h | h
  · rw [if_neg h.1.stream]
    by_cases hd : w.io.done = true
    · rw [if_pos hd]
      exact .inl h
    · rw [if_neg hd, if_neg (by simp [h.1.inprogress])]
      have hd : w.io.done = false := by simpa using hd
      by_cases hbuf : w.io.buf.isSome = true
      · rw [if_pos ⟨trivial, hbuf⟩]
        exact .inl h
      · rw [if_neg (by simpa using hbuf)]
        have hbuf : w.io.buf = none := by simpa using hbuf
        by_cases hmb : w.io.mustBuffer = true
        · rw [if_pos hmb]
          simp only [wp_bind]
          refine wp_mono (runs_readStartNonzero (by decide) h hbuf hd (h.1.buffer hmb) hmb) ?_
          rintro r w₁ ⟨-, h₁⟩
          cases r with
          | ok u => exact .inl h₁.1
          | error e =>
            cases e with
            | EWOULDBLOCK => exact h₁
            | _ => exact .inl h₁
        · rw [if_neg hmb]
          by_cases hsbr : w.io.shouldBeReady = true
          · rw [if_pos hsbr]
            exact .inl h
          · rw [if_neg hsbr]
            simp only [readStartZeroLength, wp_bind]
            refine wp_mono (runs_readStartZeroLength h hbuf hd (by simpa using hsbr)
              (by simpa using hmb)) ?_
            rintro started w₁ ⟨-, h₁⟩
            cases started with
            | true => exact h₁
            | false => exact .inl h₁.1
  · obtain ⟨_, _, hio, -⟩ := id h
    rw [if_neg hio.stream, if_neg (by simp [hio.done]), if_pos hio.inprogress]
    exact h

/-- A poll may fetch bytes into the internal buffer, and returns none. -/
theorem runs_readPoll (h : Readable returned w) :
    Runs (streamPoll .rdnorm) (fun _ w' => Readable returned w') w := by
  simp only [streamPoll, wp_bind]
  refine runs_ioSync false h.blocked ?_
  simp only [wp_bind]
  refine wp_mono (runs_streamPollInit_read h) ?_
  intro r w₁ h₁
  cases r with
  | ready => exact h₁
  | error => exact h₁
  | inprogress =>
    obtain ⟨internal, len, hio, hlen, hpos, ha⟩ := h₁
    have t := readTransfer internal w₁.user returned len
    refine t.pollInprogress hio.blocked ha ?_ ?_
    · intro w₂ h₂
      exact .inr (.of_arriving hio hlen hpos h₂)
    · intro st w₂ h₂ hst
      simp only [pollEvent, wp_bind, runs_modifyIo, wp_pure]
      exact runs_completed hio hlen hpos h₂ hst fun w' hs _ _ => .inl hs

/-! ## Histories -/

/-- Between two calls neither the caller's buffer nor the host's script
matters. -/
theorem Readable.reset (h : Readable returned w) (user : List UInt8) (script : List Choice) :
    Readable returned { w with user := user, script := script } := by
  rcases h with h | ⟨internal, len, hio, hlen, hpos, bytes, hflight, hle, hholds, hrest⟩
  · exact .inl h
  · refine .inr ⟨internal, len, hio, hlen, hpos, bytes, hflight, hle, ?_, hrest⟩
    unfold Holds at *
    cases internal with
    | true =>
      simp only [if_true] at hholds ⊢
      exact ⟨hholds.1, trivial⟩
    | false =>
      obtain rfl : bytes = [] := List.length_eq_zero_iff.mp (by have := hlen rfl; omega)
      simp

/-- The writer may act between two calls. -/
theorem Readable.peer (h : Readable returned w) {c : Choice} (hp : w.peer c = some w') :
    Readable returned w' := by
  rcases h with ⟨hio, hflight, ht, hended⟩ | ⟨internal, len, hio, hlen, hpos, ha⟩
  · have hc : ∀ k, c ≠ .progress k := by
      rintro k rfl
      simp [World.peer, World.progress, hflight] at hp
    obtain ⟨hio', -, hflight', hended', ht'⟩ := ht.peer hp hc
    exact .inl ⟨hio' ▸ hio, hflight'.trans hflight, hio' ▸ ht',
      hio' ▸ hended'.trans hended⟩
  · exact .inr (.of_arriving hio hlen hpos (ha.peer hp))

/-- An input stream in use, with the bytes that its callers were given, in
the order of the calls. -/
structure Input where
  world : World
  returned : List UInt8
  deriving DecidableEq, Repr

/-- A call, with what the host does during it, or an act of the writer
between two calls. -/
inductive InputCall where
  | read (blocking : Bool) (timeout length : Nat) (script : List Choice)
  | poll (script : List Choice)
  | peer (c : Choice)

namespace Input

/-- A stream that has just been opened. -/
def initial (stream : Nat) : Input :=
  ⟨⟨IoState.init stream, ⟨none, [], [], 0, true, false, false⟩, [], [], []⟩, []⟩

/-- The world in which a read starts, with an empty buffer of its caller. -/
def enter (s : Input) (script : List Choice) : World :=
  { s.world with user := [], script := script }

/-- One call. -/
def step (s : Input) : InputCall → Except Fault Input
  | .read blocking timeout length script => do
      match ← readWithoutOffsetUpdate blocking timeout length (s.enter script) with
      | (.ok n, w) => return ⟨w, s.returned ++ w.user.take n⟩
      | (.error _, w) => return ⟨w, s.returned⟩
  | .poll script => do
      let (_, w) ← streamPoll .rdnorm (s.enter script)
      return ⟨w, s.returned⟩
  | .peer c =>
    match s.world.peer c with
    | some w => return ⟨w, s.returned⟩
    | none => throw .host

/-- One call that the host answers. -/
def next (s : Input) (call : InputCall) : Option Input := (s.step call).toOption

variable {s : Input}

/-- A read, from any state between two calls. -/
theorem runs_readEnter (h : Readable s.returned s.world) (blocking : Bool)
    (timeout length : Nat) (script : List Choice) :
    Runs (readWithoutOffsetUpdate blocking timeout length) (Got s.returned length)
      (s.enter script) :=
  runs_read (h.reset [] script) rfl blocking timeout

/-- Every call keeps the invariant. -/
theorem step_spec (h : Readable s.returned s.world) (call : InputCall) :
    Ends (s.step call) fun s' => Readable s'.returned s'.world := by
  cases call with
  | read blocking timeout length script =>
    have hrun := runs_readEnter h blocking timeout length script
    simp only [step]
    cases hf : readWithoutOffsetUpdate blocking timeout length (s.enter script) with
    | error e => exact ok_of_wp hrun hf
    | ok p =>
      obtain ⟨r, w'⟩ := p
      have hpost := post_of_wp hrun hf
      cases r with
      | error e => exact hpost
      | ok n =>
        have htake : w'.user.take n = w'.user :=
          List.take_of_length_le (Nat.le_of_eq hpost.user)
        show Readable (s.returned ++ w'.user.take n) w'
        rw [htake]
        exact .inl hpost.settled
  | poll script =>
    simp only [step]
    exact ends_of_runs (runs_readPoll (h.reset [] script))
      (P := fun s' : Input => Readable s'.returned s'.world) (k := fun _ w' => ⟨w', s.returned⟩)
      fun _ _ h' => h'
  | peer c =>
    simp only [step]
    cases hp : s.world.peer c with
    | none => rfl
    | some w' => exact h.peer hp

theorem readable_initial {stream : Nat} (hs : stream ≠ 0) :
    Readable (initial stream).returned (initial stream).world :=
  .inl ⟨⟨hs, rfl, rfl, rfl, Nat.le_refl _, rfl, Nat.le_refl _, by simp [initial, IoState.init, IoState.zero],
    fun _ => rfl⟩, rfl, ⟨rfl, Nat.le_refl _, by simp [initial]⟩, rfl⟩

/-- The invariant holds in every reachable state. -/
theorem readable_of_reaches {stream : Nat} (hs : stream ≠ 0)
    (h : Steps.Reaches next (fun _ _ => True) (initial stream) s) :
    Readable s.returned s.world := by
  refine h.invariant (I := fun s => Readable s.returned s.world) (readable_initial hs) ?_
  intro s call s' hi _ hnext
  have hstep := step_spec hi call
  unfold next at hnext
  cases hs' : s.step call with
  | error e => rw [hs'] at hnext; cases hnext
  | ok s'' =>
    rw [hs'] at hnext hstep
    cases hnext
    exact hstep

/-- The bytes that the reads in the past have transferred; those of a read
still in flight are not among them. -/
def transferred (s : Input) : List UInt8 :=
  s.world.host.source.take (s.world.host.moved - (s.world.host.flight.map Flight.got).getD 0)

/-- The bytes that a read still in flight has put into the internal buffer. -/
def arriving (s : Input) : List UInt8 :=
  if s.world.host.flight.isSome then s.world.io.buf.getD [] else []

/-- Nothing is lost, duplicated or reordered. -/
structure Lossless (s : Input) : Prop where
  /-- What was returned is a beginning of what was put into the stream. -/
  returned : s.returned <+: s.world.host.source
  /-- What was transferred and not returned is `buf[buf_start..buf_end)`. -/
  unreturned : s.transferred = s.returned ++ s.world.io.window
  /-- What a read in flight has taken out of the stream is in the buffer. -/
  inflight : s.world.host.source.take s.world.host.moved = s.transferred ++ s.arriving
  /-- The end of the stream is reported only after the writer has gone and
  all that it transferred has been returned. -/
  eof : ∀ blocking timeout length script w, 0 < length →
    readWithoutOffsetUpdate blocking timeout length (s.enter script) = .ok (.ok 0, w) →
    w.host.dropped = true ∧ w.host.flight = none ∧
      w.host.source.take w.host.moved = s.returned
  /-- No call fails an assertion or traps. -/
  sound : ∀ call e, s.step call = .error e → e = .host

theorem transferred_of_readable (h : Readable s.returned s.world) :
    s.transferred = s.returned ++ s.world.io.window ∧
      s.world.host.source.take s.world.host.moved = s.transferred ++ s.arriving := by
  unfold transferred arriving
  rcases h with ⟨hio, hflight, ht, -⟩ | ⟨internal, len, hio, hlen, -, bytes, hflight, hle,
    hholds, ht, -⟩
  · simp [hflight, ht.took]
  · have hmoved : s.world.host.moved = s.returned.length + bytes.length := by
      have := congrArg List.length ht.took
      simp only [List.length_take, List.length_append] at this
      have := ht.moved_le
      omega
    have hbuf : s.world.io.buf.getD [] = bytes := by
      unfold Holds at hholds
      cases internal with
      | true =>
        simp only [if_true] at hholds
        rw [hholds.1]
        rfl
      | false =>
        obtain rfl : bytes = [] := List.length_eq_zero_iff.mp (by have := hlen rfl; omega)
        simp [(hio.zero rfl).2.1]
    have htake : s.world.host.source.take s.returned.length = s.returned := by
      have := congrArg (List.take s.returned.length) ht.took
      rw [List.take_take, hmoved, Nat.min_eq_left (by omega), List.take_left] at this
      exact this
    simp only [hflight, Option.map_some, Option.getD_some, Flight.got, Option.isSome_some, if_true,
      hbuf, IoState.window_nil hio.bufStart hio.bufEnd, List.append_nil]
    rw [show s.world.host.moved - bytes.length = s.returned.length by omega, htake]
    exact ⟨rfl, ht.took⟩

/-- Input streams are lossless, after any history of calls. -/
theorem input_lossless {stream : Nat} (hs : stream ≠ 0) {s : Input}
    (h : Steps.Reaches next (fun _ _ => True) (initial stream) s) : s.Lossless where
  returned := by
    obtain ⟨hunreturned, -⟩ := transferred_of_readable (readable_of_reaches hs h)
    have htaken : s.returned <+: s.transferred := hunreturned ▸ List.prefix_append _ _
    exact htaken.trans ( List.take_prefix _ _)
  unreturned := (transferred_of_readable (readable_of_reaches hs h)).1
  inflight := (transferred_of_readable (readable_of_reaches hs h)).2
  eof blocking timeout length script w hlen hread := by
    have hgave : Gave s.returned length 0 w := post_of_wp
      (runs_readEnter (readable_of_reaches hs h) blocking timeout length script) hread
    obtain ⟨-, hflight, ht, hended⟩ := hgave.settled
    obtain ⟨hdone, hwindow⟩ := hgave.eof rfl hlen
    have hnil : w.user = [] := List.length_eq_zero_iff.mp hgave.user
    refine ⟨ht.ended (hended.trans hdone), hflight, ?_⟩
    rw [ht.took, hnil, hwindow, List.append_nil, List.append_nil]
  sound call e herr := by
    have hstep := step_spec (readable_of_reaches hs h) call
    rw [herr] at hstep
    exact hstep

/-- A nonblocking read that has to go through the internal buffer, a poll
that fills it, two bytes of it returned, and the third one still there when
the writer has gone. -/
theorem input_lossless_buffered :
    ∃ s, Steps.Reaches next (fun _ _ => True) (initial 1) s ∧ s.Lossless ∧
      s.returned = [97, 98] ∧ s.world.io.window = [99] ∧ s.world.host.dropped = true := by
  have hrun : ([.read false 0 3 [.blocked, .cancel .cancelled, .ready 0 false, .blocked,
      .cancel .cancelled, .alloc true, .blocked], .peer (.put [97, 98, 99]), .peer (.progress 3),
      .poll [.alloc true, .event false], .read true 0 2 [], .peer .drop].foldlM next
        (initial 1)).map (fun s => (s.returned, s.world.io.window, s.world.host.dropped)) =
      some ([97, 98], [99], true) := by decide +kernel
  obtain ⟨s, hs, hobs⟩ := Option.map_eq_some_iff.mp hrun
  simp only [Prod.mk.injEq] at hobs
  exact ⟨s, Steps.reaches_of_foldlM hs, input_lossless (by decide) (Steps.reaches_of_foldlM hs),
    hobs.1, hobs.2.1, hobs.2.2⟩

end Input

end WasiLibc.Stream
