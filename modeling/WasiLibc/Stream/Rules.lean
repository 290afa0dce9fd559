import WasiLibc.Stream.Io

/-!
# WasiLibc.Stream.Rules

The rules for stream programs that hold in both directions: `Runs f Q w` is
the weakest precondition that admits no failure of libc, only a host that
does not answer.

A `Transfer` is what the directions say of an operation in flight, and of one
that has ended; the rules for waiting, polling, cancelling and for the direct
attempts of blocking and nonblocking calls follow from it.
-/

namespace WasiLibc.Stream

open Wp

/-- `f` run from `w` ends in `Q`, unless the host does not answer. -/
abbrev Runs {α : Type} (f : M α) (Q : α → World → Prop) (w : World) : Prop :=
  wp (fun e : Fault => e = .host) f Q w

section

variable {α : Type} {Q : α → World → Prop} {w : World}

@[simp] theorem runs_getIo {Q : IoState → World → Prop} : Runs getIo Q w ↔ Q w.io w := Iff.rfl

@[simp] theorem runs_modifyIo {f : IoState → IoState} {Q : PUnit → World → Prop} :
    Runs (modifyIo f) Q w ↔ Q ⟨⟩ { w with io := f w.io } := Iff.rfl

@[simp] theorem runs_modifyHost {f : Host → Host} {Q : PUnit → World → Prop} :
    Runs (modifyHost f) Q w ↔ Q ⟨⟩ { w with host := f w.host } := Iff.rfl

@[simp] theorem runs_act {a : Act} {Q : PUnit → World → Prop} :
    Runs (act a) Q w ↔ Q ⟨⟩ { w with acts := w.acts ++ [a] } := Iff.rfl

@[simp] theorem runs_assert {c : Prop} [Decidable c] {Q : PUnit → World → Prop} :
    Runs (assert c) Q w ↔ c ∧ Q ⟨⟩ w := by
  unfold assert
  by_cases h : c <;> simp [h]

/-- The record after an operation has ended. -/
def IoState.updated (io : IoState) (state : WaitState) : IoState :=
  { io with
    done := io.done || state = .dropped
    inprogress := false
    zeroInprogress := false
    shouldBeReady := io.shouldBeReady || io.zeroInprogress }

/-- `wasip3_io_update_code`, when an operation is in progress. -/
theorem runs_ioUpdateCode {state : WaitState} {n : Nat} {Q : Nat → World → Prop}
    (hin : w.io.inprogress = true)
    (hzero : w.io.zeroInprogress = true → w.io.shouldBeReady = false) :
    Runs (ioUpdateCode (.code state n)) Q w ↔ Q n { w with io := w.io.updated state } := by
  obtain ⟨⟨stream, done, inp, zero, sbr, mb, bl, buf, s, e, size⟩, host, user, script, acts⟩ := w
  simp only at hin hzero
  subst hin
  cases zero <;> cases state <;> simp_all [ioUpdateCode, IoState.updated, wp_ite]

@[simp] theorem runs_enter {Q : PUnit → World → Prop} :
    Runs enterBlockingOperation Q w ↔
      w.io.blocked = false ∧ Q ⟨⟩ { w with io := { w.io with blocked := true } } := by
  simp [enterBlockingOperation]

@[simp] theorem runs_exit {Q : PUnit → World → Prop} :
    Runs exitBlockingOperation Q w ↔
      w.io.blocked = true ∧ Q ⟨⟩ { w with io := { w.io with blocked := false } } := by
  simp [exitBlockingOperation]

/-- A step that runs a program which meets its specification. -/
theorem ends_of_runs {σ : Type} {f : M α} {k : α → World → σ} (h : Runs f Q w) {P : σ → Prop}
    (hP : ∀ a w', Q a w' → P (k a w')) :
    Ends (do let p ← f w; return k p.1 p.2) P := by
  cases hf : f w with
  | error e => exact ok_of_wp h hf
  | ok p => exact hP p.1 p.2 (post_of_wp h hf)

/-- A stream that nobody waits on is free for the call. -/
theorem runs_ioSync {Q : Except Errno Unit → World → Prop} (blocking : Bool)
    (hb : w.io.blocked = false) (h : Q (.ok ()) w) : Runs (ioSync blocking) Q w := by
  simp only [ioSync, wp_bind, runs_getIo]
  rw [if_neg (by simp [hb])]
  exact h

end

/-- The peer acts until the host answers: what every act of the peer keeps
is still true then. -/
theorem runs_next {P : World → Prop} (hpeer : ∀ w c w', P w → w.peer c = some w' → P w')
    (hscript : ∀ w script, P w → P { w with script := script }) {w : World} (h : P w) :
    Runs next (fun _ w' => P w') w := by
  show wp _ (fun w => settle w.script w) _ _
  unfold wp
  simp only
  generalize w.script = cs
  induction cs generalizing w with
  | nil => rfl
  | cons c cs ih =>
    by_cases hc : c.isPeer = true
    · cases hp : w.peer c with
      | none => simp [settle, hc, hp]
      | some w' => simpa [settle, hc, hp] using ih (hpeer w c w' h hp)
    · simpa [settle, hc] using hscript w cs h

/-! ## Operations in flight -/

/-- The answer to a wait or a poll, and not to a cancellation. -/
def IsEvent (st : Status) : Prop := ∀ n, st ≠ .code .cancelled n

/-- A change of the flags, whatever the internal buffer. -/
def Flagwise (f : IoState → IoState) : Prop :=
  ∀ io buf, f { io with buf := buf } = { f io with buf := buf }

/-- `Fly io` describes an operation in flight, and `End io st` one that has
ended with the status `st`.  The record is `io`, but for the bytes that a read
has put into the internal buffer. -/
structure Transfer (Fly : IoState → World → Prop) (End : IoState → Status → World → Prop) :
    Prop where
  peer : ∀ {io w c w'}, Fly io w → w.peer c = some w' → Fly io w'
  ghost : ∀ {io w} script acts, Fly io w → Fly io { w with script := script, acts := acts }
  finish : ∀ {io w} state, Fly io w →
    Runs (finish state) (fun st w' => End io st w' ∧ ∃ n, st = .code state n) w
  flags : ∀ {io w f}, Flagwise f → Fly io w → Fly (f io) { w with io := f w.io }
  flagsEnd : ∀ {io st w f}, Flagwise f → End io st w → End (f io) st { w with io := f w.io }
  io : ∀ {io w}, Fly io w → w.io = { io with buf := w.io.buf }
  ioEnd : ∀ {io st w}, End io st w → w.io = { io with buf := w.io.buf }
  code : ∀ {io st w}, End io st w → ∃ state n, st = .code state n

/-- What a wait or a poll finds. -/
def Found (Fly : World → Prop) (End : Status → World → Prop) (r : Option Status) (w : World) :
    Prop :=
  match r with
  | some st => End st w ∧ IsEvent st
  | none => Fly w

/-- An operation that was started is in flight, or has ended at once. -/
def Started (Fly : World → Prop) (End : Status → World → Prop) (st : Status) (w : World) : Prop :=
  (st = .blocked ∧ Fly w) ∨ End st w ∧ IsEvent st

namespace Transfer

variable {Fly : IoState → World → Prop} {End : IoState → Status → World → Prop} {io : IoState}
  {w : World}

section

variable (t : Transfer Fly End)

include t

theorem next (h : Fly io w) : Runs next (fun _ => Fly io) w :=
  runs_next (fun _ _ _ h hp => t.peer h hp) (fun w script h => t.ghost script w.acts h) h

theorem alloc (h : Fly io w) : Runs alloc (fun _ => Fly io) w := by
  simp only [Stream.alloc, wp_bind]
  refine wp_mono (t.next h) ?_
  intro c w₁ h₁
  cases c with
  | alloc ok => exact h₁
  | _ => exact rfl

theorem cancel (h : Fly io w) : Runs streamCancel (End io) w := by
  simp only [streamCancel, wp_bind]
  refine wp_mono (t.next h) ?_
  intro c w₁ h₁
  cases c with
  | cancel state => exact wp_mono (t.finish state h₁) fun _ _ h => h.1
  | _ => exact rfl

theorem event (h : Fly io w) (dropped : Bool) :
    Runs (some <$> Stream.finish (if dropped then .dropped else .completed))
      (fun r w' => Found (Fly io) (End io) r w' ∧ r ≠ none) w := by
  refine wp_map.mpr (wp_mono (t.finish _ h) ?_)
  rintro st w₁ ⟨hend, n, rfl⟩
  refine ⟨⟨hend, ?_⟩, Option.some_ne_none _⟩
  intro n' heq
  cases dropped <;> cases heq

theorem poll (h : Fly io w) : Runs pollWaitable (Found (Fly io) (End io)) w := by
  simp only [pollWaitable, wp_bind]
  refine wp_mono (t.next h) ?_
  intro c w₁ h₁
  cases c with
  | event dropped => exact wp_mono (t.event h₁ dropped) fun _ _ h => h.1
  | nothing => exact h₁
  | _ => exact rfl

theorem block (h : Fly io w) (timeout : Nat) :
    Runs (waitableBlockOn timeout) (fun r w' => Found (Fly io) (End io) r w' ∧
      (timeout = 0 → r ≠ none)) w := by
  have h' : Fly io { w with acts := w.acts ++ [.wait] } := t.ghost w.script _ h
  simp only [waitableBlockOn, wp_bind, runs_act]
  by_cases ht : timeout = 0
  · simp only [if_pos ht, wp_bind]
    refine wp_mono (t.next h') ?_
    intro c w₁ h₁
    cases c with
    | event dropped => exact wp_mono (t.event h₁ dropped) fun _ _ h => ⟨h.1, fun _ => h.2⟩
    | _ => exact rfl
  · simp only [if_neg ht, wp_bind]
    refine wp_mono (t.next h') ?_
    intro c w₁ h₁
    cases c with
    | elapsed atOnce =>
      simp only [wp_bind]
      refine wp_mono (t.next h₁) ?_
      intro c w₂ h₂
      cases c with
      | event dropped => exact wp_mono (t.event h₂ dropped) fun _ _ h => ⟨h.1, fun _ => h.2⟩
      | nothing => exact ⟨h₂, fun h => absurd h ht⟩
      | _ => exact rfl
    | _ => exact rfl

/-! ## Waiting -/

/-- Marking the stream as blocked, or not. -/
theorem blocked (h : Fly io w) (b : Bool) :
    Fly { io with blocked := b } { w with io := { w.io with blocked := b } } :=
  t.flags (f := fun io => { io with blocked := b }) (fun _ _ => rfl) h

theorem blockedEnd {st : Status} (h : End io st w) (b : Bool) :
    End { io with blocked := b } st { w with io := { w.io with blocked := b } } :=
  t.flagsEnd (f := fun io => { io with blocked := b }) (fun _ _ => rfl) h

/-- The mark is taken back when the wait is over. -/
theorem unblocked {r : Option Status} (hb : io.blocked = false)
    (h : Found (Fly { io with blocked := true }) (End { io with blocked := true }) r w) :
    w.io.blocked = true ∧
      Found (Fly io) (End io) r { w with io := { w.io with blocked := false } } := by
  have hback : { io with blocked := false } = io := by rw [← hb]
  cases r with
  | none =>
    have h' := t.blocked h false
    simp only [hback] at h'
    exact ⟨by rw [t.io h], h'⟩
  | some st =>
    have h' := t.blockedEnd h.1 false
    simp only [hback] at h'
    exact ⟨by rw [t.ioEnd h.1], h', h.2⟩

/-- One wait for the operation in progress, or a poll. -/
theorem await (hb : io.blocked = false) (h : Fly io w) (blocking : Bool) (timeout : Nat) :
    Runs (awaitPending blocking timeout) (fun r w' =>
      match r with
      | .ok st => End io st w' ∧ IsEvent st
      | .error _ => Fly io w' ∧ (blocking = true → timeout ≠ 0)) w := by
  unfold awaitPending
  cases blocking with
  | false =>
    simp only [Bool.false_eq_true, if_false, wp_bind]
    refine wp_mono (t.poll h) ?_
    intro r w₁ h₁
    cases r with
    | some st => exact h₁
    | none => exact ⟨h₁, by simp⟩
  | true =>
    simp only [if_true, wp_bind, runs_enter]
    refine ⟨by rw [t.io h, hb], wp_mono (t.block (t.blocked h true) timeout) ?_⟩
    rintro r w₁ ⟨hfound, ht⟩
    obtain ⟨hb₁, hfound₁⟩ := t.unblocked hb hfound
    simp only [runs_exit]
    refine ⟨hb₁, ?_⟩
    cases r with
    | some st => exact hfound₁
    | none => exact ⟨hfound₁, fun _ h0 => ht h0 rfl⟩

/-- What a call makes of the status of an operation that it waited for. -/
def outcome (state : WaitState) (n : Nat) : Except Errno Nat × Bool :=
  if state = .cancelled ∧ n = 0 then (.error .ETIMEDOUT, false) else (.ok n, state = .dropped)

/-- Waiting for an operation with the caller's buffer, which is cancelled when
the time is over. -/
theorem blockOnTimeout {st : Status} (timeout : Nat) (h : Started (Fly io) (End io) st w) :
    Runs (streamBlockOnTimeout st timeout) (fun r w' =>
      ∃ state n, End io (.code state n) w' ∧ r = outcome state n) w := by
  have hevent : ∀ {state n w'}, End io (.code state n) w' → IsEvent (.code state n) →
      ∃ state' n', End io (.code state' n') w' ∧
        ((.ok n, decide (state = .dropped)) : Except Errno Nat × Bool) = outcome state' n' := by
    intro state n w' hend hne
    refine ⟨state, n, hend, (if_neg ?_).symm⟩
    rintro ⟨rfl, -⟩
    exact hne n rfl
  unfold streamBlockOnTimeout
  rcases h with ⟨rfl, hf⟩ | ⟨hend, hne⟩
  · simp only [wp_bind]
    refine wp_mono (t.block hf timeout) ?_
    rintro r w₁ ⟨hfound, -⟩
    cases r with
    | some st =>
      obtain ⟨state, n, rfl⟩ := t.code hfound.1
      exact hevent hfound.1 hfound.2
    | none =>
      simp only [wp_bind]
      refine wp_mono (t.cancel hfound) ?_
      intro st w₂ hend
      obtain ⟨state, n, rfl⟩ := t.code hend
      refine wp_ite.mpr ?_
      split
      case isTrue hc => exact ⟨state, n, hend, (if_pos hc).symm⟩
      case isFalse hc => exact ⟨state, n, hend, (if_neg hc).symm⟩
  · obtain ⟨state, n, rfl⟩ := t.code hend
    exact hevent hend hne

/-- The record that a blocking call leaves behind. -/
def left (io : IoState) (state : WaitState) : IoState :=
  { io with shouldBeReady := false, blocked := false, done := io.done || state = .dropped }

/-- The blocking case of a read or a write. -/
theorem blocking {start : M Status} (timeout : Nat) (hb : w.io.blocked = false)
    (h : ∀ w', w' = { w with io := { w.io with shouldBeReady := false, blocked := true } } →
      Runs start (Started (Fly w'.io) (End w'.io)) w') :
    Runs (transferBlocking start timeout) (fun r w' => ∃ state n,
      End (left w.io state) (.code state n) w' ∧ r = (outcome state n).1) w := by
  simp only [transferBlocking, wp_bind, runs_modifyIo, runs_enter]
  refine ⟨hb, wp_mono (h _ rfl) ?_⟩
  intro st w₁ h₁
  refine wp_mono (t.blockOnTimeout timeout h₁) ?_
  rintro _ w₂ ⟨state, n, hend, rfl⟩
  simp only [runs_exit]
  refine ⟨by rw [t.ioEnd hend], ?_⟩
  have hleft := t.flagsEnd (f := fun io => left io state) (fun _ _ => rfl) hend
  have hdone : (outcome state n).2 = decide (state = .dropped) := by
    unfold outcome
    split
    case isTrue hc => simp [hc.1]
    case isFalse => rfl
  have hsbr : w₂.io.shouldBeReady = false := by rw [t.ioEnd hend]
  rw [hdone]
  by_cases hd : state = .dropped
  · simp only [hd, decide_true, if_true, wp_bind, runs_modifyIo, wp_pure]
    exact ⟨_, _, by simpa [left, hd, hsbr] using hleft, rfl⟩
  · simp only [hd, decide_false, Bool.false_eq_true, if_false, wp_pure]
    exact ⟨_, _, by simpa [left, hd, hsbr] using hleft, rfl⟩

/-! ## Nonblocking calls -/

/-- The attempt of a nonblocking call.  It leaves the record as it was, but
for the end of the stream; and the stream must buffer if the attempt blocked
although the stream should have been ready. -/
theorem attempt {start : M Status} (ready : Bool) (hin : io.inprogress = false)
    (hzero : io.zeroInprogress = false) (h : Runs start (Started (Fly io) (End io)) w) :
    Runs (Stream.attempt start ready) (fun r w' => ∃ state n mb,
      End { io with mustBuffer := mb, done := io.done || state = .dropped } (.code state n) w' ∧
      (mb = io.mustBuffer ∨ mb = true) ∧ (state = .cancelled → ready = true → mb = true) ∧
      r = if 0 < n then some n else if w'.io.done then some 0 else none) w := by
  -- the operation has ended, with the record as it is in progress
  have hended : ∀ mb st w₁, End { io with inprogress := true, mustBuffer := mb } st w₁ →
      Runs (attemptEnd st) (fun r w' => ∃ state n, st = .code state n ∧
        End { io with mustBuffer := mb, done := io.done || state = .dropped } st w' ∧
        r = if 0 < n then some n else if w'.io.done then some 0 else none) w₁ := by
    intro mb st w₁ hend
    obtain ⟨state, n, rfl⟩ := t.code hend
    have hio := t.ioEnd hend
    have hup := t.flagsEnd (f := fun io => io.updated state) (fun _ _ => rfl) hend
    simp only [attemptEnd, wp_bind]
    refine (runs_ioUpdateCode (by rw [hio]) (by rw [hio]; simp [hzero])).mpr ?_
    have hpost : End { io with mustBuffer := mb, done := io.done || state = .dropped }
        (.code state n) { w₁ with io := w₁.io.updated state } := by
      simpa [IoState.updated, hin, hzero] using hup
    simp only [wp_ite, wp_pure, wp_bind, runs_getIo]
    split
    case isTrue hn => exact ⟨state, n, rfl, hpost, (if_pos hn).symm⟩
    case isFalse hn =>
      split
      case isTrue hd => exact ⟨state, n, rfl, hpost, (if_neg hn).symm⟩
      case isFalse hd => exact ⟨state, n, rfl, hpost, (if_neg hn).symm⟩
  simp only [Stream.attempt, wp_bind]
  refine wp_mono h ?_
  intro st w₁ h₁
  simp only [runs_modifyIo]
  rcases h₁ with ⟨rfl, hf⟩ | ⟨hend, hne⟩
  · -- it blocked, and is cancelled
    have hcancel : ∀ mb, (mb = io.mustBuffer ∨ mb = true) → (ready = true → mb = true) →
        Runs (do attemptEnd (← streamCancel)) (fun r w' => ∃ state n mb,
          End { io with mustBuffer := mb, done := io.done || state = .dropped }
            (.code state n) w' ∧ (mb = io.mustBuffer ∨ mb = true) ∧
          (state = .cancelled → ready = true → mb = true) ∧
          r = if 0 < n then some n else if w'.io.done then some 0 else none)
          { w₁ with io := { w₁.io with inprogress := true, mustBuffer := mb } } := by
      intro mb hmb hready
      have hf' := t.flags (f := fun io => { io with inprogress := true, mustBuffer := mb })
        (fun _ _ => rfl) hf
      refine wp_bind.mpr (wp_mono (t.cancel hf') ?_)
      intro st w₂ hend
      refine wp_mono (hended mb st w₂ hend) ?_
      rintro r w₃ ⟨state, n, rfl, hpost, hr⟩
      exact ⟨state, n, mb, hpost, hmb, fun _ => hready, hr⟩
    simp only [if_true]
    cases ready with
    | true => simpa using hcancel true (.inr rfl) (fun _ => rfl)
    | false =>
      have hmb : w₁.io.mustBuffer = io.mustBuffer := by rw [t.io hf]
      simpa [hmb] using hcancel w₁.io.mustBuffer (.inl hmb) (by simp)
  · obtain ⟨state, n, rfl⟩ := t.code hend
    have hend' := t.flagsEnd (f := fun io => { io with inprogress := true }) (fun _ _ => rfl) hend
    simp only [reduceCtorEq, if_false]
    refine wp_mono (hended io.mustBuffer _ _ hend') ?_
    rintro r w₂ ⟨state', n', hst, hpost, hr⟩
    cases hst
    refine ⟨state, n, _, hpost, .inl rfl, ?_, hr⟩
    rintro rfl
    exact absurd rfl (hne n)

/-- A zero-length operation is in progress, or has found the stream ready. -/
theorem startZeroLength {start : M Status} (hin : io.inprogress = false)
    (hzero : io.zeroInprogress = false) (hsbr : io.shouldBeReady = false) (hdone : io.done = false)
    (h : Runs start (Started (Fly io) (End io)) w) :
    Runs (Stream.startZeroLength start) (fun started w' =>
      if started then Fly { io with inprogress := true, zeroInprogress := true } w'
      else ∃ state n, IsEvent (.code state n) ∧
        End { io with shouldBeReady := true, done := state = .dropped } (.code state n) w') w := by
  simp only [Stream.startZeroLength, wp_bind]
  refine wp_mono h ?_
  intro st w₁ h₁
  have hio : w₁.io = { io with buf := w₁.io.buf } := by
    rcases h₁ with ⟨-, hf⟩ | ⟨hend, -⟩
    · exact t.io hf
    · exact t.ioEnd hend
  simp only [runs_getIo, runs_assert, runs_modifyIo]
  refine ⟨by rw [hio]; simp [hin], by rw [hio]; simp [hzero], by rw [hio]; simp [hsbr],
    by rw [hio]; simp [hdone], ?_⟩
  rcases h₁ with ⟨rfl, hf⟩ | ⟨hend, hne⟩
  · simp only [if_true, wp_pure]
    exact t.flags (f := fun io => { io with inprogress := true, zeroInprogress := true })
      (fun _ _ => rfl) hf
  · obtain ⟨state, n, rfl⟩ := t.code hend
    have hup := t.flagsEnd (f := fun io => ({ io with
      inprogress := true, zeroInprogress := true } : IoState).updated state) (fun _ _ => rfl) hend
    simp only [reduceCtorEq, if_false, wp_bind]
    refine (runs_ioUpdateCode rfl (by rw [hio]; simp [hsbr])).mpr ?_
    simp only [wp_pure, Bool.false_eq_true, if_false]
    refine ⟨state, n, hne, ?_⟩
    simpa [IoState.updated, hin, hzero, hdone] using hup

/-- The rest of a poll, while an operation is in progress. -/
theorem pollInprogress {events : PollEvents} {Q : World → Prop} (hb : io.blocked = false)
    (h : Fly io w) (hfly : ∀ w', Fly io w' → Q w')
    (hend : ∀ st w', End io st w' → IsEvent st → Runs (pollEvent st events) (fun _ => Q) w') :
    Runs (Stream.pollInprogress events) (fun _ => Q) w := by
  simp only [Stream.pollInprogress, wp_bind]
  refine wp_mono (t.alloc h) ?_
  intro ok w₁ h₁
  cases ok with
  | false => exact hfly w₁ h₁
  | true =>
    simp only [if_true, wp_bind, runs_enter]
    refine ⟨by rw [t.io h₁, hb], wp_mono (t.poll (t.blocked h₁ true)) ?_⟩
    intro r w₂ hfound
    obtain ⟨hb₂, hfound₂⟩ := t.unblocked hb hfound
    simp only [pollReady, wp_bind, runs_exit]
    refine ⟨hb₂, ?_⟩
    cases r with
    | none => exact hfly _ hfound₂
    | some st => exact hend st _ hfound₂.1 hfound₂.2

end

end Transfer

/-- What the loop of a nonblocking call needs: from a stream that is `Fresh`,
an attempt is `Done` with some bytes or leaves it fresh, and a zero-length
operation is in progress (`Probing`) or leaves it fresh and ready. -/
structure Attempts (start zeroLength : M Status) (Fresh : World → Prop)
    (Done : Nat → World → Prop) (Probing : World → Prop) : Prop where
  clear : ∀ {w}, Fresh w → Fresh { w with io := { w.io with shouldBeReady := false } }
  attempt : ∀ {w}, Fresh w → w.io.shouldBeReady = false → ∀ ready,
    Runs (attempt start ready) (fun r w' =>
      match r with
      | some n => Done n w'
      | none => Fresh w' ∧ w'.io.shouldBeReady = false ∧ (ready = true → w'.io.mustBuffer = true)) w
  probe : ∀ {w}, Fresh w → w.io.shouldBeReady = false → w.io.mustBuffer = false →
    Runs (startZeroLength zeroLength) (fun started w' =>
      if started then Probing w'
      else if w'.io.done then Done 0 w' else Fresh w' ∧ w'.io.shouldBeReady = true) w

/-- The loop of a nonblocking call.  The second turn finds the stream ready or
makes it buffer, so that two turns are enough. -/
theorem Attempts.loop {start zeroLength : M Status} {Fresh : World → Prop}
    {Done : Nat → World → Prop} {Probing : World → Prop} {w : World}
    (a : Attempts start zeroLength Fresh Done Probing) (turns : Nat) (h : Fresh w)
    (hturns : 2 ≤ turns ∨ 1 ≤ turns ∧ (w.io.shouldBeReady = true ∨ w.io.mustBuffer = true)) :
    Runs (nonblockingLoop start zeroLength turns) (fun r w' =>
      match r with
      | some (.ok n) => Done n w'
      | some (.error _) => Probing w'
      | none => Fresh w' ∧ w'.io.shouldBeReady = false ∧ w'.io.mustBuffer = true) w := by
  induction turns generalizing w with
  | zero => omega
  | succ turns ih =>
    simp only [nonblockingLoop, wp_bind, runs_getIo, runs_modifyIo]
    by_cases hmb : w.io.mustBuffer = true
    · rw [if_pos hmb]
      simp only [wp_pure, wp_bind, runs_getIo]
      rw [if_pos hmb]
      exact ⟨a.clear h, rfl, hmb⟩
    · rw [if_neg hmb]
      refine wp_bind.mpr (wp_mono (a.attempt (a.clear h) rfl w.io.shouldBeReady) ?_)
      intro tried w₁ htried
      cases tried with
      | some n => exact htried
      | none =>
        obtain ⟨hfresh, hsbr, hready⟩ := htried
        simp only [wp_bind, runs_getIo, wp_ite]
        split
        case isTrue hbuf => exact ⟨hfresh, hsbr, hbuf⟩
        case isFalse hbuf =>
          refine wp_mono (a.probe hfresh hsbr (by simpa using hbuf)) ?_
          intro started w₂ h₂
          cases started with
          | true => exact h₂
          | false =>
            simp only [Bool.false_eq_true, if_false] at h₂ ⊢
            split
            case isTrue hd =>
              rw [if_pos hd] at h₂
              exact h₂
            case isFalse hd =>
              rw [if_neg hd] at h₂
              have hfirst : 2 ≤ turns + 1 := by
                refine hturns.resolve_right fun hone => ?_
                rcases hone.2 with hc | hc
                · exact hbuf (hready hc)
                · exact hmb hc
              exact runs_assert.mpr ⟨h₂.2, ih h₂.1 (.inr ⟨by omega, .inl h₂.2⟩)⟩

end WasiLibc.Stream
