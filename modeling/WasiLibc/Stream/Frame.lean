import WasiLibc.Stream.Io

/-!
# WasiLibc.Stream.Frame

What the programs on a stream do not change, and what they ask of the host.

The flag `WASIP3_IO_BLOCKED` and the handle of the stream belong to the code
that shares the stream between threads: a program that reads, writes or polls
without waiting leaves them alone.  The operations of a nonblocking call are
counted with `Asks`: the attempts with the caller's buffer and the zero-length
probes between them in the loop, and the operations with the internal buffer,
which are the call's own and those that send the rest of an earlier write.
-/

namespace WasiLibc.Stream

open Wp

variable {α β γ : Type} {f : World → γ} {p : M α} {q : α → M β}

/-- The program does not change what `f` sees. -/
def Keeps (f : World → γ) (p : M α) : Prop :=
  ∀ w, wp (fun _ => True) p (fun _ w' => f w' = f w) w

/-! ## Rules -/

theorem keeps_pure (a : α) : Keeps f (pure a : M α) := fun _ => rfl

theorem keeps_throw (e : Fault) : Keeps f (throw e : M α) := fun _ => trivial

theorem Keeps.bind (hp : Keeps f p) (hq : ∀ a, Keeps f (q a)) : Keeps f (p >>= q) := by
  intro w
  refine wp_bind.mpr (wp_mono (hp w) ?_)
  intro a w₁ h₁
  refine wp_mono (hq a w₁) ?_
  intro b w₂ h₂
  exact h₂.trans h₁

theorem Keeps.map {g : α → β} (hp : Keeps f p) : Keeps f (g <$> p) :=
  fun w => wp_map.mpr (hp w)

theorem keeps_getIo : Keeps f getIo := fun _ => rfl

theorem keeps_get : Keeps f (get : M World) := fun _ => rfl

variable {g : IoState → IoState} {k : PUnit → M α} {c : Prop} {n : Nat} {l : List Act}

theorem keeps_modifyIo (h : ∀ w : World, f { w with io := g w.io } = f w) :
    Keeps f (modifyIo g) := fun w => h w

theorem keeps_modifyIo_bind
    (h : ∀ w : World, f { w with io := g w.io } = f w) (hk : ∀ a, Keeps f (k a)) :
    Keeps f (modifyIo g >>= k) := (keeps_modifyIo h).bind hk

theorem keeps_require [Decidable c] {e : Fault} : Keeps f (require c e) := by
  intro w
  simp

theorem keeps_assert [Decidable c] : Keeps f (assert c) := keeps_require

theorem Keeps.ite [Decidable c] {p' : M α} (hp : Keeps f p) (hp' : Keeps f p') :
    Keeps f (if c then p else p') := by
  split
  case isTrue => exact hp
  case isFalse => exact hp'

/-- An `if` without an `else`, and what follows it. -/
theorem Keeps.join [Decidable c] {p : M PUnit} (hp : Keeps f p)
    (hk : ∀ a, Keeps f (k a)) : Keeps f (if c then p >>= k else k ⟨⟩) :=
  (hp.bind hk).ite (hk _)

theorem Keeps.mono {g : γ → β} (hp : Keeps f p) : Keeps (fun w => g (f w)) p :=
  fun w => wp_mono (hp w) fun _ _ h => congrArg g h

/-! ## The host -/

/-- What a record looks like without its buffer and the flags that readiness
is about: who uses the stream, and whether an operation is in progress. -/
structure Usage where
  stream : Nat
  blocked : Bool
  inprogress : Bool

def usage (w : World) : Usage := ⟨w.io.stream, w.io.blocked, w.io.inprogress⟩

/-- The host does not change what `f` sees. -/
structure Outside (f : World → γ) : Prop where
  receive : ∀ w internal bytes, f (World.receive w internal bytes) = f w
  host : ∀ (w : World) host, f { w with host := host } = f w
  script : ∀ (w : World) script, f { w with script := script } = f w

theorem outside_usage : Outside usage where
  receive w internal bytes := by cases internal <;> rfl
  host _ _ := rfl
  script _ _ := rfl

section

variable (hf : Outside f)

include hf

theorem keeps_modifyHost {g : Host → Host} : Keeps f (modifyHost g) := fun w => hf.host w _

theorem Outside.peer {w w' : World} {c : Choice} (h : w.peer c = some w') : f w' = f w := by
  cases c with
  | progress k =>
    simp only [World.peer, World.progress] at h
    split at h
    case h_1 =>
      split at h <;> cases h
      exact hf.host w _
    case h_2 =>
      split at h
      case isTrue =>
        cases h
        exact (hf.host _ _).trans (hf.receive w _ _)
      case isFalse => cases h
    case h_3 => cases h
  | put bytes =>
    simp only [World.peer] at h
    split at h <;> cases h
    exact hf.host w _
  | drop =>
    simp only [World.peer] at h
    split at h <;> cases h
    exact hf.host w _
  | _ => cases h

theorem keeps_next : Keeps f next := by
  intro w
  show wp _ (fun w => settle w.script w) _ _
  unfold wp
  simp only
  generalize w.script = cs
  induction cs generalizing w with
  | nil => trivial
  | cons c cs ih =>
    by_cases hc : c.isPeer = true
    · cases hp : w.peer c with
      | none => simp [settle, hc, hp]
      | some w' => simpa [settle, hc, hp, hf.peer hp] using ih w'
    · simpa [settle, hc] using hf.script w cs

theorem keeps_alloc : Keeps f alloc := by
  refine (keeps_next hf).bind fun c => ?_
  cases c <;> first | exact keeps_pure _ | exact keeps_throw _

theorem keeps_finish (state : WaitState) : Keeps f (finish state) := by
  refine (keeps_get).bind fun w => ?_
  cases w.host.flight with
  | none => exact keeps_throw _
  | some _ =>
    exact (keeps_get).bind fun _ => (keeps_require).bind fun _ =>
      (keeps_modifyHost hf).bind fun _ => keeps_pure _

theorem keeps_streamCancel : Keeps f streamCancel := by
  refine (keeps_next hf).bind fun c => ?_
  cases c <;> first | exact keeps_finish hf _ | exact keeps_throw _

theorem keeps_pollWaitable : Keeps f pollWaitable := by
  refine (keeps_next hf).bind fun c => ?_
  cases c <;> first | exact (keeps_finish hf _).map | exact keeps_pure _ | exact keeps_throw _

end

theorem keeps_waitableBlockOn (timeout : Nat) : Keeps usage (waitableBlockOn timeout) := by
  refine Keeps.bind (fun _ => rfl) fun _ => Keeps.ite ((keeps_next outside_usage).bind fun c => ?_)
    ((keeps_next outside_usage).bind fun c => ?_)
  · cases c <;> first | exact (keeps_finish outside_usage _).map | exact keeps_throw _
  · cases c with
    | elapsed _ =>
      refine (keeps_next outside_usage).bind fun c => ?_
      cases c <;>
        first | exact (keeps_finish outside_usage _).map | exact keeps_pure _ | exact keeps_throw _
    | _ => exact keeps_throw _

/-- An operation is asked for once. -/
theorem sees_streamWrite (hf : Outside f) (internal : Bool) (bytes : List UInt8) (w : World) :
    wp (fun _ => True) (streamWrite internal bytes)
      (fun _ w' => f w' = f { w with acts := w.acts ++ [.of internal bytes.length] }) w := by
  refine wp_bind.mpr (?_ : wp _ _ _ { w with acts := w.acts ++ [Act.of internal bytes.length] })
  generalize { w with acts := w.acts ++ [Act.of internal bytes.length] } = w
  revert w
  refine (keeps_get).bind fun _ => (keeps_require).bind fun _ => (keeps_next hf).bind fun c => ?_
  cases c with
  | blocked => exact (keeps_modifyHost hf).bind fun _ => keeps_pure _
  | ready k dropped =>
    exact (keeps_get).bind fun _ => (keeps_require).bind fun _ =>
      (keeps_modifyHost hf).bind fun _ => keeps_pure _
  | _ => exact keeps_throw _

theorem sees_streamRead (hf : Outside f) (internal : Bool) (len : Nat) (w : World) :
    wp (fun _ => True) (streamRead internal len)
      (fun _ w' => f w' = f { w with acts := w.acts ++ [.of internal len] }) w := by
  refine wp_bind.mpr (?_ : wp _ _ _ { w with acts := w.acts ++ [Act.of internal len] })
  generalize { w with acts := w.acts ++ [Act.of internal len] } = w
  revert w
  refine (keeps_get).bind fun _ => (keeps_require).bind fun _ => (keeps_next hf).bind fun c => ?_
  cases c with
  | blocked => exact (keeps_modifyHost hf).bind fun _ => keeps_pure _
  | ready k dropped =>
    refine (keeps_get).bind fun _ => (keeps_get).bind fun _ => (keeps_get).bind fun _ =>
      (keeps_require).bind fun _ => Keeps.bind ?_ fun _ => keeps_pure _
    exact fun w => (hf.host _ _).trans (hf.receive w _ _)
  | _ => exact keeps_throw _

theorem keeps_streamWrite (internal : Bool) (bytes : List UInt8) :
    Keeps usage (streamWrite internal bytes) := sees_streamWrite outside_usage internal bytes

theorem keeps_streamRead (internal : Bool) (len : Nat) : Keeps usage (streamRead internal len) :=
  sees_streamRead outside_usage internal len

theorem keeps_streamBlockOnTimeout (status : Status) (timeout : Nat) :
    Keeps usage (streamBlockOnTimeout status timeout) := by
  cases status with
  | code state count => exact keeps_pure _
  | blocked =>
    refine (keeps_waitableBlockOn timeout).bind fun event => ?_
    cases event with
    | some st => cases st <;> first | exact keeps_pure _ | exact keeps_throw _
    | none =>
      refine (keeps_streamCancel outside_usage).bind fun st => ?_
      cases st with
      | blocked => exact keeps_throw _
      | code state count => exact (keeps_pure _).ite (keeps_pure _)

theorem keeps_readCompleteInternally (length : Nat) :
    Keeps usage (readCompleteInternally length) := by
  refine (keeps_getIo).bind fun _ => Keeps.bind (fun _ => rfl) fun _ =>
    keeps_modifyIo_bind (fun _ => rfl) fun _ => (keeps_getIo).bind fun _ =>
      (keeps_getIo).bind fun _ => Keeps.join (keeps_modifyIo fun _ => rfl) fun _ => keeps_pure _

/-! ## Operations in progress -/

/-- What threads share of a record. -/
def shared (w : World) : Nat × Bool := (w.io.stream, w.io.blocked)

theorem Keeps.shared (h : Keeps usage p) : Keeps shared p :=
  h.mono (g := fun u => (u.stream, u.blocked))

/-- The flags do not change what `f` sees. -/
structure Flags (f : World → γ) : Prop where
  done : ∀ (w : World) b, f { w with io := { w.io with done := b } } = f w
  inprogress : ∀ (w : World) b, f { w with io := { w.io with inprogress := b } } = f w
  zero : ∀ (w : World) b, f { w with io := { w.io with zeroInprogress := b } } = f w
  ready : ∀ (w : World) b, f { w with io := { w.io with shouldBeReady := b } } = f w

theorem flags_shared : Flags shared :=
  ⟨fun _ _ => rfl, fun _ _ => rfl, fun _ _ => rfl, fun _ _ => rfl⟩

theorem keeps_ioUpdateCode (hf : Flags f) (status : Status) : Keeps f (ioUpdateCode status) := by
  cases status with
  | blocked => exact keeps_throw _
  | code state count =>
    unfold ioUpdateCode
    refine Keeps.join (keeps_modifyIo fun w => hf.done w _) fun _ => ?_
    refine (keeps_getIo).bind fun _ => (keeps_assert).bind fun _ =>
      keeps_modifyIo_bind (fun w => hf.inprogress w _) fun _ => (keeps_getIo).bind fun _ => ?_
    refine Keeps.ite ?_ (keeps_pure _)
    exact keeps_modifyIo_bind (fun w => hf.zero w _) fun _ => (keeps_getIo).bind fun _ =>
      (keeps_assert).bind fun _ => keeps_modifyIo_bind (fun w => hf.ready w _) fun _ => keeps_pure _

theorem keeps_ioSync : Keeps f (ioSync false) :=
  (keeps_getIo).bind fun _ => (keeps_pure _).ite (keeps_pure _)

theorem keeps_awaitPending (hf : Outside f) (timeout : Nat) :
    Keeps f (awaitPending false timeout) := by
  refine (keeps_pollWaitable hf).bind fun event => ?_
  cases event <;> exact keeps_pure _

theorem keeps_attemptEnd (hf : Flags f) (status : Status) : Keeps f (attemptEnd status) :=
  (keeps_ioUpdateCode hf status).bind fun _ => (keeps_pure _).ite
    ((keeps_getIo).bind fun _ => (keeps_pure _).ite (keeps_pure _))

/-! ## Nonblocking operations -/

variable {w : World} {P : α → List Act → Prop}

/-- The operations that `p` asks for from `w` satisfy `P`, together with its
result, and `p` leaves alone what threads share. -/
def Asks (w : World) (P : α → List Act → Prop) (p : M α) : Prop :=
  wp (fun _ => True) p (fun a w' => shared w' = shared w ∧ ∃ l, w'.acts = w.acts ++ l ∧ P a l) w

theorem keeps_of_asks {P : World → α → List Act → Prop} (h : ∀ w, Asks w (P w) p) :
    Keeps shared p := fun w => wp_mono (h w) fun _ _ h => h.1

theorem asks_pure {a : α} (h : P a []) : Asks w P (pure a) :=
  ⟨rfl, [], by simp, h⟩

theorem asks_throw {e : Fault} : Asks w P (throw e) := trivial

theorem asks_getIo {q : IoState → M α} (h : Asks w P (q w.io)) : Asks w P (getIo >>= q) :=
  wp_bind.mpr h

theorem Asks.mono {Q : α → List Act → Prop} (h : Asks w P p) (hQ : ∀ a l, P a l → Q a l) :
    Asks w Q p :=
  wp_mono h fun a _ ⟨hs, l, hl, hp⟩ => ⟨hs, l, hl, hQ a l hp⟩

theorem Asks.bind {R : β → List Act → Prop} (hp : Asks w P p)
    (hq : ∀ w' a l, P a l → Asks w' (fun b m => R b (l ++ m)) (q a)) : Asks w R (p >>= q) := by
  refine wp_bind.mpr (wp_mono hp ?_)
  rintro a w₁ ⟨hs, l, hl, ha⟩
  refine wp_mono (hq w₁ a l ha) ?_
  rintro b w₂ ⟨hs', m, hm, hb⟩
  exact ⟨hs'.trans hs, l ++ m, by rw [hm, hl, List.append_assoc], hb⟩

theorem Asks.ite [Decidable c] {p' : M α} (hp : c → Asks w P p)
    (hp' : ¬ c → Asks w P p') : Asks w P (if c then p else p') := by
  split
  case isTrue h => exact hp h
  case isFalse h => exact hp' h

/-- How much of the internal buffer is left, what was asked so far, and what
threads share. -/
def view (w : World) : Nat × List Act × Nat × Bool :=
  (w.io.bufEnd - w.io.bufStart, w.acts, shared w)

theorem outside_view : Outside view where
  receive w internal bytes := by cases internal <;> rfl
  host _ _ := rfl
  script _ _ := rfl

theorem acts_of_view {w w' : World} (h : view w' = view w) : w'.acts = w.acts :=
  congrArg (fun v => v.2.1) h

theorem shared_of_view {w w' : World} (h : view w' = view w) : shared w' = shared w :=
  congrArg (fun v => v.2.2) h

theorem flags_view : Flags view := ⟨fun _ _ => rfl, fun _ _ => rfl, fun _ _ => rfl, fun _ _ => rfl⟩

/-- A program that asks for nothing comes first. -/
theorem Keeps.asks {R : β → List Act → Prop} (hp : Keeps view p)
    (hq : ∀ w' a, view w' = view w → Asks w' R (q a)) : Asks w R (p >>= q) := by
  refine wp_bind.mpr (wp_mono (hp w) ?_)
  intro a w₁ h₁
  refine wp_mono (hq w₁ a h₁) ?_
  rintro b w₂ ⟨hs, l, hl, hb⟩
  exact ⟨hs.trans (shared_of_view h₁), l, by rw [hl, acts_of_view h₁], hb⟩

theorem asks_modifyIo
    (h : Asks { w with io := g w.io } P (k ⟨⟩))
    (hs : shared { w with io := g w.io } = shared w := by rfl) : Asks w P (modifyIo g >>= k) := by
  refine wp_bind.mpr (?_ : wp _ _ _ { w with io := g w.io })
  exact wp_mono h fun _ _ h' => ⟨h'.1.trans hs, h'.2⟩

theorem asks_streamWrite (internal : Bool) (bytes : List UInt8) :
    Asks w (fun _ l => l = [.of internal bytes.length]) (streamWrite internal bytes) :=
  wp_mono (sees_streamWrite outside_view internal bytes w) fun _ _ h =>
    have hs := shared_of_view h
    ⟨hs, _, acts_of_view h, rfl⟩

theorem asks_streamRead (internal : Bool) (len : Nat) :
    Asks w (fun _ l => l = [.of internal len]) (streamRead internal len) :=
  wp_mono (sees_streamRead outside_view internal len w) fun _ _ h =>
    have hs := shared_of_view h
    ⟨hs, _, acts_of_view h, rfl⟩

/-! ## The loop -/

/-- At most `n` attempts, each with at most one probe after it. -/
structure Tries (n : Nat) (l : List Act) : Prop where
  direct : l.count .direct ≤ n
  zero : l.count .zero ≤ l.count .direct
  internal : l.count .internal = 0
  wait : .wait ∉ l

section

variable {start zeroLength : M Status} {a : Act}

theorem asks_attempt (h : ∀ w, Asks w (fun _ l => l = [a]) start) (ready : Bool) :
    Asks w (fun _ l => l = [a]) (attempt start ready) := by
  refine (h w).bind fun w₁ status l hl => ?_
  have hend : ∀ w status, Asks w (fun _ m => l ++ m = [a]) (attemptEnd status) := by
    intro w status
    refine wp_mono (keeps_attemptEnd flags_view status w) fun _ _ h => ?_
    exact ⟨shared_of_view h, [], by rw [acts_of_view h, List.append_nil], by simp [hl]⟩
  have hcancel : ∀ w, Asks w (fun _ m => l ++ m = [a]) (do attemptEnd (← streamCancel)) :=
    fun w => (keeps_streamCancel outside_view).asks fun w' status _ => hend w' status
  refine asks_modifyIo (Asks.ite (fun _ => Asks.ite (fun _ => ?_) fun _ => ?_) fun _ => hend _ status)
  · exact asks_modifyIo (hcancel _)
  · exact hcancel _

theorem asks_startZeroLength (h : ∀ w, Asks w (fun _ l => l = [a]) start) :
    Asks w (fun _ l => l = [a]) (startZeroLength start) := by
  refine (h w).bind fun w₁ status l hl => asks_getIo ?_
  refine (keeps_assert).asks fun _ _ _ => (keeps_assert).asks fun _ _ _ =>
    (keeps_assert).asks fun _ _ _ => (keeps_assert).asks fun _ _ _ => asks_modifyIo ?_
  refine Asks.ite (fun _ => asks_pure (by simp [hl])) fun _ => ?_
  exact (keeps_ioUpdateCode flags_view status).asks fun _ _ _ => asks_pure (by simp [hl])

theorem asks_nonblockingLoop (h : ∀ w, Asks w (fun _ l => l = [.direct]) start)
    (hzero : ∀ w, Asks w (fun _ l => l = [.zero]) zeroLength) (turns : Nat) :
    Asks w (fun _ l => Tries turns l) (nonblockingLoop start zeroLength turns) := by
  induction turns generalizing w with
  | zero => exact asks_throw
  | succ turns ih =>
    refine asks_getIo (asks_modifyIo (asks_getIo (Asks.ite (fun hmb => ?_) fun hmb => ?_)))
    · -- with `MUST_BUFFER` nothing is tried
      show Asks _ _ (getIo >>= fun io => if io.mustBuffer then _ else _)
      exact asks_getIo (Asks.ite (fun _ => asks_pure ⟨by simp, by simp, by simp, by simp⟩)
        fun hneg => absurd hmb hneg)
    · refine (asks_attempt h _).bind fun w₁ tried l hl => ?_
      subst hl
      cases tried with
      | some amount => exact asks_pure ⟨by simp, by simp, by simp, by simp⟩
      | none =>
        refine asks_getIo (Asks.ite (fun _ => asks_pure ⟨by simp, by simp, by simp, by simp⟩)
          fun _ => ?_)
        refine (asks_startZeroLength hzero).bind fun w₂ started l hl => ?_
        subst hl
        refine Asks.ite (fun _ => asks_pure ⟨by simp, by simp, by simp, by simp⟩) fun _ => ?_
        refine asks_getIo (Asks.ite (fun _ => asks_pure ⟨by simp, by simp, by simp, by simp⟩)
          fun _ => ?_)
        refine asks_getIo ((keeps_assert).asks fun w₃ _ _ => ih.mono fun _ m hm => ?_)
        have hd := hm.direct
        have hz := hm.zero
        exact ⟨by simp; omega, by simp; omega, by simpa using hm.internal, by simpa using hm.wait⟩

end

/-! ## The internal buffer -/

/-- What a nonblocking call may ask for: two attempts with the caller's buffer,
a probe for each, one operation with the internal buffer for its own bytes and
`n` for those of an earlier one, and no wait. -/
structure Bounded (n : Nat) (l : List Act) : Prop where
  direct : l.count .direct ≤ 2
  zero : l.count .zero ≤ l.count .direct
  internal : l.count .internal ≤ n + 1
  wait : .wait ∉ l

theorem bounded_nil : Bounded n [] := ⟨by simp, by simp, by simp, by simp⟩

theorem Tries.bounded {m : List Act} (h : Tries 2 l) (hm : m = [] ∨ m = [.internal]) :
    Bounded 0 (l ++ m) := by
  have hd := h.direct
  have hz := h.zero
  have hi := h.internal
  rcases hm with rfl | rfl
  · exact ⟨by simpa, by simpa, by simp [hi], by simpa using h.wait⟩
  · exact ⟨by simpa, by simpa, by simp [hi], by simpa using h.wait⟩

theorem asks_writeBuffered (buffer : List UInt8) :
    Asks w (fun _ l => l = [] ∨ l = [.internal]) (writeBuffered buffer) := by
  refine asks_getIo ?_
  refine (keeps_assert).asks fun _ _ _ => (keeps_assert).asks fun _ _ _ =>
    (keeps_assert).asks fun _ _ _ => (keeps_assert).asks fun _ _ _ =>
      (keeps_assert).asks fun _ _ _ => (keeps_assert).asks fun _ _ _ => ?_
  refine (keeps_alloc outside_view).asks fun w₁ ok _ => Asks.ite (fun _ => asks_modifyIo ?_)
    fun _ => asks_pure (.inl rfl)
  refine (asks_streamWrite true buffer).bind fun w₂ status l hl => ?_
  subst hl
  refine asks_modifyIo (Asks.ite (fun _ => asks_pure (.inr rfl)) fun _ => asks_modifyIo ?_)
  exact (keeps_ioUpdateCode flags_view status).asks fun _ _ _ => asks_pure (.inr rfl)

theorem asks_readStartNonzero (length : Nat) :
    Asks w (fun _ l => l = [] ∨ l = [.internal]) (readStartNonzero length) := by
  refine asks_getIo ?_
  refine (keeps_assert).asks fun _ _ _ => (keeps_assert).asks fun _ _ _ =>
    (keeps_assert).asks fun _ _ _ => (keeps_assert).asks fun _ _ _ =>
      (keeps_assert).asks fun _ _ _ => (keeps_assert).asks fun _ _ _ =>
        (keeps_assert).asks fun _ _ _ => ?_
  refine (keeps_alloc outside_view).asks fun w₁ ok _ => Asks.ite (fun _ => asks_modifyIo ?_)
    fun _ => asks_pure (.inl rfl)
  refine (asks_streamRead true length).bind fun w₂ status l hl => ?_
  subst hl
  refine asks_modifyIo (Asks.ite (fun _ => asks_pure (.inr rfl)) fun _ => ?_)
  exact (keeps_ioUpdateCode flags_view status).asks fun _ _ _ => asks_modifyIo (asks_pure (.inr rfl))

theorem asks_readCompleteInternally (length : Nat) :
    Asks w (fun _ l => l = []) (readCompleteInternally length) := by
  refine asks_getIo (wp_bind.mpr (asks_modifyIo (asks_getIo (asks_getIo ?_))))
  exact Asks.ite (fun _ => asks_modifyIo (asks_pure rfl)) fun _ => asks_pure rfl

theorem asks_writeNonblocking {buffer : List UInt8} (hne : buffer ≠ []) :
    Asks w (fun _ l => Bounded 0 l) (writeNonblocking buffer) := by
  have hdirect : Act.of false buffer.length = .direct := by simp [Act.of, hne]
  refine (asks_nonblockingLoop (fun _ => hdirect ▸ asks_streamWrite false buffer)
    (fun _ => asks_streamWrite false []) 2).bind fun w₁ tried l hl => ?_
  cases tried with
  | some result => exact asks_pure (hl.bounded (.inl rfl))
  | none => exact (asks_writeBuffered buffer).mono fun _ m hm => hl.bounded hm

theorem asks_readNonblocking {length : Nat} (hlen : length ≠ 0) :
    Asks w (fun _ l => Bounded 0 l) (readNonblocking length) := by
  have hdirect : Act.of false length = .direct := by simp [Act.of, hlen]
  refine (asks_nonblockingLoop (fun _ => hdirect ▸ asks_streamRead false length)
    (fun _ => asks_streamRead false 0) 2).bind fun w₁ tried l hl => ?_
  cases tried with
  | some result => exact asks_pure (hl.bounded (.inl rfl))
  | none =>
    refine (asks_readStartNonzero length).bind fun w₂ started m hm => ?_
    cases started with
    | error e => exact asks_pure (by simpa using hl.bounded hm)
    | ok _ =>
      refine (asks_readCompleteInternally length).bind fun w₃ n m' hm' => ?_
      subst hm'
      exact asks_pure (by simpa using hl.bounded hm)

/-! ## The rest of an earlier write -/

/-- Writes from the internal buffer, at most `n` of them. -/
def Resends (n : Nat) (l : List Act) : Prop := ∃ k ≤ n, l = List.replicate k .internal

theorem Resends.bounded {m : List Act} (hl : Resends n l) (hm : Bounded 0 m) :
    Bounded n (l ++ m) := by
  obtain ⟨k, hk, rfl⟩ := hl
  have hi := hm.internal
  refine ⟨?_, ?_, ?_, ?_⟩
  · simpa [List.count_replicate] using hm.direct
  · simpa [List.count_replicate] using hm.zero
  · simp
    omega
  · simpa [List.mem_replicate] using hm.wait

/-- The turn that finds nothing left to send asks for nothing. -/
theorem asks_advanceLoop (turns : Nat) :
    Asks w (fun ready l => Resends (if ready then turns - 1 else turns) l) (advanceLoop turns) := by
  induction turns generalizing w with
  | zero => exact asks_throw
  | succ turns ih =>
    refine asks_getIo (Asks.ite (fun _ => ?_) fun _ => ?_)
    · refine (asks_streamWrite true _).bind fun w₁ status l hl => ?_
      subst hl
      refine asks_modifyIo (Asks.ite (fun _ => asks_pure ⟨1, by simp, rfl⟩) fun _ => ?_)
      refine (keeps_ioUpdateCode flags_view status).asks fun w₂ n _ => asks_modifyIo ?_
      cases turns with
      | zero => exact asks_throw
      | succ turns =>
        refine ih.mono fun ready m ⟨k, hk, hm⟩ => ⟨k + 1, ?_, ?_⟩
        · cases ready <;> simp at hk ⊢ <;> omega
        · rw [hm, List.replicate_succ]
          rfl
    · exact (keeps_assert).asks fun _ _ _ => asks_modifyIo (asks_pure ⟨0, by simp, rfl⟩)

theorem asks_advancePendingWrite (event : Status) :
    Asks w (fun ready l => Resends (if ready then (view w).1 else (view w).1 + 1) l)
      (advancePendingWrite event) := by
  refine (keeps_ioUpdateCode flags_view event).asks fun w₁ n h₁ => asks_modifyIo (asks_getIo ?_)
  refine (asks_advanceLoop _).mono fun ready l ⟨k, hk, hl⟩ => ⟨k, Nat.le_trans hk ?_, hl⟩
  have hview := congrArg Prod.fst h₁
  simp only [view] at hview ⊢
  cases ready <;> simp <;> omega

theorem asks_writeResolvePending (timeout : Nat) :
    Asks w (fun r l => match r with
      | .ok _ => Resends (view w).1 l
      | .error _ => Resends ((view w).1 + 1) l) (writeResolvePending false timeout) := by
  refine asks_getIo ((keeps_assert).asks fun w₁ _ h₁ => ?_)
  refine Asks.ite (fun _ => asks_pure ⟨0, by simp, rfl⟩) fun _ => ?_
  refine (keeps_assert).asks fun w₂ _ h₂ => ?_
  refine (keeps_awaitPending outside_view timeout).asks fun w₃ event h₃ => ?_
  cases event with
  | error e => exact asks_pure ⟨0, by simp, rfl⟩
  | ok event =>
    refine (asks_advancePendingWrite event).bind fun w₄ ready l hl => ?_
    rw [h₃, h₂, h₁] at hl
    cases ready with
    | true => exact asks_pure (by simpa using hl)
    | false =>
      refine asks_getIo ((keeps_assert).asks fun _ _ _ => asks_pure ?_)
      simpa using hl

theorem asks_readResolvePending (timeout : Nat) :
    Asks w (fun _ l => l = []) (readResolvePending false timeout) := by
  refine asks_getIo (Asks.ite (fun _ => ?_) fun _ => asks_pure rfl)
  refine (keeps_awaitPending outside_view timeout).asks fun w₁ event _ => ?_
  cases event with
  | error e => exact asks_pure rfl
  | ok event =>
    exact (keeps_ioUpdateCode flags_view event).asks fun _ _ _ => asks_modifyIo (asks_pure rfl)

/-! ## Whole calls -/

theorem Resends.alone (hl : Resends (n + 1) l) : Bounded n l := by
  obtain ⟨k, hk, rfl⟩ := hl
  refine ⟨?_, ?_, ?_, ?_⟩
  · simp [List.count_replicate]
  · simp [List.count_replicate]
  · simpa using hk
  · simp [List.mem_replicate]

theorem asks_writeSynced (timeout : Nat) (buffer : List UInt8) :
    Asks w (fun _ l => Bounded (view w).1 l) (writeSynced false timeout buffer) := by
  refine asks_getIo (Asks.ite (fun _ => asks_pure bounded_nil) fun _ => ?_)
  refine (asks_writeResolvePending timeout).bind fun w₁ r l hl => ?_
  cases r with
  | error e => exact asks_pure (by simpa using hl.alone)
  | ok _ =>
    have hnil : Bounded (view w).1 (l ++ []) := hl.bounded bounded_nil
    refine asks_getIo ((keeps_assert).asks fun w₂ _ _ => asks_getIo ?_)
    refine (keeps_assert).asks fun w₃ _ _ => Asks.ite (fun _ => asks_pure hnil) fun hne => ?_
    refine asks_getIo (Asks.ite (fun _ => asks_pure hnil) fun _ => ?_)
    exact (asks_writeNonblocking hne).mono fun _ m hm => hl.bounded hm

theorem asks_readSynced (timeout length : Nat) :
    Asks w (fun _ l => Bounded 0 l) (readSynced false timeout length) := by
  refine asks_getIo (Asks.ite (fun _ => asks_pure bounded_nil) fun _ => ?_)
  refine (asks_readResolvePending timeout).bind fun w₁ r l hl => ?_
  subst hl
  cases r with
  | error e => exact asks_pure bounded_nil
  | ok _ =>
    refine asks_getIo ((keeps_assert).asks fun w₂ _ _ => asks_getIo (Asks.ite (fun _ => ?_) fun _ => ?_))
    · refine (asks_readCompleteInternally length).bind fun _ _ l hl => ?_
      subst hl
      exact asks_pure bounded_nil
    · refine Asks.ite (fun _ => asks_pure bounded_nil) fun hlen => ?_
      exact asks_getIo (Asks.ite (fun _ => asks_pure bounded_nil) fun _ => asks_readNonblocking hlen)

theorem keeps_advancePendingWrite (event : Status) : Keeps shared (advancePendingWrite event) :=
  keeps_of_asks fun _ => asks_advancePendingWrite event

theorem keeps_writeSynced (timeout : Nat) (buffer : List UInt8) :
    Keeps shared (writeSynced false timeout buffer) :=
  keeps_of_asks fun _ => asks_writeSynced timeout buffer

theorem keeps_readSynced (timeout length : Nat) :
    Keeps shared (readSynced false timeout length) :=
  keeps_of_asks fun _ => asks_readSynced timeout length

theorem keeps_streamPollInit (events : PollEvents) : Keeps shared (streamPollInit events) := by
  refine (keeps_getIo).bind fun io => ?_
  refine (keeps_pure _).ite ((keeps_pure _).ite ((keeps_pure _).ite ((keeps_pure _).ite (Keeps.ite ?_
    ((keeps_pure _).ite ?_)))))
  · cases events with
    | wrnorm => exact keeps_pure _
    | rdnorm =>
      refine (keeps_of_asks fun _ => asks_readStartNonzero _).bind fun started => ?_
      cases started with
      | ok _ => exact keeps_pure _
      | error e => cases e <;> exact keeps_pure _
  · cases events with
    | wrnorm =>
      exact (keeps_of_asks fun _ => asks_startZeroLength fun _ => asks_streamWrite false []).bind
        fun _ => keeps_pure _
    | rdnorm =>
      exact (keeps_of_asks fun _ => asks_startZeroLength fun _ => asks_streamRead false 0).bind
        fun _ => keeps_pure _

end WasiLibc.Stream
