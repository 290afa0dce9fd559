import WasiLibc.Stream.Rules

/-!
# WasiLibc.Stream.Input.Host

What the operations on an input stream do on the host's side.

The bytes that have left the stream are a beginning of its source.  `Taken`
names them when no read is in flight; `Arriving` describes a read that is,
whose bytes go to the internal buffer or to that of the caller while libc
waits, and `Arrived` one that has ended.
-/

namespace WasiLibc.Stream

open Wp

/-- The bytes that have been transferred so far. -/
structure Taken (took : List UInt8) (h : Host) : Prop where
  took : h.source.take h.moved = took
  moved_le : h.moved ≤ h.source.length
  ended : h.ended = true → h.dropped = true

/-- The bytes of a read are in its buffer: after what was in the caller's,
`user`, or in the internal one. -/
def Holds (internal : Bool) (user : List UInt8) (io : IoState) (bytes : List UInt8)
    (w : World) : Prop :=
  if internal then w.io = { io with buf := some bytes } ∧ w.user = user
  else w.io = io ∧ w.user = user ++ bytes

/-- A read of up to `len` bytes is in flight, and some have arrived. -/
def Arriving (internal : Bool) (user took : List UInt8) (len : Nat) (io : IoState)
    (w : World) : Prop :=
  ∃ bytes, w.host.flight = some (.read internal len bytes.length) ∧ bytes.length ≤ len ∧
    Holds internal user io bytes w ∧ Taken (took ++ bytes) w.host ∧ w.host.ended = false

/-- A read of up to `len` bytes has ended with the status `st`. -/
def Arrived (internal : Bool) (user took : List UInt8) (len : Nat) (io : IoState) (st : Status)
    (w : World) : Prop :=
  ∃ state bytes, st = .code state bytes.length ∧ bytes.length ≤ len ∧ w.host.flight = none ∧
    Holds internal user io bytes w ∧ Taken (took ++ bytes) w.host ∧
    w.host.ended = decide (state = .dropped) ∧
    (state = .completed → 0 < bytes.length ∨ len = 0)

variable {internal : Bool} {user took : List UInt8} {len : Nat} {io : IoState} {w w' : World}

/-- Moving `k` bytes adds the next `k` bytes of the source. -/
theorem Taken.fetch {h : Host} (ht : Taken took h) {k : Nat}
    (hk : h.moved + k ≤ h.source.length) :
    h.source.take (h.moved + k) = took ++ h.fetch k ∧ (h.fetch k).length = k := by
  constructor
  · rw [List.take_add, ht.took, Host.fetch]
  · simp only [Host.fetch, List.length_take, List.length_drop]
    omega

/-- Bytes received are added to the buffer of the read. -/
theorem Holds.receive {bytes more : List UInt8} (h : Holds internal user io bytes w) :
    Holds internal user io (bytes ++ more) (w.receive internal more) := by
  unfold Holds World.receive at *
  cases internal with
  | true =>
    simp only [if_true] at h ⊢
    simp [h.1, h.2]
  | false =>
    simp only [Bool.false_eq_true, if_false] at h ⊢
    simp [h.1, h.2]

/-- The host's side does not matter to the buffers. -/
theorem Holds.host {bytes : List UInt8} (h : Holds internal user io bytes w) (host : Host) :
    Holds internal user io bytes { w with host := host } := h

/-- What the writer puts into the stream, or that it goes, changes nothing of
what was taken. -/
theorem Taken.peer (ht : Taken took w.host) {c : Choice} (hp : w.peer c = some w')
    (hc : ∀ k, c ≠ .progress k) :
    w'.io = w.io ∧ w'.user = w.user ∧ w'.host.flight = w.host.flight ∧
      w'.host.ended = w.host.ended ∧ Taken took w'.host := by
  cases c with
  | progress k => exact absurd rfl (hc k)
  | put bytes =>
    simp only [World.peer] at hp
    split at hp
    case isTrue => cases hp
    case isFalse =>
      cases hp
      refine ⟨rfl, rfl, rfl, rfl, ?_, ?_, ht.ended⟩
      · rw [← ht.took]
        exact List.take_append_of_le_length ht.moved_le
      · have := ht.moved_le
        simp only [List.length_append]
        omega
  | drop =>
    simp only [World.peer] at hp
    split at hp
    case isTrue =>
      cases hp
      exact ⟨rfl, rfl, rfl, rfl, ht.took, ht.moved_le, fun _ => rfl⟩
    case isFalse => cases hp
  | _ => simp [World.peer] at hp

/-- The peer adds to a read in flight. -/
theorem Arriving.peer (h : Arriving internal user took len io w) {c : Choice}
    (hp : w.peer c = some w') : Arriving internal user took len io w' := by
  obtain ⟨bytes, hflight, hlen, hholds, ht, hended⟩ := h
  by_cases hc : ∃ k, c = .progress k
  · obtain ⟨k, rfl⟩ := hc
    simp only [World.peer, World.progress, hflight] at hp
    split at hp
    case isTrue hk =>
      cases hp
      obtain ⟨htake, hfetch⟩ := ht.fetch hk.2.2
      refine ⟨bytes ++ w.host.fetch k, ?_, ?_, ?_, ⟨?_, hk.2.2, ht.ended⟩, hended⟩
      · simp [hfetch]
      · rw [List.length_append, hfetch]
        exact hk.2.1
      · exact (hholds.receive).host _
      · simp only
        rw [htake, List.append_assoc]
    case isFalse => cases hp
  · obtain ⟨hio, huser, hfl, hend, ht'⟩ := ht.peer hp (fun k hk => hc ⟨k, hk⟩)
    refine ⟨bytes, hfl.trans hflight, hlen, ?_, ht', hend.trans hended⟩
    unfold Holds at *
    rw [hio, huser]
    exact hholds

/-- No read is in flight. -/
def Still (user took : List UInt8) (io : IoState) (ended : Bool) (w : World) : Prop :=
  w.io = io ∧ w.user = user ∧ w.host.flight = none ∧ Taken took w.host ∧ w.host.ended = ended

theorem runs_next_still {ended : Bool} (h : Still user took io ended w) :
    Runs next (fun _ w' => Still user took io ended w') w := by
  refine runs_next (P := Still user took io ended) ?_ (fun _ _ h => h) h
  rintro w₁ c w₂ ⟨hio, huser, hflight, ht, hend⟩ hp
  have hc : ∀ k, c ≠ .progress k := by
    rintro k rfl
    simp [World.peer, World.progress, hflight] at hp
  obtain ⟨hio', huser', hfl', hend', ht'⟩ := ht.peer hp hc
  exact ⟨hio'.trans hio, huser'.trans huser, hfl'.trans hflight, ht', hend'.trans hend⟩

theorem runs_alloc_still {ended : Bool} (h : Still user took io ended w) :
    Runs alloc (fun _ w' => Still user took io ended w') w := by
  simp only [alloc, wp_bind]
  refine wp_mono (runs_next_still h) ?_
  intro c w₁ h₁
  cases c with
  | alloc ok => exact h₁
  | _ => exact rfl

/-- A read that is started blocks, or ends at once. -/
theorem runs_streamRead (h : Still user took io false w)
    (hbuf : internal = true → io.buf = some []) :
    Runs (streamRead internal len) (Started (Arriving internal user took len io)
      (Arrived internal user took len io)) w := by
  have husable : w.host.usable := ⟨h.2.2.1, h.2.2.2.2⟩
  simp only [streamRead, wp_bind, runs_act, wp_get, wp_require, husable, not_true_eq_false,
    forall_const, IsEmpty.forall_iff, and_true]
  refine wp_mono (runs_next_still (by exact h)) ?_
  rintro c w₁ ⟨hio, huser, hflight, ht, hend⟩
  have hholds : Holds internal user io [] w₁ := by
    unfold Holds
    cases internal with
    | true =>
      simp only [if_true]
      refine ⟨?_, huser⟩
      rw [hio, ← hbuf rfl]
    | false => simpa [hio] using huser
  cases c with
  | blocked =>
    simp only [wp_bind, runs_modifyHost, wp_pure]
    exact .inl ⟨rfl, [], rfl, Nat.zero_le _, hholds.host _,
      ⟨by simpa using ht.took, ht.moved_le, ht.ended⟩, hend⟩
  | ready k dropped =>
    simp only [wp_bind, wp_get, wp_require, wp_modify, wp_pure]
    refine ⟨fun hend' => ?_, fun _ => trivial⟩
    obtain ⟨⟨hk, hpos, hdrop⟩, hsrc⟩ := hend'
    obtain ⟨htake, hfetch⟩ := ht.fetch hsrc
    refine .inr ⟨⟨if dropped then .dropped else .completed, w₁.host.fetch k, ?_, ?_, ?_, ?_,
      ⟨htake, hsrc, hdrop⟩, ?_, ?_⟩, ?_⟩
    · rw [hfetch, statusOf]
    · rw [hfetch]; exact hk
    · exact hflight
    · exact (hholds.receive).host _
    · cases dropped <;> rfl
    · rw [hfetch]
      cases dropped with
      | true => simp
      | false => simpa using hpos
    · intro n heq
      cases dropped <;> cases heq
  | _ => exact rfl

/-- The read in flight ends. -/
theorem runs_finish_arriving (h : Arriving internal user took len io w) (state : WaitState) :
    Runs (finish state) (fun st w' => Arrived internal user took len io st w' ∧
      ∃ n, st = .code state n) w := by
  obtain ⟨bytes, hflight, hlen, hholds, ht, hended⟩ := h
  simp only [finish, wp_bind, wp_get, hflight, wp_require, runs_modifyHost, wp_pure]
  refine ⟨fun hend => ⟨⟨state, bytes, rfl, hlen, rfl, hholds.host _,
    ⟨ht.took, ht.moved_le, ?_⟩, rfl, ?_⟩, bytes.length, rfl⟩, fun _ => trivial⟩
  · intro hs
    simp only [decide_eq_true_eq] at hs
    subst hs
    simp only [reduceCtorEq, false_or, Host.mayEnd, decide_true, forall_const] at hend
    exact hend.2.2
  · rintro rfl
    simp only [reduceCtorEq, Host.mayEnd, Flight.len, Flight.got, decide_false,
      Bool.false_eq_true, or_false, false_implies, and_true, false_or] at hend
    exact hend.2

/-- The flags do not matter to the buffers. -/
theorem Holds.flags {bytes : List UInt8} {f : IoState → IoState} (hf : Flagwise f)
    (h : Holds internal user io bytes w) :
    Holds internal user (f io) bytes { w with io := f w.io } := by
  unfold Holds at *
  cases internal with
  | true =>
    simp only [if_true] at h ⊢
    exact ⟨by rw [h.1, hf], h.2⟩
  | false =>
    simp only [Bool.false_eq_true, if_false] at h ⊢
    exact ⟨congrArg f h.1, h.2⟩

/-- The record, but for the bytes in the internal buffer. -/
theorem Holds.io_eq {bytes : List UInt8} (h : Holds internal user io bytes w) :
    w.io = { io with buf := if internal then some bytes else io.buf } := by
  unfold Holds at h
  cases internal with
  | true => exact h.1
  | false => exact h.1

theorem readTransfer (internal : Bool) (user took : List UInt8) (len : Nat) :
    Transfer (Arriving internal user took len) (Arrived internal user took len) where
  peer h hp := h.peer hp
  ghost _ _ h := h
  finish state h := runs_finish_arriving h state
  flags hf := fun ⟨bytes, hflight, hle, hholds, hrest⟩ =>
    ⟨bytes, hflight, hle, hholds.flags hf, hrest⟩
  flagsEnd hf := fun ⟨state, bytes, hst, hle, hflight, hholds, hrest⟩ =>
    ⟨state, bytes, hst, hle, hflight, hholds.flags hf, hrest⟩
  io := fun ⟨_, _, _, hholds, _⟩ => by rw [hholds.io_eq]
  ioEnd := fun ⟨_, _, _, _, _, hholds, _⟩ => by rw [hholds.io_eq]
  code := fun ⟨state, bytes, hst, _⟩ => ⟨state, bytes.length, hst⟩

end WasiLibc.Stream
