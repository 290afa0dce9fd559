import WasiLibc.Stream.Rules

/-!
# WasiLibc.Stream.Output.Host

What the operations on an output stream do on the host's side.

It is `Quiet low base` when nothing is in flight and `base` has been
delivered, and `Flying low base internal bytes` when a write of `bytes` is in
flight and some of them have been delivered after `base`; in both, `low`
bounds from below what has been delivered.  `drops` says whether the reader
may drop its end.
-/

namespace WasiLibc.Stream

open Wp

/-- The reader has received at least `low`, and stays unless `drops`. -/
structure Host.Alive (drops : Prop) (low : List UInt8) (h : Host) : Prop where
  mayDrop : h.mayDrop = true → drops
  dropped : h.dropped = true → drops
  ended : h.ended = true → h.dropped = true
  low : low <+: h.delivered

/-- Nothing is in flight, and `base` has been delivered. -/
structure Quiet (drops : Prop) (low base : List UInt8) (h : Host) : Prop where
  flight : h.flight = none
  delivered : h.delivered = base
  alive : h.Alive drops low

/-- A write of `bytes` is in flight, of which a part has been delivered
after `base`. -/
structure Flying (drops : Prop) (low base : List UInt8) (internal : Bool) (bytes : List UInt8)
    (h : Host) : Prop where
  flight : ∃ got ≤ bytes.length, h.flight = some (.write internal bytes got) ∧
    h.delivered = base ++ bytes.take got
  ended : h.ended = false
  alive : h.Alive drops low

/-- The write of `bytes` has ended, with the status `st`. -/
def Landed (drops : Prop) (low base bytes : List UInt8) (st : Status) (h : Host) : Prop :=
  ∃ state got, st = .code state got ∧ got ≤ bytes.length ∧
    (state = .completed → 0 < got ∨ bytes = []) ∧ Quiet drops low (base ++ bytes.take got) h ∧
    h.ended = decide (state = .dropped)

variable {drops : Prop} {low base bytes : List UInt8} {internal : Bool} {w w' : World}

/-- What the peer does apart from taking bytes. -/
theorem Host.Alive.peer (h : w.host.Alive drops low) {c : Choice} (hp : w.peer c = some w')
    (hc : ∀ k, c ≠ .progress k) :
    w'.io = w.io ∧ w'.host.flight = w.host.flight ∧ w'.host.delivered = w.host.delivered ∧
      w'.host.ended = w.host.ended ∧ w'.host.Alive drops low := by
  cases c with
  | progress k => exact absurd rfl (hc k)
  | put bs =>
    simp only [World.peer] at hp
    split at hp
    case isTrue => cases hp
    case isFalse =>
      cases hp
      exact ⟨rfl, rfl, rfl, rfl, { h with }⟩
  | drop =>
    simp only [World.peer] at hp
    split at hp
    case isTrue hmay =>
      cases hp
      exact ⟨rfl, rfl, rfl, rfl, h.mayDrop, fun _ => h.mayDrop hmay, fun _ => rfl, h.low⟩
    case isFalse => cases hp
  | _ => simp [World.peer] at hp

theorem Quiet.peer (h : Quiet drops low base w.host) {c : Choice} (hp : w.peer c = some w') :
    w'.io = w.io ∧ w'.host.ended = w.host.ended ∧ Quiet drops low base w'.host := by
  have hc : ∀ k, c ≠ .progress k := by
    rintro k rfl
    simp [World.peer, World.progress, h.flight] at hp
  obtain ⟨hio, hflight, hdel, hended, halive⟩ := h.alive.peer hp hc
  exact ⟨hio, hended, hflight.trans h.flight, hdel.trans h.delivered, halive⟩

theorem Flying.peer (h : Flying drops low base internal bytes w.host) {c : Choice}
    (hp : w.peer c = some w') : w'.io = w.io ∧ Flying drops low base internal bytes w'.host := by
  obtain ⟨⟨got, hgot, hflight, hdel⟩, hended, halive⟩ := h
  by_cases hc : ∃ k, c = .progress k
  · obtain ⟨k, rfl⟩ := hc
    simp only [World.peer, World.progress, hflight] at hp
    split at hp
    case isTrue hk =>
      cases hp
      refine ⟨rfl, ⟨got + k, hk.2, rfl, ?_⟩, hended,
        { halive with low := halive.low.trans (List.prefix_append _ _) }⟩
      simp only [hdel, List.append_assoc, List.take_add]
    case isFalse => cases hp
  · obtain ⟨hio, hflight', hdel', hended', halive'⟩ :=
      halive.peer hp fun k hk => hc ⟨k, hk⟩
    exact ⟨hio, ⟨got, hgot, hflight'.trans hflight, hdel'.trans hdel⟩, hended'.trans hended,
      halive'⟩

/-- Nothing is in flight, whatever else the stream is. -/
theorem runs_next_quiet (h : Quiet drops low base w.host) :
    Runs next (fun _ w' => w'.io = w.io ∧ w'.host.ended = w.host.ended ∧
      Quiet drops low base w'.host) w := by
  refine runs_next (P := fun w' => w'.io = w.io ∧ w'.host.ended = w.host.ended ∧
    Quiet drops low base w'.host) ?_ (fun _ _ h => h) ⟨rfl, rfl, h⟩
  rintro w₁ c w₂ ⟨hio, hended, hq⟩ hp
  obtain ⟨hio', hended', hq'⟩ := hq.peer hp
  exact ⟨hio'.trans hio, hended'.trans hended, hq'⟩

theorem runs_alloc_quiet (h : Quiet drops low base w.host) :
    Runs alloc (fun _ w' => w'.io = w.io ∧ w'.host.ended = w.host.ended ∧
      Quiet drops low base w'.host) w := by
  simp only [alloc, wp_bind]
  refine wp_mono (runs_next_quiet h) ?_
  rintro c w₁ h₁
  cases c with
  | alloc ok => exact h₁
  | _ => exact rfl

/-- A write in flight, with the record `io`. -/
def WriteFly (drops : Prop) (low base : List UInt8) (internal : Bool) (bytes : List UInt8)
    (io : IoState) (w : World) : Prop :=
  w.io = io ∧ Flying drops low base internal bytes w.host

/-- A write that has ended, with the record `io`. -/
def WriteEnd (drops : Prop) (low base bytes : List UInt8) (io : IoState) (st : Status)
    (w : World) : Prop :=
  w.io = io ∧ Landed drops low base bytes st w.host

theorem runs_finish_flying (h : Flying drops low base internal bytes w.host) (state : WaitState) :
    Runs (finish state) (fun st w' => WriteEnd drops low base bytes w.io st w' ∧
      ∃ n, st = .code state n) w := by
  obtain ⟨⟨got, hgot, hflight, hdel⟩, -, halive⟩ := h
  simp only [finish, wp_bind, wp_get, hflight, wp_require, runs_modifyHost, wp_pure]
  refine ⟨fun hend => ⟨⟨rfl, state, got, rfl, hgot, ?_, ⟨rfl, hdel, ?_⟩, rfl⟩, got, rfl⟩,
    fun _ => trivial⟩
  · rintro rfl
    simp only [reduceCtorEq, Host.mayEnd, Flight.len, Flight.got, decide_false,
      Bool.false_eq_true, or_false, false_implies, and_true, false_or] at hend
    rcases hend.2 with h | h
    · exact .inl h
    · exact .inr (List.length_eq_zero_iff.mp h)
  · refine { halive with ended := fun hs => ?_ }
    simp only [decide_eq_true_eq] at hs
    subst hs
    simp only [reduceCtorEq, false_or, Host.mayEnd, decide_true, forall_const] at hend
    exact hend.2.2

theorem writeTransfer (drops : Prop) (low base : List UInt8) (internal : Bool)
    (bytes : List UInt8) :
    Transfer (WriteFly drops low base internal bytes) (WriteEnd drops low base bytes) where
  peer h hp := by
    obtain ⟨hio, hf⟩ := h.2.peer hp
    exact ⟨hio.trans h.1, hf⟩
  ghost _ _ h := h
  finish state h := h.1 ▸ runs_finish_flying h.2 state
  flags _ h := ⟨congrArg _ h.1, h.2⟩
  flagsEnd _ h := ⟨congrArg _ h.1, h.2⟩
  io h := by rw [h.1]
  ioEnd h := by rw [h.1]
  code := fun ⟨_, state, got, hst, _⟩ => ⟨state, got, hst⟩

/-- A write that is started blocks, or ends at once. -/
theorem runs_streamWrite (h : Quiet drops low base w.host) (hended : w.host.ended = false) :
    Runs (streamWrite internal bytes) (Started (WriteFly drops low base internal bytes w.io)
      (WriteEnd drops low base bytes w.io)) w := by
  have husable : w.host.usable := ⟨h.flight, hended⟩
  simp only [streamWrite, wp_bind, runs_act, wp_get, wp_require, husable, not_true_eq_false,
    forall_const, IsEmpty.forall_iff, and_true]
  refine wp_mono (runs_next_quiet (by exact h)) ?_
  rintro c w₁ ⟨hio, hended₁, hq⟩
  cases c with
  | blocked =>
    simp only [wp_bind, runs_modifyHost, wp_pure]
    exact .inl ⟨rfl, hio, ⟨0, Nat.zero_le _, rfl, by simp [hq.delivered]⟩,
      hended₁.trans hended, { hq.alive with }⟩
  | ready k dropped =>
    simp only [wp_bind, wp_get, wp_require, runs_modifyHost, wp_pure]
    refine ⟨fun hend => ?_, fun _ => trivial⟩
    obtain ⟨hk, hpos, hdrop⟩ := hend
    refine .inr ⟨⟨hio, if dropped then .dropped else .completed, k, rfl, hk, ?_,
      ⟨hq.flight, by simp [hq.delivered], hq.alive.mayDrop, hq.alive.dropped, hdrop,
        hq.alive.low.trans (List.prefix_append _ _)⟩, ?_⟩, ?_⟩
    · cases dropped with
      | true => simp
      | false => simpa using hpos
    · cases dropped <;> rfl
    · intro n heq
      cases dropped <;> cases heq
  | _ => exact rfl

end WasiLibc.Stream
