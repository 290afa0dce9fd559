import WasiLibc.Poll.Counting

/-!
# WasiLibc.Poll.Durations

The duration that `ppoll` hands to the host's clock.  All three
implementations compute it from the `timespec` in unsigned 64-bit arithmetic,
without a limit: a timeout of more than 584 years becomes another, shorter
one.  `ppoll_duration_iff` says for which timeouts this makes no difference.
-/

namespace WasiLibc.Poll

open Wp Twin

namespace Timespec

/-- The product and the sum are computed modulo 2⁶⁴. -/
theorem toNat_ns (t : Timespec) : (t.ns.toNat : Int) = t.duration % 2 ^ 64 := by
  unfold ns duration
  rw [BitVec.toNat_add, BitVec.toNat_mul]
  have hlit : (1000000000 : BitVec 64).toNat = 1000000000 := rfl
  have hsec : ((BitVec.ofInt 64 t.sec).toNat : Int) = t.sec % 2 ^ 64 := by
    rw [BitVec.toNat_ofInt]
    omega
  have hnsec : ((BitVec.ofInt 64 t.nsec).toNat : Int) = t.nsec % 2 ^ 64 := by
    rw [BitVec.toNat_ofInt]
    omega
  rw [hlit]
  omega

/-- The duration `d` is as long as asked for, or as long as can be told. -/
def Saturates (t : Timespec) (d : BitVec 64) : Prop :=
  (d.toNat : Int) = min t.duration (2 ^ 64 - 1)

/-- The duration fits into 64 bits, or what is left of it happens to be the
longest one. -/
def Fits64 (t : Timespec) : Prop := t.duration < 2 ^ 64 ∨ (t.duration + 1) % 2 ^ 64 = 0

theorem saturates_ns_iff {t : Timespec} (h : t.Valid) : t.Saturates t.ns ↔ t.Fits64 := by
  have hpos : 0 ≤ t.duration := by
    unfold Valid at h
    unfold duration
    omega
  unfold Saturates Fits64
  rw [toNat_ns]
  omega

end Timespec

/-! ## The request -/

variable {ρ ω α : Type}

/-- A run that is known. -/
theorem wp_of_run {ok : Fault → Prop} {f : M ρ ω α} {Q : α → State ρ ω → Prop} {s s' : State ρ ω}
    {a : α} (hrun : f s = .ok (a, s')) (hQ : Q a s') : wp ok f Q s := by
  unfold wp
  rw [hrun]
  exact hQ

/-- A call without entries whose timeout is in order is one of the
implementation. -/
theorem ppoll_of_valid {impl : Option Timespec → M ρ ω (Except Errno Nat)} {t : Timespec}
    (h : t.Valid) (w : ω) :
    (ppoll impl (some t)).run (start [] w) = (impl (some t)).run (start [] w) := by
  have hnot : ¬ ∃ u ∈ some t, ¬ u.Valid := by
    rintro ⟨u, hu, hnot⟩
    cases hu
    exact hnot h
  unfold ppoll
  rw [if_neg hnot]
  rfl

/-! ## wasip1 -/

namespace Preview1

/-- Every duration that the clock is asked for is the right one, and it is
asked for one in every call that gets to count events. -/
def Asks (t : Timespec) : Prop :=
  ∀ answer fds r s, call answer (some t) fds = .ok (r, s) →
    (∀ d ∈ s.clock, t.Saturates d) ∧ ∀ n, r = .ok n → s.clock.isSome

theorem asks_iff {t : Timespec} (h : t.Valid) : Asks t ↔ t.Fits64 := by
  rw [← Timespec.saturates_ns_iff h]
  constructor
  · intro hasks
    have hrun : call (.ok [⟨0, none, false⟩]) (some t) [] =
        .ok (.ok 0, ⟨[], 0, [.clock t.ns], t.ns.toNat, some t.ns, .ok [⟨0, none, false⟩]⟩) :=
      (ppoll_of_valid h _).trans rfl
    exact (hasks _ _ _ _ hrun).1 t.ns rfl
  · intro hsat answer fds r s hrun
    rcases ppoll_eq ppollImpl (some t) fds answer with ⟨e, heq⟩ | heq
    · cases heq.symm.trans hrun
      exact ⟨nofun, nofun⟩
    · obtain ⟨c, hsound, hc, -⟩ := post_of_wp (sound_ppollImpl (some t) rfl
        (sound_cleared fds answer)) (heq.symm.trans hrun)
      rw [hsound.clock]
      rcases hc with rfl | ⟨rfl, e, rfl⟩
      · refine ⟨?_, fun _ _ => rfl⟩
        rintro _ ⟨⟩
        exact hsat
      · exact ⟨nofun, nofun⟩

end Preview1

/-! ## wasip2 -/

namespace Preview2

/-- If nothing is ready when the descriptors are registered, the clock is
asked for the right duration. -/
def Asks (t : Timespec) : Prop :=
  ∀ table w fds s₁ n s,
    registerEach (register table) 0 (cleared fds) (start (cleared fds) w) = .ok (.ok (), s₁) →
    s₁.count = 0 → call table w (some t) fds = .ok (.ok n, s) → ∃ d ∈ s.clock, t.Saturates d

theorem asks_iff {t : Timespec} (h : t.Valid) : Asks t ↔ t.Fits64 := by
  rw [← Timespec.saturates_ns_iff h]
  constructor
  · intro hasks
    have hrun : call (fun _ => none) ⟨fun _ => .other, [.ready [0]]⟩ (some t) [] =
        .ok (.ok 0, ⟨[], 0, [], t.ns.toNat, some t.ns, ⟨fun _ => .other, []⟩⟩) :=
      (ppoll_of_valid h _).trans rfl
    obtain ⟨d, hd, hsat⟩ := hasks _ _ [] _ _ _ rfl rfl hrun
    cases hd
    exact hsat
  · intro hsat table w fds s₁ n s hreg hcount hrun
    rcases ppoll_eq (ppollImpl table) (some t) fds w with ⟨e, heq⟩ | heq
    · cases heq.symm.trans hrun
    · obtain ⟨k, h₁, hk⟩ := post_of_wp (tallied_registerEach (tally_cleared fds w)) hreg
      have himpl : wp anyFault (ppollImpl table (some t)) (fun _ s' => s'.clock = some t.ns)
          (start (cleared fds) w) := by
        unfold ppollImpl andThen
        rw [wp_bind, wp_get, wp_bind]
        refine wp_of_run hreg (wp_mono (tallied_ppollWait _ (hk rfl) h₁) fun _ _ h₂ => ?_)
        rw [h₂.1.clock, asked, hcount]
        rfl
      exact ⟨t.ns, post_of_wp himpl (heq.symm.trans hrun), hsat⟩

end Preview2

/-! ## wasip3 -/

namespace Preview3

/-- If nothing is ready when the descriptors are registered, the clock is
asked for the right duration. -/
def Asks (t : Timespec) : Prop :=
  ∀ table w fds s₁ n s,
    registerEach (register table) 0 (cleared fds)
      (start (cleared fds) { w with timer := none }) = .ok (.ok (), s₁) →
    s₁.count = 0 → call table w (some t) fds = .ok (.ok n, s) → ∃ d ∈ s.clock, t.Saturates d

theorem asks_iff {t : Timespec} (h : t.Valid) : Asks t ↔ t.Fits64 := by
  rw [← Timespec.saturates_ns_iff h]
  constructor
  · intro hasks
    -- the timer is over at once, and there is nothing else to wait for
    have himpl : wp (fun _ => False) (ppollImpl (fun _ => none) (some t))
        (fun r s => r = .ok 0 ∧ s.clock = some t.ns)
        (start [] ⟨fun _ => .other, none, [.waitFor true, .event none, .event none]⟩) := by
      simp [ppollImpl, ppollBody, andThen, registerEach, ppollWait, startTimer, wp_onWorld, next,
        firstEvent, waitableSet, takeFromSet, drain, cleanup, require, start, Timespec.zero]
    obtain ⟨r, s, hrun, rfl, hclock⟩ := exists_ok_of_wp himpl
    obtain ⟨d, hd, hsat⟩ := hasks (fun _ => none) _ [] _ _ _ rfl rfl ((ppoll_of_valid h _).trans hrun)
    cases hclock.symm.trans hd
    exact hsat
  · intro hsat table w fds s₁ n s hreg hcount hrun
    rcases ppoll_eq (ppollImpl table) (some t) fds w with ⟨e, heq⟩ | heq
    · cases heq.symm.trans hrun
    · obtain ⟨k, h₁, hk⟩ := post_of_wp (tallied_registerEach (tally_cleared fds _)) hreg
      have himpl : wp anyFault (ppollImpl table (some t)) (fun _ s' => s'.clock = some t.ns)
          (start (cleared fds) w) := by
        unfold ppollImpl ppollBody andThen
        rw [wp_bind, wp_bind, wp_modify, wp_bind, wp_get, wp_bind]
        refine wp_of_run hreg (wp_mono (tallied_ppollWait _ (hk rfl) h₁) ?_)
        rintro r s₂ ⟨c, h₂, -, hc⟩
        rw [wp_bind, wp_modify, wp_bind, wp_get, wp_bind]
        exact wp_mono (tallied_cleanup s₂.regs h₂) fun _ _ h₃ => h₃.1.clock.trans (hc t rfl hcount)
      exact ⟨t.ns, post_of_wp himpl (heq.symm.trans hrun), hsat⟩

end Preview3

/-- For a timeout that `ppoll` accepts, each target asks the host's clock for
the duration, limited to 64 bits, exactly when the duration fits into
64 bits, or happens to. -/
theorem ppoll_duration_iff {t : Timespec} (h : t.Valid) :
    (Preview1.Asks t ↔ t.Fits64) ∧ (Preview2.Asks t ↔ t.Fits64) ∧ (Preview3.Asks t ↔ t.Fits64) :=
  ⟨Preview1.asks_iff h, Preview2.asks_iff h, Preview3.asks_iff h⟩

/-- Half a second. -/
theorem ppoll_duration_half : Timespec.Valid ⟨0, 500000000⟩ ∧
    Preview1.Asks ⟨0, 500000000⟩ ∧ Preview2.Asks ⟨0, 500000000⟩ ∧ Preview3.Asks ⟨0, 500000000⟩ := by
  have hvalid : Timespec.Valid ⟨0, 500000000⟩ := by decide
  have hfits : Timespec.Fits64 ⟨0, 500000000⟩ := .inl (by decide)
  obtain ⟨h₁, h₂, h₃⟩ := ppoll_duration_iff hvalid
  exact ⟨hvalid, h₁.mpr hfits, h₂.mpr hfits, h₃.mpr hfits⟩

/-- A timeout of 18446744074 seconds, about 584 years, is one of 290448384
nanoseconds for the host, on each target. -/
theorem ppoll_duration_wraps :
    ((Preview1.call (.ok [⟨0, none, false⟩]) (some ⟨18446744074, 0⟩) []).toOption.map
        fun p => p.2.clock) = some (some 290448384) ∧
    ((Preview2.call (fun _ => none) ⟨fun _ => .other, [.ready [0]]⟩
        (some ⟨18446744074, 0⟩) []).toOption.map fun p => p.2.clock) = some (some 290448384) ∧
    ((Preview3.call (fun _ => none)
        ⟨fun _ => .other, none, [.waitFor true, .event none, .event none]⟩
        (some ⟨18446744074, 0⟩) []).toOption.map fun p => p.2.clock) = some (some 290448384) := by
  decide +kernel

end WasiLibc.Poll
