import WasiLibc.Pipe.Calls

/-!
# WasiLibc.Pipe.Rules

What a step on a pipe keeps, and the rules for blocking and notification.

`Wired` joins the flags, the ends of the stream and the threads.  A half has at
most one waiter; as long as that is not notified, its operation is pending at
its end of the stream, and after that the end is busy until the waiter runs.
`Inv` adds that a waiter which is not notified is right to wait: so waiters of
both halves cannot be pending at once, and no operation meets another one by
accident.

`ok` says which faults are admitted.  If a trap is not, an end without a waiter
is idle.
-/

namespace WasiLibc.Pipe

open Function Wp

variable {ι : Type} {ok : Fault → Prop} {s s' : State ι} {phase : ι → Phase} {d : Dir}

/-! ## Flags and ends -/

/-- Flags and ends of the stream are as the phases of the threads say. -/
structure Wired (ok : Fault → Prop) (s : State ι) (phase : ι → Phase) : Prop where
  blocked : ∀ d, s.blocked d = true ↔ ∃ t, d ∈ (phase t).halves
  unique : ∀ t u d, d ∈ (phase t).halves → d ∈ (phase u).halves → t = u
  nodup : ∀ t, (phase t).halves.Nodup
  woken : ∀ d, s.woken d = true → s.blocked d = true
  copying : ∀ d, s.ends d = .copying ↔ s.blocked d = true ∧ s.woken d = false
  finished : ∀ d, s.woken d = true → s.ends d = .finished
  idle : ¬ ok .trap → ∀ d, s.blocked d = false → s.ends d = .idle
  stream : ∀ d, s.blocked d = true → s.stream = true

namespace State

/-- After a waiter of the half, if there is one, has been notified. -/
def notified (s : State ι) (d : Dir) : State ι :=
  { s with
    woken := update s.woken d (s.blocked d)
    ends := if s.blocked d then update s.ends d .finished else s.ends }

/-- After a thread has blocked on the half. -/
def entered (s : State ι) (d : Dir) : State ι :=
  { s with
    blocked := update s.blocked d true
    stream := true
    ends := update s.ends d .copying }

/-- After a thread has given up to be blocked on the half. -/
def exited (s : State ι) (d : Dir) : State ι :=
  { s with
    woken := update s.woken d false
    blocked := update s.blocked d false
    ends := if s.woken d then s.ends else update s.ends d .idle }

/-- After a thread has been woken by its event. -/
def left (s : State ι) (d : Dir) : State ι :=
  { s with
    woken := update s.woken d false
    blocked := update s.blocked d false
    ends := update s.ends d .idle }

end State

theorem Wired.notified_eq (h : Wired ok s phase) (hd : s.blocked d = true → s.woken d = true) :
    s.notified d = s := by
  have hwoken : s.blocked d = s.woken d := by
    cases hw : s.woken d with
    | true => exact h.woken d hw
    | false =>
      cases hb : s.blocked d with
      | false => rfl
      | true => rw [hd hb] at hw; cases hw
  have hends : (if s.blocked d then update s.ends d .finished else s.ends) = s.ends := by
    split
    case isTrue hb => rw [← h.finished d (hd hb), update_eq_self]
    case isFalse => rfl
  simp only [State.notified, hends]
  rw [hwoken, update_eq_self]

/-- The rule of `unblock`. -/
theorem runs_unblock {Q : PUnit → State ι → Prop} (h : Wired ok s phase)
    (hidle : s.blocked d = true → s.woken d = false → ¬ ok .trap → s.ends d.other = .idle)
    (hQ : Q ⟨⟩ (s.notified d)) : wp ok (unblock d) Q s := by
  simp only [unblock, wp_bind, wp_get, wp_ite, wp_pure]
  split
  case isTrue hb =>
    rw [h.notified_eq fun hb' => absurd hb' hb] at hQ
    exact hQ
  case isFalse hb =>
    have hb : s.blocked d = true := by simpa using hb
    refine wp_require.mpr ⟨fun _ => ?_, fun hn => absurd (h.stream d hb) hn⟩
    split
    case isTrue hw =>
      rw [h.notified_eq fun _ => hw] at hQ
      exact hQ
    case isFalse hw =>
      have hw : s.woken d = false := by simpa using hw
      have hcopying := (h.copying d).mpr ⟨hb, hw⟩
      simp only [streamCopy, setEnd, wp_bind, wp_modify, wp_get, wp_require, wp_ite, wp_pure,
        Dir.other_other, hcopying, if_true]
      refine ⟨fun _ => ⟨fun _ => ⟨fun _ => ?_, by simp⟩, fun hn => ?_⟩,
        fun hn => absurd (h.stream d hb) hn⟩
      · simpa [State.notified, hb] using hQ
      · by_contra htrap
        exact hn (hidle hb hw htrap)

/-- The rule of `blockEnter`. -/
theorem runs_blockEnter {Q : Except Errno Unit → State ι → Prop} (h : Wired ok s phase)
    (hapart : s.blocked d = false → s.ends d.other ≠ .copying)
    (hbusy : s.blocked d = true → Q (.error .EOPNOTSUPP) s)
    (hfree : s.blocked d = false → Q (.ok ()) (s.entered d)) : wp ok (blockEnter d) Q s := by
  simp only [blockEnter, wp_bind, wp_get, wp_ite, wp_pure]
  split
  case isTrue hb => exact hbusy hb
  case isFalse hb =>
    have hb : s.blocked d = false := by simpa using hb
    have hw : s.woken d = false := by
      by_contra hw
      rw [h.woken d (by simpa using hw)] at hb
      cases hb
    simp only [ensureStream, streamCopy, setEnd, wp_require, wp_bind, wp_modify, wp_get, wp_ite,
      wp_pure, hw, hapart hb, if_false]
    refine ⟨fun _ => ⟨fun _ => ⟨fun _ => ⟨fun _ => hfree hb, by simp⟩, fun hn => ?_⟩, by simp⟩,
      by simp⟩
    by_contra htrap
    exact hn (h.idle htrap d hb)

/-- The rule of `blockExit`. -/
theorem runs_blockExit {Q : Bool → State ι → Prop} (h : Wired ok s phase)
    (hb : s.blocked d = true) (hQ : Q (s.woken d) (s.exited d)) : wp ok (blockExit d) Q s := by
  simp only [blockExit, wp_bind, wp_get, wp_modify, wp_ite, wp_pure]
  split
  case isTrue hw =>
    have hw : s.woken d = false := by simpa using hw
    have hcopying := (h.copying d).mpr ⟨hb, hw⟩
    simp only [streamCancel, setEnd, wp_bind, wp_get, wp_modify, wp_pure, wp_require, hcopying]
    refine ⟨fun _ => ?_, by simp⟩
    simpa [State.exited, hw] using hQ
  case isFalse hw => simpa [State.exited, by simpa using hw] using hQ

/-- A waiter that has its event leaves; it has been notified. -/
theorem runs_wake {α : Type} {f : Bool → M ι α} {Q : α → State ι → Prop} (h : Wired ok s phase)
    (hb : s.blocked d = true) (hok : ok .host) (hQ : wp ok (f true) Q (s.left d)) :
    wp ok (do deliver d; let woken ← blockExit d; f woken) Q s := by
  simp only [deliver, setEnd, wp_bind, wp_get, wp_require, wp_modify]
  refine ⟨fun hfinished => ?_, fun _ => hok⟩
  have hw : s.woken d = true := by
    by_contra hw
    rw [(h.copying d).mpr ⟨hb, by simpa using hw⟩] at hfinished
    cases hfinished
  simp only [blockExit, wp_bind, wp_get, wp_modify, wp_ite, wp_pure, hw]
  simpa [State.left] using hQ

/-! ## Changes -/

/-- Flags and ends. -/
def State.wiring (s : State ι) := (s.blocked, s.woken, s.ends, s.stream)

/-- Only flags, ends and phases matter. -/
theorem Wired.congr (h : Wired ok s phase) (hs : s'.wiring = s.wiring) : Wired ok s' phase := by
  simp only [State.wiring, Prod.mk.injEq] at hs
  obtain ⟨hblocked, hwoken, hends, hstream⟩ := hs
  constructor
  case blocked => rw [hblocked]; exact h.blocked
  case unique => exact h.unique
  case nodup => exact h.nodup
  case woken => rw [hwoken, hblocked]; exact h.woken
  case copying => rw [hends, hblocked, hwoken]; exact h.copying
  case finished => rw [hends, hwoken]; exact h.finished
  case idle => rw [hends, hblocked]; exact h.idle
  case stream => rw [hblocked, hstream]; exact h.stream

theorem Wired.notified (h : Wired ok s phase) (d : Dir) : Wired ok (s.notified d) phase := by
  by_cases hd : s.blocked d = true → s.woken d = true
  · rw [h.notified_eq hd]
    exact h
  · obtain ⟨hb, hw⟩ := Classical.not_imp.mp hd
    refine ⟨h.blocked, h.unique, h.nodup, fun e he => ?_, fun e => ?_, fun e he => ?_,
      fun htrap e he => ?_, h.stream⟩
    · by_cases hde : e = d
      · subst hde; exact hb
      · exact h.woken e (by simpa [State.notified, hde] using he)
    · by_cases hde : e = d
      · subst hde; simp [State.notified, hb]
      · simpa [State.notified, hb, hde] using h.copying e
    · by_cases hde : e = d
      · subst hde; simp [State.notified, hb]
      · simpa [State.notified, hb, hde] using h.finished e (by simpa [State.notified, hde] using he)
    · have hde : e ≠ d := by
        rintro rfl
        rw [show (s.notified e).blocked e = s.blocked e from rfl, hb] at he
        cases he
      simpa [State.notified, hb, hde] using h.idle htrap e he

section

variable [DecidableEq ι] {t : ι} {p q : Phase}

/-- The halves of one thread change. -/
theorem Wired.rephase {b : Dir → Bool} (h : Wired ok s (update phase t p))
    (hnew : ∀ e, e ∈ q.halves → e ∈ p.halves ∨ s.blocked e = false)
    (hblocked : ∀ e, b e = true ↔ e ∈ q.halves ∨ s.blocked e = true ∧ e ∉ p.halves) :
    (∀ e, b e = true ↔ ∃ u, e ∈ (update phase t q u).halves) ∧
    (∀ u v e, e ∈ (update phase t q u).halves →
      e ∈ (update phase t q v).halves → u = v) := by
  have hold : ∀ u e, u ≠ t → e ∈ (phase u).halves → s.blocked e = true ∧ e ∉ p.halves := by
    intro u e hu he
    have hu' : e ∈ (update phase t p u).halves := by rwa [update_of_ne hu]
    refine ⟨(h.blocked e).mpr ⟨u, hu'⟩, fun hp => hu (h.unique u t e hu' ?_)⟩
    rwa [update_self]
  have hother : ∀ u e, u ≠ t → e ∈ (phase u).halves → e ∉ q.halves := by
    intro u e hu he hp'
    obtain ⟨hb, hp⟩ := hold u e hu he
    rcases hnew e hp' with hp'' | hfree
    · exact hp hp''
    · rw [hfree] at hb
      cases hb
  refine ⟨fun e => (hblocked e).trans ⟨?_, ?_⟩, fun u v e hu hv => ?_⟩
  · rintro (hp' | ⟨hb, hp⟩)
    · exact ⟨t, by rwa [update_self]⟩
    · obtain ⟨u, hu⟩ := (h.blocked e).mp hb
      have hut : u ≠ t := by
        rintro rfl
        rw [update_self] at hu
        exact hp hu
      rw [update_of_ne hut] at hu
      exact ⟨u, by rwa [update_of_ne hut]⟩
  · rintro ⟨u, hu⟩
    by_cases hut : u = t
    · subst hut
      rw [update_self] at hu
      exact .inl hu
    · rw [update_of_ne hut] at hu
      exact .inr (hold u e hut hu)
  · by_cases hut : u = t
    · by_cases hvt : v = t
      · rw [hut, hvt]
      · subst hut
        rw [update_self] at hu
        rw [update_of_ne hvt] at hv
        exact absurd hu (hother v e hvt hv)
    · rw [update_of_ne hut] at hu
      by_cases hvt : v = t
      · subst hvt
        rw [update_self] at hv
        exact absurd hv (hother u e hut hu)
      · rw [update_of_ne hvt] at hv
        exact h.unique u v e (by rwa [update_of_ne hut])
          (by rwa [update_of_ne hvt])

theorem nodup_update (h : ∀ u, (update phase t p u).halves.Nodup)
    (hp' : q.halves.Nodup) (u : ι) : (update phase t q u).halves.Nodup := by
  by_cases hu : u = t
  · subst hu; rwa [update_self]
  · have := h u
    rw [update_of_ne hu] at this ⊢
    exact this

/-- The thread blocks on one more half. -/
theorem Wired.entered (h : Wired ok s (update phase t p)) (hb : s.blocked d = false)
    (hp' : q.halves = p.halves ++ [d]) :
    Wired ok (s.entered d) (update phase t q) := by
  have hd : d ∉ p.halves := by
    intro hd
    rw [(h.blocked d).mpr ⟨t, by rwa [update_self]⟩] at hb
    cases hb
  have hnotwoken : s.woken d = false := by
    by_contra hw
    rw [h.woken d (by simpa using hw)] at hb
    cases hb
  have hself := h.nodup t
  rw [update_self] at hself
  have hnodup : q.halves.Nodup := by
    rw [hp']
    exact hself.append (by simp) (by simpa using hd)
  obtain ⟨hblocked, hunique⟩ := h.rephase (q := q) (b := (s.entered d).blocked)
    (fun e he => by
      rw [hp', List.mem_append, List.mem_singleton] at he
      exact he.imp_right fun hed : e = d => hed ▸ hb)
    (fun e => by
      by_cases hed : e = d
      · subst hed; simp [State.entered, hp']
      · have hp : e ∈ p.halves → s.blocked e = true := fun he =>
          (h.blocked e).mpr ⟨t, by rwa [update_self]⟩
        simp only [State.entered, update_of_ne hed, hp', List.mem_append,
          List.mem_singleton, hed, or_false]
        tauto)
  refine ⟨hblocked, hunique, nodup_update h.nodup hnodup, fun e he => ?_, fun e => ?_,
    fun e he => ?_, fun htrap e he => ?_, fun _ _ => rfl⟩
  · by_cases hed : e = d
    · subst hed; simp [State.entered]
    · simpa [State.entered, hed] using h.woken e he
  · by_cases hed : e = d
    · subst hed; simp [State.entered, hnotwoken]
    · simpa [State.entered, hed] using h.copying e
  · have hed : e ≠ d := by
      rintro rfl
      rw [show (s.entered e).woken e = s.woken e from rfl, hnotwoken] at he
      cases he
    simpa [State.entered, hed] using h.finished e he
  · have hed : e ≠ d := by
      rintro rfl
      simp [State.entered] at he
    simpa [State.entered, hed] using h.idle htrap e (by simpa [State.entered, hed] using he)

/-- The thread is no longer blocked on one of its halves, whose end is idle
then, unless traps are admitted. -/
theorem Wired.gone {e : End} (h : Wired ok s (update phase t p)) (hd : d ∈ p.halves)
    (hp' : q.halves = p.halves.erase d) (he : e ≠ .copying) (hidle : ¬ ok .trap → e = .idle) :
    Wired ok { s with
      woken := update s.woken d false
      blocked := update s.blocked d false
      ends := update s.ends d e } (update phase t q) := by
  have hself := h.nodup t
  rw [update_self] at hself
  have hmem : ∀ f, f ∈ q.halves ↔ f ∈ p.halves ∧ f ≠ d := fun f => by
    rw [hp', hself.mem_erase_iff, and_comm]
  obtain ⟨hblocked, hunique⟩ := h.rephase (q := q) (b := update s.blocked d false)
    (fun f hf => .inl ((hmem f).mp hf).1)
    (fun f => by
      by_cases hfd : f = d
      · subst hfd; simp [hmem, hd]
      · have hp : f ∈ p.halves → s.blocked f = true := fun hf =>
          (h.blocked f).mpr ⟨t, by rwa [update_self]⟩
        simp only [update_of_ne hfd, hmem, hfd, ne_eq, not_false_eq_true, and_true]
        tauto)
  refine ⟨hblocked, hunique, nodup_update h.nodup (hp' ▸ hself.erase d), fun f hf => ?_,
    fun f => ?_, fun f hf => ?_, fun htrap f hf => ?_, fun f hf => ?_⟩ <;>
    by_cases hfd : f = d
  · subst hfd; simp at hf
  · simpa [hfd] using h.woken f (by simpa [hfd] using hf)
  · subst hfd; simpa using he
  · simpa [hfd] using h.copying f
  · subst hfd; simp at hf
  · simpa [hfd] using h.finished f (by simpa [hfd] using hf)
  · subst hfd; simpa using hidle htrap
  · simpa [hfd] using h.idle htrap f (by simpa [hfd] using hf)
  · subst hfd; simp at hf
  · exact h.stream f (by simpa [hfd] using hf)

theorem Wired.left (h : Wired ok s (update phase t p)) (hd : d ∈ p.halves)
    (hp' : q.halves = p.halves.erase d) : Wired ok (s.left d) (update phase t q) :=
  h.gone hd hp' nofun fun _ => rfl

/-- A registration is given up; it must not have been notified, if traps are
not admitted. -/
theorem Wired.exited (h : Wired ok s (update phase t p)) (hd : d ∈ p.halves)
    (hp' : q.halves = p.halves.erase d) (hw : ¬ ok .trap → s.woken d = false) :
    Wired ok (s.exited d) (update phase t q) := by
  cases hwoken : s.woken d with
  | false =>
    have hgone := h.gone (e := .idle) hd hp' nofun fun _ => rfl
    simpa [State.exited, hwoken] using hgone
  | true =>
    have hends : update s.ends d .finished = s.ends := by
      rw [← h.finished d hwoken, update_eq_self]
    have hgone := h.gone (e := .finished) hd hp' nofun fun htrap => by
      rw [hw htrap] at hwoken
      cases hwoken
    rw [hends] at hgone
    simpa [State.exited, hwoken] using hgone

end

end WasiLibc.Pipe
