import WasiLibc.Object.Rules

/-!
# WasiLibc.Object.Transfers

What a step of `read` or `write` does to locks, flags and counters: one lemma
for each function.  A function that begins under the object's lock keeps the
discipline whatever the streams do, and leaves the thread at a switch point.
-/

namespace WasiLibc.Object

open Futex Wp

variable {T : Threads} {s₀ s : State T} {t : Tid T} {may : Dir → Prop} {c : Io}

/-- The thread holds the object's lock and nothing else. -/
abbrev Held (s₀ : State T) (t : Tid T) (may : Dir → Prop) (s : State T) : Prop :=
  Mid s₀ t may (role .holding [] none) s

/-- The function leaves the thread at a switch point. -/
abbrev Stops (s₀ : State T) (t : Tid T) (may : Dir → Prop) (f : M T PUnit) (s : State T) : Prop :=
  Runs f (fun _ s' => Slice s₀ t may s') s

theorem Held.leave (h : Held s₀ t may s) (result : Except Errno Int) :
    Stops s₀ t may (leave t result) s :=
  h.unlockObject.finish result

theorem role_holding {w : Wait} (hholds : w.holds = true) (howned : w.owned = []) :
    (Phase.waiting w).role = { role .holding [] none with clear := w.clear } := by
  ext l
  · cases l <;> simp [Phase.role, role, hholds, howned]
  · rfl
  · rfl

/-- The thread waits for the host and keeps the object's lock. -/
theorem Held.park {w : Wait} (h : Held s₀ t may s) (hholds : w.holds = true)
    (howned : w.owned = [])
    (hclear : ∀ d, w.clear d = true → (s.world d).io.blocked = false ∧ s.waiters d = 0)
    (hplain : Calm s₀ → (Phase.waiting w).Plain) :
    Stops s₀ t may (park t (.waiting w)) s := by
  have hinv := h.inv.setClear fun d hd => ⟨rfl, hclear d hd⟩
  have h : Mid s₀ t may (Phase.waiting w).role s := by
    rw [role_holding hholds howned]
    exact h.actLock hinv rfl
  refine h.park ⟨?_, ?_⟩ ?_ hplain
  · simp [Phase.owned, howned]
  · trivial
  · cases w <;> first | exact False.elim | cases hholds

theorem Held.transferred (h : Held s₀ t may s) (result : Except Errno Nat) :
    Stops s₀ t may (transferred t c result) s := by
  rcases result with e | _ | n
  case error => exact h.leave _
  case ok.succ =>
    simp only [Object.transferred, wp_bind, wp_get, wp_ite]
    split
    case isTrue => exact Held.leave (h.same (by rfl) (by rfl)) _
    case isFalse => exact h.leave _
  case ok.zero =>
    simp only [Object.transferred, getIo, wp_bind, wp_get, wp_pure, wp_ite]
    split
    case isTrue =>
      split
      case isTrue => exact h.park rfl rfl (by intros; contradiction) fun _ => trivial
      case isFalse => exact h.leave _
    case isFalse => exact h.leave _

theorem Held.eof (h : Held s₀ t may s) : Stops s₀ t may (eof t c) s := by
  simp only [Object.eof, wp_bind, wp_get, wp_modify]
  exact Held.leave (h.same (by rfl) (by rfl)) _

/-! ## Waiting -/

/-- The thread waits for the host in a blocking operation. -/
theorem Mid.parkBlocking {w : Wait} {d : Dir} (h : Mid s₀ t may (role .outside [d] none) s)
    (hholds : w.holds = false) (howned : w.owned = [d]) (hclear : ∀ d, w.clear d = false)
    (hflush : (Phase.waiting w).Flushes → (s₀.thread t).Flushes ∨ s.waiters .write = 0)
    (hplain : Calm s₀ → (Phase.waiting w).Plain) :
    Stops s₀ t may (Object.park t (.waiting w)) s := by
  have h : Mid s₀ t may (Phase.waiting w).role s := by
    rw [role_waiting hclear, hholds, howned]
    exact h
  exact h.park ⟨by simp [Phase.owned, howned], trivial⟩ hflush hplain

theorem Held.awaitPending {p : Pending} (h : Held s₀ t may s)
    (hb : (s.world p.dir).io.blocked = false)
    (hflush : (Phase.waiting (.pending p)).Flushes →
      (s₀.thread t).Flushes ∨ s.waiters .write = 0) (hcalm : ¬ Calm s₀) :
    Stops s₀ t may (awaitPending t p) s := by
  refine wp_bind.mpr (runs_enter h (by simp) hb (by simp [State.isOpen, h.tcp hcalm]) fun h => ?_)
  refine wp_bind.mpr (runs_unlock.mpr ?_)
  exact h.unlockObject.parkBlocking rfl rfl (fun _ => rfl) hflush fun hc => absurd hc hcalm

theorem keeps_start (what : Transfer) : Stream.Keeps Stream.usage (start what) := by
  cases what with
  | read length => exact Stream.keeps_streamRead false length
  | write buffer => exact Stream.keeps_streamWrite false buffer

theorem Held.awaitTransfer (h : Held s₀ t may s) (hb : (s.world c.dir).io.blocked = false)
    (hs : s.isOpen (s.world c.dir).io = true) : Stops s₀ t may (awaitTransfer t c) s := by
  refine wp_bind.mpr (runs_modifyIo h (fun s₁ h₁ hsame => ?_) fun _ => rfl)
  refine wp_bind.mpr (runs_enter h₁ (by simp) ((hsame.blocked _).trans hb)
    ((hsame.isOpen (h₁.kind.trans h.kind.symm) _).trans hs) fun h₂ => ?_)
  have hkeeps := keeps_start c.what
  refine wp_bind.mpr (runs_unlock.mpr (wp_bind.mpr ?_))
  refine runs_onEnd h₂.unlockObject hkeeps.shared (fun _ => hkeeps) ?_
  intro status s₃ h₃ _
  exact h₃.parkBlocking rfl rfl (fun _ => rfl) False.elim fun _ => trivial

theorem Held.transferReady (h : Held s₀ t may s) (hb : (s.world c.dir).io.blocked = false)
    (hs : s.isOpen (s.world c.dir).io = true) : Stops s₀ t may (transferReady t c) s := by
  simp only [Object.transferReady, getIo, wp_bind, wp_get, wp_pure, wp_require]
  refine ⟨fun _ => ?_, fun _ => by simp⟩
  split
  case h_1 length _ =>
    simp only [wp_ite, wp_bind]
    split
    case isTrue =>
      have hkeeps := Stream.keeps_readCompleteInternally length
      refine runs_onEnd h hkeeps.shared (fun _ => hkeeps) fun n s₁ h₁ _ => ?_
      exact Held.transferred h₁ _
    case isFalse =>
      split
      case isTrue => exact h.transferred _
      case isFalse =>
        split
        case isTrue => exact h.transferred _
        case isFalse => exact h.awaitTransfer hb hs
  case h_2 buffer =>
    simp only [wp_bind, wp_require, wp_ite]
    refine ⟨fun _ => ?_, fun _ => by simp⟩
    split
    case isTrue => exact h.transferred _
    case isFalse =>
      split
      case isTrue => exact h.transferred _
      case isFalse => exact h.awaitTransfer hb hs

theorem Held.synced (h : Held s₀ t may s) (hb : (s.world c.dir).io.blocked = false)
    (hcalm : Calm s₀ → c.blocking = true) : Stops s₀ t may (synced t c) s := by
  simp only [Object.synced, getIo, wp_bind, wp_get, wp_pure, wp_ite]
  split
  case isTrue =>
    split
    case isTrue => exact h.transferred _
    case isFalse hs =>
      split
      case isTrue hprogress =>
        refine h.awaitPending hb False.elim fun hc => ?_
        have := h.calm hc c.dir
        rw [hprogress] at this
        cases this
      case isFalse => exact h.transferReady hb (by simp [State.isOpen, hs])
  case isFalse hblocking =>
    exact h.park rfl rfl (by intros; contradiction) fun hc => absurd (hcalm hc) hblocking

/-! ## Bouncing -/

theorem role_bounced (c : Io) : (Phase.locking (.blocking c.dir) (.bounced c)).role =
    (role .outside [] (some c.dir)).set (.blocking c.dir) .waiting := by
  ext l
  · cases l with
    | object => simp [Phase.role]
    | blocking d =>
      by_cases hd : d = c.dir
      · subst hd; simp [Phase.role, Cont.owned]
      · simp [Phase.role, Cont.owned, hd, Ne.symm hd]
  · rfl
  · rfl

theorem set_outside (x : Standing) (b : Option Dir) (d : Dir) :
    (role x [] b).set (.blocking d) .outside = role x [] b := by
  ext l
  · by_cases hl : l = .blocking d
    · subst hl; simp
    · simp [hl]
  · rfl
  · rfl

/-- A thread that finds the flag set sleeps at the blocking lock. -/
theorem Mid.sleepBlocking (h : Mid s₀ t may (role .outside [] (some c.dir)) s)
    (hb : (s.world c.dir).io.blocked = true) (hcalm : Calm s₀ → c.blocking = true) :
    Runs (Object.lock t (.blocking c.dir) (.bounced c))
      (fun got s' => got = false ∧ Slice s₀ t may s') s := by
  have hgot : ((s.lock (.blocking c.dir)).lock t).1 = false := h.inv.halves.bounce_waits hb
  have hinv := h.inv.bounceSleep (d := c.dir) (by simp) rfl hb fun _ => rfl
  rw [← role_bounced] at hinv
  have hmid : Mid s₀ t may (Phase.locking (.blocking c.dir) (.bounced c)).role
      (s.setLock (.blocking c.dir) ((s.lock (.blocking c.dir)).lock t).2) := h.actLock hinv rfl
  simp only [Object.lock, Object.setLock, wp_bind, wp_get, wp_modify, wp_ite, wp_pure, hgot]
  exact ⟨trivial, hmid.park ⟨List.nodup_nil, rfl⟩ False.elim hcalm⟩

/-- A thread that finds the flag set counts itself in. -/
theorem Held.countIn (h : Held s₀ t may s) {d : Dir} (hb : (s.world d).io.blocked = true)
    (hmay : s₀.waiters d < s.waiters d + 1 → may d) :
    Mid s₀ t may (role .holding [] (some d))
      { s with waiters := Function.update s.waiters d (s.waiters d + 1) } := by
  refine ⟨h.inv.countIn rfl rfl hb fun _ => rfl, h.formed, h.thread, fun d' hd => ?_, h.log,
    h.kind, h.file, h.calm⟩
  by_cases hne : d' = d
  · subst hne; exact hmay (by simpa using hd)
  · exact h.waiters d' (by simpa [hne] using hd)

theorem Held.transfer (h : Held s₀ t may s)
    (hmay : c.blocking = true → s₀.waiters c.dir < s.waiters c.dir + 1 → may c.dir)
    (hcalm : Calm s₀ → c.blocking = true) : Stops s₀ t may (transfer t c) s := by
  simp only [Object.transfer, ioSync, getIo, wp_bind, wp_get, wp_pure, wp_ite]
  split
  case isTrue hb =>
    split
    case isTrue => exact h.leave _
    case isFalse hblocking =>
      refine wp_modify.mpr (runs_unlock.mpr ?_)
      have hmay := hmay (by simpa using hblocking)
      refine wp_mono ((h.countIn hb hmay).unlockObject.sleepBlocking hb hcalm) ?_
      rintro _ s₁ ⟨rfl, hslice⟩
      exact hslice
  case isFalse hb => exact h.synced (by simpa using hb) hcalm

/-- A thread that bounced counts itself out, and tries again. -/
theorem Mid.retry (h : Mid s₀ t may (role .holding [] (some c.dir)) s)
    (hwaiters : s.waiters = s₀.waiters) (hcalm : Calm s₀ → c.blocking = true) :
    Stops s₀ t may (retry t c) s := by
  have hpos : 0 < s.waiters c.dir := by
    rw [show s.waiters c.dir = _ from h.inv.waiters c.dir, Count.count_pos_iff]
    exact ⟨t, by simp⟩
  have hinv := h.inv.countOut (d := c.dir) rfl (by simp) fun _ => rfl
  refine wp_bind.mpr (wp_modify.mpr (Held.transfer (h.act hinv rfl ?_ rfl rfl fun _ _ => rfl) ?_ hcalm))
  · intro d
    by_cases hd : d = c.dir
    · subst hd; simp
    · simp [hd]
  · intro _ hlt
    simp only [Function.update_self] at hlt
    rw [hwaiters] at hpos hlt
    omega

/-- A thread that has bounced tries to get the object's lock again. -/
theorem Mid.bounced (h : Mid s₀ t may (role .outside [] (some c.dir)) s)
    (hwaiters : s.waiters = s₀.waiters) (hcalm : Calm s₀ → c.blocking = true) :
    Stops s₀ t may (do if ← Object.lock t .object (.retry c) then Object.retry t c) s := by
  refine wp_bind.mpr (wp_mono (h.lock rfl rfl ⟨List.nodup_nil, trivial⟩ False.elim hcalm) ?_)
  intro got s₁ hlocked
  cases got with
  | false => exact hlocked
  | true =>
    obtain ⟨h₁, ⟨lk, rfl⟩, _⟩ := hlocked
    exact h₁.retry hwaiters hcalm

theorem State.setLock_unlocked (s : State T) (l : LockId) (lk : Lock T) :
    (s.setLock l lk).unlocked l = s.setLock l lk.unlock := by
  simp [State.unlocked, State.setLock]

/-- A thread that sleeps at a blocking lock is woken. -/
theorem Good.bounced (h : Good s) (ht : s.thread t = .locking (.blocking c.dir) (.bounced c)) :
    Stops s t may (do if ← Object.relock t (.blocking c.dir) then acquired t (.bounced c)) s := by
  have hrole : s.roles t = (role .outside [] (some c.dir)).set (.blocking c.dir) .waiting := by
    rw [State.roles, ht]
    exact role_bounced c
  have hcalm : Calm s → c.blocking = true := fun hc => by
    have := hc.plain t
    rwa [ht] at this
  have hmid := h.mid t may
  rw [hrole] at hmid
  simp only [Object.relock, Object.setLock, acquired, Object.bounced, wp_bind, wp_get, wp_require,
    wp_modify, wp_pure, wp_ite]
  refine ⟨fun hq => ?_, fun _ => by simp⟩
  split
  case isTrue hgot =>
    have hinv := hmid.inv.bounced (by simp) hq hgot fun _ => rfl
    rw [Role.set_set, set_outside] at hinv
    have hmid : Mid s t may (role .outside [] (some c.dir)) (s.setLock (.blocking c.dir)
        ((s.lock (.blocking c.dir)).relock t).2.unlock) := hmid.actLock hinv rfl
    rw [← State.setLock_unlocked] at hmid
    have hstops := hmid.bounced rfl hcalm
    simp only [wp_bind, wp_ite, wp_pure] at hstops
    exact runs_unlock.mpr hstops
  case isFalse hgot =>
    have hinv := hmid.inv.rebounce (by simp) hq (Bool.eq_false_iff.mpr hgot) fun _ => rfl
    rw [Role.set_set, ← role_bounced] at hinv
    have hmid : Mid s t may (Phase.locking (.blocking c.dir) (.bounced c)).role
        (s.setLock (.blocking c.dir) ((s.lock (.blocking c.dir)).relock t).2) := hmid.actLock hinv rfl
    have hslice := hmid.park ⟨List.nodup_nil, rfl⟩ False.elim hcalm
    have hself : (s.setLock (.blocking c.dir) ((s.lock (.blocking c.dir)).relock t).2).parked t
        (.locking (.blocking c.dir) (.bounced c)) =
        s.setLock (.blocking c.dir) ((s.lock (.blocking c.dir)).relock t).2 := by
      simp [State.parked, State.setLock, ← ht]
    rwa [hself] at hslice

/-! ## The rest of the calls -/

theorem Held.nonblocking (h : Held s₀ t may s) (hcalm : ¬ Calm s₀) :
    Stops s₀ t may (nonblocking t c) s := by
  unfold Object.nonblocking
  split
  case h_1 length _ =>
    refine wp_bind.mpr (runs_onEnd h (Stream.keeps_readSynced c.timeout length)
      (fun hc => absurd hc hcalm) fun n s₁ h₁ _ => ?_)
    exact Held.transferred h₁ _
  case h_2 buffer _ =>
    refine wp_bind.mpr (runs_onEnd h (Stream.keeps_writeSynced c.timeout buffer)
      (fun hc => absurd hc hcalm) fun n s₁ h₁ _ => ?_)
    exact Held.transferred h₁ _

/-- A file's stream is opened when nobody uses the half. -/
theorem Held.getStream (h : Held s₀ t may s) (what : Transfer) (dontwait : Bool) :
    Runs (getStream t what dontwait) (fun c s' => Held s₀ t may s' ∧ s'.waiters = s.waiters ∧
      c.what = what ∧ (s.kind = .file → c.blocking = true) ∧
      (s.kind = .tcp → c.blocking = (s.blocking && !dontwait))) s := by
  simp only [Object.getStream, getIo, wp_bind, wp_get]
  split
  case h_1 hkind => exact ⟨h, rfl, rfl, by simp [hkind], fun _ => rfl⟩
  case h_2 hkind =>
    simp only [wp_bind, wp_get, wp_pure, wp_ite, hkind]
    split
    case isTrue hs =>
      have habsent := h.inv.absent what.dir (by simp [State.view, State.isOpen, hs, hkind])
      refine runs_ioStateInit h habsent.1 habsent.2 fun s₁ h₁ hwaiters₁ => ?_
      exact wp_modify.mpr ⟨h₁.same (by rfl) (by rfl), hwaiters₁, trivial, fun _ => trivial, nofun⟩
    case isFalse => exact ⟨h, trivial, trivial, fun _ => trivial, nofun⟩

theorem Mid.transferEnd (h : Mid s₀ t may (role .holding [c.dir] none) s)
    (amount : Except Errno Nat) (done : Bool) :
    Stops s₀ t may (transferEnd t c amount done) s := by
  refine wp_bind.mpr (runs_exit h (by simp) fun h₁ => ?_)
  simp only [wp_ite]
  cases done with
  | true =>
    exact wp_bind.mpr (runs_modifyIo h₁ (fun s₂ h₂ _ => Held.transferred h₂ _) fun _ => rfl)
  | false => exact Held.transferred h₁ _

end WasiLibc.Object
