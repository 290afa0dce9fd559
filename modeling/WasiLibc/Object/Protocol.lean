import WasiLibc.Lock.Halves

/-!
# WasiLibc.Object.Protocol

How threads share the I/O states of an object, without what they transfer.

A `View` has the locks and the flags of the halves, whether they are open,
and `blocking_waiters`.  `Inv` adds to `Halves.Inv` that the counters
count the threads that bounce, and that a half which is about to be closed, or
is not open, is not in use.  Each act of a thread has a lemma; the role of
the thread that runs is given apart from those of the others.
-/

namespace WasiLibc.Object

open Count Function Futex

variable {T : Threads}

/-- What the threads share. -/
structure View (T : Threads) extends Halves T where
  present : Dir → Bool
  waiters : Dir → Nat

/-- The view with other locks and flags. -/
def View.set (v : View T) (h : Halves T) : View T := { v with toHalves := h }

@[simp] theorem View.set_waiters (v : View T) (h : Halves T) : (v.set h).waiters = v.waiters := rfl

@[simp] theorem View.set_present (v : View T) (h : Halves T) : (v.set h).present = v.present := rfl

@[simp] theorem View.set_blocked (v : View T) (h : Halves T) : (v.set h).blocked = h.blocked := rfl

/-- The number of threads that bounce on a half. -/
abbrev bouncers (d : Dir) (role : Tid T → Role) : Nat :=
  count (fun r : Role => r.bounces = some d) role

/-- Locks, flags and counters are as the roles say. -/
structure Inv (v : View T) (role : Tid T → Role) : Prop where
  halves : v.toHalves.Inv role
  waiters : ∀ d, v.waiters d = bouncers d role
  bounce : ∀ u d, (role u).at_ (.blocking d) = .waiting → (role u).bounces = some d
  clear : ∀ u d, (role u).clear d = true →
    (role u).at_ .object = .holding ∧ v.blocked d = false ∧ v.waiters d = 0
  absent : ∀ d, v.present d = false → v.blocked d = false ∧ v.waiters d = 0

variable {v v' : View T} {role : Tid T → Role} {t : Tid T} {r r' : Role} {d : Dir}

/-- An act of one thread. -/
theorem Inv.act (hi : Inv v (update role t r))
    (hh : v'.toHalves.Inv (update role t r'))
    (hwaiters : ∀ d, v'.waiters d = bouncers d (update role t r'))
    (hbounce : ∀ d, r'.at_ (.blocking d) = .waiting → r'.bounces = some d)
    (hclear : ∀ d, r'.clear d = true →
      r'.at_ .object = .holding ∧ v'.blocked d = false ∧ v'.waiters d = 0)
    (hothers : ∀ u ≠ t, ∀ d, (role u).clear d = true → v'.blocked d = false ∧ v'.waiters d = 0)
    (habsent : ∀ d, v'.present d = false → v'.blocked d = false ∧ v'.waiters d = 0) :
    Inv v' (update role t r') where
  halves := hh
  waiters := hwaiters
  bounce := by
    intro u d
    by_cases hu : u = t
    · subst hu; simpa using hbounce d
    · have := hi.bounce u d
      simpa [hu] using this
  clear := by
    intro u d
    by_cases hu : u = t
    · subst hu; simpa using hclear d
    · intro hc
      have hc : (role u).clear d = true := by simpa [hu] using hc
      refine ⟨?_, hothers u hu d hc⟩
      have := (hi.clear u d (by simpa [hu] using hc)).1
      simpa [hu] using this
  absent := habsent

/-- Only the thread that holds the object's lock may have found a half
unused. -/
theorem Inv.not_clear (hi : Inv v (update role t r)) (ht : r.at_ .object = .holding)
    {u : Tid T} (hu : u ≠ t) : (role u).clear d = false := by
  by_contra hc
  have hholds := (hi.clear u d (by simpa [hu] using hc)).1
  exact hu ((hi.halves.locks .object).unique u t hholds (by simpa [standings] using ht))

theorem bouncers_congr (h : r'.bounces = r.bounces) (d : Dir) :
    bouncers d (update role t r') = bouncers d (update role t r) := by
  have := count_update_of_iff (p := fun r : Role => r.bounces = some d)
    (f := update role t r) (i := t) (a := r') (by simp [h])
  rwa [update_idem] at this

/-- An act that changes standings only. -/
theorem Inv.stand {h : Halves T} (hi : Inv v (update role t r))
    (hh : h.Inv (update role t r')) (hbounces : r'.bounces = r.bounces)
    (hbounce : ∀ d, r'.at_ (.blocking d) = .waiting → r.bounces = some d)
    (hclear : ∀ d, r'.clear d = false)
    (hblocked : ∀ d, h.blocked d = true → v.blocked d = true) :
    Inv (v.set h) (update role t r') := by
  have hfalse : ∀ d, v.blocked d = false → h.blocked d = false := by
    intro d hd
    by_contra hb
    have := hblocked d (by simpa using hb)
    rw [hd] at this
    cases this
  refine hi.act hh (fun d => ?_) (fun d hd => ?_) (fun d hd => ?_) (fun u hu d hc => ?_)
    (fun d hd => ?_)
  · rw [bouncers_congr hbounces]
    exact hi.waiters d
  · rw [hbounces]
    exact hbounce d hd
  · rw [hclear] at hd
    cases hd
  · have := hi.clear u d (by simpa [hu] using hc)
    exact ⟨hfalse d this.2.1, this.2.2⟩
  · have := hi.absent d hd
    exact ⟨hfalse d this.1, this.2⟩

/-- The standing at a blocking lock tells of a bounce. -/
theorem Inv.bounce_self (hi : Inv v (update role t r))
    (hd : r.at_ (.blocking d) = .waiting) : r.bounces = some d := by
  have := hi.bounce t d (by simpa using hd)
  simpa using this

/-! ## The object's lock -/

theorem Inv.lockObject (hi : Inv v (update role t r)) (ht : r.at_ .object = .outside)
    (hc : ∀ d, r.clear d = false) :
    Inv (v.set (v.setLock .object ((v.lock .object).lock t).2))
      (update role t (r.set .object (Lock.standing ((v.lock .object).lock t).1))) :=
  hi.stand (hi.halves.lockObject ht) rfl (fun d hd => hi.bounce_self (by simpa using hd)) hc
    fun _ h => h

theorem Inv.relockObject (hi : Inv v (update role t r)) (ht : r.at_ .object = .waiting)
    (hc : ∀ d, r.clear d = false) (hq : t ∉ (v.lock .object).queue) :
    Inv (v.set (v.setLock .object ((v.lock .object).relock t).2))
      (update role t (r.set .object (Lock.standing ((v.lock .object).relock t).1))) :=
  hi.stand (hi.halves.relockObject ht hq) rfl (fun d hd => hi.bounce_self (by simpa using hd)) hc
    fun _ h => h

theorem Inv.unlockObject (hi : Inv v (update role t r)) (ht : r.at_ .object = .holding)
    (hc : ∀ d, r.clear d = false) :
    Inv (v.set (v.setLock .object (v.lock .object).unlock))
      (update role t (r.set .object .outside)) :=
  hi.stand (hi.halves.unlockObject ht) rfl (fun d hd => hi.bounce_self (by simpa using hd)) hc
    fun _ h => h

/-! ## Blocking operations -/

theorem Inv.enter (hi : Inv v (update role t r)) (ht : r.at_ .object = .holding)
    (hd : r.at_ (.blocking d) = .outside) (hb : v.blocked d = false) (hp : v.present d = true)
    (hc : ∀ d, r.clear d = false) :
    Inv (v.set ((v.setBlocked d true).setLock (.blocking d) ((v.lock (.blocking d)).lock t).2))
      (update role t (r.set (.blocking d) .holding)) := by
  refine hi.act (hi.halves.enter hb hd) (fun d' => ?_) (fun d' hd' => ?_) (fun d' hd' => ?_)
    (fun u hu d' hc' => ?_) (fun d' hd' => ?_)
  · exact (hi.waiters d').trans (bouncers_congr (Role.set_bounces r _ _) d').symm
  · have hne : d' ≠ d := by rintro rfl; simp at hd'
    exact hi.bounce_self (by simpa [hne] using hd')
  · rw [Role.set_clear, hc] at hd'
    cases hd'
  · rw [hi.not_clear ht hu] at hc'
    cases hc'
  · have hne : d' ≠ d := by rintro rfl; simp [hp] at hd'
    have := hi.absent d' hd'
    exact ⟨by simpa [Halves.setLock, Halves.setBlocked, hne] using this.1, this.2⟩

theorem Inv.exit (hi : Inv v (update role t r))
    (hd : r.at_ (.blocking d) = .holding) (hc : ∀ d, r.clear d = false) :
    Inv (v.set ((v.setLock (.blocking d) (v.lock (.blocking d)).unlock).setBlocked d false))
      (update role t (r.set (.blocking d) .outside)) := by
  refine hi.stand (hi.halves.exit hd) rfl (fun d' hd' => ?_) hc (fun d' hd' => ?_)
  · have hne : d' ≠ d := by rintro rfl; simp at hd'
    exact hi.bounce_self (by simpa [hne] using hd')
  · by_cases hne : d' = d
    · subst hne; simp [Halves.setBlocked] at hd'
    · simpa [Halves.setBlocked, Halves.setLock, hne] using hd'


/-! ## Bouncing -/

/-- The role of a thread that bounces on a half, or has done so. -/
def bouncing (r : Role) (b : Option Dir) : Role := { r with bounces := b }

theorem bouncers_bouncing (hr : r.bounces = none) (d d' : Dir) :
    bouncers d' (update role t (bouncing r (some d))) =
      bouncers d' (update role t r) + if d' = d then 1 else 0 := by
  have := count_update (p := fun r : Role => r.bounces = some d') (update role t r) t
    (bouncing r (some d))
  rw [update_idem] at this
  simpa [bouncing, hr, eq_comm] using this

/-- Who bounces does not matter to locks and flags. -/
theorem Inv.halves_bouncing (hi : Inv v (update role t r)) (b : Option Dir) :
    v.toHalves.Inv (update role t (bouncing r b)) := by
  refine hi.halves.congr fun u => ?_
  by_cases hu : u = t
  · subst hu; simp [bouncing]
  · simp [hu]

/-- A thread that finds the flag set counts itself in. -/
theorem Inv.countIn (hi : Inv v (update role t r)) (ht : r.at_ .object = .holding)
    (hr : r.bounces = none) (hb : v.blocked d = true) (hc : ∀ d, r.clear d = false) :
    Inv { v with waiters := update v.waiters d (v.waiters d + 1) }
      (update role t (bouncing r (some d))) := by
  have hwaiters : ∀ d', update v.waiters d (v.waiters d + 1) d' =
      v.waiters d' + if d' = d then 1 else 0 := by
    intro d'
    by_cases hd : d' = d
    · subst hd; simp
    · simp [hd]
  refine hi.act (hi.halves_bouncing _) (fun d' => ?_) (fun d' hd' => ?_) (fun d' hd' => ?_)
    (fun u hu d' hc' => ?_) (fun d' hd' => ?_)
  · rw [bouncers_bouncing hr, ← hi.waiters d']
    exact hwaiters d'
  · have := hi.bounce_self hd'
    rw [hr] at this
    cases this
  · rw [show (bouncing r (some d)).clear d' = false from hc d'] at hd'
    cases hd'
  · rw [hi.not_clear ht hu] at hc'
    cases hc'
  · have habsent := hi.absent d' hd'
    have hne : d' ≠ d := by
      rintro rfl
      rw [hb] at habsent
      cases habsent.1
    refine ⟨habsent.1, (hwaiters d').trans ?_⟩
    rw [if_neg hne, Nat.add_zero]
    exact habsent.2

/-- A thread that is out of the blocking lock counts itself out. -/
theorem Inv.countOut (hi : Inv v (update role t r)) (hr : r.bounces = some d)
    (hw : ∀ d, r.at_ (.blocking d) ≠ .waiting) (hc : ∀ d, r.clear d = false) :
    Inv { v with waiters := update v.waiters d (v.waiters d - 1) }
      (update role t (bouncing r none)) := by
  have hcount : ∀ d', bouncers d' (update role t r) =
      bouncers d' (update role t (bouncing r none)) + if d' = d then 1 else 0 := by
    intro d'
    rw [← bouncers_bouncing (by simp [bouncing])]
    exact bouncers_congr (by simp [bouncing, hr]) d'
  have hwaiters : ∀ d', update v.waiters d (v.waiters d - 1) d' =
      bouncers d' (update role t (bouncing r none)) := by
    intro d'
    have hd' := hi.waiters d'
    rw [hcount] at hd'
    by_cases hd : d' = d
    · subst hd
      rw [update_self, hd', if_pos rfl]
      omega
    · rw [update_of_ne hd, hd', if_neg hd]
      omega
  have hle : ∀ d', v.waiters d' = 0 → update v.waiters d (v.waiters d - 1) d' = 0 := by
    intro d' h0
    by_cases hd : d' = d
    · subst hd; simp [h0]
    · simpa [hd] using h0
  refine hi.act (hi.halves_bouncing _) hwaiters (fun d' hd' => ?_) (fun d' hd' => ?_)
    (fun u hu d' hc' => ?_) (fun d' hd' => ?_)
  · exact (hw d' hd').elim
  · rw [show (bouncing r none).clear d' = false from hc d'] at hd'
    cases hd'
  · have := hi.clear u d' (by simpa [hu] using hc')
    exact ⟨this.2.1, hle d' this.2.2⟩
  · have := hi.absent d' hd'
    exact ⟨this.1, hle d' this.2⟩

/-- A thread falls asleep at the blocking lock. -/
theorem Inv.bounceSleep (hi : Inv v (update role t r))
    (hd : r.at_ (.blocking d) = .outside) (hr : r.bounces = some d) (hb : v.blocked d = true)
    (hc : ∀ d, r.clear d = false) :
    Inv (v.set (v.setLock (.blocking d) ((v.lock (.blocking d)).lock t).2))
      (update role t (r.set (.blocking d) .waiting)) := by
  refine hi.stand (hi.halves.bounce hb hd) rfl (fun d' hd' => ?_) hc fun _ h => h
  by_cases hne : d' = d
  · subst hne; exact hr
  · exact hi.bounce_self (by simpa [hne] using hd')

/-- A thread that was woken at the blocking lock sleeps on. -/
theorem Inv.rebounce (hi : Inv v (update role t r))
    (hd : r.at_ (.blocking d) = .waiting) (hq : t ∉ (v.lock (.blocking d)).queue)
    (hgot : ((v.lock (.blocking d)).relock t).1 = false) (hc : ∀ d, r.clear d = false) :
    Inv (v.set (v.setLock (.blocking d) ((v.lock (.blocking d)).relock t).2))
      (update role t (r.set (.blocking d) .waiting)) := by
  refine hi.stand (hi.halves.rebounce hd hq hgot) rfl (fun d' hd' => ?_) hc fun _ h => h
  by_cases hne : d' = d
  · subst hne; exact hi.bounce_self hd
  · exact hi.bounce_self (by simpa [hne] using hd')

/-- A thread that was woken at the blocking lock leaves it. -/
theorem Inv.bounced (hi : Inv v (update role t r))
    (hd : r.at_ (.blocking d) = .waiting) (hq : t ∉ (v.lock (.blocking d)).queue)
    (hgot : ((v.lock (.blocking d)).relock t).1 = true) (hc : ∀ d, r.clear d = false) :
    Inv (v.set (v.setLock (.blocking d) ((v.lock (.blocking d)).relock t).2.unlock))
      (update role t (r.set (.blocking d) .outside)) := by
  refine hi.stand (hi.halves.bounced hd hq hgot) rfl (fun d' hd' => ?_) hc fun _ h => h
  have hne : d' ≠ d := by rintro rfl; simp at hd'
  exact hi.bounce_self (by simpa [hne] using hd')

/-! ## Closing -/

/-- A half that is neither blocked nor waited for is not used by any
thread. -/
theorem Inv.unused (hi : Inv v role) (hb : v.blocked d = false) (hw : v.waiters d = 0)
    (u : Tid T) : ¬ (role u).Uses d := by
  have hbounces : (role u).bounces ≠ some d := by
    rw [hi.waiters d, count_eq_zero_iff] at hw
    exact hw u
  rintro (hat | hbounce)
  · cases hs : (role u).at_ (.blocking d) with
    | outside => exact hat hs
    | waiting => exact hbounces (hi.bounce u d hs)
    | holding => exact hi.halves.not_holding hb u hs
  · exact hbounces hbounce

/-- Nor is its blocking lock. -/
theorem Inv.word_eq_zero (hi : Inv v role) (hb : v.blocked d = false) (hw : v.waiters d = 0) :
    (v.lock (.blocking d)).word = 0 := by
  have houtside : ∀ u, standings role (.blocking d) u = .outside := by
    intro u
    by_contra hat
    exact hi.unused hb hw u (.inl hat)
  rw [(hi.halves.locks (.blocking d)).free (by simp [houtside])]
  have : Lock.waiting (standings role (.blocking d)) = 0 :=
    count_eq_zero_iff.mpr (by simp [houtside])
  omega

/-- The thread that has found halves unused remembers it, or forgets it. -/
theorem Inv.setClear (hi : Inv v (update role t r)) {c : Dir → Bool}
    (hc : ∀ d, c d = true → r.at_ .object = .holding ∧ v.blocked d = false ∧ v.waiters d = 0) :
    Inv v (update role t { r with clear := c }) := by
  refine hi.act (hi.halves.congr fun u => ?_) (fun d => ?_) (fun d hd => hi.bounce_self hd) hc
    (fun u hu d hd => (hi.clear u d (by simpa [hu] using hd)).2) hi.absent
  · by_cases hu : u = t
    · subst hu; simp
    · simp [hu]
  · exact (hi.waiters d).trans
      (bouncers_congr (show ({ r with clear := c } : Role).bounces = r.bounces from rfl) d).symm

/-- What a half that is not used looks like after it was zeroed, or opened. -/
theorem Inv.setPresent (hi : Inv v role) {p : Bool}
    (hd : p = false → v.blocked d = false ∧ v.waiters d = 0) :
    Inv { v with present := update v.present d p } role := by
  refine ⟨hi.halves, hi.waiters, hi.bounce, hi.clear, fun d' hd' => ?_⟩
  by_cases hne : d' = d
  · subst hne; exact hd (by simpa using hd')
  · exact hi.absent d' (by simpa [hne] using hd')

end WasiLibc.Object
