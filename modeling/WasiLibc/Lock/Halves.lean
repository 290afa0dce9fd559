import WasiLibc.Lock.Word

/-!
# WasiLibc.Lock.Halves

The discipline by which threads share an object with two halves, one to read
and one to write: a TCP socket, a file or a UDP socket.

The object has a lock, which is given up during operations that block.  A
thread that starts such an operation on a half sets the half's flag and takes
the half's blocking lock for as long as the operation lasts; a thread that
finds the flag set bounces on the blocking lock.  `Halves.Inv` joins locks and
flags to what the threads do, their roles.
-/

namespace WasiLibc

open Function Futex

variable {T : Threads}

/-- A half of an object. -/
inductive Dir where
  | read
  | write
  deriving DecidableEq, Repr

/-- The locks of an object: its own one, and the blocking locks. -/
inductive LockId where
  | object
  | blocking (d : Dir)
  deriving DecidableEq, Repr

/-- What a thread does: its standing at each lock, the half whose blocking
operation it waits to end, if it has left the object's lock for that, and the
halves that it has found unused and means to close. -/
@[ext]
structure Role where
  at_ : LockId → Standing
  bounces : Option Dir
  clear : Dir → Bool

namespace Role

/-- A thread that does nothing with the object. -/
def away : Role := ⟨fun _ => .outside, none, fun _ => false⟩

/-- The role with another standing at one lock. -/
def set (r : Role) (l : LockId) (x : Standing) : Role :=
  { r with at_ := update r.at_ l x }

/-- The thread is in a blocking operation on the half, or waits for one to
end. -/
def Uses (r : Role) (d : Dir) : Prop := r.at_ (.blocking d) ≠ .outside ∨ r.bounces = some d

instance (r : Role) (d : Dir) : Decidable (r.Uses d) := inferInstanceAs (Decidable (_ ∨ _))

@[simp] theorem set_at_self (r : Role) (l : LockId) (x : Standing) : (r.set l x).at_ l = x := by
  simp [set]

@[simp] theorem set_at_of_ne (r : Role) {l l' : LockId} (x : Standing) (h : l' ≠ l) :
    (r.set l x).at_ l' = r.at_ l' := by
  simp [set, h]

@[simp] theorem set_bounces (r : Role) (l : LockId) (x : Standing) :
    (r.set l x).bounces = r.bounces := rfl

@[simp] theorem set_clear (r : Role) (l : LockId) (x : Standing) :
    (r.set l x).clear = r.clear := rfl

@[simp] theorem set_set (r : Role) (l : LockId) (x y : Standing) :
    (r.set l x).set l y = r.set l y := by
  simp [set]

end Role

/-- The standings of all threads at a lock. -/
def standings (role : Tid T → Role) (l : LockId) (u : Tid T) : Standing := (role u).at_ l

theorem standings_update (role : Tid T → Role) (t : Tid T) (r : Role) (l : LockId) :
    standings (update role t r) l = update (standings role l) t (r.at_ l) := by
  funext u
  by_cases h : u = t
  · subst h; simp [standings]
  · simp [standings, h]

/-- The locks and flags of an object. -/
structure Halves (T : Threads) where
  lock : LockId → Lock T
  blocked : Dir → Bool

namespace Halves

/-- The halves with another state of one lock. -/
def setLock (h : Halves T) (l : LockId) (lk : Lock T) : Halves T :=
  { h with lock := update h.lock l lk }

/-- The halves with another flag. -/
def setBlocked (h : Halves T) (d : Dir) (b : Bool) : Halves T :=
  { h with blocked := update h.blocked d b }

/-- Locks and flags are as the roles say. -/
structure Inv (h : Halves T) (role : Tid T → Role) : Prop where
  locks : ∀ l, (h.lock l).Inv (standings role l)
  blocked : ∀ d, h.blocked d = true ↔ ∃ u, (role u).at_ (.blocking d) = .holding

variable {h : Halves T} {role : Tid T → Role} {t : Tid T} {r : Role} {d : Dir}

theorem inv_initial : Inv (⟨fun _ => .unlocked, fun _ => false⟩ : Halves T) fun _ => .away where
  locks := fun _ => Lock.inv_unlocked
  blocked := by simp [Role.away]

/-- Only the standings matter. -/
theorem Inv.congr {role' : Tid T → Role} (hi : h.Inv role)
    (heq : ∀ u, (role' u).at_ = (role u).at_) : h.Inv role' where
  locks := fun l => by
    have : standings role' l = standings role l := funext fun u => congrFun (heq u) l
    rw [this]
    exact hi.locks l
  blocked := fun d => by simpa only [heq] using hi.blocked d

/-- One lock changes, and the standing of one thread at it. -/
theorem Inv.change {l : LockId} {x : Standing} {lk : Lock T} {blocked : Dir → Bool}
    (hi : h.Inv (update role t r))
    (hlk : lk.Inv (update (standings (update role t r) l) t x))
    (hb : ∀ d, blocked d = true ↔
      ∃ u, (update role t (r.set l x) u).at_ (.blocking d) = .holding) :
    Inv ⟨update h.lock l lk, blocked⟩ (update role t (r.set l x)) := by
  refine ⟨fun l' => ?_, hb⟩
  rw [standings_update]
  by_cases hl : l' = l
  · subst hl
    rw [standings_update, update_idem] at hlk
    simpa using hlk
  · have := hi.locks l'
    rw [standings_update] at this
    simpa [hl] using this

/-- Nobody else begins or ends to hold a blocking lock. -/
theorem Inv.blocked_set {l : LockId} {x : Standing} (hi : h.Inv (update role t r))
    (hx : ∀ d, l = .blocking d → (x = .holding ↔ r.at_ l = .holding)) (d : Dir) :
    h.blocked d = true ↔
      ∃ u, (update role t (r.set l x) u).at_ (.blocking d) = .holding := by
  rw [hi.blocked d]
  refine exists_congr fun u => ?_
  by_cases hu : u = t
  · subst hu
    simp only [update_self]
    by_cases hl : LockId.blocking d = l
    · subst hl
      simpa using (hx d rfl).symm
    · rw [Role.set_at_of_ne _ _ hl]
  · simp [hu]

/-! ## The object's lock -/

theorem Inv.lockObject (hi : h.Inv (update role t r)) (ht : r.at_ .object = .outside) :
    (h.setLock .object ((h.lock .object).lock t).2).Inv
      (update role t (r.set .object (Lock.standing ((h.lock .object).lock t).1))) := by
  refine hi.change ((hi.locks .object).lock ?_) (hi.blocked_set ?_)
  · rw [standings_update]; simpa using ht
  · simp

theorem Inv.relockObject (hi : h.Inv (update role t r)) (ht : r.at_ .object = .waiting)
    (hq : t ∉ (h.lock .object).queue) :
    (h.setLock .object ((h.lock .object).relock t).2).Inv
      (update role t (r.set .object (Lock.standing ((h.lock .object).relock t).1))) := by
  refine hi.change ((hi.locks .object).relock ?_ hq) (hi.blocked_set ?_)
  · rw [standings_update]; simpa using ht
  · simp

theorem Inv.unlockObject (hi : h.Inv (update role t r))
    (ht : r.at_ .object = .holding) :
    (h.setLock .object (h.lock .object).unlock).Inv
      (update role t (r.set .object .outside)) := by
  refine hi.change ((hi.locks .object).unlock ?_) (hi.blocked_set ?_)
  · rw [standings_update]; simpa using ht
  · simp

/-! ## The blocking locks -/

/-- Nobody holds the blocking lock of a half whose flag is clear. -/
theorem Inv.not_holding (hi : h.Inv role) (hb : h.blocked d = false) (u : Tid T) :
    standings role (.blocking d) u ≠ .holding := by
  intro hu
  have := (hi.blocked d).mpr ⟨u, hu⟩
  rw [hb] at this
  cases this

/-- A thread that sets a clear flag gets the blocking lock at once. -/
theorem Inv.enter_got (hi : h.Inv role) (hb : h.blocked d = false) :
    ((h.lock (.blocking d)).lock t).1 = true :=
  (hi.locks _).lock_iff.mpr (hi.not_holding hb)

theorem Inv.enter (hi : h.Inv (update role t r)) (hb : h.blocked d = false)
    (ht : r.at_ (.blocking d) = .outside) :
    ((h.setBlocked d true).setLock (.blocking d) ((h.lock (.blocking d)).lock t).2).Inv
      (update role t (r.set (.blocking d) .holding)) := by
  have hlk := (hi.locks (.blocking d)).lock (t := t) (by rw [standings_update]; simpa using ht)
  rw [hi.enter_got hb] at hlk
  refine hi.change hlk fun d' => ?_
  by_cases hd : d' = d
  · subst hd
    simp only [setBlocked, update_self, true_iff]
    exact ⟨t, by simp⟩
  · simp only [setBlocked, update_of_ne hd]
    rw [hi.blocked d']
    refine exists_congr fun u => ?_
    by_cases hu : u = t
    · subst hu; simp [hd]
    · simp [hu]

theorem Inv.exit (hi : h.Inv (update role t r))
    (ht : r.at_ (.blocking d) = .holding) :
    ((h.setLock (.blocking d) (h.lock (.blocking d)).unlock).setBlocked d false).Inv
      (update role t (r.set (.blocking d) .outside)) := by
  have hholds : standings (update role t r) (.blocking d) t = .holding := by
    rw [standings_update]; simpa using ht
  refine hi.change ((hi.locks (.blocking d)).unlock hholds) fun d' => ?_
  by_cases hd : d' = d
  · subst hd
    simp only [setLock, update_self, Bool.false_eq_true, false_iff, not_exists]
    intro u
    by_cases hu : u = t
    · subst hu; simp
    · intro hhold
      refine hu ((hi.locks (.blocking d')).unique u t ?_ hholds)
      simpa [standings, hu] using hhold
  · simp only [setLock, update_of_ne hd]
    rw [hi.blocked d']
    refine exists_congr fun u => ?_
    by_cases hu : u = t
    · subst hu; simp [hd]
    · simp [hu]

/-- A thread that finds the flag set falls asleep at the blocking lock. -/
theorem Inv.bounce_waits (hi : h.Inv role) (hb : h.blocked d = true) :
    ((h.lock (.blocking d)).lock t).1 = false := by
  obtain ⟨u, hu⟩ := (hi.blocked d).mp hb
  by_contra hgot
  exact (hi.locks (.blocking d)).lock_iff.mp (by simpa using hgot) u hu

theorem Inv.bounce (hi : h.Inv (update role t r)) (hb : h.blocked d = true)
    (ht : r.at_ (.blocking d) = .outside) :
    (h.setLock (.blocking d) ((h.lock (.blocking d)).lock t).2).Inv
      (update role t (r.set (.blocking d) .waiting)) := by
  have hlk := (hi.locks (.blocking d)).lock (t := t) (by rw [standings_update]; simpa using ht)
  rw [hi.bounce_waits hb] at hlk
  refine hi.change hlk (hi.blocked_set ?_)
  simp [ht]

/-- A thread that was woken at the blocking lock and does not get it goes on
sleeping. -/
theorem Inv.rebounce (hi : h.Inv (update role t r))
    (ht : r.at_ (.blocking d) = .waiting) (hq : t ∉ (h.lock (.blocking d)).queue)
    (hgot : ((h.lock (.blocking d)).relock t).1 = false) :
    (h.setLock (.blocking d) ((h.lock (.blocking d)).relock t).2).Inv
      (update role t (r.set (.blocking d) .waiting)) := by
  have hlk := (hi.locks (.blocking d)).relock (t := t) (by rw [standings_update]; simpa using ht) hq
  rw [hgot] at hlk
  refine hi.change hlk (hi.blocked_set ?_)
  simp [ht]

/-- A thread that gets the blocking lock after a wait gives it up again, and
is out of it. -/
theorem Inv.bounced (hi : h.Inv (update role t r))
    (ht : r.at_ (.blocking d) = .waiting) (hq : t ∉ (h.lock (.blocking d)).queue)
    (hgot : ((h.lock (.blocking d)).relock t).1 = true) :
    (h.setLock (.blocking d) ((h.lock (.blocking d)).relock t).2.unlock).Inv
      (update role t (r.set (.blocking d) .outside)) := by
  have hlk := (hi.locks (.blocking d)).relock (t := t) (by rw [standings_update]; simpa using ht) hq
  rw [hgot] at hlk
  have hlk := hlk.unlock (t := t) (by simp [Lock.standing])
  rw [update_idem] at hlk
  refine hi.change hlk (hi.blocked_set ?_)
  simp [ht]

end Halves

/-! ## Roles of threads at switch points -/

/-- The role of a thread with its standing at the object's lock, the halves
that it owns and the one that it bounces on. -/
def role (x : Standing) (owned : List Dir) (b : Option Dir) : Role where
  at_ := fun
    | .object => x
    | .blocking d => if d ∈ owned then .holding else .outside
  bounces := b
  clear := fun _ => false

section

variable {x y : Standing} {owned : List Dir} {b : Option Dir} {d : Dir}

@[simp] theorem role_at_object : (role x owned b).at_ .object = x := rfl

@[simp] theorem role_bounces : (role x owned b).bounces = b := rfl

@[simp] theorem role_clear : (role x owned b).clear d = false := rfl

@[simp] theorem role_at_blocking :
    (role x owned b).at_ (.blocking d) = if d ∈ owned then .holding else .outside := rfl

theorem role_set_object : (role x owned b).set .object y = role y owned b := by
  ext l
  · cases l with
    | object => simp
    | blocking d => simp
  · rfl
  · rfl

theorem role_enter : (role x owned b).set (.blocking d) .holding = role x (owned ++ [d]) b := by
  ext l
  · cases l with
    | object => simp
    | blocking d' =>
      by_cases hd : d' = d
      · subst hd; simp
      · simp [hd]
  · rfl
  · rfl

theorem role_exit (h : d ∉ owned) :
    (role x (d :: owned) b).set (.blocking d) .outside = role x owned b := by
  ext l
  · cases l with
    | object => simp
    | blocking d' =>
      by_cases hd : d' = d
      · subst hd; simp [h]
      · simp [hd]
  · rfl
  · rfl

end

end WasiLibc
