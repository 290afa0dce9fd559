import WasiLibc.Futex.State
import WasiLibc.Lib.Count

/-!
# WasiLibc.Lock.Word

The lock of `__lock.c`: an `int` that holds a flag in its sign bit and the
number of threads inside in the rest, and the futex behind it.

Between switch points a thread is outside a lock, waits for it, or holds it.
`Lock.Inv` says what the word and the queue are in terms of that; each
operation has one lemma that tells how it changes a thread's standing.
-/

namespace WasiLibc

open Count Function Futex

variable {T : Threads}

def INT_MIN : Int := -2147483648

/-- A lock: its word, and the threads that sleep at it, as the futex lists
them.  The last one to fall asleep is the first one to be woken. -/
structure Lock (T : Threads) where
  word : Int
  queue : List (Tid T)
  deriving DecidableEq

namespace Lock

/-- `volatile int lock = 0`. -/
def unlocked : Lock T := ⟨0, []⟩

/-- `__lock`, up to the first wait; the flag tells whether the thread has
got the lock. -/
def lock (l : Lock T) (t : Tid T) : Bool × Lock T :=
  if 0 ≤ l.word then (true, { l with word := INT_MIN + (l.word + 1) })
  else
    -- the compare-and-swaps have failed: the thread counts itself in
    let current := l.word + 1
    if current < 0 then (false, { word := current, queue := t :: l.queue })
    else (true, { l with word := INT_MIN + current })

/-- `__lock`, after a wait. -/
def relock (l : Lock T) (t : Tid T) : Bool × Lock T :=
  if l.word < 0 then (false, { l with queue := t :: l.queue })
  else (true, { l with word := INT_MIN + l.word })

/-- `__unlock`. -/
def unlock (l : Lock T) : Lock T :=
  if l.word < 0 then
    { word := l.word - (INT_MIN + 1)
      queue := if l.word = INT_MIN + 1 then l.queue else l.queue.tail }
  else l

end Lock

/-- Where a thread is with respect to a lock. -/
inductive Standing where
  | outside
  | waiting
  | holding
  deriving DecidableEq, Repr

namespace Lock

/-- The number of threads that wait. -/
abbrev waiting (at_ : Tid T → Standing) : Nat := count (· = Standing.waiting) at_

/-- The word counts the threads inside and tells whether one of them holds
the lock, and no wakeup is lost. -/
structure Inv (l : Lock T) (at_ : Tid T → Standing) : Prop where
  held : ∀ t, at_ t = .holding → l.word = INT_MIN + 1 + waiting at_
  free : (∀ t, at_ t ≠ .holding) → l.word = waiting at_
  unique : ∀ t u, at_ t = .holding → at_ u = .holding → t = u
  queued : ∀ t ∈ l.queue, at_ t = .waiting
  nodup : l.queue.Nodup
  /-- A lock that is free and waited for has a waiter that is awake. -/
  live : (∀ t, at_ t ≠ .holding) → 0 < waiting at_ → ∃ t, at_ t = .waiting ∧ t ∉ l.queue

variable {l : Lock T} {at_ : Tid T → Standing} {t : Tid T}

theorem waiting_outside : waiting (fun _ : Tid T => Standing.outside) = 0 :=
  count_eq_zero_iff.mpr (by simp)

theorem inv_unlocked : (unlocked : Lock T).Inv fun _ => .outside where
  held := by simp
  free := by simp [unlocked, waiting_outside]
  unique := by simp
  queued := by simp [unlocked]
  nodup := List.nodup_nil
  live := by simp [waiting_outside]

theorem waiting_lt (at_ : Tid T → Standing) : (waiting at_ : Int) < 268435456 := by
  have hle : waiting at_ ≤ Fintype.card (Tid T) := count_le
  have hlt := T.count_lt
  rw [Fintype.card_fin] at hle
  omega

/-- The sign of the word tells whether the lock is held. -/
theorem Inv.word_nonneg_iff (h : l.Inv at_) : 0 ≤ l.word ↔ ∀ t, at_ t ≠ .holding := by
  have hlt := waiting_lt at_
  constructor
  · intro hw t ht
    have := h.held t ht
    unfold INT_MIN at this
    omega
  · intro hfree
    have := h.free hfree
    omega

theorem Inv.holder_of_neg (h : l.Inv at_) (hw : ¬ 0 ≤ l.word) : ∃ u, at_ u = .holding := by
  by_contra hn
  exact hw (h.word_nonneg_iff.mpr fun u hu => hn ⟨u, hu⟩)

theorem waiting_update (at_ : Tid T → Standing) (t : Tid T) (x : Standing) :
    waiting (update at_ t x) + (if at_ t = .waiting then 1 else 0) =
      waiting at_ + if x = .waiting then 1 else 0 :=
  count_update at_ t x

/-- A thread gets a lock that nobody holds, whether it has waited or not. -/
theorem Inv.acquire (h : l.Inv at_) (hfree : ∀ u, at_ u ≠ .holding) (hq : t ∉ l.queue) :
    { l with word := INT_MIN + 1 + waiting (update at_ t .holding) }.Inv
      (update at_ t .holding) where
  held := fun _ _ => rfl
  free := fun hn => (hn t (update_self ..)).elim
  unique := by
    intro u v hu hv
    have hself : ∀ w, update at_ t .holding w = .holding → w = t := by
      intro w hw
      by_contra hne
      rw [update_of_ne hne] at hw
      exact hfree w hw
    rw [hself u hu, hself v hv]
  queued := by
    intro u hu
    rw [update_of_ne (ne_of_mem_of_not_mem hu hq)]
    exact h.queued u hu
  nodup := h.nodup
  live := fun hn => (hn t (update_self ..)).elim

/-- A thread falls asleep at a lock that another one holds. -/
theorem Inv.sleep (h : l.Inv at_) {u : Tid T} (hu : at_ u = .holding) (hne : u ≠ t)
    (hq : t ∉ l.queue) :
    { word := INT_MIN + 1 + waiting (update at_ t .waiting)
      queue := t :: l.queue : Lock T }.Inv (update at_ t .waiting) where
  held := fun _ _ => rfl
  free := by
    intro hn
    refine (hn u ?_).elim
    rw [update_of_ne hne]
    exact hu
  unique := by
    intro v w hv hw
    have hself : ∀ x, update at_ t .waiting x = .holding → at_ x = .holding := by
      intro x hx
      by_cases hxt : x = t
      · subst hxt; simp at hx
      · rwa [update_of_ne hxt] at hx
    exact h.unique v w (hself v hv) (hself w hw)
  queued := by
    intro v hv
    rcases List.mem_cons.mp hv with rfl | hv
    · exact update_self ..
    · rw [update_of_ne (ne_of_mem_of_not_mem hv hq)]
      exact h.queued v hv
  nodup := List.nodup_cons.mpr ⟨hq, h.nodup⟩
  live := by
    intro hn
    refine (hn u ?_).elim
    rw [update_of_ne hne]
    exact hu

/-- A thread that holds the lock gives it up, and wakes a sleeper if there is
one. -/
theorem Inv.unlock (h : l.Inv at_) (ht : at_ t = .holding) :
    l.unlock.Inv (update at_ t .outside) := by
  have hfree : ∀ u, update at_ t .outside u ≠ .holding := by
    intro u
    by_cases hut : u = t
    · subst hut; simp
    · rw [update_of_ne hut]
      exact fun hu => hut (h.unique u t hu ht)
  have hcount : waiting (update at_ t .outside) = waiting at_ := by
    have := waiting_update at_ t .outside
    simpa [ht] using this
  have hne : ∀ u, at_ u = .waiting → u ≠ t := by
    rintro u hu rfl
    rw [hu] at ht
    cases ht
  have hw := h.held t ht
  have hlt := waiting_lt at_
  have hneg : l.word < 0 := by unfold INT_MIN at hw; omega
  unfold Lock.unlock
  rw [if_pos hneg]
  refine ⟨fun u hu => (hfree u hu).elim, fun _ => ?_, fun u _ hu => (hfree u hu).elim, ?_, ?_, ?_⟩
  · rw [hcount]
    show l.word - (INT_MIN + 1) = _
    omega
  · intro u hu
    have hu : u ∈ l.queue := by
      split at hu
      case isTrue => exact hu
      case isFalse => exact List.mem_of_mem_tail hu
    rw [update_of_ne (hne u (h.queued u hu))]
    exact h.queued u hu
  · split
    case isTrue => exact h.nodup
    case isFalse => exact h.nodup.tail
  · intro _ hpos
    rw [hcount] at hpos
    rw [if_neg (by omega)]
    cases hq : l.queue with
    | nil =>
      obtain ⟨u, hu⟩ := count_pos_iff.mp hpos
      refine ⟨u, ?_, by simp⟩
      rw [update_of_ne (hne u hu)]
      exact hu
    | cons u q =>
      have hu := h.queued u (by simp [hq])
      refine ⟨u, ?_, ?_⟩
      · rw [update_of_ne (hne u hu)]
        exact hu
      · have := h.nodup
        rw [hq] at this
        exact (List.nodup_cons.mp this).1

/-- The standing of a thread that has tried to get a lock. -/
def standing (got : Bool) : Standing := if got then .holding else .waiting

theorem Inv.notMem_queue (h : l.Inv at_) (ht : at_ t ≠ .waiting) : t ∉ l.queue :=
  fun hq => ht (h.queued t hq)

/-- A thread outside tries to get the lock. -/
theorem Inv.lock (h : l.Inv at_) (ht : at_ t = .outside) :
    (l.lock t).2.Inv (update at_ t (standing (l.lock t).1)) := by
  have hq : t ∉ l.queue := h.notMem_queue (by simp [ht])
  have hlt := waiting_lt at_
  unfold Lock.lock
  split
  case isTrue hw =>
    have hfree := h.word_nonneg_iff.mp hw
    have hcount : waiting (update at_ t .holding) = waiting at_ := by
      simpa [ht] using waiting_update at_ t .holding
    have hword : INT_MIN + (l.word + 1) =
        INT_MIN + 1 + waiting (update at_ t .holding) := by
      rw [hcount, h.free hfree]
      omega
    simp only [standing, if_true, hword]
    exact h.acquire hfree hq
  case isFalse hw =>
    obtain ⟨u, hu⟩ := h.holder_of_neg hw
    have hne : u ≠ t := by
      rintro rfl
      rw [hu] at ht
      cases ht
    have hcount : waiting (update at_ t .waiting) = waiting at_ + 1 := by
      simpa [ht] using waiting_update at_ t .waiting
    have hheld := h.held u hu
    have hword : l.word + 1 = INT_MIN + 1 + waiting (update at_ t .waiting) := by
      rw [hcount, hheld]
      omega
    have hneg : l.word + 1 < 0 := by unfold INT_MIN at hheld; omega
    simp only [if_pos hneg, standing, Bool.false_eq_true, if_false]
    rw [hword]
    exact h.sleep hu hne hq

/-- The lock is got exactly if nobody holds it. -/
theorem Inv.lock_iff (h : l.Inv at_) : (l.lock t).1 = true ↔ ∀ u, at_ u ≠ .holding := by
  rw [← h.word_nonneg_iff]
  unfold Lock.lock
  split
  case isTrue hw => simp [hw]
  case isFalse hw =>
    obtain ⟨u, hu⟩ := h.holder_of_neg hw
    have hheld := h.held u hu
    have hlt := waiting_lt at_
    have hneg : l.word + 1 < 0 := by unfold INT_MIN at hheld; omega
    simp [hneg, hw]

/-- A thread that was woken tries again. -/
theorem Inv.relock (h : l.Inv at_) (ht : at_ t = .waiting) (hq : t ∉ l.queue) :
    (l.relock t).2.Inv (update at_ t (standing (l.relock t).1)) := by
  unfold Lock.relock
  split
  case isTrue hw =>
    obtain ⟨u, hu⟩ := h.holder_of_neg (by omega)
    have hne : u ≠ t := by
      rintro rfl
      rw [hu] at ht
      cases ht
    have hcount : waiting (update at_ t .waiting) = waiting at_ := by
      rw [← ht, update_eq_self]
    simp only [standing, Bool.false_eq_true, if_false]
    rw [h.held u hu, ← hcount]
    exact h.sleep hu hne hq
  case isFalse hw =>
    have hfree := h.word_nonneg_iff.mp (by omega)
    have hcount : waiting (update at_ t .holding) + 1 = waiting at_ := by
      simpa [ht] using waiting_update at_ t .holding
    have hword : INT_MIN + l.word =
        INT_MIN + 1 + waiting (update at_ t .holding) := by
      rw [h.free hfree, ← hcount]
      push_cast
      omega
    simp only [standing, if_true, hword]
    exact h.acquire hfree hq

theorem Inv.relock_iff (h : l.Inv at_) : (l.relock t).1 = true ↔ ∀ u, at_ u ≠ .holding := by
  rw [← h.word_nonneg_iff]
  unfold Lock.relock
  split <;> simp <;> omega

end Lock

end WasiLibc
