import Mathlib

/-!
# WasiLibc.Lib.Linear

Resources that are acquired and given up.

A log tells what happened to resources of a type `ρ`.  It is `Balanced` when
no resource is acquired while it is held, or given up while it is not, and
`Settled` when moreover everything has been given up.  Both are about counts;
a program keeps the list of what it holds, and `Holds log held` is the
invariant that leads from the one to the other.
-/

namespace WasiLibc.Linear

variable {ρ : Type*} [DecidableEq ρ]

/-- What happens to a resource: it is released, or passed on to somebody
else, who has to release it. -/
inductive Event (ρ : Type*) where
  | acquire (r : ρ)
  | release (r : ρ)
  | transfer (r : ρ)
  deriving DecidableEq, Repr

/-- How often the resource was acquired. -/
def acquired (r : ρ) (log : List (Event ρ)) : Nat := log.count (.acquire r)

/-- How often it was released or passed on. -/
def givenUp (r : ρ) (log : List (Event ρ)) : Nat := log.count (.release r) + log.count (.transfer r)

/-- At every moment, each resource is held at most once, and nothing is given
up that is not held. -/
def Balanced (log : List (Event ρ)) : Prop :=
  ∀ r earlier, earlier <+: log →
    givenUp r earlier ≤ acquired r earlier ∧ acquired r earlier ≤ givenUp r earlier + 1

/-- Every resource that was acquired has been given up exactly once. -/
structure Settled (log : List (Event ρ)) : Prop where
  balanced : Balanced log
  nothing : ∀ r, acquired r log = givenUp r log

/-- The log is balanced, and what is held after it is `held`. -/
structure Holds (log : List (Event ρ)) (held : List ρ) : Prop where
  balanced : Balanced log
  count : ∀ r, acquired r log = givenUp r log + held.count r

theorem Holds.nil : Holds ([] : List (Event ρ)) [] where
  balanced := by
    intro r earlier h
    obtain rfl := List.prefix_nil.mp h
    simp [givenUp, acquired]
  count := by simp [givenUp, acquired]

variable {log : List (Event ρ)} {held : List ρ} {r : ρ}

theorem Holds.perm {held' : List ρ} (h : Holds log held) (hp : held.Perm held') :
    Holds log held' where
  balanced := h.balanced
  count r := by rw [h.count, hp.count_eq]

/-- With nothing held the log is settled. -/
theorem Holds.settled (h : Holds log []) : Settled log := ⟨h.balanced, by simpa using h.count⟩

/-- A resource is held at most once. -/
theorem Holds.nodup (h : Holds log held) : held.Nodup := by
  refine List.nodup_iff_count_le_one.mpr fun r => ?_
  have := (h.balanced r log List.prefix_rfl).2
  have := h.count r
  omega

/-- One more event: it is enough to look at the log after it. -/
theorem Balanced.snoc {e : Event ρ} (h : Balanced log)
    (he : ∀ r, givenUp r (log ++ [e]) ≤ acquired r (log ++ [e]) ∧
      acquired r (log ++ [e]) ≤ givenUp r (log ++ [e]) + 1) : Balanced (log ++ [e]) := by
  intro r earlier hp
  rcases List.prefix_concat_iff.mp hp with rfl | hp
  · exact he r
  · exact h r earlier hp

theorem Holds.acquire (h : Holds log held) (hr : r ∉ held) :
    Holds (log ++ [.acquire r]) (r :: held) := by
  have hcount : ∀ x, acquired x (log ++ [.acquire r]) =
      givenUp x (log ++ [.acquire r]) + (r :: held).count x := by
    intro x
    have := h.count x
    simp only [acquired, givenUp, List.count_append, List.count_cons] at *
    by_cases hx : r = x <;> simp [hx] <;> omega
  refine ⟨h.balanced.snoc fun x => ?_, hcount⟩
  have := hcount x
  have hle := List.nodup_iff_count_le_one.mp (List.nodup_cons.mpr ⟨hr, h.nodup⟩) x
  omega

/-- A resource that is held is given up. -/
theorem Holds.giveUp (h : Holds log (r :: held)) {e : Event ρ}
    (he : e = .release r ∨ e = .transfer r) : Holds (log ++ [e]) held := by
  have hcount : ∀ x, acquired x (log ++ [e]) = givenUp x (log ++ [e]) + held.count x := by
    intro x
    have := h.count x
    simp only [acquired, givenUp, List.count_append, List.count_cons] at *
    rcases he with rfl | rfl <;> by_cases hx : r = x <;> simp_all <;> omega
  refine ⟨h.balanced.snoc fun x => ?_, hcount⟩
  have := hcount x
  have hle := List.nodup_iff_count_le_one.mp (List.nodup_cons.mp h.nodup).2 x
  omega

end WasiLibc.Linear
