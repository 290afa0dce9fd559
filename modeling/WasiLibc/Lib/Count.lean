import Mathlib

/-!
# WasiLibc.Lib.Count

Counting the members of a finite family that have a property: the threads
that are at some place, the users of a resource.  `count_update` says what
the change of one member does to a count.
-/

namespace WasiLibc.Count

open Function

variable {ι α : Type*} [Fintype ι]

/-- The number of members of the family that have the property. -/
def count (p : α → Prop) [DecidablePred p] (f : ι → α) : Nat :=
  (Finset.univ.filter fun i => p (f i)).card

variable {p : α → Prop} [DecidablePred p] {f : ι → α}

theorem count_pos_iff : 0 < count p f ↔ ∃ i, p (f i) := by
  simp [count, Finset.card_pos, Finset.filter_nonempty_iff]

theorem count_eq_zero_iff : count p f = 0 ↔ ∀ i, ¬ p (f i) := by
  simp [count, Finset.filter_eq_empty_iff]

theorem count_le : count p f ≤ Fintype.card ι := Finset.card_filter_le _ _

variable [DecidableEq ι]

/-- Changing one member takes out the old value and counts the new one. -/
theorem count_update (f : ι → α) (i : ι) (a : α) :
    count p (update f i a) + (if p (f i) then 1 else 0) =
      count p f + if p a then 1 else 0 := by
  have hsplit : ∀ g : ι → α, count p g =
      (if p (g i) then 1 else 0) + ∑ j ∈ Finset.univ.erase i, if p (g j) then 1 else 0 := by
    intro g
    rw [count, Finset.card_filter]
    exact (Finset.add_sum_erase _ _ (Finset.mem_univ i)).symm
  have hrest : ∑ j ∈ Finset.univ.erase i, (if p (update f i a j) then 1 else 0) =
      ∑ j ∈ Finset.univ.erase i, if p (f j) then 1 else 0 := by
    refine Finset.sum_congr rfl fun j hj => ?_
    rw [update_of_ne (Finset.ne_of_mem_erase hj)]
  rw [hsplit (update f i a), hsplit f, hrest, update_self]
  omega

theorem count_update_of_iff {i : ι} {a : α} (h : p a ↔ p (f i)) :
    count p (update f i a) = count p f := by
  have := count_update (p := p) f i a
  simp only [h] at this
  omega

end WasiLibc.Count
