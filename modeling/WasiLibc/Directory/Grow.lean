import Mathlib

/-!
# WasiLibc.Directory.Grow

The growth of the object that `readdir` returns, which all targets share.
-/

namespace WasiLibc.Directory

/-- `offsetof(struct dirent, d_name)`. -/
def nameOffset : Nat := 9

/-- The loop of `grow`.  The sizes it is called with are positive. -/
def growSize (size target : Nat) : Nat :=
  if 0 < size ∧ size < target then growSize (size * 2) target else size
termination_by target - size

theorem le_growSize {size : Nat} (h : 0 < size) (target : Nat) :
    size ≤ growSize size target ∧ target ≤ growSize size target := by
  fun_induction growSize size target with
  | case1 size hlt ih =>
    have hgrow := ih (by omega)
    omega
  | case2 size hge => omega

/-- A buffer grows by doubling. -/
theorem exists_growSize_eq (size target : Nat) : ∃ k, growSize size target = size * 2 ^ k := by
  fun_induction growSize size target with
  | case1 size hlt ih =>
    obtain ⟨k, hk⟩ := ih
    exact ⟨k + 1, by rw [hk, Nat.mul_assoc, ← Nat.pow_succ']⟩
  | case2 size hge => exact ⟨0, (Nat.mul_one size).symm⟩

/-- A size on the way is too small as well, and grows to the same size. -/
theorem growSize_of_lt {size target k : Nat} (h : size * 2 ^ k < growSize size target) :
    size * 2 ^ k < target ∧ growSize (size * 2 ^ k) target = growSize size target := by
  induction k generalizing size with
  | zero =>
    rw [Nat.pow_zero, Nat.mul_one] at h ⊢
    rw [growSize] at h
    split at h
    case isTrue hlt => exact ⟨hlt.2, rfl⟩
    case isFalse => omega
  | succ k ih =>
    have hgrow : growSize size target = growSize (size * 2) target := by
      rw [growSize]
      split
      case isTrue => rfl
      case isFalse hge =>
        rw [growSize, if_neg hge] at h
        have hpos : 0 < 2 ^ (k + 1) := Nat.two_pow_pos _
        have hle : size * 1 ≤ size * 2 ^ (k + 1) := Nat.mul_le_mul_left size hpos
        omega
    rw [Nat.pow_succ', ← Nat.mul_assoc, hgrow] at h ⊢
    exact ih h

end WasiLibc.Directory
