import Mathlib

/-!
# WasiLibc.Random.Uniform

`arc4random_uniform`: words of 32 bits are drawn until one is not below
`min`, and the remainder of that word is the result.

`min` is `2 ^ 32 % upper_bound`, computed without a 64-bit division, so that
the words from `min` on are a whole number of runs through the remainders.
-/

namespace WasiLibc.Random

/-- `min = (1U + ~upper_bound) % upper_bound`. -/
def threshold (upperBound : BitVec 32) : BitVec 32 := (1 + ~~~upperBound) % upperBound

/-- The loop of `arc4random_uniform` on the words that `arc4random` returns:
the result and the words that are left, or `none` when it wants another. -/
def draw (upperBound min : BitVec 32) : List (BitVec 32) → Option (BitVec 32 × List (BitVec 32))
  | [] => none
  | r :: words => if r < min then draw upperBound min words else some (r % upperBound, words)

/-- `arc4random_uniform`. -/
def arc4randomUniform (upperBound : BitVec 32) (words : List (BitVec 32)) :
    Option (BitVec 32 × List (BitVec 32)) :=
  if upperBound < 2 then some (0, words) else draw upperBound (threshold upperBound) words

/-! ## The threshold -/

theorem toNat_threshold {n : BitVec 32} (hn : 2 ≤ n.toNat) :
    (threshold n).toNat = 2 ^ 32 % n.toNat := by
  have hneg : 1 + ~~~n = -n := by
    rw [BitVec.neg_eq_not_add, BitVec.add_comm]
    rfl
  have hlt := n.isLt
  have hsub : 2 ^ 32 - n.toNat < 2 ^ 32 := by omega
  rw [threshold, hneg, BitVec.toNat_umod, BitVec.toNat_neg, Nat.mod_eq_of_lt hsub]
  exact (Nat.mod_eq_sub_mod hlt.le).symm

/-- A bound above `2 ^ 31` leaves the words below `2 ^ 32 - n`, and a smaller
one fewer than `n`. -/
theorem two_mul_mod_lt {n : Nat} (hn : 2 ≤ n) (hlt : n < 2 ^ 32) : 2 * (2 ^ 32 % n) < 2 ^ 32 := by
  have hmod : 2 ^ 32 % n < n := Nat.mod_lt _ (by omega)
  rcases Nat.lt_or_ge (2 ^ 31) n with hbig | hsmall
  · have heq : 2 ^ 32 % n = 2 ^ 32 - n := by
      rw [Nat.mod_eq_sub_mod hlt.le, Nat.mod_eq_of_lt (by omega)]
    omega
  · omega

/-! ## One word -/

section

variable {n : BitVec 32}

theorem arc4randomUniform_of_le (hn : 2 ≤ n.toNat) (words : List (BitVec 32)) :
    arc4randomUniform n words = draw n (threshold n) words := by
  refine if_neg fun hlt => ?_
  have hlt' : n.toNat < 2 := hlt
  omega

theorem arc4randomUniform_eq_some_iff (hn : 2 ≤ n.toNat) (w r : BitVec 32) :
    arc4randomUniform n [w] = some (r, []) ↔
      2 ^ 32 % n.toNat ≤ w.toNat ∧ w.toNat % n.toNat = r.toNat := by
  have hr : w % n = r ↔ w.toNat % n.toNat = r.toNat := by
    rw [← BitVec.toNat_inj, BitVec.toNat_umod]
  rw [arc4randomUniform_of_le hn, ← toNat_threshold hn, ← not_lt, ← BitVec.lt_def, ← hr]
  by_cases hw : w < threshold n
  · simp [draw, hw]
  · simp [draw, hw]

end

/-! ## Counting words -/

/-- Words are counted as numbers below `2 ^ 32`. -/
theorem card_words (p : Nat → Prop) [DecidablePred p] :
    Nat.card {w : BitVec 32 // p w.toNat} = Nat.count p (2 ^ 32) := by
  have hto : ∀ k : Nat, k < 2 ^ 32 → (BitVec.ofNat 32 k).toNat = k := fun k hk => by
    rw [BitVec.toNat_ofNat, Nat.mod_eq_of_lt hk]
  let e : {w : BitVec 32 // p w.toNat} ≃ {k : Nat // k ∈ (Finset.range (2 ^ 32)).filter p} :=
    { toFun := fun w => ⟨w.1.toNat, by simp [w.1.isLt, w.2]⟩
      invFun := fun k => ⟨BitVec.ofNat 32 k.1, by
        have hk := Finset.mem_filter.mp k.2
        rw [hto _ (Finset.mem_range.mp hk.1)]
        exact hk.2⟩
      left_inv := fun w => Subtype.ext (by simp)
      right_inv := fun k =>
        Subtype.ext (hto _ (Finset.mem_range.mp (Finset.mem_filter.mp k.2).1)) }
  rw [Nat.card_congr e, Nat.card_eq_fintype_card, Fintype.card_coe, Nat.count_eq_card_filter_range]

/-- Below a bound, from the remainder of that bound on, every remainder occurs
equally often. -/
theorem count_residue {n r : Nat} (b : Nat) (hr : r < n) :
    Nat.count (fun w => b % n ≤ w ∧ w % n = r) b = b / n := by
  have hn : 0 < n := by omega
  have hlt : b % n < n := Nat.mod_lt b hn
  have hlow : Nat.count (fun w => b % n ≤ w ∧ w % n = r) (b % n) = 0 :=
    Nat.count_of_forall_not fun w hw h => absurd hw (not_lt.mpr h.1)
  -- `b % n + k` has the remainder `r` when `k` has that of `r + (n - b % n)`
  have hhigh : (fun k => b % n ≤ b % n + k ∧ (b % n + k) % n = r) =
      (· ≡ r + (n - b % n) [MOD n]) := by
    funext k
    have hshift : b % n + k ≡ r [MOD n] ↔ k ≡ r + (n - b % n) [MOD n] := by
      have hround : k + (b % n + (n - b % n)) ≡ k [MOD n] := by
        rw [Nat.add_sub_cancel' hlt.le]
        exact Nat.add_modEq_right
      constructor
      · intro h
        refine hround.symm.trans ?_
        have hadd := h.add_right (n - b % n)
        rwa [Nat.add_comm (b % n) k, Nat.add_assoc] at hadd
      · intro h
        have hadd := hround.trans h
        rw [← Nat.add_assoc, Nat.add_comm k] at hadd
        exact Nat.ModEq.add_right_cancel' _ hadd
    rw [← hshift, Nat.ModEq, Nat.mod_eq_of_lt hr]
    simp
  calc Nat.count (fun w => b % n ≤ w ∧ w % n = r) b
      = Nat.count (fun w => b % n ≤ w ∧ w % n = r) (b % n + n * (b / n)) := by
        rw [Nat.mod_add_div]
    _ = Nat.count (· ≡ r + (n - b % n) [MOD n]) (n * (b / n)) := by
        rw [Nat.count_add, hlow, Nat.zero_add]
        simp only [hhigh]
    _ = b / n := by
        rw [Nat.count_modEq_card _ hn, Nat.mul_mod_right, if_neg (Nat.not_lt_zero _),
          Nat.mul_div_cancel_left _ hn, Nat.add_zero]

theorem count_lt {m b : Nat} (h : m ≤ b) : Nat.count (· < m) b = m := by
  obtain ⟨k, rfl⟩ := Nat.exists_eq_add_of_le h
  rw [Nat.count_add, Nat.count_of_forall fun _ hw => hw,
    Nat.count_of_forall_not fun k _ hk => absurd hk (by omega), Nat.add_zero]

/-! ## The results -/

/-- The word ends the loop. -/
def Accepts (n w : BitVec 32) : Prop := ∃ r, arc4randomUniform n [w] = some (r, [])

/-- **Every remainder is equally likely.**  For a bound of 2 or more the result
is the remainder of the first word that is accepted.  Fewer than half of the
words are not, and each number below the bound is the result of exactly
`2 ^ 32 / n` words. -/
theorem arc4randomUniform_unbiased (n : BitVec 32) (hn : 2 ≤ n.toNat) :
    (∃ w, Accepts n w) ∧
    (∀ w words, ¬ Accepts n w → arc4randomUniform n (w :: words) = arc4randomUniform n words) ∧
    (∀ w words, Accepts n w → arc4randomUniform n (w :: words) = some (w % n, words)) ∧
    (∀ r, r < n → Nat.card {w // arc4randomUniform n [w] = some (r, [])} = 2 ^ 32 / n.toNat) ∧
    (∀ w r, arc4randomUniform n [w] = some (r, []) → r < n) ∧
    2 * Nat.card {w // ¬ Accepts n w} < 2 ^ 32 := by
  have hpos : 0 < n.toNat := by omega
  have haccepts : ∀ w, Accepts n w ↔ 2 ^ 32 % n.toNat ≤ w.toNat := by
    intro w
    constructor
    · rintro ⟨r, hr⟩
      exact ((arc4randomUniform_eq_some_iff hn w r).mp hr).1
    · intro hw
      exact ⟨w % n, (arc4randomUniform_eq_some_iff hn w _).mpr ⟨hw, BitVec.toNat_umod.symm⟩⟩
  have hdraw : ∀ w, w < threshold n ↔ ¬ Accepts n w := by
    intro w
    rw [haccepts, BitVec.lt_def, toNat_threshold hn, not_le]
  have hmod := two_mul_mod_lt hn n.isLt
  refine ⟨⟨BitVec.allOnes 32, (haccepts _).mpr ?_⟩, fun w words hw => ?_, fun w words hw => ?_,
    fun r hr => ?_, fun w r hr => ?_, ?_⟩
  · rw [BitVec.toNat_allOnes]
    omega
  · rw [arc4randomUniform_of_le hn, arc4randomUniform_of_le hn, draw, if_pos ((hdraw w).mpr hw)]
  · rw [arc4randomUniform_of_le hn, draw, if_neg fun hlt => (hdraw w).mp hlt hw]
  · simp only [arc4randomUniform_eq_some_iff hn]
    rw [card_words fun w => 2 ^ 32 % n.toNat ≤ w ∧ w % n.toNat = r.toNat]
    exact count_residue _ hr
  · rw [BitVec.lt_def, ← ((arc4randomUniform_eq_some_iff hn w r).mp hr).2]
    exact Nat.mod_lt _ hpos
  · simp only [haccepts, not_le]
    have hle : 2 ^ 32 % n.toNat ≤ 2 ^ 32 := Nat.mod_le _ _
    rw [card_words fun w => w < 2 ^ 32 % n.toNat, count_lt hle]
    exact hmod

/-- The worst case of the source's comment, in which nearly half of the words
are not accepted. -/
theorem arc4randomUniform_unbiased_worst :
    2 ≤ (0x80000001#32).toNat ∧
      Nat.card {w // arc4randomUniform 0x80000001#32 [w] = some (5, [])} = 1 :=
  ⟨by decide, (arc4randomUniform_unbiased 0x80000001#32 (by decide)).2.2.2.1 5 (by decide)⟩

end WasiLibc.Random
