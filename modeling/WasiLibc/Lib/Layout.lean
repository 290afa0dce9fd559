import Mathlib

/-!
# WasiLibc.Lib.Layout

Rounding to an alignment, and blocks that are put into memory one after the
other, each at the next multiple of its alignment.

Moving all blocks by a multiple of their alignments moves each by the same
amount (`place_add`), so that offsets computed from zero are right at any
aligned base.
-/

namespace WasiLibc.Layout

/-- The last multiple of `a` that is not above `x`. -/
def alignDown (a x : Nat) : Nat := x / a * a

/-- The first multiple of `a` that is not below `x`. -/
def alignUp (a x : Nat) : Nat := alignDown a (x + (a - 1))

section

variable {a b x : Nat}

theorem dvd_alignDown : a ∣ alignDown a x := Nat.dvd_mul_left a (x / a)

theorem alignDown_le : alignDown a x ≤ x := Nat.div_mul_le_self x a

theorem lt_alignDown_add (ha : 0 < a) : x < alignDown a x + a := Nat.lt_div_mul_add ha

theorem alignDown_add (h : a ∣ b) : alignDown a (b + x) = b + alignDown a x := by
  rw [alignDown, alignDown, Nat.add_div_of_dvd_right h, Nat.add_mul, Nat.div_mul_cancel h]

theorem dvd_alignUp : a ∣ alignUp a x := dvd_alignDown

theorem le_alignUp (ha : 0 < a) : x ≤ alignUp a x := by
  have h : x + (a - 1) < alignUp a x + a := lt_alignDown_add ha
  omega

theorem alignUp_add (h : a ∣ b) : alignUp a (b + x) = b + alignUp a x := by
  rw [alignUp, Nat.add_assoc, alignDown_add h, alignUp]

end

/-! ## Words -/

section

variable {w k : Nat} {x a : BitVec w}

/-- Masking with `-a` rounds down to the power of two `a`. -/
theorem toNat_and_neg (ha : a.toNat = 2 ^ k) : (x &&& -a).toNat = alignDown a.toNat x.toNat := by
  have hk : k < w := (Nat.pow_lt_pow_iff_right (by omega)).mp (ha ▸ a.isLt)
  have hneg : (-a).toNat = 2 ^ k * (2 ^ (w - k) - 1) := by
    have hsplit : 2 ^ w = 2 ^ k * 2 ^ (w - k) := by rw [← Nat.pow_add, Nat.add_sub_of_le hk.le]
    have hpos := Nat.two_pow_pos k
    have hlt := a.isLt
    rw [BitVec.toNat_neg, Nat.mod_eq_of_lt (by omega), ha, Nat.mul_sub, hsplit, Nat.mul_one]
  rw [BitVec.toNat_and, hneg, ha]
  refine Nat.eq_of_testBit_eq fun i => ?_
  rw [Nat.testBit_and, alignDown, Nat.testBit_two_pow_mul, Nat.testBit_mul_two_pow,
    Nat.testBit_div_two_pow, Nat.testBit_two_pow_sub_one]
  by_cases hi : k ≤ i
  · rw [Nat.sub_add_cancel hi]
    by_cases hlt : i < w
    · have hsub : i - k < w - k := by omega
      simp [hi, hsub]
    · have hbit : x.toNat.testBit i = false := x.getLsbD_of_ge i (by omega)
      simp [hbit]
  · simp [hi]

/-- Rounding up in words, where the exact result is a word. -/
theorem toNat_add_and_neg (ha : a.toNat = 2 ^ k) (hfit : alignUp a.toNat x.toNat < 2 ^ w) :
    ((x + (a - 1)) &&& -a).toNat = alignUp a.toNat x.toNat := by
  have hpos : 0 < a.toNat := ha ▸ Nat.two_pow_pos k
  have hk : k ≤ w := ((Nat.pow_lt_pow_iff_right (by omega)).mp (ha ▸ a.isLt)).le
  have hone : (a - 1).toNat = a.toNat - 1 := by
    have hlt := a.isLt
    have h1 : (1 : BitVec w).toNat = 1 := by
      rw [BitVec.ofNat_eq_ofNat, BitVec.toNat_ofNat, Nat.mod_eq_of_lt]
      exact Nat.one_lt_two_pow (by rintro rfl; simp at hk; subst hk; omega)
    rw [BitVec.toNat_sub_of_le (by rw [BitVec.le_def, h1]; omega), h1]
  -- a multiple of `a` below `2 ^ w` leaves room for the `a - 1` that were added
  have hroom : x.toNat + (a.toNat - 1) < 2 ^ w := by
    have hlt : x.toNat + (a.toNat - 1) < alignUp a.toNat x.toNat + a.toNat :=
      lt_alignDown_add hpos
    have hdvd : a.toNat ∣ 2 ^ w - alignUp a.toNat x.toNat :=
      Nat.dvd_sub (ha ▸ Nat.pow_dvd_pow 2 hk) dvd_alignUp
    have hle := Nat.le_of_dvd (by omega) hdvd
    omega
  rw [toNat_and_neg ha, BitVec.toNat_add, hone, Nat.mod_eq_of_lt hroom, alignUp]

end

/-! ## Blocks in a row -/

/-- A block that wants a place at a multiple of its alignment. -/
structure Block where
  size : Nat
  align : Nat
  align_pos : 0 < align

/-- Where the blocks start when they are placed from `next` on.  A block
without bytes gets no place. -/
def place : List Block → Nat → List (Option Nat)
  | [], _ => []
  | b :: bs, next =>
    if b.size = 0 then none :: place bs next
    else some (alignUp b.align next) :: place bs (alignUp b.align next + b.size)

/-- Where the last of them ends. -/
def finish : List Block → Nat → Nat
  | [], next => next
  | b :: bs, next =>
    if b.size = 0 then finish bs next else finish bs (alignUp b.align next + b.size)

/-- Block `i` is `b` and starts at `p`. -/
def Placed (bs : List Block) (next i : Nat) (b : Block) (p : Nat) : Prop :=
  bs[i]? = some b ∧ (place bs next)[i]? = some (some p)

section

variable {bs : List Block} {b c : Block} {next i j p q : Nat}

theorem le_finish : next ≤ finish bs next := by
  induction bs generalizing next with
  | nil => exact Nat.le_refl next
  | cons b bs ih =>
    unfold finish
    split
    · exact ih
    · have hup := le_alignUp b.align_pos (x := next)
      have hrest : _ ≤ finish bs (alignUp b.align next + b.size) := ih
      omega

theorem placed_zero : Placed (c :: bs) next 0 b p ↔
    c = b ∧ c.size ≠ 0 ∧ p = alignUp c.align next := by
  unfold Placed place
  by_cases hc : c.size = 0
  · simp [hc]
  · simp [hc, eq_comm]

theorem placed_succ : Placed (c :: bs) next (i + 1) b p ↔
    Placed bs (if c.size = 0 then next else alignUp c.align next + c.size) i b p := by
  unfold Placed
  by_cases hc : c.size = 0
  · simp [place, hc]
  · simp [place, hc]

theorem finish_cons : finish (c :: bs) next =
    finish bs (if c.size = 0 then next else alignUp c.align next + c.size) := by
  by_cases hc : c.size = 0
  · simp [finish, hc]
  · simp [finish, hc]

theorem le_next : next ≤ if c.size = 0 then next else alignUp c.align next + c.size := by
  have hup := le_alignUp c.align_pos (x := next)
  split <;> omega

/-- A block with bytes gets a place. -/
theorem exists_placed (hb : bs[i]? = some b) (hsize : b.size ≠ 0) : ∃ p, Placed bs next i b p := by
  induction bs generalizing next i with
  | nil => simp at hb
  | cons c bs ih =>
    cases i with
    | zero =>
      obtain rfl : c = b := by simpa using hb
      exact ⟨_, placed_zero.mpr ⟨rfl, hsize, rfl⟩⟩
    | succ i =>
      obtain ⟨p, hp⟩ := ih (by simpa using hb)
      exact ⟨p, placed_succ.mpr hp⟩

theorem Placed.spec (h : Placed bs next i b p) :
    b.size ≠ 0 ∧ b.align ∣ p ∧ next ≤ p ∧ p + b.size ≤ finish bs next := by
  induction bs generalizing next i with
  | nil => simp [Placed] at h
  | cons c bs ih =>
    rw [finish_cons]
    cases i with
    | zero =>
      obtain ⟨rfl, hc, rfl⟩ := placed_zero.mp h
      refine ⟨hc, dvd_alignUp, le_alignUp c.align_pos, ?_⟩
      rw [if_neg hc]
      exact le_finish
    | succ i =>
      obtain ⟨hsize, hdvd, hle, hend⟩ := ih (placed_succ.mp h)
      exact ⟨hsize, hdvd, Nat.le_trans le_next hle, hend⟩

/-- The blocks come in the order of the list. -/
theorem Placed.before (hp : Placed bs next i b p) (hq : Placed bs next j c q) (hij : i < j) :
    p + b.size ≤ q := by
  induction bs generalizing next i j with
  | nil => simp [Placed] at hp
  | cons d bs ih =>
    obtain ⟨j, rfl⟩ := Nat.exists_eq_succ_of_ne_zero (Nat.ne_zero_of_lt hij)
    have hq' := placed_succ.mp hq
    cases i with
    | zero =>
      obtain ⟨rfl, hd, rfl⟩ := placed_zero.mp hp
      rw [if_neg hd] at hq'
      exact hq'.spec.2.2.1
    | succ i => exact ih (placed_succ.mp hp) hq' (Nat.lt_of_succ_lt_succ hij)

theorem place_add {base : Nat} (h : ∀ b ∈ bs, b.size ≠ 0 → b.align ∣ base) :
    place bs (base + next) = (place bs next).map (Option.map (base + ·)) := by
  induction bs generalizing next with
  | nil => rfl
  | cons b bs ih =>
    have ih' : ∀ next, place bs (base + next) = _ :=
      fun _ => ih fun c hc => h c (List.mem_cons_of_mem b hc)
    unfold place
    by_cases hb : b.size = 0
    · simp [hb, ih']
    · simp [hb, alignUp_add (h b List.mem_cons_self hb), Nat.add_assoc, ih']

theorem finish_add {base : Nat} (h : ∀ b ∈ bs, b.size ≠ 0 → b.align ∣ base) :
    finish bs (base + next) = base + finish bs next := by
  induction bs generalizing next with
  | nil => rfl
  | cons b bs ih =>
    have ih' : ∀ next, finish bs (base + next) = _ :=
      fun _ => ih fun c hc => h c (List.mem_cons_of_mem b hc)
    unfold finish
    by_cases hb : b.size = 0
    · simp [hb, ih']
    · simp [hb, alignUp_add (h b List.mem_cons_self hb), Nat.add_assoc, ih']

end

end WasiLibc.Layout
