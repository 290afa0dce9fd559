import Mathlib

/-!
# WasiLibc.Lib.LittleEndian

Numbers as little-endian byte sequences of a fixed length.
-/

namespace WasiLibc.LittleEndian

/-- The `k` low bytes of a number. -/
def encode : Nat → Nat → List UInt8
  | 0, _ => []
  | k + 1, n => UInt8.ofNat n :: encode k (n / 256)

/-- The number that the bytes denote. -/
def decode : List UInt8 → Nat
  | [] => 0
  | b :: bs => b.toNat + 256 * decode bs

@[simp] theorem length_encode (k n : Nat) : (encode k n).length = k := by
  induction k generalizing n with
  | zero => rfl
  | succ k ih => rw [encode, List.length_cons, ih]

theorem decode_encode (k : Nat) {n : Nat} (h : n < 256 ^ k) : decode (encode k n) = n := by
  induction k generalizing n with
  | zero =>
    rw [Nat.pow_zero] at h
    rw [encode, decode]
    omega
  | succ k ih =>
    have hn : n / 256 < 256 ^ k := by
      rw [Nat.pow_succ] at h
      omega
    rw [encode, decode, ih hn, UInt8.toNat_ofNat']
    omega

end WasiLibc.LittleEndian
