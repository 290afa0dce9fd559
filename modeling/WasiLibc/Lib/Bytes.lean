import Mathlib

/-!
# WasiLibc.Lib.Bytes

Words of 16 and 32 bits and their bytes, the least significant one first.
-/

namespace WasiLibc.Bytes

/-- Byte `k` of a word. -/
def byte {w : Nat} (x : BitVec w) (k : Nat) : BitVec 8 := (x >>> (8 * k)).setWidth 8

/-- The word of two bytes. -/
def word16 (b₀ b₁ : BitVec 8) : BitVec 16 := b₀.setWidth 16 ||| b₁.setWidth 16 <<< 8

/-- The word of four bytes. -/
def word32 (b₀ b₁ b₂ b₃ : BitVec 8) : BitVec 32 :=
  b₀.setWidth 32 ||| b₁.setWidth 32 <<< 8 ||| b₂.setWidth 32 <<< 16 ||| b₃.setWidth 32 <<< 24

@[simp] theorem word16_byte (x : BitVec 16) : word16 (byte x 0) (byte x 1) = x := by
  unfold word16 byte
  ext i h
  simp
  grind

@[simp] theorem word32_byte (x : BitVec 32) :
    word32 (byte x 0) (byte x 1) (byte x 2) (byte x 3) = x := by
  unfold word32 byte
  ext i h
  simp
  grind

section

variable (b₀ b₁ b₂ b₃ : BitVec 8)

@[simp] theorem byte_word32 :
    byte (word32 b₀ b₁ b₂ b₃) 0 = b₀ ∧ byte (word32 b₀ b₁ b₂ b₃) 1 = b₁ ∧
      byte (word32 b₀ b₁ b₂ b₃) 2 = b₂ ∧ byte (word32 b₀ b₁ b₂ b₃) 3 = b₃ := by
  unfold word32 byte
  refine ⟨?_, ?_, ?_, ?_⟩
  · ext i h
    simp
  · ext i h
    simp
    grind
  · ext i h
    simp
    grind
  · ext i h
    simp
    grind

end

/-- A conversion to a byte drops what a mask would. -/
theorem setWidth_and_mask (x : BitVec 32) : (x &&& 0xFF).setWidth 8 = x.setWidth 8 := by
  rw [BitVec.setWidth_and]
  exact BitVec.and_allOnes

end WasiLibc.Bytes
