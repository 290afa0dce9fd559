import Mathlib

/-!
# WasiLibc.Lib.Utf8

Well-formed UTF-8 as ranges of bytes.  `Group` is the table of well-formed
byte sequences of one character; `group_iff` says that it lists exactly the
encodings of the Unicode scalar values, and `Encoding` is a sequence of
them.
-/

namespace WasiLibc.Utf8

/-- The bytes encode a sequence of Unicode scalar values. -/
def Encoding (s : List UInt8) : Prop :=
  ∃ cs : List Char, s = cs.flatMap String.utf8EncodeChar

/-- A continuation byte. -/
def Tail (b : UInt8) : Prop := 0x80 ≤ b.toNat ∧ b.toNat < 0xC0

instance (b : UInt8) : Decidable (Tail b) := inferInstanceAs (Decidable (_ ∧ _))

/-- The well-formed byte sequences of one character. -/
def Group : List UInt8 → Prop
  | [a] => a.toNat < 0x80
  | [a, b] => 0xC2 ≤ a.toNat ∧ a.toNat < 0xE0 ∧ Tail b
  | [a, b, c] => 0xE0 ≤ a.toNat ∧ a.toNat < 0xF0 ∧ Tail b ∧ Tail c ∧
      (a.toNat = 0xE0 → 0xA0 ≤ b.toNat) ∧ (a.toNat = 0xED → b.toNat < 0xA0)
  | [a, b, c, d] => 0xF0 ≤ a.toNat ∧ a.toNat < 0xF5 ∧ Tail b ∧ Tail c ∧ Tail d ∧
      (a.toNat = 0xF0 → 0x90 ≤ b.toNat) ∧ (a.toNat = 0xF4 → b.toNat < 0x90)
  | _ => False

/-! ## Characters -/

theorem toNat_ofNat {n : Nat} (h : n < 256) : (UInt8.ofNat n).toNat = n := by
  simp [Nat.mod_eq_of_lt h]

/-- The ranges of the Unicode scalar values. -/
theorem val_range (c : Char) :
    c.val.toNat < 0xD800 ∨ 0xDFFF < c.val.toNat ∧ c.val.toNat < 0x110000 := by
  have h := c.valid
  simpa [UInt32.isValidChar, Nat.isValidChar] using h

theorem group_utf8EncodeChar (c : Char) : Group (String.utf8EncodeChar c) := by
  have hv := val_range c
  unfold String.utf8EncodeChar
  generalize c.val.toNat = v at hv
  simp only
  split
  · simp only [Group]
    rw [toNat_ofNat (by omega)]
    omega
  split
  · simp only [Group, Tail]
    rw [toNat_ofNat (by omega), toNat_ofNat (by omega)]
    omega
  split
  · simp only [Group, Tail]
    rw [toNat_ofNat (by omega), toNat_ofNat (by omega), toNat_ofNat (by omega)]
    omega
  · simp only [Group, Tail]
    rw [toNat_ofNat (by omega), toNat_ofNat (by omega), toNat_ofNat (by omega),
      toNat_ofNat (by omega)]
    omega

/-- Every scalar value is a character. -/
theorem exists_char {v : Nat} (h : v < 0xD800 ∨ 0xDFFF < v ∧ v < 0x110000) :
    ∃ c : Char, c.val.toNat = v :=
  ⟨Char.ofNatAux v h, by simp [Char.ofNatAux, UInt32.toNat]⟩

variable {a : UInt8} {g s : List UInt8}

theorem ofNat_eq {n : Nat} (h : n = a.toNat) : UInt8.ofNat n = a := by
  rw [h, UInt8.ofNat_toNat]

/-- The character of a group is the number that its payload bits form. -/
theorem exists_of_group (h : Group g) :
    ∃ c : Char, String.utf8EncodeChar c = g := by
  match g, h with
  | [a], h =>
    simp only [Group] at h
    obtain ⟨c, hc⟩ := exists_char (.inl (by omega : a.toNat < 0xD800))
    refine ⟨c, ?_⟩
    simp only [String.utf8EncodeChar, hc]
    rw [if_pos (by omega), ofNat_eq rfl]
  | [a, b], h =>
    simp only [Group, Tail] at h
    obtain ⟨c, hc⟩ := exists_char
      (.inl (by omega : (a.toNat - 0xC0) * 64 + (b.toNat - 0x80) < 0xD800))
    refine ⟨c, ?_⟩
    simp only [String.utf8EncodeChar, hc]
    rw [if_neg (by omega), if_pos (by omega), ofNat_eq (a := a) (by omega),
      ofNat_eq (a := b) (by omega)]
  | [a, b, d], h =>
    simp only [Group, Tail] at h
    obtain ⟨c, hc⟩ := exists_char
      (by omega : (a.toNat - 0xE0) * 4096 + (b.toNat - 0x80) * 64 + (d.toNat - 0x80) < 0xD800 ∨
        0xDFFF < (a.toNat - 0xE0) * 4096 + (b.toNat - 0x80) * 64 + (d.toNat - 0x80) ∧
          (a.toNat - 0xE0) * 4096 + (b.toNat - 0x80) * 64 + (d.toNat - 0x80) < 0x110000)
    refine ⟨c, ?_⟩
    simp only [String.utf8EncodeChar, hc]
    rw [if_neg (by omega), if_neg (by omega), if_pos (by omega), ofNat_eq (a := a) (by omega),
      ofNat_eq (a := b) (by omega), ofNat_eq (a := d) (by omega)]
  | [a, b, d, e], h =>
    simp only [Group, Tail] at h
    obtain ⟨c, hc⟩ := exists_char
      (.inr (by omega : 0xDFFF < (a.toNat - 0xF0) * 262144 + (b.toNat - 0x80) * 4096 +
          (d.toNat - 0x80) * 64 + (e.toNat - 0x80) ∧
        (a.toNat - 0xF0) * 262144 + (b.toNat - 0x80) * 4096 + (d.toNat - 0x80) * 64 +
          (e.toNat - 0x80) < 0x110000))
    refine ⟨c, ?_⟩
    simp only [String.utf8EncodeChar, hc]
    rw [if_neg (by omega), if_neg (by omega), if_neg (by omega), ofNat_eq (a := a) (by omega),
      ofNat_eq (a := b) (by omega), ofNat_eq (a := d) (by omega), ofNat_eq (a := e) (by omega)]

/-! ## Sequences -/

theorem encoding_nil : Encoding [] := ⟨[], rfl⟩

/-- A sequence is encoded group by group. -/
theorem Encoding.append (hs : Encoding s) (hg : Group g) :
    Encoding (g ++ s) := by
  obtain ⟨c, rfl⟩ := exists_of_group hg
  obtain ⟨cs, rfl⟩ := hs
  exact ⟨c :: cs, by simp⟩

theorem Encoding.exists_group (h : Encoding (a :: s)) :
    ∃ g t, a :: s = g ++ t ∧ Group g ∧ Encoding t := by
  obtain ⟨cs, hcs⟩ := h
  match cs, hcs with
  | [], hcs => simp at hcs
  | c :: cs, hcs =>
    exact ⟨String.utf8EncodeChar c, cs.flatMap String.utf8EncodeChar, by simpa using hcs,
      group_utf8EncodeChar c, cs, rfl⟩

/-- The length of a group, from its first byte. -/
def groupLength (a : UInt8) : Nat :=
  if a.toNat < 0x80 then 1 else if a.toNat < 0xE0 then 2 else if a.toNat < 0xF0 then 3 else 4

theorem Group.length_eq (h : Group (a :: g)) :
    (a :: g).length = groupLength a := by
  unfold groupLength
  match g, h with
  | [], h =>
    simp only [Group] at h
    rw [if_pos h]
    rfl
  | [b], h =>
    simp only [Group] at h
    rw [if_neg (by omega), if_pos h.2.1]
    rfl
  | [b, c], h =>
    simp only [Group] at h
    rw [if_neg (by omega), if_neg (by omega), if_pos h.2.1]
    rfl
  | [b, c, d], h =>
    simp only [Group] at h
    rw [if_neg (by omega), if_neg (by omega), if_neg (by omega)]
    rfl

theorem groupLength_pos (a : UInt8) : 0 < groupLength a := by
  unfold groupLength
  split_ifs <;> decide

/-- A whole group is there. -/
theorem Group.le_length
    (h : Group ((a :: s).take (groupLength a))) : groupLength a ≤ (a :: s).length := by
  obtain ⟨k, hk⟩ := Nat.exists_eq_succ_of_ne_zero (Nat.pos_iff_ne_zero.mp (groupLength_pos a))
  rw [hk, List.take_succ_cons] at h
  have hlen := h.length_eq
  rw [List.length_cons, List.length_take, hk] at hlen
  rw [hk, List.length_cons]
  omega

/-- An encoding starts with the group of its first byte. -/
theorem encoding_cons :
    Encoding (a :: s) ↔
      Group ((a :: s).take (groupLength a)) ∧ Encoding ((a :: s).drop (groupLength a)) := by
  constructor
  · intro h
    obtain ⟨g, t, hgt, hg, ht⟩ := h.exists_group
    match g, hg with
    | b :: g, hg =>
      obtain rfl : a = b := (List.cons.inj hgt).1
      rw [hgt, ← hg.length_eq, List.take_left, List.drop_left]
      exact ⟨hg, ht⟩
  · intro h
    rw [← List.take_append_drop (groupLength a) (a :: s)]
    exact h.2.append h.1

end WasiLibc.Utf8
