import WasiLibc.Errno
import WasiLibc.Lib.Utf8

/-!
# WasiLibc.Path.Utf8

`wasi_string_from_c`: what the library hands to the host as a path.  The
scanner reads memory at an index; the memory is the string with its
terminator and no more, so that a read behind the terminator is an error of
the model.
-/

namespace WasiLibc.Path

open Utf8 Errno

/-- A string of C: the bytes in front of the terminator. -/
structure CString where
  bytes : List UInt8
  nulFree : 0 ∉ bytes

/-- The string as it lies in memory. -/
def CString.mem (s : CString) : List UInt8 := s.bytes ++ [0]

/-- A read behind the terminator. -/
inductive Fault where
  | overread
deriving DecidableEq, Repr

def read (ptr : List UInt8) (i : Nat) : Except Fault UInt8 :=
  match ptr[i]? with
  | some c => .ok c
  | none => .error .overread

/-- The length of the group that starts with `c` at `i`, or `none` if no
group starts so. -/
def codepointSize (ptr : List UInt8) (i : Nat) (c : UInt8) : Except Fault (Option Nat) := do
  if c &&& 0xE0 = 0xC0 then
    if c ≤ 0xC1 then return none
    return some 2
  else if c &&& 0xF0 = 0xE0 then
    if c = 0xE0 then
      if (← read ptr (i + 1)) &&& 0x20 = 0x00 then return none
    if c = 0xED then
      if (← read ptr (i + 1)) ≥ 0xA0 then return none
    return some 3
  else if c &&& 0xF8 = 0xF0 then
    if c = 0xF0 then
      if (← read ptr (i + 1)) &&& 0x30 = 0x00 then return none
    if c = 0xF4 then
      if (← read ptr (i + 1)) ≥ 0x90 then return none
    if c > 0xF4 then return none
    return some 4
  else
    return none

/-- Are the `n` bytes from `i` on continuation bytes? -/
def continuations (ptr : List UInt8) (i : Nat) : Nat → Except Fault Bool
  | 0 => return true
  | n + 1 => do
    if (← read ptr i) &&& 0xC0 ≠ 0x80 then return false
    continuations ptr (i + 1) n

/-- The loop of `validate_utf8` from `i` on, or `none` for a return of -1. -/
def validateFrom (ptr : List UInt8) (i : Nat) : Except Fault (Option Nat) :=
  if h : i < ptr.length then
    let c := ptr[i]
    if c = 0x00 then .ok (some i)
    else if c ≤ 0x7F then validateFrom ptr (i + 1)
    else
      match codepointSize ptr i c with
      | .error e => .error e
      | .ok none => .ok none
      | .ok (some size) =>
        match continuations ptr (i + 1) (size - 1) with
        | .error e => .error e
        | .ok false => .ok none
        -- `size` is positive
        | .ok true => validateFrom ptr (i + 1 + (size - 1))
  else .error .overread
termination_by ptr.length - i

/-- The conversion of `size_t` to `int`. -/
def toInt (n : Nat) : Int := (BitVec.ofNat 32 n).toInt

def validateUtf8 (ptr : List UInt8) : Except Fault Int := do
  match ← validateFrom ptr 0 with
  | none => return -1
  | some i => return toInt i

structure WasiString where
  ptr : List UInt8
  len : Nat

def wasiStringFromC (s : List UInt8) : Except Fault (Except Errno WasiString) := do
  let len ← validateUtf8 s
  if len < 0 then
    return .error EILSEQ
  return .ok ⟨s, len.toNat⟩

/-! ## Bytes -/

theorem forall_byte {P : UInt8 → Prop} (h : ∀ n < 256, P (UInt8.ofNat n)) (c : UInt8) : P c := by
  have hc := h c.toNat c.toNat_lt
  rwa [UInt8.ofNat_toNat] at hc

theorem and_two : ∀ c : UInt8, c &&& 0xE0 = 0xC0 ↔ 0xC0 ≤ c.toNat ∧ c.toNat < 0xE0 :=
  forall_byte (by decide +kernel)

theorem and_three : ∀ c : UInt8, c &&& 0xF0 = 0xE0 ↔ 0xE0 ≤ c.toNat ∧ c.toNat < 0xF0 :=
  forall_byte (by decide +kernel)

theorem and_four : ∀ c : UInt8, c &&& 0xF8 = 0xF0 ↔ 0xF0 ≤ c.toNat ∧ c.toNat < 0xF8 :=
  forall_byte (by decide +kernel)

theorem and_tail : ∀ c : UInt8, c &&& 0xC0 = 0x80 ↔ Tail c :=
  forall_byte (by decide +kernel)

theorem and_overlong_three : ∀ b : UInt8, Tail b → (b &&& 0x20 = 0 ↔ b.toNat < 0xA0) :=
  forall_byte (by decide +kernel)

theorem and_overlong_four : ∀ b : UInt8, Tail b → (b &&& 0x30 = 0 ↔ b.toNat < 0x90) :=
  forall_byte (by decide +kernel)

/-! ## Reads -/

/-- At `i` the memory holds the bytes `t` and the terminator. -/
def At (ptr : List UInt8) (i : Nat) (t : List UInt8) : Prop := ptr.drop i = t ++ [0]

theorem CString.at_mem (s : CString) : At s.mem 0 s.bytes := rfl

variable {ptr t : List UInt8} {i : Nat} {c : UInt8}

theorem At.getElem? (h : At ptr i t) : ptr[i]? = some (t.headD 0) := by
  have hi : (ptr.drop i)[0]? = some (t.headD 0) := by
    rw [h]
    cases t <;> rfl
  simpa using hi

theorem At.read (h : At ptr i t) : read ptr i = .ok (t.headD 0) := by
  rw [Path.read, h.getElem?]

theorem At.drop (h : At ptr i t) {n : Nat} (hn : n ≤ t.length) : At ptr (i + n) (t.drop n) := by
  rw [At, ← List.drop_drop, h, List.drop_append_of_le_length hn]

theorem At.tail (h : At ptr i (c :: t)) : At ptr (i + 1) t := h.drop (n := 1) (by simp)

/-! ## One group -/

/-- The loop over the continuation bytes.  It stops at the terminator, which
is none. -/
theorem continuations_eq (h : At ptr i t) (n : Nat) :
    continuations ptr i n = .ok (decide (n ≤ t.length ∧ ∀ b ∈ t.take n, Tail b)) := by
  induction n generalizing i t with
  | zero => simp [continuations, pure, Except.pure]
  | succ n ih =>
    simp only [continuations, h.read, bind, Except.bind, ne_eq, and_tail]
    cases t with
    | nil =>
      rw [if_pos (by decide)]
      simp [pure, Except.pure]
    | cons b t =>
      by_cases hb : Tail b
      · rw [if_neg (by simpa using hb), ih h.tail]
        simp [hb]
      · rw [if_pos (by simpa using hb)]
        simp [hb, pure, Except.pure]

/-- The first two bytes that no group starts with. -/
def NoLead (c b : UInt8) : Prop :=
  c.toNat < 0xC2 ∨ c = 0xE0 ∧ b &&& 0x20 = 0 ∨ c = 0xED ∧ 0xA0 ≤ b ∨ c = 0xF0 ∧ b &&& 0x30 = 0 ∨
    c = 0xF4 ∧ 0x90 ≤ b ∨ 0xF4 < c

instance (c b : UInt8) : Decidable (NoLead c b) := inferInstanceAs (Decidable (_ ∨ _))

theorem eq_byte (c : UInt8) {n : Nat} (h : n < 256) : c = UInt8.ofNat n ↔ c.toNat = n := by
  rw [← UInt8.toNat_inj, toNat_ofNat h]

/-- The conditions of `NoLead` as ranges. -/
theorem noLead_iff (c b : UInt8) :
    NoLead c b ↔ c.toNat < 0xC2 ∨ c.toNat = 0xE0 ∧ b &&& 0x20 = 0 ∨
      c.toNat = 0xED ∧ 0xA0 ≤ b.toNat ∨ c.toNat = 0xF0 ∧ b &&& 0x30 = 0 ∨
      c.toNat = 0xF4 ∧ 0x90 ≤ b.toNat ∨ 0xF4 < c.toNat := by
  have hE0 : c = 0xE0 ↔ c.toNat = 0xE0 := eq_byte c (by decide)
  have hED : c = 0xED ↔ c.toNat = 0xED := eq_byte c (by decide)
  have hF0 : c = 0xF0 ↔ c.toNat = 0xF0 := eq_byte c (by decide)
  have hF4 : c = 0xF4 ↔ c.toNat = 0xF4 := eq_byte c (by decide)
  simp only [NoLead, hE0, hED, hF0, hF4, UInt8.le_iff_toNat_le, UInt8.lt_iff_toNat_lt]
  rfl

theorem codepointSize_eq (h : At ptr i (c :: t)) (hc : 0x80 ≤ c.toNat) :
    codepointSize ptr i c = .ok (if NoLead c (t.headD 0) then none else some (groupLength c)) := by
  have hread := h.tail.read
  generalize t.headD 0 = b at hread ⊢
  have hE0 : c = 0xE0 ↔ c.toNat = 0xE0 := eq_byte c (by decide)
  have hED : c = 0xED ↔ c.toNat = 0xED := eq_byte c (by decide)
  have hF0 : c = 0xF0 ↔ c.toNat = 0xF0 := eq_byte c (by decide)
  have hF4 : c = 0xF4 ↔ c.toNat = 0xF4 := eq_byte c (by decide)
  have hgt : c > 0xF4 ↔ 0xF4 < c.toNat := UInt8.lt_iff_toNat_lt
  have hC1 : c ≤ 0xC1 ↔ c.toNat ≤ 0xC1 := UInt8.le_iff_toNat_le
  simp only [codepointSize, hread, and_two, and_three, and_four, NoLead, hE0, hED, hF0, hF4, hgt,
    hC1, groupLength, bind, Except.bind, pure, Except.pure]
  generalize c.toNat = v at *
  split
  · grind
  split
  · grind
  · grind

/-- What the scanner checks of a group is that it is one. -/
theorem group_take (hc : 0x80 ≤ c.toNat) :
    Utf8.Group ((c :: t).take (groupLength c)) ↔ ¬ NoLead c (t.headD 0) ∧
      groupLength c - 1 ≤ t.length ∧ ∀ b ∈ t.take (groupLength c - 1), Tail b := by
  rw [noLead_iff]
  unfold groupLength
  rw [if_neg (by omega)]
  split
  · cases t with
    | nil => grind [Utf8.Group]
    | cons b t => grind [Utf8.Group]
  split
  · rcases t with _ | ⟨b, _ | ⟨d, t⟩⟩
    · grind [Utf8.Group]
    · grind [Utf8.Group]
    · grind [Utf8.Group, and_overlong_three]
  · rcases t with _ | ⟨b, _ | ⟨d, _ | ⟨e, t⟩⟩⟩
    · grind [Utf8.Group]
    · grind [Utf8.Group]
    · grind [Utf8.Group]
    · have hb := and_overlong_four b
      simp only [List.take_succ_cons, List.take_zero, Utf8.Group, List.headD_cons, List.length_cons,
        List.forall_mem_cons]
      grind

/-! ## The whole string -/

theorem validateFrom_nil (h : At ptr i []) : validateFrom ptr i = .ok (some i) := by
  obtain ⟨hi, hget⟩ := List.getElem?_eq_some_iff.mp h.getElem?
  rw [validateFrom, dif_pos hi]
  simp only [hget, List.headD_nil]
  rfl

/-- One turn of the loop: it goes on behind a group, and fails otherwise. -/
theorem validateFrom_cons (h : At ptr i (c :: t)) (hc : c ≠ 0) :
    (Utf8.Group ((c :: t).take (groupLength c)) →
      validateFrom ptr i = validateFrom ptr (i + groupLength c)) ∧
    (¬ Utf8.Group ((c :: t).take (groupLength c)) → validateFrom ptr i = .ok none) := by
  obtain ⟨hi, hget⟩ := List.getElem?_eq_some_iff.mp h.getElem?
  rw [List.headD_cons] at hget
  have hle : c ≤ 0x7F ↔ c.toNat < 0x80 := by
    rw [UInt8.le_iff_toNat_le]
    exact Nat.lt_succ_iff.symm
  rw [validateFrom, dif_pos hi]
  simp only [hget, hc, hle, if_false]
  by_cases hascii : c.toNat < 0x80
  · simp [hascii, groupLength, Utf8.Group]
  · have hc' : 0x80 ≤ c.toNat := by omega
    rw [if_neg hascii, codepointSize_eq h hc', group_take hc']
    by_cases hlead : NoLead c (t.headD 0)
    · rw [if_pos hlead]
      exact ⟨fun hg => absurd hlead hg.1, fun _ => rfl⟩
    · have hpos : 1 + (groupLength c - 1) = groupLength c := by
        have hpos := groupLength_pos c
        omega
      simp only [if_neg hlead, continuations_eq h.tail, Nat.add_assoc, hpos]
      by_cases htail : groupLength c - 1 ≤ t.length ∧ ∀ b ∈ t.take (groupLength c - 1), Tail b
      · rw [decide_eq_true htail]
        exact ⟨fun _ => rfl, fun hg => absurd ⟨hlead, htail⟩ hg⟩
      · rw [decide_eq_false htail]
        exact ⟨fun hg => absurd hg.2 htail, fun _ => rfl⟩

/-- The loop accepts the encodings, and returns where the terminator is. -/
theorem validateFrom_eq (h : At ptr i t) (ht : 0 ∉ t) :
    (Encoding t → validateFrom ptr i = .ok (some (i + t.length))) ∧
    (¬ Encoding t → validateFrom ptr i = .ok none) := by
  induction hn : t.length using Nat.strongRecOn generalizing i t with
  | ind n ih =>
    cases t with
    | nil =>
      subst hn
      exact ⟨fun _ => validateFrom_nil h, fun hnot => absurd encoding_nil hnot⟩
    | cons c t =>
      have hc : c ≠ 0 := fun hc => ht (by simp [hc])
      obtain ⟨hgroup, hnot⟩ := validateFrom_cons h hc
      rw [encoding_cons]
      by_cases hg : Utf8.Group ((c :: t).take (groupLength c))
      · have hlen := hg.le_length
        have hpos := groupLength_pos c
        obtain ⟨hyes, hno⟩ := ih _ (by rw [List.length_drop]; omega) (h.drop hlen)
          (fun h0 => ht (List.mem_of_mem_drop h0)) rfl
        rw [hgroup hg]
        refine ⟨fun henc => ?_, fun henc => hno fun hd => henc ⟨hg, hd⟩⟩
        rw [hyes henc.2, List.length_drop]
        congr 2
        omega
      · exact ⟨fun henc => absurd henc.1 hg, fun _ => hnot hg⟩

theorem toInt_eq {n : Nat} (h : n < 2 ^ 31) : toInt n = n := by
  rw [toInt, BitVec.toInt_eq_toNat_cond, BitVec.toNat_ofNat, Nat.mod_eq_of_lt (by omega),
    if_pos (by omega)]

/-- `wasi_string_from_c` accepts exactly the UTF-8 encodings of sequences of
Unicode scalar values, reports the length of the string, and reads nothing
behind the terminator. -/
theorem wasiStringFromC_iff (s : CString) (hlen : s.bytes.length < 2 ^ 31) :
    ∃ r, wasiStringFromC s.mem = .ok r ∧
      ((∃ out, r = .ok out) ↔ ∃ cs : List Char, s.bytes = cs.flatMap String.utf8EncodeChar) ∧
      (∀ out, r = .ok out → out = ⟨s.mem, s.bytes.length⟩) ∧
      (∀ e, r = .error e → e = EILSEQ) := by
  obtain ⟨hyes, hno⟩ := validateFrom_eq s.at_mem s.nulFree
  by_cases h : Encoding s.bytes
  · refine ⟨.ok ⟨s.mem, s.bytes.length⟩, ?_, ⟨fun _ => h, fun _ => ⟨_, rfl⟩⟩, ?_, ?_⟩
    · simp only [wasiStringFromC, validateUtf8, hyes h, bind, Except.bind, pure, Except.pure,
        Nat.zero_add, toInt_eq hlen]
      rw [if_neg (by omega), Int.toNat_natCast]
    · intro out hout
      exact (Except.ok.inj hout).symm
    · intro e he
      cases he
  · refine ⟨.error EILSEQ, ?_, ⟨?_, fun henc => absurd henc h⟩, ?_, ?_⟩
    · simp [wasiStringFromC, validateUtf8, hno h, bind, Except.bind, pure, Except.pure]
    · rintro ⟨out, hout⟩
      cases hout
    · intro out hout
      cases hout
    · intro e he
      exact (Except.error.inj he).symm

/-- The bytes of é. -/
theorem wasiStringFromC_iff_accent :
    ∃ r, wasiStringFromC [0xC3, 0xA9, 0] = .ok r ∧
      ((∃ out, r = .ok out) ↔
        ∃ cs : List Char, [0xC3, 0xA9] = cs.flatMap String.utf8EncodeChar) ∧
      (∀ out, r = .ok out → out = ⟨[0xC3, 0xA9, 0], 2⟩) ∧
      (∀ e, r = .error e → e = EILSEQ) :=
  wasiStringFromC_iff ⟨[0xC3, 0xA9], by decide⟩ (by decide)

end WasiLibc.Path
