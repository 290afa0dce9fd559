import WasiLibc.Errno

/-!
# WasiLibc.Netdb.Port

`__wasilibc_parse_port`, which reads a port number with `strtol`.  A string is
the list of its bytes without the terminating NUL.

`parsePort_eq`: what is accepted are the strings of decimal digits, not empty
and of a value of at most 65535, although `strtol` also accepts white space, a
sign and what does not end after the number, and cuts numbers that are too
large.
-/

namespace WasiLibc.Netdb

/-! ## Strings of digits -/

def isspace (c : UInt8) : Bool := c = 0x20 || 0x09 ≤ c && c ≤ 0x0D

def isdigit (c : UInt8) : Bool := 0x30 ≤ c && c ≤ 0x39

/-- The value of a string of digits. -/
def decimal (digits : List UInt8) : Nat :=
  digits.foldl (fun n c => 10 * n + (c - 0x30).toNat) 0

/-! ## `strtol` -/

def LONG_MIN : Int := -2 ^ 31
def LONG_MAX : Int := 2 ^ 31 - 1

/-- What `strtol` leaves: its result, the string that `end` points to, and
`errno` if it is set. -/
structure Strtol where
  value : Int
  rest : List UInt8
  errno : Option Errno
  deriving DecidableEq

/-- An optional sign: whether it is a minus, and what follows it. -/
def sign : List UInt8 → Bool × List UInt8
  | [] => (false, [])
  | c :: cs => if c = 0x2D then (true, cs) else if c = 0x2B then (false, cs) else (false, c :: cs)

/-- `strtol` with base 10. -/
def strtol (s : List UInt8) : Strtol :=
  let (neg, body) := sign (s.dropWhile isspace)
  let digits := body.takeWhile isdigit
  let rest := body.dropWhile isdigit
  if digits = [] then ⟨0, s, some .EINVAL⟩
  else
    let n : Int := if neg then -(decimal digits : Int) else decimal digits
    if n < LONG_MIN then ⟨LONG_MIN, rest, some .ERANGE⟩
    else if n > LONG_MAX then ⟨LONG_MAX, rest, some .ERANGE⟩
    else ⟨n, rest, none⟩

/-! ## Ports -/

/-- `__wasilibc_parse_port`. -/
def parsePort (portStr : List UInt8) : Int :=
  let r := strtol portStr
  if r.errno ≠ none ∨ r.rest ≠ [] ∨ r.value < 0 ∨ r.value > 65535 ∨
      ¬ portStr.head?.any isdigit then -1
  else r.value

/-- The string is the decimal form of a port. -/
def IsPort (s : List UInt8) : Prop := s ≠ [] ∧ (∀ c ∈ s, isdigit c = true) ∧ decimal s ≤ 65535

instance (s : List UInt8) : Decidable (IsPort s) := by
  unfold IsPort
  infer_instance

/-- `strtol` of a string that starts with a digit. -/
theorem strtol_digit {c : UInt8} (hc : isdigit c = true) (cs : List UInt8) :
    strtol (c :: cs) =
      if (decimal ((c :: cs).takeWhile isdigit) : Int) > LONG_MAX then
        ⟨LONG_MAX, (c :: cs).dropWhile isdigit, some .ERANGE⟩
      else ⟨decimal ((c :: cs).takeWhile isdigit), (c :: cs).dropWhile isdigit, none⟩ := by
  have hspace : isspace c = false := by
    simp only [isdigit, isspace, Bool.and_eq_true, decide_eq_true_eq, UInt8.le_iff_toNat_le,
      UInt8.toNat_ofNat, Bool.or_eq_false_iff, decide_eq_false_iff_not, Bool.and_eq_false_iff] at *
    refine ⟨?_, .inr (by omega)⟩
    rintro rfl
    exact absurd hc (by decide)
  have hsign : sign (c :: cs) = (false, c :: cs) := by
    have hminus : c ≠ 0x2D := by
      rintro rfl
      exact absurd hc (by decide)
    have hplus : c ≠ 0x2B := by
      rintro rfl
      exact absurd hc (by decide)
    rw [sign, if_neg hminus, if_neg hplus]
  have hdigits : (c :: cs).takeWhile isdigit ≠ [] := by
    rw [List.takeWhile_cons_of_pos hc]
    exact List.cons_ne_nil _ _
  have hpos : ¬ ((decimal ((c :: cs).takeWhile isdigit) : Int) < LONG_MIN) := by
    unfold LONG_MIN
    omega
  unfold strtol
  rw [List.dropWhile_cons_of_neg (by simp [hspace]), hsign]
  simp only [if_neg hdigits, Bool.false_eq_true, if_false, if_neg hpos]

/-- **A port is accepted just if it is written in decimal digits only.** -/
theorem parsePort_eq (s : List UInt8) :
    parsePort s = if IsPort s then (decimal s : Int) else -1 := by
  cases s with
  | nil => rfl
  | cons c cs =>
    unfold parsePort
    by_cases hc : isdigit c = true
    · have hhead : (c :: cs).head?.any isdigit := hc
      simp only [strtol_digit hc, hhead]
      by_cases hall : ∀ d ∈ c :: cs, isdigit d = true
      · have htake : (c :: cs).takeWhile isdigit = c :: cs := List.takeWhile_eq_self_iff.mpr hall
        have hdrop : (c :: cs).dropWhile isdigit = [] := List.dropWhile_eq_nil_iff.mpr hall
        have hport : IsPort (c :: cs) ↔ decimal (c :: cs) ≤ 65535 := by
          simp only [IsPort, and_iff_right hall, ne_eq, List.cons_ne_nil, not_false_eq_true,
            true_and]
        simp only [htake, hdrop, hport, LONG_MAX]
        split <;> split <;> simp at * <;> omega
      · have hdrop : (c :: cs).dropWhile isdigit ≠ [] := mt List.dropWhile_eq_nil_iff.mp hall
        have hport : ¬ IsPort (c :: cs) := fun h => hall h.2.1
        rw [if_neg hport]
        refine if_pos (.inr (.inl ?_))
        split <;> exact hdrop
    · have hport : ¬ IsPort (c :: cs) := fun h => hc (h.2.1 c List.mem_cons_self)
      rw [if_neg hport]
      exact if_pos (.inr (.inr (.inr (.inr hc))))

/-- White space, signs and other things that `strtol` takes. -/
example : parsePort "8080".toUTF8.toList = 8080 ∧ parsePort " 80".toUTF8.toList = -1 ∧
    parsePort "+80".toUTF8.toList = -1 ∧ parsePort "80x".toUTF8.toList = -1 ∧
    parsePort "65536".toUTF8.toList = -1 := by decide +kernel

end WasiLibc.Netdb
