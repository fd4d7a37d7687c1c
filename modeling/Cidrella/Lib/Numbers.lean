import Cidrella.Lib.Json
import Cidrella.Lib.Rounding
import Cidrella.Lib.Trim

/-!
# Numbers read from texts

`Number(text)` of JavaScript: decimal literals with a sign, a fraction and an exponent, whole
numbers in bases two, eight and sixteen, and zero for a text of nothing but blanks.

A double is a sign and a multiple of `2 ^ -1074`, which rounding to 53 digits keeps for whole
numbers below `2 ^ 53` (`rounded_of_lt`).
-/

set_option autoImplicit false

namespace Cidrella

namespace Numbers

open Text Rounding

/-- How many units there are in one. -/
def unitsInOne : Nat := 2 ^ 1074

theorem unitsInOne_pos : 0 < unitsInOne := Nat.two_pow_pos 1074

/-- A double that is not `NaN`. Infinity is the top. -/
structure Double where
  negative : Bool
  units : WithTop Nat
  deriving DecidableEq

/-- A quotient in units, rounded to 53 digits. -/
def nearestUnits (num den : Nat) : Nat :=
  let past := excess (num * unitsInOne / den)
  quotient (num * unitsInOne) (den * 2 ^ past) * 2 ^ past

/-- A quotient as the magnitude of a double. -/
def rounded (num den : Nat) : WithTop Nat :=
  if Nat.log2 (nearestUnits num den) < 1024 + 1074 then WithTop.some (nearestUnits num den) else ⊤

/-! ## Literals -/

/-- The digits after a point, if there is one, and what follows. -/
def fraction : Text → Text × Text
  | '.' :: rest => (rest.takeWhile Char.isDigit, rest.dropWhile Char.isDigit)
  | text => ([], text)

/-- The digits of a decimal literal and its power of ten. -/
def decimalLiteral (text : Text) : Option (Nat × Int) := do
  let whole := text.takeWhile Char.isDigit
  let (digits, rest) := fraction (text.dropWhile Char.isDigit)
  if whole = [] ∧ digits = [] then none
  else
    let power ← Json.exponent rest
    some (readDigits 10 (whole ++ digits), power - digits.length)

/-- A decimal literal without its sign. -/
def magnitude (text : Text) : Option (WithTop Nat) :=
  if text = "Infinity".toList then some ⊤
  else (decimalLiteral text).map fun (digits, power) =>
    rounded (digits * 10 ^ power.toNat) (10 ^ (-power).toNat)

/-- A whole number in another base. -/
def wholeNumber (base : Nat) (isDigit : Char → Bool) (digits : Text) : Option Double :=
  if digits ≠ [] ∧ digits.all isDigit then some ⟨false, rounded (readDigits base digits) 1⟩
  else none

/-- A text without blanks at its ends. `none` is `NaN`. -/
def literal : Text → Option Double
  | [] => some ⟨false, 0⟩
  | '0' :: 'x' :: digits => wholeNumber 16 isHexDigit digits
  | '0' :: 'X' :: digits => wholeNumber 16 isHexDigit digits
  | '0' :: 'o' :: digits => wholeNumber 8 (fun c => '0' ≤ c && c ≤ '7') digits
  | '0' :: 'O' :: digits => wholeNumber 8 (fun c => '0' ≤ c && c ≤ '7') digits
  | '0' :: 'b' :: digits => wholeNumber 2 (fun c => '0' ≤ c && c ≤ '1') digits
  | '0' :: 'B' :: digits => wholeNumber 2 (fun c => '0' ≤ c && c ≤ '1') digits
  | '-' :: rest => (magnitude rest).map fun units => ⟨true, units⟩
  | '+' :: rest => (magnitude rest).map fun units => ⟨false, units⟩
  | text => (magnitude text).map fun units => ⟨false, units⟩

/-- `Number(text)`. -/
def number (blank : Char → Bool) (text : Text) : Option Double := literal (trimBy blank text)

/-! ## Digits -/

theorem quotient_of_dvd {n unit : Nat} (whole : unit ∣ n) : quotient n unit * unit = n := by
  rcases Nat.eq_zero_or_pos unit with rfl | positive
  · rw [Nat.zero_dvd.mp whole, Nat.mul_zero]
  · have exact_ : 2 * (n % unit) < unit := by
      rw [Nat.mod_eq_zero_of_dvd whole]
      exact positive
    rw [quotient, if_pos (.inl exact_), Nat.div_mul_cancel whole]

/-- **A whole number with 53 digits is kept.** -/
theorem rounded_of_lt {n : Nat} (small : n < 2 ^ 53) :
    rounded n 1 = WithTop.some (n * unitsInOne) := by
  have bound (k : Nat) : n * 2 ^ k < 2 ^ (53 + k) := by
    rw [pow_add]
    exact Nat.mul_lt_mul_of_pos_right small (Nat.two_pow_pos k)
  have short : Nat.log2 (n * unitsInOne) < 53 + 1074 := by
    rcases Nat.eq_zero_or_pos (n * unitsInOne) with zero | positive
    · rw [zero]
      decide
    · exact (Nat.log2_lt positive.ne').mpr (bound 1074)
  have kept : nearestUnits n 1 = n * unitsInOne := by
    have past : excess (n * unitsInOne) ≤ 1074 := by
      rw [excess]
      omega
    rw [nearestUnits, Nat.div_one]
    simp only [one_mul]
    exact quotient_of_dvd (dvd_mul_of_dvd_right (pow_dvd_pow 2 past) n)
  rw [rounded, kept, if_pos (by omega)]

/-- **A run of digits is read as the number it spells.** -/
theorem number_of_digits {blank : Char → Bool} {digits : Text} (some_ : digits ≠ [])
    (all : digits.all Char.isDigit = true) (solid : ∀ c ∈ digits, blank c = false)
    (small : readDigits 10 digits < 2 ^ 53) :
    number blank digits = some ⟨false, WithTop.some (readDigits 10 digits * unitsInOne)⟩ := by
  have bare : trimBy blank digits = digits := by
    have core := @trimBy_padded blank [] digits [] (List.forall_mem_nil _) solid some_
    rwa [List.nil_append, List.append_nil] at core
  have plain : literal digits = (magnitude digits).map fun units => ⟨false, units⟩ := by
    unfold literal
    split
    case h_1 => exact absurd rfl some_
    case h_10 => rfl
    all_goals simp at all
  have finite : digits ≠ "Infinity".toList := by
    rintro rfl
    exact absurd all (by decide)
  have whole : digits.takeWhile Char.isDigit = digits := by
    rw [List.takeWhile_eq_self_iff]
    exact List.all_eq_true.mp all
  have rest : digits.dropWhile Char.isDigit = [] := by
    rw [List.dropWhile_eq_nil_iff]
    exact List.all_eq_true.mp all
  have read : decimalLiteral digits = some (readDigits 10 digits, 0) := by
    rw [decimalLiteral, whole, rest]
    simp [fraction, Json.exponent, some_]
  rw [number, bare, plain, magnitude, if_neg finite, read, Option.map_some, Option.map_some]
  simp only [Int.toNat_zero, pow_zero, mul_one, neg_zero, rounded_of_lt small]

end Numbers

end Cidrella
