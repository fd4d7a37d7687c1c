import Mathlib.Algebra.Order.Field.Rat
import Mathlib.Algebra.Order.Field.Power
import Mathlib.Data.Nat.Log
import Mathlib.Tactic.FieldSimp
import Mathlib.Tactic.NormNum.Pow

/-!
# Numbers in an array of bytes

Numbers of a fixed width, low byte first (`elements_flatMap`): unsigned ones, signed ones
in two's complement (`toInt16_ofInt16`), and natural numbers below `2 ^ 53` in the 64 bits of
a floating-point number, which holds them exactly (`ofBits_bitsOfNat`).
-/

set_option autoImplicit false

namespace TypedArrays

/-- A number in `count` bytes, low byte first. -/
def bytesLE : Nat → Nat → List UInt8
  | 0, _ => []
  | count + 1, n => UInt8.ofNat n :: bytesLE count (n / 256)

/-- The number in the bytes, low byte first. -/
def numberLE : List UInt8 → Nat
  | [] => 0
  | byte :: rest => byte.toNat + 256 * numberLE rest

@[simp] theorem length_bytesLE (count n : Nat) : (bytesLE count n).length = count := by
  induction count generalizing n with
  | zero => rfl
  | succ count ih => rw [bytesLE, List.length_cons, ih]

theorem numberLE_bytesLE (count n : Nat) : numberLE (bytesLE count n) = n % 256 ^ count := by
  induction count generalizing n with
  | zero => rw [bytesLE, numberLE, Nat.pow_zero, Nat.mod_one]
  | succ count ih =>
    have split := Nat.mod_mul (x := n) (a := 256) (b := 256 ^ count)
    rw [bytesLE, numberLE, ih, UInt8.toNat_ofNat', show 256 ^ (count + 1) = 256 *
      256 ^ count from Nat.pow_succ']
    exact split.symm

/-- `count` numbers of `size` bytes each. -/
def elements (size : Nat) : Nat → List UInt8 → List Nat
  | 0, _ => []
  | count + 1, bytes => numberLE (bytes.take size) :: elements size count (bytes.drop size)

/-- **Numbers are read as they were written**, up to their width. -/
theorem elements_flatMap (size : Nat) (numbers : List Nat) :
    elements size numbers.length (numbers.flatMap (bytesLE size)) = numbers.map
    (· % 256 ^ size) := by
  induction numbers with
  | nil => rfl
  | cons n numbers ih =>
    rw [List.length_cons, elements, List.flatMap_cons, List.take_left' (length_bytesLE size n),
      List.drop_left' (length_bytesLE size n), numberLE_bytesLE, ih, List.map_cons]

theorem length_flatMap_bytesLE (size : Nat) (numbers : List Nat) :
    (numbers.flatMap (bytesLE size)).length = size * numbers.length := by
  induction numbers with
  | nil => rfl
  | cons n numbers ih =>
    rw [List.flatMap_cons, List.length_append, length_bytesLE, ih, List.length_cons, Nat.mul_succ,
      Nat.add_comm]

/-! ## Signed numbers -/

/-- A signed number as one of sixteen bits. -/
def ofInt16 (n : Int) : Nat := (n % 2 ^ 16).toNat

/-- The signed number of sixteen bits. -/
def toInt16 (bits : Nat) : Int := if bits < 2 ^ 15 then bits else bits - 2 ^ 16

theorem ofInt16_lt (n : Int) : ofInt16 n < 2 ^ 16 := by
  unfold ofInt16
  omega

theorem toInt16_ofInt16 {n : Int} (inside : -2 ^ 15 ≤ n ∧ n < 2 ^ 15) :
    toInt16 (ofInt16 n) = n := by
  unfold toInt16 ofInt16
  split_ifs <;> omega

/-! ## Floating-point numbers -/

/-- A floating-point number: its exact value, when it has one. -/
inductive Double where
  | nan
  | infinite (negative : Bool)
  | finite (value : ℚ)
  deriving DecidableEq

/-- `x <= bound`. -/
def Double.atMost (bound : Nat) : Double → Bool
  | nan => false
  | infinite negative => negative
  | finite value => value ≤ bound

/-- The floating-point number of 64 bits. -/
def ofBits (bits : Nat) : Double :=
  let negative := decide (bits / 2 ^ 63 % 2 = 1)
  let exponent : Nat := bits / 2 ^ 52 % 2 ^ 11
  let fraction : Nat := bits % 2 ^ 52
  let sign : ℚ := if negative then -1 else 1
  if exponent = 2 ^ 11 - 1 then if fraction = 0 then .infinite negative else .nan
  else if exponent = 0 then .finite (sign * fraction * 2 ^ (-1074 : Int))
  else .finite (sign * (2 ^ 52 + fraction) * 2 ^ ((exponent : Int) - 1075))

/-- The 64 bits of a natural number below `2 ^ 53`. -/
def bitsOfNat (n : Nat) : Nat :=
  if n = 0 then 0 else (1023 + Nat.log 2 n) * 2 ^ 52 + (n * 2 ^ (52 - Nat.log 2 n) - 2 ^ 52)

section
variable {n : Nat} (positive : n ≠ 0) (exact_ : n < 2 ^ 53)
include positive exact_

theorem fraction_bounds : 2 ^ 52 ≤ n * 2 ^ (52 - Nat.log 2 n) ∧ n * 2 ^ (52 - Nat.log 2 n) <
    2 ^ 53 := by
  have top : Nat.log 2 n < 53 := Nat.log_lt_of_lt_pow positive exact_
  have low := Nat.pow_log_le_self 2 positive
  have high := Nat.lt_pow_succ_log_self (by decide : 1 < 2) n
  constructor
  · calc 2 ^ 52 = 2 ^ Nat.log 2 n * 2 ^ (52 - Nat.log 2 n) := by rw [← Nat.pow_add]; congr 1; omega
      _ ≤ n * 2 ^ (52 - Nat.log 2 n) := Nat.mul_le_mul_right _ low
  · calc n * 2 ^ (52 - Nat.log 2 n) < 2 ^ (Nat.log 2 n + 1) * 2 ^ (52 - Nat.log 2 n) :=
          Nat.mul_lt_mul_of_pos_right high (Nat.two_pow_pos _)
      _ = 2 ^ 53 := by rw [← Nat.pow_add]; congr 1; omega

theorem ofBits_bitsOfNat_pos : ofBits (bitsOfNat n) = .finite n := by
  have bounds := fraction_bounds positive exact_
  have top : Nat.log 2 n < 53 := Nat.log_lt_of_lt_pow positive exact_
  have bits : bitsOfNat n = (1023 + Nat.log 2 n) * 2 ^ 52 + (n * 2 ^ (52 - Nat.log 2 n) - 2 ^ 52) :=
    if_neg positive
  generalize shifted : n * 2 ^ (52 - Nat.log 2 n) = m at bounds bits
  have sign : bitsOfNat n / 2 ^ 63 % 2 ≠ 1 := by omega
  have exponent : bitsOfNat n / 2 ^ 52 % 2 ^ 11 = 1023 + Nat.log 2 n := by omega
  have fraction : bitsOfNat n % 2 ^ 52 = m - 2 ^ 52 := by omega
  have value : (2 ^ 52 + ((m - 2 ^ 52 : Nat) : ℚ)) * 2 ^
      (((1023 + Nat.log 2 n : Nat) : Int) - 1075) = n := by
    have whole : (2 ^ 52 + ((m - 2 ^ 52 : Nat) : ℚ)) = n * 2 ^ (52 - Nat.log 2 n) := by
      have sum : 2 ^ 52 + (m - 2 ^ 52) = n * 2 ^ (52 - Nat.log 2 n) := by omega
      exact_mod_cast sum
    have power : ((1023 + Nat.log 2 n : Nat) : Int) - 1075 =
        -((52 - Nat.log 2 n : Nat) : Int) := by omega
    rw [whole, power, zpow_neg, zpow_natCast, mul_assoc,
      mul_inv_cancel₀ (pow_ne_zero _ two_ne_zero), mul_one]
  simp only [ofBits, sign, exponent, fraction, decide_false, Bool.false_eq_true, if_false,
    one_mul, value, if_neg (show 1023 + Nat.log 2 n ≠ 2 ^ 11 - 1 by omega),
    if_neg (show 1023 + Nat.log 2 n ≠ 0 by omega)]

end

theorem bitsOfNat_lt {n : Nat} (exact_ : n < 2 ^ 53) : bitsOfNat n < 2 ^ 64 := by
  by_cases zero : n = 0
  · rw [zero]
    decide
  · have bounds := fraction_bounds zero exact_
    have top : Nat.log 2 n < 53 := Nat.log_lt_of_lt_pow zero exact_
    rw [bitsOfNat, if_neg zero]
    omega

/-- **A natural number below `2 ^ 53` is held exactly.** -/
theorem ofBits_bitsOfNat {n : Nat} (exact_ : n < 2 ^ 53) : ofBits (bitsOfNat n) = .finite n := by
  by_cases zero : n = 0
  · subst zero
    norm_num [ofBits, bitsOfNat]
  · exact ofBits_bitsOfNat_pos zero exact_

/-- The low byte of a number below `2 ^ 45` is zero: its bits all stand higher. -/
theorem bitsOfNat_mod {n : Nat} (small : n < 2 ^ 45) : bitsOfNat n % 256 = 0 := by
  by_cases zero : n = 0
  · rw [zero]
    rfl
  · have top : Nat.log 2 n < 45 := Nat.log_lt_of_lt_pow zero small
    have shift : n * 2 ^ (52 - Nat.log 2 n) = n * 2 ^ (52 - Nat.log 2 n - 8) * 256 := by
      rw [Nat.mul_assoc, show 256 = 2 ^ 8 from rfl, ← Nat.pow_add]
      congr 2
      omega
    rw [bitsOfNat, if_neg zero, shift]
    omega

end TypedArrays
