import Mathlib.Tactic
import Mathlib.Order.WithBot

/-!
# Natural numbers as doubles

The binary64 number a natural number is read as: the nearest multiple of a power of two with
53 digits, the even one of two that are as near (`nearest`), and infinity once that is
`2 ^ 1024` or more. Small numbers are read as they are (`toDouble_of_lt`).
-/

set_option autoImplicit false

namespace Cidrella

namespace Rounding

/-- How many binary digits of a number are past the first 53. -/
def excess (n : Nat) : Nat := Nat.log2 n - 52

/-- A quotient rounded to nearest, to even where that is undecided. -/
def quotient (n unit : Nat) : Nat :=
  if 2 * (n % unit) < unit ∨ (2 * (n % unit) = unit ∧ n / unit % 2 = 0) then n / unit
  else n / unit + 1

/-- The nearest number with 53 digits. -/
def nearest (n : Nat) : Nat := quotient n (2 ^ excess n) * 2 ^ excess n

/-- A natural number as a double. Infinity is the top. -/
def toDouble (n : Nat) : WithTop Nat := if Nat.log2 (nearest n) < 1024 then WithTop.some (nearest n)
    else ⊤

theorem two_pow_excess_le {n : Nat} (past : 0 < excess n) : 2 ^ (52 + excess n) ≤ n := by
  have some : n ≠ 0 := by
    rintro rfl
    simp [excess] at past
  have exponent : 52 + excess n = Nat.log2 n := by
    unfold excess at past ⊢
    omega
  rw [exponent]
  exact Nat.log2_self_le some

theorem excess_of_lt {n : Nat} (small : n < 2 ^ 53) : excess n = 0 := by
  by_contra past
  have least := two_pow_excess_le (Nat.pos_of_ne_zero past)
  have : 2 ^ 53 ≤ 2 ^ (52 + excess n) := Nat.pow_le_pow_right (by norm_num) (by omega)
  omega

theorem nearest_of_lt {n : Nat} (small : n < 2 ^ 53) : nearest n = n := by
  rw [nearest, excess_of_lt small, quotient, pow_zero, Nat.mod_one, Nat.div_one,
    if_pos (.inl (by norm_num)), mul_one]

/-- **A number with 53 digits is read as it is.** -/
theorem toDouble_of_lt {n : Nat} (small : n < 2 ^ 53) : toDouble n = WithTop.some n := by
  have finite : Nat.log2 n < 1024 := by
    have none := excess_of_lt small
    unfold excess at none
    omega
  rw [toDouble, nearest_of_lt small, if_pos finite]

end Rounding

end Cidrella
