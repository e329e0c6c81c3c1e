import Mathlib.Algebra.Order.Ring.Int
import Mathlib.Algebra.Field.Rat
import Mathlib.Data.Int.Cast.Lemmas
import Mathlib.Data.Rat.Lemmas

/-! # Doubles

A `double` is a number with 53 binary digits, of which the last stands for `2 ^ -1074` or more.
The result of an operation is the `double` nearest to the exact one. Numbers that are too large
for a `double` are not told apart from others.
-/

namespace Double

/-- The natural number nearest to a quotient, and the even one of two that are. -/
def nearest (n d : ℕ) : ℕ :=
  if 2 * (n % d) < d ∨ 2 * (n % d) = d ∧ n / d % 2 = 0 then n / d else n / d + 1

/-- The exponent of the last digit of a quotient. -/
def lastDigit (n d : ℕ) : ℤ :=
  let first : ℤ := if d * 2 ^ n.log2 ≤ n * 2 ^ d.log2 then n.log2 - d.log2
    else n.log2 - d.log2 - 1
  max (first - 52) (-1074)

/-- The `double` nearest to a number. -/
def round (x : ℚ) : ℚ :=
  let last := lastDigit x.num.natAbs x.den
  let digits := nearest (x.num.natAbs * 2 ^ (-last).toNat) (x.den * 2 ^ last.toNat)
  x.num.sign * (digits * 2 ^ last.toNat : ℕ) / (2 ^ (-last).toNat : ℕ)

theorem nearest_one (n : ℕ) : nearest n 1 = n := by
  unfold nearest
  rw [Nat.mod_one, Nat.div_one]
  exact if_pos (.inl (by decide))

/-- A whole number of 53 digits is a `double`. -/
theorem round_intCast {n : ℤ} (small : n.natAbs < 2 ^ 53) : round n = n := by
  have last : lastDigit n.natAbs 1 ≤ 0 := by
    have short : n.natAbs.log2 < 53 := by
      by_cases zero : n.natAbs = 0
      · rw [zero]
        decide
      · exact (Nat.log2_lt zero).mpr small
    have one : Nat.log2 1 = 0 := by decide
    unfold lastDigit
    dsimp only
    rw [one]
    split <;> omega
  have whole : (n.sign : ℚ) * n.natAbs = n := by
    rw [← Int.cast_natCast, ← Int.cast_mul, Int.sign_mul_natAbs]
  unfold round
  rw [Rat.num_intCast, Rat.den_intCast]
  dsimp only
  have power : ((2 ^ (-lastDigit n.natAbs 1).toNat : ℕ) : ℚ) ≠ 0 :=
    Nat.cast_ne_zero.mpr (Nat.two_pow_pos _).ne'
  rw [Int.toNat_of_nonpos last, pow_zero, mul_one, mul_one, nearest_one, Nat.cast_mul, ← mul_assoc,
    mul_div_cancel_right₀ _ power, whole]

example : round (1 / 10) = 3602879701896397 / 36028797018963968 := by decide +kernel

example : round (2 ^ 53 + 1) = 2 ^ 53 ∧ round (2 ^ 53 + 3) = 2 ^ 53 + 4 := by decide +kernel

end Double
