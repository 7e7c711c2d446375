import Mathlib.Data.Int.Log
import Mathlib.Data.Rat.Floor
import Mathlib.Algebra.Order.Field.Power
import Mathlib.Tactic.Linarith
import Mathlib.Tactic.FieldSimp
import Mathlib.Tactic.NormNum

/-!
# Doubles

The double closest to a rational number, as conversions between text and numbers
use it.
-/

namespace Foundations

/-- The closest integer, of two the even one. -/
def roundHalfEven (q : ℚ) : ℤ :=
  if q - ⌊q⌋ < 1 / 2 ∨ q - ⌊q⌋ = 1 / 2 ∧ ⌊q⌋ % 2 = 0 then ⌊q⌋ else ⌊q⌋ + 1

/-- The distance between the doubles of the size of `q`. -/
def ulp (q : ℚ) : ℚ := 2 ^ max (Int.log 2 |q| - 52) (-1074)

/-- The double closest to `q`, of two the one with an even mantissa; the exponent
has no upper limit. -/
def roundToDouble (q : ℚ) : ℚ := roundHalfEven (q / ulp q) * ulp q

theorem roundHalfEven_intCast (n : ℤ) : roundHalfEven n = n := by
  unfold roundHalfEven
  rw [Int.floor_intCast, sub_self, if_pos (.inl (by norm_num))]

theorem ulp_pos (q : ℚ) : 0 < ulp q := zpow_pos (by norm_num) _

theorem roundToDouble_zero : roundToDouble 0 = 0 := by
  unfold roundToDouble
  rw [zero_div, show (0 : ℚ) = ((0 : ℤ) : ℚ) from rfl, roundHalfEven_intCast, Int.cast_zero,
    zero_mul]

/-- A multiple of the distance is a double. -/
theorem roundToDouble_of_mul {q : ℚ} {m : ℤ} (h : q = m * ulp q) : roundToDouble q = q := by
  have hquotient : q / ulp q = m := by
    rw [div_eq_iff (ulp_pos q).ne']
    exact h
  unfold roundToDouble
  rw [hquotient, roundHalfEven_intCast, ← h]

theorem ulp_natCast {n : ℕ} : ulp (n : ℚ) = 2 ^ ((Nat.log 2 n : ℤ) - 52) := by
  unfold ulp
  rw [Nat.abs_cast, Int.log_natCast, max_eq_left (by omega)]

/-- Integers up to `2 ^ 53` are doubles. -/
theorem roundToDouble_natCast_of_le {n : ℕ} (h : n ≤ 2 ^ 53) : roundToDouble (n : ℚ) = n := by
  rcases Nat.eq_zero_or_pos n with rfl | hpos
  · exact roundToDouble_zero
  rcases h.lt_or_eq with hlt | rfl
  · obtain ⟨j, hj⟩ : ∃ j : ℕ, Nat.log 2 n + j = 52 :=
      ⟨52 - Nat.log 2 n, by have := Nat.log_lt_of_lt_pow hpos.ne' hlt; omega⟩
    have hulp : ulp (n : ℚ) = (2 ^ j)⁻¹ := by
      rw [ulp_natCast, ← zpow_natCast, ← zpow_neg]
      congr 1
      omega
    apply roundToDouble_of_mul (m := (n * 2 ^ j : ℕ))
    rw [hulp]
    push_cast
    field_simp
  · apply roundToDouble_of_mul (m := 2 ^ 52)
    have hlog : Nat.log 2 (2 ^ 53) = 53 := Nat.log_pow (by norm_num) 53
    rw [ulp_natCast, hlog]
    norm_num

/-- Quotients of natural numbers are rounded by their remainder. -/
theorem roundHalfEven_div {n u : ℕ} (hu : 0 < u) :
    roundHalfEven ((n : ℚ) / u) =
      ((if u < 2 * (n % u) ∨ 2 * (n % u) = u ∧ n / u % 2 = 1 then n / u + 1
        else n / u : ℕ) : ℤ) := by
  have hpos : (0 : ℚ) < u := Nat.cast_pos.mpr hu
  have hfloor : ⌊(n : ℚ) / u⌋ = ((n / u : ℕ) : ℤ) := by
    rw [Rat.floor_natCast_div_natCast]
    rfl
  have hrest : (n : ℚ) / u - ((n / u : ℕ) : ℤ) = (n % u : ℕ) / u := by
    have hdiv : (n : ℚ) = u * (n / u : ℕ) + (n % u : ℕ) := by
      exact_mod_cast (Nat.div_add_mod n u).symm
    rw [Int.cast_natCast]
    field_simp
    linarith
  have hlt : ((n % u : ℕ) : ℚ) / u < 1 / 2 ↔ 2 * (n % u) < u := by
    rw [div_lt_div_iff₀ hpos two_pos, one_mul, mul_comm]
    exact_mod_cast Iff.rfl
  have heq : ((n % u : ℕ) : ℚ) / u = 1 / 2 ↔ 2 * (n % u) = u := by
    rw [div_eq_div_iff hpos.ne' two_ne_zero, one_mul, mul_comm]
    exact_mod_cast Iff.rfl
  unfold roundHalfEven
  rw [hfloor, hrest]
  simp only [hlt, heq]
  split <;> split <;> omega

end Foundations
