import Mathlib.Data.Int.Log
import Mathlib.Data.Rat.Floor
import Mathlib.Algebra.Order.Floor.Ring
import Mathlib.Algebra.Order.Ring.Abs
import Mathlib.Tactic.Linarith
import Mathlib.Tactic.Ring
import Mathlib.Tactic.FieldSimp
import Mathlib.Tactic.GCongr

/-!
# Rounding to double precision

The arithmetic of IEEE 754 doubles rounds the exact result of each operation to the nearest number
with 53 binary digits, ties to even. Here that is a function on the rationals; it has no bounds on
the exponent, so it is the arithmetic of doubles away from overflow and underflow.

What computations with it need is the relative error of one rounding, `abs_double_sub_le`.
-/

namespace Kinglet.Library

/-- The nearest integer, ties to even. -/
def roundHalfEven (q : ℚ) : ℤ :=
  let n := ⌊q⌋
  if q - n < 1 / 2 ∨ q - n = 1 / 2 ∧ n % 2 = 0 then n else n + 1

/-- The weight of the last of the 53 binary digits of `q`. -/
def lastPlace (q : ℚ) : ℚ := 2 ^ (Int.log 2 |q| - 52)

/-- The nearest number with 53 binary digits. -/
def double (q : ℚ) : ℚ := roundHalfEven (q / lastPlace q) * lastPlace q

theorem abs_roundHalfEven_sub_le (q : ℚ) : |(roundHalfEven q : ℚ) - q| ≤ 1 / 2 := by
  have hlow := Int.floor_le q
  have hhigh := Int.lt_floor_add_one q
  unfold roundHalfEven
  dsimp only
  rw [abs_le]
  split_ifs
  · rename_i h
    have h : q - ⌊q⌋ ≤ 1 / 2 := h.elim le_of_lt fun h => le_of_eq h.1
    constructor <;> linarith
  · rename_i h
    have h : 1 / 2 ≤ q - ⌊q⌋ := by
      by_contra hlt
      exact h (.inl (lt_of_not_ge hlt))
    push_cast
    constructor <;> linarith

theorem lastPlace_pos (q : ℚ) : 0 < lastPlace q := zpow_pos (by norm_num) _

theorem lastPlace_le {q : ℚ} (hq : q ≠ 0) : lastPlace q ≤ |q| / 2 ^ 52 := by
  have hlog := Int.zpow_log_le_self (b := 2) (r := |q|) (by norm_num) (abs_pos.2 hq)
  unfold lastPlace
  rw [zpow_sub₀ (by norm_num), le_div_iff₀ (by positivity)]
  calc (2 : ℚ) ^ Int.log 2 |q| / 2 ^ (52 : ℤ) * 2 ^ 52 = 2 ^ Int.log 2 |q| := by
        rw [zpow_ofNat, div_mul_cancel₀ _ (by positivity)]
    _ ≤ |q| := hlog

@[simp] theorem double_zero : double 0 = 0 := by
  simp [double, roundHalfEven]

theorem roundHalfEven_intCast (n : ℤ) : roundHalfEven n = n := by
  simp [roundHalfEven]

/-- A whole number of at most 53 binary digits is not rounded. -/
theorem double_natCast {n : ℕ} (h : n < 2 ^ 53) : double n = n := by
  rcases Nat.eq_zero_or_pos n with rfl | hpos
  · exact_mod_cast double_zero
  have hn : (n : ℚ) ≠ 0 := by exact_mod_cast hpos.ne'
  have hlog : Int.log 2 |(n : ℚ)| = Nat.log 2 n := by
    rw [Nat.abs_cast, Int.log_natCast]
  have hle : Nat.log 2 n ≤ 52 := Nat.lt_succ_iff.1 (Nat.log_lt_of_lt_pow hpos.ne' h)
  -- the quotient by the last place is a whole number
  have hquotient : (n : ℚ) / lastPlace n = ((n * 2 ^ (52 - Nat.log 2 n) : ℕ) : ℤ) := by
    have hexponent : (Nat.log 2 n : ℤ) - 52 = -((52 - Nat.log 2 n : ℕ) : ℤ) := by omega
    rw [lastPlace, hlog, hexponent, zpow_neg, zpow_natCast, div_inv_eq_mul]
    push_cast
    rfl
  have hround : roundHalfEven ((n : ℚ) / lastPlace n) = (n * 2 ^ (52 - Nat.log 2 n) : ℕ) := by
    rw [hquotient, roundHalfEven_intCast]
  rw [double, hround, ← hquotient, div_mul_cancel₀ _ (lastPlace_pos _).ne']


/-- **One rounding** moves a number by at most the `2 ^ 53`th part of it. -/
theorem abs_double_sub_le (q : ℚ) : |double q - q| ≤ |q| / 2 ^ 53 := by
  by_cases hq : q = 0
  · simp [hq]
  · have hpos := lastPlace_pos q
    have hround := abs_roundHalfEven_sub_le (q / lastPlace q)
    have hsplit : double q - q =
        ((roundHalfEven (q / lastPlace q) : ℚ) - q / lastPlace q) * lastPlace q := by
      unfold double
      field_simp
    calc |double q - q|
        = |(roundHalfEven (q / lastPlace q) : ℚ) - q / lastPlace q| * lastPlace q := by
          rw [hsplit, abs_mul, abs_of_pos hpos]
      _ ≤ 1 / 2 * (|q| / 2 ^ 52) := by
          gcongr
          exact lastPlace_le hq
      _ = |q| / 2 ^ 53 := by ring

end Kinglet.Library
