import Mathlib

/-! Rounding to single precision. A number that is not negative is rounded to 24
significant bits, ties to even; the exponent is not bounded, so this is the format's
arithmetic as long as results stay inside its range. A result of a few operations is
compared with the exact one by the number of roundings on the way to it. -/

namespace StreamInfer.General.Binary32

/-- The nearest integer, the even one of two. -/
def nearestEven (x : ℚ) : ℤ :=
  if x - ⌊x⌋ < 1 / 2 ∨ x - ⌊x⌋ = 1 / 2 ∧ ⌊x⌋ % 2 = 0 then ⌊x⌋ else ⌊x⌋ + 1

/-- The distance of the numbers of 24 bits around a number. -/
def ulp (x : ℚ) : ℚ := 2 ^ (Int.log 2 x - 23)

def rounded (x : ℚ) : ℚ := nearestEven (x / ulp x) * ulp x

/-- The largest relative error of one rounding. -/
def unitRoundoff : ℚ := 1 / 2 ^ 24

theorem abs_nearestEven_sub_le (x : ℚ) : |nearestEven x - x| ≤ 1 / 2 := by
  have hlo := Int.floor_le x
  have hhi := Int.lt_floor_add_one x
  rw [abs_le, nearestEven]
  split_ifs with h
  · rcases h with h | ⟨h, -⟩ <;> constructor <;> linarith
  · have hhalf : 1 / 2 ≤ x - ⌊x⌋ := by
      by_contra hlt
      exact h (.inl (not_le.mp hlt))
    push_cast
    constructor <;> linarith

theorem ulp_pos (x : ℚ) : 0 < ulp x := zpow_pos two_pos _

theorem abs_rounded_sub_le {x : ℚ} (hx : 0 ≤ x) : |rounded x - x| ≤ unitRoundoff * x := by
  rcases hx.eq_or_lt with rfl | hx
  · have hzero : nearestEven 0 = 0 := by simp [nearestEven]
    simp [rounded, hzero]
  have hulp : ulp x ≤ x / 2 ^ 23 := by
    have hlog : (2 : ℚ) ^ Int.log 2 x ≤ x := by exact_mod_cast Int.zpow_log_le_self one_lt_two hx
    rw [ulp, zpow_sub₀ two_ne_zero]
    exact div_le_div_of_nonneg_right hlog (by positivity)
  have hscaled : rounded x - x = (nearestEven (x / ulp x) - x / ulp x) * ulp x := by
    rw [sub_mul, div_mul_cancel₀ _ (ulp_pos x).ne', rounded]
  calc |rounded x - x| = |(nearestEven (x / ulp x) : ℚ) - x / ulp x| * ulp x := by
        rw [hscaled, abs_mul, abs_of_pos (ulp_pos x)]
    _ ≤ 1 / 2 * (x / 2 ^ 23) :=
        mul_le_mul (abs_nearestEven_sub_le _) hulp (ulp_pos x).le (by norm_num)
    _ = unitRoundoff * x := by
        rw [unitRoundoff]
        ring

/-! ### Counting roundings -/

/-- A number after at most `k` roundings, next to the exact one. -/
structure Near (k : ℕ) (x y : ℚ) : Prop where
  lower : (1 - unitRoundoff) ^ k * y ≤ x
  upper : x ≤ (1 + unitRoundoff) ^ k * y

section Near

variable {k l : ℕ} {x x' y y' : ℚ}

theorem one_sub_pos : 0 < 1 - unitRoundoff := by norm_num [unitRoundoff]

theorem one_add_pos : 0 < 1 + unitRoundoff := by norm_num [unitRoundoff]

theorem near_zero_self (x : ℚ) : Near 0 x x := ⟨by simp, by simp⟩

theorem Near.nonneg (h : Near k x y) (hy : 0 ≤ y) : 0 ≤ x :=
  (mul_nonneg (pow_nonneg one_sub_pos.le k) hy).trans h.lower

theorem Near.pos (h : Near k x y) (hy : 0 < y) : 0 < x :=
  (mul_pos (pow_pos one_sub_pos k) hy).trans_le h.lower

theorem Near.mono (h : Near k x y) (hy : 0 ≤ y) (hkl : k ≤ l) : Near l x y where
  lower := by
    have hle : (1 - unitRoundoff) ^ l ≤ (1 - unitRoundoff) ^ k :=
      pow_le_pow_of_le_one one_sub_pos.le (by norm_num [unitRoundoff]) hkl
    exact (mul_le_mul_of_nonneg_right hle hy).trans h.lower
  upper := by
    have hle : (1 + unitRoundoff) ^ k ≤ (1 + unitRoundoff) ^ l :=
      pow_le_pow_right₀ (by norm_num [unitRoundoff]) hkl
    exact h.upper.trans (mul_le_mul_of_nonneg_right hle hy)

theorem Near.rounded (h : Near k x y) (hy : 0 ≤ y) : Near (k + 1) (rounded x) y := by
  obtain ⟨hlo, hhi⟩ := abs_le.mp (abs_rounded_sub_le (h.nonneg hy))
  constructor
  · calc (1 - unitRoundoff) ^ (k + 1) * y = (1 - unitRoundoff) * ((1 - unitRoundoff) ^ k * y) := by ring
      _ ≤ (1 - unitRoundoff) * x := mul_le_mul_of_nonneg_left h.lower one_sub_pos.le
      _ ≤ Binary32.rounded x := by linarith
  · calc Binary32.rounded x ≤ (1 + unitRoundoff) * x := by linarith
      _ ≤ (1 + unitRoundoff) * ((1 + unitRoundoff) ^ k * y) :=
        mul_le_mul_of_nonneg_left h.upper one_add_pos.le
      _ = (1 + unitRoundoff) ^ (k + 1) * y := by ring

theorem Near.add (h : Near k x y) (h' : Near k x' y') : Near k (x + x') (y + y') where
  lower := by
    rw [mul_add]
    exact add_le_add h.lower h'.lower
  upper := by
    rw [mul_add]
    exact add_le_add h.upper h'.upper

theorem Near.mul (h : Near k x y) (h' : Near l x' y') (hy : 0 ≤ y) (hy' : 0 ≤ y') :
    Near (k + l) (x * x') (y * y') where
  lower := by
    rw [pow_add, mul_mul_mul_comm]
    exact mul_le_mul h.lower h'.lower (mul_nonneg (pow_nonneg one_sub_pos.le l) hy') (h.nonneg hy)
  upper := by
    rw [pow_add, mul_mul_mul_comm]
    exact mul_le_mul h.upper h'.upper (h'.nonneg hy') (mul_nonneg (pow_nonneg one_add_pos.le k) hy)

end Near

end StreamInfer.General.Binary32
