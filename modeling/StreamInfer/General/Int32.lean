import Mathlib

/-! 32-bit integers in two's complement. Arithmetic wraps around: a result is kept up
to a multiple of `2 ^ 32`, so that what is in range is exact whatever was wrapped on
the way to it. -/

namespace StreamInfer.General

/-- The `int` that an integer wraps around to. -/
@[irreducible] def int32 (x : ℤ) : ℤ := x.bmod (2 ^ 32)

theorem int32_eq_self {x : ℤ} (hlo : -2 ^ 31 ≤ x) (hhi : x < 2 ^ 31) : int32 x = x := by
  rw [int32]
  apply Int.bmod_eq_of_le
  · norm_num
    omega
  · norm_num
    omega

@[simp] theorem int32_zero : int32 0 = 0 := int32_eq_self (by norm_num) (by norm_num)

theorem int32_natCast {n : ℕ} (h : n < 2 ^ 31) : int32 n = n := by
  apply int32_eq_self
  · omega
  · exact_mod_cast h

/-- A sum may wrap on the way. -/
theorem int32_add (x y : ℤ) : int32 (int32 x + y) = int32 (x + y) := by
  rw [int32, int32, int32, Int.bmod_add_bmod]

theorem int32_lt (x : ℤ) : int32 x < 2 ^ 31 := by
  rw [int32]
  exact (Int.bmod_lt (by norm_num)).trans_le (by norm_num)

/-- The upper half of the unsigned range wraps around once. -/
theorem int32_eq_sub {x : ℤ} (hlo : 2 ^ 31 ≤ x) (hhi : x < 2 ^ 32) : int32 x = x - 2 ^ 32 := by
  have hself := int32_eq_self (x := x - 2 ^ 32) (by omega) (by omega)
  rw [int32, ← Nat.cast_ofNat (n := 2), ← Nat.cast_pow, Int.sub_bmod_right] at hself
  rw [int32]
  exact_mod_cast hself

/-- A size keeps its value, or it gets smaller. -/
theorem toNat_int32_le (n : ℕ) : (int32 n).toNat ≤ n := by
  rcases lt_or_ge n (2 ^ 31) with h | h
  · rw [int32_natCast h, Int.toNat_natCast]
  · have hlt := int32_lt n
    omega

theorem toNat_int32_lt (n : ℕ) : (int32 n).toNat < 2 ^ 31 := by
  have hlt := int32_lt n
  omega

end StreamInfer.General
