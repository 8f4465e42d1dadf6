import Mathlib.Algebra.Order.Ring.Int
import Mathlib.Data.Nat.Log

/-!
# Core.Math

`size_t` and the macros of `shs_math.h`.
-/

namespace Shs

/-- A value of type `size_t`. -/
def sizeT (n : Nat) : Nat := n % 2 ^ 64

/-- `a - b` in `size_t`. -/
def subSizeT (a b : Nat) : Nat := sizeT (a + 2 ^ 64 - b)

def shsMathAlignSize : Nat := 8

/-- `SHS_MATH_ALIGNMENT(x, SHS_MATH_ALIGN_SIZE)`. -/
def shsMathAlignment (x : Nat) : Nat :=
  if x % shsMathAlignSize ≠ 0 then sizeT (x + (shsMathAlignSize - x % shsMathAlignSize)) else x

/-- `SHS_MATH_ROUND_UP`. -/
def shsMathRoundUp (x alignment : Nat) : Nat :=
  sizeT (x + alignment - 1) &&& (2 ^ 64 - alignment)

/-- `shs_math_dfslog2`; its loop counts the halvings until `x` is at most 1. -/
def shsMathDfslog2 (x : Nat) (up : Bool) : Nat :=
  (if up = true ∧ x &&& (x - 1) ≠ 0 then 1 else 0) + Nat.log2 x

theorem sizeT_of_lt {n : Nat} (h : n < 2 ^ 64) : sizeT n = n := Nat.mod_eq_of_lt h

theorem sizeT_lt (n : Nat) : sizeT n < 2 ^ 64 := Nat.mod_lt _ (by decide)

theorem subSizeT_of_le {a b : Nat} (ha : a < 2 ^ 64) (h : b ≤ a) : subSizeT a b = a - b := by
  unfold subSizeT sizeT
  omega

/-- Without a wrap, the alignment rounds up by less than the alignment size. -/
theorem shsMathAlignment_spec {x : Nat} (h : x + 7 < 2 ^ 64) :
    x ≤ shsMathAlignment x ∧ shsMathAlignment x < x + 8 ∧ shsMathAlignment x % 8 = 0 := by
  unfold shsMathAlignment shsMathAlignSize sizeT
  split <;> omega

theorem shsMathAlignment_lt {x : Nat} (h : x < 2 ^ 64) : shsMathAlignment x < 2 ^ 64 := by
  unfold shsMathAlignment
  split
  · exact sizeT_lt _
  · exact h

/-- Rounding to a power of two gives a multiple of it. -/
theorem dvd_shsMathRoundUp {k : Nat} (hk : k ≤ 64) (x : Nat) : 2 ^ k ∣ shsMathRoundUp x (2 ^ k) := by
  have hmask : (2 ^ 64 - 2 ^ k) % 2 ^ k = 0 := by
    obtain ⟨d, hd⟩ := Nat.exists_eq_add_of_le hk
    rw [hd, Nat.pow_add, ← Nat.mul_sub_one, Nat.mul_mod_right]
  refine Nat.dvd_of_mod_eq_zero ?_
  rw [shsMathRoundUp, Nat.and_mod_two_pow, hmask, Nat.and_zero]

theorem shsMathRoundUp_lt (x alignment : Nat) : shsMathRoundUp x alignment < 2 ^ 64 :=
  Nat.lt_of_le_of_lt Nat.and_le_left (sizeT_lt _)

/-! ## Logarithms -/

/-- The loop of `shs_math_dfslog2`; 64 halvings are enough for a `size_t`. -/
def dfslog2Loop : Nat → Nat → Nat → Nat
  | 0, _, i => i
  | fuel + 1, x, i => if x > 1 then dfslog2Loop fuel (x >>> 1) (i + 1) else i

theorem dfslog2Loop_eq {fuel x : Nat} (h : x < 2 ^ fuel) (i : Nat) :
    dfslog2Loop fuel x i = i + Nat.log2 x := by
  induction fuel generalizing x i with
  | zero =>
    obtain rfl : x = 0 := by simpa using h
    rfl
  | succ fuel ih =>
    rw [dfslog2Loop]
    split
    · rename_i hx
      rw [Nat.pow_succ] at h
      rw [Nat.shiftRight_one, ih (by omega), Nat.log2_def x, if_pos (by omega)]
      omega
    · rename_i hx
      rw [Nat.log2_def, if_neg (by omega), Nat.add_zero]

/-- `shsMathDfslog2` is what the loop computes. -/
theorem shsMathDfslog2_eq_loop {x : Nat} (h : x < 2 ^ 64) (up : Bool) :
    shsMathDfslog2 x up =
      dfslog2Loop 64 x (if up = true ∧ x &&& (x - 1) ≠ 0 then 1 else 0) :=
  (dfslog2Loop_eq h _).symm

theorem shsMathDfslog2_down (x : Nat) : shsMathDfslog2 x false = Nat.log 2 x := by
  simp [shsMathDfslog2, Nat.log2_eq_log_two]

theorem shsMathDfslog2_up {x : Nat} (hx : 0 < x) : shsMathDfslog2 x true = Nat.clog 2 x := by
  have hpow := Nat.and_sub_one_eq_zero_iff_isPowerOfTwo (n := x) (by omega)
  have hle := Nat.pow_log_le_self 2 (x := x) (by omega)
  have hlt := Nat.lt_pow_succ_log_self (b := 2) (by omega) x
  rw [shsMathDfslog2, Nat.log2_eq_log_two]
  by_cases h : x &&& (x - 1) = 0
  · obtain ⟨k, rfl⟩ := hpow.1 h
    rw [if_neg (by simp [h]), Nat.log_pow (by omega), Nat.clog_pow _ _ (by omega), Nat.zero_add]
  · rw [if_pos ⟨rfl, h⟩]
    have hne : 2 ^ Nat.log 2 x ≠ x := fun heq => h (hpow.2 ⟨_, heq.symm⟩)
    have hupper : Nat.clog 2 x ≤ Nat.log 2 x + 1 := Nat.clog_le_of_le_pow hlt.le
    have hlower : Nat.log 2 x < Nat.clog 2 x := (Nat.lt_clog_iff_pow_lt (by omega)).2 (by omega)
    omega

end Shs
