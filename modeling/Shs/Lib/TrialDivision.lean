import Mathlib.Data.Nat.Prime.Basic

/-!
# Lib.TrialDivision

The search for a divisor of a number from 2 on, up to its square root. `TrialDivision x i` is the
invariant of the search: everything below `i` has been tried in vain, and the last number tried was
not above the square root. So the numbers tried stay below any bound on the square root.
-/

/-- No number from 2 up to `i` divides `x`, and the last one tried has a square up to `x`. -/
structure TrialDivision (x i : Nat) : Prop where
  two     : 2 ≤ x
  lower   : 2 ≤ i
  reached : (i - 1) * (i - 1) ≤ x
  free    : ∀ j, 2 ≤ j → j < i → ¬ j ∣ x

namespace TrialDivision

variable {x i : Nat}

theorem start (hx : 2 ≤ x) : TrialDivision x 2 where
  two := hx
  lower := Nat.le_refl 2
  reached := by omega
  free := by
    intro j hlo hhi
    omega

theorem next (h : TrialDivision x i) (hle : i * i ≤ x) (hd : ¬ i ∣ x) :
    TrialDivision x (i + 1) where
  two := h.two
  lower := Nat.le_succ_of_le h.lower
  reached := hle
  free := by
    intro j hlo hhi
    rcases Nat.lt_succ_iff_lt_or_eq.1 hhi with hlt | rfl
    · exact h.free j hlo hlt
    · exact hd

theorem prime (h : TrialDivision x i) (hgt : x < i * i) : x.Prime := by
  refine Nat.prime_def_le_sqrt.2 ⟨h.two, fun j hlo hj => h.free j hlo ?_⟩
  have hsq : j * j < i * i := Nat.lt_of_le_of_lt (Nat.le_sqrt.1 hj) hgt
  exact Nat.mul_self_lt_mul_self_iff.1 hsq

theorem not_prime (h : TrialDivision x i) (hle : i * i ≤ x) (hd : i ∣ x) : ¬ x.Prime := by
  have hlower := h.lower
  have hmul : i * 2 ≤ i * i := Nat.mul_le_mul_left i hlower
  exact Nat.not_prime_of_dvd_of_lt hd hlower (by omega)

theorem le_of_lt_sq (h : TrialDivision x i) {b : Nat} (hb : x < b * b) : i ≤ b := by
  have hsq : (i - 1) * (i - 1) < b * b := Nat.lt_of_le_of_lt h.reached hb
  have hlt : i - 1 < b := Nat.mul_self_lt_mul_self_iff.1 hsq
  omega

end TrialDivision
