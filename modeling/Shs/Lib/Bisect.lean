import Mathlib.Tactic.Common

/-!
# Lib.Bisect

Binary search in an interval of integers with a probe that says on which side of it the wanted index
lies. Where the probe is ordered on the interval, the search finds an index exactly if there is one.
-/

namespace Bisect

def search (probe : Int → Ordering) (left right : Int) : Bool :=
  if left ≤ right then
    let middle := (left + right) / 2
    match probe middle with
    | .eq => true
    | .gt => search probe (middle + 1) right
    | .lt => search probe left (middle - 1)
  else false
termination_by (right + 1 - left).toNat

/-- The wanted index lies above whatever answers `gt` and below whatever answers `lt`. -/
structure Ordered (probe : Int → Ordering) (left right : Int) : Prop where
  above : ∀ i j, left ≤ i → i ≤ j → j ≤ right → probe j = .gt → probe i = .gt
  below : ∀ i j, left ≤ i → i ≤ j → j ≤ right → probe i = .lt → probe j = .lt

theorem Ordered.mono {probe : Int → Ordering} {left right left' right' : Int}
    (h : Ordered probe left right) (hl : left ≤ left') (hr : right' ≤ right) :
    Ordered probe left' right' where
  above i j hi hij hj := h.above i j (Int.le_trans hl hi) hij (Int.le_trans hj hr)
  below i j hi hij hj := h.below i j (Int.le_trans hl hi) hij (Int.le_trans hj hr)

theorem search_sound {probe : Int → Ordering} {left right : Int}
    (h : search probe left right = true) : ∃ i, left ≤ i ∧ i ≤ right ∧ probe i = .eq := by
  fun_induction search probe left right with
  | case1 left right hle middle heq => exact ⟨middle, by omega, by omega, heq⟩
  | case2 left right hle middle hgt ih =>
    obtain ⟨i, hi, hi', heq⟩ := ih h
    exact ⟨i, by omega, hi', heq⟩
  | case3 left right hle middle hlt ih =>
    obtain ⟨i, hi, hi', heq⟩ := ih h
    exact ⟨i, hi, by omega, heq⟩
  | case4 => simp at h

theorem search_complete {probe : Int → Ordering} {left right : Int} (ho : Ordered probe left right)
    {i : Int} (hi : left ≤ i) (hi' : i ≤ right) (heq : probe i = .eq) :
    search probe left right = true := by
  fun_induction search probe left right with
  | case1 => rfl
  | case2 left right hle middle hgt ih =>
    -- everything up to the middle answers `gt`, so the index lies above it
    have habove : middle < i := by
      by_contra hnot
      have := ho.above i middle hi (by omega) (by omega) hgt
      rw [heq] at this
      cases this
    exact ih (ho.mono (by omega) (Int.le_refl right)) (by omega) hi'
  | case3 left right hle middle hlt ih =>
    have hbelow : i < middle := by
      by_contra hnot
      have := ho.below middle i (by omega) (by omega) hi' hlt
      rw [heq] at this
      cases this
    exact ih (ho.mono (Int.le_refl left) (by omega)) hi (by omega)
  | case4 => omega

/-- **The search finds an index of the interval exactly if there is one.** -/
theorem search_iff {probe : Int → Ordering} {left right : Int} (ho : Ordered probe left right) :
    search probe left right = true ↔ ∃ i, left ≤ i ∧ i ≤ right ∧ probe i = .eq :=
  ⟨search_sound, fun ⟨_, hi, hi', heq⟩ => search_complete ho hi hi' heq⟩

end Bisect
