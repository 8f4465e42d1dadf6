import Mathlib.Data.List.Nodup
import Mathlib.Data.Nat.ModEq

/-!
# Lib.Rotor

A counter that wraps at `W` and is reduced modulo `n` picks the next of `n` slots. Where it does
not wrap, `n` picks in a row are `n` different slots. `slot_eq_iff` says which two picks collide
when it does: those on both sides of the wrap that are `W % n` apart.
-/

namespace Rotor

/-- The slot that the counter picks `i` picks after `start`. -/
def slot (W n start i : Nat) : Nat := (start + i) % W % n

variable {W n start : Nat}

theorem slot_lt (hn : 0 < n) (i : Nat) : slot W n start i < n := Nat.mod_lt _ hn

theorem slot_before {i : Nat} (h : start + i < W) : slot W n start i = (start + i) % n := by
  rw [slot, Nat.mod_eq_of_lt h]

theorem slot_after {i : Nat} (hs : start < W) (hn : n ≤ W) (hi : i < n) (h : W ≤ start + i) :
    slot W n start i = start + i - W := by
  rw [slot, Nat.mod_eq_sub_mod h, Nat.mod_eq_of_lt (show start + i - W < W by omega),
    Nat.mod_eq_of_lt (show start + i - W < n by omega)]

/-- Numbers less than `n` apart have different remainders. -/
theorem mod_ne_of_lt {a b : Nat} (hab : a < b) (hb : b < a + n) : a % n ≠ b % n := by
  intro h
  have hdvd : n ∣ b - a := (Nat.modEq_iff_dvd' (Nat.le_of_lt hab)).1 h
  have := Nat.le_of_dvd (by omega) hdvd
  omega

/-- Two of `n` picks in a row collide if and only if the counter wraps between them and they are
`W % n` apart. -/
theorem slot_eq_iff (hs : start < W) (hn : n ≤ W) {i j : Nat} (hij : i < j) (hj : j < n) :
    slot W n start i = slot W n start j ↔ start + i < W ∧ W ≤ start + j ∧ j - i = W % n := by
  rcases Nat.lt_or_ge (start + i) W with hi | hi
  · rcases Nat.lt_or_ge (start + j) W with hj' | hj'
    · rw [slot_before hi, slot_before hj']
      have hne : (start + i) % n ≠ (start + j) % n := mod_ne_of_lt (by omega) (by omega)
      constructor
      · intro h
        exact absurd h hne
      · rintro ⟨-, h, -⟩
        omega
    · rw [slot_before hi, slot_after hs hn hj hj']
      have hmod : (start + i) % n = start + j - W ↔ j - i = W % n := by
        have hsmall : (start + j - W) % n = start + j - W := Nat.mod_eq_of_lt (by omega)
        have hgap : (j - i) % n = j - i := Nat.mod_eq_of_lt (by omega)
        calc (start + i) % n = start + j - W
            ↔ start + i ≡ start + j - W [MOD n] := by rw [Nat.ModEq, hsmall]
          _ ↔ start + i + (W - (start + i)) ≡ start + j - W + (W - (start + i)) [MOD n] :=
              ⟨fun h => h.add_right _, fun h => h.add_right_cancel' _⟩
          _ ↔ W ≡ j - i [MOD n] := by
              rw [show start + i + (W - (start + i)) = W by omega,
                show start + j - W + (W - (start + i)) = j - i by omega]
          _ ↔ j - i = W % n := by rw [Nat.ModEq, hgap, eq_comm]
      rw [hmod]
      exact ⟨fun h => ⟨hi, hj', h⟩, fun h => h.2.2⟩
  · rw [slot_after hs hn (by omega) hi, slot_after hs hn hj (by omega)]
    omega

/-- `t` picks in a row are different slots if and only if `W` is a multiple of `n`, or the wrap
comes late, or the picks are few. -/
theorem nodup_slots_iff (hs : start < W) (hn : n ≤ W) {t : Nat} (ht : t ≤ n) :
    ((List.range t).map (slot W n start)).Nodup ↔
      W % n = 0 ∨ t ≤ max (W - start) (W % n) := by
  constructor
  · intro h
    by_contra hno
    rw [not_or, Nat.not_le, Nat.max_lt] at hno
    obtain ⟨hr, hj, hrt⟩ := hno
    -- the first pick from which `W % n` more reach behind the wrap
    have hcol : slot W n start (W - start - W % n) =
        slot W n start (W - start - W % n + W % n) :=
      (slot_eq_iff hs hn (by omega) (by omega)).2 (by omega)
    have heq := List.inj_on_of_nodup_map h (List.mem_range.2 (by omega))
      (List.mem_range.2 (by omega)) hcol
    omega
  · intro h
    refine List.Nodup.map_on ?_ List.nodup_range
    intro i hi j hj hij
    rw [List.mem_range] at hi hj
    rcases Nat.lt_trichotomy i j with hlt | heq | hlt
    · have := (slot_eq_iff hs hn hlt (by omega)).1 hij
      omega
    · exact heq
    · have := (slot_eq_iff hs hn hlt (by omega)).1 hij.symm
      omega

end Rotor
