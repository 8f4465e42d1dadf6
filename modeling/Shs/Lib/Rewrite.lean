import Mathlib.Data.List.Basic

/-!
# Lib.Rewrite

A function that rewrites a list piece by piece. If no piece's output goes on with the beginning of
the piece, an output that is behind its input stays behind to the end (`behind`), so that a piece
whose output does not begin with the piece itself is never made up for (`not_fixed`).
-/

namespace Rewrite

variable {α : Type} {D : List α → List α} {k o r u : List α}

/-- `D` turns the piece `k` in front of `r` into `o`. -/
structure Piece (D : List α → List α) (k o r : List α) : Prop where
  nonempty : k ≠ []
  out : D (k ++ r) = o ++ D r
  fresh : ∀ b ∈ o.tail, k.head? ≠ some b

/-- Every list is made of such pieces. -/
structure Pieces (D : List α → List α) : Prop where
  nil : D [] = []
  piece : ∀ r ≠ [], ∃ k o r', r = k ++ r' ∧ Piece D k o r'

theorem Piece.length_lt (h : Piece D k o r) : r.length < (k ++ r).length := by
  have := List.length_pos_iff.2 h.nonempty
  rw [List.length_append]
  omega

/-- What is behind before a piece is behind after it. -/
theorem Piece.next (h : Piece D k o r) (hu : u ≠ []) (heq : D (k ++ r) = u ++ (k ++ r)) :
    ∃ u', u' ≠ [] ∧ D r = u' ++ r := by
  rw [h.out, ← List.append_assoc] at heq
  rcases List.append_eq_append_iff.1 heq with ⟨v, hv, hr⟩ | ⟨v, hv, -⟩
  · refine ⟨v, ?_, hr⟩
    rintro rfl
    -- the output would be the lag and then the piece
    obtain ⟨a, u, rfl⟩ := List.exists_cons_of_ne_nil hu
    obtain ⟨b, k, rfl⟩ := List.exists_cons_of_ne_nil h.nonempty
    rw [List.append_nil] at hv
    exact h.fresh b (by simp [← hv]) rfl
  · obtain ⟨a, u, rfl⟩ := List.exists_cons_of_ne_nil hu
    obtain ⟨b, k, rfl⟩ := List.exists_cons_of_ne_nil h.nonempty
    exact absurd rfl (h.fresh b (by simp [hv]))

theorem behind (h : Pieces D) (hu : u ≠ []) : D r ≠ u ++ r := by
  induction hn : r.length using Nat.strongRecOn generalizing r u with
  | ind n ih =>
    intro heq
    by_cases hr : r = []
    · subst hr
      rw [h.nil, List.append_nil] at heq
      exact hu heq.symm
    · obtain ⟨k, o, r', rfl, hpiece⟩ := h.piece r hr
      obtain ⟨u', hu', heq'⟩ := hpiece.next hu heq
      exact ih r'.length (hn ▸ hpiece.length_lt) hu' rfl heq'

theorem not_fixed (h : Pieces D) (hp : Piece D k o r) (hk : ¬k <+: o) : D (k ++ r) ≠ k ++ r := by
  intro heq
  rw [hp.out] at heq
  rcases List.append_eq_append_iff.1 heq with ⟨v, hv, hr⟩ | ⟨v, hv, -⟩
  · by_cases hnil : v = []
    · subst hnil
      rw [List.append_nil] at hv
      exact hk (hv ▸ List.prefix_rfl)
    · exact behind h hnil hr
  · exact hk (hv ▸ List.prefix_append k v)

end Rewrite
