import Mathlib.Data.List.Basic
import Mathlib.Data.List.Pairwise
import Mathlib.Order.Lattice

/-!
# Lib.StableInsert

Insertion of an element before the first one with a larger key, and the list that grows by such
insertions: it is sorted by key, and elements with one key stand in the order of their insertion.
`StableSort` says the same of two lists and a comparison that is a total preorder.
-/

namespace Shs
namespace StableInsert

variable {α κ : Type*} [LinearOrder κ]

/-- `x` goes before the first element with a larger key. -/
def place (key : α → κ) (xs : List α) (x : α) : List α :=
  xs.insertIdx (xs.findIdx fun y => key x < key y) x

/-- The elements of the second list, inserted one after the other. -/
def placeAll (key : α → κ) (xs new : List α) : List α :=
  new.foldl (place key) xs

section Place

variable {key : α → κ} {xs : List α}

@[simp]
theorem place_nil (x : α) : place key [] x = [x] := rfl

theorem place_cons (x y : α) :
    place key (y :: xs) x = if key x < key y then x :: y :: xs else y :: place key xs x := by
  unfold place
  rw [List.findIdx_cons]
  by_cases hlt : key x < key y
  · simp [hlt]
  · simp [hlt]

theorem perm_place (x : α) : (place key xs x).Perm (x :: xs) :=
  List.perm_insertIdx x xs List.findIdx_le_length

theorem mem_place {x y : α} : y ∈ place key xs x ↔ y = x ∨ y ∈ xs := by
  rw [(perm_place x).mem_iff, List.mem_cons]

theorem pairwise_place (h : xs.Pairwise fun a b => key a ≤ key b) (x : α) :
    (place key xs x).Pairwise fun a b => key a ≤ key b := by
  induction xs with
  | nil => exact List.pairwise_singleton _ x
  | cons y ys ih =>
    obtain ⟨hy, hys⟩ := List.pairwise_cons.1 h
    rw [place_cons]
    split
    · rename_i hlt
      refine List.pairwise_cons.2 ⟨fun z hz => ?_, h⟩
      rcases List.mem_cons.1 hz with rfl | hz
      · exact le_of_lt hlt
      · exact le_trans (le_of_lt hlt) (hy z hz)
    · rename_i hge
      refine List.pairwise_cons.2 ⟨fun z hz => ?_, ih hys⟩
      rcases mem_place.1 hz with rfl | hz
      · exact not_lt.1 hge
      · exact hy z hz

/-- The elements with key `k`: a new one comes behind those that are there. -/
theorem filter_place (h : xs.Pairwise fun a b => key a ≤ key b) (x : α) (k : κ) :
    (place key xs x).filter (fun y => key y = k) =
      xs.filter (fun y => key y = k) ++ [x].filter fun y => key y = k := by
  induction xs with
  | nil => rfl
  | cons y ys ih =>
    obtain ⟨hy, hys⟩ := List.pairwise_cons.1 h
    rw [place_cons]
    split
    · rename_i hlt
      by_cases hk : key x = k
      · -- what stands behind `x` has a larger key
        have hnone : (y :: ys).filter (fun z => decide (key z = k)) = [] := by
          refine List.filter_eq_nil_iff.2 fun z hz => ?_
          have hle : key y ≤ key z := by
            rcases List.mem_cons.1 hz with rfl | hz
            · exact le_refl _
            · exact hy z hz
          have hgt : key x < key z := lt_of_lt_of_le hlt hle
          rw [hk] at hgt
          simpa using ne_of_gt hgt
        rw [List.filter_cons_of_pos (by simpa using hk), hnone]
        simp [hk]
      · simp [List.filter_cons, hk]
    · rw [List.filter_cons, List.filter_cons, ih hys]
      split
      · rfl
      · rfl

end Place

section PlaceAll

variable {key : α → κ} {xs new : List α}

theorem placeAll_append (more : List α) :
    placeAll key xs (new ++ more) = placeAll key (placeAll key xs new) more :=
  List.foldl_append

theorem perm_placeAll : (placeAll key xs new).Perm (xs ++ new) := by
  induction new generalizing xs with
  | nil => simp [placeAll]
  | cons x new ih =>
    have hrest : (placeAll key (place key xs x) new).Perm (place key xs x ++ new) := ih
    exact hrest.trans (((perm_place x).append_right new).trans List.perm_middle.symm)

theorem pairwise_placeAll (h : xs.Pairwise fun a b => key a ≤ key b) :
    (placeAll key xs new).Pairwise fun a b => key a ≤ key b := by
  induction new generalizing xs with
  | nil => exact h
  | cons x new ih => exact ih (pairwise_place h x)

/-- The insertion is stable. -/
theorem filter_placeAll (h : xs.Pairwise fun a b => key a ≤ key b) (k : κ) :
    (placeAll key xs new).filter (fun y => key y = k) =
      xs.filter (fun y => key y = k) ++ new.filter fun y => key y = k := by
  induction new generalizing xs with
  | nil => simp [placeAll]
  | cons x new ih =>
    have hrest := ih (pairwise_place h x)
    rw [filter_place h] at hrest
    rw [List.filter_cons]
    show (placeAll key (place key xs x) new).filter _ = _
    rw [hrest, List.append_assoc]
    by_cases hk : key x = k
    · simp [hk]
    · simp [hk]

end PlaceAll

/-- Neither of the two is above the other one. -/
def same {α : Type*} (le : α → α → Bool) (a b : α) : Bool := le a b && le b a

/-- `out` has the elements of `xs`, in the order of `le`; elements that are equal to one another stand
as they stood. -/
structure StableSort {α : Type*} (le : α → α → Bool) (xs out : List α) : Prop where
  perm   : out.Perm xs
  sorted : out.Pairwise fun a b => le a b = true
  stable : ∀ c, out.filter (same le c) = xs.filter (same le c)

namespace StableSort

variable {α : Type*} {le : α → α → Bool} {xs p p₁ p₂ : List α} {x : α}

theorem single (x : α) : StableSort le [x] [x] :=
  ⟨.rfl, List.pairwise_singleton _ x, fun _ => rfl⟩

theorem nil : StableSort le [] [] := ⟨.rfl, .nil, fun _ => rfl⟩

/-- The elements in front of one that is not above `x` are not above `x` either. -/
theorem below (htrans : ∀ a b c, le a b = true → le b c = true → le a c = true)
    (hp : p₁.Pairwise fun a b => le a b = true) (hlast : ∀ y ∈ p₁.getLast?, le y x = true) :
    ∀ y ∈ p₁, le y x = true := by
  rcases List.eq_nil_or_concat' p₁ with rfl | ⟨q, z, rfl⟩
  · exact fun y hy => absurd hy List.not_mem_nil
  · have hz : le z x = true := hlast z (by simp)
    intro y hy
    rcases List.mem_append.1 hy with hy | hy
    · exact htrans y z x ((List.pairwise_append.1 hp).2.2 y hy z List.mem_cons_self) hz
    · rwa [List.mem_singleton.1 hy]

/-- The next element is put behind the last one that is not above it. -/
theorem insert (htotal : ∀ a b, le a b = true ∨ le b a = true)
    (htrans : ∀ a b c, le a b = true → le b c = true → le a c = true)
    (h : StableSort le xs (p₁ ++ p₂)) (hlast : ∀ y ∈ p₁.getLast?, le y x = true)
    (habove : ∀ y ∈ p₂, ¬ le y x = true) : StableSort le (xs ++ [x]) (p₁ ++ x :: p₂) := by
  obtain ⟨hp₁, hp₂, hcross⟩ := List.pairwise_append.1 h.sorted
  have hbelow := below htrans hp₁ hlast
  refine ⟨?_, ?_, fun c => ?_⟩
  · exact List.perm_middle.trans
      ((h.perm.cons x).trans (List.perm_append_singleton x xs).symm)
  · refine List.pairwise_append.2 ⟨hp₁, List.pairwise_cons.2 ⟨fun y hy => ?_, hp₂⟩, ?_⟩
    · exact (htotal x y).resolve_right (habove y hy)
    · intro y hy z hz
      rcases List.mem_cons.1 hz with rfl | hz
      · exact hbelow y hy
      · exact hcross y hy z hz
  · have hxs := h.stable c
    rw [List.filter_append] at hxs
    rw [List.filter_append, List.filter_append, ← hxs, List.filter_cons]
    by_cases hc : same le c x = true
    · -- what stands behind `x` is above it, so it is not equal to `c`
      have hnone : p₂.filter (same le c) = [] := by
        refine List.filter_eq_nil_iff.2 fun y hy hyc => habove y hy ?_
        rw [same, Bool.and_eq_true] at hc hyc
        exact htrans y c x hyc.2 hc.1
      rw [if_pos hc, hnone, List.append_nil, List.filter_cons_of_pos hc, List.filter_nil]
    · rw [if_neg hc, List.filter_cons_of_neg hc, List.filter_nil, List.append_nil]

end StableSort

end StableInsert
end Shs
