import Mathlib.Algebra.Order.Ring.Nat
import Mathlib.Data.List.Basic

/-!
# Core.ArrayInherit

`array_inherit`: for each element of one array a match is looked for in another one, and the
caller's function gets the pair. Elements are known by their addresses. What the two callbacks can
see and change besides is a state `σ`; `pool` is passed to the second of them and to nothing else,
so it is part of that function here.
-/

namespace Shs
namespace ArrayInherit

/-- `array_t`, without `nalloc` and `pool`. `array_create` refuses elements of no size, and the
elements are memory. -/
structure ArrayT where
  elts   : Nat
  nelts  : Nat
  size   : Nat
  sized  : 0 < size
  mapped : 0 < elts
  fits   : elts + size * nelts ≤ 2 ^ 64

/-- `(char *)a->elts + a->size * i`. -/
def elt (a : ArrayT) (i : Nat) : Nat := (a.elts + a.size * i) % 2 ^ 64

/-- A call of one of the two functions, which reads the elements behind both pointers. -/
inductive Event where
  | cmp (v1 v2 : Nat)
  | hand (v1 v2 : Nat)
  deriving DecidableEq, Repr

section Code

variable {σ : Type} (a1 a2 : ArrayT) (func : σ → Nat → Nat → Bool) (func2 : Nat → Nat → σ → σ)

/-- The loop over `j` in round `i`, with `m` turns to go. -/
def inheritElt (i v1 : Nat) : Nat → σ → List Event × σ
  | 0, s => ([], s)
  | m + 1, s =>
    -- `a2->size * i`, in every turn
    let v2 := elt a2 i
    if func s v1 v2 then ([.cmp v1 v2, .hand v1 v2], func2 v1 v2 s)
    else
      let r := inheritElt i v1 m s
      (.cmp v1 v2 :: r.1, r.2)

/-- The first `n` rounds. -/
def inheritRounds : Nat → σ → List Event × σ
  | 0, s => ([], s)
  | n + 1, s =>
    let r := inheritRounds n s
    let e := inheritElt a2 func func2 n (elt a1 n) a2.nelts r.2
    (r.1 ++ e.1, e.2)

def arrayInherit (s : σ) : List Event × σ := inheritRounds a1 a2 func func2 a1.nelts s

/-! ## What an inheritance is for -/

/-- The first element of `a2` that matches `v1`. -/
def firstMatch (s : σ) (v1 : Nat) : Option Nat :=
  (List.range a2.nelts).find? fun j => func s v1 (elt a2 j)

/-- The pairs that the first `n` elements of `a1` are to be handed on with. -/
def wanted : Nat → σ → List (Nat × Nat) × σ
  | 0, s => ([], s)
  | n + 1, s =>
    let r := wanted n s
    match firstMatch a2 func r.2 (elt a1 n) with
    | none => r
    | some j => (r.1 ++ [(elt a1 n, elt a2 j)], func2 (elt a1 n) (elt a2 j) r.2)

end Code

def Event.handed : Event → Option (Nat × Nat)
  | .cmp _ _ => none
  | .hand v1 v2 => some (v1, v2)

def Event.pair : Event → Nat × Nat
  | .cmp v1 v2 => (v1, v2)
  | .hand v1 v2 => (v1, v2)

/-- `v` is the address of an element. -/
def Element (a : ArrayT) (v : Nat) : Prop := ∃ i < a.nelts, v = elt a i

/-- The calls of the inherit function are those wanted, and every call is about elements of the
arrays. -/
structure Inherits {σ : Type} (a1 a2 : ArrayT) (func : σ → Nat → Nat → Bool)
    (func2 : Nat → Nat → σ → σ) (s : σ) : Prop where
  handed : (arrayInherit a1 a2 func func2 s).1.filterMap Event.handed =
    (wanted a1 a2 func func2 a1.nelts s).1
  inside : ∀ e ∈ (arrayInherit a1 a2 func func2 s).1, Element a1 e.pair.1 ∧ Element a2 e.pair.2

/-! ## Addresses -/

section Addresses

variable {a : ArrayT} {i j : Nat}

theorem elt_eq (hi : i < a.nelts) : elt a i = a.elts + a.size * i := by
  have hstep : a.size * i + a.size ≤ a.size * a.nelts := by
    rw [← Nat.mul_succ]
    exact Nat.mul_le_mul_left a.size hi
  have hfits := a.fits
  have hsized := a.sized
  exact Nat.mod_eq_of_lt (by omega)

theorem elt_inj (hi : i < a.nelts) (hj : j < a.nelts) (h : elt a i = elt a j) : i = j := by
  rw [elt_eq hi, elt_eq hj] at h
  exact Nat.eq_of_mul_eq_mul_left a.sized (Nat.add_left_cancel h)

/-- The end of the array is not an element. -/
theorem not_element_end : ¬ Element a (elt a a.nelts) := by
  rintro ⟨i, hi, h⟩
  have hlt : a.size * i < a.size * a.nelts := Nat.mul_lt_mul_of_pos_left hi a.sized
  have hmapped := a.mapped
  rw [elt_eq hi, elt] at h
  rcases Nat.lt_or_eq_of_le a.fits with hfits | hfits
  · rw [Nat.mod_eq_of_lt hfits] at h
    omega
  · rw [hfits] at h
    omega

end Addresses

/-! ## Rounds -/

section Rounds

variable {σ : Type} {a1 a2 : ArrayT} {func : σ → Nat → Nat → Bool} {func2 : Nat → Nat → σ → σ}

/-- A round hands on the pair of elements `i`, or nothing. -/
theorem inheritElt_handed (i v1 m : Nat) (s : σ) :
    (inheritElt a2 func func2 i v1 m s).1.filterMap Event.handed =
      if m ≠ 0 ∧ func s v1 (elt a2 i) then [(v1, elt a2 i)] else [] := by
  induction m with
  | zero => rfl
  | succ m ih =>
    rw [inheritElt]
    by_cases hf : func s v1 (elt a2 i) = true
    · rw [if_pos hf, if_pos ⟨m.succ_ne_zero, hf⟩]
      rfl
    · simpa [hf, Event.handed] using ih

theorem inheritElt_state (i v1 m : Nat) (s : σ) :
    (inheritElt a2 func func2 i v1 m s).2 =
      if m ≠ 0 ∧ func s v1 (elt a2 i) then func2 v1 (elt a2 i) s else s := by
  induction m with
  | zero => rfl
  | succ m ih =>
    rw [inheritElt]
    by_cases hf : func s v1 (elt a2 i) = true
    · simp [hf]
    · simpa [hf] using ih

theorem inheritElt_pair {i v1 m : Nat} {s : σ} {e : Event}
    (he : e ∈ (inheritElt a2 func func2 i v1 m s).1) : e.pair = (v1, elt a2 i) := by
  induction m with
  | zero => cases he
  | succ m ih =>
    rw [inheritElt] at he
    split at he
    · rcases List.mem_pair.1 he with rfl | rfl
      · rfl
      · rfl
    · rcases List.mem_cons.1 he with rfl | he
      · rfl
      · exact ih he

theorem inheritElt_cmp (i v1 m : Nat) (s : σ) :
    .cmp v1 (elt a2 i) ∈ (inheritElt a2 func func2 i v1 (m + 1) s).1 := by
  rw [inheritElt]
  split
  · exact List.mem_cons_self
  · exact List.mem_cons_self

theorem mem_inheritRounds {n : Nat} {s : σ} {e : Event} :
    e ∈ (inheritRounds a1 a2 func func2 n s).1 ↔
      ∃ i < n, e ∈ (inheritElt a2 func func2 i (elt a1 i) a2.nelts
        (inheritRounds a1 a2 func func2 i s).2).1 := by
  induction n with
  | zero => simp [inheritRounds]
  | succ n ih =>
    rw [inheritRounds, List.mem_append, ih]
    constructor
    · rintro (⟨i, hi, he⟩ | he)
      · exact ⟨i, by omega, he⟩
      · exact ⟨n, by omega, he⟩
    · rintro ⟨i, hi, he⟩
      rcases Nat.lt_succ_iff_lt_or_eq.1 hi with hi | rfl
      · exact .inl ⟨i, hi, he⟩
      · exact .inr he

/-- The first match is the element with the index of the round, if there is a match. -/
def Straight (a1 a2 : ArrayT) (func : σ → Nat → Nat → Bool) (func2 : Nat → Nat → σ → σ)
    (s : σ) (i : Nat) : Prop :=
  ∀ j, firstMatch a2 func (wanted a1 a2 func func2 i s).2 (elt a1 i) = some j → j = i

theorem firstMatch_lt {s : σ} {v1 j : Nat} (h : firstMatch a2 func s v1 = some j) :
    j < a2.nelts ∧ func s v1 (elt a2 j) = true :=
  ⟨List.mem_range.1 (List.mem_of_find?_eq_some h),
    List.find?_some (p := fun j => func s v1 (elt a2 j)) h⟩

/-- What a round with a straight match hands on is what is wanted. -/
theorem round_straight {i : Nat} {s t : σ} (ht : (wanted a1 a2 func func2 i s).2 = t)
    (hi : a2.nelts ≠ 0 → i < a2.nelts) (h : Straight a1 a2 func func2 s i) :
    wanted a1 a2 func func2 (i + 1) s =
      ((wanted a1 a2 func func2 i s).1 ++
        (inheritElt a2 func func2 i (elt a1 i) a2.nelts t).1.filterMap Event.handed,
        (inheritElt a2 func func2 i (elt a1 i) a2.nelts t).2) := by
  subst ht
  rw [inheritElt_handed, inheritElt_state, wanted]
  cases hm : firstMatch a2 func (wanted a1 a2 func func2 i s).2 (elt a1 i) with
  | none =>
    have hno : ¬ (a2.nelts ≠ 0 ∧
        func (wanted a1 a2 func func2 i s).2 (elt a1 i) (elt a2 i) = true) := by
      rintro ⟨h0, hf⟩
      exact List.find?_eq_none.1 hm i (List.mem_range.2 (hi h0)) hf
    rw [if_neg hno, if_neg hno, List.append_nil]
  | some j =>
    obtain rfl := h j hm
    obtain ⟨hj, hf⟩ := firstMatch_lt hm
    have hyes : a2.nelts ≠ 0 ∧
        func (wanted a1 a2 func func2 j s).2 (elt a1 j) (elt a2 j) = true := ⟨by omega, hf⟩
    rw [if_pos hyes, if_pos hyes]

theorem rounds_straight {n : Nat} {s : σ} (hn : a2.nelts ≠ 0 → n ≤ a2.nelts)
    (h : ∀ i < n, Straight a1 a2 func func2 s i) :
    wanted a1 a2 func func2 n s =
      ((inheritRounds a1 a2 func func2 n s).1.filterMap Event.handed,
        (inheritRounds a1 a2 func func2 n s).2) := by
  induction n with
  | zero => rfl
  | succ n ih =>
    have hbefore := ih (fun h0 => by have := hn h0; omega) fun i hi => h i (by omega)
    rw [round_straight (congrArg Prod.snd hbefore) (fun h0 => by have := hn h0; omega)
      (h n (by omega)), hbefore, inheritRounds, List.filterMap_append]

/-! ## The converse -/

theorem wanted_fst_mem {n : Nat} {s : σ} {p : Nat × Nat}
    (hp : p ∈ (wanted a1 a2 func func2 n s).1) : ∃ i < n, p.1 = elt a1 i := by
  induction n with
  | zero => cases hp
  | succ n ih =>
    rw [wanted] at hp
    split at hp
    · obtain ⟨i, hi, hpi⟩ := ih hp
      exact ⟨i, by omega, hpi⟩
    · rcases List.mem_append.1 hp with hp | hp
      · obtain ⟨i, hi, hpi⟩ := ih hp
        exact ⟨i, by omega, hpi⟩
      · rw [List.mem_singleton.1 hp]
        exact ⟨n, by omega, rfl⟩

theorem handed_pair {e : Event} {p : Nat × Nat} (h : e.handed = some p) : e.pair = p := by
  cases e with
  | cmp v1 v2 => cases h
  | hand v1 v2 => exact Option.some.inj h

theorem rounds_handed_fst {n : Nat} {s : σ} {p : Nat × Nat}
    (hp : p ∈ (inheritRounds a1 a2 func func2 n s).1.filterMap Event.handed) :
    ∃ i < n, p = (elt a1 i, elt a2 i) := by
  obtain ⟨e, he, hep⟩ := List.mem_filterMap.1 hp
  obtain ⟨i, hi, he⟩ := mem_inheritRounds.1 he
  exact ⟨i, hi, by rw [← handed_pair hep, inheritElt_pair he]⟩

/-- Two lists that are each cut in front of the first entry with `P` have the same parts. -/
theorem append_split {α : Type} {P : α → Bool} {xs xs' ys ys' : List α}
    (h : xs ++ ys = xs' ++ ys') (hxs : ∀ a ∈ xs, ¬ P a = true) (hxs' : ∀ a ∈ xs', ¬ P a = true)
    (hys : ∀ a ∈ ys, P a = true) (hys' : ∀ a ∈ ys', P a = true) : xs = xs' ∧ ys = ys' := by
  have hcut := congrArg (List.filter P) h
  rw [List.filter_append, List.filter_append, List.filter_eq_nil_iff.2 hxs,
    List.filter_eq_nil_iff.2 hxs', List.filter_eq_self.2 hys, List.filter_eq_self.2 hys'] at hcut
  obtain rfl : ys = ys' := hcut
  exact ⟨List.append_cancel_right h, rfl⟩

/-- What the last round hands on and what is wanted of it agree, and so do the rounds before. -/
theorem handed_succ {n : Nat} {s : σ} (hn : n < a1.nelts)
    (h : (inheritRounds a1 a2 func func2 (n + 1) s).1.filterMap Event.handed =
      (wanted a1 a2 func func2 (n + 1) s).1) :
    (inheritRounds a1 a2 func func2 n s).1.filterMap Event.handed =
        (wanted a1 a2 func func2 n s).1 ∧
      ∀ j, firstMatch a2 func (wanted a1 a2 func func2 n s).2 (elt a1 n) = some j →
        elt a2 j = elt a2 n := by
  have hearlier : ∀ p : Nat × Nat, (∃ i < n, p.1 = elt a1 i) → ¬ decide (p.1 = elt a1 n) = true := by
    rintro p ⟨i, hi, hp⟩ hpn
    have heq := of_decide_eq_true hpn
    rw [hp] at heq
    have := elt_inj (by omega) hn heq
    omega
  have hxs : ∀ p ∈ (inheritRounds a1 a2 func func2 n s).1.filterMap Event.handed,
      ¬ decide (p.1 = elt a1 n) = true := by
    intro p hp
    obtain ⟨i, hi, rfl⟩ := rounds_handed_fst hp
    exact hearlier _ ⟨i, hi, rfl⟩
  have hxs' : ∀ p ∈ (wanted a1 a2 func func2 n s).1, ¬ decide (p.1 = elt a1 n) = true :=
    fun p hp => hearlier p (wanted_fst_mem hp)
  rw [inheritRounds, List.filterMap_append, inheritElt_handed, wanted] at h
  have hys : ∀ t : σ, ∀ p ∈ (if a2.nelts ≠ 0 ∧ func t (elt a1 n) (elt a2 n) then
      [(elt a1 n, elt a2 n)] else []), decide (p.1 = elt a1 n) = true := by
    intro t p hp
    split at hp
    · rw [List.mem_singleton.1 hp, decide_eq_true rfl]
    · cases hp
  cases hm : firstMatch a2 func (wanted a1 a2 func func2 n s).2 (elt a1 n) with
  | none =>
    simp only [hm] at h
    rw [← List.append_nil (wanted a1 a2 func func2 n s).1] at h
    exact ⟨(append_split h hxs hxs' (hys _) (by simp)).1, by simp⟩
  | some j =>
    simp only [hm] at h
    obtain ⟨hbefore, hlast⟩ := append_split h hxs hxs' (hys _) (by simp)
    refine ⟨hbefore, ?_⟩
    rintro _ ⟨⟩
    split at hlast
    · have hpair := List.head_eq_of_cons_eq hlast
      exact (congrArg Prod.snd hpair).symm
    · cases hlast

theorem straight_of_handed {n : Nat} {s : σ} (hn : n ≤ a1.nelts)
    (hrange : a2.nelts ≠ 0 → n ≤ a2.nelts)
    (h : (inheritRounds a1 a2 func func2 n s).1.filterMap Event.handed =
      (wanted a1 a2 func func2 n s).1) :
    ∀ i < n, Straight a1 a2 func func2 s i := by
  induction n with
  | zero => exact fun i hi => absurd hi (Nat.not_lt_zero i)
  | succ n ih =>
    obtain ⟨hbefore, hlast⟩ := handed_succ hn h
    intro i hi
    rcases Nat.lt_succ_iff_lt_or_eq.1 hi with hi | rfl
    · exact ih (by omega) (fun h0 => by have := hrange h0; omega) hbefore i hi
    · intro j hj
      have hjlt := (firstMatch_lt hj).1
      have := hrange (by omega)
      exact elt_inj hjlt (by omega) (hlast j hj)

/-- The first round behind the end of `a2` looks at what is no element of it. -/
theorem nelts_le_of_inside {s : σ} (h0 : a2.nelts ≠ 0)
    (h : ∀ e ∈ (arrayInherit a1 a2 func func2 s).1, Element a1 e.pair.1 ∧ Element a2 e.pair.2) :
    a1.nelts ≤ a2.nelts := by
  by_contra hlt
  obtain ⟨m, hm⟩ := Nat.exists_eq_succ_of_ne_zero h0
  have hcmp := @inheritElt_cmp _ a2 func func2 a2.nelts
    (elt a1 a2.nelts) m (inheritRounds a1 a2 func func2 a2.nelts s).2
  rw [← Nat.succ_eq_add_one, ← hm] at hcmp
  exact not_element_end (h _ (mem_inheritRounds.2 ⟨a2.nelts, by omega, hcmp⟩)).2

theorem inside_of_le {s : σ} (hle : a2.nelts ≠ 0 → a1.nelts ≤ a2.nelts) :
    ∀ e ∈ (arrayInherit a1 a2 func func2 s).1, Element a1 e.pair.1 ∧ Element a2 e.pair.2 := by
  intro e he
  obtain ⟨i, hi, he⟩ := mem_inheritRounds.1 he
  have h0 : a2.nelts ≠ 0 := by
    intro h0
    rw [h0] at he
    cases he
  rw [inheritElt_pair he]
  exact ⟨⟨i, hi, rfl⟩, i, lt_of_lt_of_le hi (hle h0), rfl⟩

end Rounds

/-- The inheritance is right when the second array is empty, or when it is not shorter than the
first one and no element has its first match at another index than its own. -/
theorem array_inherit_iff {σ : Type} (a1 a2 : ArrayT) (func : σ → Nat → Nat → Bool)
    (func2 : Nat → Nat → σ → σ) (s : σ) :
    Inherits a1 a2 func func2 s ↔
      (a2.nelts ≠ 0 → a1.nelts ≤ a2.nelts) ∧
        ∀ i < a1.nelts, ∀ j,
          firstMatch a2 func (wanted a1 a2 func func2 i s).2 (elt a1 i) = some j → j = i := by
  constructor
  · rintro ⟨hhanded, hinside⟩
    have hle : a2.nelts ≠ 0 → a1.nelts ≤ a2.nelts := fun h0 => nelts_le_of_inside h0 hinside
    exact ⟨hle, straight_of_handed (Nat.le_refl a1.nelts) hle hhanded⟩
  · rintro ⟨hle, hstraight⟩
    exact ⟨(congrArg Prod.fst (rounds_straight hle hstraight)).symm, inside_of_le hle⟩

def twoElts : ArrayT := ⟨4096, 2, 8, by decide, by decide, by decide⟩

def otherTwo : ArrayT := ⟨8192, 2, 8, by decide, by decide, by decide⟩

def oneElt : ArrayT := ⟨8192, 1, 8, by decide, by decide, by decide⟩

/-- Each element matches the other one's partner, and nothing is handed on; with one element in the
second array the second round looks behind its end. -/
theorem crosswise_not_inherited :
    ¬ Inherits twoElts otherTwo (fun _ v1 v2 => v1 + 4096 != v2) (fun _ _ s => s) () ∧
      ¬ Inherits twoElts oneElt (fun _ _ _ => false) (fun _ _ s => s) () := by
  constructor
  · intro h
    exact absurd h.handed (by decide)
  · intro h
    obtain ⟨-, j, hj, heq⟩ := h.inside (.cmp 4104 8200) (by decide)
    obtain rfl : j = 0 := Nat.lt_one_iff.1 hj
    exact absurd heq (by decide)

end ArrayInherit
end Shs
