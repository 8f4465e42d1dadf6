import Shs.Core.Queue
import Shs.Lib.StableInsert

/-!
# Core.QueueSort

`queue_sort`, an insertion sort of an intrusive queue. Each entry is unlinked and goes behind the
last one of the sorted entries before it that does not compare above it; the scan runs along `prev`
and ends at the head at the latest.
-/

namespace Shs
namespace Queue

variable {α : Type} [DecidableEq α]

/-- The `do` loop: the entry that `q` goes behind. -/
def sortScan (cmp : α → α → Int) (h q : α) (m : Links α) : Nat → α → Option α
  | 0, _ => none
  | fuel + 1, prev =>
    if cmp prev q ≤ 0 then some prev
    else do
      let prev ← m.prev prev
      if prev ≠ h then sortScan cmp h q m fuel prev else pure prev

/-- The `for` loop, from `q` on; the scan of a round gets the fuel `n`. -/
def sortLoop (cmp : α → α → Int) (h : α) (n : Nat) : Nat → Option α → Links α → Option (Links α)
  | 0, _, _ => none
  | _ + 1, none, _ => none
  | fuel + 1, some q, m =>
    if q = h then some m
    else do
      let prev ← m.prev q
      let next := m.next q
      let m ← queueRemove q m
      let prev ← sortScan cmp h q m n prev
      let m ← queueInsertHead prev q m
      sortLoop cmp h n fuel next m

def queueSort (cmp : α → α → Int) (fuel : Nat) (h : α) (m : Links α) : Option (Links α) := do
  let q ← queueHead m h
  if some q = m.prev h then pure m else sortLoop cmp h fuel fuel (m.next q) m

/-! ## Rounds -/

open StableInsert LinkedRing

variable {m : Links α} {h x : α} {l p p₁ p₂ s t xs : List α} {cmp : α → α → Int} {fuel n : Nat}

/-- `cmp(a, b) <= 0`. -/
def notAbove (cmp : α → α → Int) (a b : α) : Bool := decide (cmp a b ≤ 0)

/-- The scan over the sorted entries `p`, of which there is at least one. -/
theorem sortScan_ring (r : LinkedRing m h (p ++ t)) (hp : p ≠ []) :
    ∃ p₁ p₂, p = p₁ ++ p₂ ∧
      (∀ fuel, p.length ≤ fuel → sortScan cmp h x m fuel (before h p) = some (before h p₁)) ∧
      (∀ y ∈ p₁.getLast?, notAbove cmp y x = true) ∧ ∀ y ∈ p₂, ¬ notAbove cmp y x = true := by
  induction p using List.reverseRecOn generalizing t with
  | nil => exact absurd rfl hp
  | append_singleton q a ih =>
    rw [before_concat]
    rw [List.append_assoc, List.singleton_append] at r
    by_cases ha : cmp a x ≤ 0
    · refine ⟨q ++ [a], [], by simp, fun fuel hfuel => ?_, ?_, by simp⟩
      · obtain ⟨fuel, rfl⟩ := Nat.exists_eq_succ_of_ne_zero (n := fuel) (by rintro rfl; simp at hfuel)
        rw [sortScan, if_pos ha, before_concat]
      · simpa [notAbove] using ha
    · have habove : ¬ notAbove cmp a x = true := by simpa [notAbove] using ha
      have hturn : ∀ fuel, sortScan cmp h x m (fuel + 1) a =
          if before h q ≠ h then sortScan cmp h x m fuel (before h q) else some (before h q) := by
        intro fuel
        rw [sortScan, if_neg ha, r.joined_before.2]
        rfl
      by_cases hq : q = []
      · subst hq
        refine ⟨[], [a], rfl, fun fuel hfuel => ?_, by simp, by simpa using habove⟩
        obtain ⟨fuel, rfl⟩ := Nat.exists_eq_succ_of_ne_zero (n := fuel) (by rintro rfl; simp at hfuel)
        rw [Nat.succ_eq_add_one, hturn, if_neg (by simp)]
      · have hne : before h q ≠ h := by
          intro heq
          have hmem : before h q ∈ q := by
            obtain ⟨q', b, rfl⟩ := (List.eq_nil_or_concat' q).resolve_left hq
            simp
          rw [heq] at hmem
          exact r.notMem (List.mem_append_left _ hmem)
        obtain ⟨p₁, p₂, rfl, hscan, hlast, hrest⟩ := ih r hq
        refine ⟨p₁, p₂ ++ [a], by simp, fun fuel hfuel => ?_, hlast, ?_⟩
        · obtain ⟨fuel, rfl⟩ := Nat.exists_eq_succ_of_ne_zero (n := fuel) (by rintro rfl; simp at hfuel)
          rw [Nat.succ_eq_add_one, hturn, if_pos hne]
          rw [List.length_append, List.length_singleton] at hfuel
          exact hscan fuel (by omega)
        · intro y hy
          rcases List.mem_append.1 hy with hy | hy
          · exact hrest y hy
          · rwa [List.mem_singleton.1 hy]

/-- An insertion behind an entry of the ring, or behind its head. -/
theorem queueInsertHead_at (r : LinkedRing m h (p₁ ++ p₂)) (hx : x ∉ h :: (p₁ ++ p₂)) :
    ∃ m', queueInsertHead (before h p₁) x m = some m' ∧ LinkedRing m' h (p₁ ++ x :: p₂) := by
  have hne := outside_ne hx
  exact ⟨_, queueInsertHead_eq r.joined_between.1 hne.1.symm, r.between hx⟩

/-- The loop over the entries `s` behind the sorted ones. -/
theorem sortLoop_ring (htotal : ∀ a b, notAbove cmp a b = true ∨ notAbove cmp b a = true)
    (htrans : ∀ a b c, notAbove cmp a b = true → notAbove cmp b c = true →
      notAbove cmp a c = true)
    (r : LinkedRing m h (p ++ s)) (hp : p ≠ []) (hsort : StableSort (notAbove cmp) xs p) :
    ∃ m' l', (∀ n fuel, p.length + s.length ≤ n → s.length < fuel →
        sortLoop cmp h n fuel (some (after h s)) m = some m') ∧
      LinkedRing m' h l' ∧ StableSort (notAbove cmp) (xs ++ s) l' := by
  induction s generalizing m p xs with
  | nil =>
    refine ⟨m, p, fun n fuel _ hfuel => ?_, by simpa using r, by simpa using hsort⟩
    obtain ⟨fuel, rfl⟩ := Nat.exists_eq_succ_of_ne_zero (Nat.ne_zero_of_lt hfuel)
    rw [after_nil, sortLoop, if_pos rfl]
  | cons x s ih =>
    have hxh : x ≠ h := by
      rintro rfl
      exact r.notMem (List.mem_append_right p List.mem_cons_self)
    have hx : x ∉ h :: (p ++ s) := by
      have hnd := r.nodup
      rw [← List.cons_append, List.nodup_middle] at hnd
      exact (List.nodup_cons.1 hnd).1
    obtain ⟨hremove, r'⟩ := queueRemove_ring r
    have hprev := r.joined_before.2
    have hnext := r.joined_after.1
    obtain ⟨p₁, p₂, rfl, hscan, hlast, habove⟩ := @sortScan_ring _ _ _ _ x _ _ cmp r' hp
    rw [List.append_assoc] at r' hx
    obtain ⟨m₂, hinsert, r₂⟩ := queueInsertHead_at r' hx
    rw [← List.cons_append, ← List.append_assoc] at r₂
    obtain ⟨m', l', hloop, rout, hout⟩ :=
      ih r₂ (by simp) (hsort.insert htotal htrans hlast habove)
    refine ⟨m', l', fun n fuel hn hfuel => ?_, rout, by simpa using hout⟩
    obtain ⟨fuel, rfl⟩ := Nat.exists_eq_succ_of_ne_zero (Nat.ne_zero_of_lt hfuel)
    rw [List.length_cons] at hn hfuel
    rw [after_cons, sortLoop, if_neg hxh, hprev, hnext, hremove]
    simp only [Option.bind_eq_bind, Option.bind_some, hscan n (by omega), hinsert]
    refine hloop n fuel ?_ (by omega)
    rw [List.length_append] at hn
    rw [List.length_append, List.length_cons]
    omega

/-- The sort leaves a ring that is a stable sort of the one it found. -/
theorem queue_sort_stable (htotal : ∀ a b, notAbove cmp a b = true ∨ notAbove cmp b a = true)
    (htrans : ∀ a b c, notAbove cmp a b = true → notAbove cmp b c = true →
      notAbove cmp a c = true) (r : LinkedRing m h l) :
    ∃ m' l', (∀ fuel, l.length ≤ fuel → queueSort cmp fuel h m = some m') ∧
      LinkedRing m' h l' ∧ StableSort (notAbove cmp) l l' := by
  cases l with
  | nil =>
    refine ⟨m, [], fun fuel _ => ?_, r, StableSort.nil⟩
    rw [queueSort, queueHead_ring r, after_nil, Option.bind_eq_bind, Option.bind_some,
      (r.prev_head_eq_iff).2 rfl]
    exact if_pos rfl
  | cons a s =>
    have hlast : m.prev h = some (before h (a :: s)) := by
      have hr : LinkedRing m h ((a :: s) ++ []) := by rwa [List.append_nil]
      exact hr.joined_between.2
    have hsort : ∀ fuel, queueSort cmp fuel h m =
        if a = before h (a :: s) then some m else sortLoop cmp h fuel fuel (m.next a) m := by
      intro fuel
      rw [queueSort, queueHead_ring r, after_cons, hlast, Option.bind_eq_bind, Option.bind_some]
      simp only [Option.some.injEq]
      rfl
    by_cases hs : s = []
    · subst hs
      refine ⟨m, [a], fun fuel _ => ?_, r, StableSort.single a⟩
      rw [hsort]
      exact if_pos rfl
    · have hne : a ≠ before h (a :: s) := by
        obtain ⟨s', b, rfl⟩ := (List.eq_nil_or_concat' s).resolve_left hs
        rw [← List.cons_append, before_concat]
        rintro rfl
        have hnd := r.nodup_tail
        simp at hnd
      have hring : LinkedRing m h ([a] ++ s) := r
      have hnext : m.next a = some (after h s) := by
        have hr : LinkedRing m h ([] ++ a :: s) := r
        exact hr.joined_after.1
      obtain ⟨m', l', hloop, rout, hout⟩ :=
        sortLoop_ring htotal htrans hring (by simp) (StableSort.single a)
      refine ⟨m', l', fun fuel hfuel => ?_, rout, hout⟩
      rw [List.length_cons] at hfuel
      rw [hsort, if_neg hne, hnext]
      refine hloop fuel fuel ?_ (by omega)
      rw [List.length_singleton]
      omega

/-- Four cells in a ring, from the last one down. -/
def descending : Links Nat where
  next a := some ((a + 3) % 4)
  prev a := some ((a + 1) % 4)

def byNumber (a b : Nat) : Int := (a : Int) - b

theorem notAbove_byNumber (a b : Nat) : notAbove byNumber a b = true ↔ a ≤ b := by
  rw [notAbove, byNumber, decide_eq_true_iff]
  omega

theorem descending_sorted : ∃ m' l', (∀ fuel, 3 ≤ fuel →
      queueSort byNumber fuel 0 descending = some m') ∧
    LinkedRing m' 0 l' ∧ StableSort (notAbove byNumber) [3, 2, 1] l' := by
  have r : LinkedRing descending 0 [3, 2, 1] := ⟨by decide, by decide⟩
  have htotal : ∀ a b, notAbove byNumber a b = true ∨ notAbove byNumber b a = true := by
    intro a b
    rw [notAbove_byNumber, notAbove_byNumber]
    exact Nat.le_total a b
  refine queue_sort_stable htotal (fun a b c hab hbc => ?_) r
  rw [notAbove_byNumber] at hab hbc ⊢
  exact Nat.le_trans hab hbc

end Queue
end Shs
