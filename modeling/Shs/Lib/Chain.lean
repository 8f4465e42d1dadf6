import Mathlib.Data.List.Nodup
import Mathlib.Logic.Function.Basic

/-!
# Lib.Chain

Null-terminated singly linked lists in a memory that is a function from cells to their next
pointer. `Linked next p l` says that `p` leads to null over the cells `l`, in this order. Writes
to other cells keep it, and cutting the pointer of the `n`-th cell leaves its first `n` cells.
-/

namespace Chain

variable {α : Type}

def Linked (next : α → Option α) : Option α → List α → Prop
  | p, [] => p = none
  | p, a :: l => p = some a ∧ Linked next (next a) l

@[simp] theorem linked_nil (next : α → Option α) (p : Option α) :
    Linked next p [] ↔ p = none := Iff.rfl

@[simp] theorem linked_cons (next : α → Option α) (p : Option α) (a : α) (l : List α) :
    Linked next p (a :: l) ↔ p = some a ∧ Linked next (next a) l := Iff.rfl

theorem Linked.congr {next next' : α → Option α} {p : Option α} {l : List α}
    (h : Linked next p l) (heq : ∀ a ∈ l, next' a = next a) : Linked next' p l := by
  induction l generalizing p with
  | nil => exact h
  | cons a l ih =>
    refine ⟨h.1, ?_⟩
    rw [heq a (by simp)]
    exact ih h.2 fun b hb => heq b (by simp [hb])

theorem Linked.update [DecidableEq α] {next : α → Option α} {p q : Option α} {l : List α} {a : α}
    (h : Linked next p l) (ha : a ∉ l) : Linked (Function.update next a q) p l := by
  refine h.congr fun b hb => Function.update_of_ne ?_ _ _
  rintro rfl
  exact ha hb

/-- A cell that is not in the list is put in front of it. -/
theorem Linked.push [DecidableEq α] {next : α → Option α} {p : Option α} {l : List α} {a : α}
    (h : Linked next p l) (ha : a ∉ l) : Linked (Function.update next a p) (some a) (a :: l) := by
  refine ⟨rfl, ?_⟩
  rw [Function.update_self]
  exact h.update ha

theorem Linked.eq_none_iff {next : α → Option α} {p : Option α} {l : List α}
    (h : Linked next p l) : p = none ↔ l = [] := by
  cases l with
  | nil => simpa using h
  | cons a l => simp [h.1]

theorem Linked.head {next : α → Option α} {a : α} {l : List α} (h : Linked next (some a) l) :
    ∃ r, l = a :: r ∧ Linked next (next a) r := by
  cases l with
  | nil => exact absurd h (by simp)
  | cons b r =>
    obtain ⟨hab, hr⟩ := h
    cases hab
    exact ⟨r, rfl, hr⟩

/-- The two pointers after at most `n` steps along `next`: the cell before, and where it leads. -/
def follow (next : α → Option α) : Nat → α → Option α → α × Option α
  | 0, last, p => (last, p)
  | _ + 1, last, none => (last, none)
  | n + 1, _, some a => follow next n a (next a)

theorem follow_linked {next : α → Option α} {p : Option α} {l r : List α} {a b : α}
    (h : Linked next p (l ++ a :: r)) :
    follow next (l.length + 1) b p = (a, next a) ∧ Linked next (next a) r := by
  induction l generalizing p b with
  | nil =>
    obtain ⟨rfl, hr⟩ := h
    exact ⟨rfl, hr⟩
  | cons c l ih =>
    obtain ⟨rfl, hr⟩ := h
    exact ih hr

/-- The list is cut behind cell `a`. -/
theorem Linked.cut [DecidableEq α] {next : α → Option α} {p : Option α} {l r : List α} {a : α}
    (h : Linked next p (l ++ a :: r)) (hnd : (l ++ [a]).Nodup) :
    Linked (Function.update next a none) p (l ++ [a]) := by
  induction l generalizing p with
  | nil => exact ⟨h.1, by simp⟩
  | cons c l ih =>
    rw [List.cons_append, List.nodup_cons] at hnd
    refine ⟨h.1, ?_⟩
    rw [Function.update_of_ne (by rintro rfl; simp at hnd)]
    exact ih h.2 hnd.2

/-- A cell that is not in the list is put behind its last one. -/
theorem Linked.snoc [DecidableEq α] {next : α → Option α} {p : Option α} {l : List α} {a b : α}
    (h : Linked next p (l ++ [b])) (hb : b ∉ l) (hl : a ∉ l) (hab : a ≠ b) :
    Linked (Function.update (Function.update next b (some a)) a none) p (l ++ [b] ++ [a]) := by
  induction l generalizing p with
  | nil =>
    refine ⟨h.1, ?_, ?_⟩
    · rw [Function.update_of_ne hab.symm, Function.update_self]
    · rw [Function.update_self]
      rfl
  | cons c l ih =>
    obtain ⟨hp, hl'⟩ := h
    refine ⟨hp, ?_⟩
    rw [Function.update_of_ne (List.ne_of_not_mem_cons hl).symm,
      Function.update_of_ne (List.ne_of_not_mem_cons hb).symm]
    exact ih hl' (List.not_mem_of_not_mem_cons hb) (List.not_mem_of_not_mem_cons hl)

theorem Linked.unique {next : α → Option α} {p : Option α} {l l' : List α}
    (h : Linked next p l) (h' : Linked next p l') : l = l' := by
  induction l generalizing p l' with
  | nil =>
    obtain rfl : p = none := h
    exact (h'.eq_none_iff.1 rfl).symm
  | cons a l ih =>
    obtain ⟨rfl, hl⟩ := h
    obtain ⟨r, rfl, hr⟩ := h'.head
    rw [ih hl hr]

/-- The cell behind `b` is taken out of the list. -/
theorem Linked.unlink [DecidableEq α] {next : α → Option α} {p : Option α} {l r : List α} {a b : α}
    (h : Linked next p (l ++ b :: a :: r)) (hb : b ∉ l) (hr : b ∉ r) :
    Linked (Function.update next b (next a)) p (l ++ b :: r) := by
  induction l generalizing p with
  | nil =>
    obtain ⟨hp, _, ha⟩ := h
    refine ⟨hp, ?_⟩
    rw [Function.update_self]
    exact ha.update hr
  | cons c l ih =>
    obtain ⟨hp, hl⟩ := h
    refine ⟨hp, ?_⟩
    have hcb : c ≠ b := by
      rintro rfl
      exact hb List.mem_cons_self
    rw [Function.update_of_ne hcb]
    exact ih hl fun hbl => hb (List.mem_cons_of_mem c hbl)

end Chain
