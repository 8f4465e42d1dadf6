import Mathlib.Algebra.BigOperators.Group.List.Basic
import Mathlib.Algebra.Order.Ring.Nat
import Mathlib.Data.List.Nodup

/-!
# Lib.Tiling

Blocks that lie one behind the other and fill an interval of addresses. A block is the address of
its first byte, and `len` gives the length of each.
-/

/-- The blocks, in the order of their addresses, are the bytes from `lo` up to `hi`. -/
def Tiles (len : Nat → Nat) : Nat → List Nat → Nat → Prop
  | lo, [], hi => lo = hi
  | lo, a :: l, hi => a = lo ∧ Tiles len (lo + len a) l hi

namespace Tiles

variable {len len' : Nat → Nat} {lo hi a b x : Nat} {l l₁ l₂ : List Nat}

@[simp] theorem nil_iff : Tiles len lo [] hi ↔ lo = hi := Iff.rfl

@[simp] theorem cons_iff : Tiles len lo (a :: l) hi ↔ a = lo ∧ Tiles len (lo + len a) l hi := Iff.rfl

theorem append_iff :
    Tiles len lo (l₁ ++ l₂) hi ↔ ∃ mid, Tiles len lo l₁ mid ∧ Tiles len mid l₂ hi := by
  induction l₁ generalizing lo with
  | nil => simp
  | cons a l₁ ih =>
    rw [List.cons_append, cons_iff, ih]
    constructor
    · rintro ⟨ha, mid, h₁, h₂⟩
      exact ⟨mid, ⟨ha, h₁⟩, h₂⟩
    · rintro ⟨mid, ⟨ha, h₁⟩, h₂⟩
      exact ⟨ha, mid, h₁, h₂⟩

/-- Block `a` begins where the blocks before it end. -/
theorem middle_iff :
    Tiles len lo (l₁ ++ a :: l₂) hi ↔ Tiles len lo l₁ a ∧ Tiles len (a + len a) l₂ hi := by
  rw [append_iff]
  constructor
  · rintro ⟨mid, h₁, rfl, h₂⟩
    exact ⟨h₁, h₂⟩
  · rintro ⟨h₁, h₂⟩
    exact ⟨a, h₁, rfl, h₂⟩

theorem congr (h : Tiles len lo l hi) (heq : ∀ a ∈ l, len' a = len a) : Tiles len' lo l hi := by
  induction l generalizing lo with
  | nil => exact h
  | cons a l ih =>
    obtain ⟨ha, hl⟩ := h
    refine ⟨ha, ?_⟩
    rw [heq a List.mem_cons_self]
    exact ih hl fun b hb => heq b (List.mem_cons_of_mem a hb)

theorem sum (h : Tiles len lo l hi) : lo + (l.map len).sum = hi := by
  induction l generalizing lo with
  | nil => exact h
  | cons a l ih =>
    have := ih h.2
    rw [List.map_cons, List.sum_cons]
    omega

theorem le (h : Tiles len lo l hi) : lo ≤ hi := by
  have := h.sum
  omega

theorem inside (h : Tiles len lo l hi) (ha : a ∈ l) : lo ≤ a ∧ a + len a ≤ hi := by
  obtain ⟨l₁, l₂, rfl⟩ := List.append_of_mem ha
  obtain ⟨h₁, h₂⟩ := middle_iff.1 h
  exact ⟨h₁.le, h₂.le⟩

/-- The addresses rise by at least the length of the block. -/
theorem pairwise (h : Tiles len lo l hi) : l.Pairwise fun a b => a + len a ≤ b := by
  induction l generalizing lo with
  | nil => exact .nil
  | cons a l ih =>
    obtain ⟨rfl, hl⟩ := h
    exact List.pairwise_cons.2 ⟨fun b hb => (hl.inside hb).1, ih hl⟩

theorem nodup (h : Tiles len lo l hi) (hpos : ∀ a, 0 < len a) : l.Nodup :=
  h.pairwise.imp fun {a b} hab => by
    have := hpos a
    omega

/-- No block begins inside of another one. -/
theorem notMem_inside (h : Tiles len lo l hi) (hpos : ∀ a, 0 < len a) (ha : a ∈ l) (hlo : a < x)
    (hhi : x < a + len a) : x ∉ l := by
  intro hx
  obtain ⟨l₁, l₂, rfl⟩ := List.append_of_mem ha
  obtain ⟨h₁, h₂⟩ := middle_iff.1 h
  rcases List.mem_append.1 hx with hx | hx
  · have := (h₁.inside hx).2
    have := hpos x
    omega
  · rcases List.mem_cons.1 hx with rfl | hx
    · omega
    · have := (h₂.inside hx).1
      omega

/-- Block `a` becomes two blocks. -/
theorem split (h : Tiles len lo (l₁ ++ a :: l₂) hi) (h₁ : ∀ c ∈ l₁, len' c = len c)
    (h₂ : ∀ c ∈ l₂, len' c = len c) (hb : b = a + len' a) (hab : len' a + len' b = len a) :
    Tiles len' lo (l₁ ++ a :: b :: l₂) hi := by
  obtain ⟨hl, hr⟩ := middle_iff.1 h
  refine middle_iff.2 ⟨hl.congr h₁, hb, ?_⟩
  rw [Nat.add_assoc, hab]
  exact hr.congr h₂

/-- Two neighbours become one block. -/
theorem merge (h : Tiles len lo (l₁ ++ a :: b :: l₂) hi) (h₁ : ∀ c ∈ l₁, len' c = len c)
    (h₂ : ∀ c ∈ l₂, len' c = len c) (hab : len' a = len a + len b) :
    Tiles len' lo (l₁ ++ a :: l₂) hi := by
  obtain ⟨hl, hb, hr⟩ := middle_iff.1 h
  refine middle_iff.2 ⟨hl.congr h₁, ?_⟩
  rw [hab, ← Nat.add_assoc]
  exact hr.congr h₂

/-- The block behind `a` begins where `a` ends. -/
theorem next_eq (h : Tiles len lo (l₁ ++ a :: b :: l₂) hi) : b = a + len a :=
  (middle_iff.1 h).2.1

end Tiles
