import Shs.Lib.Region

/-!
# Lib.Memory

Memory as a function from addresses to bytes (of any type): what a range reads after another one
was written.
-/

namespace Memory

open Region

variable {α : Type} (m : Nat → α)

/-- The bytes `vs` are written from `p` on. -/
def write (p : Nat) (vs : List α) : Nat → α :=
  fun a => if p ≤ a then (vs[a - p]?).getD (m a) else m a

/-- The `n` bytes from `p` on. -/
def read (p n : Nat) : List α := (List.range n).map fun i => m (p + i)

@[simp] theorem length_read (p n : Nat) : (read m p n).length = n := by
  simp [read]

theorem read_eq_of_forall {m m' : Nat → α} {p q n : Nat}
    (h : ∀ i < n, m (p + i) = m' (q + i)) : read m p n = read m' q n := by
  refine List.map_congr_left fun i hi => ?_
  exact h i (List.mem_range.1 hi)

theorem read_add (p a b : Nat) : read m p (a + b) = read m p a ++ read m (p + a) b := by
  simp [read, List.range_add, Nat.add_assoc, Function.comp_def]

/-- What was written is read. -/
theorem read_write_take (p : Nat) {vs : List α} {n : Nat} (h : n ≤ vs.length) :
    read (write m p vs) p n = vs.take n := by
  refine List.ext_getElem (by simp [h]) fun i hi hi' => ?_
  rw [length_read] at hi
  have hlt : i < vs.length := by omega
  simp [read, write, List.getElem?_eq_getElem hlt]

theorem read_write (p : Nat) (vs : List α) : read (write m p vs) p vs.length = vs := by
  rw [read_write_take m p (Nat.le_refl _), List.take_length]

variable {m}

theorem write_apart {p a : Nat} {vs : List α} (h : a < p ∨ p + vs.length ≤ a) :
    write m p vs a = m a := by
  rcases h with hlt | hge
  · exact if_neg (Nat.not_le.2 hlt)
  · have hout : vs[a - p]? = none := List.getElem?_eq_none (by omega)
    simp [write, hout]

/-- The other regions are read as before. -/
theorem read_write_apart {p : Nat} {vs : List α} {r : Region}
    (h : Apart r ⟨p, vs.length⟩) : read (write m p vs) r.start r.size = read m r.start r.size := by
  refine read_eq_of_forall fun i hi => write_apart ?_
  rcases h with hbelow | habove
  · have hend : r.start + r.size ≤ p := hbelow
    exact .inl (by omega)
  · have hend : p + vs.length ≤ r.start := habove
    exact .inr (by omega)

/-- A part of a copy reads like the same part of what was copied. -/
theorem read_copy (m : Nat → α) {p q size off n : Nat} (h : off + n ≤ size) :
    read (write m q (read m p size)) (q + off) n = read m (p + off) n := by
  refine read_eq_of_forall fun i hi => ?_
  have hlt : off + i < size := by omega
  simp [write, read, hlt, Nat.add_assoc]

end Memory
