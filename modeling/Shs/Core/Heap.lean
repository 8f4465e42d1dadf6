import Shs.Lib.Region

/-!
# Core.Heap

The memory allocator below the program. It is not part of the source: each call gets its answer
from outside, and an answer counts only if it is a region that overlaps none of those given out.
The last bytes of the address space are not given out, so a pointer behind a region and its
alignment do not wrap.
-/

namespace Shs

/-- Regions end at or below this address. -/
def heapTop : Nat := 2 ^ 64 - 8

/-- The regions that the allocator has given out, and its next answers. -/
structure Heap where
  out     : List Region
  answers : List (Option Nat) := []
  packed  : Region.Packed heapTop out
  sized   : ∀ r ∈ out, 0 < r.size

/-- Nothing is given out. -/
theorem sized_nil : ∀ r ∈ ([] : List Region), 0 < r.size := fun _ hr => absurd hr List.not_mem_nil

/-- A region that the allocator can give out. -/
structure Fresh (out : List Region) (r : Region) : Prop where
  pos   : 0 < r.start
  sized : 0 < r.size
  top   : r.stop ≤ heapTop
  apart : ∀ r' ∈ out, Region.Apart r r'

instance (out : List Region) (r : Region) : Decidable (Fresh out r) :=
  decidable_of_iff (0 < r.start ∧ 0 < r.size ∧ r.stop ≤ heapTop ∧ ∀ r' ∈ out, Region.Apart r r')
    ⟨fun h => ⟨h.1, h.2.1, h.2.2.1, h.2.2.2⟩, fun h => ⟨h.1, h.2, h.3, h.4⟩⟩

namespace Heap

/-- A fresh region is given out. -/
def push (h : Heap) (r : Region) (hr : Fresh h.out r) : Heap where
  out := r :: h.out
  answers := h.answers
  packed := h.packed.cons hr.top hr.apart
  sized := by
    intro x hx
    rcases List.mem_cons.1 hx with rfl | hx
    · exact hr.sized
    · exact h.sized x hx

/-- `malloc`; `ok` is what the address has to meet besides. -/
def alloc (ok : Nat → Bool) (size : Nat) (h : Heap) : Option Nat × Heap :=
  match h.answers with
  | some a :: rest =>
    if hr : Fresh h.out ⟨a, size⟩ ∧ ok a then
      (some a, { h.push ⟨a, size⟩ hr.1 with answers := rest })
    else (none, { h with answers := rest })
  | none :: rest => (none, { h with answers := rest })
  | [] => (none, h)

/-- `free`. -/
def free (a : Nat) (h : Heap) : Heap where
  out := h.out.filter fun r => decide (r.start ≠ a)
  answers := h.answers
  packed := h.packed.filter _
  sized := fun r hr => h.sized r (List.mem_of_mem_filter hr)

theorem alloc_some {ok : Nat → Bool} {size a : Nat} {h : Heap}
    (ha : (h.alloc ok size).1 = some a) :
    Fresh h.out ⟨a, size⟩ ∧ ok a = true ∧ (h.alloc ok size).2.out = ⟨a, size⟩ :: h.out := by
  unfold alloc at ha ⊢
  split at ha
  · split at ha
    · rename_i hr
      cases ha
      rw [dif_pos hr]
      exact ⟨hr.1, hr.2, rfl⟩
    · cases ha
  · cases ha
  · cases ha

theorem alloc_none {ok : Nat → Bool} {size : Nat} {h : Heap}
    (ha : (h.alloc ok size).1 = none) : (h.alloc ok size).2.out = h.out := by
  unfold alloc at ha ⊢
  split at ha
  · split at ha
    · cases ha
    · rename_i hr
      rw [dif_neg hr]
  · rfl
  · rfl

/-- A region takes an answer. -/
theorem alloc_answers {ok : Nat → Bool} {size a : Nat} {h : Heap}
    (ha : (h.alloc ok size).1 = some a) :
    (h.alloc ok size).2.answers.length < h.answers.length := by
  unfold alloc at ha ⊢
  split at ha
  · rename_i heq
    split at ha
    · rename_i hr
      rw [dif_pos hr, heq]
      simp
    · cases ha
  · cases ha
  · cases ha

/-- Regions given out that start at one address are one region. -/
theorem start_inj (h : Heap) {r r' : Region} (hr : r ∈ h.out) (hr' : r' ∈ h.out)
    (hs : r.start = r'.start) : r = r' := by
  by_contra hne
  have hapart := h.packed.apart.forall hr hr' hne
  have hpos := h.sized r hr
  have hpos' := h.sized r' hr'
  unfold Region.Apart Region.stop at hapart
  omega

theorem nodup (h : Heap) : h.out.Nodup :=
  h.packed.apart.imp_of_mem fun {r r'} hr _ hapart heq => by
    have hpos := h.sized r hr
    subst heq
    unfold Region.Apart Region.stop at hapart
    omega

/-- Freeing gives back just the region at the address. -/
theorem free_perm {h : Heap} {r : Region} {l : List Region} (hp : h.out.Perm (r :: l)) :
    (h.free r.start).out.Perm l := by
  have hnd : (r :: l).Nodup := hp.nodup h.nodup
  have hmem : ∀ x ∈ r :: l, x ∈ h.out := fun x hx => hp.symm.subset hx
  have hkeep : l.filter (fun x => decide (x.start ≠ r.start)) = l := by
    refine List.filter_eq_self.2 fun x hx => ?_
    have hne : x ≠ r := by
      rintro rfl
      exact (List.nodup_cons.1 hnd).1 hx
    have hstart : x.start ≠ r.start := fun hs =>
      hne (h.start_inj (hmem x (List.mem_cons_of_mem r hx)) (hmem r List.mem_cons_self) hs)
    simpa using hstart
  have hfilter := hp.filter fun x => decide (x.start ≠ r.start)
  rw [List.filter_cons_of_neg (by simp), hkeep] at hfilter
  exact hfilter

end Heap
end Shs
