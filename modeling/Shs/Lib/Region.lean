import Mathlib.Algebra.Order.Ring.Nat
import Mathlib.Data.List.Nodup
import Mathlib.Order.Interval.Finset.Nat

/-!
# Lib.Region

Regions of a memory of `n` bytes that do not overlap. Together they have at most `n` bytes.
-/

/-- The bytes from `start` on. -/
structure Region where
  start : Nat
  size : Nat
  deriving DecidableEq

namespace Region

def stop (r : Region) : Nat := r.start + r.size

def Apart (r r' : Region) : Prop := r.stop ≤ r'.start ∨ r'.stop ≤ r.start

instance (r r' : Region) : Decidable (Apart r r') := by
  unfold Apart
  infer_instance

theorem Apart.symm {r r' : Region} (h : Apart r r') : Apart r' r := Or.symm h

instance : Std.Symm Apart := ⟨fun _ _ => Apart.symm⟩

/-- The first region is a part of the second. -/
def Within (r r' : Region) : Prop := r'.start ≤ r.start ∧ r.stop ≤ r'.stop

theorem Within.refl (r : Region) : Within r r := ⟨Nat.le_refl _, Nat.le_refl _⟩

theorem Within.trans {a b c : Region} (h : Within a b) (h' : Within b c) : Within a c :=
  ⟨Nat.le_trans h'.1 h.1, Nat.le_trans h.2 h'.2⟩

theorem Apart.mono {a b x y : Region} (h : Apart a b) (hx : Within x a) (hy : Within y b) :
    Apart x y := by
  obtain ⟨hx1, hx2⟩ := hx
  obtain ⟨hy1, hy2⟩ := hy
  rcases h with h | h
  · exact .inl (by omega)
  · exact .inr (by omega)

/-- Regions of a list may be replaced by parts of them. -/
theorem pairwise_of_within {α : Type} {f g : α → Region} {rs : List Region} {l : List α}
    (h : ∀ x ∈ l, Within (f x) (g x)) (ha : (rs ++ l.map g).Pairwise Apart) :
    (rs ++ l.map f).Pairwise Apart := by
  obtain ⟨hrs, hl, hcross⟩ := List.pairwise_append.1 ha
  refine List.pairwise_append.2 ⟨hrs, List.pairwise_map.2 ?_, fun r hr c hc => ?_⟩
  · refine (List.pairwise_map.1 hl).imp_of_mem fun {x y} hx hy hxy => ?_
    exact hxy.mono (h x hx) (h y hy)
  · obtain ⟨x, hx, rfl⟩ := List.mem_map.1 hc
    exact (hcross r hr (g x) (List.mem_map_of_mem hx)).mono (.refl r) (h x hx)

/-- No two regions of a list overlap, and each is in the first `n` bytes. -/
structure Packed (n : Nat) (l : List Region) : Prop where
  inside : ∀ r ∈ l, r.stop ≤ n
  apart : l.Pairwise Apart

theorem packed_nil (n : Nat) : Packed n [] := ⟨by simp, .nil⟩

theorem Packed.cons {n : Nat} {l : List Region} {r : Region} (h : Packed n l) (hr : r.stop ≤ n)
    (ha : ∀ r' ∈ l, Apart r r') : Packed n (r :: l) := by
  refine ⟨fun r' hr' => ?_, List.pairwise_cons.2 ⟨ha, h.apart⟩⟩
  rcases List.mem_cons.1 hr' with rfl | hr'
  · exact hr
  · exact h.inside r' hr'

theorem Packed.filter {n : Nat} {l : List Region} (h : Packed n l) (p : Region → Bool) :
    Packed n (l.filter p) :=
  ⟨fun r hr => h.inside r (List.mem_of_mem_filter hr), h.apart.filter p⟩

/-- Different regions of the list. -/
theorem Packed.of_subset {n : Nat} {l l' : List Region} (h : Packed n l) (hnd : l'.Nodup)
    (hsub : ∀ r ∈ l', r ∈ l) : Packed n l' := by
  refine ⟨fun r hr => h.inside r (hsub r hr), hnd.imp_of_mem fun {r r'} hr hr' hne => ?_⟩
  exact h.apart.forall (hsub r hr) (hsub r' hr') hne

def bytes : List Region → Finset Nat
  | [] => ∅
  | r :: l => Finset.Ico r.start r.stop ∪ bytes l

theorem mem_bytes {l : List Region} {b : Nat} :
    b ∈ bytes l ↔ ∃ r ∈ l, r.start ≤ b ∧ b < r.stop := by
  induction l with
  | nil => simp [bytes]
  | cons r l ih => simp [bytes, ih]

theorem card_bytes {l : List Region} (h : l.Pairwise Apart) :
    (bytes l).card = (l.map (·.size)).sum := by
  induction l with
  | nil => rfl
  | cons r l ih =>
    obtain ⟨hr, hl⟩ := List.pairwise_cons.1 h
    have hdis : Disjoint (Finset.Ico r.start r.stop) (bytes l) := by
      refine Finset.disjoint_left.2 fun b hb hbl => ?_
      obtain ⟨r', hr', h1, h2⟩ := mem_bytes.1 hbl
      obtain ⟨h3, h4⟩ := Finset.mem_Ico.1 hb
      rcases hr r' hr' with ha | ha <;> omega
    rw [bytes, Finset.card_union_of_disjoint hdis, ih hl, Nat.card_Ico, stop]
    simp

theorem Packed.total_le {n : Nat} {l : List Region} (h : Packed n l) :
    (l.map (·.size)).sum ≤ n := by
  rw [← card_bytes h.apart, ← Finset.card_range n]
  refine Finset.card_le_card fun b hb => ?_
  obtain ⟨r, hr, h1, h2⟩ := mem_bytes.1 hb
  have := h.inside r hr
  rw [Finset.mem_range]
  omega

end Region
