import Shs.Core.Math
import Shs.Lib.Chain

/-!
# Core.Chains

`buffer_t` as the chain functions see it, and `chain_append_withsize`, which cuts a chain at a
number of bytes. Links are cells `α` with a `next`, and a `chain_t **` is the caller's variable or
the `next` of a link.

The number of bytes to go is unsigned and goes down by whole buffers, so the loop stops at a buffer
that ends exactly at the number, and else not before the end of the source.
-/

namespace Shs
namespace Chains

open Chain

/-- `buffer_t`: the part of the memory or of the file that is still to be written. Bytes in memory do
not stand at the null pointer. -/
structure BufferT where
  memory      : Bool
  pos         : Nat
  last        : Nat
  filePos     : Nat
  fileLast    : Nat
  ordered     : pos ≤ last
  mapped      : memory = true → pos < last → 0 < pos
  bounded     : last < 2 ^ 64
  fileOrdered : filePos ≤ fileLast
  fileBounded : fileLast < 2 ^ 63

def BufferT.size (b : BufferT) : Nat := if b.memory then b.last - b.pos else b.fileLast - b.filePos

theorem bufferSize_lt (b : BufferT) : b.size < 2 ^ 64 := by
  have hlast := b.bounded
  have hfile := b.fileBounded
  unfold BufferT.size
  split
  · omega
  · omega

/-- The bytes of a list of links. -/
def total {α : Type} (buf : α → BufferT) (l : List α) : Nat := (l.map fun a => (buf a).size).sum

/-- The links, the caller's variable behind `dst_chain`, and `*free_chain`. -/
structure ChainMem (α : Type) where
  next : α → Option α
  dst  : Option α
  free : Option α

inductive Slot (α : Type) where
  | var
  | next (a : α)

section Code

variable {α : Type} [DecidableEq α]

def ChainMem.load (m : ChainMem α) : Slot α → Option α
  | .var => m.dst
  | .next a => m.next a

def ChainMem.store (m : ChainMem α) (s : Slot α) (v : Option α) : ChainMem α :=
  match s with
  | .var => { m with dst := v }
  | .next a => { m with next := Function.update m.next a v }

/-- `while (*dst_chain) dst_chain = &((*dst_chain)->next)`. -/
def seekEnd (m : ChainMem α) : Nat → Slot α → Option (Slot α)
  | 0, _ => none
  | fuel + 1, s =>
    match m.load s with
    | none => some s
    | some a => seekEnd m fuel (.next a)

/-- The second loop, with what is left of `src_chain` and of `size`. -/
def moveLinks (buf : α → BufferT) :
    Nat → Slot α → Option α → Nat → ChainMem α → Option (Option α × ChainMem α)
  | 0, _, _, _, _ => none
  | _ + 1, _, none, _, m => some (none, m)
  | fuel + 1, s, some a, size, m =>
    if size > 0 then
      let bufSize := (buf a).size
      let m := m.store s (some a)
      let src := m.next a
      let m := m.store (.next a) none
      moveLinks buf fuel (.next a) src (subSizeT size bufSize) m
    else some (some a, m)

def chainAppendWithsize (buf : α → BufferT) (fuel : Nat) (dstChain : Option (Slot α))
    (srcChain : Option α) (size : Nat) (m : ChainMem α) : Option (ChainMem α) :=
  match dstChain, srcChain with
  | some s, some a =>
    if size = 0 then some m
    else do
      let e ← seekEnd m fuel s
      let (src, m) ← moveLinks buf fuel e (some a) size m
      pure (if src.isSome then { m with free := src } else m)
  | _, _ => some m

end Code

/-! ## What a split is -/

/-- `p` is the shortest prefix of `p ++ r` with at least `size` bytes, or all of it. -/
structure Shortest {α : Type} (buf : α → BufferT) (size : Nat) (p r : List α) : Prop where
  enough : size ≤ total buf p ∨ r = []
  least  : ∀ q, q <+: p → q ≠ p → total buf q < size

/-- The links of the destination are followed by the shortest prefix of the source with `size`
bytes, and the rest of the source is free. -/
def Splits {α : Type} [DecidableEq α] (buf : α → BufferT) (size : Nat) (m : ChainMem α)
    (d l : List α) (src : Option α) : Prop :=
  ∃ m' p r, (∀ fuel, d.length + l.length < fuel →
      chainAppendWithsize buf fuel (some .var) src size m = some m') ∧
    l = p ++ r ∧ Shortest buf size p r ∧
    Linked m'.next m'.dst (d ++ p) ∧ Linked m'.next m'.free r

/-! ## The links -/

section Walk

variable {α : Type} {buf : α → BufferT} {m : ChainMem α} {s : Slot α} {a : α}
variable {d l : List α} {size : Nat}

/-- The slot behind the links `d` that hang on `s`. -/
def lastSlot (s : Slot α) : List α → Slot α
  | [] => s
  | a :: d => lastSlot (.next a) d

theorem lastSlot_snoc (s : Slot α) (d : List α) (a : α) : lastSlot s (d ++ [a]) = .next a := by
  induction d generalizing s with
  | nil => rfl
  | cons c d ih => exact ih (.next c)

theorem seekEnd_linked {fuel : Nat} (h : Linked m.next (m.load s) d) (hfuel : d.length < fuel) :
    seekEnd m fuel s = some (lastSlot s d) := by
  induction d generalizing s fuel with
  | nil =>
    obtain ⟨n, rfl⟩ := Nat.exists_eq_succ_of_ne_zero (Nat.ne_zero_of_lt hfuel)
    have hnone : m.load s = none := h
    rw [seekEnd, hnone]
    rfl
  | cons a d ih =>
    obtain ⟨n, rfl⟩ := Nat.exists_eq_succ_of_ne_zero (Nat.ne_zero_of_lt hfuel)
    rw [seekEnd, h.1]
    exact ih h.2 (Nat.lt_of_succ_lt_succ hfuel)

/-- The links that the loop moves. -/
def moved (buf : α → BufferT) : Nat → List α → List α
  | _, [] => []
  | size, a :: l =>
    if size = 0 then [] else a :: moved buf (subSizeT size ((buf a).size)) l

variable [DecidableEq α]

/-- The first link of the source is put behind the destination. -/
theorem linked_moved (hd : Linked m.next m.dst d) (ha : a ∉ d) (hnd : d.Nodup) :
    Linked ((m.store (lastSlot .var d) (some a)).store (.next a) none).next
      ((m.store (lastSlot .var d) (some a)).store (.next a) none).dst (d ++ [a]) := by
  rcases List.eq_nil_or_concat d with rfl | ⟨d, b, rfl⟩
  · refine ⟨rfl, ?_⟩
    show Function.update m.next a none a = none
    rw [Function.update_self]
  · rw [List.concat_eq_append] at hd ha hnd ⊢
    rw [lastSlot_snoc]
    have hal : a ∉ d := fun h => ha (List.mem_append_left [b] h)
    have hab : a ≠ b := fun h => ha (List.mem_append_right d (List.mem_singleton.2 h))
    have hb : b ∉ d := fun hb => (List.nodup_append.1 hnd).2.2 b hb b List.mem_cons_self rfl
    exact hd.snoc hb hal hab

theorem linked_rest {p : Option α} (hl : Linked m.next p l) (ha : a ∉ l) (hdl : ∀ b ∈ d, b ∉ l) :
    Linked ((m.store (lastSlot .var d) (some a)).store (.next a) none).next p l := by
  rcases List.eq_nil_or_concat d with rfl | ⟨d, b, rfl⟩
  · exact hl.update ha
  · rw [List.concat_eq_append] at hdl ⊢
    rw [lastSlot_snoc]
    exact (hl.update (hdl b (by simp))).update ha

theorem moveLinks_spec {src : Option α} (hd : Linked m.next m.dst d) (hl : Linked m.next src l)
    (hnd : (d ++ l).Nodup) :
    ∃ src' m' r, (∀ fuel, l.length < fuel →
        moveLinks buf fuel (lastSlot .var d) src size m = some (src', m')) ∧
      l = moved buf size l ++ r ∧ Linked m'.next m'.dst (d ++ moved buf size l) ∧
      Linked m'.next src' r ∧ m'.free = m.free := by
  induction l generalizing d src size m with
  | nil =>
    obtain rfl : src = none := hl
    refine ⟨none, m, [], fun fuel hfuel => ?_, rfl, by simpa [moved] using hd, rfl, rfl⟩
    obtain ⟨n, rfl⟩ := Nat.exists_eq_succ_of_ne_zero (Nat.ne_zero_of_lt hfuel)
    rfl
  | cons a l ih =>
    obtain ⟨rfl, hrest⟩ := hl
    rw [moved]
    by_cases h0 : size = 0
    · rw [if_pos h0]
      refine ⟨some a, m, a :: l, fun fuel hfuel => ?_, rfl, by simpa using hd, ⟨rfl, hrest⟩, rfl⟩
      obtain ⟨n, rfl⟩ := Nat.exists_eq_succ_of_ne_zero (Nat.ne_zero_of_lt hfuel)
      rw [moveLinks, if_neg (by omega)]
    · rw [if_neg h0]
      obtain ⟨hdnd, hlnd, hdl⟩ := List.nodup_append.1 hnd
      have had : a ∉ d := fun h => hdl a h a List.mem_cons_self rfl
      have hal : a ∉ l := (List.nodup_cons.1 hlnd).1
      have hdl' : ∀ b ∈ d, b ∉ l := fun b hb h => hdl b hb b (List.mem_cons_of_mem a h) rfl
      have hsrc : (m.store (lastSlot .var d) (some a)).next a = m.next a := by
        rcases List.eq_nil_or_concat d with rfl | ⟨d, b, rfl⟩
        · rfl
        · rw [List.concat_eq_append] at had ⊢
          rw [lastSlot_snoc]
          exact Function.update_of_ne (by rintro rfl; simp at had) _ _
      obtain ⟨src', m', r, hrun, hcut, hlinked, hfree, hkept⟩ :=
        @ih _ (d ++ [a]) (subSizeT size ((buf a).size)) _
          (linked_moved hd had hdnd) (linked_rest hrest hal hdl') (by simpa using hnd)
      refine ⟨src', m', r, fun fuel hfuel => ?_, by rw [List.cons_append, ← hcut],
        by simpa using hlinked, hfree, ?_⟩
      · obtain ⟨n, rfl⟩ := Nat.exists_eq_succ_of_ne_zero (Nat.ne_zero_of_lt hfuel)
        rw [moveLinks, if_pos (by omega)]
        have hrun' := hrun n (Nat.lt_of_succ_lt_succ hfuel)
        rw [lastSlot_snoc] at hrun'
        simp only [hsrc]
        exact hrun'
      · rw [hkept]
        cases lastSlot Slot.var d <;> rfl

end Walk

/-! ## The number of bytes to go -/

section Count

variable {α : Type} {buf : α → BufferT} {size : Nat} {a : α} {p r : List α}

@[simp] theorem total_nil : total buf [] = 0 := rfl

@[simp] theorem total_cons (a : α) (l : List α) :
    total buf (a :: l) = (buf a).size + total buf l := rfl

theorem moved_eq_nil_iff {l : List α} : moved buf size l = [] ↔ size = 0 ∨ l = [] := by
  cases l with
  | nil => simp [moved]
  | cons a l =>
    rw [moved]
    split
    · simp [*]
    · simp [*]

/-- Behind a buffer that does not reach the number, the rest is the shortest part of the rest. -/
theorem Shortest.tail (h : Shortest buf size (a :: p) r) (hlt : (buf a).size < size) :
    Shortest buf (size - (buf a).size) p r := by
  refine ⟨?_, fun q hq hne => ?_⟩
  · refine h.enough.imp_left fun hle => ?_
    rw [total_cons] at hle
    omega
  · have hless := h.least (a :: q) ((List.prefix_cons_inj a).2 hq) (by simpa using hne)
    rw [total_cons] at hless
    omega

theorem subSizeT_eq_zero {a b : Nat} (ha : a < 2 ^ 64) (hb : b < 2 ^ 64) :
    subSizeT a b = 0 ↔ a = b := by
  unfold subSizeT sizeT
  omega

/-- The loop moves the shortest prefix exactly when it ends at the number, or is all there is. -/
theorem moved_shortest_iff (h0 : 0 < size) (hsize : size < 2 ^ 64) (h : Shortest buf size p r) :
    moved buf size (p ++ r) = p ↔ total buf p = size ∨ r = [] := by
  induction p generalizing size with
  | nil =>
    have hr : r = [] := h.enough.resolve_left (by rw [total_nil]; omega)
    subst hr
    simp [moved]
  | cons a p ih =>
    rw [List.cons_append, moved, if_neg (by omega), List.cons_inj_right, total_cons]
    have hbuf := bufferSize_lt (buf a)
    by_cases hp : p = []
    · subst hp
      rw [List.nil_append, moved_eq_nil_iff, subSizeT_eq_zero hsize hbuf, total_nil]
      exact or_congr_left (by omega)
    · have hless := h.least [a] (by simp) (by simpa using Ne.symm hp)
      rw [total_cons, total_nil] at hless
      rw [subSizeT_of_le hsize (by omega), ih (by omega) (by omega) (h.tail (by omega))]
      exact or_congr_left (by omega)

end Count

/-! ## Splits -/

section Split

variable {α : Type} [DecidableEq α] {buf : α → BufferT} {m : ChainMem α}
variable {d l : List α} {src : Option α} {size : Nat}

theorem chainAppendWithsize_spec (hd : Linked m.next m.dst d) (hl : Linked m.next src l)
    (hnd : (d ++ l).Nodup) (h0 : 0 < size) :
    ∃ m' r, (∀ fuel, d.length + l.length < fuel →
        chainAppendWithsize buf fuel (some .var) src size m = some m') ∧
      l = moved buf size l ++ r ∧ Linked m'.next m'.dst (d ++ moved buf size l) ∧
      ∃ src', Linked m'.next src' r ∧ m'.free = if src'.isSome then src' else m.free := by
  cases src with
  | none =>
    obtain rfl : l = [] := hl.eq_none_iff.1 rfl
    exact ⟨m, [], fun _ _ => rfl, rfl, by simpa [moved] using hd, none, rfl, rfl⟩
  | some a =>
    obtain ⟨src', m', r, hrun, hcut, hlinked, hrest, hfree⟩ :=
      @moveLinks_spec _ buf _ _ _ size _ _ hd hl hnd
    refine ⟨if src'.isSome then { m' with free := src' } else m', r, fun fuel hfuel => ?_, hcut, ?_,
      src', ?_, ?_⟩
    · have hseek : seekEnd m fuel .var = some (lastSlot .var d) := seekEnd_linked hd (by omega)
      simp only [chainAppendWithsize, if_neg (Nat.ne_of_gt h0), hseek, hrun fuel (by omega),
        Option.bind_eq_bind, Option.bind_some, Option.pure_def]
    · split
      · exact hlinked
      · exact hlinked
    · split
      · exact hrest
      · exact hrest
    · split
      · rfl
      · exact hfree

/-- A split is right exactly when the shortest prefix ends at the number or is the whole source, and
`*free_chain`, which is not written when nothing is left, was null in that case. -/
theorem chain_append_withsize_iff (hd : Linked m.next m.dst d) (hl : Linked m.next src l)
    (hnd : (d ++ l).Nodup) (h0 : 0 < size) (hsize : size < 2 ^ 64) :
    Splits buf size m d l src ↔
      ∃ p r, l = p ++ r ∧ Shortest buf size p r ∧ (total buf p = size ∨ r = []) ∧
        (r = [] → m.free = none) := by
  have hspec := @chainAppendWithsize_spec _ _ buf _ _ _ _ _ hd hl hnd h0
  constructor
  · rintro ⟨m', p, r, hrun, rfl, hshort, hlinked, hfree⟩
    obtain ⟨m'', r', hrun', hcut, hlinked', src', hsrc', hfree'⟩ := hspec
    have hlast := Nat.lt_succ_self (d.length + (p ++ r).length)
    obtain rfl : m' = m'' := Option.some.inj ((hrun _ hlast).symm.trans (hrun' _ hlast))
    have hmoved : moved buf size (p ++ r) = p :=
      (List.append_cancel_left (hlinked.unique hlinked')).symm
    obtain rfl : r = r' := List.append_cancel_left (hcut.trans (by rw [hmoved]))
    refine ⟨p, r, rfl, hshort, (moved_shortest_iff h0 hsize hshort).1 hmoved, ?_⟩
    rintro rfl
    obtain rfl : src' = none := hsrc'
    exact hfree'.symm.trans hfree
  · rintro ⟨p, r, rfl, hshort, hexact, hnull⟩
    have hmoved := (moved_shortest_iff h0 hsize hshort).2 hexact
    obtain ⟨m', r', hrun, hcut, hlinked, src', hsrc', hfree⟩ := hspec
    rw [hmoved] at hcut hlinked
    obtain rfl : r = r' := List.append_cancel_left hcut
    refine ⟨m', p, r, hrun, rfl, hshort, hlinked, ?_⟩
    cases src' with
    | none =>
      obtain rfl : r = [] := hsrc'.eq_none_iff.1 rfl
      exact hfree.trans (hnull rfl)
    | some a =>
      rw [hfree]
      exact hsrc'

/-- A memory buffer of ten bytes. -/
def tenBytes : BufferT :=
  { memory := true, pos := 4096, last := 4106, filePos := 0, fileLast := 0, ordered := by decide,
    mapped := by decide, bounded := by decide, fileOrdered := by decide, fileBounded := by decide }

/-- A chain of two links, and no destination. -/
def twoLinks : ChainMem Nat where
  next a := if a = 1 then some 2 else none
  dst := none
  free := none

theorem twoLinks_split : Splits (fun _ => tenBytes) 10 twoLinks [] [1, 2] (some 1) := by
  have hd : Linked twoLinks.next twoLinks.dst [] := rfl
  have hl : Linked twoLinks.next (some 1) [1, 2] := ⟨rfl, rfl, rfl⟩
  refine (chain_append_withsize_iff hd hl (by decide) (by decide) (by decide)).2
    ⟨[1], [2], rfl, ⟨.inl (by decide), fun q hq hne => ?_⟩, .inl (by decide), by simp⟩
  have hnil : q = [] := by
    rcases List.prefix_cons_iff.1 hq with h | ⟨t, rfl, ht⟩
    · exact h
    · exact absurd (by rw [List.prefix_nil.1 ht]) hne
  rw [hnil]
  decide

/-- Four bytes of the same source: both links are moved. -/
theorem twoLinks_not_split : ¬ Splits (fun _ => tenBytes) 4 twoLinks [] [1, 2] (some 1) := by
  rintro ⟨m', p, r, hrun, -, hshort, hlinked, -⟩
  obtain rfl := Option.some.inj (hrun 3 (by decide))
  have hboth : p = [1, 2] := by
    refine hlinked.unique ?_
    exact ⟨rfl, rfl, rfl⟩
  subst hboth
  exact absurd (hshort.least [1] ⟨[2], rfl⟩ (by decide)) (by decide)

end Split

end Chains
end Shs
