import Shs.Core.ShmemFree

/-!
# Core.ShmemAlloc

Which block an allocation finds, and that it keeps the invariant of the heap. `shs_shmem_alloc`
searches one free list only. `shs_shmem_split_alloc` searches the last one, which has the largest
blocks.
-/

namespace Shs
namespace Shmem

open Queue

/-! ## The search in one list -/

section Search

variable {s : Shm} {F : Nat → Prop} {fl : Nat → List Nat} {av : List Nat} {i st size fuel : Nat}
variable {l₁ l₂ : List Nat}

/-- The loop over the blocks `st :: l₂` that are left. -/
theorem firstFit_ring (r : LinkedRing s.free (.head i) ((l₁ ++ st :: l₂).map .entry))
    (hfuel : l₂.length < fuel) :
    firstFit i size s fuel (some (.entry st))
      = some ((st :: l₂).find? fun x => decide (size ≤ (s.storage x).size)) := by
  induction l₂ generalizing l₁ st fuel with
  | nil =>
    obtain ⟨fuel, rfl⟩ := Nat.exists_eq_succ_of_ne_zero (Nat.ne_of_gt hfuel)
    rw [List.map_append, List.map_cons] at r
    have hnext : s.free.next (.entry st) = some (.head i) := r.joined_after.1
    rw [firstFit, hnext, List.find?_cons]
    by_cases hsize : (s.storage st).size ≥ size
    · rw [if_pos hsize, decide_eq_true hsize]
    · rw [if_neg hsize, if_pos rfl, decide_eq_false hsize]
      rfl
  | cons y l₂ ih =>
    obtain ⟨fuel, rfl⟩ := Nat.exists_eq_succ_of_ne_zero (Nat.ne_of_gt (Nat.zero_lt_of_lt hfuel))
    have hrest : LinkedRing s.free (.head i) (((l₁ ++ [st]) ++ y :: l₂).map .entry) := by
      rwa [← List.append_cons]
    rw [List.map_append, List.map_cons] at r
    have hnext : s.free.next (.entry st) = some (.entry y) := r.joined_after.1
    rw [firstFit, hnext, List.find?_cons]
    by_cases hsize : (s.storage st).size ≥ size
    · rw [if_pos hsize, decide_eq_true hsize]
    · rw [if_neg hsize, if_neg (by simp), decide_eq_false hsize]
      exact ih hrest (by simpa using hfuel)

/-- The loop over the blocks `l₂` that are left, with the largest so far. -/
theorem maxOf_ring (best : Nat) (r : LinkedRing s.free (.head i) ((l₁ ++ l₂).map .entry))
    (hfuel : l₂.length < fuel) :
    ∃ st, maxOf i s fuel best (some (LinkedRing.after (.head i) (l₂.map .entry))) = some st ∧
      st ∈ best :: l₂ ∧ ∀ x ∈ best :: l₂, (s.storage x).size ≤ (s.storage st).size := by
  induction l₂ generalizing l₁ best fuel with
  | nil =>
    obtain ⟨fuel, rfl⟩ := Nat.exists_eq_succ_of_ne_zero (Nat.ne_of_gt hfuel)
    refine ⟨best, ?_, by simp, by simp⟩
    simp [maxOf]
  | cons y l₂ ih =>
    obtain ⟨fuel, rfl⟩ := Nat.exists_eq_succ_of_ne_zero (Nat.ne_of_gt (Nat.zero_lt_of_lt hfuel))
    have hrest : LinkedRing s.free (.head i) (((l₁ ++ [y]) ++ l₂).map .entry) := by
      rwa [← List.append_cons]
    rw [List.map_append, List.map_cons] at r
    have hnext : s.free.next (.entry y) = some (LinkedRing.after (.head i) (l₂.map .entry)) :=
      r.joined_after.1
    rw [List.map_cons, LinkedRing.after_cons, maxOf, if_neg (by simp), hnext]
    obtain ⟨st, hmax, hmem, hle⟩ := ih
      (if (s.storage y).size > (s.storage best).size then y else best) hrest
      (by simpa using hfuel)
    refine ⟨st, hmax, ?_, ?_⟩
    · split at hmem
      · exact List.mem_cons_of_mem best hmem
      · simp only [List.mem_cons] at hmem ⊢
        tauto
    · intro x hx
      have hbest := hle _ List.mem_cons_self
      simp only [List.mem_cons] at hx
      rcases hx with rfl | rfl | hx
      · split at hbest
        · omega
        · exact hbest
      · split at hbest
        · exact hbest
        · omega
      · exact hle x (List.mem_cons_of_mem _ hx)

theorem Filed.empty_iff (h : Filed s F fl av) (hi : i < s.freeLen) :
    queueEmpty s.free (.head i) = true ↔ fl i = [] := by
  rw [queueEmpty_iff (h.lists i hi), List.map_eq_nil_iff]

theorem Filed.mem_av (h : Filed s F fl av) (hst : F st) : klass s (s.storage st).size ∈ av := by
  have hlt := klass_lt h.len (s.storage st).size
  exact (h.nonempty _).2 ⟨hlt, List.ne_nil_of_mem ((h.mem _ hlt st).2 ⟨hst, rfl⟩)⟩

/-- Where `shs_shmem_alloc` looks for a block. -/
theorem Filed.chooseList (h : Filed s F fl av) (hav : av ≠ []) (size : Nat) :
    ∃ i ∈ av, chooseList size s = some (.ok i) ∧
      (getAllocIndex s size < s.maxAvailableIndex ∧
          (i = getAllocIndex s size ∨
            fl (getAllocIndex s size) = [] ∧ getAllocIndex s size < i) ∨
        s.maxAvailableIndex ≤ getAllocIndex s size ∧ i = s.maxAvailableIndex) := by
  obtain ⟨j, hj⟩ := List.exists_mem_of_ne_nil av hav
  have htop := (h.queued.le_top hj).2
  have htoplt := h.queued.inside _ htop
  unfold Shmem.chooseList
  by_cases hlt : getAllocIndex s size < s.maxAvailableIndex
  · rw [if_pos hlt]
    have hindex : getAllocIndex s size < s.freeLen := hlt.trans htoplt
    have hempty := h.empty_iff hindex
    by_cases hnil : fl (getAllocIndex s size) = []
    · rw [if_neg (by simp [hempty.2 hnil]), h.queued.find]
      have hserves : ∀ j ∈ av, (AvailableCell.serves (getAllocIndex s size) s (.entry j) = true ↔
          getAllocIndex s size < j) := by
        intro j hj
        have hjne := (h.nonempty j).1 hj
        have hjempty : queueEmpty s.free (.head j) = false := by
          rw [Bool.eq_false_iff, ne_eq, h.empty_iff hjne.1]
          exact hjne.2
        simp [AvailableCell.serves, hjempty, h.index j hjne.1]
      have hsome : (av.find? fun j =>
          AvailableCell.serves (getAllocIndex s size) s (.entry j)).isSome :=
        List.find?_isSome.2 ⟨_, htop, (hserves _ htop).2 hlt⟩
      obtain ⟨i, hi⟩ := Option.isSome_iff_exists.1 hsome
      have himem := List.mem_of_find?_eq_some hi
      have hfound := (List.find?_eq_some_iff_append.1 hi).1
      rw [hi]
      exact ⟨i, himem, rfl, .inl ⟨hlt, .inr ⟨hnil, (hserves i himem).1 hfound⟩⟩⟩
    · have hfull : queueEmpty s.free (.head (getAllocIndex s size)) = false := by
        rw [Bool.eq_false_iff, ne_eq, hempty]
        exact hnil
      rw [if_pos hfull]
      exact ⟨_, (h.nonempty _).2 ⟨hindex, hnil⟩, rfl, .inl ⟨hlt, .inl rfl⟩⟩
  · rw [if_neg hlt, if_neg (by rw [h.empty_iff htoplt]; exact ((h.nonempty _).1 htop).2)]
    exact ⟨_, htop, rfl, .inr ⟨by omega, rfl⟩⟩

end Search

/-! ## The block that is found -/

section Found

variable {s s₁ : Shm} {blocks xs ys : List Nat} {fl : Nat → List Nat} {av : List Nat}
variable {i st size : Nat}

theorem Heap.mem_list (h : Heap s blocks fl av) (hi : i < s.freeLen) (hst : st ∈ fl i) :
    Free s blocks st := ((h.filed.mem i hi st).1 hst).1

theorem Heap.length_list_le (h : Heap s blocks fl av) (hi : i < s.freeLen) :
    (fl i).length ≤ s.shmemStat.stCount := by
  rw [h.layout.count]
  exact (List.subperm_of_subset (h.filed.nodup hi) fun st hst => (h.mem_list hi hst).1).length_le

/-- The neighbour of a free block is handed out. -/
theorem Heap.right_busy (h : Heap s (xs ++ st :: ys) fl av) (hst : (s.storage st).alloc = false) :
    ∀ y ∈ ys.head?, (s.storage y).alloc = true := by
  intro y hy
  have hparted := (List.isChain_cons.1 (List.isChain_append.1 h.parted).2.1).1 y hy
  rcases hparted with hp | hp
  · rw [hst] at hp
    cases hp
  · exact hp

theorem Heap.firstFit (h : Heap s blocks fl av) (hi : i ∈ av) (size : Nat) :
    Shmem.firstFit i size s (s.shmemStat.stCount + 1) (queueHead s.free (.head i))
      = some ((fl i).find? fun x => decide (size ≤ (s.storage x).size)) := by
  obtain ⟨hlt, hne⟩ := (h.filed.nonempty i).1 hi
  have hring := h.filed.lists i hlt
  have hlength := h.length_list_le hlt
  obtain ⟨st, l, hl⟩ := List.exists_cons_of_ne_nil hne
  rw [hl] at hring hlength ⊢
  rw [queueHead_ring hring, List.map_cons, LinkedRing.after_cons]
  have hall : LinkedRing s.free (.head i) (([] ++ st :: l).map .entry) := hring
  refine firstFit_ring hall ?_
  rw [List.length_cons] at hlength
  omega

/-- The block is handed out as it is. -/
structure GivenWhole (s s' : Shm) (st : Nat) : Prop where
  given : (s'.storage st).size = (s.storage st).size
  count : s'.shmemStat.stCount = s.shmemStat.stCount
  order : s'.order = s.order

/-- The block is cut into `size` bytes that are handed out and a free block, which have room in it
together with the header of the new one. -/
structure GivenFirst (s s' : Shm) (st size : Nat) : Prop where
  fits : size + storageSize ≤ (s.storage st).size
  given : (s'.storage st).size = size
  rest : (s'.storage (st + storageSize + size)).size = (s.storage st).size - size - storageSize
  unused : (s'.storage (st + storageSize + size)).alloc = false
  next : s'.order.next (.entry st) = some (.entry (st + storageSize + size))

/-- Block `st` is handed out for `size` bytes. -/
structure Given (s s' : Shm) (blocks blocks' : List Nat) (st size : Nat) : Prop where
  free : Free s blocks st
  fits : size ≤ (s.storage st).size
  act : (s'.storage st).actSize = size
  parts : GivenWhole s s' st ∨ GivenFirst s s' st size
  params : SameParams s s'
  busy : ∀ x, Busy s' blocks' x ↔ Busy s blocks x ∨ x = st

theorem Given.room {s' : Shm} {blocks' : List Nat} (h : Given s s' blocks blocks' st size) :
    size ≤ (s'.storage st).size := by
  rcases h.parts with hw | hf
  · rw [hw.given]
    exact h.fits
  · exact hf.given.ge

/-- A whole block is handed out after it has left its list. -/
theorem Heap.takeWhole (h : Heap s (xs ++ st :: ys) fl av) (hst : (s.storage st).alloc = false)
    (hsize : size ≤ (s.storage st).size) (hremove : Shmem.removeFree st s = some (true, s₁)) :
    ∃ fl' av', Heap (giveWhole st size s₁) (xs ++ st :: ys) fl' av' ∧
      Given s (giveWhole st size s₁) (xs ++ st :: ys) (xs ++ st :: ys) st size ∧
      GivenWhole s (giveWhole st size s₁) st := by
  obtain ⟨s₂, fl', av', hremove', hhand, hrel⟩ := h.removeFree hst
  rw [hremove'] at hremove
  obtain rfl : s₂ = s₁ := by simpa using hremove
  obtain ⟨hheap, hparams, hbusy⟩ := hhand.giveWhole (hsize.trans (hrel.size st).ge)
  have hself : (giveWhole st size s₂).storage st
      = { s₂.storage st with alloc := true, actSize := size } := Function.update_self ..
  have hwhole : GivenWhole s (giveWhole st size s₂) st := by
    refine ⟨?_, ?_, hrel.order⟩
    · rw [hself]
      exact hrel.size st
    · show s₂.shmemStat.stCount = _
      rw [hrel.stat]
  refine ⟨fl', av', hheap, ⟨⟨by simp, hst⟩, hsize, by rw [hself], .inl hwhole,
    hrel.params.trans hparams, fun x => ?_⟩, hwhole⟩
  rw [hbusy, hrel.busy]

/-- The end of an allocation, when the threshold does not wrap. -/
theorem Heap.giveOut (h : Heap s (xs ++ st :: ys) fl av) (hst : (s.storage st).alloc = false)
    (hsize : size ≤ (s.storage st).size) (hlow : storageSize + s.splitThreshold < 2 ^ 64) :
    ∃ s₁ s' blocks' fl' av', Shmem.removeFree st s = some (true, s₁) ∧
      Shmem.giveOut st size s₁ = some s' ∧ Heap s' blocks' fl' av' ∧
      Given s s' (xs ++ st :: ys) blocks' st size := by
  obtain ⟨s₁, fl₁, av₁, hremove, hhand, hrel⟩ := h.removeFree hst
  have hused := hhand.used_le
  have htotal := hhand.layout.total_lt
  have hsize₁ := hrel.size st
  have hrest : subSizeT (s₁.storage st).size size = (s.storage st).size - size := by
    rw [hsize₁]
    exact subSizeT_of_le (by omega) hsize
  have hthreshold : sizeT (storageSize + s₁.splitThreshold) = storageSize + s.splitThreshold := by
    rw [hrel.params.splitThreshold]
    exact sizeT_of_lt hlow
  have hout : Shmem.giveOut st size s₁
      = if (s.storage st).size - size < storageSize + s.splitThreshold then
          some (giveWhole st size s₁)
        else giveFirst st size s₁ := by
    rw [Shmem.giveOut, hrest, hthreshold]
  by_cases hwhole : (s.storage st).size - size < storageSize + s.splitThreshold
  · rw [if_pos hwhole] at hout
    obtain ⟨fl', av', hheap, hgiven, -⟩ := h.takeWhole hst hsize hremove
    exact ⟨s₁, _, _, fl', av', hremove, hout, hheap, hgiven⟩
  · rw [if_neg hwhole] at hout
    have hfits : size + storageSize ≤ (s.storage st).size := by omega
    obtain ⟨s', fl', av', hgive, hparams, hcut, hheap, hbusy⟩ := hhand.giveFirst
      (by rw [hsize₁]; exact hfits)
      fun y hy => by rw [hrel.alloc]; exact h.right_busy hst y hy
    refine ⟨s₁, s', _, fl', av', hremove, hout.trans hgive, hheap, ⟨by simp, hst⟩, hsize,
      by rw [hcut.given],
      .inr ⟨hfits, by rw [hcut.given], by rw [hcut.rest, hsize₁], hcut.unused, ?_⟩,
      hrel.params.trans hparams, fun x => ?_⟩
    · exact order_next hheap.layout
    · rw [hbusy, hrel.busy]

/-- The search in the list of one free node. -/
theorem Heap.allocFrom (h : Heap s blocks fl av) (hi : i ∈ av) (size : Nat)
    (hlow : storageSize + s.splitThreshold < 2 ^ 64) :
    (Shmem.allocFrom i size s = some (.error .allocFoundNoFixed, s.setFailed) ∧
        ∀ x ∈ fl i, (s.storage x).size < size) ∨
      ∃ st s' blocks' fl' av', st ∈ fl i ∧
        Shmem.allocFrom i size s = some (.ok (st + storageSize), s') ∧
        Heap s' blocks' fl' av' ∧ Given s s' blocks blocks' st size := by
  unfold Shmem.allocFrom
  rw [h.firstFit hi size]
  cases hfind : (fl i).find? fun x => decide (size ≤ (s.storage x).size) with
  | none => exact .inl ⟨rfl, fun x hx => by simpa using List.find?_eq_none.1 hfind x hx⟩
  | some st =>
    have hmem := List.mem_of_find?_eq_some hfind
    have hsize : size ≤ (s.storage st).size := by
      simpa using (List.find?_eq_some_iff_append.1 hfind).1
    obtain ⟨hst, hfree⟩ := h.mem_list ((h.filed.nonempty i).1 hi).1 hmem
    obtain ⟨xs, ys, rfl⟩ := List.append_of_mem hst
    obtain ⟨s₁, s', blocks', fl', av', hremove, hgive, hheap, hgiven⟩ :=
      h.giveOut hfree hsize hlow
    refine .inr ⟨st, s', blocks', fl', av', hmem, ?_, hheap, hgiven⟩
    simp only [hremove, hgive, Option.map_some]

end Found

/-! ## Allocations -/

section Alloc

variable {s : Shm} {blocks : List Nat} {fl : Nat → List Nat} {av : List Nat} {i st size b : Nat}

theorem klass_le_getInsertIndex (s : Shm) (b : Nat) : klass s b ≤ getInsertIndex s b :=
  Nat.min_le_left _ _

/-- A block of a class behind that of the request is large enough. -/
theorem Accepted.size_le_of_lt (h : Accepted s) (hlt : getAllocIndex s size < klass s b) :
    size ≤ b := by
  have hinsert : getAllocIndex s size + 1 ≤ getInsertIndex s b :=
    hlt.trans_le (klass_le_getInsertIndex s b)
  have hcap := (h.le_getInsertIndex_iff.1 hinsert).resolve_left (Nat.succ_ne_zero _)
  exact (h.getAllocIndex_le_iff.1 (Nat.le_succ _)).trans hcap

/-- So is one of the class of the request, if that is not class 0. -/
theorem Accepted.size_le_of_eq (h : Accepted s) (hpos : 1 ≤ getAllocIndex s size)
    (heq : klass s b = getAllocIndex s size) : size ≤ b :=
  h.size_le hpos (heq.ge.trans (klass_le_getInsertIndex s b))

theorem Heap.mem_iff (h : Heap s blocks fl av) (x : Nat) :
    Free s blocks x ↔ x ∈ fl (klass s (s.storage x).size) := by
  rw [h.filed.mem _ (klass_lt h.filed.len _), and_iff_left rfl]

theorem Heap.exists_mem (h : Heap s blocks fl av) (hi : i ∈ av) :
    ∃ x ∈ fl i, Free s blocks x ∧ klass s (s.storage x).size = i := by
  obtain ⟨hlt, hne⟩ := (h.filed.nonempty i).1 hi
  obtain ⟨x, hx⟩ := List.exists_mem_of_ne_nil _ hne
  exact ⟨x, hx, (h.filed.mem i hlt x).1 hx⟩

theorem Heap.none_free (h : Heap s blocks fl av) (hav : av = []) (x : Nat) : ¬Free s blocks x := by
  intro hx
  have := h.filed.mem_av hx
  simp [hav] at this

/-- All free blocks of class 0 are smaller than the request, which is not larger than the smallest
size, and there are free blocks of other classes. -/
structure Skips (s : Shm) (blocks : List Nat) (size : Nat) : Prop where
  small : size ≤ s.minSize
  filled : ∃ x, Free s blocks x ∧ klass s (s.storage x).size = 0
  short : ∀ x, Free s blocks x → klass s (s.storage x).size = 0 → (s.storage x).size < size
  behind : ∃ x, Free s blocks x ∧ 0 < klass s (s.storage x).size

/-- The free node that `chooseList` chooses. -/
def Chosen (s : Shm) (fl : Nat → List Nat) (size i : Nat) : Prop :=
  getAllocIndex s size < s.maxAvailableIndex ∧
      (i = getAllocIndex s size ∨ fl (getAllocIndex s size) = [] ∧ getAllocIndex s size < i) ∨
    s.maxAvailableIndex ≤ getAllocIndex s size ∧ i = s.maxAvailableIndex

/-- When no block of the chosen list is large enough. -/
theorem Heap.short (h : Heap s blocks fl av) (hi : i ∈ av) (hchosen : Chosen s fl size i)
    (hshort : ∀ x ∈ fl i, (s.storage x).size < size) :
    Skips s blocks size ∨ ∀ x, Free s blocks x → (s.storage x).size < size := by
  obtain ⟨y, hy, hyfree, hyclass⟩ := h.exists_mem hi
  have hyshort := hshort y hy
  have hclass : i ≤ getAllocIndex s size := by
    by_contra hlt
    have : size ≤ (s.storage y).size := h.accepted.size_le_of_lt (by omega)
    omega
  have hzero : i = getAllocIndex s size → getAllocIndex s size = 0 := by
    intro hia
    by_contra hne
    have : size ≤ (s.storage y).size := h.accepted.size_le_of_eq (by omega) (by omega)
    omega
  obtain ⟨htop, htopav⟩ := h.filed.queued.le_top hi
  rcases hchosen with ⟨hlt, hia | ⟨-, hia⟩⟩ | ⟨hle, hia⟩
  · -- the list of the class of the request
    have hia0 := hzero hia
    obtain ⟨x, -, hxfree, hxclass⟩ := h.exists_mem htopav
    refine .inl ⟨h.accepted.getAllocIndex_eq_zero_iff.1 hia0, ⟨y, hyfree, by omega⟩,
      fun z hz hzclass => hshort z ?_, ⟨x, hxfree, by omega⟩⟩
    rw [h.mem_iff, hzclass] at hz
    rwa [hia, hia0]
  · omega
  · -- the last list
    refine .inr fun x hx => ?_
    have hxtop := (h.filed.queued.le_top (h.filed.mem_av hx)).1
    by_cases hxclass : klass s (s.storage x).size = i
    · refine hshort x ?_
      rwa [h.mem_iff, hxclass] at hx
    · by_contra hge
      have hnear := h.accepted.getAllocIndex_le (Nat.not_lt.1 hge)
      have hilt := ((h.filed.nonempty i).1 hi).1
      have hxinsert : klass s (s.storage x).size = getInsertIndex s (s.storage x).size := by
        unfold klass at hxclass hxtop ⊢
        omega
      omega

/-- A search that ends in class 0 finds no block. -/
theorem Heap.not_skips (h : Heap s blocks fl av) (hchosen : Chosen s fl size i) (hst : st ∈ fl i)
    (hsize : size ≤ (s.storage st).size) : ¬Skips s blocks size := by
  intro hskips
  have hzero := h.accepted.getAllocIndex_eq_zero_iff.2 hskips.small
  obtain ⟨x, hx, hxclass⟩ := hskips.filled
  obtain ⟨y, hy, hyclass⟩ := hskips.behind
  have hytop := (h.filed.queued.le_top (h.filed.mem_av hy)).1
  rcases hchosen with ⟨-, hia | ⟨hnil, -⟩⟩ | ⟨hle, -⟩
  · rw [hia, hzero, h.filed.mem 0 h.filed.len] at hst
    have := hskips.short st hst.1 hst.2
    omega
  · rw [h.mem_iff, hxclass, ← hzero, hnil] at hx
    cases hx
  · omega

/-- What `shs_shmem_alloc` does. -/
theorem Heap.alloc (h : Heap s blocks fl av) (hpos : 0 < size)
    (hlow : storageSize + s.splitThreshold < 2 ^ 64) :
    (∃ e, shsShmemAlloc size s = some (.error e, s.setFailed) ∧
        (e = .allocExhausted ∨ e = .allocFoundNoFixed) ∧
        (Skips s blocks size ∨ ∀ x, Free s blocks x → (s.storage x).size < size)) ∨
      ∃ st s' blocks' fl' av', shsShmemAlloc size s = some (.ok (st + storageSize), s') ∧
        Heap s' blocks' fl' av' ∧ Given s s' blocks blocks' st size ∧ ¬Skips s blocks size := by
  unfold shsShmemAlloc
  rw [if_neg (by omega)]
  by_cases hav : av = []
  · rw [if_pos (h.filed.queued.top_eq_iff.2 hav)]
    exact .inl ⟨_, rfl, .inl rfl, .inr fun x hx => absurd hx (h.none_free hav x)⟩
  rw [if_neg (mt h.filed.queued.top_eq_iff.1 hav)]
  obtain ⟨i, hi, hchoose, hchosen⟩ := h.filed.chooseList hav size
  rw [hchoose]
  rcases h.allocFrom hi size hlow with ⟨halloc, hshort⟩ |
    ⟨st, s', blocks', fl', av', hst, halloc, hheap, hgiven⟩
  · exact .inl ⟨_, halloc, .inr rfl, h.short hi hchosen hshort⟩
  · exact .inr ⟨st, s', blocks', fl', av', halloc, hheap, hgiven,
      h.not_skips hchosen hst hgiven.fits⟩

/-- The counters of the calls are not part of the invariant. -/
theorem Heap.setStat (h : Heap s blocks fl av) (failed splitFailed split : Nat) :
    Heap { s with shmemStat := { s.shmemStat with
      failed := failed, splitFailed := splitFailed, split := split } } blocks fl av := by
  have hparams : SameParams s { s with shmemStat := { s.shmemStat with
      failed := failed, splitFailed := splitFailed, split := split } } :=
    ⟨rfl, rfl, rfl, rfl, rfl, rfl, rfl, rfl, rfl⟩
  exact ⟨hparams.accepted h.accepted, h.layout.congr hparams rfl rfl fun _ _ => rfl,
    ⟨h.counted.used, h.counted.reqs, h.counted.act⟩, h.parted,
    h.filed.congr hparams h.filed.lists rfl rfl (fun _ _ => ⟨rfl, rfl⟩) fun _ => Iff.rfl⟩

/-- The largest block of the last list is the largest of all. -/
theorem Heap.le_of_top (h : Heap s blocks fl av) (hi : i ∈ av) (htop : s.maxAvailableIndex = i)
    (hst : st ∈ fl i) (hmax : ∀ x ∈ fl i, (s.storage x).size ≤ (s.storage st).size) {x : Nat}
    (hx : Free s blocks x) : (s.storage x).size ≤ (s.storage st).size := by
  have hilt := ((h.filed.nonempty i).1 hi).1
  have hstclass := ((h.filed.mem i hilt st).1 hst).2
  have hxtop := (h.filed.queued.le_top (h.filed.mem_av hx)).1
  by_cases hxclass : klass s (s.storage x).size = i
  · refine hmax x ?_
    rwa [h.mem_iff, hxclass] at hx
  · by_contra hlt
    have hmono := h.accepted.getInsertIndex_mono (Nat.not_le.1 hlt).le
    unfold klass at hxclass hxtop hstclass
    omega

/-- What `shs_shmem_get_max_st` returns. -/
theorem Heap.getMaxSt (h : Heap s blocks fl av) :
    (getMaxSt s = some (.error .getMaxExhausted) ∧ ∀ x, ¬Free s blocks x) ∨
      ∃ st, getMaxSt s = some (.ok st) ∧ Free s blocks st ∧
        ∀ x, Free s blocks x → (s.storage x).size ≤ (s.storage st).size := by
  have htop := h.filed.queued.top_eq_iff
  have hempty := queueEmpty_iff h.filed.queued.ring
  rw [List.map_eq_nil_iff] at hempty
  have hexhausted : (s.maxAvailableIndex = s.freeLen ∨ queueEmpty s.available .head = true) ↔
      av = [] := by
    rw [htop, hempty, or_self]
  unfold Shmem.getMaxSt
  rcases List.eq_nil_or_concat' av with rfl | ⟨l, i, rfl⟩
  · rw [if_pos (hexhausted.2 rfl)]
    exact .inl ⟨rfl, h.none_free rfl⟩
  have hi : i ∈ l ++ [i] := by simp
  obtain ⟨hilt, hne⟩ := (h.filed.nonempty i).1 hi
  have hlist := h.filed.lists i hilt
  have hlength := h.length_list_le hilt
  have hmaxi : s.maxAvailableIndex = i := by rw [h.filed.queued.top]; simp
  have hbefore : LinkedRing s.available .head ((l ++ [i]).map .entry ++ []) := by
    rw [List.append_nil]
    exact h.filed.queued.ring
  have hprev : s.available.prev .head = some (.entry i) := by
    have hlinked := hbefore.joined_between.2
    rw [LinkedRing.after_nil, before_map, List.getLast?_concat] at hlinked
    exact hlinked
  have hfull : queueEmpty s.free (.head i) ≠ true := by
    rw [ne_eq, h.filed.empty_iff hilt]
    exact hne
  obtain ⟨st₀, rest, hl⟩ := List.exists_cons_of_ne_nil hne
  rw [hl] at hlist hlength
  have hhead : queueHead s.free (.head i) = some (.entry st₀) := by
    rw [queueHead_ring hlist]
    simp
  have hnext : s.free.next (.entry st₀) = some (LinkedRing.after (.head i) (rest.map .entry)) := by
    have hring : LinkedRing s.free (.head i) ([] ++ .entry st₀ :: rest.map .entry) := hlist
    exact hring.joined_after.1
  have hfuel : rest.length < s.shmemStat.stCount + 1 := by
    rw [List.length_cons] at hlength
    omega
  have hall : LinkedRing s.free (.head i) (([st₀] ++ rest).map .entry) := hlist
  obtain ⟨st, hmax, hmem, hle⟩ := maxOf_ring st₀ hall hfuel
  rw [← hl] at hmem hle
  rw [if_neg (mt hexhausted.1 (by simp)), hprev]
  simp only [if_neg hfull, hhead, hnext, hmax, Option.map_some]
  exact .inr ⟨st, rfl, h.mem_list hilt hmem, fun x hx => h.le_of_top hi hmaxi hmem hle hx⟩

/-- What `shs_shmem_split_alloc` does. -/
theorem Heap.splitAlloc (h : Heap s blocks fl av) (reqMinsize : Nat) :
    (∃ e, shsShmemSplitAlloc reqMinsize s = some (.error e, s.setSplit.setSplitFailed) ∧
        (e = .getMaxExhausted ∨ e = .splitAllocNoFixedReqMinsize) ∧
        ((∀ x, ¬Free s blocks x) ∨ ∃ st, Free s blocks st ∧ (s.storage st).size < reqMinsize ∧
          ∀ x, Free s blocks x → (s.storage x).size ≤ (s.storage st).size)) ∨
      ∃ st s' fl' av', shsShmemSplitAlloc reqMinsize s
          = some (.ok (st + storageSize, (s.storage st).size), s') ∧
        Heap s' blocks fl' av' ∧ Given s s' blocks blocks st (s.storage st).size ∧
        GivenWhole s s' st ∧ reqMinsize ≤ (s.storage st).size ∧
        ∀ x, Free s blocks x → (s.storage x).size ≤ (s.storage st).size := by
  have hset : Heap s.setSplit blocks fl av := h.setStat _ _ _
  unfold shsShmemSplitAlloc
  rcases hset.getMaxSt with ⟨hnone, hfree⟩ | ⟨st, hmax, hfree, hle⟩
  · simp only [hnone]
    exact .inl ⟨_, rfl, .inl rfl, .inl hfree⟩
  simp only [hmax]
  by_cases hreq : (s.setSplit.storage st).size < reqMinsize
  · rw [if_pos hreq]
    exact .inl ⟨_, rfl, .inr rfl, .inr ⟨st, hfree, hreq, hle⟩⟩
  rw [if_neg hreq]
  obtain ⟨xs, ys, rfl⟩ := List.append_of_mem hfree.1
  obtain ⟨s₁, fl₁, av₁, hremove, -, hrel⟩ := hset.removeFree hfree.2
  obtain ⟨fl', av', hheap, hgiven, hwhole⟩ := hset.takeWhole hfree.2 (Nat.le_refl _) hremove
  simp only [hremove, hrel.size]
  have hparams : SameParams s s.setSplit := ⟨rfl, rfl, rfl, rfl, rfl, rfl, rfl, rfl, rfl⟩
  exact .inr ⟨st, _, fl', av', rfl, hheap, ⟨hgiven.free, hgiven.fits, hgiven.act,
    .inl ⟨hwhole.given, hwhole.count, hwhole.order⟩, hparams.trans hgiven.params, hgiven.busy⟩,
    ⟨hwhole.given, hwhole.count, hwhole.order⟩, Nat.not_lt.1 hreq, hle⟩

end Alloc

end Shmem
end Shs
