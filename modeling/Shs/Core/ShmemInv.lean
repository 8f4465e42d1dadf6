import Mathlib.Algebra.Order.BigOperators.Group.List
import Mathlib.Algebra.Order.Ring.Nat
import Shs.Core.ShmemLists

/-!
# Core.ShmemInv

The invariant of the heap in shared memory, and what an allocation does to it. `Layout` is about
the order list, whose blocks tile the region behind the free array, and `Counted` about the
counters. `Heap` has them together with the free lists.
-/

namespace Shs
namespace Shmem

open Queue

/-- The length of a block with its header. -/
def blockLen (s : Shm) (st : Nat) : Nat := storageSize + (s.storage st).size

theorem blockLen_pos (s : Shm) (st : Nat) : 0 < blockLen s st :=
  Nat.add_pos_left (by decide) _

/-- `blocks` are the blocks in the order list, one behind the other. -/
structure Layout (s : Shm) (blocks : List Nat) : Prop where
  order : LinkedRing s.order .head (blocks.map .entry)
  tiles : Tiles (blockLen s) s.shmemStat.systemSize blocks s.shmemStat.totalSize
  total_lt : s.shmemStat.totalSize < 2 ^ 64
  count : s.shmemStat.stCount = blocks.length

/-- The sum of `f` over the allocated blocks. -/
def allocated (f : Storage → Nat) (s : Shm) (blocks : List Nat) : Nat :=
  (blocks.map fun st => if (s.storage st).alloc = true then f (s.storage st) else 0).sum

/-- The counters are the sums over the allocated blocks. -/
structure Counted (s : Shm) (blocks : List Nat) : Prop where
  used : s.shmemStat.usedSize = allocated (·.size) s blocks
  reqs : s.shmemStat.reqsSize = allocated (·.actSize) s blocks
  act : ∀ st ∈ blocks, (s.storage st).alloc = true → (s.storage st).actSize ≤ (s.storage st).size

/-- One of the two blocks is allocated. -/
def Parted (s : Shm) (a b : Nat) : Prop := (s.storage a).alloc = true ∨ (s.storage b).alloc = true

/-- A free block of the heap. -/
def Free (s : Shm) (blocks : List Nat) (st : Nat) : Prop :=
  st ∈ blocks ∧ (s.storage st).alloc = false

/-- A block that is handed out. -/
def Busy (s : Shm) (blocks : List Nat) (st : Nat) : Prop :=
  st ∈ blocks ∧ (s.storage st).alloc = true

/-- The invariant of the heap. -/
structure Heap (s : Shm) (blocks : List Nat) (fl : Nat → List Nat) (av : List Nat) : Prop where
  accepted : Accepted s
  layout : Layout s blocks
  counted : Counted s blocks
  parted : blocks.IsChain (Parted s)
  filed : Filed s (Free s blocks) fl av

/-! ## Parts of the invariant -/

section Parts

variable {s s' : Shm} {blocks xs ys : List Nat} {fl : Nat → List Nat} {av : List Nat}
variable {F F' : Nat → Prop} {st a b : Nat} {f g : Storage → Nat}

theorem SameParams.accepted (h : SameParams s s') (ha : Accepted s) : Accepted s' := by
  refine ⟨?_, ?_, ?_, ?_⟩
  · rw [h.minSize]
    exact ha.min_pos
  · rw [h.minSize, h.maxSize]
    exact ha.min_lt
  · rw [h.levelType, h.factor]
    exact ha.factor_pos
  · rw [h.freeLen]
    exact ha.len

theorem Layout.nodup (h : Layout s blocks) : blocks.Nodup := h.tiles.nodup (blockLen_pos s)

/-- The order list is as it was, and so are the sizes. -/
theorem Layout.congr (h : Layout s blocks) (hp : SameParams s s') (ho : s'.order = s.order)
    (hc : s'.shmemStat.stCount = s.shmemStat.stCount)
    (hsize : ∀ st ∈ blocks, (s'.storage st).size = (s.storage st).size) : Layout s' blocks := by
  refine ⟨?_, ?_, ?_, hc.trans h.count⟩
  · rw [ho]
    exact h.order
  · rw [hp.systemSize, hp.totalSize]
    exact h.tiles.congr fun st hst => congrArg (storageSize + ·) (hsize st hst)
  · rw [hp.totalSize]
    exact h.total_lt

@[simp] theorem allocated_nil : allocated f s [] = 0 := rfl

theorem allocated_append : allocated f s (xs ++ ys) = allocated f s xs + allocated f s ys := by
  simp [allocated]

theorem allocated_cons :
    allocated f s (st :: ys) =
      (if (s.storage st).alloc = true then f (s.storage st) else 0) + allocated f s ys := by
  simp [allocated]

theorem allocated_congr
    (h : ∀ st ∈ xs, (s'.storage st).alloc = (s.storage st).alloc ∧
      f (s'.storage st) = f (s.storage st)) : allocated f s' xs = allocated f s xs := by
  refine congrArg List.sum (List.map_congr_left fun st hst => ?_)
  rw [(h st hst).1, (h st hst).2]

theorem allocated_le
    (h : ∀ st ∈ xs, (s.storage st).alloc = true → f (s.storage st) ≤ g (s.storage st)) :
    allocated f s xs ≤ allocated g s xs := by
  refine List.sum_le_sum fun st hst => ?_
  split
  · rename_i halloc
    exact h st hst halloc
  · exact Nat.le_refl 0

theorem allocated_le_sum (s : Shm) (xs : List Nat) :
    allocated (·.size) s xs ≤ (xs.map (blockLen s)).sum := by
  refine List.sum_le_sum fun st _ => ?_
  split
  · exact Nat.le_add_left _ _
  · exact Nat.zero_le _

theorem allocated_middle :
    allocated f s (xs ++ st :: ys) = allocated f s (xs ++ ys) +
      (if (s.storage st).alloc = true then f (s.storage st) else 0) := by
  rw [allocated_append, allocated_append, allocated_cons]
  omega

/-- A block that is not handed out fits beside those that are. -/
theorem Layout.allocated_add_le (h : Layout s (xs ++ st :: ys))
    (hst : (s.storage st).alloc = false) :
    allocated (·.size) s (xs ++ st :: ys) + (s.storage st).size + storageSize
      ≤ s.shmemStat.totalSize := by
  have hsum := h.tiles.sum
  have hx := allocated_le_sum s xs
  have hy := allocated_le_sum s ys
  rw [List.map_append, List.map_cons, List.sum_append, List.sum_cons] at hsum
  rw [allocated_append, allocated_cons, if_neg (by simp [hst])]
  simp only [blockLen] at hsum hx hy
  omega

/-- The lists, when only blocks outside of them change. -/
theorem Filed.congr (h : Filed s F fl av) (hp : SameParams s s')
    (hlists : ∀ i < s.freeLen, LinkedRing s'.free (.head i) ((fl i).map .entry))
    (ha : s'.available = s.available) (ht : s'.maxAvailableIndex = s.maxAvailableIndex)
    (hst : ∀ st, F st → (s'.storage st).size = (s.storage st).size ∧
      (s'.storage st).freeListHead = (s.storage st).freeListHead)
    (hF : ∀ st, F' st ↔ F st) : Filed s' F' fl av := by
  refine ⟨?_, ?_, ?_, ⟨?_, h.queued.sorted, ?_, ?_⟩, ?_, ?_, ?_⟩
  · rwa [hp.freeLen]
  · intro i hi st
    rw [hp.freeLen] at hi
    rw [h.mem i hi, hF, hp.klass]
    refine and_congr_right fun hf => ?_
    rw [(hst st hf).1]
  · intro st hf
    rw [hF] at hf
    rw [(hst st hf).1, (hst st hf).2, hp.klass]
    exact h.held st hf
  · rw [ha]
    exact h.queued.ring
  · rw [hp.freeLen]
    exact h.queued.inside
  · rw [ht, hp.freeLen]
    exact h.queued.top
  · rw [hp.freeLen]
    exact h.nonempty
  · rw [hp.freeLen, hp.index]
    exact h.index
  · rw [hp.freeLen]
    exact h.len

/-- A part of the heap where no block becomes free. -/
theorem isChain_mono (h : xs.IsChain (Parted s))
    (hmono : ∀ x ∈ xs, (s.storage x).alloc = true → (s'.storage x).alloc = true) :
    xs.IsChain (Parted s') :=
  h.imp_of_mem_imp fun a b ha hb hp => hp.imp (hmono a ha) (hmono b hb)

/-- A block that is handed out may stand between any two. -/
theorem isChain_middle (hl : xs.IsChain (Parted s)) (hr : ys.IsChain (Parted s))
    (hx : ∀ x ∈ xs.getLast?, Parted s x st) (hy : ∀ y ∈ ys.head?, Parted s st y) :
    (xs ++ st :: ys).IsChain (Parted s) := by
  refine List.isChain_append.2 ⟨hl, List.isChain_cons.2 ⟨hy, hr⟩, fun x hxl y hyh => ?_⟩
  obtain rfl : st = y := by simpa using hyh
  exact hx x hxl

theorem Relisted.layout (h : Relisted st s s') (hl : Layout s blocks) : Layout s' blocks :=
  hl.congr h.params h.order (by rw [h.stat]) fun x _ => h.size x

theorem Relisted.allocated (h : Relisted st s s')
    (hf : ∀ x, f (s'.storage x) = f (s.storage x)) : allocated f s' xs = allocated f s xs :=
  allocated_congr fun x _ => ⟨h.alloc x, hf x⟩

theorem Relisted.counted (h : Relisted st s s') (hc : Counted s blocks) : Counted s' blocks := by
  refine ⟨?_, ?_, fun x hx halloc => ?_⟩
  · rw [h.stat, h.allocated h.size, hc.used]
  · rw [h.stat, h.allocated h.actSize, hc.reqs]
  · rw [h.alloc] at halloc
    rw [h.size, h.actSize]
    exact hc.act x hx halloc

theorem Relisted.parted (h : Relisted st s s') : Parted s' a b ↔ Parted s a b := by
  rw [Parted, Parted, h.alloc, h.alloc]

theorem Relisted.chain (h : Relisted st s s') (hc : xs.IsChain (Parted s)) :
    xs.IsChain (Parted s') :=
  hc.imp fun _ _ => h.parted.2

theorem Relisted.free (h : Relisted st s s') (x : Nat) : Free s' blocks x ↔ Free s blocks x := by
  rw [Free, Free, h.alloc]

theorem Relisted.busy (h : Relisted st s s') (x : Nat) : Busy s' blocks x ↔ Busy s blocks x := by
  rw [Busy, Busy, h.alloc]

end Parts

/-! ## A block in hand -/

/-- Block `st` is neither handed out nor in a free list, and may have free neighbours. -/
structure InHand (s : Shm) (xs : List Nat) (st : Nat) (ys : List Nat) (fl : Nat → List Nat)
    (av : List Nat) : Prop where
  accepted : Accepted s
  layout : Layout s (xs ++ st :: ys)
  counted : Counted s (xs ++ st :: ys)
  unused : (s.storage st).alloc = false
  left : xs.IsChain (Parted s)
  right : ys.IsChain (Parted s)
  filed : Filed s (Free s (xs ++ ys)) fl av

section Hand

variable {s : Shm} {xs ys : List Nat} {fl : Nat → List Nat} {av : List Nat} {st size : Nat}

theorem Heap.chains (h : Heap s (xs ++ st :: ys) fl av) :
    xs.IsChain (Parted s) ∧ ys.IsChain (Parted s) := by
  obtain ⟨hl, hr, -⟩ := List.isChain_append.1 h.parted
  exact ⟨hl, hr.tail⟩

theorem notMem_of_layout (h : Layout s (xs ++ st :: ys)) : st ∉ xs ++ ys := by
  have hnd := h.nodup
  rw [List.nodup_middle, List.nodup_cons] at hnd
  exact hnd.1

/-- A free block leaves its list. -/
theorem Heap.removeFree (h : Heap s (xs ++ st :: ys) fl av) (hst : (s.storage st).alloc = false) :
    ∃ s' fl' av', removeFree st s = some (true, s') ∧ InHand s' xs st ys fl' av' ∧
      Relisted st s s' := by
  obtain ⟨s', fl', av', hremove, hfiled, hrel⟩ := h.filed.removeFree ⟨by simp, hst⟩
  obtain ⟨hl, hr⟩ := h.chains
  have hnot := notMem_of_layout h.layout
  refine ⟨s', fl', av', hremove, ⟨hrel.params.accepted h.accepted, hrel.layout h.layout,
    hrel.counted h.counted, by rw [hrel.alloc, hst], hrel.chain hl, hrel.chain hr, ?_⟩, hrel⟩
  refine hfiled.congr ⟨rfl, rfl, rfl, rfl, rfl, rfl, rfl, rfl, rfl⟩ hfiled.lists rfl rfl
    (fun _ _ => ⟨rfl, rfl⟩) fun x => ?_
  rw [hrel.free, Free, Free]
  simp only [List.mem_append, List.mem_cons] at hnot ⊢
  constructor
  · rintro ⟨hx, hfree⟩
    refine ⟨⟨by tauto, hfree⟩, ?_⟩
    rintro rfl
    exact hnot hx
  · tauto

theorem InHand.reqs_le (h : InHand s xs st ys fl av) :
    s.shmemStat.reqsSize ≤ s.shmemStat.usedSize := by
  rw [h.counted.reqs, h.counted.used]
  exact allocated_le h.counted.act

theorem InHand.used_le (h : InHand s xs st ys fl av) :
    s.shmemStat.usedSize + (s.storage st).size + storageSize ≤ s.shmemStat.totalSize := by
  rw [h.counted.used]
  exact h.layout.allocated_add_le h.unused

theorem InHand.ne (h : InHand s xs st ys fl av) {x : Nat} (hx : x ∈ xs ++ ys) : x ≠ st := by
  rintro rfl
  exact notMem_of_layout h.layout hx

/-- The whole block is handed out. -/
theorem InHand.giveWhole (h : InHand s xs st ys fl av) (hsize : size ≤ (s.storage st).size) :
    Heap (giveWhole st size s) (xs ++ st :: ys) fl av ∧ SameParams s (giveWhole st size s) ∧
      ∀ x, Busy (giveWhole st size s) (xs ++ st :: ys) x ↔ Busy s (xs ++ st :: ys) x ∨ x = st := by
  have hparams : SameParams s (Shmem.giveWhole st size s) :=
    ⟨rfl, rfl, rfl, rfl, rfl, rfl, rfl, rfl, rfl⟩
  have hself : (Shmem.giveWhole st size s).storage st
      = { s.storage st with alloc := true, actSize := size } := Function.update_self ..
  have hother : ∀ x, x ≠ st → (Shmem.giveWhole st size s).storage x = s.storage x :=
    fun x hx => Function.update_of_ne hx _ _
  have halloc : ∀ x, (s.storage x).alloc = true →
      ((Shmem.giveWhole st size s).storage x).alloc = true := by
    intro x hx
    by_cases hxst : x = st
    · rw [hxst, hself]
    · rw [hother x hxst, hx]
  have hsum : ∀ f : Storage → Nat, allocated f (Shmem.giveWhole st size s) (xs ++ st :: ys)
      = allocated f s (xs ++ st :: ys)
        + f { s.storage st with alloc := true, actSize := size } := by
    intro f
    have hrest : allocated f (Shmem.giveWhole st size s) (xs ++ ys) = allocated f s (xs ++ ys) :=
      allocated_congr fun x hx => by
        rw [hother x (h.ne hx)]
        exact ⟨rfl, rfl⟩
    rw [allocated_middle, allocated_middle, hself, if_pos rfl, if_neg (by simp [h.unused]), hrest]
    rfl
  have hused := h.used_le
  have hreqs := h.reqs_le
  have htotal := h.layout.total_lt
  have hnoused : s.shmemStat.usedSize + (s.storage st).size < 2 ^ 64 := by omega
  have hnoreqs : s.shmemStat.reqsSize + size < 2 ^ 64 := by omega
  refine ⟨⟨hparams.accepted h.accepted, ?_, ⟨?_, ?_, ?_⟩, ?_, ?_⟩, hparams, ?_⟩
  · refine h.layout.congr hparams rfl rfl fun x _ => ?_
    by_cases hx : x = st
    · rw [hx, hself]
    · rw [hother x hx]
  · rw [hsum, ← h.counted.used]
    exact sizeT_of_lt hnoused
  · rw [hsum, ← h.counted.reqs]
    exact sizeT_of_lt hnoreqs
  · intro x hx hx'
    by_cases hxst : x = st
    · rw [hxst, hself]
      exact hsize
    · rw [hother x hxst] at hx' ⊢
      exact h.counted.act x hx hx'
  · refine isChain_middle (isChain_mono h.left fun x _ => halloc x)
      (isChain_mono h.right fun x _ => halloc x) (fun x _ => .inr ?_) fun y _ => .inl ?_
    · rw [hself]
    · rw [hself]
  · have hkeep : ∀ x, Free s (xs ++ ys) x → (Shmem.giveWhole st size s).storage x = s.storage x :=
      fun x hx => hother x (h.ne hx.1)
    refine h.filed.congr hparams h.filed.lists rfl rfl
      (fun x hx => by rw [hkeep x hx]; exact ⟨rfl, rfl⟩) fun x => ?_
    by_cases hx : x = st
    · have hnot := notMem_of_layout h.layout
      rw [hx]
      refine iff_of_false (fun hf => ?_) fun hf => hnot hf.1
      have := hf.2
      rw [hself] at this
      cases this
    · rw [Free, Free, hother x hx]
      simp [hx]
  · intro x
    by_cases hx : x = st
    · rw [hx]
      refine iff_of_true ⟨by simp, ?_⟩ (.inr rfl)
      rw [hself]
    · rw [Busy, Busy, hother x hx, or_iff_left hx]

/-! ## A block that is cut -/

/-- The blocks of a heap are fewer than its bytes. -/
theorem length_lt {blocks : List Nat} (h : Tiles (blockLen s) s.shmemStat.systemSize blocks
    s.shmemStat.totalSize) (ht : s.shmemStat.totalSize < 2 ^ 64) : blocks.length < 2 ^ 64 := by
  have hsum := h.sum
  have hle := List.length_le_sum_of_one_le (blocks.map (blockLen s)) fun n hn => by
    obtain ⟨x, -, rfl⟩ := List.mem_map.1 hn
    exact blockLen_pos s x
  rw [List.length_map] at hle
  omega

/-- The place of the new block. -/
theorem InHand.new_notMem (h : InHand s xs st ys fl av)
    (hsize : size + storageSize ≤ (s.storage st).size) :
    st + storageSize + size ∉ xs ++ st :: ys := by
  refine h.layout.tiles.notMem_inside (blockLen_pos s) (by simp : st ∈ xs ++ st :: ys) ?_ ?_
  · simp only [storageSize]
    omega
  · simp only [blockLen, storageSize] at hsize ⊢
    omega

/-- The heap with the block cut, before the new one enters a list. -/
theorem InHand.cut (h : InHand s xs st ys fl av)
    (hsize : size + storageSize ≤ (s.storage st).size) :
    ∃ order, ((queueInsertBefore (.entry (st + storageSize + size)) (.entry st)
          (cutBlock st size s).order).bind
        (queueRemove (.entry (st + storageSize + size)))).bind
        (queueInsertAfter (.entry st) (.entry (st + storageSize + size))) = some order ∧
      LinkedRing order .head ((xs ++ st :: (st + storageSize + size) :: ys).map .entry) ∧
      Filed { cutBlock st size s with order := order } (Free s (xs ++ ys)) fl av := by
  have hnew := h.new_notMem hsize
  have hring := h.layout.order
  rw [List.map_append, List.map_cons] at hring
  obtain ⟨order, horder, hring'⟩ := copyEntry_ring (x := .entry (st + storageSize + size)) hring
    (by simpa using hnew)
  refine ⟨order, horder, by simpa using hring', ?_⟩
  have hother : ∀ x ∈ xs ++ ys, (cutBlock st size s).storage x = s.storage x := by
    intro x hx
    have hxnew : x ≠ st + storageSize + size := by
      rintro rfl
      exact hnew (by simp only [List.mem_append, List.mem_cons] at hx ⊢; tauto)
    exact (Function.update_of_ne (h.ne hx) _ _).trans (Function.update_of_ne hxnew _ _)
  refine h.filed.congr ⟨rfl, rfl, rfl, rfl, rfl, rfl, rfl, rfl, rfl⟩ (fun i hi => ?_) rfl rfl
    (fun x hx => ?_) fun x => Iff.rfl
  · refine (h.filed.lists i hi).congr fun c hc => ?_
    have hcnew : c ≠ .entry (st + storageSize + size) := by
      rintro rfl
      have hmem : st + storageSize + size ∈ fl i := by simpa using hc
      have hfree := ((h.filed.mem i hi _).1 hmem).1.1
      exact hnew (by simp only [List.mem_append, List.mem_cons] at hfree ⊢; tauto)
    simp [cutBlock, copyEntry, Links.setNext, Links.setPrev, hcnew]
  · show ((cutBlock st size s).storage x).size = _ ∧
      ((cutBlock st size s).storage x).freeListHead = _
    rw [hother x hx.1]
    exact ⟨rfl, rfl⟩

/-- The storage of the heap after the cut: `st` has the first `size` bytes, and `new` the rest. -/
structure Cut (s s' : Shm) (st size : Nat) : Prop where
  given : s'.storage st = { s.storage st with alloc := true, size := size, actSize := size }
  unused : (s'.storage (st + storageSize + size)).alloc = false
  rest : (s'.storage (st + storageSize + size)).size = (s.storage st).size - size - storageSize
  others : ∀ x, x ≠ st → x ≠ st + storageSize + size → s'.storage x = s.storage x

/-- What the code does with the block, before the invariant. -/
theorem InHand.giveFirst_eq (h : InHand s xs st ys fl av)
    (hsize : size + storageSize ≤ (s.storage st).size) :
    ∃ s' fl' av', giveFirst st size s = some s' ∧ SameParams s s' ∧ Cut s s' st size ∧
      LinkedRing s'.order .head ((xs ++ st :: (st + storageSize + size) :: ys).map .entry) ∧
      Filed s' (fun x => Free s (xs ++ ys) x ∨ x = st + storageSize + size) fl' av' ∧
      s'.shmemStat = { s.shmemStat with
        usedSize := sizeT (s.shmemStat.usedSize + size)
        reqsSize := sizeT (s.shmemStat.reqsSize + size)
        stCount := sizeT (s.shmemStat.stCount + 1) } := by
  obtain ⟨order, horder, hring, hfiled⟩ := h.cut hsize
  have hnew := h.new_notMem hsize
  have hne : st ≠ st + storageSize + size := by
    simp only [storageSize]
    omega
  have hused := h.used_le
  have htotal := h.layout.total_lt
  have hcutnew : (cutBlock st size s).storage (st + storageSize + size)
      = { s.storage st with size := (s.storage st).size - size - storageSize } := by
    refine (Function.update_of_ne hne.symm _ _).trans ((Function.update_self ..).trans ?_)
    rw [sizeT_of_lt (by omega), subSizeT_of_le (by omega) hsize, Nat.sub_sub]
  have hcutst :
      (cutBlock st size s).storage st = { s.storage st with alloc := true, size := size } :=
    Function.update_self ..
  have hcutother : ∀ x, x ≠ st → x ≠ st + storageSize + size →
      (cutBlock st size s).storage x = s.storage x :=
    fun x hx hx' => (Function.update_of_ne hx _ _).trans (Function.update_of_ne hx' _ _)
  have hnot : ¬Free s (xs ++ ys) (st + storageSize + size) := by
    rintro ⟨hmem, -⟩
    exact hnew (by simp only [List.mem_append, List.mem_cons] at hmem ⊢; tauto)
  obtain ⟨s₃, fl', av', hinsert, hfiled', hrel⟩ := hfiled.insertFree hnot (by
    show ((cutBlock st size s).storage _).alloc = false
    rw [hcutnew]
    exact h.unused)
  have hst₃ : s₃.storage st = { s.storage st with alloc := true, size := size } :=
    (hrel.others st hne).trans hcutst
  let v : Storage := { s₃.storage st with actSize := size }
  let s₄ : Shm := (s₃.setStorage st v).count size size |>.addStCount
  have hself : s₄.storage st = v := Function.update_self ..
  have hother : ∀ x, x ≠ st → s₄.storage x = s₃.storage x :=
    fun x hx => Function.update_of_ne hx _ _
  have hparams : SameParams s₃ s₄ := ⟨rfl, rfl, rfl, rfl, rfl, rfl, rfl, rfl, rfl⟩
  have hparamsCut : SameParams s { cutBlock st size s with order := order } :=
    ⟨rfl, rfl, rfl, rfl, rfl, rfl, rfl, rfl, rfl⟩
  have hparams₃ := hparamsCut.trans hrel.params
  refine ⟨s₄, fl', av', ?_, hparams₃.trans hparams, ⟨?_, ?_, ?_, ?_⟩, ?_, ?_, ?_⟩
  · simp only [Shmem.giveFirst, Option.bind_eq_bind]
    rw [← Option.bind_assoc, ← Option.bind_assoc, horder, Option.bind_some, hinsert,
      Option.bind_some]
    have hgiven : ((s₃.setStorage st v).storage st).size = size := by
      show (s₄.storage st).size = size
      rw [hself]
      show (s₃.storage st).size = size
      rw [hst₃]
    show some ((s₃.setStorage st v).count ((s₃.setStorage st v).storage st).size
      size).addStCount = _
    rw [hgiven]
  · rw [hself]
    show ({ s₃.storage st with actSize := size } : Storage) = _
    rw [hst₃]
  · rw [hother _ hne.symm, hrel.alloc]
    show ((cutBlock st size s).storage _).alloc = false
    rw [hcutnew]
    exact h.unused
  · rw [hother _ hne.symm, hrel.size]
    show ((cutBlock st size s).storage _).size = _
    rw [hcutnew]
  · intro x hx hx'
    rw [hother x hx, hrel.others x hx']
    exact hcutother x hx hx'
  · show LinkedRing s₃.order _ _
    rw [hrel.order]
    exact hring
  · refine hfiled'.congr hparams hfiled'.lists rfl rfl (fun x hx => ?_) fun x => Iff.rfl
    have hxst : x ≠ st := by
      rintro rfl
      rcases hx with hx | hx
      · exact notMem_of_layout h.layout hx.1
      · exact hne hx
    rw [hother x hxst]
    exact ⟨rfl, rfl⟩
  · show ({ s₃.shmemStat with
      usedSize := sizeT (s₃.shmemStat.usedSize + size)
      reqsSize := sizeT (s₃.shmemStat.reqsSize + size)
      stCount := sizeT (s₃.shmemStat.stCount + 1) } : ShmemStat) = _
    rw [hrel.stat]
    rfl

/-- The first part of the block is handed out. -/
theorem InHand.giveFirst (h : InHand s xs st ys fl av)
    (hsize : size + storageSize ≤ (s.storage st).size)
    (hright : ∀ y ∈ ys.head?, (s.storage y).alloc = true) :
    ∃ s' fl' av', giveFirst st size s = some s' ∧ SameParams s s' ∧ Cut s s' st size ∧
      Heap s' (xs ++ st :: (st + storageSize + size) :: ys) fl' av' ∧
      ∀ x, Busy s' (xs ++ st :: (st + storageSize + size) :: ys) x ↔
        Busy s (xs ++ st :: ys) x ∨ x = st := by
  obtain ⟨s', fl', av', hgive, hparams, hcut, hring, hfiled, hstat⟩ := h.giveFirst_eq hsize
  have hnew := h.new_notMem hsize
  generalize hn : st + storageSize + size = new at *
  have hnewne : ∀ x ∈ xs ++ st :: ys, x ≠ new := by
    rintro x hx rfl
    exact hnew hx
  have hother : ∀ x ∈ xs ++ ys, s'.storage x = s.storage x := by
    intro x hx
    refine hcut.others x (h.ne hx) (hn ▸ hnewne x ?_)
    simp only [List.mem_append, List.mem_cons] at hx ⊢
    tauto
  have hgiven : (s'.storage st).alloc = true ∧ (s'.storage st).size = size ∧
      (s'.storage st).actSize = size := by
    rw [hcut.given]
    exact ⟨rfl, rfl, rfl⟩
  have hrest : (s'.storage new).alloc = false := by
    rw [← hn]
    exact hcut.unused
  have hrestsize : (s'.storage new).size = (s.storage st).size - size - storageSize := by
    rw [← hn]
    exact hcut.rest
  have hused := h.used_le
  have hreqs := h.reqs_le
  have htotal := h.layout.total_lt
  have hsum : ∀ f : Storage → Nat, allocated f s' (xs ++ st :: new :: ys)
      = allocated f s (xs ++ st :: ys) + f (s'.storage st) := by
    intro f
    have hnone : allocated f s' (xs ++ ys) = allocated f s (xs ++ ys) :=
      allocated_congr fun x hx => by
        rw [hother x hx]
        exact ⟨rfl, rfl⟩
    rw [allocated_middle, allocated_middle, allocated_middle, if_pos hgiven.1,
      if_neg (by simp [hrest]), if_neg (by simp [h.unused]), hnone]
  have htiles : Tiles (blockLen s') s'.shmemStat.systemSize (xs ++ st :: new :: ys)
      s'.shmemStat.totalSize := by
    rw [hparams.systemSize, hparams.totalSize]
    refine h.layout.tiles.split (fun x hx => ?_) (fun x hx => ?_) ?_ ?_
    · rw [blockLen, blockLen, hother x (List.mem_append_left _ hx)]
    · rw [blockLen, blockLen, hother x (List.mem_append_right _ hx)]
    · rw [blockLen, hgiven.2.1, ← hn, Nat.add_assoc]
    · simp only [blockLen, hgiven.2.1, hrestsize]
      omega
  have htotal' : s'.shmemStat.totalSize < 2 ^ 64 := by
    rw [hparams.totalSize]
    exact htotal
  have hlength := length_lt htiles htotal'
  refine ⟨s', fl', av', hgive, hparams, hcut, ⟨hparams.accepted h.accepted,
    ⟨hring, htiles, htotal', ?_⟩, ⟨?_, ?_, ?_⟩, ?_, ?_⟩, ?_⟩
  · have hcount := h.layout.count
    simp only [List.length_append, List.length_cons] at hlength hcount ⊢
    rw [hstat]
    show sizeT (s.shmemStat.stCount + 1) = _
    rw [sizeT_of_lt (by omega)]
    omega
  · rw [hsum, ← h.counted.used, hgiven.2.1, hstat]
    exact sizeT_of_lt (by omega)
  · rw [hsum, ← h.counted.reqs, hgiven.2.2, hstat]
    exact sizeT_of_lt (by omega)
  · intro x hx halloc
    simp only [List.mem_append, List.mem_cons] at hx
    by_cases hxst : x = st
    · rw [hxst, hgiven.2.1, hgiven.2.2]
    by_cases hxnew : x = new
    · rw [hxnew, hrest] at halloc
      cases halloc
    · have hmem : x ∈ xs ++ ys := by
        rw [List.mem_append]
        tauto
      rw [hother x hmem] at halloc ⊢
      refine h.counted.act x ?_ halloc
      simp only [List.mem_append, List.mem_cons] at hmem ⊢
      tauto
  · have hmono : ∀ x ∈ xs ++ ys, (s.storage x).alloc = true → (s'.storage x).alloc = true :=
      fun x hx halloc => by rw [hother x hx, halloc]
    refine isChain_middle (isChain_mono h.left fun x hx => hmono x (List.mem_append_left _ hx))
      (List.isChain_cons.2 ⟨fun y hy => .inr ?_,
        isChain_mono h.right fun x hx => hmono x (List.mem_append_right _ hx)⟩)
      (fun x _ => .inr hgiven.1) fun y _ => .inl hgiven.1
    exact hmono y (List.mem_append_right _ (List.mem_of_mem_head? hy)) (hright y hy)
  · refine hfiled.congr ⟨rfl, rfl, rfl, rfl, rfl, rfl, rfl, rfl, rfl⟩ hfiled.lists rfl rfl
      (fun _ _ => ⟨rfl, rfl⟩) fun x => ?_
    simp only [Free, List.mem_append, List.mem_cons]
    constructor
    · rintro ⟨hx, hfree⟩
      by_cases hxst : x = st
      · rw [hxst, hgiven.1] at hfree
        cases hfree
      by_cases hxnew : x = new
      · exact .inr hxnew
      · have hmem : x ∈ xs ++ ys := by
          rw [List.mem_append]
          tauto
        rw [hother x hmem] at hfree
        exact .inl ⟨by tauto, hfree⟩
    · rintro (⟨hx, hfree⟩ | rfl)
      · rw [hother x (List.mem_append.2 hx)]
        exact ⟨by tauto, hfree⟩
      · exact ⟨by simp, hrest⟩
  · intro x
    simp only [Busy, List.mem_append, List.mem_cons]
    by_cases hxst : x = st
    · rw [hxst, hgiven.1]
      simp
    by_cases hxnew : x = new
    · rw [hxnew, hrest]
      have hout : ¬(new ∈ xs ∨ new = st ∨ new ∈ ys) := by simpa using hnew
      refine iff_of_false (by simp) ?_
      rintro (⟨hmem, -⟩ | hst)
      · exact hout hmem
      · exact hout (.inr (.inl hst))
    · by_cases hmem : x ∈ xs ++ ys
      · rw [hother x hmem]
        simp [hxst, hxnew]
      · rw [List.mem_append] at hmem
        constructor
        · rintro ⟨hx, -⟩
          tauto
        · rintro (⟨hx, -⟩ | hx)
          · tauto
          · exact absurd hx hxst

end Hand

end Shmem
end Shs
