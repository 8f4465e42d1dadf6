import Shs.Core.Shmem

/-!
# Core.ShmemClass

The classes of the heap in shared memory, and its creation. A block is filed under the class that
its size rounds down to, and a request is searched from the class that it rounds up to.
-/

namespace Shs
namespace Shmem

open Queue

/-- What `shs_shmem_create` sees to before it sets the parameters of a heap. -/
structure Accepted (s : Shm) : Prop where
  min_pos : 0 < s.minSize
  min_lt : s.minSize < s.maxSize
  factor_pos : s.levelType = levelTypeLinear → 0 < s.factor
  len : 2 ≤ s.freeLen

/-! ## Classes -/

/-- The smallest block of class `i`, and the largest request for which the search begins there. -/
def capacity (s : Shm) (i : Nat) : Nat :=
  if s.levelType = levelTypeLinear then s.minSize + s.factor * i else s.minSize * 2 ^ i

/-- A quotient that is rounded up. -/
theorem quotient_le_iff {a f i : Nat} (hf : 0 < f) :
    a / f + (if a % f ≠ 0 then 1 else 0) ≤ i ↔ a ≤ f * i := by
  have hdiv := Nat.div_add_mod a f
  by_cases hmod : a % f = 0
  · rw [if_neg (by simpa using hmod), Nat.add_zero]
    rw [hmod, Nat.add_zero] at hdiv
    constructor
    · intro h
      rw [← hdiv]
      exact Nat.mul_le_mul_left f h
    · intro h
      rw [← hdiv] at h
      exact Nat.le_of_mul_le_mul_left h hf
  · rw [if_pos hmod, Nat.succ_le_iff, Nat.div_lt_iff_lt_mul hf, Nat.mul_comm]
    have hne : a ≠ f * i := by
      rintro rfl
      exact hmod (Nat.mul_mod_right f i)
    omega

section Classes

variable {s : Shm} {size b i : Nat}

theorem min_le_capacity (s : Shm) (i : Nat) : s.minSize ≤ capacity s i := by
  unfold capacity
  split
  · exact Nat.le_add_right _ _
  · exact Nat.le_mul_of_pos_right _ (Nat.two_pow_pos i)

theorem Accepted.min_lt_capacity (h : Accepted s) (hi : 0 < i) : s.minSize < capacity s i := by
  have hmin := h.min_pos
  unfold capacity
  split
  · rename_i hl
    have := Nat.mul_pos (h.factor_pos hl) hi
    omega
  · have htwo : 2 ^ 1 ≤ 2 ^ i := Nat.pow_le_pow_right (by omega) hi
    have := Nat.mul_le_mul_left s.minSize htwo
    omega

/-- The request fits into the smallest block of its class, and of no class before. -/
theorem Accepted.getAllocIndex_le_iff (h : Accepted s) :
    getAllocIndex s size ≤ i ↔ size ≤ capacity s i := by
  have hmin := min_le_capacity s i
  unfold getAllocIndex
  by_cases hsize : size ≤ s.minSize
  · rw [if_pos hsize]
    exact ⟨fun _ => hsize.trans hmin, fun _ => Nat.zero_le i⟩
  rw [if_neg hsize]
  unfold capacity
  by_cases hl : s.levelType = levelTypeLinear
  · rw [if_pos hl, if_pos hl, quotient_le_iff (h.factor_pos hl)]
    omega
  · rw [if_neg hl, if_neg hl]
    have hpow : 0 < size / s.minSize := Nat.div_pos (by omega) h.min_pos
    rw [shsMathDfslog2_up (by omega), Nat.clog_le_iff_le_pow (by omega),
      quotient_le_iff h.min_pos]

/-- The block is as large as its class says, and not as large as any class behind. -/
theorem Accepted.le_getInsertIndex_iff (h : Accepted s) :
    i ≤ getInsertIndex s b ↔ i = 0 ∨ capacity s i ≤ b := by
  unfold getInsertIndex
  by_cases hb : b ≤ s.minSize
  · rw [if_pos hb, Nat.le_zero]
    refine ⟨.inl, fun hi => ?_⟩
    by_contra hne
    have := h.min_lt_capacity (i := i) (by omega)
    omega
  rw [if_neg hb]
  have hzero : i = 0 → capacity s i ≤ b := by
    rintro rfl
    simp only [capacity, Nat.mul_zero, Nat.pow_zero, Nat.mul_one, Nat.add_zero, ite_self]
    omega
  rw [or_iff_right_of_imp hzero]
  unfold capacity
  by_cases hl : s.levelType = levelTypeLinear
  · rw [if_pos hl, if_pos hl, Nat.le_div_iff_mul_le (h.factor_pos hl), Nat.mul_comm]
    omega
  · have hpow : 0 < b / s.minSize := Nat.div_pos (by omega) h.min_pos
    rw [if_neg hl, if_neg hl, shsMathDfslog2_down,
      Nat.le_log_iff_pow_le (by omega) (by omega), Nat.le_div_iff_mul_le h.min_pos, Nat.mul_comm]

theorem Accepted.le_capacity (h : Accepted s) : size ≤ capacity s (getAllocIndex s size) :=
  h.getAllocIndex_le_iff.1 (Nat.le_refl _)

theorem Accepted.getAllocIndex_mono (h : Accepted s) {size' : Nat} (hle : size ≤ size') :
    getAllocIndex s size ≤ getAllocIndex s size' :=
  h.getAllocIndex_le_iff.2 (hle.trans h.le_capacity)

theorem Accepted.getInsertIndex_mono (h : Accepted s) {b' : Nat} (hle : b ≤ b') :
    getInsertIndex s b ≤ getInsertIndex s b' :=
  h.le_getInsertIndex_iff.2 ((h.le_getInsertIndex_iff.1 (Nat.le_refl _)).imp_right (·.trans hle))

theorem Accepted.lt_capacity (h : Accepted s) : b < capacity s (getInsertIndex s b + 1) := by
  by_contra hle
  have := h.le_getInsertIndex_iff.2 (.inr (Nat.not_lt.1 hle))
  omega

/-- Every block from the class of the request on is large enough. -/
theorem Accepted.size_le (h : Accepted s) (hpos : 1 ≤ getAllocIndex s size)
    (hle : getAllocIndex s size ≤ getInsertIndex s b) : size ≤ b := by
  rcases h.le_getInsertIndex_iff.1 hle with hzero | hcap
  · omega
  · exact h.le_capacity.trans hcap

/-- A block that is large enough is at most one class before that of the request. -/
theorem Accepted.getAllocIndex_le (h : Accepted s) (hle : size ≤ b) :
    getAllocIndex s size ≤ getInsertIndex s b + 1 :=
  h.getAllocIndex_le_iff.2 (hle.trans h.lt_capacity.le)

theorem Accepted.getAllocIndex_eq_zero_iff (h : Accepted s) :
    getAllocIndex s size = 0 ↔ size ≤ s.minSize := by
  rw [← Nat.le_zero, h.getAllocIndex_le_iff]
  simp [capacity]

/-- How the two roundings go together. -/
structure ClassesAgree (s : Shm) : Prop where
  alloc_mono : ∀ size size', size ≤ size' → getAllocIndex s size ≤ getAllocIndex s size'
  insert_mono : ∀ b b', b ≤ b' → getInsertIndex s b ≤ getInsertIndex s b'
  large : ∀ size b, 1 ≤ getAllocIndex s size → getAllocIndex s size ≤ getInsertIndex s b →
    size ≤ b
  near : ∀ size b, size ≤ b → getAllocIndex s size ≤ getInsertIndex s b + 1
  floor : ∀ x, 0 < x → x < 2 ^ 64 →
    dfslog2Loop 64 x 0 = Nat.log 2 x ∧ shsMathDfslog2 x false = Nat.log 2 x
  ceil : ∀ x, 0 < x → x < 2 ^ 64 →
    dfslog2Loop 64 x (if x &&& (x - 1) ≠ 0 then 1 else 0) = Nat.clog 2 x ∧
      shsMathDfslog2 x true = Nat.clog 2 x

theorem Accepted.classesAgree (h : Accepted s) : ClassesAgree s where
  alloc_mono _ _ := h.getAllocIndex_mono
  insert_mono _ _ := h.getInsertIndex_mono
  large _ _ := h.size_le
  near _ _ := h.getAllocIndex_le
  floor x _ hx := by
    have hloop := shsMathDfslog2_eq_loop hx false
    rw [shsMathDfslog2_down] at hloop
    exact ⟨by simpa using hloop.symm, shsMathDfslog2_down x⟩
  ceil x hpos hx := by
    have hloop := shsMathDfslog2_eq_loop hx true
    rw [shsMathDfslog2_up hpos] at hloop
    exact ⟨by simpa using hloop.symm, shsMathDfslog2_up hpos⟩

end Classes

/-! ## Creation -/

/-- What a page size is. -/
structure IsPageSize (pageSize : Nat) : Prop where
  pow : ∃ k, pageSize = 2 ^ k
  large : 4096 ≤ pageSize
  small : pageSize < 2 ^ 64

theorem isPageSize_4096 : IsPageSize 4096 := ⟨⟨12, rfl⟩, by decide, by decide⟩

/-- The whole region has room for the `shs_shmem_t`, and is not at the end of the address space. -/
theorem IsPageSize.total {pageSize size : Nat} (h : IsPageSize pageSize)
    (hne : shsMathRoundUp size pageSize ≠ 0) :
    4096 ≤ shsMathRoundUp size pageSize ∧ shsMathRoundUp size pageSize + 4096 ≤ 2 ^ 64 := by
  obtain ⟨k, rfl⟩ := h.pow
  have hk : k ≤ 64 := ((Nat.pow_lt_pow_iff_right (by omega)).1 h.small).le
  have hdvd := dvd_shsMathRoundUp hk size
  have hle := Nat.le_of_dvd (by omega) hdvd
  have hlt := shsMathRoundUp_lt size (2 ^ k)
  have hrest := Nat.le_of_dvd (by omega) (Nat.dvd_sub (Nat.pow_dvd_pow 2 hk) hdvd)
  have hlarge := h.large
  omega

/-- The state of a heap with the one block `st`, which is in free list `i`. -/
structure First (st i : Nat) (s : Shm) : Prop where
  order : LinkedRing s.order .head [.entry st]
  listed : LinkedRing s.free (.head i) [.entry st]
  empty : ∀ j < s.freeLen, j ≠ i → LinkedRing s.free (.head j) []
  available : LinkedRing s.available .head [.entry i]
  top : s.maxAvailableIndex = i
  held : (s.storage st).freeListHead = some i

/-- The class that a block is filed under. -/
def klass (s : Shm) (size : Nat) : Nat := min (getInsertIndex s size) (s.freeLen - 1)

theorem klass_eq (s : Shm) (size : Nat) :
    (if getInsertIndex s size > s.freeLen - 1 then s.freeLen - 1 else getInsertIndex s size)
      = klass s size := by
  unfold klass
  split
  · omega
  · omega

theorem klass_lt {s : Shm} (h : 0 < s.freeLen) (size : Nat) : klass s size < s.freeLen := by
  unfold klass
  omega

/-- What no operation of the heap changes. -/
structure SameParams (s s' : Shm) : Prop where
  minSize : s'.minSize = s.minSize
  maxSize : s'.maxSize = s.maxSize
  factor : s'.factor = s.factor
  splitThreshold : s'.splitThreshold = s.splitThreshold
  levelType : s'.levelType = s.levelType
  freeLen : s'.freeLen = s.freeLen
  index : s'.index = s.index
  systemSize : s'.shmemStat.systemSize = s.shmemStat.systemSize
  totalSize : s'.shmemStat.totalSize = s.shmemStat.totalSize

theorem SameParams.trans {s t u : Shm} (h : SameParams s t) (h' : SameParams t u) :
    SameParams s u :=
  ⟨h'.1.trans h.1, h'.2.trans h.2, h'.3.trans h.3, h'.4.trans h.4, h'.5.trans h.5, h'.6.trans h.6,
    h'.7.trans h.7, h'.8.trans h.8, h'.9.trans h.9⟩

/-- Lists, blocks and counters are no parameters. -/
theorem sameParams_update (s : Shm) (top used reqs count : Nat) (storage : Nat → Storage)
    (order : Links OrderCell) (free : Links FreeCell) (available : Links AvailableCell) :
    SameParams s { s with
      maxAvailableIndex := top, storage := storage, order := order, free := free
      available := available
      shmemStat := { s.shmemStat with usedSize := used, reqsSize := reqs, stCount := count } } :=
  ⟨rfl, rfl, rfl, rfl, rfl, rfl, rfl, rfl, rfl⟩

theorem SameParams.klass {s s' : Shm} (h : SameParams s s') (size : Nat) :
    klass s' size = klass s size := by
  simp only [Shmem.klass, getInsertIndex, h.minSize, h.factor, h.levelType, h.freeLen]

theorem firstBlock_spec (st : Nat) {s : Shm} (hlen : 0 < s.freeLen)
    (hfree : ∀ i < s.freeLen, LinkedRing s.free (.head i) []) :
    ∃ s', firstBlock st s = some s' ∧ First st (klass s' (s'.storage st).size) s' ∧
      SameParams s s' ∧ s'.shmemStat = s.shmemStat ∧
      (s'.storage st).alloc = (s.storage st).alloc ∧ (s'.storage st).size = (s.storage st).size := by
  have hclass : (if getInsertIndex s (s.storage st).size ≥ s.freeLen then s.freeLen - 1
      else getInsertIndex s (s.storage st).size) = klass s (s.storage st).size := by
    unfold klass
    split
    · omega
    · omega
  have hi := klass_lt hlen (s.storage st).size
  generalize hk : klass s (s.storage st).size = i at hclass hi
  have ho := queueInsertHead_ring (x := .entry st) (ring_queueInit .head s.order) (by simp)
  have hf := queueInsertHead_ring (x := .entry st) (hfree i hi) (by simp)
  have ha := queueInsertHead_ring (x := .entry i) (ring_queueInit .head s.available) (by simp)
  let s' : Shm := { s.setStorage st { s.storage st with freeListHead := some i } with
    order := (queueInit .head s.order).between .head (.entry st) (LinkedRing.after .head [])
    free := s.free.between (.head i) (.entry st) (LinkedRing.after (.head i) [])
    available :=
      (queueInit .head s.available).between .head (.entry i) (LinkedRing.after .head [])
    maxAvailableIndex := i }
  have hsame : SameParams s s' := ⟨rfl, rfl, rfl, rfl, rfl, rfl, rfl, rfl, rfl⟩
  have hst : s'.storage st = { s.storage st with freeListHead := some i } :=
    Function.update_self ..
  refine ⟨s', ?_, ?_, hsame, rfl, by rw [hst], by rw [hst]⟩
  · simp only [firstBlock, ho.1, hclass, Option.bind_eq_bind, Option.bind_some, Shm.setStorage]
    rw [hf.1, ha.1]
    rfl
  · rw [hst, hsame.klass, hk]
    refine ⟨ho.2, hf.2, fun j hj hji => ?_, ha.2, rfl, by rw [hst]⟩
    refine (hfree j hj).frame_between ?_ (by simp) ?_
    · simpa using Ne.symm hji
    · simpa using Ne.symm hji

/-- A heap as `shs_shmem_create` makes it. -/
structure Made (s : Shm) : Prop where
  system : s.shmemStat.systemSize = shsShmemSize + freeNodeSize * s.freeLen
  room : s.shmemStat.systemSize + storageSize + s.maxSize ≤ s.shmemStat.totalSize
  total_lt : s.shmemStat.totalSize < 2 ^ 64
  threshold : s.splitThreshold = s.minSize
  index : s.index = fun i => i % 2 ^ 32
  counts : s.shmemStat.usedSize = 0 ∧ s.shmemStat.reqsSize = 0 ∧ s.shmemStat.stCount = 1
  unused : (s.storage s.shmemStat.systemSize).alloc = false
  size : (s.storage s.shmemStat.systemSize).size =
    s.shmemStat.totalSize - s.shmemStat.systemSize - storageSize
  first : First s.shmemStat.systemSize
    (klass s (s.storage s.shmemStat.systemSize).size) s

/-- The free array does not fit, but its size wraps, so that it passes the test. -/
def Overruns (freeLen totalSize : Nat) : Prop :=
  2 ^ 64 ≤ shsShmemSize + freeNodeSize * freeLen + storageSize ∧
    (shsShmemSize + freeNodeSize * freeLen + storageSize) % 2 ^ 64 < totalSize

section Create

variable {mapped : Bool} {totalSize minSize maxSize factor freeLen : Nat} {levelType : Int}

theorem ring_initFree (s : Shm) : ∀ i < s.freeLen, LinkedRing (initFree s).free (.head i) [] := by
  intro i hi
  exact LinkedRing.self (by simp [initFree, hi]) (by simp [initFree, hi])

/-- What `createHeap` does. -/
theorem createHeap_cases (mapped : Bool) (minSize maxSize factor : Nat) (levelType : Int)
    (hlow : 4096 ≤ totalSize) (hhigh : totalSize + 4096 ≤ 2 ^ 64)
    (hlen : 0 < freeLen) :
    (createHeap mapped totalSize minSize maxSize levelType factor freeLen = .fault ∧
        mapped = true ∧ Overruns freeLen totalSize) ∨
      (¬(mapped = true ∧ Overruns freeLen totalSize) ∧
        ((∃ e, createHeap mapped totalSize minSize maxSize levelType factor freeLen = .error e) ∨
          ∃ s, createHeap mapped totalSize minSize maxSize levelType factor freeLen = .ok s ∧
            Made s ∧ s.minSize = minSize ∧ s.maxSize = maxSize ∧ s.levelType = levelType ∧
            s.factor = factor ∧ s.freeLen = freeLen)) := by
  unfold createHeap
  by_cases hmapped : mapped = false
  · rw [if_pos hmapped]
    exact .inr ⟨by simp [hmapped], .inl ⟨_, rfl⟩⟩
  rw [if_neg hmapped, if_neg (by simp only [shsShmemSize]; omega)]
  have hsum : sizeT (sizeT (sizeT (freeNodeSize * freeLen) + shsShmemSize) + storageSize)
      = (shsShmemSize + freeNodeSize * freeLen + storageSize) % 2 ^ 64 := by
    simp only [sizeT]
    omega
  simp only [hsum]
  by_cases htest : (shsShmemSize + freeNodeSize * freeLen + storageSize) % 2 ^ 64 ≥ totalSize
  · rw [if_pos htest]
    exact .inr ⟨fun h => absurd h.2.2 (by omega), .inl ⟨_, rfl⟩⟩
  rw [if_neg htest]
  by_cases hwrap : 2 ^ 64 ≤ shsShmemSize + freeNodeSize * freeLen + storageSize
  · have hfar : shsShmemSize + freeNodeSize * freeLen > totalSize := by
      simp only [storageSize] at hwrap
      omega
    rw [if_pos hfar]
    exact .inl ⟨rfl, by simpa using hmapped, hwrap, by omega⟩
  have hroom : shsShmemSize + freeNodeSize * freeLen + storageSize < totalSize := by
    rw [Nat.mod_eq_of_lt (by omega)] at htest
    omega
  have hsystem : shsMathAlignment (sizeT (shsShmemSize + sizeT (freeNodeSize * freeLen)))
      = shsShmemSize + freeNodeSize * freeLen := by
    have hbytes : sizeT (shsShmemSize + sizeT (freeNodeSize * freeLen))
        = shsShmemSize + freeNodeSize * freeLen := by
      simp only [sizeT, shsShmemSize, freeNodeSize] at hroom ⊢
      omega
    rw [hbytes, shsMathAlignment, if_neg]
    simp only [shsShmemSize, freeNodeSize, shsMathAlignSize]
    omega
  rw [if_neg (by omega), hsystem, if_neg (by omega)]
  have hnot : ¬(mapped = true ∧ Overruns freeLen totalSize) := fun h => absurd h.2.1 hwrap
  have hsize : subSizeT (subSizeT totalSize (shsShmemSize + freeNodeSize * freeLen)) storageSize
      = totalSize - (shsShmemSize + freeNodeSize * freeLen) - storageSize := by
    have hfront : subSizeT totalSize (shsShmemSize + freeNodeSize * freeLen)
        = totalSize - (shsShmemSize + freeNodeSize * freeLen) :=
      subSizeT_of_le (by omega) (by omega)
    rw [hfront, subSizeT_of_le (by omega) (by omega)]
  rw [hsize]
  by_cases hmax : totalSize - (shsShmemSize + freeNodeSize * freeLen) - storageSize < maxSize
  · rw [if_pos hmax]
    exact .inr ⟨hnot, .inl ⟨_, rfl⟩⟩
  rw [if_neg hmax]
  refine .inr ⟨hnot, .inr ?_⟩
  generalize hs : Shm.setStorage _ _ _ = s
  obtain ⟨s', hfirst, hshape, hsame, hstat, halloc, hst⟩ :=
    firstBlock_spec (shsShmemSize + freeNodeSize * freeLen) (s := s)
      (by rw [← hs]; exact hlen) (by rw [← hs]; exact ring_initFree _)
  rw [hfirst]
  refine ⟨s', rfl, ?_, ?_⟩
  swap
  · subst hs
    exact ⟨hsame.minSize, hsame.maxSize, hsame.levelType, hsame.factor, hsame.freeLen⟩
  have hsys : s'.shmemStat.systemSize = shsShmemSize + freeNodeSize * freeLen := by
    rw [hstat, ← hs]
    rfl
  have htot : s'.shmemStat.totalSize = totalSize := by
    rw [hstat, ← hs]
    rfl
  refine ⟨?_, ?_, ?_, ?_, ?_, ?_, ?_, ?_, ?_⟩
  · rw [hsys, hsame.freeLen, ← hs]
    rfl
  · rw [hsys, htot, hsame.maxSize, ← hs]
    show shsShmemSize + freeNodeSize * freeLen + storageSize + maxSize ≤ totalSize
    omega
  · omega
  · rw [hsame.splitThreshold, hsame.minSize, ← hs]
    rfl
  · rw [hsame.index, ← hs]
    rfl
  · rw [hstat, ← hs]
    exact ⟨rfl, rfl, rfl⟩
  · rw [hsys, halloc, ← hs]
    simp [Shm.setStorage]
  · rw [hsys, htot, hst, ← hs]
    simp [Shm.setStorage]
  · rw [hsys]
    exact hshape

/-- The number of classes that a linear heap gets, from its aligned parameters. -/
def linearLen (minSize maxSize factor : Nat) : Nat :=
  (maxSize - minSize + (factor - 1)) / factor + 1

/-- The arguments pass the tests that come before the classes are counted. -/
def Sizes (size minSize maxSize : Nat) : Prop :=
  size ≠ 0 ∧ 0 < shsMathAlignment minSize ∧ shsMathAlignment minSize < shsMathAlignment maxSize

theorem ceil_quotient {a f : Nat} (hf : 0 < f) :
    a / f + (if a % f ≠ 0 then 1 else 0) = (a + (f - 1)) / f := by
  refine Nat.le_antisymm ((quotient_le_iff hf).2 ?_) ?_
  · have := Nat.lt_mul_div_succ (a + (f - 1)) hf
    rw [Nat.mul_add] at this
    omega
  · rw [Nat.div_le_iff_le_mul_add_pred hf]
    have := (quotient_le_iff hf).1 (Nat.le_refl (a / f + (if a % f ≠ 0 then 1 else 0)))
    omega

/-- The class count of either level type. -/
theorem createFreeLen_cases (levelType : Int) (factor : Nat) (hmin : 0 < minSize)
    (hlt : minSize < maxSize) (hmax : maxSize < 2 ^ 64) :
    (levelType = levelTypeLinear ∧ shsMathAlignment factor = 0 ∧
        createFreeLen levelType factor minSize maxSize = none) ∨
      (levelType = levelTypeLinear ∧ 0 < shsMathAlignment factor ∧
        createFreeLen levelType factor minSize maxSize = some (.ok (shsMathAlignment factor,
          linearLen minSize maxSize (shsMathAlignment factor) - 1)) ∧
        2 ≤ linearLen minSize maxSize (shsMathAlignment factor)) ∨
      (levelType ≠ levelTypeLinear ∧ ∃ n, 0 < n ∧ n ≤ 64 ∧
        createFreeLen levelType factor minSize maxSize = some (.ok (shmemExpFactor, n))) ∨
      (levelType ≠ levelTypeLinear ∧ ∃ e,
        createFreeLen levelType factor minSize maxSize = some (.error e)) := by
  unfold createFreeLen
  by_cases hl : levelType = levelTypeLinear
  · simp only [if_pos hl]
    by_cases hf : shsMathAlignment factor = 0
    · exact .inl ⟨hl, hf, if_pos hf⟩
    · have hpos : 0 < shsMathAlignment factor := by omega
      have hone : 1 ≤
          (maxSize - minSize + (shsMathAlignment factor - 1)) / shsMathAlignment factor :=
        (Nat.le_div_iff_mul_le hpos).2 (by omega)
      rw [if_neg hf, ceil_quotient hpos]
      refine .inr (.inl ⟨hl, hpos, rfl, ?_⟩)
      unfold linearLen
      omega
  rw [if_neg hl]
  by_cases he : levelType = levelTypeExp
  · rw [if_pos he]
    have hle := quotient_le_iff (a := maxSize) (i := 1) hmin
    have hall : maxSize / minSize + (if maxSize % minSize ≠ 0 then 1 else 0) ≤ maxSize :=
      (quotient_le_iff hmin).2 (Nat.le_mul_of_pos_left _ hmin)
    generalize maxSize / minSize + (if maxSize % minSize ≠ 0 then 1 else 0) = power at hle hall
    refine .inr (.inr (.inl ⟨hl, _, ?_, ?_, rfl⟩))
    · rw [shsMathDfslog2_up (by omega)]
      exact Nat.clog_pos (by omega) (by omega)
    · rw [shsMathDfslog2_up (by omega)]
      exact Nat.clog_le_of_le_pow (by omega)
  · rw [if_neg he]
    exact .inr (.inr (.inr ⟨hl, _, rfl⟩))

end Create

section Sound

variable {pageSize size minSize maxSize factor : Nat} {mapped : Bool} {levelType : Int} {s : Shm}

/-- A linear heap whose aligned factor is 0, or whose free array is too large for a `size_t`. -/
def Unsafe (pageSize : Nat) (mapped : Bool) (size minSize maxSize : Nat) (levelType : Int)
    (factor : Nat) : Prop :=
  Sizes size minSize maxSize ∧ levelType = levelTypeLinear ∧
    (shsMathAlignment factor = 0 ∨
      mapped = true ∧
        Overruns (linearLen (shsMathAlignment minSize) (shsMathAlignment maxSize)
          (shsMathAlignment factor)) (shsMathRoundUp size pageSize))

theorem not_overruns_zero (freeLen : Nat) : ¬Overruns freeLen 0 := fun h => Nat.not_lt_zero _ h.2

theorem not_overruns_small {freeLen totalSize : Nat} (h : freeLen ≤ 65) :
    ¬Overruns freeLen totalSize := by
  rintro ⟨hwrap, -⟩
  simp only [shsShmemSize, freeNodeSize, storageSize] at hwrap
  omega

theorem createTotal_cases (hpage : IsPageSize pageSize) {m M f freeLen : Nat} (hm : 0 < m)
    (hlt : m < M) (hf : levelType = levelTypeLinear → 0 < f) (hlen : 2 ≤ freeLen)
    {r : Created} (hr : r = if shsMathRoundUp size pageSize = 0 then .error .createTotalsize
      else createHeap mapped (shsMathRoundUp size pageSize) m M levelType f freeLen) :
    (r = .fault ∧ mapped = true ∧ Overruns freeLen (shsMathRoundUp size pageSize)) ∨
      (¬(mapped = true ∧ Overruns freeLen (shsMathRoundUp size pageSize)) ∧
        ((∃ e, r = .error e) ∨ ∃ s, r = .ok s ∧ Made s ∧ Accepted s)) := by
  subst hr
  by_cases htotal : shsMathRoundUp size pageSize = 0
  · rw [if_pos htotal, htotal]
    exact .inr ⟨fun h => not_overruns_zero _ h.2, .inl ⟨_, rfl⟩⟩
  obtain ⟨hlow, hhigh⟩ := hpage.total htotal
  rw [if_neg htotal]
  rcases createHeap_cases mapped m M f levelType hlow hhigh (show 0 < freeLen by omega) with
    hfault | ⟨hnot, herr | ⟨s, hs, hmade, hmin, hmax, hlevel, hfactor, hfree⟩⟩
  · exact .inl hfault
  · exact .inr ⟨hnot, .inl herr⟩
  · refine .inr ⟨hnot, .inr ⟨s, hs, hmade, ?_, ?_, ?_, ?_⟩⟩
    · rwa [hmin]
    · rwa [hmin, hmax]
    · rwa [hlevel, hfactor]
    · rwa [hfree]

/-- What `shs_shmem_create` does with any arguments. -/
theorem shsShmemCreate_cases (hpage : IsPageSize pageSize) (mapped : Bool)
    (size minSize factor : Nat) (levelType : Int) (hmax : maxSize < 2 ^ 64) :
    (shsShmemCreate pageSize mapped size minSize maxSize levelType factor = .fault ∧
        Unsafe pageSize mapped size minSize maxSize levelType factor) ∨
      (¬Unsafe pageSize mapped size minSize maxSize levelType factor ∧
        ((∃ e, shsShmemCreate pageSize mapped size minSize maxSize levelType factor = .error e) ∨
          ∃ s, shsShmemCreate pageSize mapped size minSize maxSize levelType factor = .ok s ∧
            Made s ∧ Accepted s)) := by
  unfold shsShmemCreate
  by_cases hzero : size = 0
  · rw [if_pos hzero]
    exact .inr ⟨fun h => h.1.1 hzero, .inl ⟨_, rfl⟩⟩
  rw [if_neg hzero]
  have hmax' := shsMathAlignment_lt hmax
  have hsizes : Sizes size minSize maxSize ↔
      0 < shsMathAlignment minSize ∧ shsMathAlignment minSize < shsMathAlignment maxSize :=
    and_iff_right hzero
  unfold Unsafe
  rw [hsizes]
  generalize shsMathAlignment minSize = m at *
  generalize shsMathAlignment maxSize = M at *
  by_cases hbad : m = 0 ∨ m ≥ M
  · rw [if_pos hbad]
    exact .inr ⟨fun h => by omega, .inl ⟨_, rfl⟩⟩
  rw [if_neg hbad]
  have hm : 0 < m ∧ m < M := by omega
  rcases createFreeLen_cases levelType factor hm.1 hm.2 hmax' with
    ⟨hl, hf, heq⟩ | ⟨hl, hf, heq, hlen⟩ | ⟨hl, n, hn, hsmall, heq⟩ | ⟨hl, e, heq⟩
  · rw [heq]
    exact .inl ⟨rfl, hm, hl, .inl hf⟩
  · simp only [heq]
    rw [if_neg (by omega), Nat.sub_add_cancel (by omega)]
    rcases createTotal_cases hpage hm.1 hm.2 (fun _ => hf) hlen rfl with
      ⟨hfault, hover⟩ | ⟨hnot, hres⟩
    · exact .inl ⟨hfault, hm, hl, .inr hover⟩
    · refine .inr ⟨?_, hres⟩
      rintro ⟨-, -, hzero | hover⟩
      · omega
      · exact hnot hover
  · simp only [heq]
    rw [if_neg (by omega)]
    rcases createTotal_cases hpage hm.1 hm.2 (fun h => absurd h hl)
        (show 2 ≤ n + 1 by omega) rfl with
      ⟨-, -, hover⟩ | ⟨-, hres⟩
    · exact absurd hover (not_overruns_small (by omega))
    · exact .inr ⟨fun h => hl h.2.1, hres⟩
  · simp only [heq]
    exact .inr ⟨fun h => hl h.2.1, .inl ⟨e, rfl⟩⟩

/-- An error, or a heap whose parts lie one behind the other in the region. -/
def Created.Sound : Created → Prop
  | .error _ => True
  | .fault => False
  | .ok s => shsShmemSize + freeNodeSize * s.freeLen ≤ s.shmemStat.systemSize ∧
      s.shmemStat.systemSize + storageSize ≤ s.shmemStat.totalSize

/-- When `shs_shmem_create` neither divides by zero nor writes outside of the region. -/
theorem shsShmemCreate_sound_iff (hpage : IsPageSize pageSize) (mapped : Bool)
    (size minSize factor : Nat) (levelType : Int) (hmax : maxSize < 2 ^ 64) :
    (shsShmemCreate pageSize mapped size minSize maxSize levelType factor).Sound ↔
      ¬Unsafe pageSize mapped size minSize maxSize levelType factor := by
  rcases shsShmemCreate_cases hpage mapped size minSize factor levelType hmax with
    ⟨hfault, hbad⟩ | ⟨hgood, ⟨e, he⟩ | ⟨s, hs, hmade, -⟩⟩
  · rw [hfault]
    exact iff_of_false id (not_not.2 hbad)
  · rw [he]
    exact iff_of_true trivial hgood
  · rw [hs]
    refine iff_of_true ⟨hmade.system.ge, ?_⟩ hgood
    have hroom := hmade.room
    omega

/-- A page, and a heap for it. -/
theorem shsShmemCreate_sound_iff_page :
    IsPageSize 4096 ∧
      ((shsShmemCreate 4096 true 65536 8 1024 levelTypeExp 0).Sound ↔
        ¬Unsafe 4096 true 65536 8 1024 levelTypeExp 0) :=
  ⟨isPageSize_4096, shsShmemCreate_sound_iff isPageSize_4096 true 65536 8 0 _ (by decide)⟩

/-- A linear heap with the factor 0. -/
theorem shsShmemCreate_divides_by_zero :
    ¬(shsShmemCreate 4096 true 65536 8 1024 levelTypeLinear 0).Sound := by
  have hfault : shsShmemCreate 4096 true 65536 8 1024 levelTypeLinear 0 = .fault := rfl
  rw [hfault]
  exact id

/-- The classes of every heap that `shs_shmem_create` makes. -/
theorem classes_agree (hpage : IsPageSize pageSize) (hmax : maxSize < 2 ^ 64)
    (hs : shsShmemCreate pageSize mapped size minSize maxSize levelType factor = .ok s) :
    ClassesAgree s := by
  rcases shsShmemCreate_cases hpage mapped size minSize factor levelType hmax with
    ⟨hfault, -⟩ | ⟨-, ⟨e, he⟩ | ⟨s', hs', -, haccepted⟩⟩
  · rw [hfault] at hs
    cases hs
  · rw [he] at hs
    cases hs
  · rw [hs'] at hs
    cases hs
    exact haccepted.classesAgree

theorem classes_agree_page :
    ∃ s, shsShmemCreate 4096 true 65536 8 1024 levelTypeExp 0 = .ok s ∧ ClassesAgree s := by
  have hmade : ∃ s, shsShmemCreate 4096 true 65536 8 1024 levelTypeExp 0 = .ok s := ⟨_, rfl⟩
  obtain ⟨s, hs⟩ := hmade
  exact ⟨s, hs, classes_agree isPageSize_4096 (by decide) hs⟩

end Sound

end Shmem
end Shs
