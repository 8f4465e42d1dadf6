import Shs.Core.SlabRuns

/-!
# Core.SlabClsid

When `shs_slabs_clsid` chooses the least class with room for a request. The binary search of a power
manager leaves out both ends, and the formula of a linear manager compares sizes before their
alignment.
-/

namespace Shs
namespace Slabs

/-- `slab_mgr->slabclass[i].size`. -/
def SlabManager.classSize (m : SlabManager) (i : Nat) : Nat := (m.slabclass i).size

/-- The size of a request with its header, aligned; unlike a `size_t` it does not wrap. -/
def fullSize (n : Nat) : Nat :=
  (n + chunkLinkSize + (shsMathAlignSize - 1)) / shsMathAlignSize * shsMathAlignSize

/-- Index `i` is the first one whose size is at least `a`. -/
structure FirstFit (size : Nat → Nat) (a i : Nat) : Prop where
  fits : a ≤ size i
  below : ∀ j < i, size j < a

/-- The least class with room for a request of `n` bytes, and the invalid id if no class has it. -/
def LeastClass (m : SlabManager) (n : Nat) : Option Nat → Prop
  | some i => i < m.freeLen ∧ FirstFit m.classSize (fullSize n) i
  | none => ∀ i < m.freeLen, m.classSize i < fullSize n

/-- What a request needs for the choice of the least class. -/
structure Classifiable (m : SlabManager) (n : Nat) : Prop where
  pos : 0 < n
  noWrap : ¬Wraps n
  /-- A request that fills or exceeds the last class is larger than the other ones. -/
  last : m.classSize (m.freeLen - 1) < fullSize n ∨
      m.classSize 0 < fullSize n ∧ m.classSize (m.freeLen - 1) = fullSize n →
    ∀ i < m.freeLen - 1, m.classSize i < fullSize n
  /-- There is a class between the two ends, unless the request is not between them. -/
  power : m.uptype = slabUptypePower → m.freeLen = 2 →
    ¬(m.classSize 0 < fullSize n ∧ fullSize n < m.classSize 1)
  /-- The request does not fill a class that it exceeds before the alignment. -/
  linear : m.uptype = slabUptypeLinear → ∀ i, 0 < i → i < m.freeLen - 1 →
    m.minSize + m.factor * i < n → m.classSize i ≠ fullSize n

/-! ## Sizes -/

section Sizes

variable {n : Nat}

theorem fullSize_eq (n : Nat) : fullSize n = (n + 39) / 8 * 8 := rfl

theorem allSize_eq_fullSize (h : ¬Wraps n) : allSize n = fullSize n := by
  have hspec := allSize_spec h
  rw [fullSize_eq]
  omega

/-- The alignment wraps to 0. -/
theorem allSize_of_wraps (h : Wraps n) (hn : n + chunkLinkSize < 2 ^ 64) : allSize n = 0 := by
  unfold Wraps at h
  unfold chunkLinkSize at hn
  rw [allSize, chunkLinkSize, sizeT_of_lt hn]
  unfold shsMathAlignment shsMathAlignSize sizeT
  split <;> omega

theorem allSize_lt (n : Nat) : allSize n < 2 ^ 64 := shsMathAlignment_lt (sizeT_lt _)

end Sizes

/-! ## The binary search -/

section Search

variable {size : Nat → Nat} {a low high maxId k : Nat}

/-- Up to index `k` the sizes do not decrease, and they grow once they are larger than the first. -/
structure Rising (size : Nat → Nat) (k : Nat) : Prop where
  mono : ∀ {i j}, i ≤ j → j ≤ k → size i ≤ size j
  grow : ∀ {i j}, size 0 < size i → i < j → j ≤ k → size i < size j

theorem Rising.below (h : Rising size k) {i j : Nat} (hlt : size i < a) (hi : i ≤ k) (hj : j ≤ i) :
    size j < a :=
  Nat.lt_of_le_of_lt (h.mono hj hi) hlt

/-- The part of the classes that the loop still searches is never empty. -/
structure Open (size : Nat → Nat) (a maxId low high : Nat) : Prop where
  low_pos : 1 ≤ low
  le : low ≤ high
  high_lt : high < maxId
  below : size (low - 1) < a
  above : a < size high ∨ high + 1 = maxId ∧ a < size maxId

theorem Open.left (h : Open size a maxId low high) {mid : Nat} (hlow : low ≤ mid)
    (hhigh : mid ≤ high) (hmid : a < size (mid - 1)) : Open size a maxId low (mid - 1) := by
  have hpos := h.low_pos
  have hlt := h.high_lt
  have hne : mid ≠ low := by
    rintro rfl
    exact Nat.lt_asymm hmid h.below
  exact ⟨hpos, by omega, by omega, h.below, .inl hmid⟩

theorem Open.right (h : Open size a maxId low high) {mid : Nat} (hhigh : mid ≤ high)
    (hmid : size mid < a) (hnext : size (mid + 1) < a) :
    Open size a maxId (mid + 1) high := by
  have hne : mid ≠ high := by
    rintro rfl
    obtain habove | ⟨hmax, habove⟩ := h.above
    · exact Nat.lt_asymm hmid habove
    · rw [← hmax] at habove
      exact Nat.lt_asymm hnext habove
  exact ⟨by omega, by omega, h.high_lt, hmid, h.above⟩

/-- The last index is only reached when the search has excluded the two before it. -/
theorem Open.next (h : Open size a maxId low high) (hrise : Rising size (maxId - 2)) {mid : Nat}
    (hlow : mid = (low + high) / 2) (hmid : size mid < a) :
    ∀ j < mid + 1, size j < a := by
  have hle := h.le
  have hlt := h.high_lt
  intro j hj
  by_cases hin : mid ≤ maxId - 2
  · exact hrise.below hmid hin (by omega)
  · obtain rfl | hj := Nat.eq_or_lt_of_le (Nat.le_of_lt_succ hj)
    · exact hmid
    · have hend : low - 1 = maxId - 2 := by omega
      have hbelow := h.below
      rw [hend] at hbelow
      exact hrise.below hbelow (Nat.le_refl _) (by omega)

/-- The search finds the first index whose size is at least `a`. -/
theorem clsidSearch_firstFit {fuel : Nat} (hrise : Rising size (maxId - 2)) (hfirst : size 0 < a)
    (h : Open size a maxId low high) (hfuel : high < low + fuel) :
    ∃ i, clsidSearch size a fuel low high = some i ∧ i ≤ maxId ∧ FirstFit size a i := by
  induction fuel generalizing low high with
  | zero =>
    have hle := h.le
    omega
  | succ fuel ih =>
    have hpos := h.low_pos
    have hle := h.le
    have hlt := h.high_lt
    rw [clsidSearch, if_pos hle]
    generalize hmid : (low + high) / 2 = mid
    have hlow : low ≤ mid := by omega
    have hhigh : mid ≤ high := by omega
    by_cases hfits : a ≤ size mid
    · simp only [if_pos hfits]
      by_cases hgt : a > size (mid - 1)
      · refine ⟨mid, if_pos hgt, by omega, hfits, fun j hj => ?_⟩
        exact hrise.below hgt (by omega) (by omega)
      rw [if_neg hgt]
      by_cases heq : a = size (mid - 1)
      · -- a class before it of the same size would be one of the first size
        refine ⟨mid - 1, if_pos heq, by omega, heq.le, fun j hj => ?_⟩
        by_contra hge
        have hgrow := hrise.grow (Nat.lt_of_lt_of_le hfirst (Nat.le_of_not_lt hge)) hj (by omega)
        omega
      · rw [if_neg heq]
        exact ih (h.left hlow hhigh (by omega)) (by omega)
    · have hbelow : size mid < a := Nat.lt_of_not_le hfits
      simp only [if_neg hfits]
      by_cases hnext : a ≤ size (mid + 1)
      · exact ⟨mid + 1, if_pos hnext, by omega, hnext, h.next hrise hmid.symm hbelow⟩
      · rw [if_neg hnext]
        exact ih (h.right hhigh hbelow (Nat.lt_of_not_le hnext)) (by omega)

end Search

/-! ## The sizes of a power manager -/

section Power

variable {allocator : Allocator} {uptype : Int} {factor itemSizeMin itemSizeMax n : Nat}
variable {h h' : Heap} {m : SlabManager}

theorem createSize_power {minSize : Nat} (hmin : minSize < 2 ^ 64) (i : Nat) :
    createSize slabUptypePower slabPowerFactor minSize i = minSize * 2 ^ i % 2 ^ 64 := by
  induction i with
  | zero => rw [createSize, Nat.pow_zero, Nat.mul_one, Nat.mod_eq_of_lt hmin]
  | succ i ih =>
    rw [createSize, if_pos rfl, ih, sizeT, slabPowerFactor, Nat.mod_mul_mod, Nat.mul_assoc,
      ← Nat.pow_succ]

/-- Before its last class, a power manager stays below the largest size. -/
theorem createFreeLen_power (hmin : 0 < itemSizeMin) (htwice : 2 * itemSizeMin ≤ itemSizeMax)
    (hlen : createFreeLen slabUptypePower factor itemSizeMin itemSizeMax = .ok n) :
    1 ≤ n ∧ itemSizeMin * 2 ^ (n - 1) < itemSizeMax := by
  rw [createFreeLen, if_pos rfl] at hlen
  by_cases hf : factor = slabPowerFactor
  · rw [if_neg (by simpa using hf), Except.ok.injEq] at hlen
    generalize hp : itemSizeMax / itemSizeMin +
      (if itemSizeMax % itemSizeMin ≠ 0 then 1 else 0) = power at hlen
    have htwo : 2 ≤ itemSizeMax / itemSizeMin := (Nat.le_div_iff_mul_le hmin).2 htwice
    have hdiv := Nat.div_add_mod itemSizeMax itemSizeMin
    have hpower : 2 ≤ power ∧ itemSizeMin * (power - 1) < itemSizeMax := by
      by_cases hrest : itemSizeMax % itemSizeMin ≠ 0
      · rw [if_pos hrest] at hp
        rw [← hp, Nat.add_sub_cancel]
        omega
      · rw [if_neg hrest] at hp
        rw [← hp, Nat.add_zero, Nat.mul_sub_one]
        omega
    obtain ⟨hge, hlt⟩ := hpower
    rw [shsMathDfslog2_up (by omega)] at hlen
    subst hlen
    have hpow : 2 ^ (Nat.clog 2 power - 1) < power := Nat.pow_pred_clog_lt_self (by decide) hge
    have hle : itemSizeMin * 2 ^ (Nat.clog 2 power - 1) ≤ itemSizeMin * (power - 1) :=
      Nat.mul_le_mul_left _ (by omega)
    exact ⟨Nat.clog_pos (by decide) hge, by omega⟩
  · rw [if_pos hf] at hlen
    cases hlen

theorem power_of_create
    (hm : shsSlabsCreate allocator uptype factor itemSizeMin itemSizeMax h = (.ok m, h'))
    (hp : m.uptype = slabUptypePower) :
    2 ≤ m.freeLen ∧ m.minSize * 2 ^ (m.freeLen - 2) < itemSizeMax := by
  unfold shsSlabsCreate at hm
  by_cases hparam : itemSizeMin = 0 ∨ itemSizeMax = 0 ∨ itemSizeMax / itemSizeMin < 2
  · rw [if_pos hparam] at hm
    cases hm
  rw [if_neg hparam] at hm
  have hpos : 0 < itemSizeMin := by omega
  have htwice : 2 * itemSizeMin ≤ itemSizeMax := (Nat.le_div_iff_mul_le hpos).1 (by omega)
  split at hm
  · cases hm
  rename_i n hlen
  split at hm
  · cases hm
  simp only at hm
  split at hm
  · cases hm
  · cases hm
    simp only at hp
    subst hp
    obtain ⟨hone, hlt⟩ := createFreeLen_power hpos htwice hlen
    exact ⟨by simpa using hone, hlt⟩

/-- The size of a class before the last two does not wrap. -/
theorem Made.power_size (h : Made m itemSizeMax) (hp : m.uptype = slabUptypePower)
    (hlen : m.minSize * 2 ^ (m.freeLen - 2) < itemSizeMax) {i : Nat} (hi : i ≤ m.freeLen - 1 - 2) :
    ¬Wraps (m.minSize * 2 ^ i) ∧ m.classSize i = allSize (m.minSize * 2 ^ i) := by
  have htwice := h.twice
  have hmax := h.max_lt
  have hhalf : 2 * (m.minSize * 2 ^ i) ≤ itemSizeMax := by
    obtain rfl | hpos := Nat.eq_zero_or_pos i
    · rwa [Nat.pow_zero, Nat.mul_one]
    · have hle : m.minSize * 2 ^ (i + 1) ≤ m.minSize * 2 ^ (m.freeLen - 2) :=
        Nat.mul_le_mul_left _ (Nat.pow_le_pow_right (by decide) (by omega))
      rw [Nat.pow_succ, ← Nat.mul_assoc] at hle
      omega
  have hf : m.factor = slabPowerFactor := by
    obtain ⟨-, hf⟩ | ⟨hl, -⟩ := h.kinds
    · exact hf
    · rw [hp] at hl
      exact absurd hl (by decide)
  refine ⟨by unfold Wraps; omega, ?_⟩
  rw [SlabManager.classSize, h.size, hp, hf, createSize_power (by omega),
    Nat.mod_eq_of_lt (by omega)]

theorem Made.rising (h : Made m itemSizeMax) (hp : m.uptype = slabUptypePower)
    (hlen : m.minSize * 2 ^ (m.freeLen - 2) < itemSizeMax) :
    Rising m.classSize (m.freeLen - 1 - 2) := by
  constructor
  · intro i j hij hj
    obtain ⟨-, hi⟩ := h.power_size hp hlen (Nat.le_trans hij hj)
    obtain ⟨hno, hj⟩ := h.power_size hp hlen hj
    rw [hi, hj]
    exact allSize_mono hno (Nat.mul_le_mul_left _ (Nat.pow_le_pow_right (by decide) hij))
  · intro i j hlt hij hj
    have hfirst : 40 ≤ m.classSize 0 := h.first.1
    obtain ⟨hnoi, hi⟩ := h.power_size hp hlen (Nat.le_trans hij.le hj)
    obtain ⟨hnoj, hj⟩ := h.power_size hp hlen hj
    have hdouble : m.minSize * 2 ^ i * 2 ≤ m.minSize * 2 ^ j := by
      rw [Nat.mul_assoc, ← Nat.pow_succ]
      exact Nat.mul_le_mul_left _ (Nat.pow_le_pow_right (by decide) hij)
    have hspeci := allSize_spec hnoi
    have hspecj := allSize_spec hnoj
    rw [hi] at hlt
    rw [hi, hj]
    omega

end Power

/-! ## The choice of the class -/

section Clsid

variable {m : SlabManager} {itemSizeMax n : Nat}

theorem shsSlabsClsid_eq (hpos : 0 < n) (hno : ¬Wraps n) :
    shsSlabsClsid m n true =
      if m.classSize (m.freeLen - 1) < fullSize n then none
      else if fullSize n ≤ m.classSize 0 then some 0
      else if fullSize n = m.classSize (m.freeLen - 1) then some (m.freeLen - 1)
      else if m.uptype = slabUptypeLinear then
        some (subSizeT n m.minSize / m.factor +
          if subSizeT n m.minSize % m.factor ≠ 0 then 1 else 0)
      else clsidSearch m.classSize (fullSize n) (m.freeLen - 1) 1 (m.freeLen - 1 - 1) := by
  have hround : ∀ id rest : Nat, (if rest ≠ 0 then some (id + 1) else some id) =
      some (id + if rest ≠ 0 then 1 else 0) := by
    intro id rest
    by_cases hrest : rest ≠ 0
    · rw [if_pos hrest, if_pos hrest]
    · rw [if_neg hrest, if_neg hrest, Nat.add_zero]
  unfold shsSlabsClsid
  rw [if_neg (Nat.pos_iff_ne_zero.1 hpos)]
  simp only [show shsMathAlignment (sizeT (n + chunkLinkSize)) = allSize n from rfl,
    allSize_eq_fullSize hno, true_and, hround]
  rfl

theorem Made.min_lt (h : Made m itemSizeMax) (hno : ¬Wraps n)
    (hfirst : m.classSize 0 < fullSize n) : m.minSize < n := by
  by_contra hge
  have htwice := h.twice
  have hmax := h.max_lt
  have hmono := allSize_mono (k := m.minSize) (by unfold Wraps; omega) (Nat.not_lt.1 hge)
  rw [allSize_eq_fullSize hno] at hmono
  rw [SlabManager.classSize, h.size, createSize] at hfirst
  omega

theorem Made.factor_of_linear (h : Made m itemSizeMax) (hl : m.uptype = slabUptypeLinear) :
    m.factor = 1024 := by
  obtain ⟨hp, -⟩ | ⟨-, hf, -⟩ := h.kinds
  · rw [hl] at hp
    exact absurd hp (by decide)
  · exact hf

/-- Every class before the one that a linear manager computes has room for the request at most if
the alignment makes it so. -/
theorem Made.linear_firstFit_iff (h : Made m itemSizeMax) (hl : m.uptype = slabUptypeLinear)
    (hno : ¬Wraps n) (hfirst : m.classSize 0 < fullSize n)
    (hlast : fullSize n < m.classSize (m.freeLen - 1)) {id : Nat}
    (hid : (n - m.minSize) / m.factor +
      (if (n - m.minSize) % m.factor ≠ 0 then 1 else 0) = id) :
    id < m.freeLen ∧ (FirstFit m.classSize (fullSize n) id ↔
      ∀ i, 0 < i → i < m.freeLen - 1 → m.minSize + m.factor * i < n →
        m.classSize i ≠ fullSize n) := by
  have hmin := h.min_lt hno hfirst
  have hf := h.factor_of_linear hl
  obtain ⟨hlt, hfits⟩ :=
    h.linear hl hmin hno (by rw [allSize_eq_fullSize hno]; exact hlast) hid
  rw [allSize_eq_fullSize hno] at hfits
  have hbefore : ∀ i, i < id ↔ m.minSize + 1024 * i < n := by
    intro i
    rw [hf] at hid
    split at hid <;> omega
  have hle : ∀ i < id, m.classSize i ≤ fullSize n := by
    intro i hi
    have hraw := (hbefore i).1 hi
    have hn : n < 2 ^ 64 := by
      unfold Wraps at hno
      omega
    rw [SlabManager.classSize, h.size, hl, createSize_linear _ _ _ (by omega), hf,
      Nat.mod_eq_of_lt (by omega), ← allSize_eq_fullSize hno]
    exact allSize_mono hno hraw.le
  rw [hf]
  refine ⟨hlt, fun hfit i _ _ hi => (hfit.below i ((hbefore i).2 hi)).ne, fun hall => ⟨hfits, ?_⟩⟩
  intro i hi
  obtain rfl | hpos := Nat.eq_zero_or_pos i
  · exact hfirst
  · exact lt_of_le_of_ne (hle i hi) (hall i hpos (by omega) ((hbefore i).1 hi))

/-- A request that is larger than the last class. -/
theorem least_none_iff (hlen : 0 < m.freeLen) (hpos : 0 < n) (hno : ¬Wraps n)
    (hlast : m.classSize (m.freeLen - 1) < fullSize n) :
    LeastClass m n none ↔ Classifiable m n := by
  constructor
  · intro h
    refine ⟨hpos, hno, fun _ i hi => h i (by omega), fun _ htwo hbetween => ?_,
      fun _ i _ hi _ => (h i (by omega)).ne⟩
    rw [htwo] at hlast
    exact Nat.lt_asymm hlast hbetween.2
  · intro h i hi
    obtain rfl | hlt := Nat.eq_or_lt_of_le (Nat.le_sub_one_of_lt hi)
    · exact hlast
    · exact h.last (.inl hlast) i hlt

/-- A request for which class 0 has room. -/
theorem Made.least_zero (h : Made m itemSizeMax) (hpos : 0 < n) (hno : ¬Wraps n)
    (hfirst : fullSize n ≤ m.classSize 0) (hlast : fullSize n ≤ m.classSize (m.freeLen - 1)) :
    LeastClass m n (some 0) ∧ Classifiable m n := by
  refine ⟨⟨h.len, hfirst, fun j hj => absurd hj (Nat.not_lt_zero j)⟩, hpos, hno, ?_, ?_, ?_⟩
  · rintro (hlt | ⟨hlt, -⟩)
    · exact absurd hlt (Nat.not_lt.2 hlast)
    · exact absurd hlt (Nat.not_lt.2 hfirst)
  · intro _ _ hbetween
    exact absurd hbetween.1 (Nat.not_lt.2 hfirst)
  · intro hl i hi _ hraw
    rw [h.factor_of_linear hl] at hraw
    have hzero : m.classSize 0 < m.minSize + 40 := h.first.2
    rw [fullSize_eq] at hfirst
    omega

/-- A request that fills the last class. -/
theorem least_last_iff (hlen : 0 < m.freeLen) (hpos : 0 < n) (hno : ¬Wraps n)
    (hfirst : m.classSize 0 < fullSize n) (hlast : fullSize n = m.classSize (m.freeLen - 1)) :
    LeastClass m n (some (m.freeLen - 1)) ↔ Classifiable m n := by
  constructor
  · rintro ⟨-, hfit⟩
    refine ⟨hpos, hno, fun _ i hi => hfit.below i hi, fun _ htwo hbetween => ?_,
      fun _ i _ hi _ => (hfit.below i hi).ne⟩
    rw [htwo] at hlast
    exact hbetween.2.ne hlast
  · intro h
    exact ⟨by omega, hlast.le, h.last (.inr ⟨hfirst, hlast.symm⟩)⟩

/-- A request between the ends of a linear manager. -/
theorem Made.least_linear_iff (h : Made m itemSizeMax) (hl : m.uptype = slabUptypeLinear)
    (hpos : 0 < n) (hno : ¬Wraps n) (hfirst : m.classSize 0 < fullSize n)
    (hlast : fullSize n < m.classSize (m.freeLen - 1)) :
    LeastClass m n (some (subSizeT n m.minSize / m.factor +
      if subSizeT n m.minSize % m.factor ≠ 0 then 1 else 0)) ↔ Classifiable m n := by
  have hn : n < 2 ^ 64 := by
    unfold Wraps at hno
    omega
  rw [subSizeT_of_le hn (h.min_lt hno hfirst).le]
  obtain ⟨hlt, hiff⟩ := h.linear_firstFit_iff hl hno hfirst hlast rfl
  constructor
  · rintro ⟨-, hfit⟩
    refine ⟨hpos, hno, ?_, fun hp => ?_, fun _ => hiff.1 hfit⟩
    · rintro (hgt | ⟨-, heq⟩)
      · exact absurd hgt (Nat.lt_asymm hlast)
      · exact absurd heq.symm hlast.ne
    · rw [hl] at hp
      exact absurd hp (by decide)
  · intro hc
    exact ⟨hlt, hiff.2 (hc.linear hl)⟩

/-- A request between the ends of a power manager. -/
theorem Made.least_power_iff (h : Made m itemSizeMax) (hp : m.uptype = slabUptypePower)
    (htwo : 2 ≤ m.freeLen) (hlen : m.minSize * 2 ^ (m.freeLen - 2) < itemSizeMax)
    (hpos : 0 < n) (hno : ¬Wraps n) (hfirst : m.classSize 0 < fullSize n)
    (hlast : fullSize n < m.classSize (m.freeLen - 1)) :
    LeastClass m n (clsidSearch m.classSize (fullSize n) (m.freeLen - 1) 1 (m.freeLen - 1 - 1)) ↔
      Classifiable m n := by
  by_cases hends : m.freeLen = 2
  · -- the loop is not entered
    rw [hends] at hlast ⊢
    constructor
    · intro hleast
      exact absurd (hleast 1 (by omega)) (Nat.lt_asymm hlast)
    · intro hc
      exact absurd ⟨hfirst, hlast⟩ (hc.power hp hends)
  · have hopen : Open m.classSize (fullSize n) (m.freeLen - 1) 1 (m.freeLen - 1 - 1) :=
      ⟨Nat.le_refl 1, by omega, by omega, hfirst, .inr ⟨by omega, hlast⟩⟩
    have hfuel : m.freeLen - 1 - 1 < 1 + (m.freeLen - 1) := by omega
    obtain ⟨i, hi, hle, hfit⟩ := clsidSearch_firstFit (h.rising hp hlen) hfirst hopen hfuel
    rw [hi]
    refine iff_of_true ⟨by omega, hfit⟩ ⟨hpos, hno, ?_, fun _ h2 => absurd h2 hends, fun hl => ?_⟩
    · rintro (hgt | ⟨-, heq⟩)
      · exact absurd hgt (Nat.lt_asymm hlast)
      · exact absurd heq.symm hlast.ne
    · rw [hp] at hl
      exact absurd hl (by decide)

end Clsid

/-! ## Every manager and every size -/

section Create

variable {allocator : Allocator} {uptype : Int} {factor itemSizeMin itemSizeMax n : Nat}
variable {h h' : Heap} {m : SlabManager}

/-- The class is the least one with room for the request exactly if the request is classifiable. -/
theorem clsid_least_iff (hmax : itemSizeMax < 2 ^ 64)
    (hm : shsSlabsCreate allocator uptype factor itemSizeMin itemSizeMax h = (.ok m, h'))
    (hn : n + chunkLinkSize < 2 ^ 64) :
    LeastClass m n (shsSlabsClsid m n true) ↔ Classifiable m n := by
  have hmade := made_of_create hmax hm
  have hroom : 40 ≤ m.classSize 0 := hmade.first.1
  obtain rfl | hpos := Nat.eq_zero_or_pos n
  · refine iff_of_false (fun hleast => ?_) fun hc => Nat.lt_irrefl 0 hc.pos
    exact absurd (hleast 0 hmade.len) (by rw [fullSize_eq]; omega)
  by_cases hno : Wraps n
  · refine iff_of_false ?_ fun hc => hc.noWrap hno
    rw [hmade.clsid_of_wraps (by omega) hno, allSize_of_wraps hno hn,
      if_neg (Nat.not_lt_zero _)]
    rintro ⟨-, hfit⟩
    have hfits := hfit.fits
    have hsize : m.classSize 0 < 2 ^ 64 := by
      rw [SlabManager.classSize, hmade.size]
      exact allSize_lt _
    unfold Wraps at hno
    rw [fullSize_eq] at hfits
    omega
  rw [shsSlabsClsid_eq hpos hno]
  by_cases hgt : m.classSize (m.freeLen - 1) < fullSize n
  · rw [if_pos hgt]
    exact least_none_iff hmade.len hpos hno hgt
  rw [if_neg hgt]
  by_cases hfirst : fullSize n ≤ m.classSize 0
  · rw [if_pos hfirst]
    obtain ⟨hleast, hc⟩ := hmade.least_zero hpos hno hfirst (Nat.not_lt.1 hgt)
    exact iff_of_true hleast hc
  rw [if_neg hfirst]
  by_cases heq : fullSize n = m.classSize (m.freeLen - 1)
  · rw [if_pos heq]
    exact least_last_iff hmade.len hpos hno (Nat.lt_of_not_le hfirst) heq
  rw [if_neg heq]
  have hlast : fullSize n < m.classSize (m.freeLen - 1) := by omega
  by_cases hl : m.uptype = slabUptypeLinear
  · rw [if_pos hl]
    exact hmade.least_linear_iff hl hpos hno (Nat.lt_of_not_le hfirst) hlast
  · rw [if_neg hl]
    have hp : m.uptype = slabUptypePower := by
      obtain ⟨hp, -⟩ | ⟨hl', -⟩ := hmade.kinds
      · exact hp
      · exact absurd hl' hl
    obtain ⟨htwo, hlen⟩ := power_of_create hm hp
    exact hmade.least_power_iff hp htwo hlen hpos hno (Nat.lt_of_not_le hfirst) hlast

/-- A request of 2000 bytes to the manager of 1 to 4096 bytes. -/
theorem clsid_least_iff_linear : ∃ m h',
    shsSlabsCreate {} slabUptypeLinear slabLinearFactor 1 4096
      (emptyHeap [some 4096, some 8192]) = (.ok m, h') ∧
      (LeastClass m 2000 (shsSlabsClsid m 2000 true) ↔ Classifiable m 2000) := by
  have hmade : ∃ m h', shsSlabsCreate {} slabUptypeLinear slabLinearFactor 1 4096
      (emptyHeap [some 4096, some 8192]) = (.ok m, h') := ⟨_, _, rfl⟩
  obtain ⟨m, h', hm⟩ := hmade
  exact ⟨m, h', hm, clsid_least_iff (by decide) hm (by decide)⟩

/-- A request of 1026 bytes gets class 2, where class 1 has room for it. -/
theorem class_skipped : ∃ m h',
    shsSlabsCreate {} slabUptypeLinear slabLinearFactor 1 4096
      (emptyHeap [some 4096, some 8192]) = (.ok m, h') ∧
      1026 + chunkLinkSize < 2 ^ 64 ∧ ¬LeastClass m 1026 (shsSlabsClsid m 1026 true) := by
  refine ⟨_, _, rfl, by decide, ?_⟩
  rintro ⟨-, hfit⟩
  exact absurd (hfit.below 1 (by decide)) (by decide +kernel)

end Create

end Slabs
end Shs
