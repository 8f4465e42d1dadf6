import Shs.Core.Slabs

/-!
# Core.SlabClass

The classes of a slab manager, and which of them `shs_slabs_clsid` chooses. The sizes of the last
classes may wrap, and so may the size of a request with its header.
-/

namespace Shs
namespace Slabs

/-- The request with its header and alignment. -/
def allSize (n : Nat) : Nat := shsMathAlignment (sizeT (n + chunkLinkSize))

/-- The request is so large that its size with header and alignment wraps. -/
def Wraps (n : Nat) : Prop := 2 ^ 64 ≤ n + 39

instance (n : Nat) : Decidable (Wraps n) := inferInstanceAs (Decidable (2 ^ 64 ≤ n + 39))

/-- What `shs_slabs_create` makes of its arguments. -/
structure Made (m : SlabManager) (itemSizeMax : Nat) : Prop where
  min_pos : 0 < m.minSize
  max_lt : itemSizeMax < 2 ^ 64
  twice : 2 * m.minSize ≤ itemSizeMax
  kinds : m.uptype = slabUptypePower ∧ m.factor = slabPowerFactor ∨
    m.uptype = slabUptypeLinear ∧ m.factor = slabLinearFactor ∧
      itemSizeMax ≤ m.minSize + m.factor * (m.freeLen - 1) ∧
      m.minSize + m.factor * (m.freeLen - 1) < itemSizeMax + m.factor
  len : 0 < m.freeLen
  size : ∀ i, (m.slabclass i).size = allSize (createSize m.uptype m.factor m.minSize i)
  lists : ∀ i, (m.slabclass i).freeList = none
  stat : m.slabStat = { systemSize := m.slabStat.systemSize }

/-! ## Sizes -/

section Sizes

variable {n k i : Nat}

theorem allSize_spec (h : ¬Wraps n) :
    n + 32 ≤ allSize n ∧ allSize n < n + 40 ∧ allSize n % 8 = 0 := by
  unfold Wraps at h
  have hn : sizeT (n + 32) = n + 32 := sizeT_of_lt (by omega)
  have := shsMathAlignment_spec (x := n + 32) (by omega)
  unfold allSize chunkLinkSize
  rw [hn]
  omega

/-- A size that wraps is small. -/
theorem allSize_le_of_wraps (h : Wraps n) (hn : n < 2 ^ 64) : allSize n ≤ 32 := by
  unfold Wraps at h
  unfold allSize chunkLinkSize shsMathAlignment shsMathAlignSize sizeT
  split
  · omega
  · omega

theorem allSize_mono (hk : ¬Wraps k) (h : n ≤ k) : allSize n ≤ allSize k := by
  have hn : ¬Wraps n := by
    unfold Wraps at hk ⊢
    omega
  have hnspec := allSize_spec hn
  have hkspec := allSize_spec hk
  omega

theorem createSize_linear (factor minSize : Nat) (i : Nat) (hmin : minSize < 2 ^ 64) :
    createSize slabUptypeLinear factor minSize i = (minSize + factor * i) % 2 ^ 64 := by
  induction i with
  | zero =>
    rw [createSize, Nat.mul_zero, Nat.add_zero, Nat.mod_eq_of_lt hmin]
  | succ i ih =>
    rw [createSize, if_neg (by decide), ih, sizeT, Nat.mod_add_mod, Nat.mul_succ, Nat.add_assoc]

end Sizes

/-! ## Creation -/

section Create

variable {allocator : Allocator} {uptype : Int} {factor itemSizeMin itemSizeMax n : Nat}
variable {h h' : Heap} {m : SlabManager}

theorem createFreeLen_kinds (hle : itemSizeMin < itemSizeMax)
    (hlen : createFreeLen uptype factor itemSizeMin itemSizeMax = .ok n) :
    uptype = slabUptypePower ∧ factor = slabPowerFactor ∨
      uptype = slabUptypeLinear ∧ factor = slabLinearFactor ∧
        itemSizeMax ≤ itemSizeMin + factor * n ∧ itemSizeMin + factor * n < itemSizeMax + factor := by
  unfold createFreeLen at hlen
  by_cases hp : uptype = slabUptypePower
  · rw [if_pos hp] at hlen
    by_cases hf : factor = slabPowerFactor
    · exact .inl ⟨hp, hf⟩
    · rw [if_pos hf] at hlen
      cases hlen
  rw [if_neg hp] at hlen
  by_cases hl : uptype = slabUptypeLinear
  · rw [if_pos hl] at hlen
    by_cases hf : factor = slabLinearFactor
    · rw [if_neg (by simpa using hf)] at hlen
      refine .inr ⟨hl, hf, ?_⟩
      simp only [Except.ok.injEq] at hlen
      rw [hf, slabLinearFactor] at hlen ⊢
      split at hlen <;> omega
    · rw [if_pos hf] at hlen
      cases hlen
  · rw [if_neg hl] at hlen
    cases hlen

/-- Every manager that `shs_slabs_create` returns. -/
theorem made_of_create (hmax : itemSizeMax < 2 ^ 64)
    (hm : shsSlabsCreate allocator uptype factor itemSizeMin itemSizeMax h = (.ok m, h')) :
    Made m itemSizeMax := by
  unfold shsSlabsCreate at hm
  by_cases hparam : itemSizeMin = 0 ∨ itemSizeMax = 0 ∨ itemSizeMax / itemSizeMin < 2
  · rw [if_pos hparam] at hm
    cases hm
  rw [if_neg hparam] at hm
  have hpos : 0 < itemSizeMin := by omega
  have htwice : 2 * itemSizeMin ≤ itemSizeMax := (Nat.le_div_iff_mul_le hpos).1 (by omega)
  split at hm
  · cases hm
  rename_i n hlen
  have hkinds := createFreeLen_kinds (by omega) hlen
  split at hm
  · cases hm
  simp only at hm
  split at hm
  · cases hm
  · cases hm
    exact ⟨hpos, hmax, htwice, hkinds, Nat.succ_pos _, fun _ => rfl, fun _ => rfl, rfl⟩

end Create

/-! ## The class of a request -/

section Clsid

variable {m : SlabManager} {itemSizeMax n id : Nat}

theorem Made.first (h : Made m itemSizeMax) : 40 ≤ (m.slabclass 0).size ∧
    (m.slabclass 0).size < m.minSize + 40 := by
  have hpos := h.min_pos
  have htwice := h.twice
  have hmax := h.max_lt
  have hspec := allSize_spec (n := m.minSize) (by unfold Wraps; omega)
  rw [h.size, createSize]
  omega

/-- The binary search finds a class that is large enough. -/
theorem clsidSearch_spec {size : Nat → Nat} {a fuel low high maxId : Nat} (hlow : 1 ≤ low)
    (hhigh : high < maxId) (hid : clsidSearch size a fuel low high = some id) :
    id ≤ maxId ∧ a ≤ size id := by
  induction fuel generalizing low high with
  | zero => cases hid
  | succ fuel ih =>
    rw [clsidSearch] at hid
    by_cases hle : low ≤ high
    · rw [if_pos hle] at hid
      generalize hmid : (low + high) / 2 = mid at hid
      by_cases hfits : a ≤ size mid
      · rw [if_pos hfits] at hid
        by_cases hgt : a > size (mid - 1)
        · rw [if_pos hgt] at hid
          cases hid
          exact ⟨by omega, hfits⟩
        rw [if_neg hgt] at hid
        by_cases heq : a = size (mid - 1)
        · rw [if_pos heq] at hid
          cases hid
          exact ⟨by omega, heq.le⟩
        · rw [if_neg heq] at hid
          exact ih hlow (by omega) hid
      · rw [if_neg hfits] at hid
        by_cases hnext : a ≤ size (mid + 1)
        · rw [if_pos hnext] at hid
          cases hid
          exact ⟨by omega, hnext⟩
        · rw [if_neg hnext] at hid
          exact ih (by omega) hhigh hid
    · rw [if_neg hle] at hid
      cases hid

/-- The class that a linear manager computes. -/
theorem Made.linear (h : Made m itemSizeMax) (hl : m.uptype = slabUptypeLinear)
    (hmin : m.minSize < n) (hn : ¬Wraps n)
    (hlast : allSize n < (m.slabclass (m.freeLen - 1)).size)
    (hid : (n - m.minSize) / m.factor +
      (if (n - m.minSize) % m.factor ≠ 0 then 1 else 0) = id) :
    id < m.freeLen ∧ allSize n ≤ (m.slabclass id).size := by
  have hpos := h.min_pos
  have htwice := h.twice
  have hmax := h.max_lt
  have hlen := h.len
  obtain ⟨hp, -⟩ | ⟨-, hf, hcover, hclose⟩ := h.kinds
  · rw [hl] at hp
    exact absurd hp (by decide)
  rw [hf, slabLinearFactor] at hid hcover hclose
  have hsize : ∀ i, (m.slabclass i).size = allSize ((m.minSize + 1024 * i) % 2 ^ 64) := by
    intro i
    rw [h.size, hl, hf, createSize_linear _ _ _ (by omega)]
    rfl
  have hceil : m.minSize + 1024 * (id - 1) < n ∧ n ≤ m.minSize + 1024 * id ∧ 1 ≤ id := by
    split at hid <;> omega
  have hspec := allSize_spec hn
  have hfits : ∀ i, ¬Wraps (m.minSize + 1024 * i) → n ≤ m.minSize + 1024 * i →
      allSize n ≤ (m.slabclass i).size := by
    intro i hi hle
    rw [hsize, Nat.mod_eq_of_lt (by unfold Wraps at hi; omega)]
    exact allSize_mono hi hle
  rw [hsize] at hlast
  generalize hM : m.freeLen - 1 = M at hlast hcover hclose
  by_cases hwrap : Wraps (m.minSize + 1024 * M)
  · -- the size of the last class wraps, so that only small requests get here
    have hsmall : allSize ((m.minSize + 1024 * M) % 2 ^ 64) ≤ 1063 := by
      by_cases hover : 2 ^ 64 ≤ m.minSize + 1024 * M
      · have hrest : (m.minSize + 1024 * M) % 2 ^ 64 < 1024 := by omega
        have := allSize_spec (n := (m.minSize + 1024 * M) % 2 ^ 64) (by unfold Wraps; omega)
        omega
      · rw [Nat.mod_eq_of_lt (by omega)]
        have := allSize_le_of_wraps hwrap (by omega)
        omega
    unfold Wraps at hwrap
    have hid1 : id = 1 := by omega
    subst hid1
    exact ⟨by omega, hfits 1 (by unfold Wraps; omega) hceil.2.1⟩
  · have hno : (m.minSize + 1024 * M) % 2 ^ 64 = m.minSize + 1024 * M :=
      Nat.mod_eq_of_lt (by unfold Wraps at hwrap; omega)
    rw [hno] at hlast
    have hspecM := allSize_spec hwrap
    have hlt : n < m.minSize + 1024 * M := by
      by_contra hge
      have hk := allSize_spec hn
      omega
    have hidM : id ≤ M := by omega
    refine ⟨by omega, hfits id ?_ hceil.2.1⟩
    unfold Wraps at hwrap ⊢
    omega

/-- The class is one of the manager, has room for a header, and for a request that does not wrap. -/
theorem Made.clsid (h : Made m itemSizeMax) (hn : n < 2 ^ 64)
    (hid : shsSlabsClsid m n true = some id) :
    id < m.freeLen ∧ 40 ≤ (m.slabclass id).size ∧ allSize n ≤ (m.slabclass id).size ∧
      (Wraps n → id = 0) := by
  have hfirst := h.first
  have hlen := h.len
  unfold shsSlabsClsid at hid
  by_cases hzero : n = 0
  · rw [if_pos hzero] at hid
    cases hid
  rw [if_neg hzero] at hid
  simp only [show shsMathAlignment (sizeT (n + chunkLinkSize)) = allSize n from rfl] at hid
  by_cases htop : allSize n > (m.slabclass (m.freeLen - 1)).size
  · rw [if_pos htop] at hid
    cases hid
  rw [if_neg htop] at hid
  by_cases hlow : allSize n ≤ (m.slabclass 0).size
  · rw [if_pos hlow] at hid
    cases hid
    exact ⟨hlen, hfirst.1, hlow, fun _ => rfl⟩
  rw [if_neg hlow] at hid
  have hno : ¬Wraps n := by
    intro hwrap
    have := allSize_le_of_wraps hwrap hn
    omega
  suffices hid' : id < m.freeLen ∧ allSize n ≤ (m.slabclass id).size from
    ⟨hid'.1, by omega, hid'.2, fun hwrap => absurd hwrap hno⟩
  by_cases heq : allSize n = (m.slabclass (m.freeLen - 1)).size
  · rw [if_pos heq] at hid
    cases hid
    exact ⟨by omega, heq.le⟩
  rw [if_neg heq] at hid
  by_cases hl : m.uptype = slabUptypeLinear
  · have hmin : m.minSize < n := by
      by_contra hge
      have htwice := h.twice
      have hmax := h.max_lt
      have hmono := allSize_mono (k := m.minSize) (by unfold Wraps; omega) (Nat.not_lt.1 hge)
      rw [h.size, createSize] at hlow
      exact hlow hmono
    rw [if_pos hl, subSizeT_of_le hn hmin.le] at hid
    refine h.linear hl hmin hno (by omega) ?_
    by_cases hrest : (n - m.minSize) % m.factor ≠ 0
    · rw [if_pos ⟨trivial, hrest⟩] at hid
      rw [if_pos hrest]
      exact Option.some.inj hid
    · rw [if_neg (by simp [hrest])] at hid
      rw [if_neg hrest]
      exact Option.some.inj hid
  · rw [if_neg hl] at hid
    by_cases hmany : m.freeLen - 1 = 0
    · rw [hmany] at hid
      cases hid
    · obtain ⟨hle, hfits⟩ := clsidSearch_spec (Nat.le_refl 1)
        (show m.freeLen - 1 - 1 < m.freeLen - 1 by omega) hid
      exact ⟨by omega, hfits⟩

/-- A request that wraps gets a chunk of class 0, unless the size of the last class wraps too. -/
theorem Made.clsid_of_wraps (h : Made m itemSizeMax) (hn : n < 2 ^ 64) (hwrap : Wraps n) :
    shsSlabsClsid m n true
      = if allSize n > (m.slabclass (m.freeLen - 1)).size then none else some 0 := by
  have hfirst := h.first
  have hsmall := allSize_le_of_wraps hwrap hn
  unfold Wraps at hwrap
  unfold shsSlabsClsid
  rw [if_neg (by omega)]
  simp only [show shsMathAlignment (sizeT (n + chunkLinkSize)) = allSize n from rfl]
  rw [if_pos (show allSize n ≤ (m.slabclass 0).size by omega)]

end Clsid

end Slabs
end Shs
