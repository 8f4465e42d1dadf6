import Shs.Core.SlabBooks

/-!
# Core.SlabMoves

What the functions of a slab manager do to its books. `Books` is the invariant: the chunks are at
their places, and, where `counted` holds, the counters are the sums over them. Every function is a
sequence of the moves of `SlabBooks`.
-/

namespace Shs
namespace Slabs

open Chain

def State.lists (s : State) (i : Nat) : Option Nat := (s.mgr.slabclass i).freeList

/-- What of the classes never changes. -/
structure SameClasses (m m' : SlabManager) : Prop where
  uptype : m'.uptype = m.uptype
  freeLen : m'.freeLen = m.freeLen
  factor : m'.factor = m.factor
  minSize : m'.minSize = m.minSize
  size : ∀ i, (m'.slabclass i).size = (m.slabclass i).size

/-- The chunks are at their places. If `counted` holds, the counters are the sums over them, no
subtraction has wrapped and no call has failed to give back a chunk. -/
structure Books (m : SlabManager) (counted : Prop) (hand : List Nat) (cached : Nat → List Nat)
    (s : State) : Prop where
  classes : SameClasses m s.mgr
  places : Places m s.chunk s.lists s.heap.out hand s.live cached
  tally : counted → Tally s.mgr.slabStat s.chunk hand s.live (allCached m.freeLen cached)
  sound : counted → s.refused = false ∧ s.wrapped = false

section Moves

variable {m : SlabManager} {counted : Prop} {hand : List Nat} {cached : Nat → List Nat}
variable {s : State} {i c n id : Nat} {cs : List Nat}

theorem SameClasses.setFreeList (h : SameClasses m s.mgr) (i : Nat) (p : Option Nat) :
    SameClasses m (s.setFreeList i p).mgr := by
  refine ⟨h.uptype, h.freeLen, h.factor, h.minSize, fun j => ?_⟩
  rw [← h.size j]
  by_cases hj : j = i
  · simp [State.setFreeList, hj]
  · simp [State.setFreeList, hj]

theorem lists_setFreeList (s : State) (i : Nat) (p : Option Nat) :
    (s.setFreeList i p).lists = Function.update s.lists i p := by
  funext j
  by_cases hj : j = i
  · simp [State.lists, State.setFreeList, hj]
  · simp [State.lists, State.setFreeList, hj]

theorem Books.head (h : Books m counted hand cached s) (hi : i < m.freeLen)
    (hc : s.lists i = some c) : ∃ cs, cached i = c :: cs := by
  have hlink := h.places.linked i hi
  rw [hc] at hlink
  obtain ⟨cs, hcs, -⟩ := hlink.head
  exact ⟨cs, hcs⟩

/-- No counter is near the end of its range. -/
theorem Books.bounds (h : Books m counted hand cached s) (hx : counted) :
    sizes s.chunk hand + s.mgr.slabStat.usedSize + s.mgr.slabStat.freeSize
      + 32 * s.mgr.slabStat.chunkCount + 8 ≤ 2 ^ 64 := by
  have ht := h.tally hx
  have htotal := h.places.total s.heap.packed
  rw [ht.used, ht.free, ht.count]
  omega

/-- The counters are written, after a note. -/
theorem Books.setStat {w : Bool} {v : SlabStat} (hclasses : SameClasses m s.mgr)
    (hplaces : Places m s.chunk s.lists s.heap.out hand s.live cached)
    (htally : counted → Tally v s.chunk hand s.live (allCached m.freeLen cached))
    (hsound : counted → s.refused = false ∧ s.wrapped = false ∧ w = false) :
    Books m counted hand cached ((s.note w).setStat v) := by
  refine ⟨⟨hclasses.1, hclasses.2, hclasses.3, hclasses.4, hclasses.5⟩, hplaces, htally,
    fun hx => ?_⟩
  obtain ⟨hr, hs, hw⟩ := hsound hx
  refine ⟨hr, ?_⟩
  show (s.wrapped || w) = false
  rw [hs, hw]
  rfl

/-- A cached chunk goes to the allocator. -/
theorem Books.recoverChunk (h : Books m counted [] cached s) (hi : i < m.freeLen)
    (hc : cached i = c :: cs) :
    Books m counted [] (Function.update cached i cs) (recoverChunk i c s) := by
  have hmem : c ∈ allCached m.freeLen cached := mem_allCached.2 ⟨i, hi, by simp [hc]⟩
  have hlt := h.places.size_lt s.heap.packed (c := c) (List.mem_append_right _ hmem)
  have hclasses := h.classes.setFreeList i (s.chunk c).next
  have hsize : subSizeT ((s.setFreeList i (s.chunk c).next).mgr.slabclass i).size chunkLinkSize
      = (s.chunk c).size := by
    rw [hclasses.size i, ← h.places.sized i hi c (by simp [hc]),
      subSizeT_of_le hlt (Nat.le_add_left _ _), Nat.add_sub_cancel]
  have hplaces := (h.places.take hi hc).drop
  rw [← lists_setFreeList] at hplaces
  have hcounts : counted → (s.chunk c).size ≤ s.mgr.slabStat.freeSize ∧
      1 ≤ s.mgr.slabStat.chunkCount := by
    intro hx
    have ht := h.tally hx
    have hperm := allCached_cons hi hc
    have hfree := ht.free
    have hcount := ht.count
    rw [sizes_perm _ hperm, sizes_cons] at hfree
    rw [hperm.length_eq, List.length_cons] at hcount
    omega
  refine Books.setStat hclasses hplaces (fun hx => ?_) fun hx => ?_
  · obtain ⟨hfree, hcount⟩ := hcounts hx
    have hbounds := h.bounds hx
    have htake := ((h.tally hx).take (n := s.mgr.slabStat.freeSize - (s.chunk c).size)
      (allCached_cons hi hc) (by omega)).drop (n := s.mgr.slabStat.chunkCount - 1)
      (Nat.sub_add_cancel hcount).symm
    rw [← subSizeT_of_le (by omega) hfree, ← subSizeT_of_le (by omega) hcount, ← hsize] at htake
    exact htake
  · obtain ⟨hfree, hcount⟩ := hcounts hx
    obtain ⟨hr, hw⟩ := h.sound hx
    refine ⟨hr, hw, decide_eq_false ?_⟩
    show ¬(s.mgr.slabStat.freeSize < subSizeT _ _ ∨ s.mgr.slabStat.chunkCount < 1)
    rw [hsize]
    omega

/-- Other counters are written. -/
theorem Books.restat (h : Books m counted hand cached s) {v : SlabStat}
    (hused : v.usedSize = s.mgr.slabStat.usedSize) (hfree : v.freeSize = s.mgr.slabStat.freeSize)
    (hreqs : v.reqsSize = s.mgr.slabStat.reqsSize)
    (hcount : v.chunkCount = s.mgr.slabStat.chunkCount) :
    Books m counted hand cached (s.setStat v) := by
  have hc := h.classes
  refine ⟨⟨hc.1, hc.2, hc.3, hc.4, hc.5⟩, h.places, fun hx => ?_, h.sound⟩
  have ht := h.tally hx
  exact ⟨hused.trans ht.used, hfree.trans ht.free, hreqs.trans ht.reqs, hcount.trans ht.count,
    ht.fits⟩

/-- The allocator has no region. -/
theorem Books.setHeap (h : Books m counted hand cached s) {heap : Heap}
    (ho : heap.out = s.heap.out) :
    Books m counted hand cached { s with heap := heap } := by
  refine ⟨h.classes, ?_, h.tally, h.sound⟩
  show Places m s.chunk s.lists heap.out hand s.live cached
  rw [ho]
  exact h.places

end Moves

/-! ## Recovery -/

/-- The number of cached chunks. -/
def total (m : SlabManager) (cached : Nat → List Nat) : Nat := (allCached m.freeLen cached).length

section Recover

variable {m : SlabManager} {counted : Prop} {cached : Nat → List Nat} {s : State}
variable {i c n id chunkSize fuel : Nat} {cs : List Nat}

theorem total_cons (hi : i < m.freeLen) (hc : cached i = c :: cs) :
    total m (Function.update cached i cs) < total m cached := by
  have hlength := (allCached_cons hi hc).length_eq
  rw [List.length_cons] at hlength
  unfold total
  omega

theorem length_le_total (hi : i < m.freeLen) : (cached i).length ≤ total m cached := by
  rw [total, allCached, List.length_flatMap]
  exact List.single_le_sum (fun _ _ => Nat.zero_le _) _
    (List.mem_map_of_mem (List.mem_range.2 hi))

theorem Books.recoverAbove (h : Books m counted [] cached s) (hn : i + n ≤ m.freeLen) :
    recoverAbove n i s = none ∨ ∃ s' cached', recoverAbove n i s = some s' ∧
      Books m counted [] cached' s' ∧ total m cached' < total m cached := by
  induction n generalizing i with
  | zero => exact .inl rfl
  | succ n ih =>
    have hi : i < m.freeLen := by omega
    rw [Slabs.recoverAbove]
    cases hl : (s.mgr.slabclass i).freeList with
    | none => exact ih (by omega)
    | some c =>
      obtain ⟨cs, hc⟩ := h.head hi hl
      exact .inr ⟨_, _, rfl, h.recoverChunk hi hc, total_cons hi hc⟩

/-- The chunks of one class, until enough is recovered. -/
theorem Books.recoverClass (h : Books m counted [] cached s) (hi : i < m.freeLen)
    (hfuel : (cached i).length < fuel) (size : Nat) :
    ∃ left s' cached', recoverClass i chunkSize fuel size s = some (left, s') ∧
      Books m counted [] cached' s' ∧ total m cached' ≤ total m cached ∧
      (left = none ∨ (s.mgr.slabclass i).freeList.isSome = true →
        total m cached' < total m cached) := by
  induction fuel generalizing cached s size with
  | zero => omega
  | succ fuel ih =>
    rw [Slabs.recoverClass]
    cases hl : (s.mgr.slabclass i).freeList with
    | none => exact ⟨_, s, cached, rfl, h, Nat.le_refl _, by simp⟩
    | some c =>
      obtain ⟨cs, hc⟩ := h.head hi hl
      have hless := total_cons hi hc
      have hnext := h.recoverChunk hi hc
      rw [hc, List.length_cons] at hfuel
      simp only
      split
      · exact ⟨_, _, _, rfl, hnext, hless.le, fun _ => hless⟩
      · obtain ⟨left, s', cached', heq, hbooks, hle, -⟩ :=
          ih hnext (by rw [Function.update_self]; omega) _
        exact ⟨left, s', cached', heq, hbooks, hle.trans hless.le, fun _ => hle.trans_lt hless⟩

theorem Books.recoverBelow (h : Books m counted [] cached s) (hi : i ≤ m.freeLen)
    (hfuel : total m cached < fuel) {T : Nat} (hle : total m cached ≤ T) (space : Bool)
    (hspace : space = true → total m cached < T) (size : Nat) :
    ∃ ret s' cached', recoverBelow chunkSize fuel i size space s = some (ret, s') ∧
      Books m counted [] cached' s' ∧ total m cached' ≤ T ∧
      (ret ≠ .nospace → total m cached' < T) := by
  induction i generalizing cached s size space with
  | zero =>
    refine ⟨_, _, cached, rfl, h.restat rfl rfl rfl rfl, hle, fun hret => hspace ?_⟩
    by_contra hno
    rw [if_neg hno] at hret
    exact hret rfl
  | succ i ih =>
    have hfuel' : (cached i).length < fuel := (length_le_total hi).trans_lt hfuel
    obtain ⟨left, s', cached', heq, hbooks, htotal, hless⟩ := h.recoverClass hi hfuel' size
    have hspace' : (space || (s.mgr.slabclass i).freeList.isSome) = true → total m cached' < T := by
      intro hor
      rcases Bool.or_eq_true_iff.1 hor with hs | hl
      · exact htotal.trans_lt (hspace hs)
      · exact (hless (.inr hl)).trans_le hle
    rw [Slabs.recoverBelow, heq]
    cases left with
    | none =>
      have hlt := (hless (.inl rfl)).trans_le hle
      exact ⟨_, s', cached', rfl, hbooks, hlt.le, fun _ => hlt⟩
    | some left =>
      exact ih hbooks (by omega) (htotal.trans_lt hfuel) (htotal.trans hle) _ hspace' left

/-- A call of `shs_slabs_recover` gives back a chunk, unless it returns `SHS_SLAB_ERROR_NOSPACE`. -/
theorem Books.recover (h : Books m counted [] cached s) (hid : id < m.freeLen)
    (hfuel : total m cached < fuel) (chunkSize : Nat) :
    2 ^ 31 ≤ m.freeLen ∧ shsSlabsRecover fuel chunkSize id s = none ∨
      ∃ ret s' cached', shsSlabsRecover fuel chunkSize id s = some (ret, s') ∧
        Books m counted [] cached' s' ∧ total m cached' ≤ total m cached ∧
        (ret ≠ .nospace → total m cached' < total m cached) := by
  have hlen := h.classes.freeLen
  have hcounted : Books m counted [] cached (s.setStat
      { s.mgr.slabStat with recover := sizeT (s.mgr.slabStat.recover + 1) }) :=
    h.restat rfl rfl rfl rfl
  have hint : m.freeLen < 2 ^ 31 → (id + 1) % 2 ^ 32 = id + 1 := fun _ =>
    Nat.mod_eq_of_lt (by omega)
  have hfirst_le : (id + 1) % 2 ^ 32 ≤ m.freeLen := (Nat.mod_le _ _).trans hid
  unfold shsSlabsRecover
  simp only [show (s.setStat
    { s.mgr.slabStat with recover := sizeT (s.mgr.slabStat.recover + 1) }).mgr.freeLen
      = m.freeLen from hlen]
  by_cases hfirst : 2 ^ 31 < (id + 1) % 2 ^ 32
  · exact .inl ⟨by omega, if_pos hfirst⟩
  rw [if_neg hfirst]
  rcases hcounted.recoverAbove (i := (id + 1) % 2 ^ 32)
    (n := min m.freeLen (2 ^ 31) - (id + 1) % 2 ^ 32) (by omega) with
    hnone | ⟨s', cached', heq, hbooks, hless⟩
  · simp only [hnone]
    by_cases hmany : 2 ^ 31 ≤ m.freeLen
    · exact .inl ⟨hmany, if_pos hmany⟩
    rw [if_neg hmany, hint (by omega), Nat.add_sub_cancel]
    obtain ⟨ret, s', cached', heq, hbooks, hle, hless⟩ := hcounted.recoverBelow hid.le hfuel
      (Nat.le_refl _) false (by simp) 0
    exact .inr ⟨ret, s', cached', heq, hbooks, hle, hless⟩
  · simp only [heq]
    exact .inr ⟨_, s', cached', rfl, hbooks, hless.le, fun _ => hless⟩

end Recover

/-! ## Allocation -/

section Alloc

variable {m : SlabManager} {counted : Prop} {hand : List Nat} {cached : Nat → List Nat} {s : State}
variable {c n id chunkSize fuel itemSizeMax : Nat}

theorem SameClasses.clsid (h : SameClasses m s.mgr) (n : Nat) :
    shsSlabsClsid s.mgr n true = shsSlabsClsid m n true := by
  simp only [shsSlabsClsid, h.uptype, h.freeLen, h.factor, h.minSize, h.size]

/-- A header and the counters are written. -/
theorem books_write {v : ChunkLink} {stat : SlabStat} (hclasses : SameClasses m s.mgr)
    (hplaces : Places m (Function.update s.chunk c v) s.lists s.heap.out hand s.live cached)
    (htally : counted →
      Tally stat (Function.update s.chunk c v) hand s.live (allCached m.freeLen cached))
    (hsound : counted → s.refused = false ∧ s.wrapped = false) :
    Books m counted hand cached ((s.setChunk c v).setStat stat) :=
  ⟨⟨hclasses.1, hclasses.2, hclasses.3, hclasses.4, hclasses.5⟩, hplaces, htally, hsound⟩

/-- So are the live chunks. -/
theorem books_write_live {v : ChunkLink} {stat : SlabStat} {live : List Nat}
    (hclasses : SameClasses m s.mgr)
    (hplaces : Places m (Function.update s.chunk c v) s.lists s.heap.out hand live cached)
    (htally : counted →
      Tally stat (Function.update s.chunk c v) hand live (allCached m.freeLen cached))
    (hsound : counted → s.refused = false ∧ s.wrapped = false) :
    Books m counted hand cached { (s.setChunk c v).setStat stat with live := live } :=
  ⟨⟨hclasses.1, hclasses.2, hclasses.3, hclasses.4, hclasses.5⟩, hplaces, htally, hsound⟩

/-- A new chunk comes from the allocator. -/
theorem Books.addChunk (h : Books m counted [] cached s) (heap : Heap)
    (hfresh : Fresh s.heap.out ⟨c, n⟩) (hn : chunkLinkSize ≤ n)
    (hout : heap.out = ⟨c, n⟩ :: s.heap.out) :
    Books m counted [c] cached (addChunk c n { s with heap := heap }) ∧
      ((addChunk c n { s with heap := heap }).chunk c).size + chunkLinkSize = n := by
  have htop := hfresh.top
  simp only [Region.stop, heapTop] at htop
  have hsize : subSizeT n chunkLinkSize + chunkLinkSize = n := by
    rw [subSizeT_of_le (by omega) hn, Nat.sub_add_cancel hn]
  obtain ⟨size, hsub⟩ : ∃ size, subSizeT n chunkLinkSize = size := ⟨_, rfl⟩
  obtain ⟨count, hcount⟩ : ∃ count, sizeT (s.mgr.slabStat.chunkCount + 1) = count := ⟨_, rfl⟩
  have heq : Slabs.addChunk c n { s with heap := heap }
      = ({ s with heap := heap }.setChunk c { s.chunk c with size := size }).setStat
        { s.mgr.slabStat with chunkCount := count } := by
    rw [← hsub, ← hcount]
    rfl
  rw [hsub] at hsize
  rw [heq]
  have hplaces := h.places.fresh (v := { s.chunk c with size := size }) hfresh hsize
  refine ⟨books_write h.classes ?_ (fun hx => ?_) h.sound, ?_⟩
  · show Places m _ s.lists heap.out [c] s.live cached
    rw [hout]
    exact hplaces
  · have hbounds := h.bounds hx
    have hnd := hplaces.nodup
    simp only [List.cons_append, List.nil_append, List.nodup_cons] at hnd
    rw [sizeT_of_lt (by omega)] at hcount
    rw [← hcount]
    exact (h.tally hx).fresh hnd.1
  · show (Function.update s.chunk c _ c).size + chunkLinkSize = n
    rw [Function.update_self, hsize]

/-- A call of the allocator. -/
theorem Books.alloc (h : Books m counted [] cached s) (hn : chunkLinkSize ≤ n) :
    (∃ c s', s.alloc n = (some c, s') ∧ Books m counted [c] cached (Slabs.addChunk c n s') ∧
        ((Slabs.addChunk c n s').chunk c).size + chunkLinkSize = n) ∨
      ∃ s', s.alloc n = (none, s') ∧ Books m counted [] cached s' := by
  unfold State.alloc
  cases ha : (allocatorAlloc n s.heap).1 with
  | some c =>
    obtain ⟨hfresh, -, hout⟩ := Heap.alloc_some ha
    obtain ⟨hbooks, hsize⟩ := h.addChunk _ hfresh hn hout
    exact .inl ⟨c, _, rfl, hbooks, hsize⟩
  | none => exact .inr ⟨_, rfl, h.setHeap (Heap.alloc_none ha)⟩

theorem Books.allocRetry (h : Books m counted [] cached s) (hid : id < m.freeLen)
    (hn : chunkLinkSize ≤ chunkSize) (hfuel : total m cached < fuel) :
    2 ^ 31 ≤ m.freeLen ∧ allocRetry id chunkSize fuel s = none ∨
      (∃ s' cached', allocRetry id chunkSize fuel s = some (none, .nospace, s') ∧
        Books m counted [] cached' s') ∨
      ∃ c ret s' cached', allocRetry id chunkSize fuel s = some (some c, ret, s') ∧
        Books m counted [c] cached' (Slabs.addChunk c chunkSize s') ∧
        ((Slabs.addChunk c chunkSize s').chunk c).size + chunkLinkSize = chunkSize := by
  induction fuel generalizing cached s with
  | zero => omega
  | succ fuel ih =>
    rw [Slabs.allocRetry]
    rcases h.recover hid hfuel chunkSize with ⟨hmany, hnone⟩ |
      ⟨ret, s₁, cached₁, heq, hbooks, -, hless⟩
    · rw [hnone]
      exact .inl ⟨hmany, rfl⟩
    · rw [heq]
      cases ret with
      | nospace => exact .inr (.inl ⟨s₁, cached₁, rfl, hbooks⟩)
      | yes | no =>
        have hlt := hless (by decide)
        rcases hbooks.alloc hn with ⟨c, s₂, ha, hbooks₂, hsize⟩ | ⟨s₂, ha, hbooks₂⟩
        · simp only [ha]
          exact .inr (.inr ⟨c, _, s₂, cached₁, rfl, hbooks₂, hsize⟩)
        · simp only [ha]
          exact ih hbooks₂ (by omega)

/-- The first chunk of a free list is taken. -/
theorem Books.takeCached (h : Books m counted [] cached s) {cs : List Nat} (hid : id < m.freeLen)
    (hc : cached id = c :: cs) :
    Books m counted [c] (Function.update cached id cs) (takeCached id c s) := by
  have hplaces := h.places.take hid hc
  rw [← lists_setFreeList] at hplaces
  have hfree : counted → (s.chunk c).size ≤ s.mgr.slabStat.freeSize := by
    intro hx
    have hfree := (h.tally hx).free
    rw [sizes_perm _ (allCached_cons hid hc), sizes_cons] at hfree
    omega
  refine Books.setStat (h.classes.setFreeList id _) hplaces (fun hx => ?_) fun hx => ?_
  · have hle := hfree hx
    have hbounds := h.bounds hx
    have htake := (h.tally hx).take (n := s.mgr.slabStat.freeSize - (s.chunk c).size)
      (allCached_cons hid hc) (by omega)
    rw [← subSizeT_of_le (by omega) hle] at htake
    exact htake
  · obtain ⟨hr, hw⟩ := h.sound hx
    exact ⟨hr, hw, decide_eq_false (Nat.not_lt.2 (hfree hx))⟩

/-- The chunk that `shs_slabs_alloc` finds. -/
theorem Books.allocChunk (h : Books m counted [] cached s) (hid : id < m.freeLen)
    (hn : chunkLinkSize ≤ (m.slabclass id).size) (hfuel : total m cached < fuel) :
    2 ^ 31 ≤ m.freeLen ∧ allocChunk id fuel s = none ∨
      (∃ ret err s' cached', allocChunk id fuel s = some (none, ret, err, s') ∧
        Books m counted [] cached' s') ∨
      ∃ c ret err s' cached', allocChunk id fuel s = some (some c, ret, err, s') ∧
        Books m counted [c] cached' s' ∧
        (s'.chunk c).size + chunkLinkSize = (m.slabclass id).size := by
  unfold Slabs.allocChunk
  rw [h.classes.size id]
  cases hl : (s.mgr.slabclass id).freeList with
  | some c =>
    obtain ⟨cs, hc⟩ := h.head hid hl
    exact .inr (.inr ⟨c, _, _, _, _, rfl, h.takeCached hid hc,
      h.places.sized id hid c (by simp [hc])⟩)
  | none =>
    rcases h.alloc hn with ⟨c, s₁, ha, hbooks, hsize⟩ | ⟨s₁, ha, hbooks⟩
    · simp only [ha]
      exact .inr (.inr ⟨c, _, _, _, cached, rfl, hbooks, hsize⟩)
    · simp only [ha]
      rcases hbooks.allocRetry hid hn hfuel with ⟨hmany, hnone⟩ | ⟨s₂, cached₂, heq, hbooks₂⟩ |
        ⟨c, ret, s₂, cached₂, heq, hbooks₂, hsize⟩
      · rw [hnone]
        exact .inl ⟨hmany, rfl⟩
      · rw [heq]
        exact .inr (.inl ⟨_, _, s₂, cached₂, rfl, hbooks₂⟩)
      · rw [heq]
        exact .inr (.inr ⟨c, _, _, _, cached₂, rfl, hbooks₂, hsize⟩)

/-- The chunk in the hand is handed out. -/
theorem Books.handOut (h : Books m counted [c] cached s) {i : Int} {reqSize : Nat}
    (htag : i = slabSplitId ∨ ∃ j : Nat, j < m.freeLen ∧ i = j ∧
      (s.chunk c).size + chunkLinkSize = (m.slabclass j).size)
    (hreq : counted → reqSize ≤ (s.chunk c).size) :
    Books m counted [] cached (handOut c i reqSize s) := by
  have hnd := h.places.nodup
  simp only [List.cons_append, List.nil_append, List.nodup_cons, List.mem_append, not_or] at hnd
  obtain ⟨used, hused⟩ : ∃ used, sizeT (s.mgr.slabStat.usedSize + (s.chunk c).size) = used :=
    ⟨_, rfl⟩
  obtain ⟨reqs, hreqs⟩ : ∃ reqs, sizeT (s.mgr.slabStat.reqsSize + reqSize) = reqs := ⟨_, rfl⟩
  have heq : Slabs.handOut c i reqSize s
      = { (s.setChunk c { s.chunk c with id := i, reqSize := reqSize }).setStat
          { s.mgr.slabStat with reqsSize := reqs, usedSize := used } with live := c :: s.live } := by
    rw [← hused, ← hreqs]
    rfl
  rw [heq]
  refine books_write_live h.classes (h.places.give rfl rfl htag) (fun hx => ?_) h.sound
  have ht := h.tally hx
  have hle := ht.reqs_le
  have hbounds := h.bounds hx
  have hfits := hreq hx
  rw [sizes_cons, sizes_nil] at hbounds
  rw [sizeT_of_lt (by omega)] at hused hreqs
  rw [← hused, ← hreqs]
  exact ht.give (v := { s.chunk c with id := i, reqSize := reqSize }) hnd.1.1 rfl hfits

/-- What `shs_slabs_alloc` does. -/
theorem Books.shsSlabsAlloc (h : Books m counted [] cached s) (hm : Made m itemSizeMax)
    (hn : n < 2 ^ 64) (hno : counted → ¬Wraps n) (hfuel : total m cached < fuel) (t : AllocType) :
    2 ^ 31 ≤ m.freeLen ∧ shsSlabsAlloc fuel t n s = none ∨
      ∃ a s' cached', shsSlabsAlloc fuel t n s = some (a, s') ∧ Books m counted [] cached' s' ∧
        ∀ p, a.ptr = some p → ∃ c ∈ s'.live, p = c + chunkLinkSize ∧
          ∃ id, shsSlabsClsid m n true = some id ∧
            (s'.chunk c).size + chunkLinkSize = (m.slabclass id).size := by
  unfold Slabs.shsSlabsAlloc
  by_cases hzero : n = 0
  · rw [if_pos hzero]
    exact .inr ⟨_, s, cached, rfl, h, by simp⟩
  rw [if_neg hzero, h.classes.clsid]
  cases hid : shsSlabsClsid m n true with
  | none => exact .inr ⟨_, s, cached, rfl, h, by simp⟩
  | some id =>
    obtain ⟨hlt, hroom, hfits, -⟩ := hm.clsid hn hid
    rcases h.allocChunk hlt (by simp only [chunkLinkSize]; omega) hfuel with ⟨hmany, hnone⟩ |
      ⟨ret, err, s₁, cached₁, heq, hbooks⟩ | ⟨c, ret, err, s₁, cached₁, heq, hbooks, hsize⟩
    · simp only [hnone]
      exact .inl ⟨hmany, trivial⟩
    · simp only [heq]
      exact .inr ⟨_, _, cached₁, rfl, hbooks.restat rfl rfl rfl rfl, by simp⟩
    · simp only [heq]
      refine .inr ⟨_, _, cached₁, rfl, hbooks.handOut (.inr ⟨id, hlt, rfl, hsize⟩) fun hx => ?_, ?_⟩
      · have hspec := allSize_spec (hno hx)
        simp only [chunkLinkSize] at hsize
        split
        · exact Nat.le_refl _
        · omega
      · rintro p hp
        refine ⟨c, by simp [Slabs.handOut], (Option.some.inj hp).symm, id, rfl, ?_⟩
        show (Function.update s₁.chunk c _ c).size + _ = _
        rw [Function.update_self]
        exact hsize

end Alloc

/-! ## The other calls -/

section Calls

variable {m : SlabManager} {counted : Prop} {hand : List Nat} {cached : Nat → List Nat} {s : State}
variable {c n i itemSizeMax : Nat}

/-- What `shs_slabs_split_alloc` does. -/
theorem Books.shsSlabsSplitAlloc (h : Books m counted [] cached s) {reqSize reqMinsize : Nat}
    (hno : ¬Wraps reqMinsize) (answer : Option Region) :
    Books m counted [] cached (shsSlabsSplitAlloc reqSize reqMinsize answer s).2 := by
  unfold Slabs.shsSlabsSplitAlloc
  split
  · exact h
  split
  · exact h
  simp only
  split
  · exact h
  have hspec := allSize_spec hno
  unfold allocatorSplitAlloc
  cases answer with
  | none => exact (h.setHeap rfl).restat rfl rfl rfl rfl
  | some r =>
    simp only
    by_cases hr : Fresh s.heap.out r ∧
        shsMathAlignment (sizeT (reqMinsize + chunkLinkSize)) ≤ r.size
    · rw [dif_pos hr]
      obtain ⟨hfresh, hmin⟩ := hr
      have hfits : allSize reqMinsize ≤ r.size := hmin
      have hsize : chunkLinkSize ≤ r.size := by
        simp only [chunkLinkSize]
        omega
      refine (h.addChunk (s.heap.push r hfresh) hfresh hsize rfl).1.handOut (.inl rfl)
        fun _ => ?_
      split
      · exact Nat.le_refl _
      · omega
    · rw [dif_neg hr]
      exact (h.setHeap rfl).restat rfl rfl rfl rfl

/-- The counters and the live chunks are written, after a note. -/
theorem books_note_live {w : Bool} {v : SlabStat} (live : List Nat) (hclasses : SameClasses m s.mgr)
    (hplaces : Places m s.chunk s.lists s.heap.out hand live cached)
    (htally : counted → Tally v s.chunk hand live (allCached m.freeLen cached))
    (hsound : counted → s.refused = false ∧ s.wrapped = false ∧ w = false) :
    Books m counted hand cached { (s.note w).setStat v with live := live } := by
  refine ⟨⟨hclasses.1, hclasses.2, hclasses.3, hclasses.4, hclasses.5⟩, hplaces, htally,
    fun hx => ?_⟩
  obtain ⟨hr, hs, hw⟩ := hsound hx
  refine ⟨hr, ?_⟩
  show (s.wrapped || w) = false
  rw [hs, hw]
  rfl

/-- What a live chunk adds to the counters. -/
theorem Books.live_le (h : Books m counted [] cached s) (hc : c ∈ s.live) (hx : counted) :
    (s.chunk c).size ≤ s.mgr.slabStat.usedSize ∧ (s.chunk c).reqSize ≤ s.mgr.slabStat.reqsSize ∧
      1 ≤ s.mgr.slabStat.chunkCount := by
  have ht := h.tally hx
  have hperm := List.perm_cons_erase hc
  have hused := ht.used
  have hreqs := ht.reqs
  have hcount := ht.count
  rw [sizes_perm _ hperm, sizes_cons] at hused
  rw [reqSizes_perm _ hperm, reqSizes_cons] at hreqs
  rw [hperm.length_eq, List.length_cons] at hcount
  omega

/-- A live chunk of `shs_slabs_split_alloc` is freed. -/
theorem Books.freeSplit (h : Books m counted [] cached s) (hc : c ∈ s.live) (freed : Bool) :
    Books m counted [] cached (freeSplit c freed s).2 := by
  obtain ⟨u, hu⟩ : ∃ u, subSizeT s.mgr.slabStat.usedSize (s.chunk c).size = u := ⟨_, rfl⟩
  obtain ⟨q, hq⟩ : ∃ q, subSizeT s.mgr.slabStat.reqsSize (s.chunk c).reqSize = q := ⟨_, rfl⟩
  obtain ⟨k, hk⟩ : ∃ k, subSizeT s.mgr.slabStat.chunkCount 1 = k := ⟨_, rfl⟩
  have htally : counted → Tally
      { s.mgr.slabStat with chunkCount := k, usedSize := u, reqsSize := q } s.chunk []
      (s.live.erase c) (allCached m.freeLen cached) := by
    intro hx
    obtain ⟨hused, hreqs, hcount⟩ := h.live_le hc hx
    have hle := (h.tally hx).reqs_le
    have hbounds := h.bounds hx
    rw [subSizeT_of_le (by omega) hused] at hu
    rw [subSizeT_of_le (by omega) hreqs] at hq
    rw [subSizeT_of_le (by omega) hcount] at hk
    exact ((h.tally hx).back (u := u) (q := q) hc (by omega) (by omega)).drop
      (n := k) (show s.mgr.slabStat.chunkCount = k + 1 by omega)
  have hsound : counted → s.refused = false ∧ s.wrapped = false ∧
      decide (s.mgr.slabStat.chunkCount < 1 ∨ s.mgr.slabStat.usedSize < (s.chunk c).size ∨
        s.mgr.slabStat.reqsSize < (s.chunk c).reqSize) = false := by
    intro hx
    obtain ⟨hused, hreqs, hcount⟩ := h.live_le hc hx
    obtain ⟨hr, hw⟩ := h.sound hx
    exact ⟨hr, hw, decide_eq_false (by omega)⟩
  have hback := h.places.back hc
  unfold Slabs.freeSplit
  simp only [hu, hq, hk]
  cases freed with
  | true =>
    exact books_note_live (s := { s with heap := allocatorFree c s.heap }) _ h.classes hback.drop
      htally hsound
  | false => exact books_note_live _ h.classes hback.lose htally hsound

/-- A live chunk is freed. It goes to its class even if the call fails. -/
theorem Books.shsSlabsFree (h : Books m counted [] cached s) (hc : c ∈ s.live) (freed : Bool)
    (hused : counted → (s.chunk c).id ≠ slabSplitId →
      (s.mgr.slabclass (s.chunk c).id.toNat).size ≤ s.mgr.slabStat.usedSize) :
    ∃ cached', Books m counted [] cached' (shsSlabsFree (c + chunkLinkSize) freed s).2.2 ∧
      (counted → (shsSlabsFree (c + chunkLinkSize) freed s).1 = true) := by
  unfold Slabs.shsSlabsFree
  by_cases hfree : s.mgr.allocator.free = false
  · rw [if_pos hfree]
    exact ⟨cached, h, fun _ => rfl⟩
  rw [if_neg hfree]
  simp only [Nat.add_sub_cancel]
  by_cases hsplit : (s.chunk c).id = slabSplitId
  · rw [if_pos hsplit]
    exact ⟨cached, h.freeSplit hc freed, fun _ => rfl⟩
  rw [if_neg hsplit]
  obtain ⟨j, hj, hid, hsize⟩ := (h.places.tagged c hc).resolve_left hsplit
  have hto : (s.chunk c).id.toNat = j := by rw [hid, Int.toNat_natCast]
  have hplaces := (h.places.back hc).store hj hsize
  rw [hto] at hused ⊢
  -- the chunk is in the free list, and the counters are as before
  generalize hs' : (s.setChunk c { s.chunk c with next := (s.mgr.slabclass j).freeList }).setFreeList j
    (some c) = s'
  have hclasses : SameClasses m s'.mgr := by
    rw [← hs']
    exact SameClasses.setFreeList
      (s := s.setChunk c { s.chunk c with next := (s.mgr.slabclass j).freeList }) h.classes j (some c)
  have hstored : Places m s'.chunk s'.lists s'.heap.out [] (s'.live.erase c)
      (Function.update cached j (c :: cached j)) := by
    rw [← hs', lists_setFreeList]
    exact hplaces
  have hchunk : s'.chunk = Function.update s.chunk c { s.chunk c with next := s.lists j } := by
    rw [← hs']
    rfl
  have hstat : s'.mgr.slabStat = s.mgr.slabStat := by
    rw [← hs']
    rfl
  have hlive : s'.live = s.live := by
    rw [← hs']
    rfl
  have hflags : s'.refused = s.refused ∧ s'.wrapped = s.wrapped := by
    rw [← hs']
    exact ⟨rfl, rfl⟩
  have hlast : (s'.mgr.slabclass j).size = (s.mgr.slabclass j).size := by
    rw [hclasses.size, h.classes.size]
  rw [hlast, hstat]
  by_cases hless : s.mgr.slabStat.usedSize < (s.mgr.slabclass j).size
  · have hnot : ¬counted := fun hx => absurd (hused hx hsplit) (Nat.not_le.2 hless)
    rw [if_pos hless]
    exact ⟨_, ⟨⟨hclasses.1, hclasses.2, hclasses.3, hclasses.4, hclasses.5⟩, hstored,
      fun hx => absurd hx hnot, fun hx => absurd hx hnot⟩, fun hx => absurd hx hnot⟩
  · rw [if_neg hless]
    obtain ⟨u, hu⟩ : ∃ u, subSizeT s.mgr.slabStat.usedSize (s.chunk c).size = u := ⟨_, rfl⟩
    obtain ⟨q, hq⟩ : ∃ q, subSizeT s.mgr.slabStat.reqsSize (s.chunk c).reqSize = q := ⟨_, rfl⟩
    obtain ⟨f, hf⟩ : ∃ f, sizeT (s.mgr.slabStat.freeSize + (s.chunk c).size) = f := ⟨_, rfl⟩
    simp only [hu, hq, hf]
    refine ⟨_, books_note_live (s'.live.erase c) hclasses hstored (fun hx => ?_) fun hx => ?_,
      fun _ => trivial⟩
    · obtain ⟨hle, hreqs, -⟩ := h.live_le hc hx
      have hreqsle := (h.tally hx).reqs_le
      have hbounds := h.bounds hx
      rw [subSizeT_of_le (by omega) hle] at hu
      rw [subSizeT_of_le (by omega) hreqs] at hq
      rw [sizeT_of_lt (by omega)] at hf
      have hback := (h.tally hx).back (u := u) (q := q) hc (by omega) (by omega)
      rw [← hf, hchunk, hlive]
      refine hback.store (allCached_push hj) (fun x => ?_) fun x => ?_
      all_goals
        by_cases hxc : x = c
        · rw [hxc, Function.update_self]
        · rw [Function.update_of_ne hxc]
    · obtain ⟨hle, hreqs, -⟩ := h.live_le hc hx
      obtain ⟨hr, hw⟩ := h.sound hx
      exact ⟨hflags.1.trans hr, hflags.2.trans hw, decide_eq_false (by omega)⟩

end Calls

end Slabs
end Shs
