import Shs.Core.MemoryPool

/-!
# Core.PoolGiven

What the users of a pool have of its memory. `Gives` lists their regions in any order: a call of
`pool_alloc` adds one, and the region that ends where the first block is filled up to can be
extended in place, by moving the fill pointer without a call.
-/

namespace Shs
namespace MemoryPool

open Region

variable {others cells : List Region} {p : Pool} {h : Heap} {first : Block} {bs : List Block}

/-! ## The first block -/

/-- The first block and another one. -/
theorem Sound.first_apart (hs : Sound others cells p h) (hblocks : p.blocks = first :: bs)
    {b : Block} (hb : b ∈ bs) : Apart first.region b.region := by
  have hsplit := hs.blocks_apart
  rw [hblocks] at hsplit
  exact (List.pairwise_cons.1 hsplit).1 b hb

/-- The first block is used behind its header. -/
theorem Sound.first_used (hs : Sound others cells p h) (hblocks : p.blocks = first :: bs) :
    first.addr + poolSize ≤ first.last ∧ first.last ≤ first.stop := by
  have hfirst : first ∈ p.blocks := by
    rw [hblocks]
    exact List.mem_cons_self
  have hbound := hs.bounds first hfirst
  refine ⟨?_, hbound.2⟩
  obtain ⟨b₀, bs₀, h₀, hroom⟩ := hs.first
  obtain ⟨rfl, rfl⟩ := List.cons.inj (h₀.symm.trans hblocks)
  have hheader : (⟨b₀.addr, poolSize⟩ : Region) ∈ headers p.blocks ++ cells := by
    rw [hblocks]
    exact List.mem_cons_self
  obtain ⟨b, hb, hlo, hhi⟩ := hs.inside _ hheader
  have hin : b₀.addr + poolSize ≤ b.last := hhi
  have hstart : b.addr ≤ b₀.addr := hlo
  have hb' := hs.bounds b hb
  rw [hblocks] at hb
  rcases List.mem_cons.1 hb with rfl | hb
  · exact hin
  · -- the header is in no other block
    have hpos : 0 < poolSize := by decide
    rcases hs.first_apart hblocks hb with hapart | hapart
    · have hle : b₀.addr + (b₀.stop - b₀.addr) ≤ b.addr := hapart
      omega
    · have hle : b.addr + (b.stop - b.addr) ≤ b₀.addr := hapart
      omega

/-- The cell that ends at `last` of the first block takes the next `k` bytes. -/
theorem Sound.extend {e s k : Nat} {rest : List Region}
    (hs : Sound others (⟨e, s⟩ :: rest) p h) (hblocks : p.blocks = first :: bs)
    (hrest : ∀ c ∈ rest, 0 < c.size) (hend : e + s = first.last)
    (hroom : first.last + k ≤ first.stop) :
    Sound others (⟨e, s + k⟩ :: rest)
      { p with blocks := { first with last := first.last + k } :: bs } h := by
  have hb : Sound others (⟨first.last, k⟩ :: ⟨e, s⟩ :: rest)
      { p with blocks := { first with last := first.last + k } :: bs } h :=
    hs.bump (show p.blocks = [] ++ first :: bs from hblocks) (Nat.le_refl _) hroom
  have hused := hs.first_used hblocks
  -- the cell begins in the first block too
  have hstart : first.addr ≤ e := by
    obtain ⟨b, hmem, hlo, hhi⟩ := hs.inside ⟨e, s⟩ (by simp)
    have hle : b.addr ≤ e := hlo
    have hge : e + s ≤ b.last := hhi
    have hbound := hs.bounds b hmem
    rw [hblocks] at hmem
    rcases List.mem_cons.1 hmem with rfl | hmem
    · exact hle
    · have hsize : 0 < poolSize := by decide
      rcases hs.first_apart hblocks hmem with hapart | hapart
      · have hbelow : first.addr + (first.stop - first.addr) ≤ b.addr := hapart
        omega
      · have habove : b.addr + (b.stop - b.addr) ≤ first.addr := hapart
        omega
  refine ⟨hb.out, hb.first, hb.bounds, ?_, ?_⟩
  · intro c hc
    rcases List.mem_cons.1 (List.perm_middle.subset hc) with rfl | hc
    · refine ⟨_, List.mem_cons_self, hstart, ?_⟩
      show e + (s + k) ≤ first.last + k
      omega
    · refine hb.inside c ?_
      rcases List.mem_append.1 hc with hc | hc
      · exact List.mem_append_left _ hc
      · exact List.mem_append_right _ (List.mem_cons_of_mem _ (List.mem_cons_of_mem _ hc))
  · -- what is apart from the cell and from its extension, and not empty, is apart from both as one
    have hsub : (headers (⟨first.addr, first.last + k, first.stop⟩ :: bs) ++
        ⟨first.last, k⟩ :: ⟨e, s⟩ :: rest).Perm
        (⟨first.last, k⟩ :: ⟨e, s⟩ ::
          (headers (⟨first.addr, first.last + k, first.stop⟩ :: bs) ++ rest)) :=
      List.perm_middle.trans (List.Perm.cons _ List.perm_middle)
    have hall := (hsub.pairwise_iff fun hab => Apart.symm hab).1 hb.apart
    obtain ⟨hnew, hall⟩ := List.pairwise_cons.1 hall
    obtain ⟨hcell, hold⟩ := List.pairwise_cons.1 hall
    refine (List.perm_middle.pairwise_iff fun hab => Apart.symm hab).2 ?_
    refine List.pairwise_cons.2 ⟨fun c hc => ?_, hold⟩
    have hsize : 0 < c.size := by
      rcases List.mem_append.1 hc with hc | hc
      · rcases List.mem_cons.1 hc with rfl | hc
        · show 0 < poolSize
          decide
        · obtain ⟨b, -, rfl⟩ := List.mem_map.1 hc
          show 0 < poolDataSize
          decide
      · exact hrest c hc
    have hfar := hnew c (List.mem_cons_of_mem _ hc)
    have hnear := hcell c hc
    unfold Apart Region.stop at hfar hnear ⊢
    simp only at hfar hnear ⊢
    omega

/-! ## Regions of the users -/

/-- The pool has given out the regions `rs`. -/
def Gives (others : List Region) (p : Pool) (h : Heap) (rs : List Region) : Prop :=
  ∃ gs : List Given, Inv others ⟨p, h, gs⟩ ∧ (gs.map Given.region).Perm rs ∧ ∀ r ∈ rs, 0 < r.size

theorem poolAlloc_pos {size m : Nat} {p' : Pool} {h' : Heap}
    (ha : poolAlloc size p h = (some m, p', h')) : 0 < size := by
  unfold poolAlloc poolAllocN at ha
  split at ha
  · cases ha
  · omega

namespace Gives

variable {rs rs' : List Region}

theorem start {size maxSize : Nat} {h' : Heap} (hc : poolCreate size maxSize h = (some p, h')) :
    Gives h.out p h' [] :=
  ⟨[], poolCreate_inv hc, .refl _, fun _ hr => absurd hr List.not_mem_nil⟩

theorem perm (hg : Gives others p h rs) (hp : rs.Perm rs') : Gives others p h rs' := by
  obtain ⟨gs, hi, hperm, hpos⟩ := hg
  exact ⟨gs, hi, hperm.trans hp, fun r hr => hpos r (hp.symm.subset hr)⟩

theorem alloc_none {size : Nat} {p' : Pool} {h' : Heap} (hg : Gives others p h rs)
    (ha : poolAlloc size p h = (none, p', h')) : Gives others p' h' rs := by
  obtain ⟨gs, hi, hperm, hpos⟩ := hg
  have hnext := poolAlloc_inv size hi
  rw [ha] at hnext
  exact ⟨gs, hnext, hperm, hpos⟩

theorem alloc_some {size m : Nat} {p' : Pool} {h' : Heap} (hg : Gives others p h rs)
    (ha : poolAlloc size p h = (some m, p', h')) : Gives others p' h' (⟨m, size⟩ :: rs) := by
  obtain ⟨gs, hi, hperm, hpos⟩ := hg
  have hnext := poolAlloc_inv size hi
  rw [ha] at hnext
  refine ⟨_, hnext, hperm.cons _, fun r hr => ?_⟩
  rcases List.mem_cons.1 hr with rfl | hr
  · exact poolAlloc_pos ha
  · exact hpos r hr

theorem apart (hg : Gives others p h rs) :
    (headers p.blocks ++ records p ++ rs).Pairwise Apart := by
  obtain ⟨gs, hi, hperm, -⟩ := hg
  exact ((hperm.append_left _).pairwise_iff fun hab => Apart.symm hab).1 hi.parts_apart

theorem inside (hg : Gives others p h rs) {r : Region} (hr : r ∈ rs) :
    ∃ o ∈ owned p, Within r o := by
  obtain ⟨gs, hi, hperm, -⟩ := hg
  exact hi.parts_within (List.mem_append_right _ (hperm.symm.subset hr))

/-- Where the upper part of the address space is taken, the regions end below it. -/
theorem stop_le {rs : List Region} {top : Nat} (hg : Gives others p h rs)
    (htop : (⟨top, heapTop - top⟩ : Region) ∈ others) {r : Region} (hr : r ∈ owned p) :
    r.stop ≤ top := by
  obtain ⟨gs, hi, -, -⟩ := hg
  have hout := hi.sound.owned_out hr
  have hapart := ((hi.sound.out.pairwise_iff fun hab => Apart.symm hab).1 h.packed.apart)
  have hsize := h.sized r hout
  have hend := h.packed.inside r hout
  rcases (List.pairwise_append.1 hapart).2.2 r hr _ htop with hbelow | habove
  · exact hbelow
  · have hle : top + (heapTop - top) ≤ r.start := habove
    unfold Region.stop at hend ⊢
    omega

/-- A region that ends at `last` of the first block came from a block. -/
theorem small_of_end {gs : List Given} {g : Given} (hi : Inv others ⟨p, h, gs⟩) (hg : g ∈ gs)
    (hblocks : p.blocks = first :: bs) (hpos : 0 < g.region.size)
    (hend : g.region.stop = first.last) : g.small = true := by
  by_contra hlarge
  have hmem : g.region ∈ largeGiven gs :=
    List.mem_map_of_mem (List.mem_filter.2 ⟨hg, by simpa using hlarge⟩)
  have hown : g.region ∈ p.large.map fun l => (⟨l.alloc, l.size⟩ : Region) := by
    have heq : largeGiven gs = p.large.map _ := hi.large
    rwa [heq] at hmem
  have hfirst : first.region ∈ p.blocks.map Block.region := by
    rw [hblocks]
    exact List.mem_cons_self
  have hused := hi.sound.first_used hblocks
  have hsize : 0 < poolSize := by decide
  rcases (List.pairwise_append.1 hi.owned_apart).2.2 _ hfirst _ hown with hapart | hapart
  · have hle : first.addr + (first.stop - first.addr) ≤ g.region.start := hapart
    unfold Region.stop at hend
    omega
  · have hle : g.region.stop ≤ first.addr := hapart
    omega

/-- The region at the end of the first block is extended in place. -/
theorem extend {e s k : Nat} (hg : Gives others p h (⟨e, s⟩ :: rs))
    (hblocks : p.blocks = first :: bs) (hend : e + s = first.last)
    (hroom : first.last + k ≤ first.stop) :
    Gives others { p with blocks := { first with last := first.last + k } :: bs } h
      (⟨e, s + k⟩ :: rs) := by
  obtain ⟨gs, hi, hperm, hpos⟩ := hg
  have hs : 0 < s := hpos ⟨e, s⟩ List.mem_cons_self
  obtain ⟨g, hmem, hregion⟩ := List.mem_map.1 (hperm.symm.subset List.mem_cons_self)
  have hsmall : g.small = true :=
    small_of_end hi hmem hblocks (by rw [hregion]; exact hs) (by rw [hregion]; exact hend)
  obtain ⟨pre, post, rfl⟩ := List.append_of_mem hmem
  obtain ⟨region, small⟩ := g
  simp only at hregion hsmall
  subst hregion hsmall
  have hmiddle : ∀ r : Region, ((pre ++ ⟨r, true⟩ :: post).map Given.region).Perm
      (r :: (pre ++ post).map Given.region) := by
    intro r
    simp only [List.map_append, List.map_cons]
    exact List.perm_middle
  have hrest : ((pre ++ post).map Given.region).Perm rs :=
    ((hmiddle _).symm.trans hperm).cons_inv
  have hcells : ∀ r : Region, (records p ++ smallGiven (pre ++ ⟨r, true⟩ :: post)).Perm
      (r :: (records p ++ smallGiven (pre ++ post))) := by
    intro r
    simp only [smallGiven, List.filter_append, List.filter_cons_of_pos, List.map_append,
      List.map_cons]
    rw [← List.append_assoc, ← List.append_assoc]
    exact List.perm_middle
  have hlarge : ∀ r : Region, largeGiven (pre ++ ⟨r, true⟩ :: post) = largeGiven (pre ++ post) := by
    intro r
    simp [largeGiven]
  refine ⟨pre ++ ⟨⟨e, s + k⟩, true⟩ :: post, ⟨?_, ?_, ?_⟩, ?_, ?_⟩
  · -- the cells of the pool
    refine Sound.perm ?_ (hcells ⟨e, s + k⟩).symm
    refine (hi.sound.perm (hcells ⟨e, s⟩)).extend hblocks (fun c hc => ?_) hend hroom
    rcases List.mem_append.1 hc with hc | hc
    · obtain ⟨l, -, rfl⟩ := List.mem_map.1 hc
      show 0 < poolLargeSize
      decide
    · refine hpos c (List.mem_cons_of_mem _ (hrest.subset ?_))
      obtain ⟨g, hg, rfl⟩ := List.mem_map.1 hc
      exact List.mem_map_of_mem (List.mem_of_mem_filter hg)
  · have heq := hi.large
    show largeGiven (pre ++ ⟨⟨e, s + k⟩, true⟩ :: post) = _
    rw [hlarge]
    simp only [hlarge] at heq
    exact heq
  · intro g hg hsm
    rcases List.mem_append.1 hg with hg | hg
    · exact hi.aligned g (List.mem_append_left _ hg) hsm
    · rcases List.mem_cons.1 hg with rfl | hg
      · exact hi.aligned ⟨⟨e, s⟩, true⟩ (List.mem_append_right _ List.mem_cons_self) rfl
      · exact hi.aligned g (List.mem_append_right _ (List.mem_cons_of_mem _ hg)) hsm
  · exact (hmiddle _).trans (hrest.cons _)
  · intro r hr
    rcases List.mem_cons.1 hr with rfl | hr
    · show 0 < s + k
      omega
    · exact hpos r (List.mem_cons_of_mem _ hr)

end Gives

end MemoryPool
end Shs
