import Mathlib.Data.List.Induction
import Shs.Core.Heap
import Shs.Core.Math
import Shs.Lib.Run

/-!
# Core.MemoryPool

The memory pool of `shs_memory_pool.cc`. The chain over `data.next` is the list of its blocks, and
the chain from `large` the list of the large allocations, the last one first. Pointers to the pool
are not null.

Small allocations come from the blocks between `last` and `end`; the headers of the blocks and the
records of the large allocations stand in the same blocks. `Sound` says that all of these are apart
and below `last`.
-/

namespace Shs
namespace MemoryPool

open Region

/-- `sizeof(pool_t)`, `sizeof(pool_data_t)` and `sizeof(pool_large_t)`. -/
def poolSize : Nat := 48
def poolDataSize : Nat := 24
def poolLargeSize : Nat := 24

def SHS_ALIGNMENT : Nat := 8

/-- `shs_align_ptr(p, SHS_ALIGNMENT)`. -/
def shsAlignPtr (p : Nat) : Nat := sizeT (p + (SHS_ALIGNMENT - 1)) / SHS_ALIGNMENT * SHS_ALIGNMENT

/-- `pool_data_t` of the block at `addr`. -/
structure Block where
  addr : Nat
  last : Nat
  stop : Nat

/-- `pool_large_t`, at `record`. -/
structure Large where
  record : Nat
  alloc  : Nat
  size   : Nat

/-- `pool_t`; `current` is the place of the current block in the chain. -/
structure Pool where
  blocks  : List Block
  max     : Nat
  current : Nat := 0
  large   : List Large := []

def memoryAlloc (size : Nat) (h : Heap) : Option Nat × Heap :=
  if size = 0 then (none, h) else h.alloc (fun _ => true) size

/-- What `posix_memalign` demands of an alignment: a power of two and a multiple of the size of a
pointer. -/
def alignmentOk (alignment : Nat) : Bool :=
  alignment != 0 && alignment &&& (alignment - 1) == 0 && alignment % 8 == 0

/-- `memory_memalign`; its pointer stays null when `posix_memalign` fails. -/
def memoryMemalign (alignment size : Nat) (h : Heap) : Option Nat × Heap :=
  if size = 0 then (none, h)
  else h.alloc (fun a => alignmentOk alignment && a % alignment == 0) size

def poolCreate (size maxSize : Nat) (h : Heap) : Option Pool × Heap :=
  if size = 0 then (none, h)
  else
    let size := if size < poolSize then size + poolSize else size
    match memoryAlloc size h with
    | (none, h) => (none, h)
    | (some p, h) =>
      (some { blocks := [⟨p, p + poolSize, p + size⟩]
              max := if size - poolSize < maxSize then size - poolSize else maxSize }, h)

/-- The loop of `pool_alloc` over the blocks from the current one on. -/
def allocWalk (size : Nat) : List Block → Option (Nat × List Block)
  | [] => none
  | p :: ps =>
    let m := shsAlignPtr p.last
    if m < p.stop ∧ size ≤ p.stop - m then some (m, { p with last := m + size } :: ps)
    else (allocWalk size ps).map fun (m, ps) => (m, p :: ps)

/-- The local `current` behind the loop of `pool_alloc_block`, where the block at the head of the
list has place `i`. -/
def nextCurrent : Nat → List Block → Option Nat
  | i, p :: n :: ps =>
    match nextCurrent (i + 1) (n :: ps) with
    | some c => some c
    | none => if subSizeT p.stop p.last < SHS_ALIGNMENT then some (i + 1) else none
  | _, _ => none

def poolAllocBlock (size : Nat) (pool : Pool) (h : Heap) : Option Nat × Pool × Heap :=
  match pool.blocks with
  | [] => (none, pool, h)
  | first :: _ =>
    let psize := first.stop - first.addr
    match memoryAlloc psize h with
    | (none, h) => (none, pool, h)
    | (some np, h) =>
      let nm := shsAlignPtr (np + poolDataSize)
      (some nm,
        { pool with
          blocks := pool.blocks ++ [⟨np, nm + size, np + psize⟩]
          current := (nextCurrent pool.current (pool.blocks.drop pool.current)).getD
            pool.blocks.length }, h)

/-- `pool_alloc` of a size up to `max`. -/
def poolAllocSmall (size : Nat) (pool : Pool) (h : Heap) : Option Nat × Pool × Heap :=
  match allocWalk size (pool.blocks.drop pool.current) with
  | some (m, ps) => (some m, { pool with blocks := pool.blocks.take pool.current ++ ps }, h)
  | none => poolAllocBlock size pool h

/-- The end of `pool_alloc_large` and of `pool_memalign`, behind the call for the record: the region
at `p` is put in front of the large ones, or freed when there is no record. -/
def recordLarge (p size : Nat) : Option Nat × Pool × Heap → Option Nat × Pool × Heap
  | (none, pool, h) => (none, pool, h.free p)
  | (some large, pool, h) => (some p, { pool with large := ⟨large, p, size⟩ :: pool.large }, h)

/-- `pool_alloc` and `pool_alloc_large`, which call each other at most `n` times. -/
def poolAllocN : Nat → Nat → Pool → Heap → Option Nat × Pool × Heap
  | 0, _, pool, h => (none, pool, h)
  | n + 1, size, pool, h =>
    if size = 0 then (none, pool, h)
    else if size ≤ pool.max then poolAllocSmall size pool h
    else
      match memoryAlloc size h with
      | (none, h) => (none, pool, h)
      | (some p, h) => recordLarge p size (poolAllocN n poolLargeSize pool h)

/-- `pool_alloc`. Every call that finds the size too large asks the heap, so one call more than the
heap has answers is enough. -/
def poolAlloc (size : Nat) (pool : Pool) (h : Heap) : Option Nat × Pool × Heap :=
  poolAllocN (h.answers.length + 1) size pool h

def poolMemalign (size alignment : Nat) (pool : Pool) (h : Heap) : Option Nat × Pool × Heap :=
  match memoryMemalign alignment size h with
  | (none, h) => (none, pool, h)
  | (some p, h) => recordLarge p size (poolAlloc poolLargeSize pool h)

/-- The addresses that `pool_destroy` frees, in order. -/
def poolDestroy (pool : Pool) : List Nat :=
  pool.large.map Large.alloc ++ pool.blocks.map Block.addr

/-! ## Runs -/

inductive Act where
  | alloc (size : Nat)
  | calloc (size : Nat)
  | memalign (size alignment : Nat)

/-- A region returned to the caller; `small` when it came from a block. -/
structure Given where
  region : Region
  small  : Bool

structure State where
  pool  : Pool
  heap  : Heap
  given : List Given := []

/-- The state behind a call for `size` bytes. -/
def State.answer (s : State) (size : Nat) (small : Bool) : Option Nat × Pool × Heap → State
  | (none, pool, h) => { s with pool := pool, heap := h }
  | (some p, pool, h) => ⟨pool, h, ⟨⟨p, size⟩, small⟩ :: s.given⟩

/-- `pool_calloc` differs from `pool_alloc` in the contents of the region only. -/
def step (s : State) : Act → State
  | .alloc size => s.answer size (size ≤ s.pool.max) (poolAlloc size s.pool s.heap)
  | .calloc size => s.answer size (size ≤ s.pool.max) (poolAlloc size s.pool s.heap)
  | .memalign size alignment => s.answer size false (poolMemalign size alignment s.pool s.heap)

/-! ## The regions of a pool -/

/-- The memory of the pool: its blocks and the large allocations. -/
def owned (p : Pool) : List Region :=
  p.blocks.map (fun b => ⟨b.addr, b.stop - b.addr⟩) ++ p.large.map fun l => ⟨l.alloc, l.size⟩

/-- The headers of the blocks. -/
def headers : List Block → List Region
  | [] => []
  | b :: bs => ⟨b.addr, poolSize⟩ :: bs.map fun b => ⟨b.addr, poolDataSize⟩

def records (p : Pool) : List Region := p.large.map fun l => ⟨l.record, poolLargeSize⟩

/-- The bookkeeping of the pool and the regions it has returned. -/
def State.parts (s : State) : List Region :=
  headers s.pool.blocks ++ records s.pool ++ s.given.map Given.region

/-! ## Arithmetic -/

theorem shsAlignPtr_spec {p : Nat} (h : p ≤ heapTop) :
    p ≤ shsAlignPtr p ∧ shsAlignPtr p < p + 8 ∧ shsAlignPtr p % 8 = 0 := by
  unfold heapTop at h
  unfold shsAlignPtr SHS_ALIGNMENT
  rw [sizeT_of_lt (by omega)]
  omega

def Block.region (b : Block) : Region := ⟨b.addr, b.stop - b.addr⟩

theorem allocWalk_some {size m : Nat} {l ps : List Block} (h : allocWalk size l = some (m, ps)) :
    ∃ pre b post, l = pre ++ b :: post ∧ ps = pre ++ { b with last := m + size } :: post ∧
      m = shsAlignPtr b.last ∧ m < b.stop ∧ size ≤ b.stop - m := by
  induction l generalizing ps with
  | nil => cases h
  | cons b l ih =>
    rw [allocWalk] at h
    simp only at h
    split at h
    · rename_i hroom
      cases h
      exact ⟨[], b, l, rfl, rfl, rfl, hroom.1, hroom.2⟩
    · obtain ⟨⟨m', ps'⟩, hw, heq⟩ := Option.map_eq_some_iff.1 h
      simp only [Prod.mk.injEq] at heq
      obtain ⟨rfl, rfl⟩ := heq
      obtain ⟨pre, b', post, rfl, rfl, hm⟩ := ih hw
      exact ⟨b :: pre, b', post, rfl, rfl, hm⟩

/-! ## What every call keeps -/

/-- The pool, where `cells` are the parts of its blocks in use besides the headers and `others`
the regions that are not the pool's. -/
structure Sound (others cells : List Region) (p : Pool) (h : Heap) : Prop where
  out    : h.out.Perm (owned p ++ others)
  first  : ∃ b bs, p.blocks = b :: bs ∧ b.addr + (p.max + poolSize) ≤ b.stop
  bounds : ∀ b ∈ p.blocks, b.addr ≤ b.last ∧ b.last ≤ b.stop
  inside : ∀ c ∈ headers p.blocks ++ cells, ∃ b ∈ p.blocks, b.addr ≤ c.start ∧ c.stop ≤ b.last
  apart  : (headers p.blocks ++ cells).Pairwise Apart

variable {others cells : List Region} {p : Pool} {h : Heap}

theorem headers_replace (pre post : List Block) (b b' : Block) (hb : b'.addr = b.addr) :
    headers (pre ++ b' :: post) = headers (pre ++ b :: post) := by
  cases pre with
  | nil => simp [headers, hb]
  | cons c pre => simp [headers, hb]

theorem headers_concat {b : Block} {bs : List Block} (c : Block) :
    headers (b :: bs ++ [c]) = headers (b :: bs) ++ [⟨c.addr, poolDataSize⟩] := by
  simp [headers]

theorem region_within {b : Block} {c : Region} (hb : b.addr ≤ b.last ∧ b.last ≤ b.stop)
    (hc : b.addr ≤ c.start ∧ c.stop ≤ b.last) : Within c b.region := by
  refine ⟨hc.1, ?_⟩
  show c.stop ≤ b.addr + (b.stop - b.addr)
  omega

namespace Sound

theorem owned_out (hs : Sound others cells p h) {r : Region} (hr : r ∈ owned p) : r ∈ h.out :=
  hs.out.symm.subset (List.mem_append_left _ hr)

theorem block_out (hs : Sound others cells p h) {b : Block} (hb : b ∈ p.blocks) :
    b.region ∈ h.out :=
  hs.owned_out (List.mem_append_left _ (List.mem_map_of_mem hb))

theorem block_top (hs : Sound others cells p h) {b : Block} (hb : b ∈ p.blocks) :
    b.stop ≤ heapTop := by
  have htop : b.addr + (b.stop - b.addr) ≤ heapTop := h.packed.inside _ (hs.block_out hb)
  have hbound := hs.bounds b hb
  omega

/-- Two blocks of the chain are apart. -/
theorem blocks_apart (hs : Sound others cells p h) :
    p.blocks.Pairwise fun b b' => Apart b.region b'.region := by
  have hout : (owned p ++ others).Pairwise Apart :=
    (hs.out.pairwise_iff fun hab => Apart.symm hab).1 h.packed.apart
  exact List.pairwise_map.1 (List.pairwise_append.1 (List.pairwise_append.1 hout).1).1

/-- The bookkeeping and the parts in use lie in memory that was given out. -/
theorem within_out (hs : Sound others cells p h) {c : Region}
    (hc : c ∈ headers p.blocks ++ cells) : ∃ b ∈ p.blocks, Within c b.region := by
  obtain ⟨b, hb, hin⟩ := hs.inside c hc
  exact ⟨b, hb, region_within (hs.bounds b hb) hin⟩

/-- A cell behind `last` of a block is taken into use. -/
theorem bump {pre post : List Block} {b : Block} {m size cur : Nat} (hs : Sound others cells p h)
    (hblocks : p.blocks = pre ++ b :: post) (hm : b.last ≤ m) (hroom : m + size ≤ b.stop) :
    Sound others (⟨m, size⟩ :: cells)
      { p with blocks := pre ++ { b with last := m + size } :: post, current := cur } h := by
  have hb : b ∈ p.blocks := by simp [hblocks]
  have hbound := hs.bounds b hb
  have hheaders : headers (pre ++ { b with last := m + size } :: post) = headers p.blocks := by
    rw [hblocks]
    exact headers_replace pre post b { b with last := m + size } rfl
  have hnew : ∀ c ∈ headers p.blocks ++ cells, Apart ⟨m, size⟩ c := by
    intro c hc
    obtain ⟨b', hb', hin⟩ := hs.inside c hc
    -- the cells of the same block end at `last`, those of another one are in another region
    have hsplit := hs.blocks_apart
    rw [hblocks] at hb' hsplit
    have hcell : Within ⟨m, size⟩ b.region := by
      refine ⟨by show b.addr ≤ m; omega, ?_⟩
      show m + size ≤ b.addr + (b.stop - b.addr)
      omega
    obtain ⟨_, hmid, hpre⟩ := List.pairwise_append.1 hsplit
    obtain ⟨hpost, _⟩ := List.pairwise_cons.1 hmid
    rcases List.mem_append.1 hb' with hb' | hb'
    · have hwithin := region_within (hs.bounds b' (by simp [hblocks, hb'])) hin
      exact ((hpre b' hb' b List.mem_cons_self).symm).mono hcell hwithin
    · rcases List.mem_cons.1 hb' with rfl | hb'
      · exact .inr (by show c.stop ≤ m; omega)
      · have hwithin := region_within (hs.bounds b' (by simp [hblocks, hb'])) hin
        exact (hpost b' hb').mono hcell hwithin
  refine ⟨?_, ?_, ?_, ?_, ?_⟩
  · have howned : owned { p with
        blocks := pre ++ { b with last := m + size } :: post, current := cur } = owned p := by
      simp [owned, hblocks]
    rw [howned]
    exact hs.out
  · obtain ⟨b₀, bs, h₀, hfirst⟩ := hs.first
    rw [hblocks] at h₀
    cases pre with
    | nil =>
      cases h₀
      exact ⟨_, post, rfl, hfirst⟩
    | cons c pre =>
      cases h₀
      exact ⟨_, _, rfl, hfirst⟩
  · intro b' hb'
    rcases List.mem_append.1 hb' with hb' | hb'
    · exact hs.bounds b' (by simp [hblocks, hb'])
    · rcases List.mem_cons.1 hb' with rfl | hb'
      · exact ⟨by show b.addr ≤ m + size; omega, hroom⟩
      · exact hs.bounds b' (by simp [hblocks, hb'])
  · show ∀ c ∈ headers (pre ++ { b with last := m + size } :: post) ++ ⟨m, size⟩ :: cells, _
    rw [hheaders]
    intro c hc
    rcases List.mem_cons.1 (List.perm_middle.subset hc) with rfl | hc
    · exact ⟨_, List.mem_append_right _ List.mem_cons_self, by show b.addr ≤ m; omega,
        Nat.le_refl _⟩
    · obtain ⟨b', hb', hin⟩ := hs.inside c hc
      rw [hblocks] at hb'
      rcases List.mem_append.1 hb' with hb' | hb'
      · exact ⟨b', List.mem_append_left _ hb', hin⟩
      · rcases List.mem_cons.1 hb' with rfl | hb'
        · exact ⟨_, List.mem_append_right _ List.mem_cons_self, hin.1,
            by show c.stop ≤ m + size; omega⟩
        · exact ⟨b', List.mem_append_right _ (List.mem_cons_of_mem _ hb'), hin⟩
  · show (headers (pre ++ { b with last := m + size } :: post) ++ ⟨m, size⟩ :: cells).Pairwise Apart
    rw [hheaders]
    refine (List.perm_middle.pairwise_iff fun hab => Apart.symm hab).2 ?_
    exact List.pairwise_cons.2 ⟨hnew, hs.apart⟩

/-- A new block is put behind the chain, with its first cell in use. -/
theorem addBlock {h' : Heap} {np psize size cur : Nat} (hs : Sound others cells p h)
    (hfresh : Fresh h.out ⟨np, psize⟩) (hout : h'.out = ⟨np, psize⟩ :: h.out)
    (hfit : shsAlignPtr (np + poolDataSize) + size ≤ np + psize)
    (halign : np + poolDataSize ≤ shsAlignPtr (np + poolDataSize)) :
    Sound others (⟨shsAlignPtr (np + poolDataSize), size⟩ :: cells)
      { p with
        blocks := p.blocks ++ [⟨np, shsAlignPtr (np + poolDataSize) + size, np + psize⟩]
        current := cur } h' := by
  obtain ⟨b₀, bs, hblocks, hfirst⟩ := hs.first
  -- the header and the cell lie in the new region, which is apart from all older ones
  have hheader : Within ⟨np, poolDataSize⟩ ⟨np, psize⟩ := by
    refine ⟨Nat.le_refl _, ?_⟩
    show np + poolDataSize ≤ np + psize
    omega
  have hcell : Within ⟨shsAlignPtr (np + poolDataSize), size⟩ ⟨np, psize⟩ := by
    refine ⟨?_, hfit⟩
    show np ≤ shsAlignPtr (np + poolDataSize)
    omega
  have hold : ∀ c ∈ headers p.blocks ++ cells, ∀ x, Within x ⟨np, psize⟩ → Apart x c := by
    intro c hc x hx
    obtain ⟨b, hb, hin⟩ := hs.within_out hc
    exact (hfresh.apart _ (hs.block_out hb)).mono hx hin
  have hperm : (headers (p.blocks ++ [⟨np, shsAlignPtr (np + poolDataSize) + size, np + psize⟩]) ++
      ⟨shsAlignPtr (np + poolDataSize), size⟩ :: cells).Perm
      (⟨np, poolDataSize⟩ :: ⟨shsAlignPtr (np + poolDataSize), size⟩ ::
        (headers p.blocks ++ cells)) := by
    rw [hblocks, headers_concat, List.append_assoc, List.singleton_append]
    exact (List.perm_middle).trans (List.Perm.cons _ List.perm_middle)
  refine ⟨?_, ⟨b₀, _, by rw [hblocks]; rfl, hfirst⟩, ?_, ?_, ?_⟩
  · rw [hout]
    have howned : (owned { p with
        blocks := p.blocks ++ [⟨np, shsAlignPtr (np + poolDataSize) + size, np + psize⟩]
        current := cur }).Perm (⟨np, psize⟩ :: owned p) := by
      simp only [owned, List.map_append, List.map_cons, List.map_nil, List.append_assoc,
        List.singleton_append, Nat.add_sub_cancel_left]
      exact List.perm_middle
    exact (List.Perm.cons _ hs.out).trans (howned.symm.append_right others)
  · intro b hb
    rcases List.mem_append.1 hb with hb | hb
    · exact hs.bounds b hb
    · rw [List.mem_singleton.1 hb]
      exact ⟨by show np ≤ shsAlignPtr (np + poolDataSize) + size; omega, hfit⟩
  · intro c hc
    rcases List.mem_cons.1 (hperm.subset hc) with rfl | hc
    · exact ⟨_, List.mem_append_right _ (List.mem_singleton_self _), Nat.le_refl _, by
        show np + poolDataSize ≤ shsAlignPtr (np + poolDataSize) + size
        omega⟩
    · rcases List.mem_cons.1 hc with rfl | hc
      · exact ⟨_, List.mem_append_right _ (List.mem_singleton_self _), by
          show np ≤ shsAlignPtr (np + poolDataSize)
          omega, Nat.le_refl _⟩
      · obtain ⟨b, hb, hin⟩ := hs.inside c hc
        exact ⟨b, List.mem_append_left _ hb, hin⟩
  · refine (hperm.pairwise_iff fun hab => Apart.symm hab).2 ?_
    refine List.pairwise_cons.2 ⟨fun c hc => ?_, List.pairwise_cons.2 ⟨fun c hc => ?_, hs.apart⟩⟩
    · rcases List.mem_cons.1 hc with rfl | hc
      · exact .inl (show np + poolDataSize ≤ shsAlignPtr (np + poolDataSize) from halign)
      · exact hold c hc _ hheader
    · exact hold c hc _ hcell

/-- The heap may change as long as the same regions are given out. -/
theorem congr_heap {h' : Heap} (hs : Sound others cells p h) (hout : h'.out.Perm h.out) :
    Sound others cells p h' :=
  ⟨hout.trans hs.out, hs.first, hs.bounds, hs.inside, hs.apart⟩

end Sound

/-- What a call for `size` bytes has done: nothing, or a new cell in a block. -/
def SmallCall (others cells : List Region) (size : Nat) (p : Pool) :
    Option Nat × Pool × Heap → Prop
  | (none, p', h') => p' = p ∧ Sound others cells p h'
  | (some m, p', h') =>
    m % 8 = 0 ∧ p'.max = p.max ∧ p'.large = p.large ∧ Sound others (⟨m, size⟩ :: cells) p' h'

theorem memoryAlloc_some {size a : Nat} {h' : Heap} (ha : memoryAlloc size h = (some a, h')) :
    Fresh h.out ⟨a, size⟩ ∧ h'.out = ⟨a, size⟩ :: h.out := by
  unfold memoryAlloc at ha
  split at ha
  · cases ha
  · have hres : (h.alloc (fun _ => true) size).1 = some a := by rw [ha]
    obtain ⟨hfresh, _, hout⟩ := Heap.alloc_some hres
    rw [ha] at hout
    exact ⟨hfresh, hout⟩

theorem memoryAlloc_none {size : Nat} {h' : Heap} (ha : memoryAlloc size h = (none, h')) :
    h'.out = h.out := by
  unfold memoryAlloc at ha
  split at ha
  · cases ha
    rfl
  · have hres : (h.alloc (fun _ => true) size).1 = none := by rw [ha]
    have hout := Heap.alloc_none hres
    rw [ha] at hout
    exact hout

theorem poolAllocBlock_sound (hs : Sound others cells p h) {size : Nat} (hmax : size ≤ p.max) :
    SmallCall others cells size p (poolAllocBlock size p h) := by
  obtain ⟨b₀, bs, hblocks, hfirst⟩ := hs.first
  unfold poolAllocBlock
  rw [hblocks]
  simp only
  rcases hmem : memoryAlloc (b₀.stop - b₀.addr) h with ⟨_ | np, h'⟩
  · exact ⟨rfl, hs.congr_heap (List.Perm.of_eq (memoryAlloc_none hmem))⟩
  · obtain ⟨hfresh, hout⟩ := memoryAlloc_some hmem
    have htop : np + (b₀.stop - b₀.addr) ≤ heapTop := hfresh.top
    have hsize : poolSize = 48 := rfl
    have hdata : poolDataSize = 24 := rfl
    obtain ⟨hlo, hhi, hmod⟩ := shsAlignPtr_spec (p := np + poolDataSize) (by omega)
    have hbound := hs.bounds b₀ (by simp [hblocks])
    refine ⟨hmod, rfl, rfl, ?_⟩
    rw [← hblocks]
    exact hs.addBlock hfresh hout (by omega) hlo

theorem poolAllocSmall_sound (hs : Sound others cells p h) {size : Nat} (hmax : size ≤ p.max) :
    SmallCall others cells size p (poolAllocSmall size p h) := by
  unfold poolAllocSmall
  split
  · rename_i m ps hwalk
    obtain ⟨pre, b, post, hdrop, rfl, rfl, hlt, hroom⟩ := allocWalk_some hwalk
    have hblocks : p.blocks = (p.blocks.take p.current ++ pre) ++ b :: post := by
      rw [List.append_assoc, ← hdrop, List.take_append_drop]
    have hb : b ∈ p.blocks := by
      rw [hblocks]
      simp
    have htop := hs.block_top hb
    have hbound := hs.bounds b hb
    obtain ⟨hlo, _, hmod⟩ := shsAlignPtr_spec (p := b.last) (by omega)
    refine ⟨hmod, rfl, rfl, ?_⟩
    rw [← List.append_assoc]
    exact hs.bump hblocks hlo (by omega)
  · exact poolAllocBlock_sound hs hmax

/-- What a call that gets `size` bytes from the heap has done: nothing, or a new large allocation
with its record in a block. -/
def LargeCall (others cells : List Region) (size : Nat) (p : Pool) :
    Option Nat × Pool × Heap → Prop
  | (none, p', h') => p' = p ∧ Sound others cells p h'
  | (some a, p', h') =>
    poolLargeSize ≤ p.max ∧ p'.max = p.max ∧
      ∃ r, p'.large = ⟨r, a, size⟩ :: p.large ∧ Sound others (⟨r, poolLargeSize⟩ :: cells) p' h'

/-- The region is not the pool's until it is recorded. -/
theorem Sound.lend {h' : Heap} {r : Region} (hs : Sound others cells p h)
    (hout : h'.out = r :: h.out) : Sound (r :: others) cells p h' := by
  refine ⟨?_, hs.first, hs.bounds, hs.inside, hs.apart⟩
  rw [hout]
  exact (List.Perm.cons r hs.out).trans List.perm_middle.symm

theorem Sound.record {a size r : Nat} (hs : Sound (⟨a, size⟩ :: others) cells p h) :
    Sound others cells { p with large := ⟨r, a, size⟩ :: p.large } h := by
  refine ⟨?_, hs.first, hs.bounds, hs.inside, hs.apart⟩
  have howned : (owned { p with large := ⟨r, a, size⟩ :: p.large }).Perm (⟨a, size⟩ :: owned p) := by
    simp only [owned, List.map_cons]
    exact List.perm_middle
  exact (hs.out.trans List.perm_middle).trans (howned.symm.append_right others)

theorem Sound.giveBack {a size : Nat} (hs : Sound (⟨a, size⟩ :: others) cells p h) :
    Sound others cells p (h.free a) :=
  ⟨Heap.free_perm (r := ⟨a, size⟩) (hs.out.trans List.perm_middle), hs.first, hs.bounds, hs.inside,
    hs.apart⟩

/-- A region of `size` bytes from the heap, and then the call for its record. -/
theorem largeCall_of_record {a size : Nat} {res : Option Nat × Pool × Heap}
    (hsmall : poolLargeSize ≤ p.max →
      SmallCall (⟨a, size⟩ :: others) cells poolLargeSize p res)
    (hlarge : p.max < poolLargeSize →
      LargeCall (⟨a, size⟩ :: others) cells poolLargeSize p res) :
    LargeCall others cells size p (recordLarge a size res) := by
  obtain ⟨_ | r, p', h'⟩ := res
  · have hnone : p' = p ∧ Sound (⟨a, size⟩ :: others) cells p h' := by
      rcases Nat.lt_or_ge p.max poolLargeSize with hlt | hge
      · exact hlarge hlt
      · exact hsmall hge
    exact ⟨hnone.1, hnone.2.giveBack⟩
  · rcases Nat.lt_or_ge p.max poolLargeSize with hlt | hge
    · exact absurd (hlarge hlt).1 (Nat.not_le.2 hlt)
    · obtain ⟨_, hmax, hl, hsound⟩ := hsmall hge
      exact ⟨hge, hmax, r, by rw [← hl], hsound.record⟩

theorem poolAllocN_sound (n size : Nat) {others cells : List Region} {p : Pool} {h : Heap}
    (hs : Sound others cells p h) :
    (size ≤ p.max → SmallCall others cells size p (poolAllocN n size p h)) ∧
      (p.max < size → LargeCall others cells size p (poolAllocN n size p h)) := by
  induction n generalizing others size p h with
  | zero => exact ⟨fun _ => ⟨rfl, hs⟩, fun _ => ⟨rfl, hs⟩⟩
  | succ n ih =>
    rw [poolAllocN]
    by_cases hz : size = 0
    · rw [if_pos hz]
      exact ⟨fun _ => ⟨rfl, hs⟩, fun _ => ⟨rfl, hs⟩⟩
    rw [if_neg hz]
    by_cases hmax : size ≤ p.max
    · rw [if_pos hmax]
      exact ⟨fun _ => poolAllocSmall_sound hs hmax, fun hlt => absurd hmax (Nat.not_le.2 hlt)⟩
    rw [if_neg hmax]
    refine ⟨fun hle => absurd hle hmax, fun _ => ?_⟩
    rcases hmem : memoryAlloc size h with ⟨_ | a, h₁⟩
    · exact ⟨rfl, hs.congr_heap (List.Perm.of_eq (memoryAlloc_none hmem))⟩
    · have hout := (memoryAlloc_some hmem).2
      have hrec := ih poolLargeSize (hs.lend hout)
      exact largeCall_of_record hrec.1 hrec.2

theorem poolMemalign_sound {size alignment : Nat} (hs : Sound others cells p h) :
    LargeCall others cells size p (poolMemalign size alignment p h) := by
  unfold poolMemalign memoryMemalign
  by_cases hz : size = 0
  · rw [if_pos hz]
    exact ⟨rfl, hs⟩
  rw [if_neg hz]
  rcases hmem : h.alloc (fun a => alignmentOk alignment && a % alignment == 0) size with ⟨_ | a, h₁⟩
  · refine ⟨rfl, hs.congr_heap (List.Perm.of_eq ?_)⟩
    have hout := Heap.alloc_none (congrArg Prod.fst hmem)
    rwa [hmem] at hout
  · have hout := (Heap.alloc_some (congrArg Prod.fst hmem)).2.2
    rw [hmem] at hout
    have hrec := poolAllocN_sound (h₁.answers.length + 1) poolLargeSize (hs.lend hout)
    exact largeCall_of_record hrec.1 hrec.2

/-! ## Whole runs -/

/-- The regions returned from blocks, and those from the heap. -/
def smallGiven (gs : List Given) : List Region := (gs.filter (·.small)).map Given.region
def largeGiven (gs : List Given) : List Region := (gs.filter fun g => !g.small).map Given.region

structure Inv (others : List Region) (s : State) : Prop where
  sound   : Sound others (records s.pool ++ smallGiven s.given) s.pool s.heap
  large   : largeGiven s.given = s.pool.large.map fun l => ⟨l.alloc, l.size⟩
  aligned : ∀ g ∈ s.given, g.small = true → g.region.start % SHS_ALIGNMENT = 0

theorem Sound.perm {cells' : List Region} (hs : Sound others cells p h) (hp : cells.Perm cells') :
    Sound others cells' p h :=
  ⟨hs.out, hs.first, hs.bounds, fun c hc => hs.inside c ((hp.append_left _).symm.subset hc),
    ((hp.append_left _).pairwise_iff fun hab => Apart.symm hab).1 hs.apart⟩

theorem Inv.small {s : State} {size : Nat} {res : Option Nat × Pool × Heap} (hi : Inv others s)
    (hcall : SmallCall others (records s.pool ++ smallGiven s.given) size s.pool res) :
    Inv others (s.answer size true res) := by
  obtain ⟨_ | m, p', h'⟩ := res
  · obtain ⟨rfl, hs⟩ := hcall
    exact ⟨hs, hi.large, hi.aligned⟩
  · obtain ⟨hmod, _, hl, hs⟩ := hcall
    refine ⟨?_, ?_, ?_⟩
    · have hrec : records p' = records s.pool := by rw [records, hl, records]
      show Sound others (records p' ++ ⟨m, size⟩ :: smallGiven s.given) p' h'
      rw [hrec]
      exact hs.perm List.perm_middle.symm
    · show largeGiven s.given = p'.large.map _
      rw [hl]
      exact hi.large
    · intro g hg hsm
      rcases List.mem_cons.1 hg with rfl | hg
      · exact hmod
      · exact hi.aligned g hg hsm

theorem Inv.largeCall {s : State} {size : Nat} {res : Option Nat × Pool × Heap} (hi : Inv others s)
    (hcall : LargeCall others (records s.pool ++ smallGiven s.given) size s.pool res) :
    Inv others (s.answer size false res) := by
  obtain ⟨_ | a, p', h'⟩ := res
  · obtain ⟨rfl, hs⟩ := hcall
    exact ⟨hs, hi.large, hi.aligned⟩
  · obtain ⟨_, _, r, hl, hs⟩ := hcall
    refine ⟨?_, ?_, ?_⟩
    · have hrec : records p' = ⟨r, poolLargeSize⟩ :: records s.pool := by
        rw [records, hl, List.map_cons, records]
      show Sound others (records p' ++ smallGiven s.given) p' h'
      rw [hrec]
      exact hs
    · show ⟨a, size⟩ :: largeGiven s.given = p'.large.map _
      rw [hl, List.map_cons, hi.large]
    · intro g hg hsm
      rcases List.mem_cons.1 hg with rfl | hg
      · cases hsm
      · exact hi.aligned g hg hsm

theorem poolAlloc_inv {s : State} (size : Nat) (hi : Inv others s) :
    Inv others (s.answer size (size ≤ s.pool.max) (poolAlloc size s.pool s.heap)) := by
  have hcall := poolAllocN_sound (s.heap.answers.length + 1) size hi.sound
  by_cases hmax : size ≤ s.pool.max
  · rw [decide_eq_true hmax]
    exact hi.small (hcall.1 hmax)
  · rw [decide_eq_false hmax]
    exact hi.largeCall (hcall.2 (Nat.lt_of_not_le hmax))

theorem step_inv (s : State) (a : Act) (hi : Inv others s) : Inv others (step s a) := by
  cases a with
  | alloc size => exact poolAlloc_inv size hi
  | calloc size => exact poolAlloc_inv size hi
  | memalign size alignment => exact hi.largeCall (poolMemalign_sound hi.sound)

/-- A new pool: one block of `n` bytes with its header in front. -/
theorem poolCreate_some {size maxSize : Nat} {h h' : Heap} {p : Pool}
    (hc : poolCreate size maxSize h = (some p, h')) :
    ∃ n np, poolSize ≤ n ∧ memoryAlloc n h = (some np, h') ∧
      p = { blocks := [⟨np, np + poolSize, np + n⟩]
            max := if n - poolSize < maxSize then n - poolSize else maxSize } := by
  unfold poolCreate at hc
  split at hc
  · cases hc
  have hsize : poolSize ≤ if size < poolSize then size + poolSize else size := by
    split <;> omega
  revert hc hsize
  generalize (if size < poolSize then size + poolSize else size) = n
  intro hc hsize
  rcases hmem : memoryAlloc n h with ⟨_ | np, h₁⟩
  · simp only [hmem] at hc
    cases hc
  · simp only [hmem] at hc
    cases hc
    exact ⟨n, np, hsize, hmem, rfl⟩

theorem poolCreate_inv {size maxSize : Nat} {h h' : Heap} {p : Pool}
    (hc : poolCreate size maxSize h = (some p, h')) : Inv h.out ⟨p, h', []⟩ := by
  obtain ⟨n, np, hsize, hmem, rfl⟩ := poolCreate_some hc
  have hout := (memoryAlloc_some hmem).2
  refine ⟨⟨?_, ⟨_, [], rfl, ?_⟩, ?_, ?_, ?_⟩, rfl, fun g hg => absurd hg List.not_mem_nil⟩
  · rw [hout]
    simp [owned]
  · show np + ((if n - poolSize < maxSize then n - poolSize else maxSize) + poolSize) ≤ np + n
    split <;> omega
  · intro b hb
    rw [List.mem_singleton.1 hb]
    exact ⟨by show np ≤ np + poolSize; omega, by show np + poolSize ≤ np + n; omega⟩
  · intro c hc
    have hcs : c = ⟨np, poolSize⟩ := by simpa [headers, records, smallGiven] using hc
    subst hcs
    exact ⟨_, List.mem_singleton_self _, Nat.le_refl _, Nat.le_refl _⟩
  · simp [headers, records, smallGiven]

theorem perm_given (gs : List Given) :
    (gs.map Given.region).Perm (smallGiven gs ++ largeGiven gs) := by
  rw [smallGiven, largeGiven, ← List.map_append]
  exact (List.filter_append_perm _ gs).symm.map _

namespace Inv

variable {s : State}

/-- The bookkeeping, the cells and the large regions. -/
theorem parts_perm (hi : Inv others s) :
    s.parts.Perm ((headers s.pool.blocks ++ (records s.pool ++ smallGiven s.given)) ++
      s.pool.large.map fun l => ⟨l.alloc, l.size⟩) := by
  rw [State.parts, ← hi.large]
  have hperm := (perm_given s.given).append_left (headers s.pool.blocks ++ records s.pool)
  simpa only [List.append_assoc] using hperm

theorem owned_apart (hi : Inv others s) : (owned s.pool).Pairwise Apart :=
  (List.pairwise_append.1 ((hi.sound.out.pairwise_iff fun hab => Apart.symm hab).1
    s.heap.packed.apart)).1

theorem parts_apart (hi : Inv others s) : s.parts.Pairwise Apart := by
  refine (hi.parts_perm.pairwise_iff fun hab => Apart.symm hab).2 ?_
  obtain ⟨_, hlarge, hblocks⟩ := List.pairwise_append.1 hi.owned_apart
  refine List.pairwise_append.2 ⟨hi.sound.apart, hlarge, fun c hc r hr => ?_⟩
  obtain ⟨b, hb, hwithin⟩ := hi.sound.within_out hc
  exact (hblocks b.region (List.mem_map_of_mem hb) r hr).mono hwithin (.refl _)

theorem parts_within (hi : Inv others s) {r : Region} (hr : r ∈ s.parts) :
    ∃ o ∈ owned s.pool, Within r o := by
  rcases List.mem_append.1 (hi.parts_perm.subset hr) with hr | hr
  · obtain ⟨b, hb, hwithin⟩ := hi.sound.within_out hr
    exact ⟨b.region, List.mem_append_left _ (List.mem_map_of_mem hb), hwithin⟩
  · exact ⟨r, List.mem_append_right _ hr, Nat.le_refl _, Nat.le_refl _⟩

theorem owned_starts (hi : Inv others s) : ((owned s.pool).map Region.start).Nodup := by
  have hnd : (owned s.pool).Nodup :=
    (List.nodup_append.1 (hi.sound.out.nodup s.heap.nodup)).1
  refine hnd.map_on fun r hr r' hr' hs => ?_
  exact s.heap.start_inj (hi.sound.owned_out hr) (hi.sound.owned_out hr') hs

end Inv

/-- `pool_destroy` frees the regions of the pool, the large ones first. -/
theorem poolDestroy_eq (p : Pool) : poolDestroy p =
    ((p.large.map fun l => (⟨l.alloc, l.size⟩ : Region)) ++
      p.blocks.map fun b => (⟨b.addr, b.stop - b.addr⟩ : Region)).map Region.start := by
  simp [poolDestroy, List.map_append, Function.comp_def]

theorem poolDestroy_perm (p : Pool) : (poolDestroy p).Perm ((owned p).map Region.start) := by
  rw [poolDestroy_eq, owned]
  exact List.perm_append_comm.map _

theorem free_all {l rest : List Region} {h : Heap} (hp : h.out.Perm (l ++ rest)) :
    ((l.map Region.start).foldl (fun h a => h.free a) h).out.Perm rest := by
  induction l generalizing h with
  | nil => exact hp
  | cons r l ih => exact ih (Heap.free_perm hp)

/-- In every run from a new pool the bookkeeping in use and the regions returned are apart and lie
in the memory of the pool, and small regions are aligned. The heap has given out the memory of the
pool and what it had given out before; destroying the pool frees each of its regions once and
leaves just the rest. -/
theorem pool_runs (size maxSize : Nat) (h h' : Heap) (p : Pool)
    (hc : poolCreate size maxSize h = (some p, h')) (as : List Act) :
    let s := Run.exec step ⟨p, h', []⟩ as
    s.parts.Pairwise Apart ∧ (∀ r ∈ s.parts, ∃ o ∈ owned s.pool, Within r o) ∧
      (∀ g ∈ s.given, g.small = true → g.region.start % SHS_ALIGNMENT = 0) ∧
      (poolDestroy s.pool).Perm ((owned s.pool).map Region.start) ∧ (poolDestroy s.pool).Nodup ∧
      s.heap.out.Perm (owned s.pool ++ h.out) ∧
      ((poolDestroy s.pool).foldl (fun h a => h.free a) s.heap).out.Perm h.out := by
  have hi : Inv h.out (Run.exec step ⟨p, h', []⟩ as) := by
    induction as using List.reverseRecOn with
    | nil => exact poolCreate_inv hc
    | append_singleton as a ih =>
      rw [Run.exec_concat]
      exact step_inv _ a ih
  refine ⟨hi.parts_apart, fun r hr => hi.parts_within hr, hi.aligned, poolDestroy_perm _,
    (poolDestroy_perm _).symm.nodup hi.owned_starts, hi.sound.out, ?_⟩
  rw [poolDestroy_eq]
  exact free_all (hi.sound.out.trans (List.perm_append_comm.append_right h.out))

/-- A pool of 80 bytes, behind three calls. -/
def threeCalls : State :=
  Run.exec step
    ⟨{ blocks := [⟨4096, 4144, 4176⟩], max := 32 },
      { out := [⟨4096, 80⟩], answers := [some 8192, some 12288], packed := by
          refine ⟨by decide, by decide⟩,
        sized := by decide }, []⟩
    [.alloc 20, .calloc 30, .alloc 100]

/-- Two small regions in two blocks and a large one. -/
theorem pool_runs_three :
    threeCalls.given = [⟨⟨12288, 100⟩, false⟩, ⟨⟨8216, 30⟩, true⟩, ⟨⟨4144, 20⟩, true⟩] ∧
      threeCalls.parts.Pairwise Apart :=
  ⟨rfl, (pool_runs 80 100
    { out := [], answers := [some 4096, some 8192, some 12288], packed := packed_nil _,
      sized := by simp } _ _ rfl [.alloc 20, .calloc 30, .alloc 100]).1⟩

end MemoryPool
end Shs
