import Shs.Core.PoolRecursion

/-!
# Core.PoolReset

`pool_reset`, and what becomes of a memory pool that is used again. The records of the large
allocations stand in the blocks of the pool, in memory that the model has word by word. A reset
frees the large regions and rewinds the blocks, but leaves `pool->large` where it points: the
records stay in the list, in memory that is free for the next requests.

A run is sound as long as no request gets memory with a record of the list in it. The list is then
in two parts: the records made since the last reset, whose regions are allocated, and the older
ones, whose `alloc` is null.
-/

namespace Shs
namespace PoolReset

open Region MemoryPool

/-- The pool without its large allocations (the list of `pool` is empty between calls), the pointer
`large`, and the words of the memory, by address. Besides: the number of records ever made, which
bounds the loops, the regions given to callers since the last reset, the large regions ever
allocated and those that resets have freed, and whether a loop did not end. -/
structure State where
  pool : Pool
  large : Nat := 0
  word : Nat → Nat
  heap : Heap
  recorded : Nat := 0
  given : List Given := []
  got : List Nat := []
  freed : List Nat := []
  failed : Bool := false

/-- The places of `alloc`, `size` and `next` in the record at `l`. -/
def allocAt (l : Nat) : Nat := l
def sizeAt (l : Nat) : Nat := l + 8
def nextAt (l : Nat) : Nat := l + 16

/-- The end of `pool_alloc_large` and of `pool_memalign`: the record is written and put in front. -/
def writeLarge (l : Large) (s : State) : State :=
  { s with
    word := Function.update (Function.update (Function.update s.word (allocAt l.record) l.alloc)
      (sizeAt l.record) l.size) (nextAt l.record) s.large
    large := l.record
    recorded := s.recorded + 1
    got := l.alloc :: s.got }

/-- The state behind a call for `size` bytes, whose records come to the front of the list. -/
def State.answer (s : State) (size : Nat) (small : Bool) (res : Option Nat × Pool × Heap) : State :=
  { res.2.1.large.foldr writeLarge s with
    pool := { res.2.1 with large := [] }
    heap := res.2.2
    given := (res.1.map fun p => (⟨⟨p, size⟩, small⟩ : Given)).toList ++ s.given }

/-- The loop of `pool_reset` over the large allocations, for at most `n` records: the words, the
heap and the addresses freed. -/
def resetLarge : Nat → (Nat → Nat) → Heap → Nat → Option ((Nat → Nat) × Heap × List Nat)
  | 0, word, h, l => if l = 0 then some (word, h, []) else none
  | n + 1, word, h, l =>
    if l = 0 then some (word, h, [])
    else if word (allocAt l) ≠ 0 then
      let word' := Function.update word (allocAt l) 0
      (resetLarge n word' (h.free (word (allocAt l))) (word' (nextAt l))).map
        fun (w, h, freed) => (w, h, word (allocAt l) :: freed)
    else resetLarge n word h (word (nextAt l))

/-- The loop of `pool_reset` over the blocks. -/
def rewind (blocks : List Block) : List Block :=
  blocks.map fun b => { b with last := b.addr + poolSize }

def poolReset (s : State) : State :=
  match resetLarge s.recorded s.word s.heap s.large with
  | none => { s with failed := true }
  | some (word, h, freed) =>
    { s with
      pool := { s.pool with blocks := rewind s.pool.blocks, current := 0 }
      word := word
      heap := h
      given := []
      freed := s.freed ++ freed }

/-- The loop of `pool_destroy` over the large allocations, for at most `n` records: the addresses
freed. -/
def destroyLarge (word : Nat → Nat) : Nat → Nat → Option (List Nat)
  | 0, l => if l = 0 then some [] else none
  | n + 1, l =>
    if l = 0 then some []
    else (destroyLarge word n (word (nextAt l))).map
      ((if word (allocAt l) ≠ 0 then [word (allocAt l)] else []) ++ ·)

/-- The addresses that `pool_destroy` frees, in order. -/
def poolDestroy (s : State) : Option (List Nat) :=
  (destroyLarge s.word s.recorded s.large).map (· ++ s.pool.blocks.map Block.addr)

/-- The list from `l` on, if it ends within `n` records. -/
def follow (word : Nat → Nat) : Nat → Nat → Option (List Nat)
  | 0, l => if l = 0 then some [] else none
  | n + 1, l => if l = 0 then some [] else (follow word n (word (nextAt l))).map (l :: ·)

/-- The records that can be reached from `pool->large`. -/
def State.records (s : State) : Option (List Nat) := follow s.word s.recorded s.large

/-! ## Runs -/

inductive Act where
  | alloc (size : Nat)
  | memalign (size alignment : Nat)
  | reset
  | write (region : Region) (g : Nat → Nat)

/-- Writing into a region leaves anything in the words that it touches. -/
def scribble (r : Region) (g word : Nat → Nat) (a : Nat) : Nat :=
  if a < r.stop ∧ r.start < a + 8 then g a else word a

def step (s : State) : Act → State
  | .alloc size => s.answer size (size ≤ s.pool.max) (poolAlloc size s.pool s.heap)
  | .memalign size alignment => s.answer size false (poolMemalign size alignment s.pool s.heap)
  | .reset => poolReset s
  | .write r g => { s with word := scribble r g s.word }

/-- The block has room for `size` bytes. -/
def hasRoom (size : Nat) (b : Block) : Bool :=
  decide (shsAlignPtr b.last < b.stop ∧ size ≤ b.stop - shsAlignPtr b.last)

/-- In the first block with room for `size` bytes, no record of the list stands where they would
be. -/
def clearFor (s : State) (size : Nat) : Prop :=
  ∀ b ∈ ((s.pool.blocks.drop s.pool.current).find? (hasRoom size)).toList,
    ∀ l ∈ s.records.getD [], Apart ⟨l, poolLargeSize⟩ ⟨shsAlignPtr b.last, size⟩

/-- Callers write into what they were given. -/
def callOk (s : State) : Act → Prop
  | .write r _ => r ∈ s.given.map Given.region
  | _ => True

/-- A request gets no memory with a record in it: neither a small one nor, when there is a region
for a large one, the call for its record. -/
def actOk (s : State) : Act → Prop
  | .alloc size =>
    if size ≤ s.pool.max then size ≠ 0 → clearFor s size
    else (memoryAlloc size s.heap).1.isSome → poolLargeSize ≤ s.pool.max → clearFor s poolLargeSize
  | .memalign size alignment =>
    (memoryMemalign alignment size s.heap).1.isSome → poolLargeSize ≤ s.pool.max →
      clearFor s poolLargeSize
  | .reset => True
  | .write r g => callOk s (.write r g)

/-- What holds of a pool that is used again, where `others` is what the heap had given out before
the pool. -/
structure Reusable (others : List Region) (s : State) : Prop where
  fine : s.failed = false
  /-- The list ends, and its records lie apart from what callers have. -/
  records : ∃ ls, s.records = some ls ∧ ls.Nodup ∧
    ∀ l ∈ ls, ∀ g ∈ s.given, Apart ⟨l, poolLargeSize⟩ g.region
  /-- A reset frees the large regions that are left, and so does `pool_destroy`. -/
  frees : ∃ word h live, resetLarge s.recorded s.word s.heap s.large = some (word, h, live) ∧
    s.got.Perm (s.freed ++ live) ∧
    poolDestroy s = some (live ++ s.pool.blocks.map Block.addr) ∧
    (live ++ s.pool.blocks.map Block.addr).Nodup ∧
    ((live ++ s.pool.blocks.map Block.addr).foldl (fun h a => h.free a) s.heap).out.Perm others

/-! ## The records in memory -/

def recordRegion (l : Large) : Region := ⟨l.record, poolLargeSize⟩

def largeRegion (l : Large) : Region := ⟨l.alloc, l.size⟩

/-- The list from `p` on has the records `ls`. -/
def Rep (word : Nat → Nat) : Nat → List Large → Prop
  | p, [] => p = 0
  | p, l :: ls => p = l.record ∧ l.record ≠ 0 ∧ word (allocAt l.record) = l.alloc ∧
      word (sizeAt l.record) = l.size ∧ Rep word (word (nextAt l.record)) ls

/-- The words of a record. -/
def IsWord (l a : Nat) : Prop := a = allocAt l ∨ a = sizeAt l ∨ a = nextAt l

theorem IsWord.within {l a : Nat} (h : IsWord l a) :
    l ≤ a ∧ a + 8 ≤ l + poolLargeSize := by
  unfold IsWord allocAt sizeAt nextAt at h
  unfold poolLargeSize
  omega

theorem rep_congr {word word' : Nat → Nat} {p : Nat} {ls : List Large}
    (h : ∀ l ∈ ls, ∀ a, IsWord l.record a → word' a = word a) (hr : Rep word p ls) :
    Rep word' p ls := by
  induction ls generalizing p with
  | nil => exact hr
  | cons l ls ih =>
    obtain ⟨hp, hpos, halloc, hsize, htail⟩ := hr
    have hl := h l List.mem_cons_self
    refine ⟨hp, hpos, (hl _ (.inl rfl)).trans halloc, (hl _ (.inr (.inl rfl))).trans hsize, ?_⟩
    rw [hl _ (.inr (.inr rfl))]
    exact ih (fun l' hl' => h l' (List.mem_cons_of_mem l hl')) htail

/-- A word of one record is no word of another. -/
theorem isWord_ne {l l' : Large} {a a' : Nat} (h : Apart (recordRegion l) (recordRegion l'))
    (ha : IsWord l.record a) (ha' : IsWord l'.record a') : a ≠ a' := by
  have hw := ha.within
  have hw' := ha'.within
  unfold Apart Region.stop recordRegion at h
  simp only at h
  omega

theorem rep_follow {word : Nat → Nat} {p n : Nat} {ls : List Large} (h : Rep word p ls)
    (hn : ls.length ≤ n) : follow word n p = some (ls.map Large.record) := by
  induction ls generalizing p n with
  | nil => cases n <;> exact if_pos h
  | cons l ls ih =>
    obtain ⟨rfl, hpos, -, -, htail⟩ := h
    rw [List.length_cons] at hn
    obtain ⟨n, rfl⟩ : ∃ k, n = k + 1 := ⟨n - 1, by omega⟩
    rw [follow, if_neg hpos, ih htail (by omega)]
    rfl

/-- The addresses that the records of a list keep allocated. -/
def allocs (ls : List Large) : List Nat := (ls.map Large.alloc).filter (· ≠ 0)

theorem rep_destroyLarge {word : Nat → Nat} {p n : Nat} {ls : List Large} (h : Rep word p ls)
    (hn : ls.length ≤ n) : destroyLarge word n p = some (allocs ls) := by
  induction ls generalizing p n with
  | nil => cases n <;> exact if_pos h
  | cons l ls ih =>
    obtain ⟨rfl, hpos, halloc, -, htail⟩ := h
    rw [List.length_cons] at hn
    obtain ⟨n, rfl⟩ : ∃ k, n = k + 1 := ⟨n - 1, by omega⟩
    rw [destroyLarge, if_neg hpos, ih htail (by omega), halloc]
    by_cases hz : l.alloc = 0 <;> simp [allocs, hz]

/-- The record behind a reset. -/
def cleared (l : Large) : Large := { l with alloc := 0 }

/-- The loop of `pool_reset` frees what the records keep, and makes them null. -/
theorem rep_resetLarge {word : Nat → Nat} {p n : Nat} {ls : List Large} {h : Heap}
    (hr : Rep word p ls) (hn : ls.length ≤ n) (hapart : (ls.map recordRegion).Pairwise Apart) :
    ∃ word', resetLarge n word h p =
        some (word', (allocs ls).foldl (fun h a => h.free a) h, allocs ls) ∧
      Rep word' p (ls.map cleared) ∧
      ∀ a, (∀ l ∈ ls, ¬ IsWord l.record a) → word' a = word a := by
  induction ls generalizing p n h word with
  | nil => cases n <;> exact ⟨word, if_pos hr, hr, fun _ _ => rfl⟩
  | cons l ls ih =>
    obtain ⟨rfl, hpos, halloc, hsize, htail⟩ := hr
    rw [List.length_cons] at hn
    obtain ⟨n, rfl⟩ : ∃ k, n = k + 1 := ⟨n - 1, by omega⟩
    rw [List.map_cons, List.pairwise_cons] at hapart
    have hother : ∀ l' ∈ ls, ∀ a a', IsWord l.record a → IsWord l'.record a' → a' ≠ a :=
      fun l' hl' a a' ha ha' =>
        (isWord_ne (hapart.1 _ (List.mem_map_of_mem hl')) ha ha').symm
    -- the words behind the first turn of the loop
    obtain ⟨word₁, hword⟩ :
        ∃ w, w = Function.update word (allocAt l.record) 0 := ⟨_, rfl⟩
    have hne : ∀ a, a ≠ allocAt l.record → word₁ a = word a := fun a ha => by
      rw [hword, Function.update_of_ne ha]
    have hnext : word₁ (nextAt l.record) = word (nextAt l.record) :=
      hne _ (by unfold nextAt allocAt; omega)
    have htail₁ : Rep word₁ (word₁ (nextAt l.record)) ls := by
      rw [hnext]
      exact rep_congr (fun l' hl' a ha => hne a (hother l' hl' _ a (.inl rfl) ha)) htail
    have hzero : word₁ (allocAt l.record) = 0 := by rw [hword, Function.update_self]
    have hfinish : ∀ word', Rep word' (word₁ (nextAt l.record)) (ls.map cleared) →
        (∀ a, (∀ l' ∈ ls, ¬ IsWord l'.record a) → word' a = word₁ a) →
        Rep word' l.record ((l :: ls).map cleared) ∧
          ∀ a, (∀ l' ∈ l :: ls, ¬ IsWord l'.record a) → word' a = word a := by
      intro word' hrep hframe
      have hkeep : ∀ a, IsWord l.record a → word' a = word₁ a := fun a ha =>
        hframe a fun l' hl' hw => hother l' hl' a a ha hw rfl
      refine ⟨⟨rfl, hpos, ?_, ?_, ?_⟩, ?_⟩
      · exact (hkeep _ (.inl rfl)).trans hzero
      · refine (hkeep _ (.inr (.inl rfl))).trans ((hne _ ?_).trans hsize)
        unfold sizeAt allocAt
        omega
      · show Rep word' (word' (nextAt l.record)) (ls.map cleared)
        rw [hkeep _ (.inr (.inr rfl))]
        exact hrep
      · intro a ha
        have hnot := ha l List.mem_cons_self
        rw [hframe a fun l' hl' => ha l' (List.mem_cons_of_mem l hl')]
        exact hne a fun hc => hnot (.inl hc)
    rw [resetLarge, if_neg hpos, halloc]
    by_cases hz : l.alloc = 0
    · have hsame : word = word₁ := by
        rw [hword, ← hz, ← halloc, Function.update_eq_self]
      obtain ⟨word', hreset, hrep, hframe⟩ :=
        ih (n := n) htail₁ (by omega) hapart.2
      refine ⟨word', ?_, hfinish word' hrep hframe⟩
      rw [if_neg (not_not.2 hz), hsame, hreset]
      simp [allocs, hz]
    · obtain ⟨word', hreset, hrep, hframe⟩ :=
        ih (n := n) htail₁ (by omega) hapart.2
      refine ⟨word', ?_, hfinish word' hrep hframe⟩
      rw [if_pos hz]
      simp only [← hword]
      rw [hreset]
      simp [allocs, hz]

/-! ## Where a request gets its memory -/

theorem allocWalk_find {size m : Nat} {l ps : List Block} (h : allocWalk size l = some (m, ps)) :
    ∃ b, l.find? (hasRoom size) = some b ∧ m = shsAlignPtr b.last := by
  induction l generalizing ps with
  | nil => cases h
  | cons b l ih =>
    rw [allocWalk] at h
    simp only at h
    by_cases hroom : shsAlignPtr b.last < b.stop ∧ size ≤ b.stop - shsAlignPtr b.last
    · rw [if_pos hroom] at h
      cases h
      exact ⟨b, List.find?_cons_of_pos (decide_eq_true hroom), rfl⟩
    · rw [if_neg hroom] at h
      obtain ⟨⟨m', ps'⟩, hw, heq⟩ := Option.map_eq_some_iff.1 h
      cases heq
      obtain ⟨b', hfind, hm⟩ := ih hw
      refine ⟨b', ?_, hm⟩
      rw [List.find?_cons_of_neg (by simpa [hasRoom] using hroom), hfind]

/-- A pool whose blocks can be rewound, with the records `stale` in them that are not in use. -/
structure Keeps (cells stale : List Region) (p : Pool) : Prop where
  room : ∀ b ∈ p.blocks, b.addr + poolSize ≤ b.stop
  within : ∀ r ∈ stale, ∃ b ∈ p.blocks, Within r b.region
  off : ∀ r ∈ stale, ∀ c ∈ cells, Apart r c

theorem Keeps.cons {cells stale : List Region} {p p' : Pool} {c : Region}
    (h : Keeps cells stale p) (hroom : ∀ b ∈ p'.blocks, b.addr + poolSize ≤ b.stop)
    (hblocks : ∀ b ∈ p.blocks, ∃ b' ∈ p'.blocks, b'.region = b.region)
    (hc : ∀ r ∈ stale, Apart r c) : Keeps (c :: cells) stale p' := by
  refine ⟨hroom, ?_, ?_⟩
  · intro r hr
    obtain ⟨b, hb, hin⟩ := h.within r hr
    obtain ⟨b', hb', heq⟩ := hblocks b hb
    exact ⟨b', hb', heq ▸ hin⟩
  · intro r hr c' hc'
    rcases List.mem_cons.1 hc' with rfl | hc'
    · exact hc r hr
    · exact h.off r hr c' hc'

/-- A small request in a pool with room where no record stands. -/
theorem poolAllocSmall_keeps {others cells stale : List Region} {size m : Nat} {p p' : Pool}
    {h h' : Heap} (hs : Sound others cells p h) (hk : Keeps cells stale p) (hmax : size ≤ p.max)
    (hclear : ∀ b ∈ ((p.blocks.drop p.current).find? (hasRoom size)).toList,
      ∀ r ∈ stale, Apart r ⟨shsAlignPtr b.last, size⟩)
    (hres : poolAllocSmall size p h = (some m, p', h')) :
    Keeps (⟨m, size⟩ :: cells) stale p' := by
  unfold poolAllocSmall at hres
  rcases hwalk : allocWalk size (p.blocks.drop p.current) with _ | ⟨m', ps⟩
  · -- a new block is apart from the old ones, where the records are
    rw [hwalk] at hres
    obtain ⟨b₀, bs, hblocks, hfirst⟩ := hs.first
    unfold poolAllocBlock at hres
    rw [hblocks] at hres
    simp only at hres
    rcases hmem : memoryAlloc (b₀.stop - b₀.addr) h with ⟨_ | np, h₁⟩
    · simp only [hmem] at hres
      cases hres
    · simp only [hmem] at hres
      cases hres
      obtain ⟨hfresh, -⟩ := memoryAlloc_some hmem
      have htop : np + (b₀.stop - b₀.addr) ≤ heapTop := hfresh.top
      have hsize : poolSize = 48 := rfl
      have hdata : poolDataSize = 24 := rfl
      obtain ⟨hlo, hhi, -⟩ := shsAlignPtr_spec (p := np + poolDataSize) (by omega)
      have hbound := hs.bounds b₀ (by simp [hblocks])
      have hcell : Within ⟨shsAlignPtr (np + poolDataSize), size⟩ ⟨np, b₀.stop - b₀.addr⟩ := by
        refine ⟨?_, ?_⟩
        · show np ≤ shsAlignPtr (np + poolDataSize)
          omega
        · show shsAlignPtr (np + poolDataSize) + size ≤ np + (b₀.stop - b₀.addr)
          omega
      refine hk.cons ?_ ?_ ?_
      · intro b hb
        rw [← hblocks] at hb
        rcases List.mem_append.1 hb with hb | hb
        · exact hk.room b hb
        · rw [List.mem_singleton.1 hb]
          show np + poolSize ≤ np + (b₀.stop - b₀.addr)
          omega
      · intro b hb
        refine ⟨b, ?_, rfl⟩
        rw [← hblocks]
        exact List.mem_append_left _ hb
      · intro r hr
        obtain ⟨b, hb, hin⟩ := hk.within r hr
        exact ((hfresh.apart _ (hs.block_out hb)).mono hcell hin).symm
  · rw [hwalk] at hres
    cases hres
    obtain ⟨pre, b, post, hdrop, rfl, -, -, -⟩ := allocWalk_some hwalk
    obtain ⟨b', hfind, rfl⟩ := allocWalk_find hwalk
    have hblocks : p.blocks = (p.blocks.take p.current ++ pre) ++ b :: post := by
      rw [List.append_assoc, ← hdrop, List.take_append_drop]
    refine hk.cons ?_ ?_ ?_
    · intro c hc
      rw [← List.append_assoc] at hc
      rcases List.mem_append.1 hc with hc | hc
      · exact hk.room c (hblocks ▸ List.mem_append_left _ hc)
      · rcases List.mem_cons.1 hc with rfl | hc
        · exact hk.room b (hblocks ▸ List.mem_append_right _ List.mem_cons_self)
        · exact hk.room c (hblocks ▸ List.mem_append_right _ (List.mem_cons_of_mem b hc))
    · intro c hc
      rw [hblocks] at hc
      rw [← List.append_assoc]
      rcases List.mem_append.1 hc with hc | hc
      · exact ⟨c, List.mem_append_left _ hc, rfl⟩
      · rcases List.mem_cons.1 hc with rfl | hc
        · exact ⟨_, List.mem_append_right _ List.mem_cons_self, rfl⟩
        · exact ⟨c, List.mem_append_right _ (List.mem_cons_of_mem _ hc), rfl⟩
    · intro r hr
      exact hclear b' (by rw [hfind]; simp) r hr

/-- The blocks are rewound; nothing in them is in use. -/
theorem sound_rewind {others cells : List Region} {p : Pool} {h : Heap}
    (hs : Sound others cells p h) (hroom : ∀ b ∈ p.blocks, b.addr + poolSize ≤ b.stop) :
    Sound others [] { p with blocks := rewind p.blocks, current := 0 } h := by
  have hheaders : headers (rewind p.blocks) = headers p.blocks := by
    cases p.blocks with
    | nil => rfl
    | cons b bs =>
      simp only [rewind, headers, List.map_cons, List.map_map]
      rfl
  have hregions : (rewind p.blocks).map (fun b => (⟨b.addr, b.stop - b.addr⟩ : Region)) =
      p.blocks.map fun b => ⟨b.addr, b.stop - b.addr⟩ := by
    rw [rewind, List.map_map]
    rfl
  refine ⟨?_, ?_, ?_, ?_, ?_⟩
  · have howned : owned { p with blocks := rewind p.blocks, current := 0 } = owned p := by
      simp only [owned, hregions]
    rw [howned]
    exact hs.out
  · obtain ⟨b, bs, hblocks, hfirst⟩ := hs.first
    exact ⟨{ b with last := b.addr + poolSize }, rewind bs, by rw [hblocks]; rfl, hfirst⟩
  · intro b hb
    obtain ⟨c, hc, rfl⟩ := List.mem_map.1 hb
    exact ⟨Nat.le_add_right _ _, hroom c hc⟩
  · intro c hc
    rw [List.append_nil] at hc
    obtain ⟨b, hb, hstart, hstop⟩ : ∃ b ∈ rewind p.blocks, b.addr ≤ c.start ∧ c.stop ≤ b.last := by
      change c ∈ headers (rewind p.blocks) at hc
      rcases hl : p.blocks with _ | ⟨b, bs⟩
      · rw [hl] at hc
        cases hc
      · rw [hl] at hc
        rcases List.mem_cons.1 hc with rfl | hc
        · exact ⟨_, List.mem_cons_self, Nat.le_refl _, Nat.le_refl _⟩
        · obtain ⟨d, hd, rfl⟩ := List.mem_map.1 hc
          obtain ⟨e, he, rfl⟩ := List.mem_map.1 hd
          refine ⟨_, List.mem_cons_of_mem _ (List.mem_map_of_mem he), Nat.le_refl _, ?_⟩
          show e.addr + poolDataSize ≤ e.addr + poolSize
          unfold poolDataSize poolSize
          omega
    exact ⟨b, hb, hstart, hstop⟩
  · show (headers (rewind p.blocks) ++ []).Pairwise Apart
    rw [hheaders, List.append_nil]
    exact (List.pairwise_append.1 hs.apart).1

/-! ## The invariant -/

/-- The parts of the blocks in use: the records made since the last reset and the small regions
that callers have. -/
def cells (fresh : List Large) (s : State) : List Region :=
  fresh.map recordRegion ++ smallGiven s.given

/-- The records `fresh` were made since the last reset, the records `stale` before it. -/
structure Inv (others : List Region) (fresh stale : List Large) (s : State) : Prop where
  fine : s.failed = false
  empty : s.pool.large = []
  sound : Sound (fresh.map largeRegion ++ others) (cells fresh s) s.pool s.heap
  keeps : Keeps (cells fresh s) (stale.map recordRegion) s.pool
  given : largeGiven s.given = fresh.map largeRegion
  rep : Rep s.word s.large (fresh ++ stale)
  live : ∀ l ∈ fresh, l.alloc ≠ 0
  dead : ∀ l ∈ stale, l.alloc = 0
  apart : (stale.map recordRegion).Pairwise Apart
  got : s.got.Perm (s.freed ++ fresh.map Large.alloc)
  bound : (fresh ++ stale).length ≤ s.recorded

theorem Keeps.perm {cells cells' stale : List Region} {p : Pool} (h : Keeps cells stale p)
    (hp : cells.Perm cells') : Keeps cells' stale p :=
  ⟨h.room, h.within, fun r hr c hc => h.off r hr c (hp.mem_iff.2 hc)⟩

/-- A cell in use starts behind the header of its block. -/
theorem cell_pos {others cells : List Region} {p : Pool} {h : Heap} (hs : Sound others cells p h)
    {c : Region} (hc : c ∈ cells) (hsize : 0 < c.size) : c.start ≠ 0 := by
  obtain ⟨b, hb, hstart, -⟩ := hs.inside c (List.mem_append_right _ hc)
  obtain ⟨n, hn, hheader⟩ : ∃ n, 0 < n ∧ (⟨b.addr, n⟩ : Region) ∈ headers p.blocks := by
    rcases hl : p.blocks with _ | ⟨d, bs⟩
    · rw [hl] at hb
      cases hb
    · rw [hl] at hb
      rcases List.mem_cons.1 hb with rfl | hb
      · exact ⟨poolSize, by decide, List.mem_cons_self⟩
      · exact ⟨poolDataSize, by decide, List.mem_cons_of_mem _ (List.mem_map_of_mem hb)⟩
  have hapart := (List.pairwise_append.1 hs.apart).2.2 _ hheader c hc
  unfold Apart Region.stop at hapart
  simp only at hapart
  omega

theorem writeLarge_word (l : Large) (s : State) {a : Nat} (ha : ¬ IsWord l.record a) :
    (writeLarge l s).word a = s.word a := by
  simp only [IsWord, not_or] at ha
  show Function.update (Function.update (Function.update s.word (allocAt l.record) l.alloc)
    (sizeAt l.record) l.size) (nextAt l.record) s.large a = s.word a
  rw [Function.update_of_ne ha.2.2, Function.update_of_ne ha.2.1, Function.update_of_ne ha.1]

/-- An answer without new records. -/
theorem answer_empty (s : State) (size : Nat) (small : Bool) {res : Option Nat × Pool × Heap}
    (h : res.2.1.large = []) : s.answer size small res =
      { s with
        pool := res.2.1
        heap := res.2.2
        given := (res.1.map fun p => (⟨⟨p, size⟩, small⟩ : Given)).toList ++ s.given } := by
  obtain ⟨r, ⟨blocks, max, current, large⟩, heap⟩ := res
  simp only at h
  subst h
  rfl

/-- An answer with one new record. -/
theorem answer_record (s : State) {size a m : Nat} {p : Pool} {h : Heap} (hp : p.large = []) :
    s.answer size false (recordLarge a size (some m, p, h)) =
      { writeLarge ⟨m, a, size⟩ s with
        pool := p
        heap := h
        given := ⟨⟨a, size⟩, false⟩ :: s.given } := by
  obtain ⟨blocks, max, current, large⟩ := p
  simp only at hp
  subst hp
  rfl

namespace Inv

variable {others : List Region} {fresh stale : List Large} {s : State}
  (hi : Inv others fresh stale s)

include hi

theorem records_apart : ((fresh ++ stale).map recordRegion).Pairwise Apart := by
  rw [List.map_append, List.pairwise_append]
  have hcells := (List.pairwise_append.1 hi.sound.apart).2.1
  refine ⟨(List.pairwise_append.1 hcells).1, hi.apart, fun r hr r' hr' => ?_⟩
  exact (hi.keeps.off r' hr' r (List.mem_append_left _ hr)).symm

theorem records_eq : s.records = some ((fresh ++ stale).map Large.record) :=
  rep_follow hi.rep hi.bound

theorem allocs_eq : allocs (fresh ++ stale) = fresh.map Large.alloc := by
  have hlive : (fresh.map Large.alloc).filter (· ≠ 0) = fresh.map Large.alloc := by
    refine List.filter_eq_self.2 fun a ha => ?_
    obtain ⟨l, hl, rfl⟩ := List.mem_map.1 ha
    simpa using hi.live l hl
  have hdead : (stale.map Large.alloc).filter (· ≠ 0) = [] := by
    refine List.filter_eq_nil_iff.2 fun a ha => ?_
    obtain ⟨l, hl, rfl⟩ := List.mem_map.1 ha
    simpa using hi.dead l hl
  rw [allocs, List.map_append, List.filter_append, hlive, hdead, List.append_nil]

/-- Every record stands in a block. -/
theorem record_within {l : Large} (hl : l ∈ fresh ++ stale) :
    ∃ b ∈ s.pool.blocks, Within (recordRegion l) b.region := by
  rcases List.mem_append.1 hl with hl | hl
  · exact hi.sound.within_out
      (List.mem_append_right _ (List.mem_append_left _ (List.mem_map_of_mem hl)))
  · exact hi.keeps.within _ (List.mem_map_of_mem hl)

theorem block_large {b : Block} (hb : b ∈ s.pool.blocks) {r : Region}
    (hr : r ∈ fresh.map largeRegion) : Apart b.region r := by
  have hout := (hi.sound.out.pairwise_iff fun hab => Apart.symm hab).1 s.heap.packed.apart
  exact (List.pairwise_append.1 hout).2.2 _ (List.mem_append_left _ (List.mem_map_of_mem hb)) _
    (List.mem_append_left _ hr)

/-- No record of the list is in the memory of a caller. -/
theorem record_given {l : Large} (hl : l ∈ fresh ++ stale) {g : Given} (hg : g ∈ s.given) :
    Apart (recordRegion l) g.region := by
  rcases List.mem_append.1 ((perm_given s.given).mem_iff.1 (List.mem_map_of_mem hg)) with hr | hr
  · rcases List.mem_append.1 hl with hl | hl
    · have hcells := (List.pairwise_append.1 hi.sound.apart).2.1
      exact (List.pairwise_append.1 hcells).2.2 _ (List.mem_map_of_mem hl) _ hr
    · exact hi.keeps.off _ (List.mem_map_of_mem hl) _ (List.mem_append_right _ hr)
  · obtain ⟨b, hb, hin⟩ := hi.record_within hl
    rw [hi.given] at hr
    exact (hi.block_large hb hr).mono hin (.refl _)

theorem write {r : Region} (g : Nat → Nat) (hr : r ∈ s.given.map Given.region) :
    Inv others fresh stale { s with word := scribble r g s.word } := by
  refine { hi with rep := rep_congr (fun l hl a ha => ?_) hi.rep }
  obtain ⟨g', hg', rfl⟩ := List.mem_map.1 hr
  have hapart := hi.record_given hl hg'
  have hw := ha.within
  unfold Apart Region.stop recordRegion at hapart
  simp only at hapart
  refine if_neg ?_
  unfold Region.stop
  omega

/-- The heap may change as long as the same regions are given out. -/
theorem congr_heap {h : Heap} (hout : h.out.Perm s.heap.out) :
    Inv others fresh stale { s with heap := h } :=
  { hi with sound := hi.sound.congr_heap hout }

theorem clear_stale {size : Nat} (h : clearFor s size) :
    ∀ b ∈ ((s.pool.blocks.drop s.pool.current).find? (hasRoom size)).toList,
      ∀ r ∈ stale.map recordRegion, Apart r ⟨shsAlignPtr b.last, size⟩ := by
  intro b hb r hr
  obtain ⟨l, hl, rfl⟩ := List.mem_map.1 hr
  refine h b hb l.record ?_
  rw [hi.records_eq]
  exact List.mem_map_of_mem (List.mem_append_right _ hl)

theorem small {size : Nat} (hmax : size ≤ s.pool.max) (hclear : clearFor s size) :
    Inv others fresh stale (s.answer size true (poolAllocSmall size s.pool s.heap)) := by
  have hcall := poolAllocSmall_sound hi.sound hmax
  rcases hres : poolAllocSmall size s.pool s.heap with ⟨_ | m, p, h⟩
  · rw [hres] at hcall
    obtain ⟨rfl, hs⟩ := hcall
    rw [answer_empty s size true hi.empty]
    exact { hi with sound := hs }
  · rw [hres] at hcall
    obtain ⟨-, -, hlarge, hs⟩ := hcall
    have hk := poolAllocSmall_keeps hi.sound hi.keeps hmax (hi.clear_stale hclear) hres
    have hempty : p.large = [] := hlarge.trans hi.empty
    have hcells : ((⟨m, size⟩ : Region) :: cells fresh s).Perm
        (fresh.map recordRegion ++ ⟨m, size⟩ :: smallGiven s.given) := List.perm_middle.symm
    rw [answer_empty s size true hempty]
    exact { hi with
      empty := hempty
      sound := hs.perm hcells
      keeps := hk.perm hcells }

/-- A region of the heap for a large request, and then the call for its record. -/
theorem large {a size k : Nat} {h : Heap} (hout : h.out = ⟨a, size⟩ :: s.heap.out) (ha : a ≠ 0)
    (hclear : poolLargeSize ≤ s.pool.max → clearFor s poolLargeSize) :
    ∃ fresh', Inv others fresh' stale
      (s.answer size false (recordLarge a size (poolAllocN (k + 1) poolLargeSize s.pool h))) := by
  have hlend := hi.sound.lend hout
  have hcall := poolAllocN_sound (k + 1) poolLargeSize hlend
  rcases hres : poolAllocN (k + 1) poolLargeSize s.pool h with ⟨_ | m, p, h'⟩
  · rw [hres] at hcall
    have hnone : p = s.pool ∧ Sound (⟨a, size⟩ :: (fresh.map largeRegion ++ others))
        (cells fresh s) s.pool h' := by
      rcases Nat.lt_or_ge s.pool.max poolLargeSize with hlt | hge
      · exact hcall.2 hlt
      · exact hcall.1 hge
    obtain ⟨rfl, hs⟩ := hnone
    refine ⟨fresh, ?_⟩
    rw [recordLarge, answer_empty s size false hi.empty]
    exact { hi with sound := hs.giveBack }
  · have hmax : poolLargeSize ≤ s.pool.max := by
      by_contra hc
      have hlarge := hcall.2 (Nat.lt_of_not_le hc)
      rw [hres] at hlarge
      exact hc hlarge.1
    have hsmall : poolAllocSmall poolLargeSize s.pool h = (some m, p, h') := by
      rw [← hres, poolAllocN, if_neg (by decide), if_pos hmax]
    have hdone := hcall.1 hmax
    rw [hres] at hdone
    obtain ⟨-, -, hlarge, hs⟩ := hdone
    have hk := poolAllocSmall_keeps hlend hi.keeps hmax (hi.clear_stale (hclear hmax)) hsmall
    have hempty : p.large = [] := hlarge.trans hi.empty
    have hm : m ≠ 0 := cell_pos hs List.mem_cons_self (Nat.zero_lt_succ 23)
    refine ⟨⟨m, a, size⟩ :: fresh, ?_⟩
    rw [answer_record s hempty]
    refine ⟨hi.fine, hempty, hs, hk, congrArg (_ :: ·) hi.given, ?_, ?_, hi.dead, hi.apart, ?_, ?_⟩
    · have hnew : ∀ l ∈ fresh ++ stale, Apart (recordRegion ⟨m, a, size⟩) (recordRegion l) := by
        intro l hl
        have hcells := (List.pairwise_append.1 hs.apart).2.1
        rcases List.mem_append.1 hl with hl | hl
        · exact (List.pairwise_cons.1 hcells).1 _ (List.mem_append_left _ (List.mem_map_of_mem hl))
        · exact (hk.off _ (List.mem_map_of_mem hl) _ List.mem_cons_self).symm
      have hrep : Rep (writeLarge ⟨m, a, size⟩ s).word s.large (fresh ++ stale) := by
        refine rep_congr (fun l hl x hx => writeLarge_word _ s fun hc => ?_) hi.rep
        exact isWord_ne (hnew l hl) hc hx rfl
      refine ⟨rfl, hm, ?_, ?_, ?_⟩
      · simp [writeLarge, allocAt, sizeAt, nextAt]
      · simp [writeLarge, sizeAt, nextAt]
      · show Rep _ ((writeLarge ⟨m, a, size⟩ s).word (nextAt m)) (fresh ++ stale)
        have hnext : (writeLarge ⟨m, a, size⟩ s).word (nextAt m) = s.large := by
          simp [writeLarge]
        rw [hnext]
        exact hrep
    · intro l hl
      rcases List.mem_cons.1 hl with rfl | hl
      · exact ha
      · exact hi.live l hl
    · exact (hi.got.cons a).trans List.perm_middle.symm
    · exact Nat.succ_le_succ hi.bound

theorem alloc {size : Nat} (hok : actOk s (.alloc size)) :
    ∃ fresh', Inv others fresh' stale (step s (.alloc size)) := by
  rw [step, poolAlloc, poolAllocN]
  by_cases hz : size = 0
  · rw [if_pos hz, answer_empty s size _ hi.empty]
    exact ⟨fresh, hi⟩
  rw [if_neg hz]
  rw [actOk] at hok
  by_cases hmax : size ≤ s.pool.max
  · rw [if_pos hmax] at hok ⊢
    rw [decide_eq_true hmax]
    exact ⟨fresh, hi.small hmax (hok hz)⟩
  rw [if_neg hmax] at hok ⊢
  rw [decide_eq_false hmax]
  rcases hmem : memoryAlloc size s.heap with ⟨_ | a, h⟩
  · rw [answer_empty s size false hi.empty]
    exact ⟨fresh, hi.congr_heap (List.Perm.of_eq (memoryAlloc_none hmem))⟩
  · have hlen := memoryAlloc_answers hmem
    obtain ⟨hfresh, hout⟩ := memoryAlloc_some hmem
    obtain ⟨k, hk⟩ : ∃ k, s.heap.answers.length = k + 1 :=
      ⟨s.heap.answers.length - 1, by omega⟩
    rw [hmem] at hok
    simp only [hk]
    exact hi.large hout (Nat.pos_iff_ne_zero.1 hfresh.pos) (hok rfl)

theorem memalign {size alignment : Nat} (hok : actOk s (.memalign size alignment)) :
    ∃ fresh', Inv others fresh' stale (step s (.memalign size alignment)) := by
  rw [step, poolMemalign]
  rw [actOk] at hok
  rcases hmem : memoryMemalign alignment size s.heap with ⟨_ | a, h⟩
  · have hout : h.out = s.heap.out := by
      unfold memoryMemalign at hmem
      split at hmem
      · cases hmem
        rfl
      · have hnone := Heap.alloc_none (congrArg Prod.fst hmem)
        rwa [hmem] at hnone
    simp only
    rw [answer_empty s size false hi.empty]
    exact ⟨fresh, hi.congr_heap (List.Perm.of_eq hout)⟩
  · have hres : Fresh s.heap.out ⟨a, size⟩ ∧ h.out = ⟨a, size⟩ :: s.heap.out := by
      unfold memoryMemalign at hmem
      split at hmem
      · cases hmem
      · obtain ⟨hfresh, -, hout⟩ := Heap.alloc_some (congrArg Prod.fst hmem)
        rw [hmem] at hout
        exact ⟨hfresh, hout⟩
    rw [hmem] at hok
    exact hi.large hres.2 (Nat.pos_iff_ne_zero.1 hres.1.pos) (hok rfl)

/-- The heap behind the frees of a reset. -/
theorem free_live : ((fresh.map Large.alloc).foldl (fun h a => h.free a) s.heap).out.Perm
    (owned s.pool ++ others) := by
  have hperm : s.heap.out.Perm (fresh.map largeRegion ++ (owned s.pool ++ others)) := by
    refine hi.sound.out.trans ?_
    rw [← List.append_assoc, ← List.append_assoc]
    exact List.perm_append_comm.append_right others
  have hfree := free_all hperm
  rwa [List.map_map] at hfree

theorem reset : Inv others [] ((fresh ++ stale).map cleared) (step s .reset) := by
  obtain ⟨word, hreset, hrep, -⟩ := rep_resetLarge (h := s.heap) hi.rep hi.bound hi.records_apart
  rw [hi.allocs_eq] at hreset
  have hregion : ((fresh ++ stale).map cleared).map recordRegion =
      (fresh ++ stale).map recordRegion := by
    rw [List.map_map]
    rfl
  have hs := sound_rewind hi.sound hi.keeps.room
  have howned : owned { s.pool with blocks := rewind s.pool.blocks, current := 0 } =
      owned s.pool := by
    simp only [owned, rewind, List.map_map]
    rfl
  rw [step, poolReset, hreset]
  refine ⟨hi.fine, hi.empty, ⟨?_, hs.first, hs.bounds, hs.inside, hs.apart⟩, ⟨?_, ?_, ?_⟩, rfl, hrep,
    fun l hl => absurd hl List.not_mem_nil, ?_, ?_, ?_, ?_⟩
  · show List.Perm _ (owned { s.pool with blocks := rewind s.pool.blocks, current := 0 } ++ others)
    rw [howned]
    exact hi.free_live
  · intro b hb
    obtain ⟨c, hc, rfl⟩ := List.mem_map.1 hb
    exact hi.keeps.room c hc
  · intro r hr
    rw [hregion] at hr
    obtain ⟨l, hl, rfl⟩ := List.mem_map.1 hr
    obtain ⟨b, hb, hin⟩ := hi.record_within hl
    exact ⟨{ b with last := b.addr + poolSize }, List.mem_map_of_mem hb, hin⟩
  · intro r _ c hc
    cases hc
  · intro l hl
    obtain ⟨l', -, rfl⟩ := List.mem_map.1 hl
    rfl
  · rw [hregion]
    exact hi.records_apart
  · simpa using hi.got
  · simpa using hi.bound

/-- The memory of the pool. -/
theorem out_perm : s.heap.out.Perm ((fresh.map largeRegion ++ s.pool.blocks.map Block.region) ++
    others) := by
  have howned : owned s.pool = s.pool.blocks.map Block.region := by
    rw [owned, hi.empty, List.map_nil, List.append_nil]
    rfl
  have hout := hi.sound.out
  rw [howned] at hout
  refine hout.trans ?_
  rw [← List.append_assoc]
  exact List.perm_append_comm.append_right others

omit hi in
theorem starts_eq : (fresh.map largeRegion ++ s.pool.blocks.map Block.region).map Region.start =
    fresh.map Large.alloc ++ s.pool.blocks.map Block.addr := by
  rw [List.map_append, List.map_map, List.map_map]
  rfl

theorem reusable : Reusable others s := by
  refine ⟨hi.fine, ⟨_, hi.records_eq, ?_, ?_⟩, ?_⟩
  · refine List.pairwise_map.2 ((List.pairwise_map.1 hi.records_apart).imp fun hapart heq => ?_)
    unfold Apart Region.stop recordRegion poolLargeSize at hapart
    simp only at hapart
    omega
  · intro r hr g hg
    obtain ⟨l, hl, rfl⟩ := List.mem_map.1 hr
    exact hi.record_given hl hg
  · obtain ⟨word, hreset, -, -⟩ := rep_resetLarge (h := s.heap) hi.rep hi.bound hi.records_apart
    have hdestroy := rep_destroyLarge hi.rep hi.bound
    have hout := hi.out_perm
    rw [hi.allocs_eq] at hreset hdestroy
    refine ⟨word, _, _, hreset, hi.got, ?_, ?_, ?_⟩
    · rw [poolDestroy, hdestroy]
      rfl
    · rw [← starts_eq]
      have hnd := (List.nodup_append.1 (hout.nodup s.heap.nodup)).1
      refine hnd.map_on fun r hr r' hr' hs => ?_
      exact s.heap.start_inj (hout.mem_iff.2 (List.mem_append_left _ hr))
        (hout.mem_iff.2 (List.mem_append_left _ hr')) hs
    · rw [← starts_eq]
      exact free_all hout

end Inv

theorem step_inv {others : List Region} {s : State} {a : Act}
    (h : ∃ fresh stale, Inv others fresh stale s) (hok : actOk s a) :
    ∃ fresh stale, Inv others fresh stale (step s a) := by
  obtain ⟨fresh, stale, hi⟩ := h
  cases a with
  | alloc size =>
    obtain ⟨fresh', hi'⟩ := hi.alloc hok
    exact ⟨fresh', stale, hi'⟩
  | memalign size alignment =>
    obtain ⟨fresh', hi'⟩ := hi.memalign hok
    exact ⟨fresh', stale, hi'⟩
  | reset => exact ⟨[], _, hi.reset⟩
  | write r g => exact ⟨fresh, stale, hi.write g hok⟩

theorem poolCreate_inv {size maxSize : Nat} {h h' : Heap} {p : Pool} (word : Nat → Nat)
    (hc : poolCreate size maxSize h = (some p, h')) :
    Inv h.out [] [] { pool := p, word := word, heap := h' } := by
  have hs := (MemoryPool.poolCreate_inv hc).sound
  have hshape : p.large = [] ∧ ∀ b ∈ p.blocks, b.addr + poolSize ≤ b.stop := by
    obtain ⟨n, np, hsize, -, rfl⟩ := poolCreate_some hc
    refine ⟨rfl, fun b hb => ?_⟩
    rw [List.mem_singleton.1 hb]
    exact Nat.add_le_add_left hsize np
  obtain ⟨hempty, hroom⟩ := hshape
  rw [records, hempty] at hs
  exact ⟨rfl, hempty, hs, ⟨hroom, fun r hr => absurd hr List.not_mem_nil,
    fun r hr => absurd hr List.not_mem_nil⟩, rfl, rfl, fun l hl => absurd hl List.not_mem_nil,
    fun l hl => absurd hl List.not_mem_nil, .nil, .refl _, Nat.le_refl _⟩

/-- A pool that is reset and used again, with callers that write into what they were given: as long
as no request gets memory with a record of the list in it, the list of large allocations ends, no
record of it is in the memory of a caller, and every large region is freed once, by a reset or by
the destruction of the pool. -/
theorem pool_reusable {size maxSize : Nat} {h h' : Heap} {p : Pool} {word : Nat → Nat}
    (hc : poolCreate size maxSize h = (some p, h')) {as : List Act}
    (hrun : Run.Meets step actOk { pool := p, word := word, heap := h' } as) :
    Reusable h.out (Run.exec step { pool := p, word := word, heap := h' } as) := by
  obtain ⟨fresh, stale, hi⟩ := Run.invariant step
    (I := fun s => ∃ fresh stale, Inv h.out fresh stale s) ⟨[], [], poolCreate_inv word hc⟩
    (fun _ _ hi ha => step_inv hi ha) hrun
  exact hi.reusable

instance (s : State) (size : Nat) : Decidable (clearFor s size) := by
  unfold clearFor
  infer_instance

instance : ∀ s a, Decidable (callOk s a)
  | _, .alloc _ => .isTrue trivial
  | _, .memalign _ _ => .isTrue trivial
  | _, .reset => .isTrue trivial
  | s, .write r _ => inferInstanceAs (Decidable (r ∈ s.given.map Given.region))

instance : ∀ s a, Decidable (actOk s a)
  | s, .alloc size => inferInstanceAs (Decidable (if size ≤ s.pool.max then size ≠ 0 → clearFor s size
    else (memoryAlloc size s.heap).1.isSome → poolLargeSize ≤ s.pool.max →
      clearFor s poolLargeSize))
  | s, .memalign size alignment => inferInstanceAs (Decidable
    ((memoryMemalign alignment size s.heap).1.isSome → poolLargeSize ≤ s.pool.max →
      clearFor s poolLargeSize))
  | _, .reset => .isTrue trivial
  | s, .write r g => inferInstanceAs (Decidable (callOk s (.write r g)))

/-- A heap for one pool of 1024 bytes and a few large regions. -/
def sampleHeap : Heap where
  out := []
  answers := [some 4096, some 8192, some 12288, some 16384]
  packed := packed_nil heapTop
  sized := sized_nil

theorem pool_reusable_twice : ∃ p h', poolCreate 1024 200 sampleHeap = (some p, h') ∧
    Reusable [] (Run.exec step { pool := p, word := fun _ => 0, heap := h' }
      [.alloc 200, .alloc 300, .reset, .alloc 100, .write ⟨4144, 100⟩ fun _ => 7, .reset]) :=
  have hcreate : poolCreate 1024 200 sampleHeap = (some _, _) := rfl
  ⟨_, _, hcreate, pool_reusable hcreate (Run.meets_of_check step (by decide +kernel))⟩

/-- A large allocation, a reset and a small request: the caller gets the memory of the record that
`pool->large` still points to. -/
theorem record_handed_out : ∃ p h', poolCreate 1024 200 sampleHeap = (some p, h') ∧
    Run.Meets step callOk { pool := p, word := fun _ => 0, heap := h' }
      [.alloc 300, .reset, .alloc 24] ∧
    ¬ Reusable [] (Run.exec step { pool := p, word := fun _ => 0, heap := h' }
      [.alloc 300, .reset, .alloc 24]) := by
  have hcreate : poolCreate 1024 200 sampleHeap = (some _, _) := rfl
  refine ⟨_, _, hcreate, Run.meets_of_check step (by decide +kernel), fun hr => ?_⟩
  obtain ⟨ls, hls, -, hapart⟩ := hr.records
  have hrecords : ls = [4144] := by
    refine Option.some.inj (hls.symm.trans ?_)
    decide +kernel
  subst hrecords
  exact absurd (hapart 4144 List.mem_cons_self ⟨⟨4144, 24⟩, true⟩ List.mem_cons_self) (by decide)

end PoolReset
end Shs
