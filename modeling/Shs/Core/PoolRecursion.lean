import Shs.Core.MemoryPool

/-!
# Core.PoolRecursion

The recursion of `pool_alloc` and `pool_alloc_large`, over any allocator: a large allocation needs
a record, the record comes from the same pool, and a record that is too large for the pool is a
large allocation itself. The pool of `Core.MemoryPool` is the one over `Heap`, which has
finitely many answers.
-/

namespace Shs
namespace MemoryPool

/-- An allocator with states `σ`, under `memory_alloc` and `memory_free`. -/
structure Allocator (σ : Type) where
  malloc : Nat → σ → Option Nat × σ
  free : Nat → σ → σ

namespace Allocator

variable {σ : Type} (A : Allocator σ)

def memoryAlloc (size : Nat) (s : σ) : Option Nat × σ :=
  if size = 0 then (none, s) else A.malloc size s

def poolCreate (size maxSize : Nat) (s : σ) : Option Pool × σ :=
  if size = 0 then (none, s)
  else
    let size := if size < poolSize then size + poolSize else size
    match A.memoryAlloc size s with
    | (none, s) => (none, s)
    | (some p, s) =>
      (some { blocks := [⟨p, p + poolSize, p + size⟩]
              max := if size - poolSize < maxSize then size - poolSize else maxSize }, s)

def poolAllocBlock (size : Nat) (pool : Pool) (s : σ) : Option Nat × Pool × σ :=
  match pool.blocks with
  | [] => (none, pool, s)
  | first :: _ =>
    let psize := first.stop - first.addr
    match A.memoryAlloc psize s with
    | (none, s) => (none, pool, s)
    | (some np, s) =>
      let nm := shsAlignPtr (np + poolDataSize)
      (some nm,
        { pool with
          blocks := pool.blocks ++ [⟨np, nm + size, np + psize⟩]
          current := (nextCurrent pool.current (pool.blocks.drop pool.current)).getD
            pool.blocks.length }, s)

/-- `pool_alloc` of a size up to `max`. -/
def poolAllocSmall (size : Nat) (pool : Pool) (s : σ) : Option Nat × Pool × σ :=
  match allocWalk size (pool.blocks.drop pool.current) with
  | some (m, ps) => (some m, { pool with blocks := pool.blocks.take pool.current ++ ps }, s)
  | none => A.poolAllocBlock size pool s

/-- The end of `pool_alloc_large`, behind the call for the record. -/
def recordLarge (p size : Nat) : Option Nat × Pool × σ → Option Nat × Pool × σ
  | (none, pool, s) => (none, pool, A.free p s)
  | (some large, pool, s) => (some p, { pool with large := ⟨large, p, size⟩ :: pool.large }, s)

/-- `pool_alloc`, with at most `n` nested calls of itself; no result when they are not enough. -/
def poolAlloc : Nat → Nat → Pool → σ → Option (Option Nat × Pool × σ)
  | 0, _, _, _ => none
  | n + 1, size, pool, s =>
    if size = 0 then some (none, pool, s)
    else if size ≤ pool.max then some (A.poolAllocSmall size pool s)
    else
      match A.memoryAlloc size s with
      | (none, s) => some (none, pool, s)
      | (some p, s) => (poolAlloc n poolLargeSize pool s).map (A.recordLarge p size)

/-- `pool_alloc` comes to an end. -/
def Terminates (size : Nat) (pool : Pool) (s : σ) : Prop := ∃ n, (A.poolAlloc n size pool s).isSome

end Allocator

/-! ## The allocator of the model -/

def heapAllocator : Allocator Heap := ⟨fun size h => h.alloc (fun _ => true) size, Heap.free⟩

theorem heapAllocator_memoryAlloc (size : Nat) (h : Heap) :
    heapAllocator.memoryAlloc size h = memoryAlloc size h := rfl

theorem heapAllocator_poolCreate (size maxSize : Nat) (h : Heap) :
    heapAllocator.poolCreate size maxSize h = poolCreate size maxSize h := by
  unfold Allocator.poolCreate poolCreate
  simp only [heapAllocator_memoryAlloc]
  rcases memoryAlloc (if size < poolSize then size + poolSize else size) h with ⟨_ | p, h'⟩ <;> rfl

theorem heapAllocator_poolAllocBlock (size : Nat) (pool : Pool) (h : Heap) :
    heapAllocator.poolAllocBlock size pool h = poolAllocBlock size pool h := by
  unfold Allocator.poolAllocBlock poolAllocBlock
  cases pool.blocks with
  | nil => rfl
  | cons first _ =>
    simp only [heapAllocator_memoryAlloc]
    rcases memoryAlloc (first.stop - first.addr) h with ⟨_ | p, h'⟩ <;> rfl

theorem heapAllocator_poolAllocSmall (size : Nat) (pool : Pool) (h : Heap) :
    heapAllocator.poolAllocSmall size pool h = poolAllocSmall size pool h := by
  unfold Allocator.poolAllocSmall poolAllocSmall
  rcases allocWalk size (pool.blocks.drop pool.current) with _ | ⟨m, ps⟩
  · exact heapAllocator_poolAllocBlock size pool h
  · rfl

theorem heapAllocator_recordLarge (p size : Nat) (res : Option Nat × Pool × Heap) :
    heapAllocator.recordLarge p size res = recordLarge p size res := by
  rcases res with ⟨_ | large, pool, h⟩ <;> rfl

/-- A heap that answers a request has fewer answers left. -/
theorem memoryAlloc_answers {size p : Nat} {h h' : Heap}
    (hm : memoryAlloc size h = (some p, h')) : h'.answers.length < h.answers.length := by
  unfold memoryAlloc at hm
  split at hm
  · cases hm
  · have hlen := Heap.alloc_answers (congrArg Prod.fst hm)
    rwa [hm] at hlen

/-- Over the heap of the model the recursion ends with the answers, and `poolAllocN` is its
result. -/
theorem heapAllocator_poolAlloc {n size : Nat} {pool : Pool} {h : Heap}
    (hn : h.answers.length < n) :
    heapAllocator.poolAlloc n size pool h = some (poolAllocN n size pool h) := by
  induction n generalizing size h with
  | zero => exact absurd hn (Nat.not_lt_zero _)
  | succ n ih =>
    rw [Allocator.poolAlloc, poolAllocN]
    by_cases hz : size = 0
    · rw [if_pos hz, if_pos hz]
    rw [if_neg hz, if_neg hz]
    by_cases hmax : size ≤ pool.max
    · rw [if_pos hmax, if_pos hmax, heapAllocator_poolAllocSmall]
    rw [if_neg hmax, if_neg hmax]
    rw [heapAllocator_memoryAlloc]
    rcases hm : memoryAlloc size h with ⟨_ | p, h'⟩
    · rfl
    · have hlen := memoryAlloc_answers hm
      simp only [ih (by omega : h'.answers.length < n), Option.map_some]
      rw [heapAllocator_recordLarge]

/-! ## How deep the calls are nested -/

section Depth

variable {σ : Type} (A : Allocator σ) {size : Nat} {pool : Pool}

/-- A call that is nested once is enough where the record is small. -/
theorem terminates_of_record (h : size = 0 ∨ size ≤ pool.max ∨ poolLargeSize ≤ pool.max) (s : σ) :
    A.Terminates size pool s := by
  refine ⟨2, ?_⟩
  rw [Allocator.poolAlloc]
  by_cases hz : size = 0
  · rw [if_pos hz]
    rfl
  rw [if_neg hz]
  by_cases hmax : size ≤ pool.max
  · rw [if_pos hmax]
    rfl
  rw [if_neg hmax]
  have hrecord : poolLargeSize ≤ pool.max := by
    rcases h with h | h | h
    · exact absurd h hz
    · exact absurd h hmax
    · exact h
  rcases A.memoryAlloc size s with ⟨_ | p, s'⟩
  · rfl
  · simp only [Option.isSome_map]
    rw [Allocator.poolAlloc, if_neg (by decide), if_pos hrecord]
    rfl

/-- An allocator that has memory for every request, each region behind the one before. -/
def bumpAllocator : Allocator Nat := ⟨fun size s => (some s, s + size), fun _ s => s⟩

/-- Where the record is too large for the pool, it needs a record of its own, and so on. -/
theorem bumpAllocator_poolAlloc (hz : size ≠ 0) (hlarge : pool.max < size)
    (hrecord : pool.max < poolLargeSize) (n s : Nat) :
    bumpAllocator.poolAlloc n size pool s = none := by
  induction n generalizing size s with
  | zero => rfl
  | succ n ih =>
    have hmem : bumpAllocator.memoryAlloc size s = (some s, s + size) := if_neg hz
    rw [Allocator.poolAlloc, if_neg hz, if_neg (Nat.not_le.2 hlarge), hmem]
    simp only [ih (show poolLargeSize ≠ 0 by decide) hrecord, Option.map_none]

end Depth

/-- `max` of a pool that was created for `size` and `max_size`. -/
def createdMax (size maxSize : Nat) : Nat :=
  min (if size < poolSize then size else size - poolSize) maxSize

theorem poolCreate_max {σ : Type} {A : Allocator σ} {size maxSize : Nat} {s s' : σ} {p : Pool}
    (h : A.poolCreate size maxSize s = (some p, s')) : p.max = createdMax size maxSize := by
  unfold Allocator.poolCreate at h
  split at h
  · cases h
  revert h
  rw [createdMax]
  generalize hn : (if size < poolSize then size + poolSize else size) = n
  have husable : n - poolSize = if size < poolSize then size else size - poolSize := by
    subst hn
    split <;> omega
  intro h
  rcases hm : A.memoryAlloc n s with ⟨_ | np, s₁⟩
  · simp only [hm] at h
    cases h
  · simp only [hm, husable] at h
    cases h
    generalize (if size < poolSize then size else size - poolSize) = usable
    simp only
    split <;> omega

/-- `pool_alloc` on a new pool ends for every allocator exactly if the request is none, fits into
the pool, or the record of a large allocation does. -/
theorem poolAlloc_terminates_iff {size maxSize request : Nat} (hsize : 0 < size) :
    (∀ (σ : Type) (A : Allocator σ) (s s' : σ) (p : Pool),
        A.poolCreate size maxSize s = (some p, s') → A.Terminates request p s') ↔
      request = 0 ∨ request ≤ createdMax size maxSize ∨ poolLargeSize ≤ createdMax size maxSize := by
  constructor
  · intro h
    by_contra hc
    simp only [not_or, Nat.not_le] at hc
    obtain ⟨hz, hlarge, hrecord⟩ := hc
    have hcreate : ∃ p s, bumpAllocator.poolCreate size maxSize 4096 = (some p, s) := by
      unfold Allocator.poolCreate Allocator.memoryAlloc
      rw [if_neg (by omega)]
      simp only
      rw [if_neg (by split <;> omega)]
      exact ⟨_, _, rfl⟩
    obtain ⟨p, s, hp⟩ := hcreate
    obtain ⟨n, hn⟩ := h Nat bumpAllocator 4096 s p hp
    rw [← poolCreate_max hp] at hlarge hrecord
    rw [bumpAllocator_poolAlloc hz hlarge hrecord] at hn
    cases hn
  · intro h σ A s s' p hp
    refine terminates_of_record A ?_ s'
    rwa [poolCreate_max hp]

theorem poolAlloc_terminates_iff_small :
    createdMax 1024 64 = 64 ∧ ∀ (σ : Type) (A : Allocator σ) (s s' : σ) (p : Pool),
      A.poolCreate 1024 64 s = (some p, s') → A.Terminates 100 p s' :=
  ⟨by decide, (poolAlloc_terminates_iff (by decide)).2 (.inr (.inr (by decide)))⟩

/-- A pool for sizes up to 10 and a request of 100 bytes. -/
theorem recursion_without_end :
    ∃ p, bumpAllocator.poolCreate 80 10 4096 = (some p, 4176) ∧
      ¬ bumpAllocator.Terminates 100 p 4176 := by
  refine ⟨_, rfl, ?_⟩
  rintro ⟨n, hn⟩
  rw [bumpAllocator_poolAlloc (by decide) (by decide) (by decide)] at hn
  cases hn

end MemoryPool
end Shs
