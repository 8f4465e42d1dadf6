import Shs.Core.ShmemAlloc

/-!
# Core.ShmemRuns

Runs of the heap in shared memory. The invariant holds of every heap that `shs_shmem_create` makes
with at most `2 ^ 32` free nodes, and every call keeps it. What the calls do in the states that are
reached follows from it: where an allocation finds no block though there is one, that the largest
block is found, and that a failed call changes no block and no list.

A free node has its index in an `unsigned int`. In a heap with more free nodes the index of the
last ones is not their own.
-/

namespace Shs
namespace Shmem

open Queue

/-! ## The run -/

/-- The live addresses are those of the blocks that are handed out. -/
structure Sound (w : World) (blocks : List Nat) (fl : Nat → List Nat) (av : List Nat) : Prop where
  heap : Heap w.shm blocks fl av
  threshold : storageSize + w.shm.splitThreshold < 2 ^ 64
  live : ∀ p, p ∈ w.live ↔ ∃ st, Busy w.shm blocks st ∧ p = st + storageSize
  nodup : w.live.Nodup

/-- A heap that has just been made. -/
theorem Made.heap {s : Shm} (h : Made s) (ha : Accepted s) (hlen : s.freeLen ≤ 2 ^ 32) :
    ∃ fl av, Heap s [s.shmemStat.systemSize] fl av := by
  have hpos : 0 < s.freeLen := Nat.lt_of_lt_of_le (by decide) ha.len
  have hroom := h.room
  have hlt := klass_lt hpos (s.storage s.shmemStat.systemSize).size
  obtain ⟨hused, hreqs, hcount⟩ := h.counts
  have hunused := h.unused
  have hsize := h.size
  have hfirst := h.first
  generalize hsystem : s.shmemStat.systemSize = st at *
  generalize hk : klass s (s.storage st).size = k at *
  have hfree : ∀ x, Free s [st] x ↔ x = st := by
    intro x
    rw [Free, List.mem_singleton]
    exact ⟨And.left, fun hx => ⟨hx, by rw [hx, hunused]⟩⟩
  have hlist : ∀ i x, x ∈ (if i = k then [st] else []) ↔ x = st ∧ k = i := by
    intro i x
    by_cases hik : i = k
    · simp [hik]
    · simp [hik, Ne.symm hik]
  refine ⟨fun i => if i = k then [st] else [], [k], ha, ⟨hfirst.order, ?_, h.total_lt, hcount⟩,
    ⟨?_, ?_, ?_⟩, .singleton st,
    ⟨?_, ?_, ?_, ⟨hfirst.available, List.pairwise_singleton _ k, ?_, ?_⟩, ?_, ?_, hpos⟩⟩
  · refine ⟨hsystem.symm, ?_⟩
    rw [hsystem]
    show st + blockLen s st = _
    rw [blockLen, hsize]
    omega
  · rw [hused, allocated_cons, if_neg (by simp [hunused]), allocated_nil]
  · rw [hreqs, allocated_cons, if_neg (by simp [hunused]), allocated_nil]
  · intro x hx halloc
    rw [List.mem_singleton.1 hx, hunused] at halloc
    cases halloc
  · intro i hi
    by_cases hik : i = k
    · rw [if_pos hik, hik]
      exact hfirst.listed
    · rw [if_neg hik]
      exact hfirst.empty i hi hik
  · intro i _ x
    rw [hlist, hfree]
    constructor
    · rintro ⟨rfl, rfl⟩
      exact ⟨rfl, hk⟩
    · rintro ⟨rfl, rfl⟩
      exact ⟨rfl, hk.symm⟩
  · intro x hx
    rw [(hfree x).1 hx, hfirst.held, hk]
  · intro i hi
    rwa [List.mem_singleton.1 hi]
  · rw [hfirst.top]
    rfl
  · intro i
    by_cases hik : i = k
    · simp [hik, hlt]
    · simp [hik]
  · intro i hi
    rw [h.index]
    exact Nat.mod_eq_of_lt (by omega)

section Runs

variable {w : World} {blocks blocks' : List Nat} {fl fl' : Nat → List Nat} {av av' : List Nat}
variable {s : Shm} {st size : Nat}

/-- A failed call. -/
theorem Sound.setStat (h : Sound w blocks fl av) (failed splitFailed split : Nat) :
    Sound ⟨{ w.shm with shmemStat := { w.shm.shmemStat with
      failed := failed, splitFailed := splitFailed, split := split } }, w.live⟩ blocks fl av :=
  ⟨h.heap.setStat failed splitFailed split, h.threshold, h.live, h.nodup⟩

/-- A block is handed out. -/
theorem Sound.give (h : Sound w blocks fl av) (hheap : Heap s blocks' fl' av')
    (hgiven : Given w.shm s blocks blocks' st size) :
    Sound ⟨s, (st + storageSize) :: w.live⟩ blocks' fl' av' := by
  refine ⟨hheap, ?_, fun p => ?_, List.nodup_cons.2 ⟨?_, h.nodup⟩⟩
  · show storageSize + s.splitThreshold < 2 ^ 64
    rw [hgiven.params.splitThreshold]
    exact h.threshold
  · rw [List.mem_cons, h.live]
    constructor
    · rintro (rfl | ⟨x, hx, rfl⟩)
      · exact ⟨st, (hgiven.busy st).2 (.inr rfl), rfl⟩
      · exact ⟨x, (hgiven.busy x).2 (.inl hx), rfl⟩
    · rintro ⟨x, hx, rfl⟩
      rcases (hgiven.busy x).1 hx with hx | rfl
      · exact .inr ⟨x, hx, rfl⟩
      · exact .inl rfl
  · rw [h.live]
    rintro ⟨x, hx, heq⟩
    obtain rfl : st = x := Nat.add_right_cancel heq
    have hfree := hgiven.free.2
    rw [hx.2] at hfree
    cases hfree

/-- A block is given back. -/
theorem Sound.takeBack (h : Sound w blocks fl av) (hheap : Heap s blocks' fl' av')
    (hparams : SameParams w.shm s) (hbusy : ∀ x, Busy s blocks' x ↔ Busy w.shm blocks x ∧ x ≠ st) :
    Sound ⟨s, w.live.erase (st + storageSize)⟩ blocks' fl' av' := by
  refine ⟨hheap, ?_, fun p => ?_, h.nodup.erase _⟩
  · show storageSize + s.splitThreshold < 2 ^ 64
    rw [hparams.splitThreshold]
    exact h.threshold
  · rw [h.nodup.mem_erase_iff, h.live]
    constructor
    · rintro ⟨hne, x, hx, rfl⟩
      refine ⟨x, (hbusy x).2 ⟨hx, ?_⟩, rfl⟩
      rintro rfl
      exact hne rfl
    · rintro ⟨x, hx, rfl⟩
      obtain ⟨hx, hne⟩ := (hbusy x).1 hx
      exact ⟨fun heq => hne (Nat.add_right_cancel heq), x, hx, rfl⟩

/-- A call of `shs_shmem_alloc` or `shs_shmem_calloc`. -/
theorem Sound.alloc (h : Sound w blocks fl av) (size : Nat) :
    ∃ w' blocks' fl' av', (shsShmemAlloc size w.shm).map (w.give id) = some w' ∧
      Sound w' blocks' fl' av' := by
  by_cases hzero : size = 0
  · rw [shsShmemAlloc, if_pos hzero]
    exact ⟨w, blocks, fl, av, rfl, h⟩
  · rcases h.heap.alloc (by omega : 0 < size) h.threshold with ⟨e, halloc, -, -⟩ |
      ⟨st, s', blocks', fl', av', halloc, hheap, hgiven, -⟩
    · rw [halloc]
      exact ⟨_, blocks, fl, av, rfl, h.setStat _ _ _⟩
    · rw [halloc]
      exact ⟨_, blocks', fl', av', rfl, h.give hheap hgiven⟩

/-- Every call keeps the invariant. -/
theorem Sound.step (h : Sound w blocks fl av) (a : Act) :
    ∃ w' blocks' fl' av', step w a = some w' ∧ Sound w' blocks' fl' av' := by
  cases a with
  | alloc size => exact h.alloc (sizeT size)
  | calloc size => exact h.alloc (sizeT size)
  | splitAlloc reqMinsize =>
    rcases h.heap.splitAlloc (sizeT reqMinsize) with ⟨e, halloc, -, -⟩ |
      ⟨st, s', fl', av', halloc, hheap, hgiven, -, -, -⟩
    · rw [Shmem.step, halloc]
      exact ⟨_, blocks, fl, av, rfl, h.setStat _ _ _⟩
    · rw [Shmem.step, halloc]
      exact ⟨_, blocks, fl', av', rfl, h.give hheap hgiven⟩
  | free addr =>
    rw [Shmem.step]
    by_cases hlive : addr ∈ w.live
    · obtain ⟨st, hst, rfl⟩ := (h.live addr).1 hlive
      obtain ⟨s', blocks', fl', av', hfree, hheap, hparams, hbusy⟩ := h.heap.free hst
      rw [if_pos hlive, hfree]
      exact ⟨_, blocks', fl', av', rfl, h.takeBack hheap hparams hbusy⟩
    · rw [if_neg hlive]
      exact ⟨w, blocks, fl, av, rfl, h⟩

theorem Sound.exec (h : Sound w blocks fl av) (acts : List Act) :
    ∃ w' blocks' fl' av', exec w acts = some w' ∧ Sound w' blocks' fl' av' := by
  induction acts generalizing w blocks fl av with
  | nil => exact ⟨w, blocks, fl, av, rfl, h⟩
  | cons a acts ih =>
    obtain ⟨w₁, blocks₁, fl₁, av₁, hstep, h₁⟩ := h.step a
    obtain ⟨w', blocks', fl', av', hexec, h'⟩ := ih h₁
    refine ⟨w', blocks', fl', av', ?_, h'⟩
    rw [Shmem.exec, List.foldlM_cons, hstep]
    exact hexec

end Runs

/-! ## States that are reached -/

/-- The blocks tile the region and no two free ones are neighbours, the free lists hold the free
blocks of their classes, the available queue has the free nodes with blocks, and the counters are
the sums over the allocated blocks. -/
structure Consistent (s : Shm) (blocks : List Nat) (fl : Nat → List Nat) (av : List Nat) : Prop where
  order : LinkedRing s.order .head (blocks.map .entry)
  tiles : Tiles (blockLen s) s.shmemStat.systemSize blocks s.shmemStat.totalSize
  parted : blocks.IsChain (Parted s)
  lists : ∀ i < s.freeLen, LinkedRing s.free (.head i) ((fl i).map .entry)
  mem : ∀ i < s.freeLen, ∀ st, st ∈ fl i ↔ Free s blocks st ∧ klass s (s.storage st).size = i
  available : LinkedRing s.available .head (av.map .entry)
  increasing : av.Pairwise (· < ·)
  nonempty : ∀ i, i ∈ av ↔ i < s.freeLen ∧ fl i ≠ []
  top : s.maxAvailableIndex = av.getLast?.getD s.freeLen
  used : s.shmemStat.usedSize = allocated (·.size) s blocks
  reqs : s.shmemStat.reqsSize = allocated (·.actSize) s blocks
  count : s.shmemStat.stCount = blocks.length

theorem Heap.consistent {s : Shm} {blocks : List Nat} {fl : Nat → List Nat} {av : List Nat}
    (h : Heap s blocks fl av) : Consistent s blocks fl av where
  order := h.layout.order
  tiles := h.layout.tiles
  parted := h.parted
  lists := h.filed.lists
  mem := h.filed.mem
  available := h.filed.queued.ring
  increasing := h.filed.queued.sorted
  nonempty := h.filed.nonempty
  top := h.filed.queued.top
  used := h.counted.used
  reqs := h.counted.reqs
  count := h.layout.count

section Reached

variable {pageSize size minSize maxSize factor : Nat} {mapped : Bool} {levelType : Int} {s : Shm}

/-- The heap that `shs_shmem_create` returns. -/
theorem created (hpage : IsPageSize pageSize) (hmax : maxSize < 2 ^ 64)
    (hs : shsShmemCreate pageSize mapped size minSize maxSize levelType factor = .ok s) :
    Made s ∧ Accepted s := by
  rcases shsShmemCreate_cases hpage mapped size minSize factor levelType hmax with
    ⟨hfault, -⟩ | ⟨-, ⟨e, he⟩ | ⟨s', hs', hmade, haccepted⟩⟩
  · rw [hfault] at hs
    cases hs
  · rw [he] at hs
    cases hs
  · rw [hs'] at hs
    cases hs
    exact ⟨hmade, haccepted⟩

/-- A run from there. -/
theorem reached (hpage : IsPageSize pageSize) (hmax : maxSize < 2 ^ 64)
    (hs : shsShmemCreate pageSize mapped size minSize maxSize levelType factor = .ok s)
    (hlen : s.freeLen ≤ 2 ^ 32) (acts : List Act) :
    ∃ w blocks fl av, exec ⟨s, []⟩ acts = some w ∧ Sound w blocks fl av := by
  obtain ⟨hmade, haccepted⟩ := created hpage hmax hs
  obtain ⟨fl, av, hheap⟩ := hmade.heap haccepted hlen
  have hroom := hmade.room
  have htotal := hmade.total_lt
  have hmin := haccepted.min_lt
  have hsound : Sound ⟨s, []⟩ [s.shmemStat.systemSize] fl av := by
    refine ⟨hheap, ?_, fun p => ?_, List.nodup_nil⟩
    · show storageSize + s.splitThreshold < 2 ^ 64
      rw [hmade.threshold]
      omega
    · refine iff_of_false List.not_mem_nil ?_
      rintro ⟨st, hst, -⟩
      have halloc := hst.2
      rw [List.mem_singleton.1 hst.1, hmade.unused] at halloc
      cases halloc
  exact hsound.exec acts

/-- Every call keeps the heap consistent, if its free nodes have their own indices. -/
theorem heap_consistent (hpage : IsPageSize pageSize) (hmax : maxSize < 2 ^ 64)
    (hs : shsShmemCreate pageSize mapped size minSize maxSize levelType factor = .ok s)
    (hlen : s.freeLen ≤ 2 ^ 32) (acts : List Act) :
    ∃ w blocks fl av, exec ⟨s, []⟩ acts = some w ∧ Consistent w.shm blocks fl av := by
  obtain ⟨w, blocks, fl, av, hexec, hsound⟩ := reached hpage hmax hs hlen acts
  exact ⟨w, blocks, fl, av, hexec, hsound.heap.consistent⟩

/-- A heap with 8 free nodes. -/
theorem page_heap : ∃ s, shsShmemCreate 4096 true 65536 8 1024 levelTypeExp 0 = .ok s ∧
    s.freeLen ≤ 2 ^ 32 := ⟨_, rfl, by decide⟩

theorem heap_consistent_page : ∃ s w blocks fl av,
    shsShmemCreate 4096 true 65536 8 1024 levelTypeExp 0 = .ok s ∧
      exec ⟨s, []⟩ [.alloc 8, .calloc 100, .splitAlloc 64, .free 552] = some w ∧
      Consistent w.shm blocks fl av := by
  obtain ⟨s, hs, hlen⟩ := page_heap
  obtain ⟨w, blocks, fl, av, hexec, hcons⟩ :=
    heap_consistent isPageSize_4096 (by decide) hs hlen
      [.alloc 8, .calloc 100, .splitAlloc 64, .free 552]
  exact ⟨s, w, blocks, fl, av, hs, hexec, hcons⟩

/-- In a heap with `2 ^ 32 + 1` free nodes the last one has the index 0. The only block is taken out
of its list and put back. -/
theorem wide_heap_inconsistent : ∃ s w,
    shsShmemCreate 4096 true (2 ^ 38) 8 (8 + 8 * 2 ^ 32) levelTypeLinear 8 = .ok s ∧
      exec ⟨s, []⟩ [.splitAlloc 1, .free 171798692112] = some w ∧
      ¬∃ blocks fl av, Consistent w.shm blocks fl av := by
  have hrun : ∃ s w,
      shsShmemCreate 4096 true (2 ^ 38) 8 (8 + 8 * 2 ^ 32) levelTypeLinear 8 = .ok s ∧
        exec ⟨s, []⟩ [.splitAlloc 1, .free 171798692112] = some w ∧
        w.shm.maxAvailableIndex = 0 ∧ 2 ^ 32 < w.shm.freeLen ∧
        queueEmpty w.shm.free (.head (2 ^ 32)) = false :=
    ⟨_, _, rfl, rfl, by decide +kernel, by decide +kernel, by decide +kernel⟩
  obtain ⟨s, w, hs, hexec, htop, hlen, hfull⟩ := hrun
  refine ⟨s, w, hs, hexec, ?_⟩
  rintro ⟨blocks, fl, av, h⟩
  have hne : fl (2 ^ 32) ≠ [] := by
    intro hnil
    have hempty := (queueEmpty_iff (h.lists _ hlen)).2 (by rw [hnil]; rfl)
    rw [hfull] at hempty
    cases hempty
  have hmem := (h.nonempty (2 ^ 32)).2 ⟨hlen, hne⟩
  have hqueued : Queued w.shm av :=
    ⟨h.available, h.increasing, fun i hi => ((h.nonempty i).1 hi).1, h.top⟩
  have hle := (hqueued.le_top hmem).1
  omega

end Reached

end Shmem
end Shs
