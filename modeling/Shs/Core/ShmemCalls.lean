import Shs.Core.ShmemRuns

/-!
# Core.ShmemCalls

What the calls of the heap in shared memory do in the states that a run reaches: that a failed call
changes no block and no list, when `shs_shmem_alloc` finds a block that is large enough, that
`shs_shmem_split_alloc` finds the largest one, and for which thresholds a block is cut in two that
fit.
-/

namespace Shs
namespace Shmem

open Queue

section Calls

variable {pageSize size minSize maxSize factor : Nat} {mapped : Bool} {levelType : Int}
variable {s : Shm} {blocks : List Nat} {fl : Nat → List Nat} {av : List Nat}

/-! ## Failures -/

/-- The errors that report lists which do not fit together. -/
def ShmemErr.Internal (e : ShmemErr) : Prop :=
  e = .allocRemoveFree ∨ e = .allocMaxAvailableEmpty ∨ e = .getMaxCritical ∨
    e = .splitAllocRemoveFree ∨ e = .freeRemoveNext ∨ e = .freeRemovePrev

/-- A call returns, and leaves the heap as `left` says if it fails. -/
def FailsClean {β : Type} (left : Shm → Prop) (r : Option (Except ShmemErr β × Shm)) : Prop :=
  ∃ res s', r = some (res, s') ∧ ∀ e, res = .error e → ¬e.Internal ∧ left s'

/-- A failed allocation is counted, unless its size is 0. -/
theorem Sound.alloc_clean {w : World} (h : Sound w blocks fl av) (size : Nat) :
    FailsClean (fun s' => s' = w.shm ∨ s' = w.shm.setFailed) (shsShmemAlloc size w.shm) := by
  by_cases hzero : size = 0
  · refine ⟨.error .allocParam, w.shm, by rw [shsShmemAlloc, if_pos hzero], ?_⟩
    rintro e ⟨⟩
    exact ⟨by simp [ShmemErr.Internal], .inl rfl⟩
  · rcases h.heap.alloc (by omega : 0 < size) h.threshold with ⟨e, halloc, he, -⟩ |
      ⟨st, s', blocks', fl', av', halloc, -, -, -⟩
    · refine ⟨_, _, halloc, ?_⟩
      rintro e' ⟨⟩
      refine ⟨?_, .inr rfl⟩
      rcases he with rfl | rfl <;> simp [ShmemErr.Internal]
    · refine ⟨_, _, halloc, ?_⟩
      rintro e ⟨⟩

theorem Sound.splitAlloc_clean {w : World} (h : Sound w blocks fl av) (reqMinsize : Nat) :
    FailsClean (fun s' => s' = w.shm.setSplit.setSplitFailed)
      (shsShmemSplitAlloc reqMinsize w.shm) := by
  rcases h.heap.splitAlloc reqMinsize with ⟨e, halloc, he, -⟩ |
    ⟨st, s', fl', av', halloc, -, -, -, -, -⟩
  · refine ⟨_, _, halloc, ?_⟩
    rintro e' ⟨⟩
    refine ⟨?_, rfl⟩
    rcases he with rfl | rfl <;> simp [ShmemErr.Internal]
  · refine ⟨_, _, halloc, ?_⟩
    rintro e ⟨⟩

/-- In every state that is reached a failed call changes its counters only, a live address is
given back without an error, and `shs_shmem_free` of no address or of a block that is not handed
out changes nothing. -/
theorem failures_clean (hpage : IsPageSize pageSize) (hmax : maxSize < 2 ^ 64)
    (hs : shsShmemCreate pageSize mapped size minSize maxSize levelType factor = .ok s)
    (hlen : s.freeLen ≤ 2 ^ 32) (acts : List Act) :
    ∃ w, exec ⟨s, []⟩ acts = some w ∧
      (∀ n < 2 ^ 64,
        FailsClean (fun s' => s' = w.shm ∨ s' = w.shm.setFailed) (shsShmemAlloc n w.shm) ∧
        FailsClean (fun s' => s' = w.shm ∨ s' = w.shm.setFailed) (shsShmemCalloc n w.shm) ∧
        FailsClean (fun s' => s' = w.shm.setSplit.setSplitFailed) (shsShmemSplitAlloc n w.shm)) ∧
      (∀ p ∈ w.live, ∃ s', shsShmemFree (some p) w.shm = some (none, s')) ∧
      shsShmemFree none w.shm = some (some .freeParam, w.shm) ∧
      ∀ p, (w.shm.storage (p - storageSize)).alloc = false →
        shsShmemFree (some p) w.shm = some (some .freeNonalloced, w.shm) := by
  obtain ⟨w, blocks, fl, av, hexec, h⟩ := reached hpage hmax hs hlen acts
  refine ⟨w, hexec, fun n _ => ⟨h.alloc_clean n, h.alloc_clean n, h.splitAlloc_clean n⟩,
    fun p hp => ?_, rfl, fun p hp => ?_⟩
  · obtain ⟨st, hst, rfl⟩ := (h.live p).1 hp
    obtain ⟨s', -, -, -, hfree, -, -, -⟩ := h.heap.free hst
    exact ⟨s', hfree⟩
  · rw [shsShmemFree, if_pos hp]

theorem failures_clean_page : ∃ s w,
    shsShmemCreate 4096 true 65536 8 1024 levelTypeExp 0 = .ok s ∧
      exec ⟨s, []⟩ [.alloc 8, .alloc 100000] = some w ∧
      FailsClean (fun s' => s' = w.shm ∨ s' = w.shm.setFailed) (shsShmemAlloc 100000 w.shm) := by
  obtain ⟨s, hs, hlen⟩ := page_heap
  obtain ⟨w, hexec, hclean, -⟩ :=
    failures_clean isPageSize_4096 (by decide) hs hlen [.alloc 8, .alloc 100000]
  exact ⟨s, w, hs, hexec, (hclean 100000 (by decide)).1⟩

/-- Every call of `shs_shmem_split_alloc` is counted, also one that fails. -/
theorem split_counted : ∃ s s',
    shsShmemCreate 4096 true 65536 8 1024 levelTypeExp 0 = .ok s ∧
      shsShmemSplitAlloc 100000 s = some (.error .splitAllocNoFixedReqMinsize, s') ∧
      s'.shmemStat.split ≠ s.shmemStat.split :=
  ⟨_, _, rfl, rfl, by decide +kernel⟩

/-! ## A block that is large enough -/

/-- The allocation succeeds if and only if a free block is large enough, and the block that it
returns is. -/
def Complete (s : Shm) (blocks : List Nat) (size : Nat) : Prop :=
  ∃ res s', shsShmemAlloc size s = some (res, s') ∧
    ((∃ p, res = .ok p) ↔ ∃ x, Free s blocks x ∧ size ≤ (s.storage x).size) ∧
    ∀ p, res = .ok p → ∃ st, p = st + storageSize ∧ size ≤ (s'.storage st).size

theorem Heap.complete_iff (h : Heap s blocks fl av) (hpos : 0 < size)
    (hlow : storageSize + s.splitThreshold < 2 ^ 64) :
    Complete s blocks size ↔ ¬Skips s blocks size := by
  rcases h.alloc hpos hlow with ⟨e, halloc, -, hnone⟩ |
    ⟨st, s', blocks', fl', av', halloc, -, hgiven, hnot⟩
  · constructor
    · rintro ⟨res, s', heq, hiff, -⟩ hskips
      obtain ⟨x, hx, hclass⟩ := hskips.behind
      have hzero := h.accepted.getAllocIndex_eq_zero_iff.2 hskips.small
      have hfits : size ≤ (s.storage x).size := h.accepted.size_le_of_lt (by omega)
      obtain ⟨p, rfl⟩ := hiff.2 ⟨x, hx, hfits⟩
      rw [halloc] at heq
      cases heq
    · intro hnot
      have hall := hnone.resolve_left hnot
      refine ⟨_, _, halloc, iff_of_false ?_ ?_, ?_⟩
      · rintro ⟨p, ⟨⟩⟩
      · rintro ⟨x, hx, hle⟩
        have := hall x hx
        omega
      · rintro p ⟨⟩
  · refine iff_of_true ⟨_, _, halloc, iff_of_true ⟨_, rfl⟩ ⟨st, hgiven.free, hgiven.fits⟩, ?_⟩ hnot
    rintro p ⟨⟩
    exact ⟨st, rfl, hgiven.room⟩

/-- In every state that is reached, an allocation misses a block exactly when its search ends in the
list of class 0. -/
theorem alloc_complete_iff (hpage : IsPageSize pageSize) (hmax : maxSize < 2 ^ 64)
    (hs : shsShmemCreate pageSize mapped size minSize maxSize levelType factor = .ok s)
    (hlen : s.freeLen ≤ 2 ^ 32) (acts : List Act) :
    ∃ w blocks fl av, exec ⟨s, []⟩ acts = some w ∧ Consistent w.shm blocks fl av ∧
      ∀ n, 0 < n → n < 2 ^ 64 → (Complete w.shm blocks n ↔ ¬Skips w.shm blocks n) := by
  obtain ⟨w, blocks, fl, av, hexec, h⟩ := reached hpage hmax hs hlen acts
  exact ⟨w, blocks, fl, av, hexec, h.heap.consistent,
    fun n hn _ => h.heap.complete_iff hn h.threshold⟩

theorem alloc_complete_iff_page : ∃ s w blocks,
    shsShmemCreate 4096 true 65536 8 1024 levelTypeExp 0 = .ok s ∧
      exec ⟨s, []⟩ [.alloc 8] = some w ∧
      (Complete w.shm blocks 100 ↔ ¬Skips w.shm blocks 100) := by
  obtain ⟨s, hs, hlen⟩ := page_heap
  obtain ⟨w, blocks, -, -, hexec, -, hiff⟩ :=
    alloc_complete_iff isPageSize_4096 (by decide) hs hlen [.alloc 8]
  exact ⟨s, w, blocks, hs, hexec, hiff 100 (by decide) (by decide)⟩

/-- The only free block of class 0 has 8 bytes. An allocation of 16 bytes does not look behind
it. -/
theorem alloc_incomplete : ∃ s w,
    shsShmemCreate 4096 true 65536 16 1024 levelTypeExp 0 = .ok s ∧
      exec ⟨s, []⟩ [.alloc 8, .alloc 100, .free 512] = some w ∧
      LinkedRing w.shm.order .head [.entry 448, .entry 520, .entry 684] ∧
      ¬Complete w.shm [448, 520, 684] 16 := by
  have hrun : ∃ s w s',
      shsShmemCreate 4096 true 65536 16 1024 levelTypeExp 0 = .ok s ∧
        exec ⟨s, []⟩ [.alloc 8, .alloc 100, .free 512] = some w ∧
        [OrderCell.head, .entry 448, .entry 520, .entry 684, .head].IsChain
          (LinkedTo w.shm.order) ∧
        (w.shm.storage 684).alloc = false ∧ 16 ≤ (w.shm.storage 684).size ∧
        shsShmemAlloc 16 w.shm = some (.error .allocFoundNoFixed, s') :=
    ⟨_, _, _, rfl, rfl, by decide +kernel, by decide +kernel, by decide +kernel, rfl⟩
  obtain ⟨s, w, s', hs, hexec, hring, hfree, hsize, halloc⟩ := hrun
  refine ⟨s, w, hs, hexec, ⟨hring, by decide⟩, ?_⟩
  rintro ⟨res, s'', heq, hiff, -⟩
  rw [halloc] at heq
  cases heq
  obtain ⟨p, ⟨⟩⟩ := hiff.2 ⟨684, ⟨by simp, hfree⟩, hsize⟩

/-! ## The largest block -/

/-- The call returns the whole of a largest free block, with its size as the second result and in
`act_size`, and fails if and only if there is none or it is too small. -/
def Largest (s : Shm) (blocks : List Nat) (reqMinsize : Nat) : Prop :=
  ∃ res s', shsShmemSplitAlloc reqMinsize s = some (res, s') ∧
    (∀ p n, res = .ok (p, n) → ∃ st, p = st + storageSize ∧ Free s blocks st ∧
      (∀ x, Free s blocks x → (s.storage x).size ≤ (s.storage st).size) ∧
      n = (s.storage st).size ∧ (s'.storage st).alloc = true ∧ (s'.storage st).actSize = n ∧
      GivenWhole s s' st) ∧
    ((∃ e, res = .error e) ↔
      (∀ x, ¬Free s blocks x) ∨ ∃ st, Free s blocks st ∧ (s.storage st).size < reqMinsize ∧
        ∀ x, Free s blocks x → (s.storage x).size ≤ (s.storage st).size)

theorem Heap.largest (h : Heap s blocks fl av) (reqMinsize : Nat) :
    Largest s blocks reqMinsize := by
  rcases h.splitAlloc reqMinsize with ⟨e, halloc, -, hnone⟩ |
    ⟨st, s', fl', av', halloc, -, hgiven, hwhole, hreq, hmax⟩
  · refine ⟨_, _, halloc, ?_, iff_of_true ⟨e, rfl⟩ hnone⟩
    rintro p n ⟨⟩
  · refine ⟨_, _, halloc, ?_, iff_of_false ?_ ?_⟩
    · rintro p n ⟨⟩
      exact ⟨st, rfl, hgiven.free, hmax, rfl, ((hgiven.busy st).2 (.inr rfl)).2, hgiven.act, hwhole⟩
    · rintro ⟨e, ⟨⟩⟩
    · rintro (hnone | ⟨x, hx, hlt, hle⟩)
      · exact hnone st hgiven.free
      · have := hle st hgiven.free
        omega

/-- In every state that is reached. -/
theorem splitAlloc_largest (hpage : IsPageSize pageSize) (hmax : maxSize < 2 ^ 64)
    (hs : shsShmemCreate pageSize mapped size minSize maxSize levelType factor = .ok s)
    (hlen : s.freeLen ≤ 2 ^ 32) (acts : List Act) :
    ∃ w blocks fl av, exec ⟨s, []⟩ acts = some w ∧ Consistent w.shm blocks fl av ∧
      ∀ n < 2 ^ 64, Largest w.shm blocks n := by
  obtain ⟨w, blocks, fl, av, hexec, h⟩ := reached hpage hmax hs hlen acts
  exact ⟨w, blocks, fl, av, hexec, h.heap.consistent, fun n _ => h.heap.largest n⟩

theorem splitAlloc_largest_page : ∃ s w blocks,
    shsShmemCreate 4096 true 65536 8 1024 levelTypeExp 0 = .ok s ∧
      exec ⟨s, []⟩ [.alloc 8, .alloc 100, .free 552] = some w ∧ Largest w.shm blocks 64 := by
  obtain ⟨s, hs, hlen⟩ := page_heap
  obtain ⟨w, blocks, -, -, hexec, -, hall⟩ :=
    splitAlloc_largest isPageSize_4096 (by decide) hs hlen [.alloc 8, .alloc 100, .free 552]
  exact ⟨s, w, blocks, hs, hexec, hall 64 (by decide)⟩

/-- The only block is free, in the list of the last free node, but the heap takes the first one for
the last. -/
theorem wide_heap_fails : ∃ s w,
    shsShmemCreate 4096 true (2 ^ 38) 8 (8 + 8 * 2 ^ 32) levelTypeLinear 8 = .ok s ∧
      exec ⟨s, []⟩ [.splitAlloc 1, .free 171798692112] = some w ∧
      LinkedRing w.shm.order .head [.entry 171798692048] ∧ ¬Largest w.shm [171798692048] 1 := by
  have hrun : ∃ s w s',
      shsShmemCreate 4096 true (2 ^ 38) 8 (8 + 8 * 2 ^ 32) levelTypeLinear 8 = .ok s ∧
        exec ⟨s, []⟩ [.splitAlloc 1, .free 171798692112] = some w ∧
        [OrderCell.head, .entry 171798692048, .head].IsChain (LinkedTo w.shm.order) ∧
        (w.shm.storage 171798692048).alloc = false ∧ 1 ≤ (w.shm.storage 171798692048).size ∧
        shsShmemSplitAlloc 1 w.shm = some (.error .splitAllocRemoveFree, s') :=
    ⟨_, _, _, rfl, rfl, by decide +kernel, by decide +kernel, by decide +kernel, rfl⟩
  obtain ⟨s, w, s', hs, hexec, hring, hfree, hsize, halloc⟩ := hrun
  refine ⟨s, w, hs, hexec, ⟨hring, by decide⟩, ?_⟩
  rintro ⟨res, s'', heq, -, hiff⟩
  rw [halloc] at heq
  cases heq
  rcases hiff.1 ⟨_, rfl⟩ with hnone | ⟨x, hx, hlt, -⟩
  · exact hnone _ ⟨by simp, hfree⟩
  · rw [List.mem_singleton.1 hx.1] at hlt
    omega

/-! ## The threshold -/

/-- The block that an allocation of `n` bytes gives out is whole, or is cut in two that fit. -/
def CutsInside (s s' : Shm) (blocks : List Nat) (p n : Nat) : Prop :=
  ∃ st, p = st + storageSize ∧ Free s blocks st ∧ (GivenWhole s s' st ∨ GivenFirst s s' st n)

/-- Every heap with the threshold `t`, and every allocation that succeeds. -/
def ThresholdSafe (t : Nat) : Prop :=
  ∀ s blocks fl av, Heap s blocks fl av → ∀ n, 0 < n → n < 2 ^ 64 → ∀ p s',
    shsShmemAlloc n (shsShmemSetSplitThreshold t s) = some (.ok p, s') → CutsInside s s' blocks p n

/-- The threshold is not part of the invariant. -/
theorem Heap.setSplitThreshold (h : Heap s blocks fl av) (t : Nat) :
    Heap (shsShmemSetSplitThreshold t s) blocks fl av :=
  ⟨⟨h.accepted.1, h.accepted.2, h.accepted.3, h.accepted.4⟩,
    ⟨h.layout.1, h.layout.2, h.layout.3, h.layout.4⟩,
    ⟨h.counted.1, h.counted.2, h.counted.3⟩, h.parted,
    ⟨h.filed.1, h.filed.2, h.filed.3, ⟨h.filed.4.1, h.filed.4.2, h.filed.4.3, h.filed.4.4⟩,
      h.filed.5, h.filed.6, h.filed.7⟩⟩

/-- The address and the number of blocks after an allocation of all but the last `d` bytes of the
only block, with a threshold that wraps to `d`. -/
def allocAllBut (d : Nat) (s : Shm) : Option (Option Nat × Nat) :=
  (shsShmemAlloc (64984 - d) (shsShmemSetSplitThreshold (2 ^ 64 - 64 + d) s)).map
    fun r => (r.1.toOption, r.2.shmemStat.stCount)

/-- The block is cut, though its rest has no room for a header. -/
theorem allocAllBut_cuts : ∃ s,
    shsShmemCreate 4096 true 65536 8 1024 levelTypeExp 0 = .ok s ∧ s.freeLen ≤ 2 ^ 32 ∧
      s.shmemStat.stCount = 1 ∧ (s.storage 488).size = 64984 ∧
      ∀ d < 64, allocAllBut d s = some (some 552, 2) :=
  ⟨_, rfl, by decide, by decide +kernel, by decide +kernel, by decide +kernel⟩

theorem not_cutsInside {s' : Shm} {n : Nat} (hone : s.shmemStat.stCount = 1)
    (hsize : (s.storage 488).size = 64984) (htwo : s'.shmemStat.stCount = 2)
    (hn : 64984 < n + storageSize) : ¬CutsInside s s' blocks 552 n := by
  rintro ⟨st, hst, -, hwhole | hfirst⟩
  · have := hwhole.count
    omega
  · obtain rfl : st = 488 := by
      simp only [storageSize] at hst
      omega
    have := hfirst.fits
    omega

/-- A threshold that wraps to `d`, and an allocation that leaves `d` bytes. -/
theorem cuts_outside {d : Nat} (hd : d < 64) : ∃ s s' blocks fl av,
    shsShmemCreate 4096 true 65536 8 1024 levelTypeExp 0 = .ok s ∧ Heap s blocks fl av ∧
      shsShmemAlloc (64984 - d) (shsShmemSetSplitThreshold (2 ^ 64 - 64 + d) s)
        = some (.ok 552, s') ∧
      ¬CutsInside s s' blocks 552 (64984 - d) := by
  obtain ⟨s, hs, hlen, hone, hsize, hcuts⟩ := allocAllBut_cuts
  obtain ⟨hmade, haccepted⟩ := created isPageSize_4096 (by decide) hs
  obtain ⟨fl, av, hheap⟩ := hmade.heap haccepted hlen
  obtain ⟨⟨res, s'⟩, halloc, hres⟩ := Option.map_eq_some_iff.1 (hcuts d hd)
  obtain ⟨hok, htwo⟩ := Prod.mk.inj hres
  refine ⟨s, s', _, fl, av, hs, hheap, ?_, not_cutsInside hone hsize htwo ?_⟩
  · cases res with
    | error e => cases hok
    | ok p =>
      obtain rfl : p = 552 := Option.some.inj hok
      exact halloc
  · simp only [storageSize]
    omega

/-- When blocks are only cut in two that fit. -/
theorem thresholdSafe_iff {t : Nat} (ht : t < 2 ^ 64) :
    ThresholdSafe t ↔ t + storageSize < 2 ^ 64 := by
  constructor
  · intro hsafe
    by_contra hwrap
    simp only [storageSize] at hwrap
    obtain ⟨d, hd, rfl⟩ : ∃ d < 64, t = 2 ^ 64 - 64 + d := ⟨t - (2 ^ 64 - 64), by omega, by omega⟩
    obtain ⟨s, s', blocks, fl, av, -, hheap, halloc, houtside⟩ := cuts_outside hd
    exact houtside (hsafe s blocks fl av hheap _ (by omega) (by omega) 552 s' halloc)
  · intro hlow s blocks fl av hheap n hn _ p s' halloc
    rcases (hheap.setSplitThreshold t).alloc hn (by rw [Nat.add_comm]; exact hlow) with
      ⟨e, hfail, -, -⟩ | ⟨st, s'', _, _, _, hok, -, hgiven, -⟩
    · rw [hfail] at halloc
      cases halloc
    · rw [hok] at halloc
      cases halloc
      refine ⟨st, rfl, hgiven.free, hgiven.parts.imp (fun h => ?_) fun h => ?_⟩
      · exact ⟨h.given, h.count, h.order⟩
      · exact ⟨h.fits, h.given, h.rest, h.unused, h.next⟩

/-- The default threshold. -/
theorem thresholdSafe_iff_default : ThresholdSafe 64 ↔ 64 + storageSize < 2 ^ 64 :=
  thresholdSafe_iff (by decide)

/-- The largest threshold. -/
theorem threshold_unsafe : ∃ s s' blocks fl av,
    shsShmemCreate 4096 true 65536 8 1024 levelTypeExp 0 = .ok s ∧ Heap s blocks fl av ∧
      shsShmemAlloc 64921 (shsShmemSetSplitThreshold (2 ^ 64 - 1) s) = some (.ok 552, s') ∧
      ¬CutsInside s s' blocks 552 64921 :=
  cuts_outside (by decide : 63 < 64)

end Calls

end Shmem
end Shs
