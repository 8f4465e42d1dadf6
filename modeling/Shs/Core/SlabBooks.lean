import Mathlib.Algebra.Order.BigOperators.Group.List
import Mathlib.Algebra.Order.Ring.Nat
import Mathlib.Data.List.Flatten
import Shs.Lib.Chain
import Shs.Core.SlabClass

/-!
# Core.SlabBooks

Where the chunks of a slab manager are, and what its counters say. A chunk is with the allocator, in
the free list of a class, handed out, or in the hand of a function that moves it. `Places` is about
the chunks and `Tally` about the counters; each move of a chunk keeps both.
-/

namespace Shs
namespace Slabs

open Chain

/-! ## The chunks -/

/-- The chunks of all free lists. -/
def allCached (n : Nat) (cached : Nat → List Nat) : List Nat := (List.range n).flatMap cached

/-- The region of a chunk. -/
def region (chunk : Nat → ChunkLink) (c : Nat) : Region := ⟨c, (chunk c).size + chunkLinkSize⟩

/-- A chunk of class `i`, or one of `shs_slabs_split_alloc`. -/
def Tagged (m : SlabManager) (v : ChunkLink) : Prop :=
  v.id = slabSplitId ∨
    ∃ i : Nat, i < m.freeLen ∧ v.id = i ∧ v.size + chunkLinkSize = (m.slabclass i).size

/-- Every chunk is at one place: in hand, handed out, or in the free list of its class. -/
structure Places (m : SlabManager) (chunk : Nat → ChunkLink) (lists : Nat → Option Nat)
    (out : List Region) (hand live : List Nat) (cached : Nat → List Nat) : Prop where
  linked : ∀ i < m.freeLen, Linked (fun c => (chunk c).next) (lists i) (cached i)
  nodup : (hand ++ live ++ allCached m.freeLen cached).Nodup
  out : ∀ c ∈ hand ++ live ++ allCached m.freeLen cached, region chunk c ∈ out
  sized : ∀ i < m.freeLen, ∀ c ∈ cached i,
    (chunk c).size + chunkLinkSize = (m.slabclass i).size
  tagged : ∀ c ∈ live, Tagged m (chunk c)

section Lists

variable {cached : Nat → List Nat} {n i c : Nat} {cs : List Nat}

theorem mem_allCached : c ∈ allCached n cached ↔ ∃ i < n, c ∈ cached i := by
  simp [allCached]

/-- The head of one list among many. -/
theorem allCached_cons (hi : i < n) (hc : cached i = c :: cs) :
    (allCached n cached).Perm (c :: allCached n (Function.update cached i cs)) := by
  induction n with
  | zero => omega
  | succ n ih =>
    simp only [allCached, List.range_succ, List.flatMap_append, List.flatMap_singleton] at ih ⊢
    by_cases hin : i = n
    · subst hin
      have hsame : (List.range i).flatMap (Function.update cached i cs) =
          (List.range i).flatMap cached := by
        refine List.flatMap_congr fun j hj => Function.update_of_ne ?_ _ _
        have hlt := List.mem_range.1 hj
        omega
      rw [hsame, hc, Function.update_self]
      exact List.perm_middle
    · rw [Function.update_of_ne (Ne.symm hin)]
      exact (ih (by omega)).append_right _

theorem allCached_push (hi : i < n) :
    (allCached n (Function.update cached i (c :: cached i))).Perm (c :: allCached n cached) := by
  have hperm := allCached_cons hi (Function.update_self i (c :: cached i) cached)
  rwa [Function.update_idem, Function.update_eq_self] at hperm

end Lists

section Places

variable {m : SlabManager} {chunk chunk' : Nat → ChunkLink} {lists : Nat → Option Nat}
variable {out : List Region} {hand live : List Nat} {cached : Nat → List Nat}
variable {i c : Nat} {cs : List Nat} {r : Region} {v : ChunkLink}

/-- The first chunk of a free list is taken. -/
theorem Places.take (h : Places m chunk lists out [] live cached) (hi : i < m.freeLen)
    (hc : cached i = c :: cs) :
    Places m chunk (Function.update lists i (chunk c).next) out [c] live
      (Function.update cached i cs) := by
  have hnow : ([] ++ live ++ allCached m.freeLen cached).Perm
      ([c] ++ live ++ allCached m.freeLen (Function.update cached i cs)) :=
    ((allCached_cons hi hc).append_left live).trans (by simp)
  have hlink := h.linked i hi
  rw [hc] at hlink
  refine ⟨fun j hj => ?_, hnow.nodup_iff.1 h.nodup, fun x hx => h.out x (hnow.mem_iff.2 hx),
    fun j hj x hx => h.sized j hj x ?_, h.tagged⟩
  · by_cases hji : j = i
    · rw [hji, Function.update_self, Function.update_self]
      exact hlink.2
    · rw [Function.update_of_ne hji, Function.update_of_ne hji]
      exact h.linked j hj
  · by_cases hji : j = i
    · rw [hji, Function.update_self] at hx
      rw [hji, hc]
      exact List.mem_cons_of_mem c hx
    · rwa [Function.update_of_ne hji] at hx

/-- A chunk in the hand goes to the allocator. -/
theorem Places.drop (h : Places m chunk lists out [c] live cached) :
    Places m chunk lists (out.filter fun r => decide (r.start ≠ c)) [] live cached := by
  have hnd := h.nodup
  simp only [List.cons_append, List.nil_append, List.nodup_cons] at hnd
  refine ⟨h.linked, hnd.2, fun x hx => List.mem_filter.2 ⟨h.out x (by simp_all), ?_⟩, h.sized,
    h.tagged⟩
  have hne : x ≠ c := by
    rintro rfl
    exact hnd.1 (by simpa using hx)
  exact decide_eq_true hne

/-- Or is lost. -/
theorem Places.lose (h : Places m chunk lists out [c] live cached) :
    Places m chunk lists out [] live cached := by
  have hnd := h.nodup
  simp only [List.cons_append, List.nil_append, List.nodup_cons] at hnd
  exact ⟨h.linked, hnd.2, fun x hx => h.out x (by simp_all), h.sized, h.tagged⟩

/-- Headers of other chunks are written. -/
theorem Places.congr (h : Places m chunk lists out hand live cached)
    (heq : ∀ x ∈ hand ++ live ++ allCached m.freeLen cached,
      (chunk' x).size = (chunk x).size ∧ (chunk' x).next = (chunk x).next)
    (hid : ∀ x ∈ live, (chunk' x).id = (chunk x).id) :
    Places m chunk' lists out hand live cached := by
  have hcached : ∀ j < m.freeLen, ∀ x ∈ cached j,
      x ∈ hand ++ live ++ allCached m.freeLen cached :=
    fun j hj x hx => List.mem_append_right _ (mem_allCached.2 ⟨j, hj, hx⟩)
  refine ⟨fun j hj => ?_, h.nodup, fun x hx => ?_, fun j hj x hx => ?_, fun x hx => ?_⟩
  · exact (h.linked j hj).congr fun x hx => (heq x (hcached j hj x hx)).2
  · rw [region, (heq x hx).1]
    exact h.out x hx
  · rw [(heq x (hcached j hj x hx)).1]
    exact h.sized j hj x hx
  · rw [Tagged, hid x hx, (heq x (by simp [hx])).1]
    exact h.tagged x hx

/-- A new chunk comes from the allocator. -/
theorem Places.fresh (h : Places m chunk lists out [] live cached) (hr : Fresh out r)
    (hv : v.size + chunkLinkSize = r.size) :
    Places m (Function.update chunk r.start v) lists (r :: out) [r.start] live cached := by
  have hne : ∀ x ∈ live ++ allCached m.freeLen cached, x ≠ r.start := by
    rintro x hx rfl
    have hapart := hr.apart _ (h.out r.start (by simpa using hx))
    have hsized := hr.sized
    simp only [Region.Apart, Region.stop, region, chunkLinkSize] at hapart
    omega
  have hkeep : ∀ x ∈ live ++ allCached m.freeLen cached,
      Function.update chunk r.start v x = chunk x :=
    fun x hx => Function.update_of_ne (hne x hx) _ _
  have hold : Places m (Function.update chunk r.start v) lists out [] live cached := by
    refine h.congr (fun x hx => ?_) fun x hx => ?_
    · rw [hkeep x hx]
      exact ⟨rfl, rfl⟩
    · rw [hkeep x (List.mem_append_left _ hx)]
  refine ⟨hold.linked, ?_, fun x hx => ?_, hold.sized, hold.tagged⟩
  · simp only [List.cons_append, List.nil_append, List.nodup_cons]
    exact ⟨fun hmem => hne _ hmem rfl, h.nodup⟩
  · simp only [List.cons_append, List.nil_append, List.mem_cons] at hx ⊢
    rcases hx with rfl | hx
    · refine .inl ?_
      rw [region, Function.update_self, hv]
    · exact .inr (hold.out x hx)

/-- A chunk in the hand is handed out. -/
theorem Places.give (h : Places m chunk lists out [c] live cached)
    (hsize : v.size = (chunk c).size) (hnext : v.next = (chunk c).next) (hv : Tagged m v) :
    Places m (Function.update chunk c v) lists out [] (c :: live) cached := by
  have hnd := h.nodup
  simp only [List.cons_append, List.nil_append, List.nodup_cons] at hnd
  have hne : ∀ x ∈ live, x ≠ c := by
    rintro x hx rfl
    exact hnd.1 (List.mem_append_left _ hx)
  have hnew : Places m (Function.update chunk c v) lists out [c] live cached := by
    refine h.congr (fun x _ => ?_) fun x hx => by rw [Function.update_of_ne (hne x hx)]
    by_cases hx : x = c
    · rw [hx, Function.update_self]
      exact ⟨hsize, hnext⟩
    · rw [Function.update_of_ne hx]
      exact ⟨rfl, rfl⟩
  refine ⟨hnew.linked, hnew.nodup, hnew.out, hnew.sized, fun x hx => ?_⟩
  rcases List.mem_cons.1 hx with rfl | hx
  · rwa [Function.update_self]
  · exact hnew.tagged x hx

/-- A chunk that was handed out comes back. -/
theorem Places.back (h : Places m chunk lists out [] live cached) (hc : c ∈ live) :
    Places m chunk lists out [c] (live.erase c) cached := by
  have hnow : ([] ++ live ++ allCached m.freeLen cached).Perm
      ([c] ++ live.erase c ++ allCached m.freeLen cached) :=
    (List.perm_cons_erase hc).append_right _
  exact ⟨h.linked, hnow.nodup_iff.1 h.nodup, fun x hx => h.out x (hnow.mem_iff.2 hx), h.sized,
    fun x hx => h.tagged x (List.mem_of_mem_erase hx)⟩

/-- A chunk in the hand goes into the free list of its class. -/
theorem Places.store (h : Places m chunk lists out [c] live cached) (hi : i < m.freeLen)
    (hsize : (chunk c).size + chunkLinkSize = (m.slabclass i).size) :
    Places m (Function.update chunk c { chunk c with next := lists i })
      (Function.update lists i (some c)) out [] live
      (Function.update cached i (c :: cached i)) := by
  have hnow : ([c] ++ live ++ allCached m.freeLen cached).Perm
      ([] ++ live ++ allCached m.freeLen (Function.update cached i (c :: cached i))) := by
    refine List.Perm.trans ?_ ((allCached_push hi).symm.append_left live)
    simp [List.perm_middle.symm]
  have hnd := h.nodup
  simp only [List.cons_append, List.nil_append, List.nodup_cons] at hnd
  have hnext : (fun x => (Function.update chunk c { chunk c with next := lists i } x).next)
      = Function.update (fun x => (chunk x).next) c (lists i) := by
    funext x
    by_cases hx : x = c
    · rw [hx, Function.update_self, Function.update_self]
    · rw [Function.update_of_ne hx, Function.update_of_ne hx]
  have hnot : ∀ j < m.freeLen, c ∉ cached j :=
    fun j hj hx => hnd.1 (List.mem_append_right _ (mem_allCached.2 ⟨j, hj, hx⟩))
  have hsame : ∀ x, (Function.update chunk c { chunk c with next := lists i } x).size
      = (chunk x).size ∧
      (Function.update chunk c { chunk c with next := lists i } x).id = (chunk x).id := by
    intro x
    by_cases hx : x = c
    · rw [hx, Function.update_self]
      exact ⟨rfl, rfl⟩
    · rw [Function.update_of_ne hx]
      exact ⟨rfl, rfl⟩
  refine ⟨fun j hj => ?_, hnow.nodup_iff.1 h.nodup, fun x hx => ?_, fun j hj x hx => ?_,
    fun x hx => ?_⟩
  · rw [hnext]
    by_cases hji : j = i
    · rw [hji, Function.update_self, Function.update_self]
      exact (h.linked i hi).push (hnot i hi)
    · rw [Function.update_of_ne hji, Function.update_of_ne hji]
      exact (h.linked j hj).update (hnot j hj)
  · rw [region, (hsame x).1]
    exact h.out x (hnow.mem_iff.2 hx)
  · rw [(hsame x).1]
    by_cases hji : j = i
    · rw [hji, Function.update_self, List.mem_cons] at hx
      rw [hji]
      rcases hx with rfl | hx
      · exact hsize
      · exact h.sized i hi x hx
    · rw [Function.update_of_ne hji] at hx
      exact h.sized j hj x hx
  · rw [Tagged, (hsame x).1, (hsame x).2]
    exact h.tagged x hx

end Places

/-! ## The counters -/

def sizes (chunk : Nat → ChunkLink) (cs : List Nat) : Nat := (cs.map fun c => (chunk c).size).sum

def reqSizes (chunk : Nat → ChunkLink) (cs : List Nat) : Nat :=
  (cs.map fun c => (chunk c).reqSize).sum

/-- The counters are the sums over the chunks, where `cache` are those of all free lists. -/
structure Tally (stat : SlabStat) (chunk : Nat → ChunkLink) (hand live cache : List Nat) :
    Prop where
  used : stat.usedSize = sizes chunk live
  free : stat.freeSize = sizes chunk cache
  reqs : stat.reqsSize = reqSizes chunk live
  count : stat.chunkCount = hand.length + live.length + cache.length
  fits : ∀ c ∈ live, (chunk c).reqSize ≤ (chunk c).size

section Counters

variable {m : SlabManager} {chunk chunk' : Nat → ChunkLink} {lists : Nat → Option Nat}
variable {out : List Region} {hand live cache cache' : List Nat} {cached : Nat → List Nat}
variable {stat : SlabStat} {c n : Nat} {cs ds : List Nat} {v : ChunkLink}

@[simp] theorem sizes_nil (chunk : Nat → ChunkLink) : sizes chunk [] = 0 := rfl

@[simp] theorem sizes_cons (chunk : Nat → ChunkLink) (c : Nat) (cs : List Nat) :
    sizes chunk (c :: cs) = (chunk c).size + sizes chunk cs := by simp [sizes]

@[simp] theorem sizes_append (chunk : Nat → ChunkLink) (cs ds : List Nat) :
    sizes chunk (cs ++ ds) = sizes chunk cs + sizes chunk ds := by simp [sizes]

@[simp] theorem reqSizes_cons (chunk : Nat → ChunkLink) (c : Nat) (cs : List Nat) :
    reqSizes chunk (c :: cs) = (chunk c).reqSize + reqSizes chunk cs := by simp [reqSizes]

theorem sizes_perm (chunk : Nat → ChunkLink) (h : cs.Perm ds) : sizes chunk cs = sizes chunk ds :=
  (h.map _).sum_eq

theorem reqSizes_perm (chunk : Nat → ChunkLink) (h : cs.Perm ds) :
    reqSizes chunk cs = reqSizes chunk ds :=
  (h.map _).sum_eq

theorem sizes_congr (h : ∀ x ∈ cs, (chunk' x).size = (chunk x).size) :
    sizes chunk' cs = sizes chunk cs :=
  congrArg List.sum (List.map_congr_left h)

theorem reqSizes_congr (h : ∀ x ∈ cs, (chunk' x).reqSize = (chunk x).reqSize) :
    reqSizes chunk' cs = reqSizes chunk cs :=
  congrArg List.sum (List.map_congr_left h)

/-- What is requested is not more than what is used. -/
theorem reqSizes_le (h : ∀ c ∈ cs, (chunk c).reqSize ≤ (chunk c).size) :
    reqSizes chunk cs ≤ sizes chunk cs :=
  List.sum_le_sum h

/-- Chunks take up room apart from each other. -/
theorem Places.total (h : Places m chunk lists out hand live cached)
    (hpacked : Region.Packed heapTop out) :
    sizes chunk hand + sizes chunk live + sizes chunk (allCached m.freeLen cached)
      + 32 * (hand.length + live.length + (allCached m.freeLen cached).length) + 8 ≤ 2 ^ 64 := by
  have hinj : ((hand ++ live ++ allCached m.freeLen cached).map (region chunk)).Nodup :=
    h.nodup.map fun a b hab => congrArg Region.start hab
  have htotal := (hpacked.of_subset hinj fun r hr => by
    obtain ⟨c, hc, rfl⟩ := List.mem_map.1 hr
    exact h.out c hc).total_le
  have hsum : ∀ l : List Nat, (((l.map (region chunk)).map (·.size)).sum)
      = sizes chunk l + 32 * l.length := by
    intro l
    induction l with
    | nil => rfl
    | cons c l ih =>
      rw [List.map_cons, List.map_cons, List.sum_cons, ih, sizes_cons, List.length_cons]
      simp only [region, chunkLinkSize]
      omega
  rw [hsum, sizes_append, sizes_append, List.length_append, List.length_append, heapTop] at htotal
  omega

theorem Places.size_lt (h : Places m chunk lists out hand live cached)
    (hpacked : Region.Packed heapTop out) (hc : c ∈ hand ++ live ++ allCached m.freeLen cached) :
    (chunk c).size + chunkLinkSize < 2 ^ 64 := by
  have hinside := hpacked.inside _ (h.out c hc)
  simp only [Region.stop, region, heapTop] at hinside
  omega

/-- There are not more chunks than regions. -/
theorem Places.length_le (h : Places m chunk lists out hand live cached) :
    (allCached m.freeLen cached).length ≤ out.length := by
  have hinj : ((hand ++ live ++ allCached m.freeLen cached).map (region chunk)).Nodup :=
    h.nodup.map fun a b hab => congrArg Region.start hab
  have hsub : (hand ++ live ++ allCached m.freeLen cached).map (region chunk) ⊆ out := by
    intro r hr
    obtain ⟨c, hc, rfl⟩ := List.mem_map.1 hr
    exact h.out c hc
  have := (List.subperm_of_subset hinj hsub).length_le
  simp only [List.length_map, List.length_append] at this
  omega

theorem Tally.reqs_le (h : Tally stat chunk hand live cache) : stat.reqsSize ≤ stat.usedSize := by
  rw [h.reqs, h.used]
  exact reqSizes_le h.fits

theorem Tally.take (h : Tally stat chunk [] live cache) (hcache : cache.Perm (c :: cache'))
    (hn : stat.freeSize = n + (chunk c).size) :
    Tally { stat with freeSize := n } chunk [c] live cache' := by
  have hfree := h.free
  have hcount := h.count
  rw [sizes_perm chunk hcache, sizes_cons] at hfree
  rw [hcache.length_eq, List.length_cons] at hcount
  exact ⟨h.used, show n = _ by omega, h.reqs, by
    simp only [List.length_cons, List.length_nil] at hcount ⊢
    omega, h.fits⟩

theorem Tally.drop (h : Tally stat chunk [c] live cache) (hn : stat.chunkCount = n + 1) :
    Tally { stat with chunkCount := n } chunk [] live cache := by
  have hcount := h.count
  exact ⟨h.used, h.free, h.reqs, by
    simp only [List.length_cons, List.length_nil] at hcount ⊢
    omega, h.fits⟩

/-- Headers of other chunks are written. -/
theorem Tally.congr (h : Tally stat chunk hand live cache)
    (hsize : ∀ x ∈ live ++ cache, (chunk' x).size = (chunk x).size)
    (hreq : ∀ x ∈ live, (chunk' x).reqSize = (chunk x).reqSize) :
    Tally stat chunk' hand live cache := by
  have hlive : ∀ x ∈ live, (chunk' x).size = (chunk x).size :=
    fun x hx => hsize x (List.mem_append_left _ hx)
  refine ⟨?_, ?_, ?_, h.count, fun x hx => ?_⟩
  · rw [sizes_congr hlive, h.used]
  · rw [sizes_congr fun x hx => hsize x (List.mem_append_right _ hx), h.free]
  · rw [reqSizes_congr hreq, h.reqs]
  · rw [hreq x hx, hlive x hx]
    exact h.fits x hx

theorem Tally.fresh (h : Tally stat chunk [] live cache) (hc : c ∉ live ++ cache) :
    Tally { stat with chunkCount := stat.chunkCount + 1 } (Function.update chunk c v) [c] live
      cache := by
  have hne : ∀ x ∈ live ++ cache, x ≠ c := by
    rintro x hx rfl
    exact hc hx
  have hold : Tally stat (Function.update chunk c v) [] live cache := by
    refine h.congr (fun x hx => ?_) fun x hx => ?_
    · rw [Function.update_of_ne (hne x hx)]
    · rw [Function.update_of_ne (hne x (List.mem_append_left _ hx))]
  have hcount := h.count
  exact ⟨hold.used, hold.free, hold.reqs, by
    simp only [List.length_cons, List.length_nil] at hcount ⊢
    omega, hold.fits⟩

theorem Tally.give (h : Tally stat chunk [c] live cache) (hc : c ∉ live)
    (hsize : v.size = (chunk c).size) (hfits : v.reqSize ≤ v.size) :
    Tally { stat with
        reqsSize := stat.reqsSize + v.reqSize
        usedSize := stat.usedSize + v.size }
      (Function.update chunk c v) [] (c :: live) cache := by
  have hsame : ∀ x, (Function.update chunk c v x).size = (chunk x).size := by
    intro x
    by_cases hx : x = c
    · rw [hx, Function.update_self, hsize]
    · rw [Function.update_of_ne hx]
  have hnew : Tally stat (Function.update chunk c v) [c] live cache := by
    refine h.congr (fun x _ => hsame x) fun x hx => ?_
    rw [Function.update_of_ne]
    rintro rfl
    exact hc hx
  have hused := hnew.used
  have hreqs := hnew.reqs
  have hcount := hnew.count
  refine ⟨?_, hnew.free, ?_, ?_, fun x hx => ?_⟩
  · rw [sizes_cons, Function.update_self]
    show stat.usedSize + v.size = _
    omega
  · rw [reqSizes_cons, Function.update_self]
    show stat.reqsSize + v.reqSize = _
    omega
  · simp only [List.length_cons, List.length_nil] at hcount ⊢
    omega
  · rcases List.mem_cons.1 hx with rfl | hx
    · rwa [Function.update_self]
    · exact hnew.fits x hx

theorem Tally.back (h : Tally stat chunk [] live cache) (hc : c ∈ live) {u q : Nat}
    (hu : stat.usedSize = u + (chunk c).size) (hq : stat.reqsSize = q + (chunk c).reqSize) :
    Tally { stat with usedSize := u, reqsSize := q } chunk [c] (live.erase c) cache := by
  have hperm := List.perm_cons_erase hc
  have hused := h.used
  have hreqs := h.reqs
  have hcount := h.count
  rw [sizes_perm chunk hperm, sizes_cons] at hused
  rw [reqSizes_perm chunk hperm, reqSizes_cons] at hreqs
  rw [hperm.length_eq, List.length_cons] at hcount
  refine ⟨show u = _ by omega, h.free, show q = _ by omega, ?_,
    fun x hx => h.fits x (List.mem_of_mem_erase hx)⟩
  simp only [List.length_cons, List.length_nil] at hcount ⊢
  omega

theorem Tally.store (h : Tally stat chunk [c] live cache) (hcache : cache'.Perm (c :: cache))
    (hsize : ∀ x, (chunk' x).size = (chunk x).size)
    (hreq : ∀ x, (chunk' x).reqSize = (chunk x).reqSize) :
    Tally { stat with freeSize := stat.freeSize + (chunk c).size } chunk' [] live cache' := by
  have hnew := h.congr (fun x _ => hsize x) fun x _ => hreq x
  have hfree := hnew.free
  have hcount := hnew.count
  refine ⟨hnew.used, ?_, hnew.reqs, ?_, hnew.fits⟩
  · rw [sizes_perm chunk' hcache, sizes_cons, hsize]
    show stat.freeSize + (chunk c).size = _
    omega
  · rw [hcache.length_eq, List.length_cons]
    simp only [List.length_cons, List.length_nil] at hcount ⊢
    omega

end Counters

end Slabs
end Shs
