import Shs.Lib.Run
import Shs.Core.SlabMoves

/-!
# Core.SlabRuns

Runs of a slab manager. The chunks are at their places in every run whose sizes do not wrap, and
then a chunk has room for its request. The counters are the sums over the chunks only as long as no
chunk of a class is freed while less than the size of its class is in use, header included.
-/

namespace Shs
namespace Slabs

open Chain

/-! ## The condition on the calls -/

/-- The arguments are of type `size_t`, and the least size of a split chunk does not wrap. -/
def Regular (_ : State) : Act → Prop
  | .alloc _ n _ => n < 2 ^ 64
  | .splitAlloc _ minsize _ => ¬Wraps minsize
  | .free _ _ => True

/-- No size wraps, and a chunk of a class is freed only if its class is not larger than all that is
in use. -/
def Exact (s : State) : Act → Prop
  | .alloc _ n _ => ¬Wraps n
  | .splitAlloc _ minsize _ => ¬Wraps minsize
  | .free c _ => (s.chunk c).id ≠ slabSplitId →
      (s.mgr.slabclass (s.chunk c).id.toNat).size ≤ s.mgr.slabStat.usedSize

instance (s : State) (a : Act) : Decidable (Exact s a) := by
  cases a <;> unfold Exact <;> infer_instance

theorem Exact.regular {s : State} {a : Act} (h : Exact s a) : Regular s a := by
  cases a with
  | alloc t n answers =>
    have hno : ¬2 ^ 64 ≤ n + 39 := h
    show n < 2 ^ 64
    omega
  | splitAlloc n minsize answer => exact h
  | free c freed => trivial

/-! ## Steps and runs -/

section Runs

variable {m : SlabManager} {counted : Prop} {cached : Nat → List Nat} {s : State} {itemSizeMax : Nat}

/-- A loop without a result or a failed free is noted. -/
theorem Books.refuse (h : Books m counted [] cached s) (hno : ¬counted) :
    Books m counted [] cached { s with refused := true } :=
  ⟨h.classes, h.places, h.tally, fun hx => absurd hx hno⟩

/-- There is fuel for all chunks. -/
theorem Books.total_lt (h : Books m counted [] cached s) : total m cached < s.fuel :=
  Nat.lt_succ_of_le h.places.length_le

/-- Every call keeps the books. -/
theorem Books.step (h : Books m counted [] cached s) (hm : Made m itemSizeMax)
    (hlen : counted → m.freeLen < 2 ^ 31) {a : Act} (hok : Regular s a)
    (hexact : counted → Exact s a) :
    ∃ cached', Books m counted [] cached' (step s a) := by
  cases a with
  | alloc t n answers =>
    have hheap : Books m counted [] cached { s with heap := { s.heap with answers := answers } } :=
      h.setHeap rfl
    rw [Slabs.step]
    rcases hheap.shsSlabsAlloc hm hok hexact hheap.total_lt t with ⟨hmany, hnone⟩ |
      ⟨a, s', cached', heq, hbooks, -⟩
    · have hno : ¬counted := fun hx => absurd (hlen hx) (Nat.not_lt.2 hmany)
      rw [show s.fuel = { s with heap := { s.heap with answers := answers } }.fuel from rfl, hnone]
      exact ⟨cached, h.refuse hno⟩
    · rw [show s.fuel = { s with heap := { s.heap with answers := answers } }.fuel from rfl, heq]
      exact ⟨cached', hbooks⟩
  | splitAlloc n minsize answer => exact ⟨cached, h.shsSlabsSplitAlloc hok answer⟩
  | free c freed =>
    rw [Slabs.step]
    by_cases hc : c ∈ s.live
    · rw [if_pos hc]
      obtain ⟨cached', hbooks, hres⟩ := h.shsSlabsFree hc freed hexact
      generalize Slabs.shsSlabsFree (c + chunkLinkSize) freed s = r at hbooks hres
      obtain ⟨ok, err, s'⟩ := r
      cases ok with
      | true => exact ⟨cached', hbooks⟩
      | false => exact ⟨cached', Books.refuse hbooks fun hx => absurd (hres hx) (by simp)⟩
    · rw [if_neg hc]
      exact ⟨cached, h⟩

/-- A manager that has just been made, above a memory and an allocator. -/
def start (m : SlabManager) (chunk : Nat → ChunkLink) (heap : Heap) : State :=
  { mgr := m, chunk := chunk, heap := heap }

theorem Made.books (hm : Made m itemSizeMax) (counted : Prop) (chunk : Nat → ChunkLink)
    (heap : Heap) :
    Books m counted [] (fun _ => []) (start m chunk heap) := by
  have hnone : allCached m.freeLen (fun _ => []) = [] := by simp [allCached]
  have hstat := hm.stat
  refine ⟨⟨rfl, rfl, rfl, rfl, fun _ => rfl⟩, ⟨fun i _ => hm.lists i, ?_, ?_, ?_, ?_⟩, fun _ => ?_,
    fun _ => ⟨rfl, rfl⟩⟩
  · simp [hnone, start]
  · simp [hnone, start]
  · simp
  · simp [start]
  · rw [hnone]
    show Tally m.slabStat _ [] [] []
    rw [hstat]
    exact ⟨rfl, rfl, rfl, rfl, by simp⟩

/-- The books of every run. -/
theorem Made.exec (hm : Made m itemSizeMax) (counted : Prop) {ok : State → Act → Prop}
    (hregular : ∀ s a, ok s a → Regular s a) (hexact : counted → ∀ s a, ok s a → Exact s a)
    (hlen : counted → m.freeLen < 2 ^ 31) {chunk : Nat → ChunkLink} {heap : Heap} {acts : List Act}
    (hacts : Run.Meets step ok (start m chunk heap) acts) :
    ∃ cached, Books m counted [] cached (Run.exec step (start m chunk heap) acts) := by
  refine Run.invariant step (I := fun s => ∃ cached, Books m counted [] cached s)
    ⟨_, hm.books counted chunk heap⟩ ?_ hacts
  rintro s a ⟨cached, h⟩ ha
  exact h.step hm hlen (hregular s a ha) fun hx => hexact hx s a ha

end Runs

/-! ## The counters -/

section Counters

variable {allocator : Allocator} {uptype : Int} {factor itemSizeMin itemSizeMax : Nat}
variable {h h' : Heap} {m : SlabManager}

/-- The chunks are at their places, the counters are the sums over them, no subtraction has wrapped
and no free has failed. -/
structure Accounted (m : SlabManager) (s : State) (cached : Nat → List Nat) : Prop where
  places : Places m s.chunk s.lists s.heap.out [] s.live cached
  tally : Tally s.mgr.slabStat s.chunk [] s.live (allCached m.freeLen cached)
  wrapped : s.wrapped = false
  refused : s.refused = false

/-- In a run that never frees a chunk of a class while less than the size of the class is in use. -/
theorem slabs_accounted (hmax : itemSizeMax < 2 ^ 64)
    (hm : shsSlabsCreate allocator uptype factor itemSizeMin itemSizeMax h = (.ok m, h'))
    (hlen : m.freeLen < 2 ^ 31) (chunk : Nat → ChunkLink) {acts : List Act}
    (hacts : Run.Meets step Exact (start m chunk h') acts) :
    ∃ cached, Accounted m (Run.exec step (start m chunk h') acts) cached := by
  have hmade := made_of_create hmax hm
  obtain ⟨cached, hbooks⟩ := hmade.exec True (fun _ _ => Exact.regular)
    (fun _ _ _ => id) (fun _ => hlen) hacts
  obtain ⟨hrefused, hwrapped⟩ := hbooks.sound trivial
  exact ⟨cached, hbooks.places, hbooks.tally trivial, hwrapped, hrefused⟩

/-- An allocator with no regions out. -/
def emptyHeap (answers : List (Option Nat)) : Heap :=
  { out := [], answers := answers, packed := Region.packed_nil _
    sized := sized_nil }

/-- Three chunks of one class, of which one is freed. -/
theorem slabs_accounted_three : ∃ m h' cached,
    shsSlabsCreate {} slabUptypePower 2 64 128 (emptyHeap [some 1024, some 2048]) = (.ok m, h') ∧
      Accounted m (Run.exec step (start m (fun _ => {}) h')
        [.alloc .req 50 [some 4096], .alloc .act 60 [some 8192], .alloc .req 100 [some 16384],
          .free 4096 true]) cached := by
  have hmade : ∃ m h', shsSlabsCreate {} slabUptypePower 2 64 128
        (emptyHeap [some 1024, some 2048]) = (.ok m, h') ∧ m.freeLen < 2 ^ 31 ∧
      Run.check step Exact (start m (fun _ => {}) h')
        [.alloc .req 50 [some 4096], .alloc .act 60 [some 8192], .alloc .req 100 [some 16384],
          .free 4096 true] = true :=
    ⟨_, _, rfl, by decide, by decide +kernel⟩
  obtain ⟨m, h', hm, hlen, hcheck⟩ := hmade
  obtain ⟨cached, hacc⟩ :=
    slabs_accounted (by decide) hm hlen (fun _ => {}) (Run.meets_of_check step hcheck)
  exact ⟨m, h', cached, hm, hacc⟩

/-- The only chunk is freed: 8 bytes are in use, and the class has 40 with the header. -/
theorem last_chunk_refused : ∃ m h',
    shsSlabsCreate {} slabUptypePower 2 1 2 (emptyHeap [some 1024, some 2048]) = (.ok m, h') ∧
      (Run.exec step (start m (fun _ => {}) h')
        [.alloc .req 1 [some 4096], .free 4096 true]).refused = true :=
  ⟨_, _, rfl, by decide +kernel⟩

end Counters

/-! ## The capacity -/

section Capacity

variable {allocator : Allocator} {uptype : Int} {factor itemSizeMin itemSizeMax n : Nat}
variable {h h' : Heap} {m : SlabManager}

/-- In every state that a run reaches, a chunk for `n` bytes has them behind its header, in the
region that the allocator was asked for. -/
def Capacity (m : SlabManager) (t : AllocType) (n : Nat) : Prop :=
  ∀ chunk heap acts answers, Run.Meets step Regular (start m chunk heap) acts →
    ∀ s, s = { Run.exec step (start m chunk heap) acts with
      heap := { (Run.exec step (start m chunk heap) acts).heap with answers := answers } } →
    ∀ a s' p, shsSlabsAlloc s.fuel t n s = some (a, s') → a.ptr = some p →
      ∃ r ∈ s'.heap.out, r.start + chunkLinkSize = p ∧ chunkLinkSize + n ≤ r.size

/-- A request that wraps gets a chunk of the smallest class. -/
theorem Made.not_capacity (hm : Made m itemSizeMax) (hn : n < 2 ^ 64) (hwrap : Wraps n)
    (hlast : allSize n ≤ (m.slabclass (m.freeLen - 1)).size) (t : AllocType) : ¬Capacity m t n := by
  intro hcap
  have hfirst := hm.first
  have htwice := hm.twice
  have hmax := hm.max_lt
  have hclsid := hm.clsid_of_wraps hn hwrap
  rw [if_neg (by omega)] at hclsid
  unfold Wraps at hwrap
  have hfresh : Fresh (emptyHeap []).out ⟨8, (m.slabclass 0).size⟩ :=
    ⟨Nat.succ_pos 7, show 0 < (m.slabclass 0).size by omega,
      show 8 + (m.slabclass 0).size ≤ heapTop by simp only [heapTop]; omega, by simp [emptyHeap]⟩
  have halloc : allocatorAlloc (m.slabclass 0).size (emptyHeap [some 8])
      = (some 8, (emptyHeap []).push ⟨8, (m.slabclass 0).size⟩ hfresh) := by
    unfold allocatorAlloc Heap.alloc
    exact dif_pos ⟨hfresh, rfl⟩
  have hgot : (start m (fun _ => {}) (emptyHeap [some 8])).alloc (m.slabclass 0).size
      = (some 8, { start m (fun _ => {}) (emptyHeap []) with
          heap := (emptyHeap []).push ⟨8, (m.slabclass 0).size⟩ hfresh }) := by
    show ((allocatorAlloc (m.slabclass 0).size (emptyHeap [some 8])).1,
      { start m (fun _ => {}) (emptyHeap []) with
        heap := (allocatorAlloc (m.slabclass 0).size (emptyHeap [some 8])).2 }) = _
    rw [halloc]
  have hchunk : ∀ fuel, allocChunk 0 fuel (start m (fun _ => {}) (emptyHeap [some 8]))
      = some (some 8, .no, .none, addChunk 8 (m.slabclass 0).size
        { start m (fun _ => {}) (emptyHeap []) with
          heap := (emptyHeap []).push ⟨8, (m.slabclass 0).size⟩ hfresh }) := by
    intro fuel
    unfold allocChunk
    have hlist : ((start m (fun _ => {}) (emptyHeap [some 8])).mgr.slabclass 0).freeList = none :=
      hm.lists 0
    rw [hlist, show ((start m (fun _ => {}) (emptyHeap [some 8])).mgr.slabclass 0).size
      = (m.slabclass 0).size from rfl]
    simp only [hgot]
  have hres : ∃ a s', shsSlabsAlloc (start m (fun _ => {}) (emptyHeap [some 8])).fuel t n
        (start m (fun _ => {}) (emptyHeap [some 8])) = some (a, s') ∧ a.ptr = some 40 ∧
      s'.heap.out = [⟨8, (m.slabclass 0).size⟩] := by
    unfold shsSlabsAlloc
    rw [if_neg (show n ≠ 0 by omega)]
    rw [show shsSlabsClsid (start m (fun _ => {}) (emptyHeap [some 8])).mgr n true = some 0
      from hclsid]
    simp only [hchunk]
    exact ⟨_, _, rfl, rfl, rfl⟩
  obtain ⟨a, s', heq, hptr, hout⟩ := hres
  obtain ⟨r, hr, -, hle⟩ := hcap (fun _ => {}) (emptyHeap []) [] [some 8]
    (Run.meets_nil step _ _) _ rfl a s' 40 heq hptr
  rw [hout, List.mem_singleton] at hr
  rw [hr] at hle
  simp only [chunkLinkSize] at hle
  omega

/-- When a chunk has room for its request. -/
theorem capacity_iff (hmax : itemSizeMax < 2 ^ 64)
    (hm : shsSlabsCreate allocator uptype factor itemSizeMin itemSizeMax h = (.ok m, h'))
    (hn : n < 2 ^ 64) (t : AllocType) :
    Capacity m t n ↔ ¬Wraps n ∨ (m.slabclass (m.freeLen - 1)).size < allSize n := by
  have hmade := made_of_create hmax hm
  constructor
  · intro hcap
    by_contra hno
    rw [not_or, not_not, Nat.not_lt] at hno
    exact hmade.not_capacity hn hno.1 hno.2 t hcap
  · rintro hgood chunk heap acts answers hacts s rfl a s' p heq hptr
    obtain ⟨cached, hrun⟩ := hmade.exec False (fun _ _ => id) (fun hx => hx.elim)
      (fun hx => hx.elim) hacts
    have hbooks : Books m False [] cached { Run.exec step (start m chunk heap) acts with
        heap := { (Run.exec step (start m chunk heap) acts).heap with answers := answers } } :=
      hrun.setHeap rfl
    rcases hbooks.shsSlabsAlloc hmade hn (fun hx => hx.elim) hbooks.total_lt t with ⟨-, hnone⟩ |
      ⟨a', s'', cached', heq', hbooks', hchunk⟩
    · rw [hnone] at heq
      cases heq
    · rw [heq'] at heq
      cases heq
      obtain ⟨c, hc, rfl, id, hid, hsize⟩ := hchunk p hptr
      obtain ⟨-, -, hfits, -⟩ := hmade.clsid hn hid
      have hno : ¬Wraps n := by
        rcases hgood with hno | hlast
        · exact hno
        · intro hwrap
          rw [hmade.clsid_of_wraps hn hwrap, if_pos hlast] at hid
          cases hid
      have hspec := allSize_spec hno
      refine ⟨_, hbooks'.places.out c (by simp [hc]), rfl, ?_⟩
      show chunkLinkSize + n ≤ (s'.chunk c).size + chunkLinkSize
      simp only [chunkLinkSize] at hsize ⊢
      omega

theorem capacity_iff_small : ∃ m h',
    shsSlabsCreate {} slabUptypePower 2 1 2 (emptyHeap [some 1024, some 2048]) = (.ok m, h') ∧
      (Capacity m .act 2 ↔ ¬Wraps 2 ∨ (m.slabclass (m.freeLen - 1)).size < allSize 2) := by
  have hmade : ∃ m h', shsSlabsCreate {} slabUptypePower 2 1 2
      (emptyHeap [some 1024, some 2048]) = (.ok m, h') := ⟨_, _, rfl⟩
  obtain ⟨m, h', hm⟩ := hmade
  exact ⟨m, h', hm, capacity_iff (by decide) hm (by decide) .act⟩

/-- The size of the request wraps to 0, and the chunk has 8 bytes. -/
theorem huge_request_short : ∃ m h',
    shsSlabsCreate {} slabUptypePower 2 1 2 (emptyHeap [some 1024, some 2048]) = (.ok m, h') ∧
      ¬Capacity m .req (2 ^ 64 - 32) := by
  have hmade : ∃ m h', shsSlabsCreate {} slabUptypePower 2 1 2
        (emptyHeap [some 1024, some 2048]) = (.ok m, h') ∧
      allSize (2 ^ 64 - 32) ≤ (m.slabclass (m.freeLen - 1)).size :=
    ⟨_, _, rfl, by decide +kernel⟩
  obtain ⟨m, h', hm, hlast⟩ := hmade
  exact ⟨m, h', hm, (made_of_create (by decide) hm).not_capacity (by decide) (by decide) hlast .req⟩

end Capacity

end Slabs
end Shs
