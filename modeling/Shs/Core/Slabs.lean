import Mathlib.Logic.Function.Basic
import Shs.Core.Heap
import Shs.Core.Math

/-!
# Core.Slabs

The slab manager of `shs_slabs.cc`. A chunk is the address of its header, and the memory below the
manager gives the headers. The allocator below the manager is a `Heap`. Pointers to the manager, to
the error record and to the size are not null.
-/

namespace Shs
namespace Slabs

/-- `sizeof(chunk_link_t)`. -/
def chunkLinkSize : Nat := 32

/-- `chunk_link_t`; `none` is null. -/
structure ChunkLink where
  size : Nat := 0
  reqSize : Nat := 0
  id : Int := 0
  next : Option Nat := none

/-- `slabclass_t`. -/
structure SlabClass where
  size : Nat := 0
  freeList : Option Nat := none

/-- `shs_slab_stat_t`. -/
structure SlabStat where
  usedSize : Nat := 0
  reqsSize : Nat := 0
  freeSize : Nat := 0
  chunkCount : Nat := 0
  systemSize : Nat := 0
  failed : Nat := 0
  recover : Nat := 0
  recoverFailed : Nat := 0
  splitFailed : Nat := 0

inductive SlabErr where
  | none
  | createParam
  | createPowerFactor
  | createLinerFactor
  | createUptype
  | allocParam
  | allocInvalidId
  | allocFailed
  | splitAllocParam
  | splitAllocNotSupported
  | splitAllocChunkSizeTooLarge
  | freeParam
  | freeNotSupported
  | freeChunkId
  | allocatorError
  deriving DecidableEq

def slabUptypePower : Int := 1
def slabUptypeLinear : Int := 2
def slabPowerFactor : Nat := 2
def slabLinearFactor : Nat := 1024
def slabRecoverFactor : Nat := 2
def slabSplitId : Int := -5

/-- The functions that the allocator may lack. -/
structure Allocator where
  free : Bool := true
  splitAlloc : Bool := true

/-- `shs_slab_manager_t`. -/
structure SlabManager where
  uptype : Int
  freeLen : Nat
  factor : Nat
  minSize : Nat
  slabStat : SlabStat := {}
  allocator : Allocator := {}
  slabclass : Nat → SlabClass

/-! ## The allocator -/

/-- `allocator->alloc`. -/
def allocatorAlloc (size : Nat) (h : Heap) : Option Nat × Heap := h.alloc (fun _ => true) size

/-- `allocator->free`. -/
def allocatorFree (a : Nat) (h : Heap) : Heap := h.free a

/-! ## Classes -/

/-- The binary search of `shs_slabs_clsid`. -/
def clsidSearch (size : Nat → Nat) (allSize : Nat) : Nat → Nat → Nat → Option Nat
  | 0, _, _ => none
  | fuel + 1, low, high =>
    if low ≤ high then
      let mid := (low + high) / 2
      if allSize ≤ size mid then
        if allSize > size (mid - 1) then some mid
        else if allSize = size (mid - 1) then some (mid - 1)
        else clsidSearch size allSize fuel low (mid - 1)
      else if allSize ≤ size (mid + 1) then some (mid + 1)
      else clsidSearch size allSize fuel (mid + 1) high
    else none

/-- `shs_slabs_clsid`; `none` is the invalid id. -/
def shsSlabsClsid (m : SlabManager) (size : Nat) (up : Bool) : Option Nat :=
  if size = 0 then none
  else
    let maxId := m.freeLen - 1
    let allSize := shsMathAlignment (sizeT (size + chunkLinkSize))
    if allSize > (m.slabclass maxId).size then none
    else if allSize ≤ (m.slabclass 0).size then some 0
    else if allSize = (m.slabclass maxId).size then some maxId
    else if m.uptype = slabUptypeLinear then
      let id := subSizeT size m.minSize / m.factor
      if up = true ∧ subSizeT size m.minSize % m.factor ≠ 0 then some (id + 1) else some id
    else clsidSearch (fun i => (m.slabclass i).size) allSize maxId 1 (maxId - 1)

/-! ## Creation -/

/-- `free_len` in `shs_slabs_create`, before its last increment. -/
def createFreeLen (uptype : Int) (factor itemSizeMin itemSizeMax : Nat) : Except SlabErr Nat :=
  if uptype = slabUptypePower then
    if factor ≠ slabPowerFactor then .error .createPowerFactor
    else
      let power := itemSizeMax / itemSizeMin +
        (if itemSizeMax % itemSizeMin ≠ 0 then 1 else 0)
      .ok (shsMathDfslog2 power true)
  else if uptype = slabUptypeLinear then
    if factor ≠ slabLinearFactor then .error .createLinerFactor
    else
      .ok ((itemSizeMax - itemSizeMin) / factor +
        (if (itemSizeMax - itemSizeMin) % factor ≠ 0 then 1 else 0))
  else .error .createUptype

/-- `size` in the loop of `shs_slabs_create`. -/
def createSize (uptype : Int) (factor itemSizeMin : Nat) : Nat → Nat
  | 0 => itemSizeMin
  | i + 1 =>
    let size := createSize uptype factor itemSizeMin i
    if uptype = slabUptypePower then sizeT (size * factor) else sizeT (size + factor)

/-- `sizeof(shs_slab_manager_t)` and `sizeof(slabclass_t)`. -/
def slabManagerSize : Nat := 128
def slabclassSize : Nat := 16

def shsSlabsCreate (allocator : Allocator) (uptype : Int) (factor itemSizeMin itemSizeMax : Nat)
    (h : Heap) : Except SlabErr SlabManager × Heap :=
  if itemSizeMin = 0 ∨ itemSizeMax = 0 ∨ itemSizeMax / itemSizeMin < 2 then
    (.error .createParam, h)
  else
    match createFreeLen uptype factor itemSizeMin itemSizeMax with
    | .error e => (.error e, h)
    | .ok n =>
      let freeLen := n + 1
      match allocatorAlloc slabManagerSize h with
      | (none, h) => (.error .allocatorError, h)
      | (some _, h) =>
        match allocatorAlloc (sizeT (slabclassSize * freeLen)) h with
        | (none, h) => (.error .allocatorError, h)
        | (some _, h) =>
          (.ok {
            uptype := uptype
            freeLen := freeLen
            factor := factor
            minSize := itemSizeMin
            slabStat := { systemSize := sizeT (slabManagerSize + sizeT (slabclassSize * freeLen)) }
            allocator := allocator
            slabclass := fun i =>
              { size := shsMathAlignment
                  (sizeT (createSize uptype factor itemSizeMin i + chunkLinkSize)) } }, h)

/-! ## The manager -/

/-- The manager, the chunk headers and the allocator. The last three fields are a record that no
function reads: the chunks handed out and not given back since, whether the free of such a chunk has
failed, and whether more has been subtracted from a counter than it held. -/
structure State where
  mgr : SlabManager
  chunk : Nat → ChunkLink
  heap : Heap
  live : List Nat := []
  refused : Bool := false
  wrapped : Bool := false

def State.setChunk (s : State) (c : Nat) (v : ChunkLink) : State :=
  { s with chunk := Function.update s.chunk c v }

def State.setStat (s : State) (v : SlabStat) : State :=
  { s with mgr := { s.mgr with slabStat := v } }

/-- Notes whether a subtraction wraps. -/
def State.note (wraps : Bool) (s : State) : State := { s with wrapped := s.wrapped || wraps }

def State.setFreeList (s : State) (i : Nat) (p : Option Nat) : State :=
  { s with
    mgr := { s.mgr with
      slabclass := Function.update s.mgr.slabclass i { s.mgr.slabclass i with freeList := p } } }

def State.alloc (s : State) (size : Nat) : Option Nat × State :=
  ((allocatorAlloc size s.heap).1, { s with heap := (allocatorAlloc size s.heap).2 })

/-- The first chunk `c` of class `i` goes back to the allocator. -/
def recoverChunk (i c : Nat) (s : State) : State :=
  let s := { s.setFreeList i (s.chunk c).next with heap := allocatorFree c s.heap }
  let stat := s.mgr.slabStat
  let size := subSizeT (s.mgr.slabclass i).size chunkLinkSize
  (s.note (stat.freeSize < size ∨ stat.chunkCount < 1)).setStat { stat with
    freeSize := subSizeT stat.freeSize size
    chunkCount := subSizeT stat.chunkCount 1 }

/-- The loop of `shs_slabs_recover` over the next `n` classes, from class `i` on. -/
def recoverAbove : Nat → Nat → State → Option State
  | 0, _, _ => none
  | n + 1, i, s =>
    match (s.mgr.slabclass i).freeList with
    | some c => some (recoverChunk i c s)
    | none => recoverAbove n (i + 1) s

/-- The inner loop of `shs_slabs_recover`: what is left of the bytes to recover (`none` if they are
recovered), and whether class `i` had a chunk. -/
def recoverClass (i chunkSize : Nat) : Nat → Nat → State → Option (Option Nat × State)
  | 0, _, _ => none
  | fuel + 1, size, s =>
    match (s.mgr.slabclass i).freeList with
    | none => some (some size, s)
    | some c =>
      let s := recoverChunk i c s
      let size := sizeT (size + (s.mgr.slabclass i).size)
      if size ≥ sizeT (chunkSize * slabRecoverFactor) then some (none, s)
      else recoverClass i chunkSize fuel size s

/-- What `shs_slabs_recover` returns: `SHS_SLAB_TRUE`, `SHS_SLAB_FALSE` or
`SHS_SLAB_ERROR_NOSPACE`. -/
inductive Recovered where
  | yes
  | no
  | nospace
  deriving DecidableEq

/-- The loop of `shs_slabs_recover` over the classes below `i`, downwards. -/
def recoverBelow (chunkSize fuel : Nat) : Nat → Nat → Bool → State → Option (Recovered × State)
  | 0, _, space, s =>
    let s := s.setStat
      { s.mgr.slabStat with recoverFailed := sizeT (s.mgr.slabStat.recoverFailed + 1) }
    some (if space = true then .no else .nospace, s)
  | i + 1, size, space, s =>
    let space := space || (s.mgr.slabclass i).freeList.isSome
    match recoverClass i chunkSize fuel size s with
    | none => none
    | some (none, s) => some (.yes, s)
    | some (some size, s) => recoverBelow chunkSize fuel i size space s

/-- The parameter `id` and the variables of the loops are of type `int`; `first` is where the first
loop starts. There is no result where that is in front of the array, or where the loop has found
nothing when it has counted to the last `int`. -/
def shsSlabsRecover (fuel chunkSize id : Nat) (s : State) : Option (Recovered × State) :=
  let s := s.setStat { s.mgr.slabStat with recover := sizeT (s.mgr.slabStat.recover + 1) }
  let first := (id + 1) % 2 ^ 32
  if 2 ^ 31 < first then none
  else
    match recoverAbove (min s.mgr.freeLen (2 ^ 31) - first) first s with
    | some s => some (.yes, s)
    | none =>
      if 2 ^ 31 ≤ s.mgr.freeLen then none
      else recoverBelow chunkSize fuel (first - 1) 0 false s

/-- An `int` can count the classes. -/
theorem shsSlabsRecover_of_lt {fuel chunkSize id : Nat} {s : State} (hid : id < s.mgr.freeLen)
    (hlen : s.mgr.freeLen < 2 ^ 31) :
    shsSlabsRecover fuel chunkSize id s =
      let s := s.setStat { s.mgr.slabStat with recover := sizeT (s.mgr.slabStat.recover + 1) }
      match recoverAbove (s.mgr.freeLen - (id + 1)) (id + 1) s with
      | some s => some (.yes, s)
      | none => recoverBelow chunkSize fuel id 0 false s := by
  have hfirst : (id + 1) % 2 ^ 32 = id + 1 := Nat.mod_eq_of_lt (by omega)
  have hmin : min s.mgr.freeLen (2 ^ 31) = s.mgr.freeLen := by omega
  have hsame : ∀ stat, (s.setStat stat).mgr.freeLen = s.mgr.freeLen := fun _ => rfl
  unfold shsSlabsRecover
  simp only [hfirst, hsame, hmin, Nat.add_sub_cancel]
  rw [if_neg (by omega), if_neg (by omega)]

/-- The loop of `shs_slabs_alloc`: the chunk, and what the last `shs_slabs_recover` returned. -/
def allocRetry (id chunkSize : Nat) : Nat → State → Option (Option Nat × Recovered × State)
  | 0, _ => none
  | fuel + 1, s =>
    match shsSlabsRecover (fuel + 1) chunkSize id s with
    | none => none
    | some (.nospace, s) => some (none, .nospace, s)
    | some (ret, s) =>
      match s.alloc chunkSize with
      | (some c, s) => some (some c, ret, s)
      | (none, s) => allocRetry id chunkSize fuel s

inductive AllocType where
  | req
  | act
  deriving DecidableEq

/-- What an allocation returns: the pointer, `*slab_size` where it is written, and the error. -/
structure Answer where
  ptr : Option Nat := none
  slabSize : Option Nat := none
  err : SlabErr := .none

/-- A new chunk from the allocator. -/
def addChunk (c chunkSize : Nat) (s : State) : State :=
  let s := s.setChunk c { s.chunk c with size := subSizeT chunkSize chunkLinkSize }
  s.setStat { s.mgr.slabStat with chunkCount := sizeT (s.mgr.slabStat.chunkCount + 1) }

/-- The first chunk of class `id` leaves the free list. -/
def takeCached (id c : Nat) (s : State) : State :=
  let s := s.setFreeList id (s.chunk c).next
  let stat := s.mgr.slabStat
  let size := (s.chunk c).size
  (s.note (stat.freeSize < size)).setStat { stat with freeSize := subSizeT stat.freeSize size }

/-- The chunk of `shs_slabs_alloc`: the first of the free list, or one from the allocator. -/
def allocChunk (id fuel : Nat) (s : State) : Option (Option Nat × Recovered × SlabErr × State) :=
  let chunkSize := (s.mgr.slabclass id).size
  match (s.mgr.slabclass id).freeList with
  | some c => some (some c, .no, .none, takeCached id c s)
  | none =>
    match s.alloc chunkSize with
    | (some c, s) => some (some c, .no, .none, addChunk c chunkSize s)
    | (none, s) =>
      match allocRetry id chunkSize fuel s with
      | none => none
      | some (none, ret, s) => some (none, ret, .allocatorError, s)
      | some (some c, ret, s) => some (some c, ret, .allocatorError, addChunk c chunkSize s)

/-- The chunk is handed out. -/
def handOut (c : Nat) (id : Int) (reqSize : Nat) (s : State) : State :=
  let size := (s.chunk c).size
  let s := s.setChunk c { s.chunk c with id := id, reqSize := reqSize }
  let s := s.setStat { s.mgr.slabStat with
    reqsSize := sizeT (s.mgr.slabStat.reqsSize + reqSize)
    usedSize := sizeT (s.mgr.slabStat.usedSize + size) }
  { s with live := c :: s.live }

def shsSlabsAlloc (fuel : Nat) (allocType : AllocType) (reqSize : Nat) (s : State) :
    Option (Answer × State) :=
  if reqSize = 0 then some ({ err := .allocParam }, s)
  else
    match shsSlabsClsid s.mgr reqSize true with
    | none => some ({ err := .allocInvalidId }, s)
    | some id =>
      match allocChunk id fuel s with
      | none => none
      | some (some c, _, err, s) =>
        let slabSize := if allocType = .act then (s.chunk c).size else reqSize
        some ({ ptr := some (c + chunkLinkSize), slabSize := some slabSize, err := err },
          handOut c id slabSize s)
      | some (none, ret, err, s) =>
        some ({ slabSize := some 0, err := if ret = .nospace then .allocFailed else err },
          s.setStat { s.mgr.slabStat with failed := sizeT (s.mgr.slabStat.failed + 1) })

/-- `allocator->split_alloc`, with its answer. -/
def allocatorSplitAlloc (minsize : Nat) (answer : Option Region) (h : Heap) :
    Option Region × Heap :=
  match answer with
  | some r =>
    if hr : Fresh h.out r ∧ minsize ≤ r.size then (some r, h.push r hr.1) else (none, h)
  | none => (none, h)

def shsSlabsSplitAlloc (reqSize reqMinsize : Nat) (answer : Option Region) (s : State) :
    Answer × State :=
  if reqSize = 0 then ({ err := .splitAllocParam }, s)
  else if s.mgr.allocator.splitAlloc = false then ({ err := .splitAllocNotSupported }, s)
  else
    let chunkSize := shsMathAlignment (sizeT (reqSize + chunkLinkSize))
    if chunkSize > (s.mgr.slabclass (s.mgr.freeLen - 1)).size then
      ({ err := .splitAllocChunkSizeTooLarge }, s)
    else
      let minsize := shsMathAlignment (sizeT (reqMinsize + chunkLinkSize))
      match allocatorSplitAlloc minsize answer s.heap with
      | (none, h) =>
        ({ slabSize := some 0, err := .allocatorError },
          { s with heap := h }.setStat
            { s.mgr.slabStat with splitFailed := sizeT (s.mgr.slabStat.splitFailed + 1) })
      | (some r, h) =>
        let c := r.start
        let s := addChunk c r.size { s with heap := h }
        let size := (s.chunk c).size
        ({ ptr := some (c + chunkLinkSize), slabSize := some size },
          handOut c slabSplitId (if reqSize ≥ size then size else reqSize) s)

/-- A chunk that `shs_slabs_split_alloc` made; `freed` is the answer of `allocator->free`. -/
def freeSplit (c : Nat) (freed : Bool) (s : State) : SlabErr × State :=
  let v := s.chunk c
  let stat := s.mgr.slabStat
  let s := s.note (stat.chunkCount < 1 ∨ stat.usedSize < v.size ∨ stat.reqsSize < v.reqSize)
  let s := s.setStat { stat with
    chunkCount := subSizeT stat.chunkCount 1
    usedSize := subSizeT stat.usedSize v.size
    reqsSize := subSizeT stat.reqsSize v.reqSize }
  let s := { s with live := s.live.erase c }
  if freed = true then (.none, { s with heap := allocatorFree c s.heap })
  else (.allocatorError, s)

/-- `shs_slabs_free`: whether it returns `SHS_SLAB_OK`, and the error. -/
def shsSlabsFree (ptr : Nat) (freed : Bool) (s : State) : Bool × SlabErr × State :=
  if s.mgr.allocator.free = false then (true, .freeNotSupported, s)
  else
    let c := ptr - chunkLinkSize
    let v := s.chunk c
    if v.id = slabSplitId then (true, freeSplit c freed s)
    else
      let id := v.id.toNat
      let s := s.setChunk c { v with next := (s.mgr.slabclass id).freeList }
      let s := s.setFreeList id (some c)
      if s.mgr.slabStat.usedSize < (s.mgr.slabclass id).size then
        (false, .freeChunkId, { s with live := s.live.erase c })
      else
        let stat := s.mgr.slabStat
        let s := s.note (stat.usedSize < v.size ∨ stat.reqsSize < v.reqSize)
        let s := s.setStat { stat with
          freeSize := sizeT (stat.freeSize + v.size)
          usedSize := subSizeT stat.usedSize v.size
          reqsSize := subSizeT stat.reqsSize v.reqSize }
        (true, .none, { s with live := s.live.erase c })

/-! ## Runs -/

inductive Act where
  | alloc (allocType : AllocType) (reqSize : Nat) (answers : List (Option Nat))
  | splitAlloc (reqSize reqMinsize : Nat) (answer : Option Region)
  | free (c : Nat) (freed : Bool)

/-- Chunks cannot be given back more often than there are regions. -/
def State.fuel (s : State) : Nat := s.heap.out.length + 1

/-- Only live chunks are freed. A loop without a result, and a free that fails, are recorded. -/
def step (s : State) : Act → State
  | .alloc t n answers =>
    match shsSlabsAlloc s.fuel t n { s with heap := { s.heap with answers := answers } } with
    | none => { s with refused := true }
    | some (_, s) => s
  | .splitAlloc n minsize answer => (shsSlabsSplitAlloc n minsize answer s).2
  | .free c freed =>
    if c ∈ s.live then
      match shsSlabsFree (c + chunkLinkSize) freed s with
      | (ok, _, s) => if ok = true then s else { s with refused := true }
    else s

end Slabs
end Shs
