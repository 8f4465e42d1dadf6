import Shs.Core.Math
import Shs.Core.Queue

/-!
# Core.Shmem

The heap in shared memory of `shs_shmem.cc`. Addresses are offsets from the `shs_shmem_t` at the
start of the mapped region, and a block is the address of its `struct storage`. Each field of type
`queue_t` is a cell of the queue that it is made for, so the memory has three kinds of cells.

The functions have no result where the code follows a null pointer, takes a list head for a node,
or would stay in a loop for ever. Pointers to the heap, to the error number and to the size are not
null.
-/

namespace Shs
namespace Shmem

open Queue

/-- `sizeof(struct storage)`, `sizeof(struct free_node)` and `sizeof(shs_shmem_t)`. -/
def storageSize : Nat := 64
def freeNodeSize : Nat := 40
def shsShmemSize : Nat := 168

def levelTypeLinear : Int := 0
def levelTypeExp : Int := 1
def shmemExpFactor : Nat := 2

inductive ShmemErr where
  | createSize
  | createMinsize
  | createLeveltype
  | createFreelen
  | createTotalsize
  | createTotalsizeNotEnough
  | createMmap
  | createStoragesize
  | allocParam
  | allocExhausted
  | allocMaxAvailableEmpty
  | allocNoAvailableFreeList
  | allocNoFixedFreeSpace
  | allocFoundNoFixed
  | allocRemoveFree
  | getMaxExhausted
  | getMaxCritical
  | splitAllocNoFixedReqMinsize
  | splitAllocRemoveFree
  | freeParam
  | freeNonalloced
  | freeRemoveNext
  | freeRemovePrev
  deriving DecidableEq

/-- `shm->order` and the `order_entry` of a block. -/
inductive OrderCell where
  | head
  | entry (st : Nat)
  deriving DecidableEq

/-- The `free_list_head` of a free node and the `free_entry` of a block. -/
inductive FreeCell where
  | head (i : Nat)
  | entry (st : Nat)
  deriving DecidableEq

/-- `shm->available` and the `available_entry` of a free node. -/
inductive AvailableCell where
  | head
  | entry (i : Nat)
  deriving DecidableEq

/-- `struct storage` without its queue entries; the free list is named by its free node. -/
structure Storage where
  alloc : Bool := false
  size : Nat := 0
  actSize : Nat := 0
  freeListHead : Option Nat := none
  deriving DecidableEq

/-- `shs_shmem_stat_t`. -/
structure ShmemStat where
  usedSize : Nat := 0
  reqsSize : Nat := 0
  stCount : Nat := 0
  totalSize : Nat := 0
  systemSize : Nat := 0
  failed : Nat := 0
  splitFailed : Nat := 0
  split : Nat := 0
  deriving DecidableEq

/-- `shs_shmem_t`, with the memory behind it. -/
structure Shm where
  minSize : Nat
  maxSize : Nat
  factor : Nat
  splitThreshold : Nat
  levelType : Int
  freeLen : Nat
  index : Nat → Nat
  maxAvailableIndex : Nat := 0
  shmemStat : ShmemStat := {}
  storage : Nat → Storage := fun _ => {}
  order : Links OrderCell := ⟨fun _ => none, fun _ => none⟩
  free : Links FreeCell := ⟨fun _ => none, fun _ => none⟩
  available : Links AvailableCell := ⟨fun _ => none, fun _ => none⟩

def Shm.setStorage (s : Shm) (st : Nat) (v : Storage) : Shm :=
  { s with storage := Function.update s.storage st v }

/-! ## Classes -/

/-- `shs_shmem_get_alloc_index`. -/
def getAllocIndex (s : Shm) (size : Nat) : Nat :=
  if size ≤ s.minSize then 0
  else if s.levelType = levelTypeLinear then
    (size - s.minSize) / s.factor + (if (size - s.minSize) % s.factor ≠ 0 then 1 else 0)
  else
    let power := size / s.minSize + (if size % s.minSize ≠ 0 then 1 else 0)
    shsMathDfslog2 power true

/-- `shs_shmem_get_insert_index`. -/
def getInsertIndex (s : Shm) (size : Nat) : Nat :=
  if size ≤ s.minSize then 0
  else if s.levelType = levelTypeLinear then (size - s.minSize) / s.factor
  else shsMathDfslog2 (size / s.minSize) false

/-! ## Creation -/

/-- `factor`, and `free_len` before its increment; no result for a division by zero. -/
def createFreeLen (levelType : Int) (factor minSize maxSize : Nat) :
    Option (Except ShmemErr (Nat × Nat)) :=
  if levelType = levelTypeLinear then
    let factor := shsMathAlignment factor
    if factor = 0 then none
    else
      some (.ok (factor, (maxSize - minSize) / factor +
        (if (maxSize - minSize) % factor ≠ 0 then 1 else 0)))
  else if levelType = levelTypeExp then
    let power := maxSize / minSize + (if maxSize % minSize ≠ 0 then 1 else 0)
    some (.ok (shmemExpFactor, shsMathDfslog2 power true))
  else some (.error .createLeveltype)

/-- The loop over the free array. `index` is of type `unsigned int`. -/
def initFree (s : Shm) : Shm :=
  { s with
    index := fun i => i % 2 ^ 32
    free := {
      next := fun c =>
        match c with
        | .head i => if i < s.freeLen then some (.head i) else none
        | .entry _ => none
      prev := fun c =>
        match c with
        | .head i => if i < s.freeLen then some (.head i) else none
        | .entry _ => none } }

/-- The end of `shs_shmem_create`: `st` becomes the only block. -/
def firstBlock (st : Nat) (s : Shm) : Option Shm := do
  let order ← queueInsertHead .head (.entry st) (queueInit .head s.order)
  let i := getInsertIndex s (s.storage st).size
  let i := if i ≥ s.freeLen then s.freeLen - 1 else i
  let s := s.setStorage st { s.storage st with freeListHead := some i }
  let free ← queueInsertHead (.head i) (.entry st) s.free
  let available ← queueInsertHead .head (.entry i) (queueInit .head s.available)
  pure { s with order := order, free := free, available := available, maxAvailableIndex := i }

/-- What `shs_shmem_create` does; a fault is a division by zero or a write outside of the region. -/
inductive Created where
  | error (e : ShmemErr)
  | fault
  | ok (s : Shm)

/-- `shs_shmem_create` from the call of `mmap` on; `mapped` is whether that succeeds. -/
def createHeap (mapped : Bool) (totalSize minSize maxSize : Nat) (levelType : Int)
    (factor freeLen : Nat) : Created :=
  if mapped = false then .error .createMmap
  else if totalSize < shsShmemSize then .fault
  else
    let freeSize := sizeT (freeNodeSize * freeLen)
    if sizeT (sizeT (freeSize + shsShmemSize) + storageSize) ≥ totalSize then
      .error .createTotalsizeNotEnough
    else if shsShmemSize + freeNodeSize * freeLen > totalSize then .fault
    else
      let systemSize := shsMathAlignment (sizeT (shsShmemSize + freeSize))
      if systemSize + storageSize > totalSize then .fault
      else
        let s := initFree {
          minSize := minSize
          maxSize := maxSize
          factor := factor
          splitThreshold := minSize
          levelType := levelType
          freeLen := freeLen
          index := fun _ => 0
          shmemStat := { totalSize := totalSize, stCount := 1, systemSize := systemSize } }
        let size := subSizeT (subSizeT totalSize systemSize) storageSize
        if size < maxSize then .error .createStoragesize
        else
          match firstBlock systemSize (s.setStorage systemSize { size := size }) with
          | none => .fault
          | some s => .ok s

/-- `shs_shmem_create`, where `pageSize` is the value of `SHS_PAGE_SIZE`. -/
def shsShmemCreate (pageSize : Nat) (mapped : Bool) (size minSize maxSize : Nat) (levelType : Int)
    (factor : Nat) : Created :=
  if size = 0 then .error .createSize
  else
    let minSize := shsMathAlignment minSize
    let maxSize := shsMathAlignment maxSize
    if minSize = 0 ∨ minSize ≥ maxSize then .error .createMinsize
    else
      match createFreeLen levelType factor minSize maxSize with
      | none => .fault
      | some (.error e) => .error e
      | some (.ok (factor, freeLen)) =>
        if freeLen = 0 then .error .createFreelen
        else
          let totalSize := shsMathRoundUp size pageSize
          if totalSize = 0 then .error .createTotalsize
          else createHeap mapped totalSize minSize maxSize levelType factor (freeLen + 1)

/-- `shs_shmem_set_split_threshold`. -/
def shsShmemSetSplitThreshold (size : Nat) (s : Shm) : Shm := { s with splitThreshold := size }

/-! ## The free lists -/

/-- `max_available_index` without free node `i`. -/
def topWithout (i : Nat) (s : Shm) : Option Nat :=
  if i = s.maxAvailableIndex then
    match s.available.prev (.entry i) with
    | none => none
    | some .head => some s.freeLen
    | some (.entry j) => some (s.index j)
  else some s.maxAvailableIndex

/-- Free node `i` has no block any more. -/
def dropAvailable (i : Nat) (s : Shm) : Option Shm := do
  let max ← topWithout i s
  let available ← queueRemove (.entry i) s.available
  pure { s with maxAvailableIndex := max, available := available }

/-- Free node `i` leaves the available queue if it has no block any more. -/
def leaveAvailable (i : Nat) (s : Shm) : Option Shm :=
  if queueEmpty s.free (.head i) = true then dropAvailable i s else some s

/-- `shs_shmem_remove_free`, and whether it succeeds. -/
def removeFree (st : Nat) (s : Shm) : Option (Bool × Shm) :=
  let index := getInsertIndex s (s.storage st).size
  let index := if index > s.maxAvailableIndex then s.maxAvailableIndex else index
  if (s.storage st).freeListHead ≠ some index then some (false, s)
  else do
    let free ← queueRemove (.entry st) s.free
    let s ← leaveAvailable index { s with free := free }
    pure (true, s.setStorage st { s.storage st with freeListHead := none })

/-- The free node of the cell is of a larger class than `index`. -/
def AvailableCell.below (index : Nat) (s : Shm) : AvailableCell → Bool
  | .head => false
  | .entry j => index < s.index j

/-- Free node `i` gets its first block. -/
def addAvailable (i : Nat) (s : Shm) : Option Shm := do
  match ← queueFind .head (AvailableCell.below i s) s.available (s.freeLen + 1)
      (queueHead s.available .head) with
  | some q =>
    let available ← queueInsertBefore q (.entry i) s.available
    pure { s with available := available }
  | none =>
    let available ← queueInsertTail .head (.entry i) s.available
    pure { s with available := available, maxAvailableIndex := s.index i }

/-- Free node `i` enters the available queue if it has no block yet. -/
def enterAvailable (i : Nat) (s : Shm) : Option Shm :=
  if queueEmpty s.free (.head i) = true then addAvailable i s else some s

/-- `shs_shmem_insert_free`. -/
def insertFree (st : Nat) (s : Shm) : Option Shm :=
  if (s.storage st).alloc = true then some s
  else do
    let index := getInsertIndex s (s.storage st).size
    let index := if index > s.freeLen - 1 then s.freeLen - 1 else index
    let s ← enterAvailable index
      (s.setStorage st { s.storage st with freeListHead := some index })
    let free ← queueInsertHead (.head index) (.entry st) s.free
    pure { s with free := free }

/-! ## Allocation -/

/-- The free node of the cell has blocks and is of a larger class than `index`. -/
def AvailableCell.serves (index : Nat) (s : Shm) : AvailableCell → Bool
  | .head => false
  | .entry j => queueEmpty s.free (.head j) = false ∧ s.index j > index

/-- The free node whose list `shs_shmem_alloc` searches. -/
def chooseList (size : Nat) (s : Shm) : Option (Except ShmemErr Nat) :=
  let index := getAllocIndex s size
  if index < s.maxAvailableIndex then
    if queueEmpty s.free (.head index) = false then some (.ok index)
    else
      match queueFind .head (AvailableCell.serves index s) s.available (s.freeLen + 1)
          (queueHead s.available .head) with
      | none => none
      | some (some .head) => none
      | some (some (.entry j)) => some (.ok j)
      | some none =>
        some (.error (if queueEmpty s.available .head = true then .allocNoAvailableFreeList
          else .allocNoFixedFreeSpace))
  else if queueEmpty s.free (.head s.maxAvailableIndex) = true then
    some (.error .allocMaxAvailableEmpty)
  else some (.ok s.maxAvailableIndex)

/-- The loop of `shs_shmem_alloc` over the blocks of free node `i`. -/
def firstFit (i size : Nat) (s : Shm) : Nat → Option FreeCell → Option (Option Nat)
  | 0, _ => none
  | _ + 1, none => none
  | _ + 1, some (.head _) => none
  | fuel + 1, some (.entry st) =>
    if (s.storage st).size ≥ size then some (some st)
    else if s.free.next (.entry st) = some (.head i) then some none
    else firstFit i size s fuel (s.free.next (.entry st))

def Shm.setFailed (s : Shm) : Shm :=
  { s with shmemStat := { s.shmemStat with failed := sizeT (s.shmemStat.failed + 1) } }

/-- The counters for a block of size `size` that is handed out for `reqSize` bytes. -/
def Shm.count (s : Shm) (size reqSize : Nat) : Shm :=
  { s with
    shmemStat := { s.shmemStat with
      usedSize := sizeT (s.shmemStat.usedSize + size)
      reqsSize := sizeT (s.shmemStat.reqsSize + reqSize) } }

def Shm.addStCount (s : Shm) : Shm :=
  { s with shmemStat := { s.shmemStat with stCount := sizeT (s.shmemStat.stCount + 1) } }

def Shm.subStCount (s : Shm) : Shm :=
  { s with shmemStat := { s.shmemStat with stCount := subSizeT s.shmemStat.stCount 1 } }

/-- The whole block is handed out. -/
def giveWhole (st size : Nat) (s : Shm) : Shm :=
  (s.setStorage st { s.storage st with alloc := true, actSize := size }).count
    (s.storage st).size size

/-- `*st_new = *st`, and `st_new` is what is behind the first `size` bytes of the block. -/
def cutBlock (st size : Nat) (s : Shm) : Shm :=
  let new := st + storageSize + size
  let b := s.storage st
  { s with
    order := copyEntry (.entry new) (.entry st) s.order
    free := copyEntry (.entry new) (.entry st) s.free
    storage := Function.update
      (Function.update s.storage new
        { b with size := subSizeT b.size (sizeT (size + storageSize)) })
      st { b with alloc := true, size := size } }

/-- The first `size` bytes of the block are handed out, and the rest is a new block. -/
def giveFirst (st size : Nat) (s : Shm) : Option Shm := do
  let new := st + storageSize + size
  let s := cutBlock st size s
  let order ← queueInsertBefore (.entry new) (.entry st) s.order
  let order ← queueRemove (.entry new) order
  let order ← queueInsertAfter (.entry st) (.entry new) order
  let s ← insertFree new { s with order := order }
  let s := s.setStorage st { s.storage st with actSize := size }
  pure (s.count (s.storage st).size size).addStCount

/-- The end of `shs_shmem_alloc`, with the block `st` out of its free list. -/
def giveOut (st size : Nat) (s : Shm) : Option Shm :=
  if subSizeT (s.storage st).size size < sizeT (storageSize + s.splitThreshold) then
    some (giveWhole st size s)
  else giveFirst st size s

/-- `shs_shmem_alloc` from `DO_COMPARE` on. -/
def allocFrom (i size : Nat) (s : Shm) : Option (Except ShmemErr Nat × Shm) :=
  match firstFit i size s (s.shmemStat.stCount + 1) (queueHead s.free (.head i)) with
  | none => none
  | some none => some (.error .allocFoundNoFixed, s.setFailed)
  | some (some st) =>
    match removeFree st s with
    | none => none
    | some (false, s) => some (.error .allocRemoveFree, s.setFailed)
    | some (true, s) => (giveOut st size s).map fun s => (.ok (st + storageSize), s)

/-- `shs_shmem_alloc`: the address or the error. -/
def shsShmemAlloc (size : Nat) (s : Shm) : Option (Except ShmemErr Nat × Shm) :=
  if size = 0 then some (.error .allocParam, s)
  else if s.maxAvailableIndex = s.freeLen then some (.error .allocExhausted, s.setFailed)
  else
    match chooseList size s with
    | none => none
    | some (.error e) => some (.error e, s.setFailed)
    | some (.ok i) => allocFrom i size s

/-- `shs_shmem_calloc`. It also clears the first `size` bytes of the block, which the heap does
not read. -/
def shsShmemCalloc (size : Nat) (s : Shm) : Option (Except ShmemErr Nat × Shm) :=
  shsShmemAlloc size s

/-- The loop of `shs_shmem_get_max_st` over the blocks of free node `i`. -/
def maxOf (i : Nat) (s : Shm) : Nat → Nat → Option FreeCell → Option Nat
  | 0, _, _ => none
  | fuel + 1, stMax, q =>
    if q = some (.head i) then some stMax
    else
      match q with
      | some (.entry st) =>
        maxOf i s fuel (if (s.storage st).size > (s.storage stMax).size then st else stMax)
          (s.free.next (.entry st))
      | _ => none

/-- `shs_shmem_get_max_st`. -/
def getMaxSt (s : Shm) : Option (Except ShmemErr Nat) :=
  if s.maxAvailableIndex = s.freeLen ∨ queueEmpty s.available .head = true then
    some (.error .getMaxExhausted)
  else
    match s.available.prev .head with
    | some (.entry i) =>
      if queueEmpty s.free (.head i) = true then some (.error .getMaxCritical)
      else
        match queueHead s.free (.head i) with
        | some (.entry st) =>
          (maxOf i s (s.shmemStat.stCount + 1) st (s.free.next (.entry st))).map .ok
        | _ => none
    | _ => none

def Shm.setSplit (s : Shm) : Shm :=
  { s with shmemStat := { s.shmemStat with split := sizeT (s.shmemStat.split + 1) } }

def Shm.setSplitFailed (s : Shm) : Shm :=
  { s with shmemStat := { s.shmemStat with splitFailed := sizeT (s.shmemStat.splitFailed + 1) } }

/-- `shs_shmem_split_alloc`: the address and `*act_size`, or the error. -/
def shsShmemSplitAlloc (reqMinsize : Nat) (s : Shm) :
    Option (Except ShmemErr (Nat × Nat) × Shm) :=
  let s := s.setSplit
  match getMaxSt s with
  | none => none
  | some (.error e) => some (.error e, s.setSplitFailed)
  | some (.ok st) =>
    if (s.storage st).size < reqMinsize then
      some (.error .splitAllocNoFixedReqMinsize, s.setSplitFailed)
    else
      match removeFree st s with
      | none => none
      | some (false, s) => some (.error .splitAllocRemoveFree, s.setSplitFailed)
      | some (true, s) =>
        let size := (s.storage st).size
        some (.ok (st + storageSize, size), giveWhole st size s)

/-! ## Free -/

/-- `st` takes the block `next` behind it. -/
def mergeNext (st next : Nat) (s : Shm) : Option Shm := do
  let s := s.setStorage st { s.storage st with
    size := sizeT ((s.storage st).size + sizeT ((s.storage next).size + storageSize)) }
  let order ← queueRemove (.entry next) s.order
  pure { s with order := order }.subStCount

/-- `shs_shmem_free` up to `PROCESS_PREV`, and whether it gets there. -/
def freeNext (st : Nat) (s : Shm) : Option (Bool × Shm) :=
  match s.order.next (.entry st) with
  | none => none
  | some .head => some (true, s)
  | some (.entry next) =>
    if (s.storage next).alloc = false ∧ next = st + storageSize + (s.storage st).size then
      match removeFree next s with
      | none => none
      | some (false, s) => some (false, s)
      | some (true, s) => (mergeNext st next s).map fun s => (true, s)
    else some (true, s)

/-- `shs_shmem_free` from `PROCESS_PREV` to `END`: the block to insert, if it gets there. -/
def freePrev (st : Nat) (s : Shm) : Option (Option Nat × Shm) :=
  match s.order.prev (.entry st) with
  | none => none
  | some .head => some (some st, s)
  | some (.entry prev) =>
    if (s.storage prev).alloc = false ∧ st = prev + (s.storage prev).size + storageSize then
      match removeFree prev s with
      | none => none
      | some (false, s) => some (none, s)
      | some (true, s) => (mergeNext prev st s).map fun s => (some prev, s)
    else some (some st, s)

/-- The counters and the flag of a block that is given back. -/
def takeBack (st : Nat) (s : Shm) : Shm :=
  let b := s.storage st
  let stat := s.shmemStat
  { s with
    shmemStat := { stat with
      usedSize := subSizeT stat.usedSize b.size
      reqsSize := subSizeT stat.reqsSize b.actSize }
    storage := Function.update s.storage st { b with alloc := false } }

/-- `shs_shmem_free`, with the error number; a null pointer is `none`. -/
def shsShmemFree (addr : Option Nat) (s : Shm) : Option (Option ShmemErr × Shm) :=
  match addr with
  | none => some (some .freeParam, s)
  | some addr =>
    let st := addr - storageSize
    if (s.storage st).alloc = false then some (some .freeNonalloced, s)
    else
      match freeNext st (takeBack st s) with
      | none => none
      | some (false, s) => some (some .freeRemoveNext, s)
      | some (true, s) =>
        match freePrev st s with
        | none => none
        | some (none, s) => some (some .freeRemovePrev, s)
        | some (some st, s) => (insertFree st s).map fun s => (none, s)

/-! ## Runs -/

inductive Act where
  | alloc (size : Nat)
  | calloc (size : Nat)
  | splitAlloc (reqMinsize : Nat)
  | free (addr : Nat)

/-- The heap, and the addresses handed out and not given back. -/
structure World where
  shm : Shm
  live : List Nat := []

def World.give {β : Type} (w : World) (addr : β → Nat) : Except ShmemErr β × Shm → World
  | (.ok p, s) => ⟨s, addr p :: w.live⟩
  | (.error _, s) => ⟨s, w.live⟩

/-- A call; the arguments are of type `size_t`. Only live addresses are freed. -/
def step (w : World) : Act → Option World
  | .alloc size => (shsShmemAlloc (sizeT size) w.shm).map (w.give id)
  | .calloc size => (shsShmemCalloc (sizeT size) w.shm).map (w.give id)
  | .splitAlloc reqMinsize => (shsShmemSplitAlloc (sizeT reqMinsize) w.shm).map (w.give Prod.fst)
  | .free addr =>
    if addr ∈ w.live then (shsShmemFree (some addr) w.shm).map fun r => ⟨r.2, w.live.erase addr⟩
    else some w

/-- Calls one after the other. -/
def exec (w : World) (acts : List Act) : Option World := acts.foldlM step w

end Shmem
end Shs
