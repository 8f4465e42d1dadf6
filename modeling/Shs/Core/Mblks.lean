import Shs.Core.Bytes
import Shs.Core.Math
import Shs.Lib.Region
import Shs.Lib.Run

/-!
# Core.Mblks

The block pools of `shs_mblks.cc`: one allocation with a header and `count` blocks behind it, each
with a pointer in front of its data. The pointer of a free block is the next block of the free
list, the one of a block that is handed out is the pool. The last link of the list points behind
the allocation; only the counter keeps the pool from following it.

A pointer is its address, and null is 0. Of the memory the model has the cells that hold the
pointers, by address. A caller may write into the data of its blocks.
-/

namespace Shs
namespace Mblks

/-- `sizeof(struct mem_mblks)`. -/
def mblksSize : Nat := 88

/-- `MEM_BLOCK_HEAD`. -/
def memBlockHead : Nat := 8

/-- `SIZEOF_PER_MEM_BLOCK`. -/
def sizeofPerMemBlock (sizeofType : Nat) : Nat := sizeT (sizeofType + memBlockHead)

/-- `struct mem_mblks` at `addr`, with the field `next` of each `struct mem_data`. -/
structure Pool where
  addr : Nat
  hotCount : Int := 0
  coldCount : Int
  paddedSizeofType : Nat
  realSizeofType : Nat
  freeBlks : Nat
  next : Nat → Nat

/-- The loop of `mem_mblks_new_fn`, for `n` more blocks from `ptr` on. -/
def linkBlocks (padded : Nat) : (n ptr : Nat) → (Nat → Nat) → Nat → Nat
  | 0, _, next => next
  | n + 1, ptr, next =>
    linkBlocks padded n (sizeT (ptr + padded)) (Function.update next ptr (sizeT (ptr + padded)))

/-- `mem_mblks_new_fn`. The function `mem_alloc` of the parameters maps a size to an address; it is
`none` when the parameters or the function are null. -/
def memMblksNewFn (sizeofType : Nat) (count : Int) (memAlloc : Option (Nat → Nat)) :
    Option Pool :=
  match memAlloc with
  | none => none
  | some alloc =>
    let padded := sizeofPerMemBlock sizeofType
    let sizeofMblks := sizeT (padded * (count % 2 ^ 64).toNat + mblksSize)
    let mblks := alloc sizeofMblks
    if mblks = 0 then none
    else
      some { addr := mblks
             coldCount := toInt32 count
             paddedSizeofType := padded
             realSizeofType := sizeofType
             freeBlks := sizeT (mblks + mblksSize)
             next := linkBlocks padded count.toNat (sizeT (mblks + mblksSize)) fun _ => 0 }

def memGet (p : Pool) : Pool × Option Nat :=
  if p.coldCount ≠ 0 then
    let pdata := p.freeBlks
    ({ p with
        freeBlks := p.next pdata
        next := Function.update p.next pdata p.addr
        hotCount := toInt32 (p.hotCount + 1)
        coldCount := toInt32 (p.coldCount - 1) }, some (sizeT (pdata + memBlockHead)))
  else (p, none)

/-- `mem_put`; `none` when the block says that it belongs to something else than the pool. -/
def memPut (p : Pool) (ptr : Nat) : Option Pool :=
  if ptr = 0 then some p
  else
    let pdata := subSizeT ptr memBlockHead
    if pdata = 0 then some p
    else if p.next pdata = 0 then some p
    else if p.next pdata = p.addr then
      some { p with
        hotCount := toInt32 (p.hotCount - 1)
        coldCount := toInt32 (p.coldCount + 1)
        next := Function.update p.next pdata p.freeBlks
        freeBlks := pdata }
    else none

/-- Writing `size` bytes from `ptr` on leaves anything in the cells that they touch. -/
def scribble (ptr size : Nat) (g next : Nat → Nat) (a : Nat) : Nat :=
  if a < ptr + size ∧ ptr < a + memBlockHead then g a else next a

/-! ## Runs -/

inductive Act where
  | get
  | put (ptr : Nat)
  | write (ptr : Nat) (g : Nat → Nat)

/-- The pool, the pointers that callers got and have not put back, and whether a call went
wrong. -/
structure State where
  pool : Pool
  held : List Nat := []
  failed : Bool := false

def step (s : State) : Act → State
  | .get =>
    match memGet s.pool with
    | (p, some ptr) => { s with pool := p, held := ptr :: s.held }
    | (p, none) => { s with pool := p }
  | .put ptr =>
    match memPut s.pool ptr with
    | some p => { s with pool := p, held := s.held.erase ptr }
    | none => { s with failed := true }
  | .write ptr g =>
    { s with pool := { s.pool with next := scribble ptr s.pool.realSizeofType g s.pool.next } }

/-- Callers put back, and write into, what they hold. -/
def callOk (s : State) : Act → Prop
  | .get => True
  | .put ptr => ptr ∈ s.held
  | .write ptr _ => ptr ∈ s.held

/-- The first `n` nodes of a list. -/
def nodes (next : Nat → Nat) : (n p : Nat) → List Nat
  | 0, _ => []
  | n + 1, p => p :: nodes next n (next p)

/-- The first `cold_count` nodes of the free list. -/
def Pool.free (p : Pool) : List Nat := nodes p.next p.coldCount.toNat p.freeBlks

/-- A block with its pointer. -/
def blockAt (sizeofType a : Nat) : Region := ⟨a, sizeofType + memBlockHead⟩

/-- The blocks of the free list and those that are handed out. -/
def State.blocks (sizeofType : Nat) (s : State) : List Region :=
  s.pool.free.map (blockAt sizeofType) ++
    s.held.map fun ptr => blockAt sizeofType (ptr - memBlockHead)

/-- What a pool of `count` blocks keeps to. -/
structure Sound (sizeofType count : Nat) (s : State) : Prop where
  fine : s.failed = false
  counts : s.pool.hotCount + s.pool.coldCount = count
  cold : 0 ≤ s.pool.coldCount
  distinct : s.pool.free.Nodup
  inside : ∀ r ∈ s.blocks sizeofType,
    r.Within ⟨s.pool.addr + mblksSize, (sizeofType + memBlockHead) * count⟩
  apart : (s.blocks sizeofType).Pairwise Region.Apart
  get_null : (memGet s.pool).2 = none ↔ s.held.length = count

/-! ## Lists of nodes -/

@[simp] theorem nodes_length (next : Nat → Nat) (n p : Nat) : (nodes next n p).length = n := by
  induction n generalizing p with
  | zero => rfl
  | succ n ih => rw [nodes, List.length_cons, ih]

theorem nodes_congr {next next' : Nat → Nat} {n p : Nat}
    (h : ∀ a ∈ nodes next n p, next' a = next a) : nodes next' n p = nodes next n p := by
  induction n generalizing p with
  | zero => rfl
  | succ n ih =>
    rw [nodes, nodes, h p List.mem_cons_self]
    rw [ih fun a ha => h a (List.mem_cons_of_mem p ha)]

theorem linkBlocks_below {padded n ptr a : Nat} {next : Nat → Nat}
    (h : ptr + padded * n < 2 ^ 64) (ha : a < ptr) : linkBlocks padded n ptr next a = next a := by
  induction n generalizing ptr next with
  | zero => rfl
  | succ n ih =>
    rw [Nat.mul_succ] at h
    have hptr : sizeT (ptr + padded) = ptr + padded := Nat.mod_eq_of_lt (by omega)
    rw [linkBlocks, hptr, ih (by omega) (by omega), Function.update_of_ne (by omega)]

/-- The links that `mem_mblks_new_fn` writes run through the blocks in order. -/
theorem nodes_linkBlocks {padded n ptr : Nat} {next : Nat → Nat} (hpos : 0 < padded)
    (h : ptr + padded * n < 2 ^ 64) :
    nodes (linkBlocks padded n ptr next) n ptr =
      (List.range n).map fun i => ptr + padded * i := by
  induction n generalizing ptr next with
  | zero => rfl
  | succ n ih =>
    rw [Nat.mul_succ] at h
    have hptr : sizeT (ptr + padded) = ptr + padded := Nat.mod_eq_of_lt (by omega)
    rw [nodes, linkBlocks, hptr, linkBlocks_below (by omega) (by omega), Function.update_self,
      ih (by omega), List.range_succ_eq_map, List.map_cons, List.map_map]
    congr 1
    refine List.map_congr_left fun i _ => ?_
    simp only [Function.comp_apply, Nat.mul_succ]
    omega

/-! ## The invariant -/

/-- The pointer to the data of block `i`. -/
def dataAt (addr sizeofType i : Nat) : Nat :=
  addr + mblksSize + (sizeofType + memBlockHead) * i + memBlockHead

/-- The free list and the pointers that are held make up all blocks, and a block that is handed out
points to the pool. -/
structure Inv (addr sizeofType count : Nat) (s : State) : Prop where
  fine : s.failed = false
  place : s.pool.addr = addr
  real : s.pool.realSizeofType = sizeofType
  hot : s.pool.hotCount = s.held.length
  cold : s.pool.coldCount = (count : Int) - s.held.length
  all : (s.pool.free.map (· + memBlockHead) ++ s.held).Perm
    ((List.range count).map (dataAt addr sizeofType))
  owner : ∀ ptr ∈ s.held, s.pool.next (ptr - memBlockHead) = addr

/-- The pool fits into the address space. -/
structure Fits (addr sizeofType count : Nat) : Prop where
  nonnull : addr ≠ 0
  stop : addr + ((sizeofType + memBlockHead) * count + mblksSize) < 2 ^ 64
  small : count < 2 ^ 31

theorem dataAt_inj {addr sizeofType i j : Nat}
    (h : dataAt addr sizeofType i = dataAt addr sizeofType j) : i = j := by
  have hmul : (sizeofType + memBlockHead) * i = (sizeofType + memBlockHead) * j := by
    simp only [dataAt] at h
    omega
  exact Nat.eq_of_mul_eq_mul_left (by simp only [memBlockHead]; omega) hmul

theorem nodup_dataAt (addr sizeofType count : Nat) :
    ((List.range count).map (dataAt addr sizeofType)).Nodup :=
  List.nodup_range.map fun _ _ => dataAt_inj

/-- Different blocks do not overlap. -/
theorem blockAt_apart (addr sizeofType : Nat) {i j : Nat} (h : i ≠ j) :
    (blockAt sizeofType (dataAt addr sizeofType i - memBlockHead)).Apart
      (blockAt sizeofType (dataAt addr sizeofType j - memBlockHead)) := by
  simp only [Region.Apart, Region.stop, blockAt, dataAt, Nat.add_sub_cancel]
  rcases Nat.lt_or_gt_of_ne h with h | h
  · have := Nat.mul_le_mul_left (sizeofType + memBlockHead) h
    rw [Nat.mul_succ] at this
    exact .inl (by omega)
  · have := Nat.mul_le_mul_left (sizeofType + memBlockHead) h
    rw [Nat.mul_succ] at this
    exact .inr (by omega)

theorem blockAt_within {addr sizeofType count i : Nat} (h : i < count) :
    (blockAt sizeofType (dataAt addr sizeofType i - memBlockHead)).Within
      ⟨addr + mblksSize, (sizeofType + memBlockHead) * count⟩ := by
  have := Nat.mul_le_mul_left (sizeofType + memBlockHead) h
  rw [Nat.mul_succ] at this
  simp only [Region.Within, Region.stop, blockAt, dataAt, Nat.add_sub_cancel]
  omega

theorem Fits.dataAt_lt {addr sizeofType count i : Nat} (h : Fits addr sizeofType count)
    (hi : i < count) : dataAt addr sizeofType i < 2 ^ 64 := by
  have hmul := Nat.mul_le_mul_left (sizeofType + memBlockHead) hi
  have hstop := h.stop
  rw [Nat.mul_succ] at hmul
  simp only [dataAt, mblksSize, memBlockHead] at *
  omega

/-- The blocks of a state, in terms of the pointers to their data. -/
theorem blocks_eq (sizeofType : Nat) (s : State) : s.blocks sizeofType =
    (s.pool.free.map (· + memBlockHead) ++ s.held).map fun ptr =>
      blockAt sizeofType (ptr - memBlockHead) := by
  simp only [State.blocks, List.map_append, List.map_map]
  rfl

namespace Inv

variable {addr sizeofType count : Nat} {s : State} (h : Inv addr sizeofType count s)

include h

theorem mem_free {a : Nat} (ha : a ∈ s.pool.free) :
    ∃ i < count, a + memBlockHead = dataAt addr sizeofType i := by
  have hmem := h.all.mem_iff.1 (List.mem_append_left _ (List.mem_map_of_mem ha))
  obtain ⟨i, hi, heq⟩ := List.mem_map.1 hmem
  exact ⟨i, List.mem_range.1 hi, heq.symm⟩

theorem mem_held {ptr : Nat} (hptr : ptr ∈ s.held) :
    ∃ i < count, ptr = dataAt addr sizeofType i := by
  have hmem := h.all.mem_iff.1 (List.mem_append_right _ hptr)
  obtain ⟨i, hi, heq⟩ := List.mem_map.1 hmem
  exact ⟨i, List.mem_range.1 hi, heq.symm⟩

theorem nodup : (s.pool.free.map (· + memBlockHead) ++ s.held).Nodup :=
  h.all.nodup_iff.2 (nodup_dataAt addr sizeofType count)

theorem free_nodup : s.pool.free.Nodup := (List.nodup_append.1 h.nodup).1.of_map _

/-- A block is not both free and handed out. -/
theorem free_held {a : Nat} (ha : a ∈ s.pool.free) : a + memBlockHead ∉ s.held := fun hheld =>
  (List.nodup_append.1 h.nodup).2.2 _ (List.mem_map_of_mem ha) _ hheld rfl

theorem length : s.pool.free.length + s.held.length = count := by
  simpa using h.all.length_eq

theorem blocks_perm : (s.blocks sizeofType).Perm ((List.range count).map fun i =>
    blockAt sizeofType (dataAt addr sizeofType i - memBlockHead)) := by
  rw [blocks_eq]
  refine (h.all.map _).trans (.of_eq ?_)
  rw [List.map_map]
  rfl

theorem sound : Sound sizeofType count s := by
  have hhot := h.hot
  have hcold := h.cold
  have hlen := h.length
  refine ⟨h.fine, by omega, by omega, h.free_nodup, ?_, ?_, ?_⟩
  · intro r hr
    obtain ⟨i, hi, rfl⟩ := List.mem_map.1 (h.blocks_perm.mem_iff.1 hr)
    rw [h.place]
    exact blockAt_within (List.mem_range.1 hi)
  · refine h.blocks_perm.pairwise_iff Region.Apart.symm |>.2 ?_
    rw [List.pairwise_map]
    exact List.nodup_range.imp (blockAt_apart addr sizeofType)
  · by_cases hc : s.pool.coldCount = 0
    · have hnone : (memGet s.pool).2 = none := by rw [memGet, if_neg (not_not.2 hc)]
      exact ⟨fun _ => by omega, fun _ => hnone⟩
    · have hsome : (memGet s.pool).2 ≠ none := by
        rw [memGet, if_pos hc]
        simp
      exact ⟨fun hn => absurd hn hsome, fun _ => by omega⟩

theorem get (hfit : Fits addr sizeofType count) : Inv addr sizeofType count (step s .get) := by
  by_cases hc : s.pool.coldCount = 0
  · have hget : memGet s.pool = (s.pool, none) := by rw [memGet, if_neg (not_not.2 hc)]
    simp only [step, hget]
    exact h
  · have hhot := h.hot
    have hcold := h.cold
    have hlen := h.length
    have hsmall := hfit.small
    obtain ⟨k, hk⟩ : ∃ k : Nat, s.pool.coldCount = k + 1 :=
      ⟨(s.pool.coldCount - 1).toNat, by omega⟩
    have hfree : s.pool.free =
        s.pool.freeBlks :: nodes s.pool.next k (s.pool.next s.pool.freeBlks) := by
      rw [Pool.free, hk]
      rfl
    have hnd := h.free_nodup
    rw [hfree, List.nodup_cons] at hnd
    obtain ⟨i, hi, hptr⟩ := h.mem_free (hfree ▸ List.mem_cons_self)
    have hlt := hfit.dataAt_lt hi
    have hsize : sizeT (s.pool.freeBlks + memBlockHead) = s.pool.freeBlks + memBlockHead :=
      Nat.mod_eq_of_lt (by omega)
    have hrest : nodes (Function.update s.pool.next s.pool.freeBlks s.pool.addr) k
        (s.pool.next s.pool.freeBlks) = nodes s.pool.next k (s.pool.next s.pool.freeBlks) :=
      nodes_congr fun a ha => Function.update_of_ne (by rintro rfl; exact hnd.1 ha) _ _
    simp only [step, memGet, if_pos hc, hsize]
    refine ⟨h.fine, h.place, h.real, ?_, ?_, ?_, ?_⟩
    · simp only [List.length_cons]
      rw [toInt32_of_range (by omega) (by omega)]
      omega
    · simp only [List.length_cons]
      rw [toInt32_of_range (by omega) (by omega)]
      omega
    · have hfree' : toInt32 (s.pool.coldCount - 1) = k := by
        rw [toInt32_of_range (by omega) (by omega)]
        omega
      simp only [Pool.free, hfree', Int.toNat_natCast]
      rw [hrest]
      have hall := h.all
      rw [hfree, List.map_cons, List.cons_append] at hall
      exact List.perm_middle.trans hall
    · intro ptr hmem
      show Function.update s.pool.next s.pool.freeBlks s.pool.addr (ptr - memBlockHead) = addr
      rcases List.mem_cons.1 hmem with rfl | hmem
      · rw [Nat.add_sub_cancel, Function.update_self, h.place]
      · by_cases heq : ptr - memBlockHead = s.pool.freeBlks
        · rw [heq, Function.update_self, h.place]
        · rw [Function.update_of_ne heq, h.owner ptr hmem]

theorem put (hfit : Fits addr sizeofType count) {ptr : Nat} (hptr : ptr ∈ s.held) :
    Inv addr sizeofType count (step s (.put ptr)) := by
  have hhot := h.hot
  have hcold := h.cold
  have hlen := h.length
  have hsmall := hfit.small
  have hne := hfit.nonnull
  have hheld : 0 < s.held.length := List.length_pos_of_mem hptr
  obtain ⟨i, hi, hdata⟩ := h.mem_held hptr
  have hlt := hfit.dataAt_lt hi
  have hlow : addr + memBlockHead < ptr := by
    simp only [hdata, dataAt, mblksSize, memBlockHead]
    omega
  have hpdata : subSizeT ptr memBlockHead = ptr - memBlockHead := by
    simp only [subSizeT, sizeT]
    omega
  have howner := h.owner ptr hptr
  have hnot : ptr - memBlockHead ∉ s.pool.free := fun hmem =>
    h.free_held hmem (by rwa [Nat.sub_add_cancel (by omega)])
  have hnodes : nodes (Function.update s.pool.next (ptr - memBlockHead) s.pool.freeBlks)
      s.pool.coldCount.toNat s.pool.freeBlks = s.pool.free :=
    nodes_congr fun a ha => Function.update_of_ne (by rintro rfl; exact hnot ha) _ _
  have hput : memPut s.pool ptr = some { s.pool with
      hotCount := toInt32 (s.pool.hotCount - 1)
      coldCount := toInt32 (s.pool.coldCount + 1)
      next := Function.update s.pool.next (ptr - memBlockHead) s.pool.freeBlks
      freeBlks := ptr - memBlockHead } := by
    rw [memPut, if_neg (by omega)]
    simp only [hpdata, howner, h.place]
    rw [if_neg (by omega), if_neg hne, if_pos trivial]
  simp only [step, hput]
  have hcold' : toInt32 (s.pool.coldCount + 1) = (s.pool.coldCount.toNat + 1 : Nat) := by
    rw [toInt32_of_range (by omega) (by omega)]
    omega
  refine ⟨h.fine, h.place, h.real, ?_, ?_, ?_, ?_⟩
  · simp only
    rw [List.length_erase_of_mem hptr, toInt32_of_range (by omega) (by omega)]
    omega
  · simp only
    rw [List.length_erase_of_mem hptr, hcold']
    omega
  · simp only [Pool.free, hcold', Int.toNat_natCast, nodes, Function.update_self]
    rw [hnodes, List.map_cons, Nat.sub_add_cancel (by omega), List.cons_append]
    exact (List.perm_middle.symm.trans ((List.perm_cons_erase hptr).symm.append_left _)).trans
      h.all
  · intro q hq
    have hnd := (List.nodup_append.1 h.nodup).2.1
    have hq' := (hnd.mem_erase_iff).1 hq
    obtain ⟨j, -, hj⟩ := h.mem_held hq'.2
    have hqlow : memBlockHead ≤ q := by
      simp only [hj, dataAt, mblksSize, memBlockHead]
      omega
    show Function.update s.pool.next (ptr - memBlockHead) s.pool.freeBlks (q - memBlockHead) = addr
    rw [Function.update_of_ne (by omega), h.owner q hq'.2]

/-- Writing into the data of one's block leaves the pointers in front of all blocks. -/
theorem scribble_head {ptr a : Nat} (g : Nat → Nat) (hptr : ptr ∈ s.held) {j : Nat}
    (ha : a + memBlockHead = dataAt addr sizeofType j) :
    scribble ptr s.pool.realSizeofType g s.pool.next a = s.pool.next a := by
  obtain ⟨i, -, hi⟩ := h.mem_held hptr
  have hne : ¬ (a < ptr + sizeofType ∧ ptr < a + memBlockHead) := by
    by_cases hij : i = j
    · subst hij
      omega
    · have hapart := blockAt_apart addr sizeofType hij
      rw [← hi, ← ha] at hapart
      simp only [Region.Apart, Region.stop, blockAt, dataAt, memBlockHead] at *
      omega
  rw [scribble, h.real, if_neg hne]

theorem write {ptr : Nat} (g : Nat → Nat) (hptr : ptr ∈ s.held) :
    Inv addr sizeofType count (step s (.write ptr g)) := by
  have hfree : nodes (scribble ptr s.pool.realSizeofType g s.pool.next) s.pool.coldCount.toNat
      s.pool.freeBlks = s.pool.free := by
    refine nodes_congr fun a ha => ?_
    obtain ⟨j, -, hj⟩ := h.mem_free ha
    exact h.scribble_head g hptr hj
  refine ⟨h.fine, h.place, h.real, h.hot, h.cold, ?_, ?_⟩
  · simp only [step, Pool.free]
    rw [hfree]
    exact h.all
  · intro q hq
    obtain ⟨j, -, hj⟩ := h.mem_held hq
    have hhead : q - memBlockHead + memBlockHead = dataAt addr sizeofType j := by
      rw [← hj]
      simp only [hj, dataAt, memBlockHead]
      omega
    exact (h.scribble_head g hptr hhead).trans (h.owner q hq)

theorem step (hfit : Fits addr sizeofType count) {a : Act} (ha : callOk s a) :
    Inv addr sizeofType count (step s a) := by
  cases a with
  | get => exact h.get hfit
  | put ptr => exact h.put hfit ha
  | write ptr g => exact h.write g ha

end Inv

theorem memMblksNewFn_inv {sizeofType count : Nat} {memAlloc : Nat → Nat} {p : Pool}
    (hcount : count < 2 ^ 31) (hsize : (sizeofType + memBlockHead) * count + mblksSize < 2 ^ 64)
    (halloc : ∀ n, memAlloc n ≠ 0 → memAlloc n + n < 2 ^ 64)
    (hnew : memMblksNewFn sizeofType count (some memAlloc) = some p) :
    Fits p.addr sizeofType count ∧ Inv p.addr sizeofType count { pool := p } := by
  have hmod : ((count : Int) % 2 ^ 64).toNat = count := by omega
  -- the padded size wraps for an empty pool at most
  have hpad : sizeofPerMemBlock sizeofType * count = (sizeofType + memBlockHead) * count := by
    rcases Nat.eq_zero_or_pos count with rfl | hpos
    · rfl
    · have := Nat.mul_le_mul_left (sizeofType + memBlockHead) hpos
      rw [sizeofPerMemBlock, sizeT, Nat.mod_eq_of_lt (by omega)]
  have htotal : sizeT ((sizeofType + memBlockHead) * count + mblksSize) =
      (sizeofType + memBlockHead) * count + mblksSize := Nat.mod_eq_of_lt hsize
  simp only [memMblksNewFn, hmod, hpad, htotal, Int.toNat_natCast] at hnew
  split at hnew
  · cases hnew
  next hnull =>
    have hstop := halloc _ hnull
    simp only [Option.some.injEq] at hnew
    subst hnew
    refine ⟨⟨hnull, hstop, hcount⟩, rfl, rfl, rfl, rfl, ?_, ?_, ?_⟩
    · simp only [List.length_nil]
      rw [toInt32_of_range (by omega) (by omega)]
      omega
    · simp only [Pool.free, List.append_nil]
      rw [toInt32_of_range (by omega) (by omega), Int.toNat_natCast]
      rcases Nat.eq_zero_or_pos count with rfl | hpos
      · exact .refl _
      · have hmul := Nat.mul_le_mul_left (sizeofType + memBlockHead) hpos
        have hreal : sizeofPerMemBlock sizeofType = sizeofType + memBlockHead :=
          Nat.mod_eq_of_lt (by omega)
        have hfirst : sizeT (memAlloc ((sizeofType + memBlockHead) * count + mblksSize) +
            mblksSize) = memAlloc ((sizeofType + memBlockHead) * count + mblksSize) + mblksSize :=
          Nat.mod_eq_of_lt (by omega)
        rw [hfirst, hreal, nodes_linkBlocks (by simp only [memBlockHead]; omega) (by omega),
          List.map_map]
        exact .refl _
    · intro ptr hptr
      cases hptr

/-- Whatever callers do with a pool of `count` blocks, as long as they put back, and write into,
what they hold: the counters add up, the free list has as many nodes as the counter says, these
and the blocks handed out lie apart from each other inside the allocation, and there is none to
get only when all blocks are handed out. -/
theorem mem_mblks_sound {sizeofType count : Nat} {memAlloc : Nat → Nat} {p : Pool}
    (hcount : count < 2 ^ 31) (hsize : (sizeofType + memBlockHead) * count + mblksSize < 2 ^ 64)
    (halloc : ∀ n, memAlloc n ≠ 0 → memAlloc n + n < 2 ^ 64)
    (hnew : memMblksNewFn sizeofType count (some memAlloc) = some p) {as : List Act}
    (hrun : Run.Meets step callOk { pool := p } as) :
    Sound sizeofType count (Run.exec step { pool := p } as) := by
  obtain ⟨hfit, hinv⟩ := memMblksNewFn_inv hcount hsize halloc hnew
  exact (Run.invariant step (I := Inv p.addr sizeofType count) hinv
    (fun _ _ hi ha => hi.step hfit ha) hrun).sound

instance : ∀ s a, Decidable (callOk s a)
  | _, .get => .isTrue trivial
  | s, .put ptr => inferInstanceAs (Decidable (ptr ∈ s.held))
  | s, .write ptr _ => inferInstanceAs (Decidable (ptr ∈ s.held))

/-- An allocator that can serve one small request. -/
def smallAlloc (n : Nat) : Nat := if n < 4096 then 65536 else 0

theorem smallAlloc_fits (n : Nat) (hn : smallAlloc n ≠ 0) : smallAlloc n + n < 2 ^ 64 := by
  by_cases h : n < 4096
  · rw [smallAlloc, if_pos h]
    omega
  · exact absurd (if_neg h) hn

theorem mem_mblks_sound_three :
    ∃ p, memMblksNewFn 16 3 (some smallAlloc) = some p ∧
      Sound 16 3 (Run.exec step { pool := p }
        [.get, .write 65632 fun _ => 7, .get, .put 65632, .get, .get]) :=
  ⟨_, rfl, mem_mblks_sound (by decide) (by decide) smallAlloc_fits rfl
    (Run.meets_of_check step (by decide +kernel))⟩

end Mblks
end Shs
