import Shs.Core.Bytes
import Shs.Core.PoolGiven
import Shs.Lib.Memory

/-!
# Core.ArrayPush

`array_create`, `array_init` and `array_push` on arrays of one pool, with other users of the pool
between the calls. A full array grows in place when it ends where the first block of the pool is
filled up to, and else moves to a region of twice the size.

The elements are bytes of one memory, and every user writes what it likes into its own regions. The
bookkeeping of the pool and the headers of the arrays are records here; they have regions of their
own. `Stored` says what an array is for. It holds as long as the product of the number and the size
of the first elements does not wrap, and the counter of the elements does not.
-/

namespace Shs
namespace ArrayPush

open MemoryPool Region

/-- A value of type `uint32_t`. -/
def u32 (n : Nat) : Nat := n % 2 ^ 32

/-- `sizeof(array_t)`. -/
def arraySize : Nat := 40

/-- `array_t`. The pool is the same for all arrays. -/
structure ArrayT where
  elts   : Nat
  nelts  : Nat
  size   : Nat
  nalloc : Nat

/-- The region of `nalloc` elements. -/
def ArrayT.region (a : ArrayT) : Region := ⟨a.elts, a.nalloc * a.size⟩

/-- An array, the values that were put into it, and the number of elements that it has memory for.
The last two are not part of the program. -/
structure Held where
  array  : ArrayT
  pushed : List Bytes := []
  room   : Nat

/-- All the memory of the array. -/
def Held.region (h : Held) : Region := ⟨h.array.elts, h.room * h.array.size⟩

/-- The pool, the memory, and who has what of the pool: its arrays, the headers of arrays and the
regions of other users. -/
structure State where
  pool    : Pool
  heap    : Heap
  mem     : Nat → Byte
  arrays  : List Held := []
  heads   : List Region := []
  allocs  : List Region := []
  crashed : Bool := false

/-- `array_init`, and the end of `array_create`. -/
def arrayInit (n : UInt32) (size : UInt64) (s : State) : State :=
  if n = 0 ∨ size = 0 then s
  else
    match poolAlloc (sizeT (n.toNat * size.toNat)) s.pool s.heap with
    | (none, pool, heap) => { s with pool := pool, heap := heap }
    | (some elts, pool, heap) =>
      let a : ArrayT := ⟨elts, 0, size.toNat, n.toNat⟩
      { s with pool := pool, heap := heap, arrays := s.arrays ++ [{ array := a, room := n.toNat }] }

def arrayCreate (n : UInt32) (size : UInt64) (s : State) : State :=
  if n = 0 ∨ size = 0 then s
  else
    match poolAlloc arraySize s.pool s.heap with
    -- `a->elts` is written before `a` is tested
    | (none, pool, heap) => { s with pool := pool, heap := heap, crashed := true }
    | (some a, pool, heap) =>
      arrayInit n size
        { s with pool := pool, heap := heap, heads := ⟨a, arraySize⟩ :: s.heads }

/-- The branch of `array_push` for a full array, which is number `i`; without an array when it
returns null. -/
def grow (s : State) (i : Nat) (h : Held) : State × Option Held :=
  let a := h.array
  let size := sizeT (a.size * a.nalloc)
  match s.pool.blocks with
  | [] => (s, none)
  | first :: rest =>
    if sizeT (a.elts + size) = first.last ∧ sizeT (first.last + a.size) ≤ first.stop then
      let first := { first with last := sizeT (first.last + a.size) }
      let h := { h with array := { a with nalloc := u32 (a.nalloc + 1) }, room := h.room + 1 }
      ({ s with pool := { s.pool with blocks := first :: rest }, arrays := s.arrays.set i h }, some h)
    else
      match poolAlloc (sizeT (2 * size)) s.pool s.heap with
      | (none, pool, heap) => ({ s with pool := pool, heap := heap }, none)
      | (some na, pool, heap) =>
        let h := { h with
          array := { a with elts := na, nalloc := u32 (a.nalloc * 2) }, room := 2 * h.room }
        ({ s with
            pool := pool, heap := heap, arrays := s.arrays.set i h
            mem := Memory.write s.mem na (Memory.read s.mem a.elts size) }, some h)

/-- The end of `array_push`, and the value that the caller writes to the element. -/
def place (s : State) (i : Nat) (h : Held) (v : Bytes) : State :=
  let a := h.array
  let elt := sizeT (a.elts + sizeT (a.size * a.nelts))
  let h := { h with array := { a with nelts := u32 (a.nelts + 1) }, pushed := h.pushed ++ [v] }
  { s with mem := Memory.write s.mem elt v, arrays := s.arrays.set i h }

/-- `array_push` on array `i`, for a value that has the size of an element. -/
def arrayPush (i : Nat) (v : Bytes) (s : State) : State :=
  match s.arrays[i]? with
  | none => s
  | some h =>
    if v.length ≠ h.array.size then s
    else if h.array.nelts = h.array.nalloc then
      match grow s i h with
      | (s, none) => s
      | (s, some h) => place s i h v
    else place s i h v

inductive Act where
  | create (n : UInt32) (size : UInt64)
  | init (n : UInt32) (size : UInt64)
  | push (i : Nat) (v : Bytes)
  | alloc (size : Nat)
  | write (j off : Nat) (v : Bytes)

/-- `pool_alloc` for another user. -/
def otherAlloc (size : Nat) (s : State) : State :=
  match poolAlloc size s.pool s.heap with
  | (none, pool, heap) => { s with pool := pool, heap := heap }
  | (some m, pool, heap) => { s with pool := pool, heap := heap, allocs := ⟨m, size⟩ :: s.allocs }

/-- Another user writes into its region. -/
def otherWrite (j off : Nat) (v : Bytes) (s : State) : State :=
  match s.allocs[j]? with
  | none => s
  | some r =>
    if off + v.length ≤ r.size then { s with mem := Memory.write s.mem (r.start + off) v } else s

def step (s : State) (act : Act) : State :=
  if s.crashed then s
  else
    match act with
    | .create n size => arrayCreate n size s
    | .init n size => arrayInit n size s
    | .push i v => arrayPush i v s
    | .alloc size => otherAlloc size s
    | .write j off v => otherWrite j off v s

/-- The state behind `pool_create`. -/
def start (p : Pool) (h : Heap) (mem : Nat → Byte) : State := { pool := p, heap := h, mem := mem }

/-! ## What an array is for -/

/-- Every array has its values in order, one element behind the other, and the regions of the
arrays are memory of the pool that nobody else has. -/
structure Stored (s : State) : Prop where
  elements : ∀ h ∈ s.arrays, h.array.nelts = h.pushed.length ∧
    ∀ i v, h.pushed[i]? = some v →
      Memory.read s.mem (h.array.elts + i * h.array.size) h.array.size = v
  inside   : ∀ h ∈ s.arrays, ∃ o ∈ owned s.pool, Within h.array.region o
  apart    : (headers s.pool.blocks ++ records s.pool ++ (s.allocs ++ s.heads) ++
    s.arrays.map fun h => h.array.region).Pairwise Apart

/-- The size of a new array does not wrap, and neither does the number of elements. -/
def Fits (s : State) : Act → Prop
  | .create n size => n.toNat * size.toNat < 2 ^ 64
  | .init n size => n.toNat * size.toNat < 2 ^ 64
  | .push i _ => ∀ h, s.arrays[i]? = some h → h.array.nelts + 1 < 2 ^ 32
  | .alloc _ => True
  | .write _ _ _ => True

/-- The part of the address space that is not the program's. -/
def userTop : Nat := 2 ^ 47

def kernelSpace : Region := ⟨userTop, heapTop - userTop⟩

/-- The heap of a user program: for it, the memory of the kernel is in use. -/
structure UserHeap where
  heap : Heap
  user : kernelSpace ∈ heap.out

/-! ## The invariant -/

/-- An array whose counters did not wrap, but for `nalloc`: an array with memory for 2^32 elements
or more has more elements than `nalloc` says, so that it does not grow again. -/
structure Held.Ok (mem : Nat → Byte) (h : Held) : Prop where
  sized    : 0 < h.array.size
  roomy    : 0 < h.room
  nalloc   : h.array.nalloc = u32 h.room
  nelts    : h.array.nelts = h.pushed.length
  fits     : h.pushed.length ≤ h.room
  counted  : h.pushed.length < 2 ^ 32
  wrapped  : 2 ^ 32 ≤ h.room → u32 h.room < h.pushed.length
  contents : ∀ i v, h.pushed[i]? = some v →
    Memory.read mem (h.array.elts + i * h.array.size) h.array.size = v

/-- The regions of all users of the pool. -/
def live (s : State) : List Region :=
  s.allocs ++ s.heads ++ s.arrays.map Held.region

/-- The regions of the users other than array `i`. -/
def liveBut (s : State) (i : Nat) : List Region :=
  s.allocs ++ s.heads ++ (s.arrays.eraseIdx i).map Held.region

/-- The pool has given out the regions of its users, and those that arrays have moved away from. -/
structure Inv (others : List Region) (s : State) : Prop where
  user  : kernelSpace ∈ others
  gives : ∃ dead, Gives others s.pool s.heap (live s ++ dead)
  held  : ∀ h ∈ s.arrays, h.Ok s.mem

section Lists

variable {s : State} {i : Nat} {h : Held}

theorem live_perm (hget : s.arrays[i]? = some h) : (live s).Perm (h.region :: liveBut s i) := by
  obtain ⟨hi, heq⟩ := List.getElem?_eq_some_iff.1 hget
  have hperm := (List.getElem_cons_eraseIdx_perm hi).symm.map Held.region
  rw [heq] at hperm
  exact (hperm.append_left _).trans List.perm_middle

theorem live_set (hget : s.arrays[i]? = some h) (h' : Held) :
    (s.allocs ++ s.heads ++ (s.arrays.set i h').map Held.region).Perm
      (h'.region :: liveBut s i) := by
  obtain ⟨hi, -⟩ := List.getElem?_eq_some_iff.1 hget
  have hperm := (List.set_perm_cons_eraseIdx hi h').map Held.region
  exact (hperm.append_left _).trans List.perm_middle

/-- The arrays behind a change of array `i`. -/
theorem mem_set (hget : s.arrays[i]? = some h) {h' x : Held} (hx : x ∈ s.arrays.set i h') :
    x = h' ∨ (x ∈ s.arrays ∧ x.region ∈ liveBut s i) := by
  obtain ⟨hi, -⟩ := List.getElem?_eq_some_iff.1 hget
  rcases List.mem_cons.1 ((List.set_perm_cons_eraseIdx hi h').subset hx) with rfl | hx
  · exact .inl rfl
  · exact .inr ⟨List.mem_of_mem_eraseIdx hx,
      List.mem_append_right _ (List.mem_map_of_mem hx)⟩

end Lists

/-- Every place of an element is in the region of the array. -/
theorem Held.place_le {h : Held} {i : Nat} (hi : i < h.room) :
    i * h.array.size + h.array.size ≤ h.room * h.array.size := by
  rw [← Nat.succ_mul]
  exact Nat.mul_le_mul_right _ hi

theorem Held.place_within {h : Held} {i : Nat} (hi : i < h.room) :
    Within ⟨h.array.elts + i * h.array.size, h.array.size⟩ h.region := by
  have hle := Held.place_le hi
  refine ⟨Nat.le_add_right _ _, ?_⟩
  show h.array.elts + i * h.array.size + h.array.size ≤ h.array.elts + h.room * h.array.size
  omega

theorem Held.Ok.frame {mem : Nat → Byte} {h : Held} (hok : h.Ok mem) {p : Nat} {vs : Bytes}
    (hapart : Apart h.region ⟨p, vs.length⟩) : h.Ok (Memory.write mem p vs) := by
  refine ⟨hok.sized, hok.roomy, hok.nalloc, hok.nelts, hok.fits, hok.counted, hok.wrapped, ?_⟩
  intro i v hv
  have hi : i < h.pushed.length := (List.getElem?_eq_some_iff.1 hv).1
  have hpart := Held.place_within (Nat.lt_of_lt_of_le hi hok.fits)
  rw [← hok.contents i v hv]
  exact Memory.read_write_apart (hapart.mono hpart (.refl _))

/-- The next value is written behind the others. -/
theorem Held.Ok.push {mem : Nat → Byte} {h : Held} (hok : h.Ok mem) {v : Bytes}
    (hv : v.length = h.array.size) (hroom : h.pushed.length < h.room)
    (hfit : h.pushed.length + 1 < 2 ^ 32) :
    Held.Ok (Memory.write mem (h.array.elts + h.pushed.length * h.array.size) v)
      { h with
        array := { h.array with nelts := h.pushed.length + 1 }, pushed := h.pushed ++ [v] } := by
  have hlen : (h.pushed ++ [v]).length = h.pushed.length + 1 := by simp
  refine ⟨hok.sized, hok.roomy, hok.nalloc, hlen.symm, ?_, ?_, fun hge => ?_, fun j w hw => ?_⟩
  · exact hlen.trans_le hroom
  · exact hlen.trans_lt hfit
  · have hlt := hok.wrapped hge
    show u32 h.room < (h.pushed ++ [v]).length
    omega
  · simp only at hw ⊢
    rcases Run.getElem?_concat hw with hw | ⟨rfl, rfl⟩
    · have hj : j < h.pushed.length := (List.getElem?_eq_some_iff.1 hw).1
      rw [← hok.contents j w hw]
      have hbefore : (j + 1) * h.array.size ≤ h.pushed.length * h.array.size :=
        Nat.mul_le_mul_right _ hj
      rw [Nat.succ_mul] at hbefore
      refine Memory.read_write_apart (r := ⟨h.array.elts + j * h.array.size, h.array.size⟩)
        (.inl ?_)
      show h.array.elts + j * h.array.size + h.array.size ≤
        h.array.elts + h.pushed.length * h.array.size
      omega
    · rw [← hv]
      exact Memory.read_write _ _ _

/-- A full array has memory for just its elements. -/
theorem Held.Ok.room_eq {mem : Nat → Byte} {h : Held} (hok : h.Ok mem)
    (hfull : h.array.nelts = h.array.nalloc) :
    h.room = h.pushed.length ∧ h.array.nalloc = h.pushed.length := by
  have hnalloc := hok.nalloc
  have hnelts := hok.nelts
  have hwrapped := hok.wrapped
  unfold u32 at hnalloc hwrapped
  omega

namespace Inv

variable {others : List Region} {s : State} {i : Nat} {h : Held}

/-- Array `i` changes, with memory that the pool gave for it. -/
theorem set {pool : Pool} {heap : Heap} {mem : Nat → Byte} {h' : Held} {dead : List Region}
    (hi : Inv others s) (hget : s.arrays[i]? = some h)
    (hg : Gives others pool heap (h'.region :: (liveBut s i ++ dead))) (hok : h'.Ok mem)
    (hrest : ∀ x ∈ s.arrays, x.region ∈ liveBut s i → x.Ok mem) :
    Inv others { s with pool := pool, heap := heap, mem := mem, arrays := s.arrays.set i h' } := by
  refine ⟨hi.user, ⟨dead, hg.perm ?_⟩, fun x hx => ?_⟩
  · exact (live_set hget h').symm.append_right dead
  · rcases mem_set hget hx with rfl | ⟨hx, hmem⟩
    · exact hok
    · exact hrest x hx hmem

/-- What the pool gave, with array `i` in front. -/
theorem gives_front (hi : Inv others s) (hget : s.arrays[i]? = some h) :
    ∃ dead, Gives others s.pool s.heap (h.region :: (liveBut s i ++ dead)) := by
  obtain ⟨dead, hg⟩ := hi.gives
  exact ⟨dead, hg.perm ((live_perm hget).append_right dead)⟩

/-- Every array ends below the upper part of the address space, and apart from the others. -/
theorem region_spec (hi : Inv others s) (hget : s.arrays[i]? = some h) :
    h.array.elts + h.room * h.array.size ≤ userTop ∧
      ∀ r ∈ liveBut s i, Apart h.region r := by
  obtain ⟨dead, hg⟩ := hi.gives_front hget
  constructor
  · obtain ⟨o, ho, -, hend⟩ := hg.inside List.mem_cons_self
    exact Nat.le_trans hend (hg.stop_le hi.user ho)
  · intro r hr
    have hall := (List.pairwise_append.1 hg.apart).2.1
    exact (List.pairwise_cons.1 hall).1 r (List.mem_append_left _ hr)

theorem ok (hi : Inv others s) (hget : s.arrays[i]? = some h) : h.Ok s.mem :=
  hi.held h (List.mem_of_getElem? hget)

/-- A call for memory that changes nothing else. -/
theorem failed {pool : Pool} {heap : Heap} {size : Nat} (hi : Inv others s)
    (ha : poolAlloc size s.pool s.heap = (none, pool, heap)) :
    Inv others { s with pool := pool, heap := heap } := by
  obtain ⟨dead, hg⟩ := hi.gives
  exact ⟨hi.user, ⟨dead, hg.alloc_none ha⟩, hi.held⟩

end Inv

/-! ## Steps -/

section Steps

variable {others : List Region} {s : State} {i : Nat} {h : Held}

theorem otherAlloc_inv (size : Nat) (hi : Inv others s) : Inv others (otherAlloc size s) := by
  unfold otherAlloc
  rcases ha : poolAlloc size s.pool s.heap with ⟨_ | m, pool, heap⟩
  · exact hi.failed ha
  · obtain ⟨dead, hg⟩ := hi.gives
    exact ⟨hi.user, ⟨dead, hg.alloc_some ha⟩, hi.held⟩

theorem otherWrite_inv (j off : Nat) (v : Bytes) (hi : Inv others s) :
    Inv others (otherWrite j off v s) := by
  unfold otherWrite
  split
  · exact hi
  rename_i r hr
  split
  · rename_i hfit
    refine ⟨hi.user, hi.gives, fun x hx => ?_⟩
    obtain ⟨dead, hg⟩ := hi.gives
    have hlive := (List.pairwise_append.1 (List.pairwise_append.1 hg.apart).2.1).1
    have hmem : r ∈ s.allocs ++ s.heads := List.mem_append_left _ (List.mem_of_getElem? hr)
    have hapart := (List.pairwise_append.1 hlive).2.2 r hmem x.region (List.mem_map_of_mem hx)
    refine (hi.held x hx).frame (hapart.symm.mono (.refl _) ?_)
    refine ⟨Nat.le_add_right _ _, ?_⟩
    show r.start + off + v.length ≤ r.start + r.size
    omega
  · exact hi

theorem arrayInit_inv {n : UInt32} {size : UInt64} (hi : Inv others s)
    (hfit : n.toNat * size.toNat < 2 ^ 64) : Inv others (arrayInit n size s) := by
  unfold arrayInit
  split
  · exact hi
  rename_i hzero
  have hn : 0 < n.toNat := Nat.pos_of_ne_zero fun h => hzero (.inl (UInt32.toNat_inj.1 h))
  have hsize : 0 < size.toNat := Nat.pos_of_ne_zero fun h => hzero (.inr (UInt64.toNat_inj.1 h))
  have hlt := n.toNat_lt
  rcases ha : poolAlloc (sizeT (n.toNat * size.toNat)) s.pool s.heap with ⟨_ | elts, pool, heap⟩
  · exact hi.failed ha
  · rw [sizeT_of_lt hfit] at ha
    obtain ⟨dead, hg⟩ := hi.gives
    refine ⟨hi.user, ⟨dead, (hg.alloc_some ha).perm ?_⟩, fun x hx => ?_⟩
    · show (_ :: (live s ++ dead)).Perm
        (s.allocs ++ s.heads ++ (s.arrays ++ [_]).map Held.region ++ dead)
      rw [List.map_append, ← List.append_assoc, List.append_assoc _ _ dead]
      exact List.perm_middle.symm
    · rcases List.mem_append.1 hx with hx | hx
      · exact hi.held x hx
      · rw [List.mem_singleton.1 hx]
        have hmod : n.toNat = u32 n.toNat := (Nat.mod_eq_of_lt hlt).symm
        refine ⟨hsize, hn, hmod, rfl, Nat.zero_le _, Nat.two_pow_pos 32, fun hge => ?_, ?_⟩
        · exact absurd hge (Nat.not_le.2 hlt)
        · intro i v hv
          cases hv

theorem arrayCreate_inv {n : UInt32} {size : UInt64} (hi : Inv others s)
    (hfit : n.toNat * size.toNat < 2 ^ 64) : Inv others (arrayCreate n size s) := by
  unfold arrayCreate
  split
  · exact hi
  rcases ha : poolAlloc arraySize s.pool s.heap with ⟨_ | a, pool, heap⟩
  · obtain ⟨dead, hg⟩ := hi.gives
    exact ⟨hi.user, ⟨dead, hg.alloc_none ha⟩, hi.held⟩
  · refine arrayInit_inv ?_ hfit
    obtain ⟨dead, hg⟩ := hi.gives
    refine ⟨hi.user, ⟨dead, (hg.alloc_some ha).perm ?_⟩, hi.held⟩
    simp only [live, List.append_assoc]
    exact List.perm_middle.symm

/-- The value of the new element reaches no other one. -/
theorem place_inv {v : Bytes} (hi : Inv others s) (hget : s.arrays[i]? = some h)
    (hv : v.length = h.array.size) (hroom : h.pushed.length < h.room)
    (hfit : h.pushed.length + 1 < 2 ^ 32) : Inv others (place s i h v) := by
  have hok := hi.ok hget
  obtain ⟨htop, hapart⟩ := hi.region_spec hget
  have hle := Held.place_le hroom
  have hnelts : u32 (h.array.nelts + 1) = h.pushed.length + 1 := by
    rw [hok.nelts]
    exact Nat.mod_eq_of_lt hfit
  -- the address does not wrap
  have helt : sizeT (h.array.elts + sizeT (h.array.size * h.array.nelts)) =
      h.array.elts + h.pushed.length * h.array.size := by
    unfold userTop at htop
    have hoff : sizeT (h.array.size * h.array.nelts) = h.pushed.length * h.array.size := by
      rw [hok.nelts, Nat.mul_comm]
      exact sizeT_of_lt (by omega)
    rw [hoff]
    exact sizeT_of_lt (by omega)
  have hpart : Within ⟨h.array.elts + h.pushed.length * h.array.size, v.length⟩ h.region := by
    rw [hv]
    exact Held.place_within hroom
  obtain ⟨dead, hg⟩ := hi.gives_front hget
  unfold place
  simp only [helt, hnelts]
  refine hi.set hget hg (hok.push hv hroom hfit) fun x hx hmem => (hi.held x hx).frame ?_
  exact (hapart _ hmem).symm.mono (.refl _) hpart

/-- The array is longer by one element, at its place. -/
theorem extend_inv {first : Block} {rest : List Block} (hi : Inv others s)
    (hget : s.arrays[i]? = some h) (hfull : h.array.nelts = h.array.nalloc)
    (hfit : h.pushed.length + 1 < 2 ^ 32) (hblocks : s.pool.blocks = first :: rest)
    (hend : h.array.elts + h.room * h.array.size = first.last)
    (hroom : first.last + h.array.size ≤ first.stop) :
    Inv others { s with
      pool := { s.pool with
        blocks := { first with last := first.last + h.array.size } :: rest }
      arrays := s.arrays.set i { h with
        array := { h.array with nalloc := u32 (h.array.nalloc + 1) }, room := h.room + 1 } } := by
  have hok := hi.ok hget
  obtain ⟨hlen, hnalloc⟩ := hok.room_eq hfull
  obtain ⟨dead, hg⟩ := hi.gives_front hget
  have hnext := hg.extend hblocks hend hroom
  rw [← Nat.succ_mul] at hnext
  refine hi.set hget hnext ?_ fun x hx _ => hi.held x hx
  refine ⟨hok.sized, Nat.succ_pos _, ?_, hok.nelts, ?_, hok.counted, ?_, hok.contents⟩
  · show u32 (h.array.nalloc + 1) = u32 (h.room + 1)
    rw [hnalloc, hlen]
  · show h.pushed.length ≤ h.room + 1
    omega
  · intro hge
    have hwrap : 2 ^ 32 ≤ h.room + 1 := hge
    omega

/-- The array is copied into a region of twice the size. -/
theorem move_inv {na : Nat} {pool : Pool} {heap : Heap} (hi : Inv others s)
    (hget : s.arrays[i]? = some h) (hfull : h.array.nelts = h.array.nalloc)
    (ha : poolAlloc (2 * (h.room * h.array.size)) s.pool s.heap = (some na, pool, heap)) :
    Inv others { s with
      pool := pool, heap := heap
      arrays := s.arrays.set i { h with
        array := { h.array with elts := na, nalloc := u32 (h.array.nalloc * 2) }
        room := 2 * h.room }
      mem := Memory.write s.mem na
        (Memory.read s.mem h.array.elts (h.room * h.array.size)) } := by
  have hok := hi.ok hget
  obtain ⟨hlen, hnalloc⟩ := hok.room_eq hfull
  have hpos := hok.roomy
  obtain ⟨dead, hg⟩ := hi.gives_front hget
  have hnext := hg.alloc_some ha
  have hapart := (List.pairwise_cons.1 (List.pairwise_append.1 hnext.apart).2.1).1
  rw [← Nat.mul_assoc] at hnext
  -- the old region is not free again
  have hmoved := hnext.perm (List.Perm.cons _ List.perm_middle.symm)
  refine hi.set hget hmoved ?_ fun x hx hmem => ?_
  · refine ⟨hok.sized, ?_, ?_, hok.nelts, ?_, hok.counted, ?_, fun j v hv => ?_⟩
    · show 0 < 2 * h.room
      omega
    · show u32 (h.array.nalloc * 2) = u32 (2 * h.room)
      rw [hnalloc, hlen, Nat.mul_comm]
    · show h.pushed.length ≤ 2 * h.room
      omega
    · intro hge
      have hcounted := hok.counted
      have hwrap : 2 ^ 32 ≤ 2 * h.room := hge
      show u32 (2 * h.room) < h.pushed.length
      unfold u32
      omega
    · have hj : j < h.room := by
        rw [hlen]
        exact (List.getElem?_eq_some_iff.1 hv).1
      rw [← hok.contents j v hv]
      exact Memory.read_copy _ (Held.place_le hj)
  · refine (hi.held x hx).frame ?_
    have hfar := hapart _ (List.mem_cons_of_mem _ (List.mem_append_left _ hmem))
    refine hfar.symm.mono (.refl _) ⟨Nat.le_refl _, ?_⟩
    show na + (Memory.read s.mem h.array.elts (h.room * h.array.size)).length ≤
      na + 2 * (h.room * h.array.size)
    rw [Memory.length_read]
    omega

/-- What `grow` keeps of the array. -/
theorem grow_some {s' : State} {h' : Held} (hlt : i < s.arrays.length)
    (hgrow : grow s i h = (s', some h')) :
    s'.arrays[i]? = some h' ∧ h'.pushed = h.pushed ∧ h'.array.size = h.array.size := by
  unfold grow at hgrow
  simp only at hgrow
  split at hgrow
  · cases hgrow
  · split at hgrow
    · cases hgrow
      exact ⟨List.getElem?_set_self hlt, rfl, rfl⟩
    · split at hgrow
      · cases hgrow
      · cases hgrow
        exact ⟨List.getElem?_set_self hlt, rfl, rfl⟩

/-- A full array has room for one more element, or stays as it is. -/
theorem grow_inv (hi : Inv others s) (hget : s.arrays[i]? = some h)
    (hfull : h.array.nelts = h.array.nalloc) (hfit : h.pushed.length + 1 < 2 ^ 32) :
    Inv others (grow s i h).1 ∧
      ∀ h', (grow s i h).2 = some h' → h.pushed.length < h'.room := by
  have hok := hi.ok hget
  obtain ⟨hlen, hnalloc⟩ := hok.room_eq hfull
  obtain ⟨htop, -⟩ := hi.region_spec hget
  have hpos := hok.roomy
  have hle : h.array.size ≤ h.room * h.array.size := Nat.le_mul_of_pos_left _ hpos
  unfold userTop at htop
  -- nothing wraps below the upper part of the address space
  have hsize : sizeT (h.array.size * h.array.nalloc) = h.room * h.array.size := by
    rw [hnalloc, ← hlen, Nat.mul_comm]
    exact sizeT_of_lt (by omega)
  have hstop : sizeT (h.array.elts + h.room * h.array.size) =
      h.array.elts + h.room * h.array.size := sizeT_of_lt (by omega)
  have hdouble : sizeT (2 * (h.room * h.array.size)) = 2 * (h.room * h.array.size) :=
    sizeT_of_lt (by omega)
  unfold grow
  simp only [hsize, hstop, hdouble]
  rcases hblocks : s.pool.blocks with _ | ⟨first, rest⟩
  · exact ⟨hi, fun h' hnone => by cases hnone⟩
  simp only
  split
  · rename_i hfits
    obtain ⟨hend, hroom⟩ := hfits
    have hlast : sizeT (first.last + h.array.size) = first.last + h.array.size :=
      sizeT_of_lt (by omega)
    rw [hlast] at hroom ⊢
    refine ⟨extend_inv hi hget hfull hfit hblocks hend hroom, fun h' hsome => ?_⟩
    cases hsome
    show h.pushed.length < h.room + 1
    omega
  · rcases ha : poolAlloc (2 * (h.room * h.array.size)) s.pool s.heap with ⟨_ | na, pool, heap⟩
    · exact ⟨hi.failed ha, fun h' hnone => by cases hnone⟩
    · refine ⟨move_inv hi hget hfull ha, fun h' hsome => ?_⟩
      cases hsome
      show h.pushed.length < 2 * h.room
      omega

theorem arrayPush_inv {v : Bytes} (hi : Inv others s)
    (hfit : ∀ h, s.arrays[i]? = some h → h.array.nelts + 1 < 2 ^ 32) :
    Inv others (arrayPush i v s) := by
  unfold arrayPush
  rcases hget : s.arrays[i]? with _ | h
  · exact hi
  simp only
  have hok := hi.ok hget
  have hcount : h.pushed.length + 1 < 2 ^ 32 := by
    rw [← hok.nelts]
    exact hfit h hget
  split
  · exact hi
  rename_i hv
  have hv := not_not.1 hv
  split
  · rename_i hfull
    obtain ⟨hnext, hroom⟩ := grow_inv hi hget hfull hcount
    split
    · rename_i heq
      rw [heq] at hnext
      exact hnext
    · rename_i h' heq
      rw [heq] at hnext hroom
      obtain ⟨hget', hpushed, hsize⟩ := grow_some (List.getElem?_eq_some_iff.1 hget).1 heq
      rw [← hpushed] at hroom hcount
      exact place_inv hnext hget' (hv.trans hsize.symm) (hroom h' rfl) hcount
  · rename_i hfull
    refine place_inv hi hget hv ?_ hcount
    have hnalloc := hok.nalloc
    have hnelts := hok.nelts
    have hfits := hok.fits
    unfold u32 at hnalloc
    omega

theorem step_inv {act : Act} (hi : Inv others s) (hfit : Fits s act) : Inv others (step s act) := by
  unfold step
  split
  · exact hi
  · cases act with
    | create n size => exact arrayCreate_inv hi hfit
    | init n size => exact arrayInit_inv hi hfit
    | push i v => exact arrayPush_inv hi hfit
    | alloc size => exact otherAlloc_inv size hi
    | write j off v => exact otherWrite_inv j off v hi

/-- The region of `nalloc` elements is in the memory of the array. -/
theorem Held.Ok.within {mem : Nat → Byte} {h : Held} (hok : h.Ok mem) :
    Within h.array.region h.region := by
  refine ⟨Nat.le_refl _, Nat.add_le_add_left (Nat.mul_le_mul_right _ ?_) _⟩
  rw [hok.nalloc]
  exact Nat.mod_le _ _

theorem Inv.stored (hi : Inv others s) : Stored s := by
  obtain ⟨dead, hg⟩ := hi.gives
  refine ⟨fun x hx => ⟨(hi.held x hx).nelts, (hi.held x hx).contents⟩, fun x hx => ?_, ?_⟩
  · have hmem : x.region ∈ live s ++ dead :=
      List.mem_append_left _ (List.mem_append_right _ (List.mem_map_of_mem hx))
    obtain ⟨o, ho, hpart⟩ := hg.inside hmem
    exact ⟨o, ho, (hi.held x hx).within.trans hpart⟩
  · refine pairwise_of_within (fun x hx => (hi.held x hx).within) ?_
    have hapart := hg.apart
    rw [← List.append_assoc] at hapart
    rw [List.append_assoc]
    exact (List.pairwise_append.1 hapart).1

/-! ## What does not fit -/

/-- A new array that gets memory for a size that wrapped. -/
theorem arrayInit_not_stored {n : UInt32} {size : UInt64} {elts : Nat} {pool : Pool} {heap : Heap}
    (hi : Inv others s) (hwrap : 2 ^ 64 ≤ n.toNat * size.toNat)
    (ha : poolAlloc (sizeT (n.toNat * size.toNat)) s.pool s.heap = (some elts, pool, heap)) :
    ¬ Stored (arrayInit n size s) := by
  intro hs
  have hzero : ¬ (n = 0 ∨ size = 0) := by
    rintro (rfl | rfl)
    · simp at hwrap
    · simp at hwrap
  unfold arrayInit at hs
  rw [if_neg hzero, ha] at hs
  obtain ⟨dead, hg⟩ := hi.gives
  obtain ⟨o, ho, -, hend⟩ := hs.inside _ (List.mem_append_right _ (List.mem_singleton_self _))
  have htop := (hg.alloc_some ha).stop_le hi.user ho
  have hstop : elts + n.toNat * size.toNat ≤ o.stop := hend
  unfold userTop at htop
  omega

theorem place_not_stored (hget : s.arrays[i]? = some h) (hmany : 2 ^ 32 ≤ h.pushed.length + 1)
    (v : Bytes) : ¬ Stored (place s i h v) := by
  intro hs
  have hlt := (List.getElem?_eq_some_iff.1 hget).1
  have hlen : u32 (h.array.nelts + 1) = (h.pushed ++ [v]).length :=
    (hs.elements _ (List.mem_set hlt _)).1
  have hless : u32 (h.array.nelts + 1) < 2 ^ 32 := Nat.mod_lt _ (Nat.two_pow_pos 32)
  rw [List.length_append, List.length_singleton] at hlen
  omega

/-- Element number 2^32, where there is memory for it. -/
theorem arrayPush_not_stored {v : Bytes} (hget : s.arrays[i]? = some h)
    (hv : v.length = h.array.size) (hmany : 2 ^ 32 ≤ h.pushed.length + 1)
    (hroom : h.array.nelts = h.array.nalloc → (grow s i h).2.isSome) :
    ¬ Stored (arrayPush i v s) := by
  unfold arrayPush
  simp only [hget, hv, ne_eq, not_true_eq_false, if_false]
  split
  · rename_i hfull
    have hsome := hroom hfull
    split
    · rename_i heq
      rw [heq] at hsome
      cases hsome
    · rename_i h' heq
      obtain ⟨hget', hpushed, -⟩ := grow_some (List.getElem?_eq_some_iff.1 hget).1 heq
      rw [← hpushed] at hmany
      exact place_not_stored hget' hmany v
  · exact place_not_stored hget hmany v

end Steps

/-! ## Runs -/

theorem start_inv {size maxSize : Nat} {h h' : Heap} {p : Pool}
    (hc : poolCreate size maxSize h = (some p, h')) (huser : kernelSpace ∈ h.out)
    (mem : Nat → Byte) : Inv h.out (start p h' mem) :=
  ⟨huser, ⟨[], Gives.start hc⟩, fun _ hx => absurd hx List.not_mem_nil⟩

/-- In every run from a new pool in which the size of no new array wraps, nor the number of
elements of an array: every array has its elements in order, one behind the other, in memory of the
pool that is nobody else's. -/
theorem arrays_stored {size maxSize : Nat} {h : UserHeap} {h' : Heap} {p : Pool}
    (hc : poolCreate size maxSize h.heap = (some p, h')) (mem : Nat → Byte) {acts : List Act}
    (hrun : Run.Meets step Fits (start p h' mem) acts) :
    Stored (Run.exec step (start p h' mem) acts) := by
  have hi := Run.invariant step (I := Inv h.heap.out) (start_inv hc h.user mem)
    (fun _ _ hi hfit => step_inv hi hfit) hrun
  exact hi.stored

instance : ∀ s act, Decidable (Fits s act)
  | _, .create n size => inferInstanceAs (Decidable (n.toNat * size.toNat < 2 ^ 64))
  | _, .init n size => inferInstanceAs (Decidable (n.toNat * size.toNat < 2 ^ 64))
  | s, .push i _ => inferInstanceAs
      (Decidable (∀ h, s.arrays[i]? = some h → h.array.nelts + 1 < 2 ^ 32))
  | _, .alloc _ => .isTrue trivial
  | _, .write _ _ _ => .isTrue trivial

/-- A heap with one answer. -/
def sampleHeap : UserHeap where
  heap :=
    { out := [kernelSpace], answers := [some 4096]
      packed := (packed_nil heapTop).cons (by decide) fun _ hr => absurd hr List.not_mem_nil
      sized := by decide }
  user := List.mem_singleton_self _

/-- The array grows in place, and moves when another user has the memory behind it. -/
theorem arrays_stored_four :
    ∃ p heap, poolCreate 1024 4096 sampleHeap.heap = (some p, heap) ∧
      Stored (Run.exec step (start p heap fun _ => 0)
        [.init 1 2, .push 0 [1, 2], .push 0 [3, 4], .alloc 8, .push 0 [5, 6], .write 0 0 [7]]) := by
  have hc : poolCreate 1024 4096 sampleHeap.heap = (some _, _) := rfl
  refine ⟨_, _, hc, arrays_stored hc _ (Run.meets_of_check step ?_)⟩
  decide +kernel

/-- Two elements of 2^63 + 8 bytes get 16 bytes. -/
theorem array_outside :
    ∃ p heap, poolCreate 1024 4096 sampleHeap.heap = (some p, heap) ∧
      ¬ Stored (Run.exec step (start p heap fun _ => 0) [.init 2 0x8000000000000008]) := by
  have hc : poolCreate 1024 4096 sampleHeap.heap = (some _, _) := rfl
  have hi := start_inv hc sampleHeap.user fun _ => 0
  have hlost : ¬ Stored (arrayInit 2 0x8000000000000008 _) :=
    arrayInit_not_stored hi (by decide) rfl
  exact ⟨_, _, hc, hlost⟩

end ArrayPush
end Shs
