import Shs.Core.Bytes
import Shs.Core.Heap
import Shs.Core.Queue
import Shs.Lib.Run

/-!
# Core.HalfLife

The half-life pool of `shs_half_life_mempool.cc`: a queue of free nodes that is filled up when few
are left and cut back when there are too many. A node is the address of its `queue_t`, which its
first bytes are; a caller has the address behind it.

The pool works as long as the counter is the number of free nodes. It is not when a node is taken
from the empty queue, which hands out the head of the queue itself, or when the counter overflows.
-/

namespace Shs
namespace HalfLife

open Queue

/-- `sizeof(hl_mempool_t)` and the offset of `free_q` in it. -/
def hlMempoolSize : Nat := 32
def freeQOffset : Nat := 16

/-- `sizeof(queue_t)`, which is also the offset of `ptr` in `hl_mem_node_t`. -/
def queueSize : Nat := 16

/-- `hl_mempool_t` at `addr`. -/
structure Pool where
  addr : Nat
  maxSize : Int
  minSize : Int
  elementSize : Int
  freeSize : Int := 0

def Pool.freeQ (p : Pool) : Nat := p.addr + freeQOffset

/-- The pool, the links of all queues and the memory that was given out. -/
structure Memory where
  pool : Pool
  links : Links Nat
  heap : Heap

/-- `alloc_size`, an `int`, as `malloc` takes it. -/
def Pool.allocSize (p : Pool) : Nat := (toInt32 (queueSize + p.elementSize) % 2 ^ 64).toNat

/-- `memset(node, 0x00, alloc_size)`. -/
def clear (node : Nat) (links : Links Nat) : Links Nat :=
  (links.setNext node none).setPrev node none

/-- The loops of `hl_mempool_create` and `do_expand`, for at most `n` nodes: whether `malloc` has
served them all. There is no result where a null pointer is followed. -/
def fill (insert : Nat → Nat → Links Nat → Option (Links Nat)) :
    Nat → Memory → Option (Bool × Memory)
  | 0, s => some (true, s)
  | n + 1, s =>
    if s.pool.freeSize < s.pool.maxSize then
      match s.heap.alloc (fun _ => true) s.pool.allocSize with
      | (none, heap) => some (false, { s with heap := heap })
      | (some node, heap) =>
        match insert s.pool.freeQ node (clear node s.links) with
        | none => none
        | some links =>
          fill insert n
            ⟨{ s.pool with freeSize := toInt32 (s.pool.freeSize + 1) }, links, heap⟩
    else some (true, s)

/-- How many nodes a loop up to `max_size` allocates at most. -/
def Memory.missing (s : Memory) : Nat := (s.pool.maxSize - s.pool.freeSize).toNat

/-- `do_clean`, for at most `n` nodes. -/
def doClean : Nat → Memory → Option Memory
  | 0, s => if queueEmpty s.links s.pool.freeQ then some s else none
  | n + 1, s =>
    if queueEmpty s.links s.pool.freeQ then some s
    else
      match queueHead s.links s.pool.freeQ with
      | none => none
      | some que =>
        match queueRemove que s.links with
        | none => none
        | some links =>
          doClean n ⟨{ s.pool with freeSize := toInt32 (s.pool.freeSize - 1) }, links,
            s.heap.free que⟩

/-- `hl_mempool_create`: the pool, or null and the heap that is left. -/
def hlMempoolCreate (maxReservSize minReservSize elememtSize : Int) (heap : Heap) :
    Option (Except Heap Memory) :=
  if maxReservSize ≤ 0 ∨ maxReservSize < minReservSize ∨ elememtSize < 0 then
    some (.error heap)
  else
    match heap.alloc (fun _ => true) hlMempoolSize with
    | (none, heap) => some (.error heap)
    | (some t, heap) =>
      let pool : Pool := ⟨t, maxReservSize, minReservSize, elememtSize, 0⟩
      let s : Memory := ⟨pool, queueInit pool.freeQ ⟨fun _ => none, fun _ => none⟩, heap⟩
      match fill queueInsertHead s.missing s with
      | none => none
      | some (true, s) => some (.ok s)
      | some (false, s) =>
        (doClean s.heap.out.length s).map fun s => .error (s.heap.free t)

/-- `do_expand`: whether it returns 0. -/
def doExpand (s : Memory) : Option (Bool × Memory) :=
  if s.pool.minSize < s.pool.freeSize then some (true, s)
  else fill queueInsertTail s.missing s

/-- `hl_mempool_get`. -/
def hlMempoolGet (s : Memory) : Option (Option Nat × Memory) :=
  match doExpand s with
  | none => none
  | some (ret, s) =>
    if ret = false ∧ s.pool.freeSize ≤ 0 then some (none, s)
    else
      match queueHead s.links s.pool.freeQ with
      | none => some (none, s)
      | some queue =>
        match queueRemove queue s.links with
        | none => none
        | some links =>
          some (some (queue + queueSize),
            { s with pool := { s.pool with freeSize := toInt32 (s.pool.freeSize - 1) }
                     links := links })

def Memory.surplus (s : Memory) : Nat := (s.pool.freeSize - s.pool.maxSize).toNat

/-- The loop of `do_shrink`, for at most `n` nodes. -/
def shrinkLoop : Nat → Memory → Option Memory
  | 0, s => some s
  | n + 1, s =>
    if s.pool.maxSize < s.pool.freeSize then
      match queueHead s.links s.pool.freeQ with
      | none => none
      | some que =>
        match queueRemove que s.links with
        | none => none
        | some links =>
          shrinkLoop n ⟨{ s.pool with freeSize := toInt32 (s.pool.freeSize - 1) }, links,
            s.heap.free que⟩
    else some s

def doShrink (s : Memory) : Option Memory := shrinkLoop s.surplus s

/-- `hl_mempool_free`. -/
def hlMempoolFree (ptr : Nat) (s : Memory) : Option Memory :=
  (queueInsertTail s.pool.freeQ (ptr - queueSize) s.links).bind fun links =>
    doShrink ⟨{ s.pool with freeSize := toInt32 (s.pool.freeSize + 1) }, links, s.heap⟩

/-! ## Runs -/

inductive Act where
  | get
  | free (ptr : Nat)

/-- The memory, the pointers that callers got and have not given back, and whether a call followed
a null pointer. -/
structure State where
  memory : Memory
  held : List Nat := []
  failed : Bool := false

def State.afterGet (s : State) : Option (Option Nat × Memory) → State
  | some (some ptr, m) => { s with memory := m, held := ptr :: s.held }
  | some (none, m) => { s with memory := m }
  | none => { s with failed := true }

def State.afterFree (s : State) (ptr : Nat) : Option Memory → State
  | some m => { s with memory := m, held := s.held.erase ptr }
  | none => { s with failed := true }

def step (s : State) : Act → State
  | .get => s.afterGet (hlMempoolGet s.memory)
  | .free ptr => s.afterFree ptr (hlMempoolFree ptr s.memory)

/-- Callers give back what they hold. -/
def callOk (s : State) : Act → Prop
  | .get => True
  | .free ptr => ptr ∈ s.held

/-- The pool has a node to give, unless its minimum is such that it gets one; and the counter has
room for one node more. -/
def actOk (s : State) : Act → Prop
  | .get => 0 ≤ s.memory.pool.minSize ∨ 0 < s.memory.pool.freeSize
  | .free ptr => callOk s (.free ptr) ∧ s.memory.pool.freeSize < 2 ^ 31 - 1

/-- The counter is the number of the free nodes, and there are at most as many as the pool may
have. -/
def Counted (s : Memory) : Prop :=
  ∃ l, LinkedRing s.links s.pool.freeQ l ∧ s.pool.freeSize = l.length ∧
    0 ≤ s.pool.freeSize ∧ s.pool.freeSize ≤ s.pool.maxSize

/-- `hl_mempool_get` returns null or a node that was free, behind the expansion, and that nobody
holds. -/
def GetFine (s : State) : Prop :=
  ∃ res m, hlMempoolGet s.memory = some (res, m) ∧ ∀ ptr, res = some ptr →
    ptr ∉ s.held ∧ ∃ ret m' l q, doExpand s.memory = some (ret, m') ∧
      LinkedRing m'.links m'.pool.freeQ l ∧ q ∈ l ∧ ptr = q + queueSize

/-! ## The queue of free nodes -/

theorem clear_ring {m : Links Nat} {h x : Nat} {l : List Nat} (r : LinkedRing m h l)
    (hx : x ∉ h :: l) : LinkedRing (clear x m) h l := by
  refine r.congr fun c hc => ?_
  have hcx : c ≠ x := by
    rintro rfl
    exact hx hc
  simp [clear, Links.setNext, Links.setPrev, hcx]

/-- The two ways of inserting a node. -/
def Inserts (insert : Nat → Nat → Links Nat → Option (Links Nat)) : Prop :=
  ∀ {m : Links Nat} {h x : Nat} {l : List Nat}, LinkedRing m h l → x ∉ h :: l →
    ∃ m' l', insert h x m = some m' ∧ LinkedRing m' h l' ∧ l'.Perm (x :: l)

theorem inserts_head : Inserts queueInsertHead := fun {_ _ _ l} r hx =>
  ⟨_, _ :: l, (queueInsertHead_ring r hx).1, (queueInsertHead_ring r hx).2, .refl _⟩

theorem inserts_tail : Inserts queueInsertTail := fun {_ _ x l} r hx =>
  ⟨_, l ++ [x], (queueInsertTail_ring r hx).1, (queueInsertTail_ring r hx).2,
    List.perm_append_singleton x l⟩

theorem queueRemove_head {m : Links Nat} {h x : Nat} {l : List Nat}
    (r : LinkedRing m h (x :: l)) :
    queueHead m h = some x ∧ ∃ m', queueRemove x m = some m' ∧ LinkedRing m' h l := by
  have hr : LinkedRing m h ([] ++ x :: l) := r
  exact ⟨r.next_head, _, (queueRemove_ring hr).1, (queueRemove_ring hr).2⟩

/-! ## The invariant -/

/-- The pools differ in the counter at most. -/
def Kept (p p' : Pool) : Prop := p' = { p with freeSize := p'.freeSize }

theorem Kept.trans {p q r : Pool} (h : Kept p q) (h' : Kept q r) : Kept p r := by
  rw [Kept] at *
  rw [h', h]

/-- A node of the pool. -/
structure IsNode (s : Memory) (a : Nat) : Prop where
  out : ⟨a, s.pool.allocSize⟩ ∈ s.heap.out
  addr : a ≠ s.pool.addr
  freeQ : a ≠ s.pool.freeQ

/-- `l` are the free nodes; they and the nodes that callers hold are the nodes of the pool, each
once. -/
structure Inv (held l : List Nat) (s : Memory) : Prop where
  ring : LinkedRing s.links s.pool.freeQ l
  size : s.pool.freeSize = l.length
  home : ⟨s.pool.addr, hlMempoolSize⟩ ∈ s.heap.out
  nodes : ∀ ptr ∈ l.map (· + queueSize) ++ held, ∃ a, ptr = a + queueSize ∧ IsNode s a
  nodup : (l.map (· + queueSize) ++ held).Nodup

/-- A new region starts at no region that was given out. -/
theorem fresh_start {out : List Region} {r r' : Region} (h : Fresh out r) (hr : r' ∈ out)
    (hpos : 0 < r'.size) : r.start ≠ r'.start := by
  intro heq
  have hsize := h.sized
  rcases h.apart r' hr with ha | ha <;> simp only [Region.stop] at ha <;> omega

namespace Inv

variable {held l : List Nat} {s : Memory} (h : Inv held l s)

include h

/-- Memory of `malloc` is not in use. -/
theorem fresh_node {a : Nat} (hf : Fresh s.heap.out ⟨a, s.pool.allocSize⟩) :
    a ≠ s.pool.addr ∧ a ≠ s.pool.freeQ ∧ a + queueSize ∉ l.map (· + queueSize) ++ held := by
  refine ⟨fresh_start hf h.home (Nat.zero_lt_succ 31), ?_, ?_⟩
  · have hpos := hf.sized
    intro heq
    rcases hf.apart _ h.home with ha | ha
    · simp only [Region.stop, heq, Pool.freeQ] at *
      omega
    · simp only [Region.stop, heq, Pool.freeQ, hlMempoolSize, freeQOffset] at *
      omega
  · intro hmem
    obtain ⟨b, hb, hnode⟩ := h.nodes _ hmem
    exact fresh_start hf hnode.out hf.sized (Nat.add_right_cancel hb)

/-- A fresh node is put into the queue. -/
theorem grow {a : Nat} {heap : Heap} {links : Links Nat} {l' : List Nat}
    (hf : Fresh s.heap.out ⟨a, s.pool.allocSize⟩)
    (hout : heap.out = ⟨a, s.pool.allocSize⟩ :: s.heap.out)
    (hring : LinkedRing links s.pool.freeQ l') (hp : l'.Perm (a :: l))
    (hsmall : (l.length : Int) + 1 < 2 ^ 31) :
    Inv held l' ⟨{ s.pool with freeSize := toInt32 (s.pool.freeSize + 1) }, links, heap⟩ := by
  obtain ⟨haddr, hq, hnot⟩ := h.fresh_node hf
  have hall : (l'.map (· + queueSize) ++ held).Perm
      ((a + queueSize) :: (l.map (· + queueSize) ++ held)) := by
    rw [← List.cons_append]
    exact (hp.map _).append_right held
  refine ⟨hring, ?_, ?_, ?_, ?_⟩
  · have hlen := hp.length_eq
    have hsize := h.size
    rw [List.length_cons] at hlen
    simp only
    rw [toInt32_of_range (by omega) (by omega)]
    omega
  · rw [hout]
    exact List.mem_cons_of_mem _ h.home
  · intro ptr hptr
    rcases List.mem_cons.1 (hall.mem_iff.1 hptr) with rfl | hptr
    · refine ⟨a, rfl, ?_, haddr, hq⟩
      rw [hout]
      exact List.mem_cons_self
    · obtain ⟨b, hb, hnode⟩ := h.nodes ptr hptr
      refine ⟨b, hb, ?_, hnode.addr, hnode.freeQ⟩
      rw [hout]
      exact List.mem_cons_of_mem _ hnode.out
  · exact hall.nodup_iff.2 (List.nodup_cons.2 ⟨hnot, h.nodup⟩)

/-- The loops that allocate nodes. -/
theorem fill {insert : Nat → Nat → Links Nat → Option (Links Nat)} (hins : Inserts insert)
    {n : Nat} (hn : s.missing ≤ n) (hroom : (l.length : Int) ≤ s.pool.maxSize)
    (hmax : s.pool.maxSize < 2 ^ 31) :
    ∃ ret m l', HalfLife.fill insert n s = some (ret, m) ∧ Inv held l' m ∧ Kept s.pool m.pool ∧
      (l'.length : Int) ≤ s.pool.maxSize ∧ l.length ≤ l'.length ∧
      (ret = true → (l'.length : Int) = s.pool.maxSize) := by
  have hsize := h.size
  induction n generalizing s l with
  | zero =>
    rw [Memory.missing] at hn
    exact ⟨true, s, l, rfl, h, rfl, hroom, Nat.le_refl _, fun _ => by omega⟩
  | succ n ih =>
    rw [Memory.missing] at hn
    rw [HalfLife.fill]
    by_cases hlt : s.pool.freeSize < s.pool.maxSize
    · rw [if_pos hlt]
      rcases hmem : s.heap.alloc (fun _ => true) s.pool.allocSize with ⟨_ | a, heap⟩
      · have hout := Heap.alloc_none (congrArg Prod.fst hmem)
        rw [hmem] at hout
        refine ⟨false, _, l, rfl, ?_, rfl, hroom, Nat.le_refl _,
          fun hc => absurd hc (by decide)⟩
        refine ⟨h.ring, h.size, hout ▸ h.home, ?_, h.nodup⟩
        intro ptr hptr
        obtain ⟨b, hb, hnode⟩ := h.nodes ptr hptr
        exact ⟨b, hb, hout ▸ hnode.out, hnode.addr, hnode.freeQ⟩
      · obtain ⟨hf, -, hout⟩ := Heap.alloc_some (congrArg Prod.fst hmem)
        rw [hmem] at hout
        obtain ⟨-, hq, hnot⟩ := h.fresh_node hf
        have hx : a ∉ s.pool.freeQ :: l := by
          intro hc
          rcases List.mem_cons.1 hc with hc | hc
          · exact hq hc
          · exact hnot (List.mem_append_left _ (List.mem_map_of_mem hc))
        obtain ⟨links, l', hinsert, hring, hp⟩ := hins (clear_ring h.ring hx) hx
        have hlen := hp.length_eq
        rw [List.length_cons] at hlen
        have hgrow := h.grow hf hout hring hp (by omega)
        have hfree := hgrow.size
        simp only [hinsert]
        obtain ⟨ret, m, l'', hm, hinv, hkept, hle, hlong, hfull⟩ :=
          ih hgrow (by simp only [Memory.missing] at hfree ⊢; omega) (by simp only; omega) hmax
            hfree
        have hstep : Kept s.pool { s.pool with freeSize := toInt32 (s.pool.freeSize + 1) } := rfl
        exact ⟨ret, m, l'', hm, hinv, hstep.trans hkept, hle, by omega, hfull⟩
    · rw [if_neg hlt]
      exact ⟨true, s, l, rfl, h, rfl, hroom, Nat.le_refl _, fun _ => by omega⟩

omit h in
/-- The first node of the queue is handed out. -/
theorem take {a : Nat} (h : Inv held (a :: l) s) (hsmall : (l.length : Int) < 2 ^ 31) :
    queueHead s.links s.pool.freeQ = some a ∧ ∃ links, queueRemove a s.links = some links ∧
      Inv ((a + queueSize) :: held) l
        ⟨{ s.pool with freeSize := toInt32 (s.pool.freeSize - 1) }, links, s.heap⟩ := by
  obtain ⟨hhead, links, hremove, hring⟩ := queueRemove_head h.ring
  have hall : (l.map (· + queueSize) ++ (a + queueSize) :: held).Perm
      ((a :: l).map (· + queueSize) ++ held) := List.perm_middle
  have hsize := h.size
  rw [List.length_cons] at hsize
  refine ⟨hhead, links, hremove, hring, ?_, h.home, ?_, hall.nodup_iff.2 h.nodup⟩
  · simp only
    rw [toInt32_of_range (by omega) (by omega)]
    omega
  · intro ptr hptr
    obtain ⟨b, hb, hnode⟩ := h.nodes ptr (hall.mem_iff.1 hptr)
    exact ⟨b, hb, hnode.out, hnode.addr, hnode.freeQ⟩

omit h in
/-- A node that is in nobody's hands any more goes back to the heap. -/
theorem drop {a : Nat} (h : Inv ((a + queueSize) :: held) l s) :
    Inv held l ⟨s.pool, s.links, s.heap.free a⟩ := by
  have hall : (l.map (· + queueSize) ++ (a + queueSize) :: held).Perm
      ((a + queueSize) :: (l.map (· + queueSize) ++ held)) := List.perm_middle
  have hnd := List.nodup_cons.1 (hall.nodup_iff.1 h.nodup)
  obtain ⟨b, hb, hnode⟩ := h.nodes _ (hall.mem_iff.2 List.mem_cons_self)
  obtain rfl := Nat.add_right_cancel hb
  refine ⟨h.ring, h.size, ?_, ?_, hnd.2⟩
  · exact List.mem_filter.2 ⟨h.home, decide_eq_true (Ne.symm hnode.addr)⟩
  · intro ptr hptr
    obtain ⟨c, hc, hother⟩ := h.nodes ptr (hall.mem_iff.2 (List.mem_cons_of_mem _ hptr))
    refine ⟨c, hc, List.mem_filter.2 ⟨hother.out, decide_eq_true ?_⟩, hother.addr, hother.freeQ⟩
    intro heq
    subst hc
    rw [show c = a from heq] at hptr
    exact hnd.1 hptr

/-- A node is put back. -/
theorem putBack {ptr : Nat} (hptr : ptr ∈ held) (hsmall : (l.length : Int) + 1 < 2 ^ 31) :
    ∃ a links, queueInsertTail s.pool.freeQ (ptr - queueSize) s.links = some links ∧
      Inv (held.erase ptr) (l ++ [a])
        ⟨{ s.pool with freeSize := toInt32 (s.pool.freeSize + 1) }, links, s.heap⟩ := by
  obtain ⟨a, rfl, hnode⟩ := h.nodes ptr (List.mem_append_right _ hptr)
  have hx : a ∉ s.pool.freeQ :: l := by
    intro hc
    rcases List.mem_cons.1 hc with hc | hc
    · exact hnode.freeQ hc
    · exact (List.nodup_append.1 h.nodup).2.2 _ (List.mem_map_of_mem hc) _ hptr rfl
  obtain ⟨hinsert, hring⟩ := queueInsertTail_ring h.ring hx
  have hall : ((l ++ [a]).map (· + queueSize) ++ held.erase (a + queueSize)).Perm
      (l.map (· + queueSize) ++ held) := by
    rw [List.map_append, List.append_assoc]
    exact (List.perm_cons_erase hptr).symm.append_left _
  have hsize := h.size
  rw [Nat.add_sub_cancel]
  refine ⟨a, _, hinsert, hring, ?_, h.home, ?_, hall.nodup_iff.2 h.nodup⟩
  · simp only [List.length_append, List.length_singleton]
    rw [toInt32_of_range (by omega) (by omega)]
    omega
  · intro q hq
    obtain ⟨b, hb, hother⟩ := h.nodes q (hall.mem_iff.1 hq)
    exact ⟨b, hb, hother.out, hother.addr, hother.freeQ⟩

/-- `do_shrink` behind a single node that was put back. -/
theorem shrink (hle : (l.length : Int) ≤ s.pool.maxSize + 1) (hpos : 0 < s.pool.maxSize)
    (hsmall : (l.length : Int) < 2 ^ 31) :
    ∃ m l', doShrink s = some m ∧ Inv held l' m ∧
      Kept s.pool m.pool ∧ (l'.length : Int) ≤ s.pool.maxSize := by
  have hsize := h.size
  by_cases hroom : (l.length : Int) ≤ s.pool.maxSize
  · have hfuel : s.surplus = 0 := by rw [Memory.surplus]; omega
    rw [doShrink, hfuel]
    exact ⟨s, l, rfl, h, rfl, hroom⟩
  · have hfuel : s.surplus = 1 := by rw [Memory.surplus]; omega
    cases l with
    | nil => exact absurd hroom (not_not.2 (by simp only [List.length_nil]; omega))
    | cons a l =>
      rw [List.length_cons] at *
      obtain ⟨hhead, links, hremove, hinv⟩ := h.take (by omega)
      rw [doShrink, hfuel, shrinkLoop, if_pos (by omega), hhead]
      simp only [hremove, shrinkLoop]
      exact ⟨_, l, rfl, hinv.drop, rfl, by omega⟩

end Inv

/-! ## Runs -/

/-- What holds between calls. -/
structure Good (s : State) : Prop where
  fine : s.failed = false
  pos : 0 < s.memory.pool.maxSize
  small : s.memory.pool.maxSize < 2 ^ 31
  inv : ∃ l, Inv s.held l s.memory ∧ (l.length : Int) ≤ s.memory.pool.maxSize

theorem Good.counted {s : State} (h : Good s) : Counted s.memory := by
  obtain ⟨l, hinv, hroom⟩ := h.inv
  have hsize := hinv.size
  exact ⟨l, hinv.ring, hsize, by omega, by omega⟩

theorem doExpand_inv {s : State} {l : List Nat} (hinv : Inv s.held l s.memory)
    (hroom : (l.length : Int) ≤ s.memory.pool.maxSize) (hmax : s.memory.pool.maxSize < 2 ^ 31)
    (hok : actOk s .get) (hpos : 0 < s.memory.pool.maxSize) :
    ∃ ret m l', doExpand s.memory = some (ret, m) ∧ Inv s.held l' m ∧
      Kept s.memory.pool m.pool ∧ (l'.length : Int) ≤ s.memory.pool.maxSize ∧
      (ret = true → l' ≠ []) := by
  have hsize := hinv.size
  have hne : ∀ l' : List Nat, (0 : Int) < l'.length → l' ≠ [] := by
    rintro _ hlen rfl
    exact absurd hlen (by decide)
  rw [doExpand]
  by_cases hmin : s.memory.pool.minSize < s.memory.pool.freeSize
  · rw [if_pos hmin]
    refine ⟨true, s.memory, l, rfl, hinv, rfl, hroom, fun _ => hne l ?_⟩
    rcases hok with h0 | h0 <;> omega
  · rw [if_neg hmin]
    obtain ⟨ret, m, l', hm, hinv', hkept, hle, -, hfull⟩ :=
      hinv.fill inserts_tail (Nat.le_refl _) hroom hmax
    refine ⟨ret, m, l', hm, hinv', hkept, hle, fun hret => hne l' ?_⟩
    rw [hfull hret]
    exact hpos

/-- `hl_mempool_get` hands out the first free node, if there is one behind the expansion. -/
theorem hlMempoolGet_inv {s : State} (h : Good s) (hok : actOk s .get) :
    ∃ res m l, hlMempoolGet s.memory = some (res, m) ∧ Kept s.memory.pool m.pool ∧
      (l.length : Int) ≤ s.memory.pool.maxSize ∧ Inv (res.toList ++ s.held) l m ∧
      ∀ ptr, res = some ptr → ∃ ret m' l q, doExpand s.memory = some (ret, m') ∧
        LinkedRing m'.links m'.pool.freeQ l ∧ q ∈ l ∧ ptr = q + queueSize := by
  obtain ⟨l, hinv, hroom⟩ := h.inv
  have hmax := h.small
  obtain ⟨ret, m, l', hexp, hinv', hkept, hle, hfull⟩ :=
    doExpand_inv hinv hroom h.small hok h.pos
  have hsize := hinv'.size
  rw [hlMempoolGet, hexp]
  simp only
  by_cases hnull : ret = false ∧ m.pool.freeSize ≤ 0
  · rw [if_pos hnull]
    exact ⟨none, m, l', rfl, hkept, hle, hinv', fun _ hc => absurd hc (Option.some_ne_none _).symm⟩
  · rw [if_neg hnull]
    cases l' with
    | nil =>
      cases ret with
      | false => exact absurd ⟨rfl, by rw [hsize]; exact Int.le_refl _⟩ hnull
      | true => exact absurd rfl (hfull rfl)
    | cons q l' =>
      rw [List.length_cons] at hle
      obtain ⟨hhead, links, hremove, htake⟩ := hinv'.take (by omega)
      simp only [hhead, hremove]
      have hstep : Kept m.pool { m.pool with freeSize := toInt32 (m.pool.freeSize - 1) } := rfl
      refine ⟨_, _, l', rfl, hkept.trans hstep, by omega, htake, ?_⟩
      intro ptr hptr
      exact ⟨ret, m, q :: l', q, rfl, hinv'.ring, List.mem_cons_self, (Option.some.inj hptr).symm⟩

theorem Good.getFine {s : State} (h : Good s) (hok : actOk s .get) : GetFine s := by
  obtain ⟨res, m, l, hget, -, -, hinv, hfree⟩ := hlMempoolGet_inv h hok
  refine ⟨res, m, hget, ?_⟩
  rintro ptr rfl
  exact ⟨(List.nodup_cons.1 (List.nodup_append.1 hinv.nodup).2.1).1, hfree ptr rfl⟩

theorem Kept.maxSize {p p' : Pool} (h : Kept p p') : p'.maxSize = p.maxSize := by
  have heq : p' = { p with freeSize := p'.freeSize } := h
  rw [heq]

/-- The state behind a call. -/
theorem Good.next {s : State} {held l : List Nat} {m : Memory} (h : Good s)
    (hkept : Kept s.memory.pool m.pool) (hinv : Inv held l m)
    (hle : (l.length : Int) ≤ s.memory.pool.maxSize) :
    Good { s with memory := m, held := held } := by
  have hmax := hkept.maxSize
  refine ⟨h.fine, ?_, ?_, l, hinv, ?_⟩ <;> simp only [hmax]
  · exact h.pos
  · exact h.small
  · exact hle

theorem Good.step {s : State} {a : Act} (h : Good s) (hok : actOk s a) : Good (step s a) := by
  cases a with
  | get =>
    obtain ⟨res, m, l, hget, hkept, hle, hinv, -⟩ := hlMempoolGet_inv h hok
    rw [HalfLife.step, hget]
    cases res with
    | none => exact h.next hkept hinv hle
    | some ptr => exact h.next hkept hinv hle
  | free ptr =>
    have hheld := hok.1
    have hlt := hok.2
    obtain ⟨l, hinv, hroom⟩ := h.inv
    have hsize := hinv.size
    obtain ⟨a, links, hinsert, hback⟩ := hinv.putBack hheld (by omega)
    obtain ⟨m, l', hshrink, hinv', hkept, hle⟩ := hback.shrink
      (by simp only [List.length_append, List.length_singleton]; omega) h.pos
      (by simp only [List.length_append, List.length_singleton]; omega)
    have hfree : hlMempoolFree ptr s.memory = some m := by
      rw [hlMempoolFree, hinsert]
      exact hshrink
    rw [HalfLife.step, hfree]
    have hstep : Kept s.memory.pool
        { s.memory.pool with freeSize := toInt32 (s.memory.pool.freeSize + 1) } := rfl
    exact h.next (hstep.trans hkept) hinv' hle

theorem hlMempoolCreate_good {maxReservSize minReservSize elememtSize : Int} {heap : Heap}
    {m : Memory} (hint : maxReservSize < 2 ^ 31)
    (hcreate : hlMempoolCreate maxReservSize minReservSize elememtSize heap = some (.ok m)) :
    Good { memory := m } := by
  rw [hlMempoolCreate] at hcreate
  split at hcreate
  · cases hcreate
  next hargs =>
    rcases hmem : heap.alloc (fun _ => true) hlMempoolSize with ⟨_ | t, heap'⟩
    · rw [hmem] at hcreate
      cases hcreate
    · obtain ⟨-, -, hout⟩ := Heap.alloc_some (congrArg Prod.fst hmem)
      rw [hmem] at hout
      have hinit : Inv [] [] ⟨⟨t, maxReservSize, minReservSize, elememtSize, 0⟩,
          queueInit (t + freeQOffset) ⟨fun _ => none, fun _ => none⟩, heap'⟩ := by
        refine ⟨ring_queueInit _ _, rfl, ?_, fun _ hc => absurd hc List.not_mem_nil, .nil⟩
        rw [hout]
        exact List.mem_cons_self
      obtain ⟨ret, m', l, hfill, hinv, hkept, hle, -, -⟩ :=
        hinit.fill inserts_head (Nat.le_refl _) (by simp only [List.length_nil]; omega) hint
      rw [hmem] at hcreate
      simp only [Pool.freeQ] at hcreate hfill
      rw [hfill] at hcreate
      cases ret with
      | false =>
        simp only [Option.map_eq_some_iff] at hcreate
        obtain ⟨_, _, hc⟩ := hcreate
        cases hc
      | true =>
        cases hcreate
        have hmax := hkept.maxSize
        exact ⟨rfl, by rw [hmax]; simp only; omega, by rw [hmax]; exact hint, l, hinv,
          by rw [hmax]; exact hle⟩

/-- As long as the pool has a node to give, or a minimum that makes it get one, and the counter has
room: the counter is the number of free nodes, between 0 and the maximum, and what a caller gets
was free and is nobody else's. -/
theorem hl_mempool_counted {maxReservSize minReservSize elememtSize : Int} {heap : Heap}
    {m : Memory} (hint : maxReservSize < 2 ^ 31)
    (hcreate : hlMempoolCreate maxReservSize minReservSize elememtSize heap = some (.ok m))
    {as : List Act} (hrun : Run.Meets step actOk { memory := m } as) :
    let s := Run.exec step { memory := m } as
    s.failed = false ∧ Counted s.memory ∧ (actOk s .get → GetFine s) := by
  have hgood := Run.invariant step (I := Good) (hlMempoolCreate_good hint hcreate)
    (fun _ _ hg ha => hg.step ha) hrun
  exact ⟨hgood.fine, hgood.counted, hgood.getFine⟩

instance : ∀ s a, Decidable (callOk s a)
  | _, .get => .isTrue trivial
  | s, .free ptr => inferInstanceAs (Decidable (ptr ∈ s.held))

instance : ∀ s a, Decidable (actOk s a)
  | s, .get => inferInstanceAs (Decidable (0 ≤ s.memory.pool.minSize ∨ 0 < s.memory.pool.freeSize))
  | s, .free ptr =>
    inferInstanceAs (Decidable (callOk s (.free ptr) ∧ s.memory.pool.freeSize < 2 ^ 31 - 1))

/-- A heap that serves a few requests. -/
def sampleHeap : Heap where
  out := []
  answers := [some 4096, some 8192, some 8256, none, some 8320]
  packed := Region.packed_nil heapTop
  sized := sized_nil

theorem hl_mempool_counted_two :
    ∃ m, hlMempoolCreate 2 1 8 sampleHeap = some (.ok m) ∧
      Counted (Run.exec step { memory := m } [.get, .get, .get, .free 8208, .get]).memory :=
  have hcreate : hlMempoolCreate 2 1 8 sampleHeap = some (.ok _) := rfl
  ⟨_, hcreate, (hl_mempool_counted (by decide) hcreate
    (Run.meets_of_check step (by decide +kernel))).2.1⟩

/-- A negative minimum: the second call gets the head of the empty queue, and the counter is
negative. -/
theorem sentinel_handed_out :
    ∃ m, hlMempoolCreate 1 (-1) 8 sampleHeap = some (.ok m) ∧
      Run.Meets step callOk { memory := m } [.get, .get] ∧
      ¬ Counted (Run.exec step { memory := m } [.get, .get]).memory := by
  refine ⟨_, rfl, Run.meets_of_check step (by decide +kernel), ?_⟩
  rintro ⟨l, -, -, hpos, -⟩
  revert hpos
  decide +kernel

end HalfLife
end Shs
