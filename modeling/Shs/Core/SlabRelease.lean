import Shs.Core.SlabMoves

/-!
# Core.SlabRelease

`shs_slabs_release`. Its guard on the error record is the wrong way round: a caller that passes a
record gets an error and nothing is released, and without a record the function writes through the
null pointer. What stands behind the guard frees the chunks of all free lists and the manager, but
not the array of the classes.
-/

namespace Shs
namespace Slabs

open Chain

/-- The values that `shs_slabs_release` writes into `slab_errno`. -/
inductive ReleaseErr where
  | none
  | releaseParam
  | allocatorError
  deriving DecidableEq

/-- `shs_slab_errno_t`. -/
structure SlabErrno where
  slabErrno : ReleaseErr := .none
  allocatorErrno : Nat := 0

/-- What the pointer `slab_mgr` of a caller points to: the address of the manager, `none` for null,
whether its allocator is not null, the address of the array `slabclass`, and the manager. The
addresses given to `allocator->free` are noted in `frees`. -/
structure Holder where
  slabMgr : Option Nat
  hasAllocator : Bool := true
  slabclassAddr : Nat
  state : State
  frees : List Nat := []

section Operations

variable (refuses : Nat → Option Nat)

/-- `allocator->free(allocator, a, &err_no->allocator_errno)`, where `refuses` has the error for an
address that the allocator refuses. -/
def giveBack (a : Nat) (w : Holder) (e : SlabErrno) : Holder × SlabErrno :=
  ({ w with
      state := { w.state with
        heap := if (refuses a).isSome then w.state.heap else allocatorFree a w.state.heap }
      frees := w.frees ++ [a] },
    { e with allocatorErrno := (refuses a).getD e.allocatorErrno })

/-- The inner loop of `shs_slabs_release`, over the free list of class `i`. -/
def releaseClass (i : Nat) : Nat → Holder → SlabErrno → Option (Holder × SlabErrno)
  | 0, _, _ => none
  | fuel + 1, w, e =>
    match w.state.lists i with
    | none => some (w, e)
    | some c =>
      let chunk := (w.state.chunk c).next
      let w := giveBack refuses c w e
      releaseClass i fuel { w.1 with state := w.1.state.setFreeList i chunk }
        { w.2 with slabErrno := .allocatorError }

/-- The outer loop, over the next `n` classes from class `i` on. -/
def releaseClasses (fuel : Nat) : Nat → Nat → Holder → SlabErrno → Option (Holder × SlabErrno)
  | 0, _, w, e => some (w, e)
  | n + 1, i, w, e =>
    (releaseClass refuses i fuel w e).bind fun (w, e) => releaseClasses fuel n (i + 1) w e

/-- What stands behind the guard: whether `SHS_SLAB_OK` is returned, the error record, and what
`slab_mgr` points to. The classes are counted by an `int`; there is no result where it cannot. -/
def releaseBody (slabMgr : Option Holder) (e : SlabErrno) :
    Option (Bool × SlabErrno × Option Holder) :=
  match slabMgr with
  | none => some (false, { e with slabErrno := .releaseParam }, none)
  | some w =>
    match w.slabMgr with
    | none => some (false, { e with slabErrno := .releaseParam }, some w)
    | some addr =>
      if w.hasAllocator = false then
        some (false, { e with slabErrno := .releaseParam }, some w)
      else if 2 ^ 31 ≤ w.state.mgr.freeLen then none
      else
        (releaseClasses refuses w.state.fuel w.state.mgr.freeLen 0 w e).map fun (w, e) =>
          let (w, e) := giveBack refuses addr w e
          if (refuses addr).isSome then
            (false, { e with slabErrno := .allocatorError }, some w)
          else (true, e, some { w with slabMgr := none })

/-- `shs_slabs_release`; `errNo` is `none` for null. -/
def shsSlabsRelease (slabMgr : Option Holder) (errNo : Option SlabErrno) :
    Option (Bool × Option SlabErrno × Option Holder) :=
  if errNo.isSome then some (false, errNo, slabMgr)
  else
    -- `SHS_SLAB_ERRNO_CLEAN` writes through the pointer
    match errNo with
    | none => none
    | some _ => (releaseBody refuses slabMgr {}).map fun (ok, e, w) => (ok, some e, w)

/-- A manager without live chunks, whose allocator takes everything back. -/
structure Releasable (w : Holder) (addr : Nat) (cached : Nat → List Nat) : Prop where
  mgr : w.slabMgr = some addr
  allocator : w.hasAllocator = true
  live : w.state.live = []
  places : Places w.state.mgr w.state.chunk w.state.lists w.state.heap.out [] [] cached
  takes : ∀ a, refuses a = none
  frees : w.frees = []

/-- One of the pointers that `shs_slabs_release` checks is null. -/
def InvalidArgs (slabMgr : Option Holder) (errNo : Option SlabErrno) : Prop :=
  errNo = none ∨ ∀ w, slabMgr = some w → w.slabMgr = none ∨ w.hasAllocator = false

/-- What a release is for: with valid arguments it succeeds, gives back every cached chunk, the array
and the manager, each once, and clears the caller's pointer; with invalid ones it leaves everything
as it is. -/
def ReleasesAll (slabMgr : Option Holder) (errNo : Option SlabErrno) : Prop :=
  (∀ w addr cached, slabMgr = some w → errNo.isSome → Releasable refuses w addr cached →
    ∃ e w', shsSlabsRelease refuses slabMgr errNo = some (true, e, some w') ∧ w'.slabMgr = none ∧
      w'.frees.Perm (allCached w.state.mgr.freeLen cached ++ [w.slabclassAddr, addr])) ∧
    (InvalidArgs slabMgr errNo →
      ∃ ok e, shsSlabsRelease refuses slabMgr errNo = some (ok, e, slabMgr))

end Operations

variable {refuses : Nat → Option Nat}

/-! ## The guard -/

/-- With an error record nothing happens. -/
theorem shsSlabsRelease_some (slabMgr : Option Holder) (e : SlabErrno) :
    shsSlabsRelease refuses slabMgr (some e) = some (false, some e, slabMgr) := rfl

/-- Without one there is no result. -/
theorem shsSlabsRelease_none (slabMgr : Option Holder) :
    shsSlabsRelease refuses slabMgr none = none := rfl

/-- A release does what it is for exactly if there is an error record and nothing to release. -/
theorem releasesAll_iff (refuses : Nat → Option Nat) (slabMgr : Option Holder)
    (errNo : Option SlabErrno) :
    ReleasesAll refuses slabMgr errNo ↔
      errNo.isSome ∧ ∀ w addr cached, slabMgr = some w → ¬ Releasable refuses w addr cached := by
  cases errNo with
  | none =>
    refine ⟨fun h => ?_, fun h => absurd h.1 (by simp)⟩
    obtain ⟨ok, e, hrun⟩ := h.2 (.inl rfl)
    rw [shsSlabsRelease_none] at hrun
    cases hrun
  | some e =>
    constructor
    · refine fun h => ⟨rfl, fun w addr cached hw hr => ?_⟩
      obtain ⟨e', w', hrun, -, -⟩ := h.1 w addr cached hw rfl hr
      rw [shsSlabsRelease_some] at hrun
      cases hrun
    · rintro ⟨-, hno⟩
      refine ⟨fun w addr cached hw _ hr => absurd hr (hno w addr cached hw), fun _ => ?_⟩
      exact ⟨false, some e, shsSlabsRelease_some slabMgr e⟩

/-! ## Behind the guard -/

/-- What the loops leave alone. -/
structure SameHolder (w w' : Holder) : Prop where
  chunk : w'.state.chunk = w.state.chunk
  freeLen : w'.state.mgr.freeLen = w.state.mgr.freeLen

theorem releaseClass_linked (refuses : Nat → Option Nat) {i fuel : Nat} {w : Holder}
    {e : SlabErrno} {l : List Nat}
    (h : Linked (fun c => (w.state.chunk c).next) (w.state.lists i) l) (hfuel : l.length < fuel) :
    ∃ w' e', releaseClass refuses i fuel w e = some (w', e') ∧ SameHolder w w' ∧
      w'.state.lists = Function.update w.state.lists i none ∧ w'.frees = w.frees ++ l := by
  induction l generalizing fuel w e with
  | nil =>
    obtain ⟨fuel, rfl⟩ : ∃ n, fuel = n + 1 := ⟨fuel - 1, by omega⟩
    rw [linked_nil] at h
    refine ⟨w, e, ?_, ⟨rfl, rfl⟩, ?_, (List.append_nil _).symm⟩
    · rw [releaseClass, h]
    · rw [← h, Function.update_eq_self]
  | cons c l ih =>
    rw [List.length_cons] at hfuel
    obtain ⟨fuel, rfl⟩ : ∃ n, fuel = n + 1 := ⟨fuel - 1, by omega⟩
    obtain ⟨hhead, htail⟩ := h
    rw [releaseClass, hhead]
    simp only
    have hlists : ((giveBack refuses c w e).1.state.setFreeList i (w.state.chunk c).next).lists =
        Function.update w.state.lists i (w.state.chunk c).next := lists_setFreeList _ i _
    obtain ⟨w', e', hrun, hsame, hl, hf⟩ := @ih fuel
      { (giveBack refuses c w e).1 with
        state := (giveBack refuses c w e).1.state.setFreeList i (w.state.chunk c).next }
      { (giveBack refuses c w e).2 with slabErrno := .allocatorError }
      (by rw [hlists, Function.update_self]; exact htail) (by omega)
    refine ⟨w', e', hrun, ⟨hsame.chunk, hsame.freeLen⟩, ?_, ?_⟩
    · rw [hl, hlists, Function.update_idem]
    · rw [hf]
      show (w.frees ++ [c]) ++ l = w.frees ++ c :: l
      simp

theorem releaseClasses_linked (refuses : Nat → Option Nat) {cached : Nat → List Nat}
    {n i fuel : Nat} {w : Holder} {e : SlabErrno}
    (h : ∀ j, i ≤ j → j < i + n → Linked (fun c => (w.state.chunk c).next) (w.state.lists j)
      (cached j) ∧ (cached j).length < fuel) :
    ∃ w' e', releaseClasses refuses fuel n i w e = some (w', e') ∧
      w'.frees = w.frees ++ (List.range' i n).flatMap cached := by
  induction n generalizing i w e with
  | zero => exact ⟨w, e, rfl, (List.append_nil _).symm⟩
  | succ n ih =>
    obtain ⟨hlink, hfuel⟩ := h i (Nat.le_refl i) (by omega)
    obtain ⟨w₁, e₁, hrun, hsame, hlists, hfrees⟩ :=
      releaseClass_linked refuses (e := e) hlink hfuel
    have hrest : ∀ j, i + 1 ≤ j → j < i + 1 + n →
        Linked (fun c => (w₁.state.chunk c).next) (w₁.state.lists j) (cached j) ∧
          (cached j).length < fuel := by
      intro j hlo hhi
      have hj := h j (by omega) (by omega)
      rw [hsame.chunk, hlists, Function.update_of_ne (by omega)]
      exact hj
    obtain ⟨w₂, e₂, hrun₂, hfrees₂⟩ := ih hrest (e := e₁)
    refine ⟨w₂, e₂, ?_, ?_⟩
    · rw [releaseClasses, hrun]
      exact hrun₂
    · rw [hfrees₂, hfrees, List.range'_succ, List.flatMap_cons, List.append_assoc]

/-- Behind the guard the chunks of all free lists and the manager are freed, each once. The array of
the classes is not. -/
theorem releaseBody_frees {w : Holder} {addr : Nat} {cached : Nat → List Nat}
    (h : Releasable refuses w addr cached) (hlen : w.state.mgr.freeLen < 2 ^ 31) (e : SlabErrno) :
    ∃ e' w', releaseBody refuses (some w) e = some (true, e', some w') ∧ w'.slabMgr = none ∧
      w'.frees = allCached w.state.mgr.freeLen cached ++ [addr] := by
  have hclasses : ∀ j, 0 ≤ j → j < 0 + w.state.mgr.freeLen →
      Linked (fun c => (w.state.chunk c).next) (w.state.lists j) (cached j) ∧
        (cached j).length < w.state.fuel := by
    intro j _ hj
    rw [Nat.zero_add] at hj
    refine ⟨h.places.linked j hj, Nat.lt_succ_of_le ?_⟩
    exact Nat.le_trans (length_le_total hj) h.places.length_le
  obtain ⟨w₁, e₁, hrun, hfrees⟩ :=
    releaseClasses_linked refuses (e := e) hclasses
  have hnone := h.takes addr
  refine ⟨(giveBack refuses addr w₁ e₁).2,
    { (giveBack refuses addr w₁ e₁).1 with slabMgr := none }, ?_, rfl, ?_⟩
  · simp only [releaseBody, h.mgr, h.allocator, hrun, hnone]
    rw [if_neg (by decide), if_neg (Nat.not_le.2 hlen)]
    rfl
  · show w₁.frees ++ [addr] = _
    rw [hfrees, h.frees, List.nil_append, allCached, List.range_eq_range']

/-- The manager of 64 to 256 bytes, with its class array at 8192, as it is created. -/
def newHolder : Holder where
  slabMgr := some 4096
  slabclassAddr := 8192
  state :=
    { mgr := { uptype := 1, freeLen := 3, factor := 2, minSize := 64, slabclass := fun i =>
        { size := shsMathAlignment (sizeT (createSize 1 2 64 i + chunkLinkSize)) } }
      chunk := fun _ => {}
      heap :=
        { out := [], packed := Region.packed_nil heapTop
          sized := sized_nil } }

theorem newHolder_releasable : Releasable (fun _ => none) newHolder 4096 fun _ => [] := by
  refine ⟨rfl, rfl, rfl, ⟨fun _ _ => rfl, ?_, ?_, ?_, ?_⟩, fun _ => rfl, rfl⟩
  · decide
  · intro c hc
    exact absurd hc (by simp [allCached])
  · intro i _ c hc
    cases hc
  · intro c hc
    cases hc

/-- A new manager is not released. -/
theorem newHolder_kept : ¬ ReleasesAll (fun _ => none) (some newHolder) (some {}) := by
  intro h
  obtain ⟨e, w', hrun, -, -⟩ := h.1 _ _ _ rfl rfl newHolder_releasable
  rw [shsSlabsRelease_some] at hrun
  cases hrun

end Slabs
end Shs
