import Shs.Core.SlabMoves

/-!
# Core.SlabRecovery

The retry loop of `shs_slabs_alloc`: as long as the allocator has no region, `shs_slabs_recover`
gives back cached chunks. Every turn but the last one gives back at least one chunk, so the loop
ends, and it ends without a region only when no class has a cached chunk.

The class that the loop works for is given to `shs_slabs_recover` as an `int`, and its loops count
with an `int`, so a manager must not have too many classes.
-/

namespace Shs
namespace Slabs

open Chain

/-- From `s` to `s'`, the chunks `given` went back to the allocator, in this order, each from the
head of a free list. Besides, counters were written and the allocator was asked. -/
inductive GivesBack (s : State) : List Nat → State → Prop where
  | refl : GivesBack s [] s
  | back {given : List Nat} {s' : State} {i c : Nat} :
      GivesBack s given s' → s'.lists i = some c → GivesBack s (given ++ [c]) (recoverChunk i c s')
  | count {given : List Nat} {s' : State} (v : SlabStat) :
      GivesBack s given s' → GivesBack s given (s'.setStat v)
  | ask {given : List Nat} {s' : State} (n : Nat) :
      GivesBack s given s' → GivesBack s given (s'.alloc n).2

/-- The retry loop for class `id`, whose free list is empty, ends; it gives back cached chunks only,
each once, and fails only when all free lists are empty. -/
def Recovers (m : SlabManager) : Prop :=
  ∀ (s : State) (cached : Nat → List Nat) (id : Nat), SameClasses m s.mgr →
    Places m s.chunk s.lists s.heap.out [] s.live cached → id < m.freeLen → s.lists id = none →
    ∃ ptr ret s' given, allocRetry id (m.slabclass id).size s.fuel s = some (ptr, ret, s') ∧
      GivesBack s given s' ∧ given.Nodup ∧
      (∀ c ∈ given, c ∈ allCached m.freeLen cached ∧ c ∉ s.live) ∧ s'.live = s.live ∧
      (ptr = none → ∀ i < m.freeLen, s'.lists i = none)

theorem GivesBack.trans {s s' s'' : State} {given given' : List Nat} (h : GivesBack s given s')
    (h' : GivesBack s' given' s'') : GivesBack s (given ++ given') s'' := by
  induction h' with
  | refl => rwa [List.append_nil]
  | back _ hc ih =>
    rw [← List.append_assoc]
    exact .back ih hc
  | count v _ ih => exact .count v ih
  | ask n _ ih => exact .ask n ih

/-! ## What one part of a recovery does -/

/-- The chunks `given` of the free lists went back; the others are where they were. -/
structure Gives (m : SlabManager) (cached : Nat → List Nat) (s : State) (given : List Nat)
    (cached' : Nat → List Nat) (s' : State) : Prop where
  books : Books m False [] cached' s'
  gives : GivesBack s given s'
  perm : (allCached m.freeLen cached).Perm (given ++ allCached m.freeLen cached')
  live : s'.live = s.live

section Parts

variable {m : SlabManager} {cached cached' cached'' : Nat → List Nat} {s s' s'' : State}
variable {given given' : List Nat} {i c n id chunkSize fuel : Nat} {cs : List Nat}

theorem Gives.refl (h : Books m False [] cached s) : Gives m cached s [] cached s :=
  ⟨h, .refl, .refl _, rfl⟩

theorem Gives.trans (h : Gives m cached s given cached' s')
    (h' : Gives m cached' s' given' cached'' s'') :
    Gives m cached s (given ++ given') cached'' s'' := by
  refine ⟨h'.books, h.gives.trans h'.gives, ?_, h'.live.trans h.live⟩
  rw [List.append_assoc]
  exact h.perm.trans (h'.perm.append_left given)

theorem Gives.count (h : Gives m cached s given cached' s') {v : SlabStat}
    (hbooks : Books m False [] cached' (s'.setStat v)) :
    Gives m cached s given cached' (s'.setStat v) :=
  ⟨hbooks, .count v h.gives, h.perm, h.live⟩

/-- The counters of recoveries are written. -/
theorem Books.setCount (h : Books m False [] cached s) (v : SlabStat) :
    Books m False [] cached (s.setStat v) :=
  ⟨⟨h.classes.1, h.classes.2, h.classes.3, h.classes.4, h.classes.5⟩, h.places,
    fun hx => hx.elim, fun hx => hx.elim⟩

/-- A chunk that is given back leaves its list; the rest is the heap and the counters. -/
theorem recoverChunk_fields (i c : Nat) (s : State) :
    (recoverChunk i c s).lists = Function.update s.lists i (s.chunk c).next ∧
      (recoverChunk i c s).live = s.live := by
  obtain ⟨w, v, heq⟩ : ∃ w v, recoverChunk i c s =
      (({ s.setFreeList i (s.chunk c).next with heap := allocatorFree c s.heap }).note w).setStat v :=
    ⟨_, _, rfl⟩
  rw [heq]
  exact ⟨lists_setFreeList s i _, rfl⟩

theorem gives_chunk (h : Books m False [] cached s) (hi : i < m.freeLen)
    (hc : cached i = c :: cs) :
    Gives m cached s [c] (Function.update cached i cs) (recoverChunk i c s) := by
  have hhead : s.lists i = some c := by
    have hlink := h.places.linked i hi
    rw [hc] at hlink
    exact hlink.1
  exact ⟨h.recoverChunk hi hc, .back .refl hhead, allCached_cons hi hc,
    (recoverChunk_fields i c s).2⟩

theorem lists_recoverChunk {j : Nat} (h : j ≠ i) (c : Nat) (s : State) :
    (recoverChunk i c s).lists j = s.lists j := by
  rw [(recoverChunk_fields i c s).1, Function.update_of_ne h]

/-- The loop over the classes above: it gives back a chunk of one of them, if there is any. -/
theorem gives_recoverAbove (h : Books m False [] cached s) (hn : i + n ≤ m.freeLen) :
    (recoverAbove n i s = none ∧ ∀ j, i ≤ j → j < i + n → s.lists j = none) ∨
      ∃ s' c cached', recoverAbove n i s = some s' ∧ Gives m cached s [c] cached' s' ∧
        ∀ j < i, s'.lists j = s.lists j := by
  induction n generalizing i with
  | zero => exact .inl ⟨rfl, fun j hlo hhi => by omega⟩
  | succ n ih =>
    have hi : i < m.freeLen := by omega
    rw [recoverAbove]
    cases hl : (s.mgr.slabclass i).freeList with
    | none =>
      rcases ih (i := i + 1) (by omega) with ⟨hnone, hempty⟩ | ⟨s', c, cached', heq, hgives, hkeep⟩
      · refine .inl ⟨hnone, fun j hlo hhi => ?_⟩
        rcases Nat.eq_or_lt_of_le hlo with rfl | hlt
        · exact hl
        · exact hempty j hlt (by omega)
      · exact .inr ⟨s', c, cached', heq, hgives, fun j hj => hkeep j (by omega)⟩
    | some c =>
      obtain ⟨cs, hc⟩ := h.head hi hl
      refine .inr ⟨_, c, _, rfl, gives_chunk h hi hc, fun j hj => ?_⟩
      exact lists_recoverChunk (by omega) c s

/-- The chunks of one class, until enough is recovered or the class is empty. -/
theorem gives_recoverClass (chunkSize : Nat) (h : Books m False [] cached s) (hi : i < m.freeLen)
    (hfuel : (cached i).length < fuel) (size : Nat) :
    ∃ left s' given cached', recoverClass i chunkSize fuel size s = some (left, s') ∧
      Gives m cached s given cached' s' ∧ (∀ j, j ≠ i → s'.lists j = s.lists j) ∧
      ((s.lists i = none ∧ given = [] ∧ left = some size ∧ s' = s) ∨
        (s.lists i ≠ none ∧ given ≠ [])) := by
  induction fuel generalizing cached s size with
  | zero => omega
  | succ fuel ih =>
    rw [recoverClass]
    cases hl : (s.mgr.slabclass i).freeList with
    | none =>
      exact ⟨_, s, [], cached, rfl, .refl h, fun _ _ => rfl, .inl ⟨hl, rfl, rfl, rfl⟩⟩
    | some c =>
      obtain ⟨cs, hc⟩ := h.head hi hl
      have hone := gives_chunk h hi hc
      have hsome : s.lists i ≠ none := by
        rw [State.lists, hl]
        exact Option.some_ne_none c
      rw [hc, List.length_cons] at hfuel
      simp only
      split
      · exact ⟨_, _, [c], _, rfl, hone, fun j hj => lists_recoverChunk hj c s,
          .inr ⟨hsome, List.cons_ne_nil c []⟩⟩
      · obtain ⟨left, s', given, cached', heq, hgives, hsame, -⟩ :=
          ih hone.books (by rw [Function.update_self]; omega) _
        refine ⟨left, s', c :: given, cached', heq, hone.trans hgives, fun j hj => ?_,
          .inr ⟨hsome, List.cons_ne_nil c given⟩⟩
        rw [hsame j hj, lists_recoverChunk hj]

/-- The loop over the classes below: unless it gives back a chunk, they are all empty. -/
theorem gives_recoverBelow (chunkSize : Nat) (h : Books m False [] cached s) (hi : i ≤ m.freeLen)
    (hfuel : total m cached < fuel) (size : Nat) (space : Bool) :
    ∃ ret s' given cached', recoverBelow chunkSize fuel i size space s = some (ret, s') ∧
      Gives m cached s given cached' s' ∧ (∀ j, i ≤ j → s'.lists j = s.lists j) ∧
      (ret = .nospace → space = false ∧ ∀ j < i, s'.lists j = none) ∧
      (given = [] → ret ≠ .nospace → space = true) := by
  induction i generalizing cached s size space with
  | zero =>
    refine ⟨_, _, [], cached, rfl, (Gives.refl h).count (h.setCount _), fun _ _ => rfl, ?_, ?_⟩
    · cases space <;> simp
    · cases space <;> simp
  | succ i ih =>
    obtain ⟨left, s₁, given, cached₁, heq, hgives, hsame, hclass⟩ :=
      gives_recoverClass chunkSize h hi ((length_le_total hi).trans_lt hfuel) size
    rw [recoverBelow, heq]
    cases left with
    | none =>
      refine ⟨.yes, s₁, given, cached₁, rfl, hgives, fun j hj => hsame j (by omega),
        fun hret => absurd hret (by decide), fun hg => ?_⟩
      rcases hclass with ⟨-, -, hleft, -⟩ | ⟨-, hne⟩
      · cases hleft
      · exact absurd hg hne
    | some left =>
      have htotal : total m cached₁ < fuel := by
        have hlen := hgives.perm.length_eq
        rw [List.length_append] at hlen
        unfold total at hfuel ⊢
        omega
      obtain ⟨ret, s', given', cached', heq', hgives', hsame', hempty, hspace⟩ :=
        ih hgives.books (by omega) htotal left (space || (s.mgr.slabclass i).freeList.isSome)
      refine ⟨ret, s', given ++ given', cached', heq', hgives.trans hgives', ?_, ?_, ?_⟩
      · intro j hj
        rw [hsame' j (by omega), hsame j (by omega)]
      · intro hret
        obtain ⟨hor, hbelow⟩ := hempty hret
        obtain ⟨hno, hlist⟩ := Bool.or_eq_false_iff.1 hor
        refine ⟨hno, fun j hj => ?_⟩
        rcases Nat.lt_succ_iff_lt_or_eq.1 hj with hlt | rfl
        · exact hbelow j hlt
        · rw [hsame' j (Nat.le_refl j)]
          rcases hclass with ⟨hnone, -, -, rfl⟩ | ⟨hsome, -⟩
          · exact hnone
          · exact absurd (Option.isSome_eq_false_iff.1 hlist) (by simpa [State.lists] using hsome)
      · intro hg hret
        obtain ⟨hg₁, hg₂⟩ := List.append_eq_nil_iff.1 hg
        have hor := hspace hg₂ hret
        rcases hclass with ⟨hnone, -⟩ | ⟨-, hne⟩
        · rw [show (s.mgr.slabclass i).freeList = none from hnone] at hor
          simpa using hor
        · exact absurd hg₁ hne

/-- A call of `shs_slabs_recover` gives back a chunk of another class, or there is none. -/
theorem gives_recover (h : Books m False [] cached s) (hid : id < m.freeLen)
    (hfuel : total m cached < fuel) (hlen : m.freeLen < 2 ^ 31) (chunkSize : Nat) :
    ∃ ret s' given cached', shsSlabsRecover fuel chunkSize id s = some (ret, s') ∧
      Gives m cached s given cached' s' ∧ s'.lists id = s.lists id ∧
      (ret = .nospace → ∀ j < m.freeLen, j ≠ id → s'.lists j = none) ∧
      (given = [] → ret = .nospace) := by
  obtain ⟨s₀, hs₀⟩ : ∃ s₀, s.setStat
      { s.mgr.slabStat with recover := sizeT (s.mgr.slabStat.recover + 1) } = s₀ := ⟨_, rfl⟩
  have hcount : Gives m cached s [] cached s₀ := by
    rw [← hs₀]
    exact (Gives.refl h).count (h.setCount _)
  have hlists : s₀.lists = s.lists := by
    rw [← hs₀]
    rfl
  have hlen₀ : s₀.mgr.freeLen = m.freeLen := hcount.books.classes.freeLen
  rw [← hlists]
  rcases gives_recoverAbove (i := id + 1) (n := m.freeLen - (id + 1)) hcount.books (by omega) with
    ⟨hnone, habove⟩ | ⟨s', c, cached', heq, hgives, hkeep⟩
  · have hrun : shsSlabsRecover fuel chunkSize id s =
        recoverBelow chunkSize fuel id 0 false s₀ := by
      rw [shsSlabsRecover_of_lt (h.classes.freeLen ▸ hid) (h.classes.freeLen ▸ hlen), hs₀]
      simp only [hlen₀, hnone]
    rw [hrun]
    obtain ⟨ret, s', given, cached', heq, hgives, hsame, hempty, hspace⟩ :=
      gives_recoverBelow chunkSize hcount.books hid.le hfuel 0 false
    refine ⟨ret, s', given, cached', heq, hcount.trans hgives, hsame id (Nat.le_refl id),
      fun hret j hj hne => ?_, fun hg => ?_⟩
    · rcases Nat.lt_or_gt_of_ne hne with hlt | hgt
      · exact (hempty hret).2 j hlt
      · rw [hsame j hgt.le]
        exact habove j hgt (by omega)
    · by_contra hret
      exact absurd (hspace hg hret) (by decide)
  · have hrun : shsSlabsRecover fuel chunkSize id s = some (.yes, s') := by
      rw [shsSlabsRecover_of_lt (h.classes.freeLen ▸ hid) (h.classes.freeLen ▸ hlen), hs₀]
      simp only [hlen₀, heq]
    rw [hrun]
    exact ⟨.yes, s', [c], cached', rfl, hcount.trans hgives, hkeep id (Nat.lt_succ_self id),
      fun hret => absurd hret (by decide), fun hg => absurd hg (List.cons_ne_nil c [])⟩

/-- The allocator is asked for a region. -/
theorem gives_ask (h : Books m False [] cached s) {n : Nat} (ha : (s.alloc n).1 = none) :
    Gives m cached s [] cached (s.alloc n).2 :=
  ⟨h.setHeap (Heap.alloc_none ha), .ask n .refl, .refl _, rfl⟩

theorem gives_allocRetry (chunkSize : Nat) (h : Books m False [] cached s) (hid : id < m.freeLen)
    (hlist : s.lists id = none) (hfuel : total m cached < fuel) (hlen : m.freeLen < 2 ^ 31) :
    ∃ ptr ret s' given, allocRetry id chunkSize fuel s = some (ptr, ret, s') ∧
      GivesBack s given s' ∧ (∃ rest, (allCached m.freeLen cached).Perm (given ++ rest)) ∧
      s'.live = s.live ∧ (ptr = none → ∀ i < m.freeLen, s'.lists i = none) := by
  induction fuel generalizing cached s with
  | zero => omega
  | succ fuel ih =>
    obtain ⟨ret, s₁, given, cached₁, heq, hgives, hkeep, hempty, hprogress⟩ :=
      gives_recover h hid hfuel hlen chunkSize
    rw [hlist] at hkeep
    rw [allocRetry, heq]
    cases ret with
    | nospace =>
      refine ⟨none, .nospace, s₁, given, rfl, hgives.gives, ⟨_, hgives.perm⟩, hgives.live,
        fun _ i hi => ?_⟩
      by_cases hi' : i = id
      · rw [hi', hkeep]
      · exact hempty rfl i hi hi'
    | yes | no =>
      have hne : given ≠ [] := fun hg => absurd (hprogress hg) (by decide)
      have hlt : total m cached₁ < total m cached := by
        have hlength := hgives.perm.length_eq
        have hpos := List.length_pos_iff.2 hne
        rw [List.length_append] at hlength
        unfold total
        omega
      rcases ha : s₁.alloc chunkSize with ⟨_ | c, s₂⟩
      · have hask := gives_ask hgives.books (congrArg Prod.fst ha)
        rw [ha] at hask
        have hturn := hgives.trans hask
        have hlists : s₂.lists = s₁.lists := congrArg (fun r => r.2.lists) ha.symm
        obtain ⟨ptr, ret, s', given', heq', hgives', ⟨rest, hperm⟩, hlive, hfail⟩ :=
          ih hask.books (by rw [hlists, hkeep]) (by omega)
        rw [List.append_nil] at hturn
        simp only [ha]
        refine ⟨ptr, ret, s', given ++ given', heq', hturn.gives.trans hgives', ⟨rest, ?_⟩,
          hlive.trans hturn.live, hfail⟩
        rw [List.append_assoc]
        exact hturn.perm.trans (hperm.append_left given)
      · simp only [ha]
        have hgot : GivesBack s given s₂ := by
          have hask := GivesBack.ask chunkSize hgives.gives
          rwa [ha] at hask
        have hlive : s₂.live = s₁.live := congrArg (fun r => r.2.live) ha.symm
        exact ⟨some c, _, s₂, given, rfl, hgot, ⟨_, hgives.perm⟩, hlive.trans hgives.live,
          fun hc => absurd hc (Option.some_ne_none c)⟩

end Parts

/-! ## Whole loops -/

theorem recovers_of_lt {m : SlabManager} (hlen : m.freeLen < 2 ^ 31) : Recovers m := by
  intro s cached id hclasses hplaces hid hlist
  have hbooks : Books m False [] cached s := ⟨hclasses, hplaces, False.elim, False.elim⟩
  have hfuel : total m cached < s.fuel := Nat.lt_succ_of_le hplaces.length_le
  obtain ⟨ptr, ret, s', given, heq, hgives, ⟨rest, hperm⟩, hlive, hfail⟩ :=
    gives_allocRetry (m.slabclass id).size hbooks hid hlist hfuel hlen
  have hnd := (List.nodup_append.1 hplaces.nodup).2.1
  have hmem : ∀ c ∈ given, c ∈ allCached m.freeLen cached :=
    fun c hc => hperm.mem_iff.2 (List.mem_append_left rest hc)
  refine ⟨ptr, ret, s', given, heq, hgives, (List.nodup_append.1 (hperm.nodup_iff.1 hnd)).1,
    fun c hc => ⟨hmem c hc, fun hl => ?_⟩, hlive, hfail⟩
  have hdisjoint := (List.nodup_append.1 hplaces.nodup).2.2
  exact hdisjoint c hl c (hmem c hc) rfl

/-- A manager without cached chunks. -/
def bareState (m : SlabManager) : State where
  mgr := { m with slabclass := fun i => { size := (m.slabclass i).size } }
  chunk := fun _ => {}
  heap := { out := [], packed := Region.packed_nil heapTop, sized := by simp }

theorem recoverAbove_none {s : State} (h : ∀ j, (s.mgr.slabclass j).freeList = none) (n i : Nat) :
    recoverAbove n i s = none := by
  induction n generalizing i with
  | zero => rfl
  | succ n ih =>
    rw [recoverAbove, h i]
    exact ih (i + 1)

/-- With too many classes the loop has no result for a manager without chunks. -/
theorem not_recovers_of_le {m : SlabManager} (hlen : 2 ^ 31 ≤ m.freeLen) : ¬ Recovers m := by
  intro h
  have hempty : allCached m.freeLen (fun _ => []) = [] := by simp [allCached]
  obtain ⟨ptr, ret, s', given, heq, -⟩ := h (bareState m) (fun _ => []) 0
    ⟨rfl, rfl, rfl, rfl, fun _ => rfl⟩
    ⟨fun _ _ => rfl, by rw [hempty]; exact .nil,
      fun c hc => absurd hc (by rw [hempty]; exact List.not_mem_nil),
      fun _ _ c hc => absurd hc List.not_mem_nil, fun c hc => absurd hc List.not_mem_nil⟩
    (by omega) rfl
  have hnone : ∀ fuel n, shsSlabsRecover fuel n 0 (bareState m) = none := by
    intro fuel n
    have hnothing : ∀ stat n i, recoverAbove n i ((bareState m).setStat stat) = none :=
      fun stat => recoverAbove_none fun _ => rfl
    unfold shsSlabsRecover
    simp only [hnothing]
    rw [if_neg (by decide)]
    exact if_pos hlen
  rw [State.fuel, allocRetry, hnone] at heq
  cases heq

/-- The retry loop does what it is for in every state of the free lists and for all answers of the
allocator exactly if an `int` can count the classes. -/
theorem recovers_iff (m : SlabManager) : Recovers m ↔ m.freeLen < 2 ^ 31 := by
  refine ⟨fun h => ?_, recovers_of_lt⟩
  by_contra hlen
  exact not_recovers_of_le (Nat.le_of_not_lt hlen) h

/-- The manager of 1 byte to 2 TiB in steps of 1024 bytes. -/
theorem steps_uncounted : ∃ m h',
    shsSlabsCreate {} slabUptypeLinear slabLinearFactor 1 (2 ^ 41)
      { out := [], answers := [some 4096, some 8192], packed := Region.packed_nil heapTop,
        sized := by simp } = (.ok m, h') ∧ ¬ Recovers m :=
  ⟨_, _, rfl, not_recovers_of_le (by decide)⟩

end Slabs
end Shs
