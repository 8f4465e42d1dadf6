import Shs.Core.ShmemClass
import Shs.Lib.Tiling

/-!
# Core.ShmemLists

The free lists of the heap in shared memory and the queue of those that are not empty. `Filed s F`
says that they hold the blocks of `F`, each in the list of its class. `removeFree` and `insertFree`
take a block out of `F` and put one into it.
-/

namespace Shs
namespace Shmem

open Queue

/-- The available queue has the free nodes `av`, in the order of their indices. -/
structure Queued (s : Shm) (av : List Nat) : Prop where
  ring : LinkedRing s.available .head (av.map .entry)
  sorted : av.Pairwise (· < ·)
  inside : ∀ i ∈ av, i < s.freeLen
  top : s.maxAvailableIndex = av.getLast?.getD s.freeLen

/-- `fl i` are the blocks in the free list of node `i`. -/
structure Filed (s : Shm) (F : Nat → Prop) (fl : Nat → List Nat) (av : List Nat) : Prop where
  lists : ∀ i < s.freeLen, LinkedRing s.free (.head i) ((fl i).map .entry)
  mem : ∀ i < s.freeLen, ∀ st, st ∈ fl i ↔ F st ∧ klass s (s.storage st).size = i
  held : ∀ st, F st → (s.storage st).freeListHead = some (klass s (s.storage st).size)
  queued : Queued s av
  nonempty : ∀ i, i ∈ av ↔ i < s.freeLen ∧ fl i ≠ []
  index : ∀ i < s.freeLen, s.index i = i
  len : 0 < s.freeLen

/-! ## The available queue -/

section Available

variable {s : Shm} {av l₁ l₂ : List Nat} {i j : Nat}

theorem entry_notMem {l : List Nat} (h : i ∉ l) :
    AvailableCell.entry i ∉ AvailableCell.head :: l.map .entry := by
  simpa using h

theorem before_map (l : List Nat) :
    LinkedRing.before AvailableCell.head (l.map .entry)
      = match l.getLast? with
        | none => AvailableCell.head
        | some j => .entry j := by
  rcases List.eq_nil_or_concat' l with rfl | ⟨l, a, rfl⟩
  · rfl
  · simp

theorem Queued.le_top (h : Queued s av) (hi : i ∈ av) :
    i ≤ s.maxAvailableIndex ∧ s.maxAvailableIndex ∈ av := by
  have hsorted := h.sorted
  rw [h.top]
  rcases List.eq_nil_or_concat' av with rfl | ⟨l, a, rfl⟩
  · simp at hi
  · rw [List.getLast?_concat, Option.getD_some]
    refine ⟨?_, by simp⟩
    rw [List.pairwise_append] at hsorted
    rcases List.mem_append.1 hi with hil | hia
    · exact (hsorted.2.2 i hil a (by simp)).le
    · exact (List.mem_singleton.1 hia).le

theorem Queued.top_eq_iff (h : Queued s av) : s.maxAvailableIndex = s.freeLen ↔ av = [] := by
  rw [h.top]
  rcases List.eq_nil_or_concat' av with rfl | ⟨l, a, rfl⟩
  · simp
  · have ha := h.inside a (by simp)
    simp only [List.getLast?_concat, Option.getD_some]
    exact iff_of_false (by omega) (by simp)

theorem Queued.length_le (h : Queued s av) : av.length ≤ s.freeLen := by
  have hnd : av.Nodup := h.sorted.imp fun hlt => Nat.ne_of_lt hlt
  have hsub : av ⊆ List.range s.freeLen := fun i hi => List.mem_range.2 (h.inside i hi)
  have := (List.subperm_of_subset hnd hsub).length_le
  rwa [List.length_range] at this

/-- The loop over the available queue. -/
theorem Queued.find (h : Queued s av) (p : AvailableCell → Bool) :
    queueFind .head p s.available (s.freeLen + 1) (queueHead s.available .head)
      = some ((av.find? fun j => p (.entry j)).map .entry) := by
  have hring : LinkedRing s.available .head ([] ++ av.map .entry) := h.ring
  rw [queueHead_ring h.ring, queueFind_ring hring, List.find?_map]
  · rfl
  · have := h.length_le
    rw [List.length_map]
    omega

theorem dropAvailable_spec (h : Queued s (l₁ ++ i :: l₂))
    (hindex : ∀ j ∈ l₁, s.index j = j) :
    ∃ top available, dropAvailable i s
        = some { s with maxAvailableIndex := top, available := available } ∧
      Queued { s with maxAvailableIndex := top, available := available } (l₁ ++ l₂) := by
  have hring := h.ring
  rw [List.map_append, List.map_cons] at hring
  obtain ⟨hremove, hring'⟩ := queueRemove_ring hring
  rw [← List.map_append] at hring'
  have hsorted : (l₁ ++ l₂).Pairwise (· < ·) :=
    h.sorted.sublist ((List.sublist_cons_self i l₂).append_left l₁)
  have hinside : ∀ j ∈ l₁ ++ l₂, j < s.freeLen := by
    intro j hj
    refine h.inside j ?_
    rcases List.mem_append.1 hj with hj | hj
    · exact List.mem_append_left _ hj
    · exact List.mem_append_right _ (List.mem_cons_of_mem i hj)
  have htop := h.top
  rcases List.eq_nil_or_concat' l₂ with rfl | ⟨l, a, rfl⟩
  · -- `i` is the last free node
    rw [List.getLast?_concat, Option.getD_some] at htop
    have hprev : s.available.prev (.entry i) = some (LinkedRing.before .head (l₁.map .entry)) :=
      hring.joined_before.2
    rw [before_map] at hprev
    simp only [List.map_nil] at hremove hring'
    have hwithout : topWithout i s = some (l₁.getLast?.getD s.freeLen) := by
      rw [topWithout, if_pos htop.symm, hprev]
      cases hlast : l₁.getLast? with
      | none => rfl
      | some j => exact congrArg some (hindex j (List.mem_of_getLast? hlast))
    refine ⟨l₁.getLast?.getD s.freeLen, _, ?_, hring', hsorted, hinside, by simp⟩
    rw [dropAvailable, hwithout, hremove]
    rfl
  · have hlast : (l₁ ++ i :: (l ++ [a])).getLast? = some a := by
      rw [show l₁ ++ i :: (l ++ [a]) = (l₁ ++ i :: l) ++ [a] by simp, List.getLast?_concat]
    have hne : i ≠ s.maxAvailableIndex := by
      have hlt := (List.pairwise_append.1 h.sorted).2.1
      rw [List.pairwise_cons] at hlt
      have := hlt.1 a (by simp)
      rw [htop, hlast, Option.getD_some]
      omega
    refine ⟨s.maxAvailableIndex, _, ?_, hring', hsorted, hinside, ?_⟩
    · rw [dropAvailable, topWithout, if_neg hne, hremove]
      rfl
    · show s.maxAvailableIndex = (l₁ ++ (l ++ [a])).getLast?.getD s.freeLen
      rw [htop, hlast, ← List.append_assoc, List.getLast?_concat]

theorem addAvailable_spec (h : Queued s av) (hi : i < s.freeLen) (hni : i ∉ av)
    (hindex : ∀ j < s.freeLen, s.index j = j) :
    ∃ top available av', addAvailable i s
        = some { s with maxAvailableIndex := top, available := available } ∧
      Queued { s with maxAvailableIndex := top, available := available } av' ∧
      ∀ j, j ∈ av' ↔ j = i ∨ j ∈ av := by
  have hlarger :
      (fun j => AvailableCell.below i s (.entry j)) = fun j => decide (i < s.index j) := rfl
  rw [addAvailable, h.find, hlarger]
  cases hfind : av.find? fun j => decide (i < s.index j) with
  | some j =>
    obtain ⟨hlt, l₁, l₂, rfl, hbefore⟩ := List.find?_eq_some_iff_append.1 hfind
    have hj := hindex j (h.inside j (by simp))
    have hij : i < j := by simpa [hj] using hlt
    have hring := h.ring
    rw [List.map_append, List.map_cons] at hring
    have hout := entry_notMem hni
    rw [List.map_append, List.map_cons] at hout
    obtain ⟨hinsert, hring'⟩ := queueInsertBefore_ring hring hout
    refine ⟨s.maxAvailableIndex,
      s.available.between (LinkedRing.before .head (l₁.map .entry)) (.entry i) (.entry j),
      l₁ ++ i :: j :: l₂, ?_, ⟨?_, ?_, ?_, ?_⟩, ?_⟩
    · simp [hinsert]
    · simpa using hring'
    · obtain ⟨h₁, h₂, h₁₂⟩ := List.pairwise_append.1 h.sorted
      refine List.pairwise_append.2 ⟨h₁, List.pairwise_cons.2 ⟨fun x hx => ?_, h₂⟩, ?_⟩
      · rcases List.mem_cons.1 hx with rfl | hx
        · exact hij
        · exact hij.trans ((List.pairwise_cons.1 h₂).1 x hx)
      · intro x hx y hy
        rcases List.mem_cons.1 hy with rfl | hy
        · have hle : ¬y < s.index x := by simpa using hbefore x hx
          rw [hindex x (h.inside x (by simp [hx]))] at hle
          have hne : x ≠ y := by
            rintro rfl
            exact hni (by simp [hx])
          omega
        · exact h₁₂ x hx y hy
    · intro x hx
      simp only [List.mem_append, List.mem_cons] at hx
      rcases hx with hx | rfl | hx
      · exact h.inside x (by simp [hx])
      · exact hi
      · exact h.inside x (by simp [hx])
    · rw [h.top]
      simp [List.getLast?_append, List.getLast?_cons_cons]
    · intro x
      simp only [List.mem_append, List.mem_cons]
      tauto
  | none =>
    have hbefore : ∀ x ∈ av, x < i := by
      intro x hx
      have hle : ¬i < s.index x := by simpa using List.find?_eq_none.1 hfind x hx
      rw [hindex x (h.inside x hx)] at hle
      have hne : x ≠ i := by
        rintro rfl
        exact hni hx
      omega
    obtain ⟨hinsert, hring'⟩ := queueInsertTail_ring h.ring (entry_notMem hni)
    refine ⟨i, s.available.between (LinkedRing.before .head (av.map .entry)) (.entry i) .head,
      av ++ [i], ?_, ⟨?_, ?_, ?_, ?_⟩, ?_⟩
    · simp [hinsert, hindex i hi]
    · simpa using hring'
    · refine List.pairwise_append.2 ⟨h.sorted, List.pairwise_singleton _ i, ?_⟩
      intro x hx y hy
      rw [List.mem_singleton.1 hy]
      exact hbefore x hx
    · intro x hx
      rcases List.mem_append.1 hx with hx | hx
      · exact h.inside x hx
      · rwa [List.mem_singleton.1 hx]
    · simp
    · intro x
      simp only [List.mem_append, List.mem_singleton]
      exact or_comm

end Available

/-! ## The lists -/

/-- Only the list links and the `free_list_head` of block `st` change. -/
structure Relisted (st : Nat) (s s' : Shm) : Prop where
  params : SameParams s s'
  order : s'.order = s.order
  stat : s'.shmemStat = s.shmemStat
  others : ∀ x, x ≠ st → s'.storage x = s.storage x
  alloc : ∀ x, (s'.storage x).alloc = (s.storage x).alloc
  size : ∀ x, (s'.storage x).size = (s.storage x).size
  actSize : ∀ x, (s'.storage x).actSize = (s.storage x).actSize

theorem relisted_setStorage (st : Nat) (p : Option Nat) (s : Shm) (top : Nat)
    (free : Links FreeCell) (available : Links AvailableCell) :
    Relisted st s (Shm.setStorage
      { s with free := free, maxAvailableIndex := top, available := available } st
      { s.storage st with freeListHead := p }) := by
  have hother : ∀ x, x ≠ st → Function.update s.storage st { s.storage st with freeListHead := p } x
      = s.storage x := fun x hx => Function.update_of_ne hx _ _
  refine ⟨⟨rfl, rfl, rfl, rfl, rfl, rfl, rfl, rfl, rfl⟩, rfl, rfl, hother, ?_, ?_, ?_⟩
  all_goals
    intro x
    by_cases hx : x = st
    · subst hx
      simp [Shm.setStorage]
    · exact congrArg _ (hother x hx)

section Lists

variable {s : Shm} {F : Nat → Prop} {fl : Nat → List Nat} {av : List Nat} {i j st x : Nat}

/-- The class that `shs_shmem_remove_free` looks up is that of the list the block is in. -/
theorem Filed.index_eq (h : Filed s F fl av) (hst : F st) :
    (if getInsertIndex s (s.storage st).size > s.maxAvailableIndex then s.maxAvailableIndex
      else getInsertIndex s (s.storage st).size) = klass s (s.storage st).size := by
  have hlt := klass_lt h.len (s.storage st).size
  have hmem := (h.mem _ hlt st).2 ⟨hst, rfl⟩
  have hav := (h.nonempty _).2 ⟨hlt, List.ne_nil_of_mem hmem⟩
  obtain ⟨hle, htop⟩ := h.queued.le_top hav
  have htop := h.queued.inside _ htop
  unfold klass at hle ⊢
  split
  · omega
  · omega

/-- A block is in one list only. -/
theorem Filed.disjoint (h : Filed s F fl av) (hi : i < s.freeLen) (hj : j < s.freeLen)
    (hij : i ≠ j) {c : FreeCell} (hc : c ∈ FreeCell.head i :: (fl i).map .entry) :
    c ∉ FreeCell.head j :: (fl j).map .entry := by
  intro hc'
  rcases List.mem_cons.1 hc with rfl | hc
  · simp [hij] at hc'
  · obtain ⟨x, hx, rfl⟩ := List.mem_map.1 hc
    have hx' : x ∈ fl j := by simpa using hc'
    exact hij (((h.mem i hi x).1 hx).2.symm.trans ((h.mem j hj x).1 hx').2)

theorem Filed.nodup (h : Filed s F fl av) (hi : i < s.freeLen) : (fl i).Nodup :=
  List.Nodup.of_map _ (h.lists i hi).nodup_tail

/-- `st` leaves its list. -/
theorem Filed.removeFree (h : Filed s F fl av) (hst : F st) :
    ∃ s' fl' av', removeFree st s = some (true, s') ∧
      Filed s' (fun x => F x ∧ x ≠ st) fl' av' ∧ Relisted st s s' := by
  have hk := klass_lt h.len (s.storage st).size
  have hclass := h.index_eq hst
  have hheld := h.held st hst
  obtain ⟨l₁, l₂, hl⟩ := List.append_of_mem ((h.mem _ hk st).2 ⟨hst, rfl⟩)
  have hring := h.lists _ hk
  rw [hl, List.map_append, List.map_cons] at hring
  obtain ⟨hremove, hring'⟩ := queueRemove_ring hring
  rw [← List.map_append] at hring'
  generalize hkk : klass s (s.storage st).size = k at *
  generalize hfree : s.free.without _ _ _ = free at hremove hring'
  have hmemk : ∀ x, x ∈ l₁ ++ l₂ ↔ x ∈ fl k ∧ x ≠ st := by
    intro x
    have hnd := h.nodup hk
    rw [hl, List.nodup_middle, List.nodup_cons] at hnd
    rw [hl]
    simp only [List.mem_append, List.mem_cons] at hnd ⊢
    constructor
    · intro hx
      refine ⟨by tauto, ?_⟩
      rintro rfl
      exact hnd.1 hx
    · tauto
  -- the queue of the free nodes
  have hrest : ∃ top available av', leaveAvailable k { s with free := free }
        = some { s with free := free, maxAvailableIndex := top, available := available } ∧
      Queued { s with free := free, maxAvailableIndex := top, available := available } av' ∧
      ∀ i, i ∈ av' ↔ i ∈ av ∧ (i = k → l₁ ++ l₂ ≠ []) := by
    have hempty := queueEmpty_iff hring'
    rw [List.map_eq_nil_iff] at hempty
    have hqueued : Queued { s with free := free } av :=
      ⟨h.queued.1, h.queued.2, h.queued.3, h.queued.4⟩
    unfold leaveAvailable
    by_cases hnil : l₁ ++ l₂ = []
    · rw [if_pos (hempty.2 hnil)]
      have hkav := (h.nonempty k).2 ⟨hk, by simp [hl]⟩
      obtain ⟨a₁, a₂, rfl⟩ := List.append_of_mem hkav
      obtain ⟨top, available, hdrop, hqueued'⟩ := dropAvailable_spec hqueued fun j hj =>
        h.index j (h.queued.inside j (List.mem_append_left _ hj))
      refine ⟨top, available, a₁ ++ a₂, hdrop, hqueued', fun i => ?_⟩
      have hnd : (a₁ ++ k :: a₂).Nodup := h.queued.sorted.imp fun hlt => Nat.ne_of_lt hlt
      rw [List.nodup_middle, List.nodup_cons] at hnd
      simp only [List.mem_append, List.mem_cons, hnil, ne_eq, not_true, imp_false] at hnd ⊢
      constructor
      · intro hi
        refine ⟨by tauto, ?_⟩
        rintro rfl
        exact hnd.1 hi
      · tauto
    · rw [if_neg fun he => hnil (hempty.1 he)]
      exact ⟨_, _, av, rfl, hqueued, fun i => by simp [hnil]⟩
  obtain ⟨top, available, av', hdrop, hqueued, hav⟩ := hrest
  have hrelisted := relisted_setStorage st none s top free available
  refine ⟨_, Function.update fl k (l₁ ++ l₂), av', ?_, ?_, hrelisted⟩
  · simp only [Shmem.removeFree, hclass, hheld, hremove, hdrop, ne_eq, not_true, if_false,
      Option.bind_eq_bind, Option.bind_some]
    rfl
  have hmem : ∀ i < s.freeLen, ∀ x, x ∈ Function.update fl k (l₁ ++ l₂) i ↔
      (F x ∧ x ≠ st) ∧ klass s (s.storage x).size = i := by
    intro i hi x
    by_cases hik : i = k
    · subst hik
      rw [Function.update_self, hmemk, h.mem i hk]
      tauto
    · rw [Function.update_of_ne hik, h.mem i hi]
      constructor
      · rintro ⟨hx, rfl⟩
        refine ⟨⟨hx, ?_⟩, rfl⟩
        rintro rfl
        exact hik hkk
      · rintro ⟨⟨hx, -⟩, rfl⟩
        exact ⟨hx, rfl⟩
  refine ⟨?_, ?_, ?_, ⟨hqueued.1, hqueued.2, hqueued.3, hqueued.4⟩, ?_, h.index, h.len⟩
  · intro i hi
    by_cases hik : i = k
    · subst hik
      rw [Function.update_self]
      exact hring'
    · rw [Function.update_of_ne hik]
      have hout : ∀ c ∈ FreeCell.head k :: (fl k).map .entry,
          c ∉ FreeCell.head i :: (fl i).map .entry :=
        fun c hc => h.disjoint hk hi (Ne.symm hik) hc
      rw [hl, List.map_append, List.map_cons] at hout
      rw [← hfree]
      refine (h.lists i hi).frame_without ?_ ?_ ?_
      · exact hout _ (LinkedRing.before_mem_cons _)
      · exact hout _ (by simp)
      · refine hout _ ?_
        rw [List.append_cons]
        exact LinkedRing.after_mem_cons _
  · intro i hi x
    rw [hrelisted.params.klass, hrelisted.size]
    exact hmem i hi x
  · rintro x ⟨hx, hne⟩
    rw [hrelisted.params.klass, hrelisted.others x hne]
    exact h.held x hx
  · intro i
    rw [hav, h.nonempty]
    show _ ↔ i < s.freeLen ∧ _
    by_cases hik : i = k
    · subst hik
      rw [Function.update_self, hl]
      simp [hk]
    · rw [Function.update_of_ne hik]
      simp [hik]

/-- `st` enters the list of its class. -/
theorem Filed.insertFree (h : Filed s F fl av) (hst : ¬F st)
    (halloc : (s.storage st).alloc = false) :
    ∃ s' fl' av', insertFree st s = some s' ∧ Filed s' (fun x => F x ∨ x = st) fl' av' ∧
      Relisted st s s' := by
  have hk := klass_lt h.len (s.storage st).size
  have hclass := klass_eq s (s.storage st).size
  have hnot : st ∉ fl (klass s (s.storage st).size) := fun hmem => hst ((h.mem _ hk st).1 hmem).1
  generalize hkk : klass s (s.storage st).size = k at *
  have hring := h.lists k hk
  have hout : FreeCell.entry st ∉ FreeCell.head k :: (fl k).map .entry := by simpa using hnot
  obtain ⟨hinsert, hring'⟩ := queueInsertHead_ring hring hout
  rw [← List.map_cons] at hring'
  generalize hfree : s.free.between _ _ _ = free at hinsert hring'
  let s₁ := s.setStorage st { s.storage st with freeListHead := some k }
  -- the queue of the free nodes
  have hrest : ∃ top available av', enterAvailable k s₁
        = some { s₁ with maxAvailableIndex := top, available := available } ∧
      Queued { s₁ with maxAvailableIndex := top, available := available } av' ∧
      ∀ i, i ∈ av' ↔ i = k ∨ i ∈ av := by
    have hempty : queueEmpty s₁.free (.head k) = true ↔ (fl k).map FreeCell.entry = [] :=
      queueEmpty_iff hring
    rw [List.map_eq_nil_iff] at hempty
    have hqueued : Queued s₁ av := ⟨h.queued.1, h.queued.2, h.queued.3, h.queued.4⟩
    unfold enterAvailable
    by_cases hnil : fl k = []
    · rw [if_pos (hempty.2 hnil)]
      exact addAvailable_spec hqueued hk (fun hav => ((h.nonempty k).1 hav).2 hnil) h.index
    · rw [if_neg fun he => hnil (hempty.1 he)]
      refine ⟨_, _, av, rfl, hqueued, fun i => ⟨.inr, ?_⟩⟩
      rintro (rfl | hi)
      · exact (h.nonempty i).2 ⟨hk, hnil⟩
      · exact hi
  obtain ⟨top, available, av', henter, hqueued, hav⟩ := hrest
  have hrelisted := relisted_setStorage st (some k) s top free available
  refine ⟨_, Function.update fl k (st :: fl k), av', ?_, ?_, hrelisted⟩
  · rw [Shmem.insertFree, if_neg (by simp [halloc])]
    simp only [hclass]
    show (enterAvailable k s₁).bind _ = _
    rw [henter, Option.bind_some]
    show (queueInsertHead (.head k) (.entry st) s.free).bind _ = _
    rw [hinsert]
    rfl
  have hmem : ∀ i < s.freeLen, ∀ x, x ∈ Function.update fl k (st :: fl k) i ↔
      (F x ∨ x = st) ∧ klass s (s.storage x).size = i := by
    intro i hi x
    by_cases hik : i = k
    · subst hik
      rw [Function.update_self, List.mem_cons, h.mem i hk]
      constructor
      · rintro (rfl | ⟨hx, hxk⟩)
        · exact ⟨.inr rfl, hkk⟩
        · exact ⟨.inl hx, hxk⟩
      · tauto
    · rw [Function.update_of_ne hik, h.mem i hi]
      constructor
      · rintro ⟨hx, rfl⟩
        exact ⟨.inl hx, rfl⟩
      · rintro ⟨hx | rfl, rfl⟩
        · exact ⟨hx, rfl⟩
        · exact absurd hkk hik
  refine ⟨?_, ?_, ?_, ⟨hqueued.1, hqueued.2, hqueued.3, hqueued.4⟩, ?_, h.index, h.len⟩
  · intro i hi
    by_cases hik : i = k
    · subst hik
      rw [Function.update_self]
      exact hring'
    · rw [Function.update_of_ne hik]
      have hout : ∀ c ∈ FreeCell.head k :: (fl k).map .entry,
          c ∉ FreeCell.head i :: (fl i).map .entry :=
        fun c hc => h.disjoint hk hi (Ne.symm hik) hc
      rw [← hfree]
      refine (h.lists i hi).frame_between ?_ ?_ ?_
      · exact hout _ List.mem_cons_self
      · have hx : st ∉ fl i := fun hx => hst ((h.mem i hi st).1 hx).1
        simpa using hx
      · exact hout _ (LinkedRing.after_mem_cons [])
  · intro i hi x
    rw [hrelisted.params.klass, hrelisted.size]
    exact hmem i hi x
  · intro x hx
    rw [hrelisted.params.klass]
    by_cases hne : x = st
    · subst hne
      rw [hrelisted.size, hkk]
      simp [Shm.setStorage]
    · rw [hrelisted.others x hne]
      exact h.held x (hx.resolve_right hne)
  · intro i
    rw [hav, h.nonempty]
    show _ ↔ i < s.freeLen ∧ _
    by_cases hik : i = k
    · subst hik
      rw [Function.update_self]
      simp [hk]
    · rw [Function.update_of_ne hik]
      simp [hik]

end Lists

end Shmem
end Shs
