import Shs.Core.ShmemInv

/-!
# Core.ShmemFree

`shs_shmem_free` keeps the invariant of the heap. The block is in hand from the moment its flag is
cleared until it enters a free list. In between it takes in its free neighbours.
-/

namespace Shs
namespace Shmem

open Queue

/-- Two neighbours are neither handed out nor in a free list. -/
structure BothInHand (s : Shm) (xs : List Nat) (a b : Nat) (ys : List Nat) (fl : Nat → List Nat)
    (av : List Nat) : Prop where
  accepted : Accepted s
  layout : Layout s (xs ++ a :: b :: ys)
  counted : Counted s (xs ++ a :: b :: ys)
  first : (s.storage a).alloc = false
  second : (s.storage b).alloc = false
  left : xs.IsChain (Parted s)
  right : ys.IsChain (Parted s)
  filed : Filed s (Free s (xs ++ ys)) fl av

/-- What the union of `a` and the block behind it leaves as it is. -/
structure Merged (s s' : Shm) (a b : Nat) : Prop where
  params : SameParams s s'
  merged : s'.storage a =
    { s.storage a with size := (s.storage a).size + ((s.storage b).size + storageSize) }
  others : ∀ x, x ≠ a → s'.storage x = s.storage x
  free : s'.free = s.free
  available : s'.available = s.available
  top : s'.maxAvailableIndex = s.maxAvailableIndex
  used : s'.shmemStat.usedSize = s.shmemStat.usedSize
  reqs : s'.shmemStat.reqsSize = s.shmemStat.reqsSize

section Merge

variable {s : Shm} {xs ys blocks : List Nat} {fl : Nat → List Nat} {av : List Nat}
variable {st a b x : Nat}

theorem Layout.mergeNext (h : Layout s (xs ++ a :: b :: ys)) :
    ∃ s', mergeNext a b s = some s' ∧ Layout s' (xs ++ a :: ys) ∧ Merged s s' a b := by
  have htiles := h.tiles
  have htotal := h.total_lt
  have hsecond := htiles.next_eq
  have hfits : a + blockLen s a + blockLen s b ≤ s.shmemStat.totalSize := by
    have hb := (htiles.inside (by simp : b ∈ xs ++ a :: b :: ys)).2
    omega
  simp only [blockLen] at hfits
  have hsize : sizeT ((s.storage a).size + sizeT ((s.storage b).size + storageSize))
      = (s.storage a).size + ((s.storage b).size + storageSize) := by
    rw [sizeT_of_lt (by omega : (s.storage b).size + storageSize < 2 ^ 64), sizeT_of_lt (by omega)]
  have hnot : a ∉ xs ++ ys := by
    have hnd := h.nodup
    rw [List.nodup_middle, List.nodup_cons] at hnd
    simp only [List.mem_append, List.mem_cons] at hnd ⊢
    tauto
  have hring := h.order
  rw [show xs ++ a :: b :: ys = (xs ++ [a]) ++ b :: ys by simp, List.map_append,
    List.map_cons] at hring
  obtain ⟨hremove, hring'⟩ := queueRemove_ring hring
  rw [← List.map_append] at hring'
  let order := s.order.without (LinkedRing.before .head ((xs ++ [a]).map .entry)) (.entry b)
    (LinkedRing.after .head (ys.map .entry))
  obtain ⟨count, hc⟩ : ∃ count, subSizeT s.shmemStat.stCount 1 = count := ⟨_, rfl⟩
  let s' : Shm := { s.setStorage a { s.storage a with
      size := (s.storage a).size + ((s.storage b).size + storageSize) } with
    order := order
    shmemStat := { s.shmemStat with stCount := count } }
  have hself : s'.storage a = { s.storage a with
      size := (s.storage a).size + ((s.storage b).size + storageSize) } := Function.update_self ..
  have hother : ∀ x, x ≠ a → s'.storage x = s.storage x := fun x hx => Function.update_of_ne hx _ _
  have hlen : ∀ x ∈ xs ++ ys, blockLen s' x = blockLen s x := by
    intro x hx
    have hxa : x ≠ a := by
      rintro rfl
      exact hnot hx
    rw [blockLen, blockLen, hother x hxa]
  have hparams : SameParams s s' := sameParams_update ..
  refine ⟨s', ?_, ⟨?_, ?_, ?_, ?_⟩, ⟨hparams, hself, hother, rfl, rfl, rfl, rfl, rfl⟩⟩
  · subst hc
    simp only [Shmem.mergeNext, hsize]
    show (queueRemove (.entry b) s.order).bind _ = _
    rw [hremove]
    rfl
  · have happend : xs ++ a :: ys = (xs ++ [a]) ++ ys := by simp
    rw [happend]
    exact hring'
  · refine htiles.merge (fun x hx => hlen x (List.mem_append_left _ hx))
      (fun x hx => hlen x (List.mem_append_right _ hx)) ?_
    rw [blockLen, hself, blockLen, blockLen]
    show storageSize + ((s.storage a).size + ((s.storage b).size + storageSize)) = _
    omega
  · rw [hparams.totalSize]
    exact htotal
  · have hcount := h.count
    have hlength := length_lt htiles htotal
    show count = _
    rw [← hc]
    simp only [List.length_append, List.length_cons] at hcount hlength ⊢
    rw [subSizeT_of_le (by omega) (by omega)]
    omega

theorem BothInHand.merge (h : BothInHand s xs a b ys fl av) :
    ∃ s', mergeNext a b s = some s' ∧ InHand s' xs a ys fl av ∧ SameParams s s' ∧
      ∀ x ∈ xs ++ ys, s'.storage x = s.storage x := by
  obtain ⟨s', hmerge, hlayout, hmerged⟩ := h.layout.mergeNext
  have hnot := notMem_of_layout hlayout
  have hother : ∀ x ∈ xs ++ ys, s'.storage x = s.storage x := by
    intro x hx
    refine hmerged.others x ?_
    rintro rfl
    exact hnot hx
  have hunused : (s'.storage a).alloc = false := by
    rw [hmerged.merged]
    exact h.first
  have hsum : ∀ f : Storage → Nat, allocated f s' (xs ++ a :: ys)
      = allocated f s (xs ++ a :: b :: ys) := by
    intro f
    have hrest : allocated f s' (xs ++ ys) = allocated f s (xs ++ ys) :=
      allocated_congr fun x hx => by
        rw [hother x hx]
        exact ⟨rfl, rfl⟩
    rw [allocated_middle, allocated_middle, allocated_middle, if_neg (by simp [hunused]),
      if_neg (by simp [h.second]), if_neg (by simp [h.first]), hrest]
  have hmono : ∀ x ∈ xs ++ ys, (s.storage x).alloc = true → (s'.storage x).alloc = true := by
    intro x hx halloc
    rw [hother x hx, halloc]
  refine ⟨s', hmerge, ⟨hmerged.params.accepted h.accepted, hlayout, ⟨?_, ?_, ?_⟩, hunused,
    isChain_mono h.left fun x hx => hmono x (List.mem_append_left _ hx),
    isChain_mono h.right fun x hx => hmono x (List.mem_append_right _ hx), ?_⟩, hmerged.params,
    hother⟩
  · rw [hsum, hmerged.used, h.counted.used]
  · rw [hsum, hmerged.reqs, h.counted.reqs]
  · intro x hx halloc
    have hxa : x ≠ a := by
      rintro rfl
      rw [hunused] at halloc
      cases halloc
    have hmem : x ∈ xs ++ ys := by
      simp only [List.mem_append, List.mem_cons] at hx ⊢
      tauto
    rw [hother x hmem] at halloc ⊢
    refine h.counted.act x ?_ halloc
    simp only [List.mem_append, List.mem_cons] at hmem ⊢
    tauto
  · refine h.filed.congr hmerged.params (fun i hi => ?_) hmerged.available hmerged.top
      (fun x hx => ?_) fun x => ?_
    · rw [hmerged.free]
      exact h.filed.lists i hi
    · rw [hother x hx.1]
      exact ⟨rfl, rfl⟩
    · refine and_congr_right fun hx => ?_
      rw [hother x hx]

end Merge

section Free

variable {s : Shm} {xs ys blocks : List Nat} {fl : Nat → List Nat} {av : List Nat}
variable {st next prev x : Nat}

theorem InHand.busy (h : InHand s xs st ys fl av) (x : Nat) :
    Busy s (xs ++ st :: ys) x ↔ Busy s (xs ++ ys) x := by
  simp only [Busy, List.mem_append, List.mem_cons]
  constructor
  · rintro ⟨hx, halloc⟩
    refine ⟨?_, halloc⟩
    rcases hx with hx | rfl | hx
    · exact .inl hx
    · rw [h.unused] at halloc
      cases halloc
    · exact .inr hx
  · tauto

/-- The block comes back, and is in hand. -/
theorem Heap.takeBack (h : Heap s (xs ++ st :: ys) fl av) (hst : (s.storage st).alloc = true) :
    InHand (takeBack st s) xs st ys fl av ∧ SameParams s (takeBack st s) ∧
      ∀ x ∈ xs ++ ys, (takeBack st s).storage x = s.storage x := by
  have hnot := notMem_of_layout h.layout
  have hused := h.counted.used
  have hreqs := h.counted.reqs
  have hact := h.counted.act st (by simp) hst
  have hsum := h.layout.tiles.sum
  have hbound := allocated_le_sum s (xs ++ st :: ys)
  have htotal := h.layout.total_lt
  have hrest : allocated (·.actSize) s (xs ++ ys) ≤ allocated (·.size) s (xs ++ ys) :=
    allocated_le fun x hx => h.counted.act x (by
      simp only [List.mem_append, List.mem_cons] at hx ⊢
      tauto)
  rw [allocated_middle, if_pos hst] at hused hreqs hbound
  obtain ⟨used, hused'⟩ : ∃ used, subSizeT s.shmemStat.usedSize (s.storage st).size = used :=
    ⟨_, rfl⟩
  obtain ⟨reqs, hreqs'⟩ : ∃ reqs, subSizeT s.shmemStat.reqsSize (s.storage st).actSize = reqs :=
    ⟨_, rfl⟩
  let s' : Shm := { s with
    shmemStat := { s.shmemStat with usedSize := used, reqsSize := reqs }
    storage := Function.update s.storage st { s.storage st with alloc := false } }
  have hs' : Shmem.takeBack st s = s' := by
    subst hused' hreqs'
    rfl
  rw [subSizeT_of_le (by omega) (by omega)] at hused' hreqs'
  have hparams : SameParams s s' := sameParams_update ..
  have hself : s'.storage st = { s.storage st with alloc := false } := Function.update_self ..
  have hother : ∀ x ∈ xs ++ ys, s'.storage x = s.storage x := by
    intro x hx
    refine Function.update_of_ne ?_ _ _
    rintro rfl
    exact hnot hx
  have hunused : (s'.storage st).alloc = false := by rw [hself]
  have hmono : ∀ x ∈ xs ++ ys, (s.storage x).alloc = true → (s'.storage x).alloc = true := by
    intro x hx halloc
    rw [hother x hx, halloc]
  have hsum' : ∀ f : Storage → Nat, allocated f s' (xs ++ st :: ys) = allocated f s (xs ++ ys) := by
    intro f
    rw [allocated_middle, if_neg (by simp [hunused])]
    exact allocated_congr fun x hx => by
      rw [hother x hx]
      exact ⟨rfl, rfl⟩
  obtain ⟨hl, hr⟩ := h.chains
  rw [hs']
  refine ⟨⟨hparams.accepted h.accepted, h.layout.congr hparams rfl rfl fun x _ => ?_, ⟨?_, ?_, ?_⟩,
    hunused, isChain_mono hl fun x hx => hmono x (List.mem_append_left _ hx),
    isChain_mono hr fun x hx => hmono x (List.mem_append_right _ hx), ?_⟩, hparams, hother⟩
  · by_cases hx : x = st
    · rw [hx, hself]
    · rw [show s'.storage x = s.storage x from Function.update_of_ne hx _ _]
  · rw [hsum']
    show used = _
    omega
  · rw [hsum']
    show reqs = _
    omega
  · intro x hx halloc
    have hxst : x ≠ st := by
      rintro rfl
      rw [hunused] at halloc
      cases halloc
    rw [show s'.storage x = s.storage x from Function.update_of_ne hxst _ _] at halloc ⊢
    exact h.counted.act x hx halloc
  · refine h.filed.congr hparams h.filed.lists rfl rfl (fun x hx => ?_) fun x => ?_
    · have hxst : x ≠ st := by
        rintro rfl
        have hfree := hx.2
        rw [hst] at hfree
        cases hfree
      rw [show s'.storage x = s.storage x from Function.update_of_ne hxst _ _]
      exact ⟨rfl, rfl⟩
    · simp only [Shmem.Free]
      constructor
      · rintro ⟨hx, hfree⟩
        rw [hother x hx] at hfree
        refine ⟨?_, hfree⟩
        simp only [List.mem_append, List.mem_cons] at hx ⊢
        tauto
      · rintro ⟨hx, hfree⟩
        have hmem : x ∈ xs ++ ys := by
          simp only [List.mem_append, List.mem_cons] at hx ⊢
          rcases hx with hx | rfl | hx
          · exact .inl hx
          · rw [hst] at hfree
            cases hfree
          · exact .inr hx
        exact ⟨hmem, by rw [hother x hmem, hfree]⟩

/-- A free neighbour leaves its list, and both blocks are in hand. -/
theorem InHand.takeNext (h : InHand s xs st (next :: ys) fl av)
    (hnext : (s.storage next).alloc = false) :
    ∃ s' fl' av', removeFree next s = some (true, s') ∧ BothInHand s' xs st next ys fl' av' ∧
      Relisted next s s' := by
  obtain ⟨s', fl', av', hremove, hfiled, hrel⟩ := h.filed.removeFree ⟨by simp, hnext⟩
  have hnot : next ∉ xs ++ ys := by
    have hnd := h.layout.nodup
    rw [List.append_cons, List.nodup_middle, List.nodup_cons] at hnd
    simp only [List.mem_append, List.mem_cons] at hnd ⊢
    tauto
  refine ⟨s', fl', av', hremove, ⟨hrel.params.accepted h.accepted, hrel.layout h.layout,
    hrel.counted h.counted, by rw [hrel.alloc, h.unused], by rw [hrel.alloc, hnext],
    hrel.chain h.left, hrel.chain h.right.tail, ?_⟩, hrel⟩
  refine hfiled.congr ⟨rfl, rfl, rfl, rfl, rfl, rfl, rfl, rfl, rfl⟩ hfiled.lists rfl rfl
    (fun _ _ => ⟨rfl, rfl⟩) fun x => ?_
  rw [hrel.free, Shmem.Free, Shmem.Free]
  simp only [List.mem_append, List.mem_cons] at hnot ⊢
  constructor
  · rintro ⟨hx, hfree⟩
    refine ⟨⟨by tauto, hfree⟩, ?_⟩
    rintro rfl
    exact hnot hx
  · tauto

theorem InHand.takePrev (h : InHand s (xs ++ [prev]) st ys fl av)
    (hprev : (s.storage prev).alloc = false) :
    ∃ s' fl' av', removeFree prev s = some (true, s') ∧ BothInHand s' xs prev st ys fl' av' ∧
      Relisted prev s s' := by
  obtain ⟨s', fl', av', hremove, hfiled, hrel⟩ := h.filed.removeFree ⟨by simp, hprev⟩
  have hnot : prev ∉ xs ++ ys := by
    have hnd := h.layout.nodup
    rw [← List.append_cons, List.nodup_middle, List.nodup_cons] at hnd
    simp only [List.mem_append, List.mem_cons] at hnd ⊢
    tauto
  have hlayout := hrel.layout h.layout
  have hcounted := hrel.counted h.counted
  rw [← List.append_cons] at hlayout hcounted
  refine ⟨s', fl', av', hremove, ⟨hrel.params.accepted h.accepted, hlayout, hcounted,
    by rw [hrel.alloc, hprev], by rw [hrel.alloc, h.unused], hrel.chain h.left.left_of_append,
    hrel.chain h.right, ?_⟩, hrel⟩
  refine hfiled.congr ⟨rfl, rfl, rfl, rfl, rfl, rfl, rfl, rfl, rfl⟩ hfiled.lists rfl rfl
    (fun _ _ => ⟨rfl, rfl⟩) fun x => ?_
  rw [hrel.free, Shmem.Free, Shmem.Free]
  simp only [List.mem_append, List.mem_cons] at hnot ⊢
  constructor
  · rintro ⟨hx, hfree⟩
    refine ⟨⟨by tauto, hfree⟩, ?_⟩
    rintro rfl
    exact hnot hx
  · tauto

theorem order_next (h : Layout s (xs ++ st :: ys)) :
    s.order.next (.entry st) = some (LinkedRing.after .head (ys.map .entry)) := by
  have hring := h.order
  rw [List.map_append, List.map_cons] at hring
  exact hring.joined_after.1

theorem order_prev (h : Layout s (xs ++ st :: ys)) :
    s.order.prev (.entry st) = some (LinkedRing.before .head (xs.map .entry)) := by
  have hring := h.order
  rw [List.map_append, List.map_cons] at hring
  exact hring.joined_before.2

/-- The block takes in the one behind it, if that is free. -/
theorem InHand.freeNext (h : InHand s xs st ys fl av) :
    ∃ s' ys' fl' av', freeNext st s = some (true, s') ∧ InHand s' xs st ys' fl' av' ∧
      (∀ y ∈ ys'.head?, (s'.storage y).alloc = true) ∧ SameParams s s' ∧
      ∀ x, Busy s' (xs ++ ys') x ↔ Busy s (xs ++ ys) x := by
  have hnext := order_next h.layout
  have hsame : SameParams s s := ⟨rfl, rfl, rfl, rfl, rfl, rfl, rfl, rfl, rfl⟩
  cases ys with
  | nil =>
    refine ⟨s, [], fl, av, ?_, h, by simp, hsame, fun x => Iff.rfl⟩
    rw [Shmem.freeNext, hnext]
    rfl
  | cons next ys =>
    rw [List.map_cons, LinkedRing.after_cons] at hnext
    rw [Shmem.freeNext, hnext]
    simp only
    cases hfree : (s.storage next).alloc with
    | true =>
      rw [if_neg (by simp)]
      exact ⟨s, next :: ys, fl, av, rfl, h, by simpa using hfree, hsame, fun x => Iff.rfl⟩
    | false =>
      have hbehind : next = st + storageSize + (s.storage st).size := by
        rw [h.layout.tiles.next_eq, blockLen, Nat.add_assoc]
      obtain ⟨s₁, fl', av', hremove, hboth, hrel⟩ := h.takeNext hfree
      obtain ⟨s₂, hmerge, hhand, hparams, hother⟩ := hboth.merge
      rw [if_pos ⟨rfl, hbehind⟩, hremove]
      simp only [hmerge, Option.map_some]
      refine ⟨s₂, ys, fl', av', rfl, hhand, fun y hy => ?_, hrel.params.trans hparams, fun x => ?_⟩
      · rw [hother y (List.mem_append_right _ (List.mem_of_mem_head? hy)), hrel.alloc]
        have hparted := (List.isChain_cons.1 h.right).1 y hy
        rcases hparted with hp | hp
        · rw [hfree] at hp
          cases hp
        · exact hp
      · simp only [Busy]
        constructor
        · rintro ⟨hx, halloc⟩
          rw [hother x hx, hrel.alloc] at halloc
          refine ⟨?_, halloc⟩
          simp only [List.mem_append, List.mem_cons] at hx ⊢
          tauto
        · rintro ⟨hx, halloc⟩
          have hmem : x ∈ xs ++ ys := by
            simp only [List.mem_append, List.mem_cons] at hx ⊢
            rcases hx with hx | rfl | hx
            · exact .inl hx
            · rw [hfree] at halloc
              cases halloc
            · exact .inr hx
          exact ⟨hmem, by rw [hother x hmem, hrel.alloc, halloc]⟩

/-- The block before it takes it in, if that is free. -/
theorem InHand.freePrev (h : InHand s xs st ys fl av)
    (hright : ∀ y ∈ ys.head?, (s.storage y).alloc = true) :
    ∃ s' xs' st' fl' av', freePrev st s = some (some st', s') ∧ InHand s' xs' st' ys fl' av' ∧
      (∀ x ∈ xs'.getLast?, (s'.storage x).alloc = true) ∧
      (∀ y ∈ ys.head?, (s'.storage y).alloc = true) ∧ SameParams s s' ∧
      ∀ x, Busy s' (xs' ++ ys) x ↔ Busy s (xs ++ ys) x := by
  have hprev := order_prev h.layout
  have hsame : SameParams s s := ⟨rfl, rfl, rfl, rfl, rfl, rfl, rfl, rfl, rfl⟩
  rcases List.eq_nil_or_concat' xs with rfl | ⟨xs, prev, rfl⟩
  · refine ⟨s, [], st, fl, av, ?_, h, by simp, hright, hsame, fun x => Iff.rfl⟩
    rw [Shmem.freePrev, hprev]
    rfl
  · rw [List.map_append, List.map_cons, List.map_nil, LinkedRing.before_concat] at hprev
    rw [Shmem.freePrev, hprev]
    simp only
    cases hfree : (s.storage prev).alloc with
    | true =>
      rw [if_neg (by simp)]
      exact ⟨s, xs ++ [prev], st, fl, av, rfl, h, by simpa using hfree, hright, hsame,
        fun x => Iff.rfl⟩
    | false =>
      have hbefore : st = prev + (s.storage prev).size + storageSize := by
        have htiles := h.layout.tiles
        rw [← List.append_cons] at htiles
        rw [htiles.next_eq, blockLen]
        omega
      obtain ⟨s₁, fl', av', hremove, hboth, hrel⟩ := h.takePrev hfree
      obtain ⟨s₂, hmerge, hhand, hparams, hother⟩ := hboth.merge
      rw [if_pos ⟨rfl, hbefore⟩, hremove]
      simp only [hmerge, Option.map_some]
      refine ⟨s₂, xs, prev, fl', av', rfl, hhand, fun y hy => ?_, fun y hy => ?_,
        hrel.params.trans hparams, fun x => ?_⟩
      · rw [hother y (List.mem_append_left _ (List.mem_of_getLast? hy)), hrel.alloc]
        have hparted := (List.isChain_append.1 h.left).2.2 y hy prev (by simp)
        rcases hparted with hp | hp
        · exact hp
        · rw [hfree] at hp
          cases hp
      · rw [hother y (List.mem_append_right _ (List.mem_of_mem_head? hy)), hrel.alloc]
        exact hright y hy
      · simp only [Busy]
        constructor
        · rintro ⟨hx, halloc⟩
          rw [hother x hx, hrel.alloc] at halloc
          refine ⟨?_, halloc⟩
          simp only [List.mem_append, List.mem_singleton] at hx ⊢
          tauto
        · rintro ⟨hx, halloc⟩
          have hmem : x ∈ xs ++ ys := by
            simp only [List.mem_append, List.mem_singleton] at hx ⊢
            rcases hx with (hx | rfl) | hx
            · exact .inl hx
            · rw [hfree] at halloc
              cases halloc
            · exact .inr hx
          exact ⟨hmem, by rw [hother x hmem, hrel.alloc, halloc]⟩

/-- The block enters the list of its class. -/
theorem InHand.insertFree (h : InHand s xs st ys fl av)
    (hleft : ∀ x ∈ xs.getLast?, (s.storage x).alloc = true)
    (hright : ∀ y ∈ ys.head?, (s.storage y).alloc = true) :
    ∃ s' fl' av', insertFree st s = some s' ∧ Heap s' (xs ++ st :: ys) fl' av' ∧ SameParams s s' ∧
      ∀ x, Busy s' (xs ++ st :: ys) x ↔ Busy s (xs ++ ys) x := by
  have hnot := notMem_of_layout h.layout
  obtain ⟨s', fl', av', hinsert, hfiled, hrel⟩ := h.filed.insertFree (fun hf => hnot hf.1) h.unused
  have hparted : (xs ++ st :: ys).IsChain (Parted s) :=
    isChain_middle h.left h.right (fun x hx => .inl (hleft x hx)) fun y hy => .inr (hright y hy)
  refine ⟨s', fl', av', hinsert, ⟨hrel.params.accepted h.accepted, hrel.layout h.layout,
    hrel.counted h.counted, hrel.chain hparted, ?_⟩, hrel.params, fun x => ?_⟩
  · refine hfiled.congr ⟨rfl, rfl, rfl, rfl, rfl, rfl, rfl, rfl, rfl⟩ hfiled.lists rfl rfl
      (fun _ _ => ⟨rfl, rfl⟩) fun x => ?_
    rw [hrel.free]
    simp only [Shmem.Free, List.mem_append, List.mem_cons]
    constructor
    · rintro ⟨hx, hfree⟩
      tauto
    · rintro (⟨hx, hfree⟩ | rfl)
      · exact ⟨by tauto, hfree⟩
      · exact ⟨by simp, h.unused⟩
  · rw [hrel.busy, h.busy]

/-- A live block is freed without an error, and it is the only one that is no longer live. -/
theorem Heap.free (h : Heap s blocks fl av) (hst : Busy s blocks st) :
    ∃ s' blocks' fl' av', shsShmemFree (some (st + storageSize)) s = some (none, s') ∧
      Heap s' blocks' fl' av' ∧ SameParams s s' ∧
      ∀ x, Busy s' blocks' x ↔ Busy s blocks x ∧ x ≠ st := by
  obtain ⟨xs, ys, rfl⟩ := List.append_of_mem hst.1
  have hnot := notMem_of_layout h.layout
  obtain ⟨hhand, hparams, hother⟩ := h.takeBack hst.2
  obtain ⟨s₁, ys', fl₁, av₁, hnext, hhand₁, hright, hparams₁, hbusy₁⟩ := hhand.freeNext
  obtain ⟨s₂, xs', st', fl₂, av₂, hprev, hhand₂, hleft, hright₂, hparams₂, hbusy₂⟩ :=
    hhand₁.freePrev hright
  obtain ⟨s₃, fl₃, av₃, hinsert, hheap, hparams₃, hbusy₃⟩ := hhand₂.insertFree hleft hright₂
  refine ⟨s₃, xs' ++ st' :: ys', fl₃, av₃, ?_, hheap,
    hparams.trans (hparams₁.trans (hparams₂.trans hparams₃)), fun x => ?_⟩
  · simp only [shsShmemFree, Nat.add_sub_cancel]
    rw [if_neg (by simp [hst.2]), hnext]
    simp only [hprev, hinsert, Option.map_some]
  · rw [hbusy₃, hbusy₂, hbusy₁]
    simp only [Busy]
    constructor
    · rintro ⟨hx, halloc⟩
      rw [hother x hx] at halloc
      refine ⟨⟨?_, halloc⟩, ?_⟩
      · simp only [List.mem_append, List.mem_cons] at hx ⊢
        tauto
      · rintro rfl
        exact hnot hx
    · rintro ⟨⟨hx, halloc⟩, hne⟩
      have hmem : x ∈ xs ++ ys := by
        simp only [List.mem_append, List.mem_cons] at hx ⊢
        tauto
      exact ⟨hmem, by rw [hother x hmem, halloc]⟩

end Free

end Shmem
end Shs
