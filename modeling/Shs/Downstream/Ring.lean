import Shs.Downstream.HostGroup
import Shs.Lib.StableInsert

/-!
# Downstream.Ring

The ring of virtual nodes: how `GetHashIdx` searches it, and how `HashInit` builds it. The search
peeks at the neighbours of the node in the middle. To the right it may look behind the last node,
if the hash is above every offset.
-/

namespace Shs
namespace HostGroup

/-! ## The search -/

/-- `GetHashIdx`, with no result where it reads a node that is not there. -/
def findHashIdx (nodes : List VirtualNode) (hash start stop : Nat) (h : start ≤ stop) :
    Option Nat :=
  let middle := (start + stop) / 2
  match nodes[middle]? with
  | none => none
  | some v =>
    if hash = v.hashOffset.toNat then some middle
    else if hash < v.hashOffset.toNat then
      if hm : middle = start then some middle
      else
        match nodes[middle - 1]? with
        | none => none
        | some u =>
          if hash > u.hashOffset.toNat then some middle
          else findHashIdx nodes hash start (middle - 1) (by omega)
    else if hm : middle = start then some (middle + 1)
    else
      match nodes[middle + 1]? with
      | none => none
      | some u =>
        if hash < u.hashOffset.toNat then some (middle + 1)
        else findHashIdx nodes hash (middle + 1) stop (by omega)
termination_by stop - start
decreasing_by all_goals omega

/-- What a search is to find: the first node whose offset is not below `hash`, or the place behind
the last node. -/
structure Found (nodes : List VirtualNode) (hash i : Nat) : Prop where
  inside : i ≤ nodes.length
  first : ∀ (j : Nat) (v : VirtualNode), nodes[j]? = some v → (j < i ↔ v.hashOffset.toNat < hash)

/-- The offsets are the multiples of `avg`. -/
def Even (avg : Nat) (nodes : List VirtualNode) : Prop :=
  ∀ (i : Nat) (v : VirtualNode), nodes[i]? = some v → v.hashOffset.toNat = avg * (i + 1)

section Search

variable {avg hash : Nat} {nodes : List VirtualNode}

theorem Even.found (he : Even avg nodes) {i : Nat} (hi : i ≤ nodes.length)
    (hbelow : ∀ j < i, avg * (j + 1) < hash) (hat : i < nodes.length → hash ≤ avg * (i + 1)) :
    Found nodes hash i where
  inside := hi
  first := by
    intro j v hv
    rw [he j v hv]
    refine ⟨hbelow j, fun hlt => ?_⟩
    by_contra hij
    have hjn := (List.getElem?_eq_some_iff.1 hv).1
    have hle : avg * (i + 1) ≤ avg * (j + 1) := Nat.mul_le_mul_left avg (by omega)
    have := hat (by omega)
    omega

/-- One call, with the node in the middle at hand. -/
theorem findHashIdx_step {start stop m : Nat} (h : start ≤ stop) (hm : (start + stop) / 2 = m)
    {v : VirtualNode} (hv : nodes[m]? = some v) :
    findHashIdx nodes hash start stop h =
      if hash = v.hashOffset.toNat then some m
      else if hash < v.hashOffset.toNat then
        if hms : m = start then some m
        else
          match nodes[m - 1]? with
          | none => none
          | some u =>
            if hash > u.hashOffset.toNat then some m
            else findHashIdx nodes hash start (m - 1) (by omega)
      else if hms : m = start then some (m + 1)
      else
        match nodes[m + 1]? with
        | none => none
        | some u =>
          if hash < u.hashOffset.toNat then some (m + 1)
          else findHashIdx nodes hash (m + 1) stop (by omega) := by
  subst hm
  rw [findHashIdx]
  simp only [hv]

/-- A hash that some offset reaches. Behind `start` come only smaller offsets, and the first one
that is not smaller is at `stop`, if that is a node, or before it. -/
theorem findHashIdx_inside (he : Even avg nodes) (havg : 0 < avg) {start stop : Nat}
    (h : start ≤ stop) (hstart : start < nodes.length) (hstop : stop ≤ nodes.length)
    (hlow : ∀ j < start, avg * (j + 1) < hash)
    (hup : hash ≤ avg * (min stop (nodes.length - 1) + 1)) :
    ∃ i, findHashIdx nodes hash start stop h = some i ∧ Found nodes hash i := by
  induction hd : stop - start using Nat.strong_induction_on generalizing start stop with
  | _ d ih =>
    have hstep : ∀ i j, i < j → avg * (i + 1) < avg * (j + 1) :=
      fun i j hij => Nat.mul_lt_mul_of_pos_left (by omega) havg
    have hbound : ∀ i, avg * (i + 1) < hash → i < min stop (nodes.length - 1) := by
      intro i hi
      by_contra hge
      have hle : avg * (min stop (nodes.length - 1) + 1) ≤ avg * (i + 1) :=
        Nat.mul_le_mul_left avg (by omega)
      omega
    obtain ⟨m, hm⟩ : ∃ m, (start + stop) / 2 = m := ⟨_, rfl⟩
    have hmid : m < nodes.length := by omega
    have hsm : start ≤ m := by omega
    rw [findHashIdx_step h hm (List.getElem?_eq_getElem hmid),
      he _ _ (List.getElem?_eq_getElem hmid)]
    by_cases heq : hash = avg * (m + 1)
    · rw [if_pos heq]
      refine ⟨m, rfl, he.found (by omega) (fun j hj => ?_) fun _ => by omega⟩
      rw [heq]
      exact hstep j m hj
    rw [if_neg heq]
    by_cases hlt : hash < avg * (m + 1)
    · rw [if_pos hlt]
      by_cases hms : m = start
      · rw [dif_pos hms]
        exact ⟨m, rfl, he.found (by omega) (by rwa [hms]) fun _ => by omega⟩
      rw [dif_neg hms]
      have hprev : m - 1 < nodes.length := by omega
      simp only [List.getElem?_eq_getElem hprev, he _ _ (List.getElem?_eq_getElem hprev)]
      by_cases hgt : hash > avg * (m - 1 + 1)
      · rw [if_pos hgt]
        refine ⟨m, rfl, he.found (by omega) (fun j hj => ?_) fun _ => by omega⟩
        have hle : avg * (j + 1) ≤ avg * (m - 1 + 1) := Nat.mul_le_mul_left avg (by omega)
        omega
      · rw [if_neg hgt]
        refine ih _ (by omega) (by omega) hstart (by omega) hlow ?_ rfl
        rw [show min (m - 1) (nodes.length - 1) = m - 1 by omega]
        omega
    · rw [if_neg hlt]
      have hlast := hbound m (by omega)
      have hbelow : ∀ j < m + 1, avg * (j + 1) < hash := by
        intro j hj
        have hle : avg * (j + 1) ≤ avg * (m + 1) := Nat.mul_le_mul_left avg (by omega)
        omega
      by_cases hms : m = start
      · rw [dif_pos hms]
        -- the interval has two places at most, and the node at `m + 1` is the last of them
        refine ⟨m + 1, rfl, he.found (by omega) hbelow fun _ => ?_⟩
        rw [show min stop (nodes.length - 1) = m + 1 by omega] at hup
        exact hup
      rw [dif_neg hms]
      have hnext : m + 1 < nodes.length := by omega
      simp only [List.getElem?_eq_getElem hnext, he _ _ (List.getElem?_eq_getElem hnext)]
      by_cases hlt' : hash < avg * (m + 1 + 1)
      · rw [if_pos hlt']
        exact ⟨m + 1, rfl, he.found (by omega) hbelow fun _ => by omega⟩
      · rw [if_neg hlt']
        exact ih _ (by omega) (by omega) hnext hstop hbelow hup rfl

/-- With offset 0 everywhere, the search for 0 stops where it starts. -/
theorem findHashIdx_zero (he : Even 0 nodes) (hn : 1 < nodes.length) :
    findHashIdx nodes 0 0 nodes.length (Nat.zero_le _) = some (nodes.length / 2) := by
  have hmid : nodes.length / 2 < nodes.length := by omega
  rw [findHashIdx_step (Nat.zero_le _) (by rw [Nat.zero_add]) (List.getElem?_eq_getElem hmid),
    he _ _ (List.getElem?_eq_getElem hmid), Nat.zero_mul, if_pos rfl]

/-- Above every offset, the gap to the end shrinks from `d` to `(d + 1) / 2 - 1`. From a gap of 2
the search reads the node behind the last one: `d + 1` has the leading bits 11. -/
def Peeks (d : Nat) : Prop := ∃ k, 3 * 2 ^ k ≤ d + 1 ∧ d + 1 < 2 ^ (k + 2)

theorem peeks_one : ¬Peeks 1 := by
  rintro ⟨k, hk, -⟩
  have := Nat.one_le_two_pow (n := k)
  omega

theorem peeks_two : Peeks 2 := ⟨0, by omega, by omega⟩

theorem peeks_gap {d : Nat} (hd : 3 ≤ d) : Peeks ((d + 1) / 2 - 1) ↔ Peeks d := by
  unfold Peeks
  rw [show (d + 1) / 2 - 1 + 1 = (d + 1) / 2 by omega]
  constructor
  · rintro ⟨k, hlo, hhi⟩
    rw [Nat.pow_succ] at hhi
    refine ⟨k + 1, ?_, ?_⟩
    · rw [Nat.pow_succ]
      omega
    · rw [Nat.pow_succ, Nat.pow_succ] at *
      omega
  · rintro ⟨k, hlo, hhi⟩
    cases k with
    | zero => omega
    | succ k =>
      rw [Nat.pow_succ] at hlo hhi
      exact ⟨k, by omega, by omega⟩

theorem findHashIdx_beyond (he : Even avg nodes) (hall : avg * nodes.length < hash) {start : Nat}
    (h : start ≤ nodes.length) (hstart : start < nodes.length) :
    (Peeks (nodes.length - start) → findHashIdx nodes hash start nodes.length h = none) ∧
      (¬Peeks (nodes.length - start) →
        findHashIdx nodes hash start nodes.length h = some nodes.length) := by
  induction hd : nodes.length - start using Nat.strong_induction_on generalizing start with
  | _ d ih =>
    have hoff : ∀ i, i < nodes.length → avg * (i + 1) < hash := by
      intro i hi
      have hle : avg * (i + 1) ≤ avg * nodes.length := Nat.mul_le_mul_left avg hi
      omega
    obtain ⟨m, hm⟩ : ∃ m, (start + nodes.length) / 2 = m := ⟨_, rfl⟩
    have hmid : m < nodes.length := by omega
    have hlt := hoff m hmid
    rw [findHashIdx_step h hm (List.getElem?_eq_getElem hmid),
      he _ _ (List.getElem?_eq_getElem hmid), if_neg (by omega), if_neg (by omega)]
    by_cases hone : d = 1
    · rw [dif_pos (by omega), hone]
      exact ⟨fun hp => absurd hp peeks_one, fun _ => by rw [show m + 1 = nodes.length by omega]⟩
    rw [dif_neg (by omega)]
    by_cases htwo : d = 2
    · have hpeeks : Peeks d := by
        rw [htwo]
        exact peeks_two
      rw [List.getElem?_eq_none (by omega)]
      exact ⟨fun _ => rfl, fun hp => absurd hpeeks hp⟩
    have hnext : m + 1 < nodes.length := by omega
    have hlt' := hoff (m + 1) hnext
    simp only [List.getElem?_eq_getElem hnext, he _ _ (List.getElem?_eq_getElem hnext)]
    rw [if_neg (by omega), ← peeks_gap (by omega),
      show (d + 1) / 2 - 1 = nodes.length - (m + 1) by omega]
    exact ih _ (by omega) (by omega) hnext rfl

/-- When the search finds its node. -/
theorem findHashIdx_found_iff (he : Even avg nodes) (hn : 1 < nodes.length) :
    (∃ i, findHashIdx nodes hash 0 nodes.length (Nat.zero_le _) = some i ∧ Found nodes hash i) ↔
      (hash ≤ avg * nodes.length → 0 < avg) ∧
        (avg * nodes.length < hash → ¬Peeks nodes.length) := by
  have hpos : 0 < nodes.length := by omega
  by_cases hall : avg * nodes.length < hash
  · obtain ⟨hpeek, hend⟩ := findHashIdx_beyond he hall (Nat.zero_le _) hpos
    rw [Nat.sub_zero] at hpeek hend
    constructor
    · rintro ⟨i, hi, -⟩
      refine ⟨fun hle => by omega, fun _ hp => ?_⟩
      rw [hpeek hp] at hi
      cases hi
    · rintro ⟨-, hp⟩
      refine ⟨_, hend (hp hall), he.found (Nat.le_refl _) (fun j hj => ?_) fun hlt => by omega⟩
      have hle : avg * (j + 1) ≤ avg * nodes.length := Nat.mul_le_mul_left avg hj
      omega
  · constructor
    · rintro ⟨i, hi, hfound⟩
      refine ⟨fun hle => ?_, fun hlt => absurd hlt hall⟩
      by_contra havg
      obtain rfl : avg = 0 := by omega
      obtain rfl : hash = 0 := by omega
      rw [findHashIdx_zero he hn] at hi
      obtain rfl := Option.some.inj hi
      have hfirst := (hfound.first 0 _ (List.getElem?_eq_getElem hpos)).1 (by omega)
      omega
    · rintro ⟨havg, -⟩
      refine findHashIdx_inside he (havg (by omega)) _ hpos (Nat.le_refl _) (by simp) ?_
      rw [show min nodes.length (nodes.length - 1) + 1 = nodes.length by omega]
      omega

end Search

/-! ## The ring -/

open StableInsert (placeAll)

/-- Virtual node `i` of master `idx`, with its original hash. -/
def virtualNode (h : Host) (idx i : Nat) : VirtualNode :=
  ⟨idx, calcHash (h.ip ++ str "_" ++ decimal h.port ++ str "_" ++ decimal i)⟩

/-- The nodes of the masters, in the order in which `HashInit` makes them. -/
def inserted : List Host → Nat → List VirtualNode
  | [], _ => []
  | h :: hs, idx => (List.range 200).map (virtualNode h idx) ++ inserted hs (idx + 1)

def VirtualNode.key (v : VirtualNode) : Nat := v.hashOffset.toNat

theorem getPos_eq (v : VirtualNode) (nodes : List VirtualNode) :
    nodes.insertIdx (getPos v.hashOffset nodes) v = StableInsert.place VirtualNode.key nodes v := by
  have hlarger : (fun u : VirtualNode => decide (v.hashOffset < u.hashOffset))
      = fun u => decide (v.key < u.key) := by
    funext u
    exact decide_eq_decide.2 UInt32.lt_iff_toNat_lt
  rw [getPos, hlarger]
  rfl

theorem addNodes_eq (h : Host) (idx : Nat) (is : List Nat) (nodes : List VirtualNode) :
    addNodes h idx is nodes = placeAll VirtualNode.key nodes (is.map (virtualNode h idx)) := by
  induction is generalizing nodes with
  | nil => rfl
  | cons i is ih =>
    rw [addNodes, ih]
    exact congrArg (placeAll VirtualNode.key · _) (getPos_eq (virtualNode h idx i) nodes)

theorem ringOf_eq (hs : List Host) (idx : Nat) (nodes : List VirtualNode) :
    ringOf hs idx nodes = placeAll VirtualNode.key nodes (inserted hs idx) := by
  induction hs generalizing idx nodes with
  | nil => rfl
  | cons h hs ih => rw [ringOf, ih, addNodes_eq, inserted, StableInsert.placeAll_append]

theorem length_inserted (hs : List Host) (idx : Nat) :
    (inserted hs idx).length = 200 * hs.length := by
  induction hs generalizing idx with
  | nil => rfl
  | cons h hs ih =>
    rw [inserted, List.length_append, ih, List.length_map, List.length_range, List.length_cons]
    omega

/-- Each master has its 200 nodes. -/
theorem countP_inserted (hs : List Host) (idx j : Nat) :
    (inserted hs idx).countP (·.idx = j) = if idx ≤ j ∧ j < idx + hs.length then 200 else 0 := by
  induction hs generalizing idx with
  | nil =>
    rw [if_neg (by simp)]
    rfl
  | cons h hs ih =>
    have hown : ((List.range 200).map (virtualNode h idx)).countP (·.idx = j)
        = if idx = j then 200 else 0 := by
      rw [List.countP_map]
      by_cases hj : idx = j
      · rw [if_pos hj, List.countP_eq_length.2 (by simp [virtualNode, hj]), List.length_range]
      · rw [if_neg hj, List.countP_eq_zero.2 (by simp [virtualNode, hj])]
    rw [inserted, List.countP_append, hown, ih, List.length_cons]
    split_ifs
    all_goals omega

/-- The distance of the new offsets. -/
def average (nodes : List VirtualNode) : Nat :=
  match nodes.getLast? with
  | none => 0
  | some last => last.hashOffset.toNat / nodes.length

theorem average_mul_le (nodes : List VirtualNode) : average nodes * nodes.length < 2 ^ 32 := by
  unfold average
  split
  · simp
  · rename_i last hlast
    have hle := Nat.div_mul_le_self last.hashOffset.toNat nodes.length
    have hlt := last.hashOffset.toNat_lt
    omega

theorem length_spread (nodes : List VirtualNode) : (spread nodes).length = nodes.length := by
  unfold spread
  split
  · rename_i hlast
    rw [List.getLast?_eq_none_iff.1 hlast]
  · rw [List.length_mapIdx]

theorem map_idx_spread (nodes : List VirtualNode) :
    (spread nodes).map (·.idx) = nodes.map (·.idx) := by
  unfold spread
  split
  · rename_i hlast
    rw [List.getLast?_eq_none_iff.1 hlast]
  · refine List.ext_getElem (by simp) fun l hl _ => ?_
    simp

/-- The new offsets do not wrap. -/
theorem even_spread {nodes : List VirtualNode} (hn : nodes.length < 2 ^ 32) :
    Even (average nodes) (spread nodes) := by
  intro i v hv
  have hmul := average_mul_le nodes
  unfold average at hmul ⊢
  unfold spread at hv
  cases hlast : nodes.getLast? with
  | none => simp [hlast] at hv
  | some last =>
    simp only [hlast] at hv hmul ⊢
    rw [List.getElem?_mapIdx, Option.map_eq_some_iff] at hv
    obtain ⟨u, hu, rfl⟩ := hv
    have hi := (List.getElem?_eq_some_iff.1 hu).1
    have hle : last.hashOffset.toNat / nodes.length * (i + 1)
        ≤ last.hashOffset.toNat / nodes.length * nodes.length := Nat.mul_le_mul_left _ hi
    have hdiv := Nat.div_le_self last.hashOffset.toNat nodes.length
    have hlt := last.hashOffset.toNat_lt
    have havg : last.hashOffset.toNat / nodes.length < 2 ^ 32 := by omega
    have hnum : i + 1 < 2 ^ 32 := by omega
    rw [UInt32.toNat_mul, UInt32.toNat_ofNat', UInt32.toNat_ofNat', Nat.mod_eq_of_lt havg,
      Nat.mod_eq_of_lt hnum, Nat.mod_eq_of_lt (by omega)]

/-! ## The search on the ring of a group -/

theorem length_ringOf {hs : List Host} {idx : Nat} :
    (ringOf hs idx []).length = 200 * hs.length := by
  rw [ringOf_eq, StableInsert.perm_placeAll.length_eq, List.nil_append, length_inserted]

theorem length_ring {g : Group} :
    (hashInit g).virtualNodeSet.length = 200 * g.masters.length :=
  (length_spread _).trans length_ringOf

theorem even_ring {g : Group} (hfit : g.masters.length ≤ MAX_HOSTS) :
    Even (average (ringOf g.masters 0 [])) (hashInit g).virtualNodeSet := by
  have hlen := length_ring (g := g)
  refine even_spread ?_
  rw [← length_spread]
  show (hashInit g).virtualNodeSet.length < _
  simp only [MAX_HOSTS] at hfit
  omega

/-- The search for a hash on the ring that `HashInit` makes for `g` reads no other node and finds
the first with an offset not below the hash, unless the hash is above every offset and the number
of nodes is one that lets the search peek behind them. -/
theorem search_found_iff {g : Group} (hm : g.masters ≠ []) (hfit : g.masters.length ≤ MAX_HOSTS)
    (hash : Nat) :
    (∃ i, findHashIdx (hashInit g).virtualNodeSet hash 0 (hashInit g).virtualNodeSet.length
        (Nat.zero_le _) = some i ∧ Found (hashInit g).virtualNodeSet hash i) ↔
      (hash ≤ average (ringOf g.masters 0 []) * (200 * g.masters.length) →
        0 < average (ringOf g.masters 0 [])) ∧
      (average (ringOf g.masters 0 []) * (200 * g.masters.length) < hash →
        ¬Peeks (200 * g.masters.length)) := by
  have hpos := List.length_pos_iff.2 hm
  have hlen := length_ring (g := g)
  rw [findHashIdx_found_iff (even_ring hfit) (by omega), hlen]

/-- A group with one master. -/
def single : Group := { masters := [Host.init (str "10.0.0.1") 80 false {}] }

theorem search_found_iff_single :
    (single.masters ≠ [] ∧ single.masters.length ≤ MAX_HOSTS) ∧
    ((∃ i, findHashIdx (hashInit single).virtualNodeSet (2 ^ 31) 0
        (hashInit single).virtualNodeSet.length (Nat.zero_le _) = some i ∧
        Found (hashInit single).virtualNodeSet (2 ^ 31) i) ↔
      (2 ^ 31 ≤ average (ringOf single.masters 0 []) * (200 * single.masters.length) →
        0 < average (ringOf single.masters 0 [])) ∧
      (average (ringOf single.masters 0 []) * (200 * single.masters.length) < 2 ^ 31 →
        ¬Peeks (200 * single.masters.length))) :=
  ⟨⟨List.cons_ne_nil _ _, by decide⟩,
    search_found_iff (List.cons_ne_nil _ _) (by decide) (2 ^ 31)⟩

/-- With one master the search for the largest `size_t` reads the node behind the last one. -/
theorem single_search_peeks :
    findHashIdx (hashInit single).virtualNodeSet (2 ^ 64 - 1) 0
      (hashInit single).virtualNodeSet.length (Nat.zero_le _) = none := by
  have hlen : (hashInit single).virtualNodeSet.length = 200 := length_ring
  have hring : (ringOf single.masters 0 []).length = 200 := length_ringOf
  have hmul := average_mul_le (ringOf single.masters 0 [])
  rw [hring] at hmul
  have hall : average (ringOf single.masters 0 []) * (hashInit single).virtualNodeSet.length
      < 2 ^ 64 - 1 := by
    rw [hlen]
    omega
  refine (findHashIdx_beyond (even_ring (by decide)) hall _ (by omega)).1 ?_
  rw [hlen]
  exact ⟨6, by decide, by decide⟩

/-! ## What `AddMasterServer` builds -/

/-- `HashInit`, with no result where it takes the last of no nodes and divides by their number. -/
def hashInitChecked (g : Group) : Option Group :=
  let nodes := ringOf g.masters 0 []
  match nodes.getLast? with
  | none => none
  | some last =>
    let avg := UInt32.ofNat (last.hashOffset.toNat / nodes.length)
    some { g with
      virtualNodeSet := nodes.mapIdx fun l v =>
        { v with hashOffset := avg * UInt32.ofNat (l + 1) } }

def addMasterServerChecked (ips : List Bytes) (port : Nat) (g : Group) : Option Group :=
  hashInitChecked (addMasters port ips g)

theorem hashInitChecked_eq (g : Group) :
    hashInitChecked g = if g.masters = [] then none else some (hashInit g) := by
  have hlen := length_ring (g := g)
  have hspread : (hashInit g).virtualNodeSet.length = (ringOf g.masters 0 []).length :=
    length_spread _
  simp only [hashInitChecked, hashInit, spread]
  by_cases hm : g.masters = []
  · rw [if_pos hm, hm, ringOf]
    rfl
  · have hpos := List.length_pos_iff.2 hm
    rw [if_neg hm]
    cases hlast : (ringOf g.masters 0 []).getLast? with
    | none =>
      rw [List.getLast?_eq_none_iff.1 hlast, List.length_nil] at hspread
      omega
    | some last => rfl

/-- The ring is that of the masters: `ring` is the list of their nodes, sorted by the original hash
with ties in the order of insertion, and the new offsets are the multiples of `average ring`. -/
structure RingBuilt (g : Group) : Prop where
  sorted : ∃ ring : List VirtualNode, ring.Pairwise (fun u v => u.key ≤ v.key) ∧
    (∀ hash, ring.filter (·.key = hash) = (inserted g.masters 0).filter (·.key = hash)) ∧
    g.virtualNodeSet.map (·.idx) = ring.map (·.idx) ∧ Even (average ring) g.virtualNodeSet
  count : ∀ j, g.virtualNodeSet.countP (·.idx = j) = if j < g.masters.length then 200 else 0
  rising : g.virtualNodeSet.Pairwise fun u v => u.key ≤ v.key

theorem Even.rising {avg : Nat} {nodes : List VirtualNode} (he : Even avg nodes) :
    nodes.Pairwise fun u v => u.key ≤ v.key := by
  refine List.pairwise_iff_getElem.2 fun i j hi hj hij => ?_
  have hi' := he i _ (List.getElem?_eq_getElem hi)
  have hj' := he j _ (List.getElem?_eq_getElem hj)
  simp only [VirtualNode.key]
  rw [hi', hj']
  exact Nat.mul_le_mul_left avg (by omega)

theorem hashInit_ringBuilt {g : Group} (hfit : g.masters.length ≤ MAX_HOSTS) :
    RingBuilt (hashInit g) where
  sorted := by
    refine ⟨ringOf g.masters 0 [], ?_, fun hash => ?_, map_idx_spread _, even_ring hfit⟩
    · rw [ringOf_eq]
      exact StableInsert.pairwise_placeAll List.Pairwise.nil
    · rw [ringOf_eq, StableInsert.filter_placeAll List.Pairwise.nil]
      rfl
  count := by
    intro j
    have hcount : ∀ nodes : List VirtualNode,
        nodes.countP (·.idx = j) = (nodes.map (·.idx)).countP (· = j) := by
      intro nodes
      rw [List.countP_map]
      rfl
    show (spread (ringOf g.masters 0 [])).countP _ = _
    rw [hcount, map_idx_spread, ← hcount, ringOf_eq, StableInsert.perm_placeAll.countP_eq,
      List.nil_append, countP_inserted, Nat.zero_add]
    show _ = if j < g.masters.length then 200 else 0
    by_cases hj : j < g.masters.length
    · rw [if_pos hj, if_pos ⟨Nat.zero_le j, hj⟩]
    · rw [if_neg hj, if_neg fun h => hj h.2]
  rising := (even_ring hfit).rising

theorem addMasters_masters (port : Nat) (ips : List Bytes) {g : Group}
    (hfit : g.masters.length ≤ MAX_HOSTS) :
    (addMasters port ips g).masters =
      (g.masters ++ ips.map fun ip => Host.init ip port false {}).take MAX_HOSTS := by
  induction ips generalizing g with
  | nil => simp [addMasters, List.take_of_length_le hfit]
  | cons ip ips ih =>
    rw [addMasters, addMaster]
    by_cases hfull : g.masters.length ≥ MAX_HOSTS
    · have hlen : g.masters.length = MAX_HOSTS := by omega
      rw [if_pos hfull, ← hlen, List.take_left]
    · rw [if_neg hfull]
      simp only
      rw [ih (by simp only [List.length_append, List.length_singleton]; omega), List.map_cons,
        List.append_assoc]
      rfl

/-- `AddMasterServer` works without an error, and the ring is as it is to be, unless there is no
master before and behind the call. -/
theorem addMasterServer_built_iff (ips : List Bytes) (port : Nat) {g : Group}
    (hfit : g.masters.length ≤ MAX_HOSTS) :
    (∃ g', addMasterServerChecked ips port g = some g' ∧
        g'.masters = (g.masters ++ ips.map fun ip => Host.init ip port false {}).take MAX_HOSTS ∧
        RingBuilt g') ↔
      ips ≠ [] ∨ g.masters ≠ [] := by
  have hmasters := addMasters_masters port ips hfit
  have hnil : (addMasters port ips g).masters = [] ↔ ips = [] ∧ g.masters = [] := by
    rw [hmasters]
    simp [MAX_HOSTS, List.take_eq_nil_iff, and_comm]
  rw [addMasterServerChecked, hashInitChecked_eq]
  constructor
  · rintro ⟨g', hg', -⟩
    by_contra hno
    rw [not_or, not_not, not_not] at hno
    rw [if_pos (hnil.2 hno)] at hg'
    cases hg'
  · intro hsome
    rw [if_neg (by rw [hnil]; tauto)]
    refine ⟨_, rfl, hmasters, hashInit_ringBuilt ?_⟩
    rw [hmasters]
    exact List.length_take_le _ _

theorem addMasterServer_built_iff_two :
    ({} : Group).masters.length ≤ MAX_HOSTS ∧
    ((∃ g', addMasterServerChecked [str "10.0.0.1", str "10.0.0.2"] 80 {} = some g' ∧
        g'.masters = (({} : Group).masters ++ [str "10.0.0.1", str "10.0.0.2"].map fun ip =>
          Host.init ip 80 false {}).take MAX_HOSTS ∧
        RingBuilt g') ↔
      [str "10.0.0.1", str "10.0.0.2"] ≠ [] ∨ ({} : Group).masters ≠ []) :=
  ⟨by decide, addMasterServer_built_iff _ _ (by decide)⟩

/-- No address for a group without masters. -/
theorem addMasterServer_none : addMasterServerChecked [] 80 {} = none := rfl

end HostGroup
end Shs
