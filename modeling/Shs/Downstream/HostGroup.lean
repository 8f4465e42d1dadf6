import Mathlib.Data.Finset.Card
import Mathlib.Data.List.Rotate
import Shs.Core.Bytes
import Shs.Lib.Run

/-!
# Downstream.HostGroup

The hosts of a `HostGroup`, the ring of virtual nodes over its masters, and the choice of a host
for one attempt of a request. A host is named by its index in `master_hosts` or `slave_hosts`.

`GetHashIdx` may read the node behind the last one. What is found there is an argument of the
model, `beyond`, so the results hold whatever it is.
-/

namespace Shs
namespace HostGroup

open Run (exec)

/-- What the choice of a host reads and writes of a `Host`, with times in microseconds. -/
structure Host where
  ip : Bytes := []
  port : Nat := 0
  backup : Bool := false
  failNum : Nat := 0
  isOnline : Bool := true
  lastTime : Int := 0
  downStart : Int := 0
  deriving DecidableEq, Repr

def Timestamp.valid (t : Int) : Bool := t > 0

/-- `Host::Init`. `ip_` has 32 bytes. -/
def Host.init (ip : Bytes) (port : Nat) (backup : Bool) (h : Host) : Host :=
  { h with ip := cstr (ip.take 31), port := port % 2 ^ 16, backup := backup }

/-- `Host::IsHealthy`. -/
def Host.isHealthy (strict : Bool) (now : Int) (h : Host) : Bool :=
  if !h.isOnline then false
  else if h.failNum = 0 then true
  else if !strict && h.failNum < 3 then true
  else Timestamp.valid h.lastTime && now > h.lastTime

/-- `Host::CheckAlive`. -/
def Host.checkAlive (strict doSkip : Bool) (now : Int) (h : Host) : Bool × Host :=
  if h.isHealthy strict now then (true, if doSkip then { h with lastTime := now } else h)
  else (false, if Timestamp.valid h.downStart then h else { h with downStart := now })

structure VirtualNode where
  idx : Nat
  hashOffset : UInt32
  deriving DecidableEq, Repr

structure Group where
  masters : List Host := []
  slaves : List Host := []
  virtualNodeSet : List VirtualNode := []
  deriving DecidableEq, Repr

/-- A `char` in arithmetic: the type is signed. -/
def ofChar (b : Byte) : UInt32 := if b < 128 then b.toUInt32 else b.toUInt32 ||| 0xffffff00

def hashMul : UInt32 := 0x5bd1e995

/-- The words of `CalcHash`, and what it does with the bytes behind the last of them. -/
def calcHashFrom : Bytes → UInt32 → UInt32
  | a :: b :: c :: d :: s, h =>
    let t := a.toUInt32 ||| (b.toUInt32 <<< 8) ||| (c.toUInt32 <<< 16) ||| (d.toUInt32 <<< 24)
    let t := t * hashMul
    let t := (t ^^^ (t >>> 24)) * hashMul
    calcHashFrom s ((h * hashMul) ^^^ t)
  | [a, b, c], h => (h ^^^ (ofChar c <<< 16) ^^^ (ofChar b <<< 8) ^^^ ofChar a) * hashMul
  | [a, b], h => (h ^^^ (ofChar b <<< 8) ^^^ ofChar a) * hashMul
  | [a], h => (h ^^^ ofChar a) * hashMul
  | [], h => h

def calcHash (key : Bytes) : UInt32 :=
  let h := calcHashFrom key (0x9747b28c ^^^ UInt32.ofNat key.length)
  let h := (h ^^^ (h >>> 13)) * hashMul
  h ^^^ (h >>> 15)

def MAX_HOSTS : Nat := 2000

/-- `HostGroupData::AddMaster`, with `none` when the array is full. -/
def addMaster (h : Host) (g : Group) : Option Group :=
  if g.masters.length ≥ MAX_HOSTS then none else some { g with masters := g.masters ++ [h] }

/-- The loop of `AddMasterServer`. -/
def addMasters (port : Nat) : List Bytes → Group → Group
  | [], g => g
  | ip :: ips, g =>
    match addMaster (Host.init ip port false {}) g with
    | none => g
    | some g => addMasters port ips g

def getPos (hash : UInt32) (nodes : List VirtualNode) : Nat :=
  nodes.findIdx fun v => hash < v.hashOffset

/-- The 200 nodes of master `idx`, from the `i`-th on. -/
def addNodes (h : Host) (idx : Nat) : List Nat → List VirtualNode → List VirtualNode
  | [], nodes => nodes
  | i :: is, nodes =>
    let hash := calcHash (h.ip ++ str "_" ++ decimal h.port ++ str "_" ++ decimal i)
    addNodes h idx is (nodes.insertIdx (getPos hash nodes) ⟨idx, hash⟩)

def ringOf : List Host → Nat → List VirtualNode → List VirtualNode
  | [], _, nodes => nodes
  | h :: hs, idx, nodes => ringOf hs (idx + 1) (addNodes h idx (List.range 200) nodes)

/-- The offsets of the nodes are spread evenly, up to that of the last one. -/
def spread (nodes : List VirtualNode) : List VirtualNode :=
  match nodes.getLast? with
  | none => []
  | some last =>
    let avg := UInt32.ofNat (last.hashOffset.toNat / nodes.length)
    nodes.mapIdx fun l v => { v with hashOffset := avg * UInt32.ofNat (l + 1) }

def hashInit (g : Group) : Group :=
  { g with virtualNodeSet := spread (ringOf g.masters 0 []) }

def addMasterServer (ips : List Bytes) (port : Nat) (g : Group) : Group :=
  hashInit (addMasters port ips g)

/-- `HostGroup::GetHashIdx`, where node `i` has the offset `off i`. -/
def getHashIdx (off : Nat → Nat) (hash start stop : Nat) (h : start ≤ stop) : Nat :=
  let middle := (start + stop) / 2
  if hash = off middle then middle
  else if hash < off middle then
    if hm : middle = start then middle
    else if hash > off (middle - 1) then middle
    else getHashIdx off hash start (middle - 1) (by omega)
  else if hm : middle = start then middle + 1
  else if hash < off (middle + 1) then middle + 1
  else getHashIdx off hash (middle + 1) stop (by omega)
termination_by stop - start
decreasing_by all_goals omega

/-- The offset at `i`, which is `beyond` behind the last node. -/
def offsetAt (nodes : List VirtualNode) (beyond : UInt32) (i : Nat) : Nat :=
  match nodes[i]? with
  | some v => v.hashOffset.toNat
  | none => beyond.toNat

/-- The walk of `HostGroup::Master` along the ring, for `k` nodes behind `idx`. -/
def walk (g : Group) (failHosts : Finset Nat) : Nat → Nat → Option Nat
  | 0, _ => none
  | k + 1, idx =>
    let idx := (idx + 1) % g.virtualNodeSet.length
    match g.virtualNodeSet[idx]? with
    | none => none
    | some v =>
      if v.idx ∈ failHosts then walk g failHosts k idx
      else if v.idx < g.masters.length then some v.idx
      else walk g failHosts k idx

/-- `HostGroup::Master`: the host, and `history_hosts` behind the call. -/
def master (beyond : UInt32) (hash : Nat) (historyHosts : Finset Nat) (g : Group) :
    Option Nat × Finset Nat :=
  let n := g.virtualNodeSet.length
  let idx := getHashIdx (offsetAt g.virtualNodeSet beyond) hash 0 n (Nat.zero_le n) % n
  match g.virtualNodeSet[idx]? with
  | none => (none, historyHosts)
  | some v =>
    if v.idx < g.masters.length then
      if v.idx ∈ historyHosts then
        match walk g (insert v.idx historyHosts) n idx with
        | some i => (some i, insert i historyHosts)
        | none => (none, historyHosts)
      else (some v.idx, insert v.idx historyHosts)
    else (none, historyHosts)

/-- The second loop of `HostGroup::Slave`, over the indices `is`. -/
def aliveSlave (now : Int) : List Nat → List Host → Option Nat × List Host
  | [], hosts => (none, hosts)
  | i :: is, hosts =>
    match hosts[i]? with
    | none => (none, hosts)
    | some h =>
      let (alive, h) := h.checkAlive true true now
      let hosts := hosts.set i h
      if alive then (some i, hosts) else aliveSlave now is hosts

/-- `for (uint32_t i = start; i < start + count; i++)`, with `i % count`. -/
def turn (start count : Nat) : List Nat :=
  let stop := (start + count) % 2 ^ 32
  (List.range' start (stop - start)).map (· % count)

/-- `HostGroup::Slave`. -/
def slave (hash : Nat) (retryCnt : Nat) (now : Int) (g : Group) : Option Nat × Group :=
  let n := g.slaves.length
  if n = 0 then (none, g)
  else
    let legal := hash % n
    let start := (legal + retryCnt) % 2 ^ 32
    match (turn start n).find? fun i => (g.slaves[i]?).any (·.failNum = 0) with
    | some i => (some i, g)
    | none =>
      let (i, hosts) := aliveSlave now (turn legal n) g.slaves
      (i, { g with slaves := hosts })

inductive Selected where
  | master (i : Nat)
  | slave (i : Nat)
  | none
  deriving DecidableEq, Repr

/-- `HostGroup::SelectHost`. -/
def selectHost (beyond : UInt32) (hash : Nat) (historyHosts : Finset Nat) (retryCnt : Nat)
    (now : Int) (g : Group) : Selected × Finset Nat × Group :=
  match master beyond hash historyHosts g with
  | (some i, historyHosts) => (.master i, historyHosts, g)
  | (none, historyHosts) =>
    match slave hash retryCnt now g with
    | (some i, g) => (.slave i, historyHosts, g)
    | (none, g) => (.none, historyHosts, g)

/-! ## The ring -/

theorem mem_addNodes (h : Host) (idx : Nat) (is : List Nat) (nodes : List VirtualNode) (j : Nat) :
    (∃ v ∈ addNodes h idx is nodes, v.idx = j) ↔
      (∃ v ∈ nodes, v.idx = j) ∨ (is ≠ [] ∧ j = idx) := by
  induction is generalizing nodes with
  | nil => simp [addNodes]
  | cons i is ih =>
    have hpos : ∀ hash, getPos hash nodes ≤ nodes.length := fun hash => List.findIdx_le_length
    rw [addNodes, ih]
    simp only [List.mem_insertIdx (hpos _)]
    constructor
    · rintro (⟨v, rfl | hv, rfl⟩ | ⟨-, rfl⟩)
      · exact .inr ⟨by simp, rfl⟩
      · exact .inl ⟨v, hv, rfl⟩
      · exact .inr ⟨by simp, rfl⟩
    · rintro (⟨v, hv, rfl⟩ | ⟨-, rfl⟩)
      · exact .inl ⟨v, .inr hv, rfl⟩
      · exact .inl ⟨_, .inl rfl, rfl⟩

theorem mem_ringOf (hs : List Host) (idx : Nat) (nodes : List VirtualNode) (j : Nat) :
    (∃ v ∈ ringOf hs idx nodes, v.idx = j) ↔
      (∃ v ∈ nodes, v.idx = j) ∨ (idx ≤ j ∧ j < idx + hs.length) := by
  induction hs generalizing idx nodes with
  | nil =>
    simp only [ringOf, List.length_nil, Nat.add_zero]
    constructor
    · exact .inl
    · rintro (h | h)
      · exact h
      · omega
  | cons h hs ih =>
    have hrange : List.range 200 ≠ [] := by simp
    rw [ringOf, ih, mem_addNodes, List.length_cons]
    constructor
    · rintro ((hv | ⟨-, rfl⟩) | hj)
      · exact .inl hv
      · exact .inr (by omega)
      · exact .inr (by omega)
    · rintro (hv | hj)
      · exact .inl (.inl hv)
      · by_cases hji : j = idx
        · exact .inl (.inr ⟨hrange, hji⟩)
        · exact .inr (by omega)

theorem mem_spread (nodes : List VirtualNode) (j : Nat) :
    (∃ v ∈ spread nodes, v.idx = j) ↔ ∃ v ∈ nodes, v.idx = j := by
  unfold spread
  split
  · rename_i hlast
    rw [List.getLast?_eq_none_iff] at hlast
    simp [hlast]
  · constructor
    · rintro ⟨v, hv, rfl⟩
      obtain ⟨l, hl, rfl⟩ := List.mem_mapIdx.1 hv
      exact ⟨nodes[l], List.getElem_mem hl, rfl⟩
    · rintro ⟨v, hv, rfl⟩
      obtain ⟨l, hl, rfl⟩ := List.getElem_of_mem hv
      exact ⟨_, List.mem_mapIdx.2 ⟨l, hl, rfl⟩, rfl⟩

/-- The ring is that of the masters: each has a node, and each node is that of a master. -/
def RingOk (g : Group) : Prop :=
  g.masters ≠ [] ∧ ∀ j, (∃ v ∈ g.virtualNodeSet, v.idx = j) ↔ j < g.masters.length

theorem addMasters_ne_nil {ips : List Bytes} (h : ips ≠ []) (port : Nat) (g : Group) :
    (addMasters port ips g).masters ≠ [] := by
  have hkeep : ∀ ips (g : Group), g.masters ≠ [] → (addMasters port ips g).masters ≠ [] := by
    intro ips
    induction ips with
    | nil => exact fun g hg => hg
    | cons ip ips ih =>
      intro g hg
      simp only [addMasters, addMaster]
      split
      · exact hg
      · rename_i hadd
        split at hadd
        · cases hadd
        · cases hadd
          exact ih _ (by simp)
  cases ips with
  | nil => exact absurd rfl h
  | cons ip ips =>
    by_cases hg : g.masters = []
    · simp only [addMasters, addMaster, hg, List.length_nil, MAX_HOSTS]
      rw [if_neg (by decide)]
      exact hkeep _ _ (by simp)
    · exact hkeep _ _ hg

theorem addMasterServer_ringOk {ips : List Bytes} (h : ips ≠ []) (port : Nat) (g : Group) :
    RingOk (addMasterServer ips port g) := by
  refine ⟨addMasters_ne_nil h port g, fun j => ?_⟩
  simp only [addMasterServer, hashInit]
  rw [mem_spread, mem_ringOf]
  simp

/-! ## Master -/

/-- The node that the walk reaches after `k` steps from `idx`. -/
theorem walk_spec {g : Group} (hok : RingOk g) {fail : Finset Nat} {k idx : Nat} :
    (∀ i, walk g fail k idx = some i → i < g.masters.length ∧ i ∉ fail) ∧
      (walk g fail k idx = none → ∀ m, m < k →
        ∀ v, g.virtualNodeSet[(idx + m + 1) % g.virtualNodeSet.length]? = some v → v.idx ∈ fail) := by
  induction k generalizing idx with
  | zero => exact ⟨by simp [walk], fun _ m hm => absurd hm (Nat.not_lt_zero m)⟩
  | succ k ih =>
    obtain ⟨ihs, ihn⟩ := @ih ((idx + 1) % g.virtualNodeSet.length)
    have hne : g.virtualNodeSet ≠ [] := by
      intro hnil
      obtain ⟨v, hv, -⟩ := (hok.2 0).2 (List.length_pos_iff.2 hok.1)
      simp [hnil] at hv
    have hlt : (idx + 1) % g.virtualNodeSet.length < g.virtualNodeSet.length :=
      Nat.mod_lt _ (List.length_pos_iff.2 hne)
    have hnode := List.getElem?_eq_getElem hlt
    generalize hv : g.virtualNodeSet[(idx + 1) % g.virtualNodeSet.length] = v at hnode
    have hmaster : v.idx < g.masters.length :=
      (hok.2 v.idx).1 ⟨v, hv ▸ List.getElem_mem hlt, rfl⟩
    have hrest : walk g fail k ((idx + 1) % g.virtualNodeSet.length) = none → v.idx ∈ fail →
        ∀ m, m < k + 1 →
          ∀ w, g.virtualNodeSet[(idx + m + 1) % g.virtualNodeSet.length]? = some w →
            w.idx ∈ fail := by
      intro hw hfail m hm w hwm
      cases m with
      | zero =>
        rw [Nat.add_zero, hnode] at hwm
        cases hwm
        exact hfail
      | succ m =>
        refine ihn hw m (by omega) w ?_
        rw [← hwm]
        congr 1
        rw [show idx + (m + 1) + 1 = idx + 1 + (m + 1) by omega, Nat.add_assoc,
          Nat.mod_add_mod]
    rw [walk, hnode]
    simp only
    by_cases hfail : v.idx ∈ fail
    · rw [if_pos hfail]
      exact ⟨ihs, fun hw => hrest hw hfail⟩
    · rw [if_neg hfail, if_pos hmaster]
      refine ⟨?_, by simp⟩
      rintro i ⟨⟩
      exact ⟨hmaster, hfail⟩

/-- One call: the host is a master not in the history, which it joins; without one, the history
stays, and it has every master. -/
theorem master_spec {g : Group} (hok : RingOk g) (beyond : UInt32) (hash : Nat)
    (hist : Finset Nat) :
    (∃ i, master beyond hash hist g = (some i, insert i hist) ∧ i < g.masters.length ∧ i ∉ hist) ∨
      (master beyond hash hist g = (none, hist) ∧ ∀ i, i < g.masters.length → i ∈ hist) := by
  have hne : g.virtualNodeSet ≠ [] := by
    intro hnil
    obtain ⟨v, hv, -⟩ := (hok.2 0).2 (List.length_pos_iff.2 hok.1)
    simp [hnil] at hv
  have hpos := List.length_pos_iff.2 hne
  simp only [master]
  generalize getHashIdx _ _ _ _ _ = pos
  have hlt := Nat.mod_lt pos hpos
  generalize pos % g.virtualNodeSet.length = idx at hlt
  have hnode := List.getElem?_eq_getElem hlt
  generalize hv : g.virtualNodeSet[idx] = v at hnode
  have hmaster : v.idx < g.masters.length := (hok.2 v.idx).1 ⟨v, hv ▸ List.getElem_mem hlt, rfl⟩
  rw [hnode]
  simp only [if_pos hmaster]
  by_cases hmem : v.idx ∈ hist
  · rw [if_pos hmem, Finset.insert_eq_self.2 hmem]
    obtain ⟨hsome, hnone⟩ := @walk_spec g hok hist g.virtualNodeSet.length idx
    cases hw : walk g hist g.virtualNodeSet.length idx with
    | some i => exact .inl ⟨i, rfl, hsome i hw⟩
    | none =>
      refine .inr ⟨rfl, fun i hi => ?_⟩
      obtain ⟨w, hw', rfl⟩ := (hok.2 i).2 hi
      obtain ⟨p, hp, rfl⟩ := List.getElem_of_mem hw'
      -- the node at `p` is reached after `m + 1` steps from `idx`
      obtain ⟨m, hm, hmp⟩ : ∃ m, m < g.virtualNodeSet.length ∧
          (idx + m + 1) % g.virtualNodeSet.length = p := by
        by_cases hip : idx < p
        · exact ⟨p - idx - 1, by omega, by
            rw [show idx + (p - idx - 1) + 1 = p by omega, Nat.mod_eq_of_lt hp]⟩
        · exact ⟨p + g.virtualNodeSet.length - idx - 1, by omega, by
            rw [show idx + (p + g.virtualNodeSet.length - idx - 1) + 1
              = p + g.virtualNodeSet.length by omega, Nat.add_mod_right, Nat.mod_eq_of_lt hp]⟩
      exact hnone hw m hm _ (by rw [hmp, List.getElem?_eq_getElem hp])
  · rw [if_neg hmem]
    exact .inl ⟨v.idx, rfl, hmaster, hmem⟩

/-! ## The attempts of one request -/

inductive Call where
  | master (beyond : UInt32) (hash : Nat)
  | select (beyond : UInt32) (hash : Nat) (retryCnt : Nat) (now : Int)
  /-- the slaves, which are in shared memory, are written by others -/
  | others (slaves : List Host)

/-- The group, `history_hosts`, and the hosts that the calls so far have returned. -/
structure Attempts where
  group : Group
  historyHosts : Finset Nat
  selected : List Selected := []

def step (s : Attempts) : Call → Attempts
  | .master beyond hash =>
    match master beyond hash s.historyHosts s.group with
    | (some i, hist) => ⟨s.group, hist, s.selected ++ [.master i]⟩
    | (none, hist) => ⟨s.group, hist, s.selected ++ [.none]⟩
  | .select beyond hash retryCnt now =>
    let (h, hist, g) := selectHost beyond hash s.historyHosts retryCnt now s.group
    ⟨g, hist, s.selected ++ [h]⟩
  | .others slaves => { s with group := { s.group with slaves := slaves } }

/-- The masters of `g` that are not in `hist`. -/
def fresh (g : Group) (hist : Finset Nat) : Finset Nat := Finset.range g.masters.length \ hist

/-- How the attempts go, from history `hist` on: each unused master serves one attempt, these
come first, and the history is `hist` with those used. The next call of `Master` returns an unused
master, which joins the history, or returns NULL when there is none. -/
structure Served (g : Group) (hist : Finset Nat) (s : Attempts) : Prop where
  order : ∃ (ms : List Nat) (rest : List Selected), s.selected = ms.map Selected.master ++ rest ∧ ms.Nodup ∧
    (∀ i ∈ ms, i ∈ fresh g hist) ∧ (∀ x ∈ rest, ∀ i, x ≠ .master i) ∧
    ms.length = min s.selected.length (fresh g hist).card ∧ s.historyHosts = hist ∪ ms.toFinset
  next : ∀ beyond hash,
    (∃ i, master beyond hash s.historyHosts s.group = (some i, insert i s.historyHosts) ∧
      i < g.masters.length ∧ i ∉ s.historyHosts) ∨
    (master beyond hash s.historyHosts s.group = (none, s.historyHosts) ∧
      ∀ i, i < g.masters.length → i ∈ s.historyHosts)

/-- What every call keeps. -/
structure Kept (g : Group) (hist : Finset Nat) (ms : List Nat) (rest : List Selected)
    (s : Attempts) : Prop where
  masters : s.group.masters = g.masters
  ring : s.group.virtualNodeSet = g.virtualNodeSet
  selected : s.selected = ms.map Selected.master ++ rest
  nodup : ms.Nodup
  fresh : ∀ i ∈ ms, i ∈ fresh g hist
  others : ∀ x ∈ rest, ∀ i, x ≠ .master i
  used : rest ≠ [] → ∀ i, i < g.masters.length → i ∈ s.historyHosts
  history : s.historyHosts = hist ∪ ms.toFinset

section Run

variable {g : Group} {hist : Finset Nat} {ms : List Nat} {rest : List Selected} {s : Attempts}

theorem RingOk.of_eq {g' : Group} (h : RingOk g) (hm : g'.masters = g.masters)
    (hr : g'.virtualNodeSet = g.virtualNodeSet) : RingOk g' := by
  unfold RingOk
  rw [hm, hr]
  exact h

theorem Kept.ringOk (h : Kept g hist ms rest s) (hok : RingOk g) : RingOk s.group :=
  hok.of_eq h.masters h.ring

theorem Kept.serve {i : Nat} (h : Kept g hist ms rest s) (hi : i < g.masters.length)
    (hnew : i ∉ s.historyHosts) :
    Kept g hist (ms ++ [i]) rest
      ⟨s.group, insert i s.historyHosts, s.selected ++ [.master i]⟩ := by
  have hrest : rest = [] := by
    by_contra hne
    exact hnew (h.used hne i hi)
  subst hrest
  rw [h.history, Finset.mem_union, not_or] at hnew
  refine ⟨h.masters, h.ring, by simp [h.selected], ?_, ?_, h.others, by simp, ?_⟩
  · rw [List.nodup_append']
    exact ⟨h.nodup, List.nodup_singleton i, by simpa using hnew.2⟩
  · intro j hj
    rw [List.mem_append, List.mem_singleton] at hj
    rcases hj with hj | rfl
    · exact h.fresh j hj
    · simp [HostGroup.fresh, hi, hnew.1]
  · rw [h.history, List.toFinset_append]
    ext j
    simp

theorem Kept.miss {x : Selected} {g' : Group} (h : Kept g hist ms rest s)
    (hall : ∀ i, i < g.masters.length → i ∈ s.historyHosts) (hx : ∀ i, x ≠ .master i)
    (hm : g'.masters = s.group.masters) (hr : g'.virtualNodeSet = s.group.virtualNodeSet) :
    Kept g hist ms (rest ++ [x]) ⟨g', s.historyHosts, s.selected ++ [x]⟩ := by
  refine ⟨hm.trans h.masters, hr.trans h.ring, by simp [h.selected], h.nodup, h.fresh, ?_,
    fun _ => hall, h.history⟩
  intro y hy
  rw [List.mem_append, List.mem_singleton] at hy
  rcases hy with hy | rfl
  · exact h.others y hy
  · exact hx

theorem slave_group {hash retryCnt : Nat} {now : Int} {g' : Group} {i : Option Nat}
    (h : slave hash retryCnt now g = (i, g')) :
    g'.masters = g.masters ∧ g'.virtualNodeSet = g.virtualNodeSet := by
  unfold slave at h
  simp only at h
  split at h
  · cases h; exact ⟨rfl, rfl⟩
  · split at h
    · cases h; exact ⟨rfl, rfl⟩
    · cases h; exact ⟨rfl, rfl⟩

theorem Kept.step (h : Kept g hist ms rest s) (hok : RingOk g) (c : Call) :
    ∃ ms rest, Kept g hist ms rest (step s c) := by
  have hspec := fun beyond hash => master_spec (h.ringOk hok) beyond hash s.historyHosts
  rw [h.masters] at hspec
  cases c with
  | master beyond hash =>
    rcases hspec beyond hash with ⟨i, hm, hi, hnew⟩ | ⟨hm, hall⟩
    · simp only [HostGroup.step, hm]
      exact ⟨_, _, h.serve hi hnew⟩
    · simp only [HostGroup.step, hm]
      exact ⟨_, _, h.miss hall (by simp) rfl rfl⟩
  | select beyond hash retryCnt now =>
    rcases hspec beyond hash with ⟨i, hm, hi, hnew⟩ | ⟨hm, hall⟩
    · simp only [HostGroup.step, selectHost, hm]
      exact ⟨_, _, h.serve hi hnew⟩
    · simp only [HostGroup.step, selectHost, hm]
      generalize hs : slave hash retryCnt now s.group = r
      obtain ⟨i, g'⟩ := r
      obtain ⟨hgm, hgr⟩ := slave_group hs
      cases i with
      | some i => exact ⟨_, _, h.miss hall (by simp) hgm hgr⟩
      | none => exact ⟨_, _, h.miss hall (by simp) hgm hgr⟩
  | others slaves =>
    exact ⟨ms, rest, h.masters, h.ring, h.selected, h.nodup, h.fresh, h.others, h.used, h.history⟩

theorem Kept.served (h : Kept g hist ms rest s) (hok : RingOk g) : Served g hist s := by
  have hsub : ms.toFinset ⊆ HostGroup.fresh g hist := fun i hi => h.fresh i (by simpa using hi)
  have hcard : ms.toFinset.card = ms.length := List.toFinset_card_of_nodup h.nodup
  have hle := Finset.card_le_card hsub
  refine ⟨⟨ms, rest, h.selected, h.nodup, h.fresh, h.others, ?_, h.history⟩, ?_⟩
  · rw [h.selected, List.length_append, List.length_map]
    by_cases hrest : rest = []
    · subst hrest
      simp only [List.length_nil]
      omega
    · have hall : HostGroup.fresh g hist ⊆ ms.toFinset := by
        intro i hi
        simp only [HostGroup.fresh, Finset.mem_sdiff, Finset.mem_range] at hi
        have hused := h.used hrest i hi.1
        rw [h.history, Finset.mem_union] at hused
        exact hused.resolve_left hi.2
      have hge := Finset.card_le_card hall
      omega
  · intro beyond hash
    have hspec := master_spec (h.ringOk hok) beyond hash s.historyHosts
    rwa [h.masters] at hspec

/-- A group filled by `AddMasterServer`, and any sequence of attempts that share a history: while
there is a master that is not in the history an attempt gets such a one. -/
theorem masters_served {ips : List Bytes} (hips : ips ≠ []) (port : Nat) (g : Group)
    (hist : Finset Nat) (calls : List Call) :
    Served (addMasterServer ips port g) hist
      (exec step ⟨addMasterServer ips port g, hist, []⟩ calls) := by
  have hok := addMasterServer_ringOk hips port g
  have hkept : ∃ ms rest, Kept (addMasterServer ips port g) hist ms rest
      (exec step ⟨addMasterServer ips port g, hist, []⟩ calls) := by
    induction calls using List.reverseRecOn with
    | nil => exact ⟨[], [], rfl, rfl, rfl, List.nodup_nil, by simp, by simp, by simp, by simp⟩
    | append_singleton calls c ih =>
      obtain ⟨ms, rest, h⟩ := ih
      rw [Run.exec_concat]
      exact h.step hok c
  obtain ⟨ms, rest, h⟩ := hkept
  exact h.served hok

theorem fresh_pair (ip ip' : Bytes) (port : Nat) :
    (HostGroup.fresh (addMasterServer [ip, ip'] port {}) ∅).card = 2 := by
  rw [HostGroup.fresh, Finset.sdiff_empty, Finset.card_range, addMasterServer, hashInit]
  simp [addMasters, addMaster, MAX_HOSTS]

/-- Three calls when two masters are unused: one each for the first two, and none for the third. -/
theorem Served.three (h : Served g hist s) (hcalls : s.selected.length = 3)
    (hfresh : (HostGroup.fresh g hist).card = 2) :
    ∃ i j x, s.selected = [.master i, .master j, x] ∧ i ≠ j ∧ ∀ k, x ≠ .master k := by
  obtain ⟨ms, rest, hsel, hnd, -, hrest, hlen, -⟩ := h.order
  rw [hcalls, hfresh] at hlen
  obtain ⟨i, j, rfl⟩ := List.length_eq_two.1 hlen
  rw [hsel, List.length_append, List.length_map, hlen] at hcalls
  obtain ⟨x, rfl⟩ := List.length_eq_one_iff.1 (show rest.length = 1 by omega)
  exact ⟨i, j, x, hsel, by simpa using hnd, hrest x List.mem_cons_self⟩

theorem length_select (s : Attempts) (beyond : UInt32) (hash retryCnt : Nat) (now : Int) :
    (step s (.select beyond hash retryCnt now)).selected.length = s.selected.length + 1 := by
  rw [HostGroup.step]
  exact List.length_append

theorem length_three (beyond : UInt32) (hash : Nat) :
    (exec step ⟨g, hist, []⟩ [.select beyond hash 0 1, .select beyond hash 1 2,
      .select beyond hash 2 3]).selected.length = 3 := by
  simp only [exec, List.foldl_cons, List.foldl_nil, length_select, List.length_nil]

/-- Three attempts with two masters. -/
theorem masters_served_two :
    ∃ i j x, (exec step ⟨addMasterServer [str "10.0.0.1", str "10.0.0.2"] 80 {}, ∅, []⟩
        [.select 0 17 0 1, .select 0 17 1 2, .select 0 17 2 3]).selected =
          [.master i, .master j, x] ∧ i ≠ j ∧ ∀ k, x ≠ .master k :=
  (masters_served (by simp) 80 {} ∅ _).three (length_three 0 17) (fresh_pair _ _ 80)

end Run

/-! ## Slave -/

/-- The indices below `n` in cyclic order from `start`. -/
def cyclic (start n : Nat) : List Nat := (List.range n).map fun k => (start + k) % n

theorem cyclic_eq_rotate (start n : Nat) : cyclic start n = (List.range n).rotate start := by
  refine List.ext_getElem (by simp [cyclic]) fun k hk _ => ?_
  rw [List.getElem_rotate]
  simp [cyclic, Nat.add_comm]

/-- Each index comes once. -/
theorem cyclic_perm (start n : Nat) : (cyclic start n).Perm (List.range n) := by
  rw [cyclic_eq_rotate]
  exact List.rotate_perm _ _

/-- The loop's 32-bit counter does not wrap. -/
theorem turn_eq_cyclic {start n : Nat} (h : start + n < 2 ^ 32) : turn start n = cyclic start n := by
  rw [turn, Nat.mod_eq_of_lt h, Nat.add_sub_cancel_left, List.range'_eq_map_range, List.map_map]
  rfl

section Slave

variable {now : Int} {hosts : List Host}

/-- What `CheckAlive` writes to one slave is not read again in the same pass. -/
theorem aliveSlave_eq_find? {is : List Nat} {p : Nat → Bool} (hnodup : is.Nodup)
    (hp : ∀ i ∈ is, ∃ h, hosts[i]? = some h ∧ (h.checkAlive true true now).1 = p i) :
    (aliveSlave now is hosts).1 = is.find? p := by
  induction is generalizing hosts with
  | nil => rfl
  | cons i is ih =>
    obtain ⟨hi, hrest⟩ := List.nodup_cons.1 hnodup
    obtain ⟨h, hget, halive⟩ := hp i List.mem_cons_self
    rw [aliveSlave, List.find?_cons, hget]
    simp only [halive]
    cases p i with
    | true => rfl
    | false =>
      refine ih hrest fun j hj => ?_
      have hne : i ≠ j := by
        rintro rfl
        exact hi hj
      rw [List.getElem?_set_ne hne]
      exact hp j (List.mem_cons_of_mem i hj)

theorem find?_cyclic_eq_none {p : Host → Bool} (start : Nat) :
    ((cyclic start hosts.length).find? fun i => (hosts[i]?).any p) = none ↔
      ∀ h ∈ hosts, p h = false := by
  rw [List.find?_eq_none]
  constructor
  · intro hall h hh
    obtain ⟨i, hi, rfl⟩ := List.getElem_of_mem hh
    have hmem := (cyclic_perm start hosts.length).mem_iff.2 (List.mem_range.2 hi)
    simpa [List.getElem?_eq_getElem hi] using hall i hmem
  · intro hall i hi
    have hlt := List.mem_range.1 ((cyclic_perm start hosts.length).mem_iff.1 hi)
    simp [List.getElem?_eq_getElem hlt, hall _ (List.getElem_mem hlt)]

/-- The first slave without failures in cyclic order from `hash % n + retry_cnt` on. -/
def healthySlave (hash : Nat) (retryCnt : Int) (g : Group) : Option Nat :=
  (cyclic (hash % g.slaves.length + retryCnt.toNat) g.slaves.length).find? fun i =>
    (g.slaves[i]?).any (·.failNum = 0)

/-- The first slave that is alive in cyclic order from `hash % n` on. -/
def livingSlave (hash : Nat) (now : Int) (g : Group) : Option Nat :=
  (cyclic (hash % g.slaves.length) g.slaves.length).find? fun i =>
    (g.slaves[i]?).any fun h => (h.checkAlive true true now).1

/-- What `HostGroup::Slave` chooses, where `retryCnt` is a C `int`. -/
structure SlaveChosen (hash : Nat) (retryCnt : Int) (now : Int) (g : Group) : Prop where
  chosen : (slave hash retryCnt.toNat now g).1 =
    (healthySlave hash retryCnt g).or (livingSlave hash now g)
  /-- the indices of the two passes: each slave once, in cyclic order -/
  first : turn ((hash % g.slaves.length + retryCnt.toNat) % 2 ^ 32) g.slaves.length =
    cyclic (hash % g.slaves.length + retryCnt.toNat) g.slaves.length
  second : turn (hash % g.slaves.length) g.slaves.length =
    cyclic (hash % g.slaves.length) g.slaves.length
  once : ∀ start, (cyclic start g.slaves.length).Perm (List.range g.slaves.length)
  null : (slave hash retryCnt.toNat now g).1 = none ↔
    ∀ h ∈ g.slaves, h.failNum ≠ 0 ∧ (h.checkAlive true true now).1 = false

theorem slave_chosen {g : Group} (hne : g.slaves ≠ []) (hfit : g.slaves.length ≤ MAX_HOSTS)
    (hash : Nat) {retryCnt : Int} (hretry : retryCnt < 2 ^ 31) (now : Int) :
    SlaveChosen hash retryCnt now g := by
  have hpos := List.length_pos_iff.2 hne
  have hlegal := Nat.mod_lt hash hpos
  simp only [MAX_HOSTS] at hfit
  have hstart : (hash % g.slaves.length + retryCnt.toNat) % 2 ^ 32
      = hash % g.slaves.length + retryCnt.toNat := Nat.mod_eq_of_lt (by omega)
  have hfirst : turn ((hash % g.slaves.length + retryCnt.toNat) % 2 ^ 32) g.slaves.length =
      cyclic (hash % g.slaves.length + retryCnt.toNat) g.slaves.length := by
    rw [hstart]
    exact turn_eq_cyclic (by omega)
  have hsecond : turn (hash % g.slaves.length) g.slaves.length =
      cyclic (hash % g.slaves.length) g.slaves.length := turn_eq_cyclic (by omega)
  have hperm := cyclic_perm (hash % g.slaves.length) g.slaves.length
  have heq : (slave hash retryCnt.toNat now g).1 =
      (healthySlave hash retryCnt g).or (livingSlave hash now g) := by
    simp only [slave, healthySlave, livingSlave]
    rw [if_neg (by omega), hfirst, hsecond]
    split
    · rename_i i hi
      rw [hi]
      rfl
    · rename_i hnone
      rw [hnone, Option.none_or]
      refine aliveSlave_eq_find? (hperm.nodup_iff.2 List.nodup_range) fun i hi => ?_
      have hlt := List.mem_range.1 (hperm.mem_iff.1 hi)
      rw [List.getElem?_eq_getElem hlt]
      exact ⟨_, rfl, by rw [Option.any_some]⟩
  refine ⟨heq, hfirst, hsecond, fun start => cyclic_perm start _, ?_⟩
  rw [heq, Option.or_eq_none_iff, healthySlave, livingSlave, find?_cyclic_eq_none,
    find?_cyclic_eq_none]
  simp only [decide_eq_false_iff_not]
  constructor
  · rintro ⟨hfail, hdead⟩ h hh
    exact ⟨hfail h hh, hdead h hh⟩
  · intro hall
    exact ⟨fun h hh => (hall h hh).1, fun h hh => (hall h hh).2⟩

theorem slave_chosen_three :
    SlaveChosen 7 2 50
        { slaves := [{ failNum := 1 }, { failNum := 4, lastTime := 9 }, { isOnline := false }] } ∧
      (slave 7 2 50
        { slaves := [{ failNum := 1 }, { failNum := 4, lastTime := 9 }, { isOnline := false }] }).1
        = some 2 :=
  ⟨slave_chosen (by simp) (by decide) 7 (by decide) 50, by decide⟩

end Slave

end HostGroup
end Shs
