import Mathlib.Algebra.Order.Ring.Int
import Mathlib.Data.Finset.Card
import Mathlib.Logic.Function.Basic
import Shs.Lib.Run

/-!
# Downstream.HostGroupProvider

The slots for host groups in shared memory, and the processes that create and release groups. All
but the private groups of workers goes under the shared mutex, so each call is one step.

A `HostGroup` is an object in the memory of a process, at an address there. A forked process has
the objects of its parent at the same addresses, and what a slot stores of its group is only that
address. The model gives each group that is created a number of its own, `id`, and keeps with each
slot the group that it was given to.
-/

namespace Shs
namespace HostGroupProvider

open Run (exec Meets)

/-- `arraysize(group_data)`. -/
def SLOTS : Nat := 80

/-- What `Create` and `Release` read and write of a `HostGroupData` in shared memory. -/
structure Slot where
  index : Int := -1
  refCnt : Nat := 0
  group : Option Nat := none
  /-- the group that the slot was given to, while it is not idle -/
  owner : Option Nat := none
  deriving DecidableEq, Repr

/-- A `HostGroup` of a process: its address, and the slot of its data, `none` when the data is on
the heap. -/
structure Held where
  addr : Nat
  data : Option Nat
  id : Nat
  deriving DecidableEq, Repr

structure Proc where
  /-- `g_process == SHS_PROCESS_WORKER` -/
  worker : Bool := false
  held : List Held := []
  deriving DecidableEq, Repr

structure State where
  slots : Nat → Slot := fun _ => {}
  availGroupCnt : Nat := SLOTS
  nextGroupIndex : Nat := 0
  procs : List Proc := [{}]
  /-- the number of groups created so far -/
  created : Nat := 0
  /-- a slot was given to `delete` -/
  sharedDeleted : Bool := false

namespace State

def set (i : Nat) (d : Slot) (s : State) : State :=
  { s with slots := Function.update s.slots i d }

/-- The objects of process `p` become `hs`. -/
def setHeld (p : Nat) (q : Proc) (hs : List Held) (s : State) : State :=
  { s with procs := s.procs.set p { q with held := hs } }

end State

inductive Idle where
  | none
  | slot (i : Nat)
  /-- the loop goes on for ever -/
  | loops
  deriving DecidableEq, Repr

/-- The loop of `GetIdleIndex`, for `k` rounds. -/
def searchIdle : Nat → State → Idle × State
  | 0, s => (.loops, s)
  | k + 1, s =>
    let index := s.nextGroupIndex
    let next := (index + 1) % 2 ^ 16
    let s := { s with nextGroupIndex := if next = SLOTS then next % SLOTS else next }
    if (s.slots index).index = -1 then
      (.slot index, { s with availGroupCnt := (s.availGroupCnt + (2 ^ 16 - 1)) % 2 ^ 16 })
    else searchIdle k s

/-- `GetIdleIndex`. The rounds leave the slots as they are, so a loop that has not found one after
a round for each slot never ends. -/
def getIdleIndex (s : State) : Idle × State :=
  if s.availGroupCnt > 0 then searchIdle SLOTS s else (.none, s)

/-- `FLAGS_num_processes + 1 + 1`, as `uint16_t`. -/
def firstRefCnt (numProcesses : Int) : Nat := ((numProcesses + 2) % 2 ^ 16).toNat

/-- `Create` in process `p`, where `new HostGroup` returns `addr`. -/
def create (numProcesses : Int) (p addr : Nat) (s : State) : State :=
  match s.procs[p]? with
  | none => s
  | some q =>
    if addr ∈ q.held.map (·.addr) then s
    else
      let hold := fun (data : Option Nat) (s : State) =>
        { s with created := s.created + 1 }.setHeld p q (⟨addr, data, s.created⟩ :: q.held)
      if q.worker then hold none s
      else
        match getIdleIndex s with
        | (.loops, s) => s
        | (.none, s) => hold none s
        | (.slot i, s) =>
          hold (some i) (s.set i
            { index := i, refCnt := firstRefCnt numProcesses, group := some addr,
              owner := some s.created })

/-- `Release` in shared memory, for a group at `addr` whose data is slot `i`. -/
def releaseSlot (addr i : Nat) (s : State) : State :=
  let d := s.slots i
  if d.group ≠ some addr then s
  else if d.index = -1 then { s with sharedDeleted := true }
  else
    let refCnt := (d.refCnt + (2 ^ 16 - 1)) % 2 ^ 16
    if refCnt > 0 then s.set i { d with refCnt := refCnt }
    else { s.set i {} with availGroupCnt := (s.availGroupCnt + 1) % 2 ^ 16 }

/-- `Release` in process `p` of the group that it has at `addr`, and has no more behind the call. -/
def release (p addr : Nat) (s : State) : State :=
  match s.procs[p]? with
  | none => s
  | some q =>
    match q.held.find? (·.addr = addr) with
    | none => s
    | some h =>
      let s := s.setHeld p q (q.held.filter (·.addr ≠ addr))
      match h.data with
      | none => s
      | some i => releaseSlot addr i s

inductive Act where
  | create (p addr : Nat)
  | release (p addr : Nat)
  | fork (p : Nat) (worker : Bool)
  | exit (p : Nat)
  deriving DecidableEq, Repr

def step (numProcesses : Int) (s : State) : Act → State
  | .create p addr => create numProcesses p addr s
  | .release p addr => release p addr s
  | .fork p worker =>
    match s.procs[p]? with
    | none => s
    | some q => { s with procs := s.procs ++ [{ worker := worker, held := q.held }] }
  | .exit p =>
    match s.procs[p]? with
    | none => s
    | some q => s.setHeld p q []

/-! ## What is to hold -/

/-- The idle slots. -/
def idle (s : State) : Finset Nat := (Finset.range SLOTS).filter fun i => (s.slots i).index = -1

/-- Process `p` has the group with number `h.id`, at `h.addr`. -/
def Holds (s : State) (p : Nat) (h : Held) : Prop := ∃ q, s.procs[p]? = some q ∧ h ∈ q.held

/-- The slots are managed as they should be, in this state and in the next step from it. A group
is live while it has a slot with a positive count. -/
structure Managed (numProcesses : Int) (s : State) : Prop where
  count : s.availGroupCnt = (idle s).card
  /-- an idle slot is no live group's -/
  unowned : ∀ i ∈ idle s, (s.slots i).refCnt = 0 ∧ (s.slots i).owner = none
  /-- `GetIdleIndex` returns -1 when there is no idle slot, and else an idle one -/
  search : ((getIdleIndex s).1 = .none ∧ idle s = ∅) ∨
    ∃ i ∈ idle s, (getIdleIndex s).1 = .slot i
  /-- a slot stays with its group until the count is zero -/
  kept : ∀ a i g, (s.slots i).owner = some g →
    ((step numProcesses s a).slots i).owner = some g ∨ i ∈ idle (step numProcesses s a)
  /-- a release of a group that has lost its slot changes nothing in shared memory -/
  stale : ∀ p h i, Holds s p h → h.data = some i → (s.slots i).owner ≠ some h.id →
    let s' := release p h.addr s
    s'.slots = s.slots ∧ s'.availGroupCnt = s.availGroupCnt ∧ s'.nextGroupIndex = s.nextGroupIndex
  /-- one that has its slot counts down, and the slot is idle behind it if and only if the count
  is zero then -/
  counted : ∀ p h i, Holds s p h → h.data = some i → (s.slots i).owner = some h.id →
    let s' := release p h.addr s
    (s'.slots i).refCnt = ((s.slots i).refCnt + (2 ^ 16 - 1)) % 2 ^ 16 ∧
      (i ∈ idle s' ↔ (s'.slots i).refCnt = 0)
  deleted : s.sharedDeleted = false

/-- No group is created at an address where a process has one that was given the same slot
before. -/
def Distinct (s : State) : Act → Prop
  | .create p addr => ∀ q, s.procs[p]? = some q → q.worker = false →
    ∀ i, (getIdleIndex s).1 = .slot i → ∀ p' h, Holds s p' h → h.data = some i → h.addr ≠ addr
  | _ => True

/-! ## The invariant -/

structure Inv (s : State) : Prop where
  idleSlot : ∀ i, (s.slots i).index = -1 → s.slots i = {}
  busySlot : ∀ i, (s.slots i).index ≠ -1 → (s.slots i).group ≠ none
  count : s.availGroupCnt = (idle s).card
  next : s.nextGroupIndex < SLOTS
  bound : ∀ p h i, Holds s p h → h.data = some i → i < SLOTS
  owner : ∀ p h i, Holds s p h → h.data = some i →
    ((s.slots i).group = some h.addr ↔ (s.slots i).owner = some h.id)
  fresh : ∀ p h, Holds s p h → h.id < s.created
  ownerFresh : ∀ i g, (s.slots i).owner = some g → g < s.created
  addrs : ∀ (p : Nat) (q : Proc), s.procs[p]? = some q → (q.held.map (·.addr)).Nodup
  deleted : s.sharedDeleted = false

section Steps

variable {s : State} {n : Int} {p addr i : Nat} {q : Proc} {hs : List Held}

theorem mem_idle : i ∈ idle s ↔ i < SLOTS ∧ (s.slots i).index = -1 := by
  simp [idle]

theorem inv_start : Inv {} := by
  refine ⟨fun _ _ => rfl, fun _ h => absurd rfl h, by decide, by decide, ?_, ?_, ?_, ?_, ?_, rfl⟩
  · rintro p h i ⟨q, hq, hh⟩
    cases p <;> simp at hq
    subst hq
    cases hh
  · rintro p h i ⟨q, hq, hh⟩
    cases p <;> simp at hq
    subst hq
    cases hh
  · rintro p h ⟨q, hq, hh⟩
    cases p <;> simp at hq
    subst hq
    cases hh
  · rintro i g h
    cases h
  · intro p q hq
    cases p <;> simp at hq
    subst hq
    exact List.nodup_nil

theorem holds_setHeld (hq : s.procs[p]? = some q) {p' : Nat} {h : Held} :
    Holds (s.setHeld p q hs) p' h ↔ if p' = p then h ∈ hs else Holds s p' h := by
  have hlt : p < s.procs.length := (List.getElem?_eq_some_iff.1 hq).1
  unfold Holds State.setHeld
  split
  · rename_i he
    subst he
    simp [List.getElem?_set_self hlt]
  · rename_i hne
    rw [List.getElem?_set_ne (fun he => hne he.symm)]

/-- What the search in `GetIdleIndex` finds, when a slot `d` steps ahead is idle. -/
theorem searchIdle_spec {k d : Nat} (hn : s.nextGroupIndex < SLOTS)
    (hd : (s.slots ((s.nextGroupIndex + d) % SLOTS)).index = -1) (hk : d < k) :
    ∃ i next, i ∈ idle s ∧ next < SLOTS ∧
      searchIdle k s = (.slot i, { s with
        nextGroupIndex := next, availGroupCnt := (s.availGroupCnt + (2 ^ 16 - 1)) % 2 ^ 16 }) := by
  induction k generalizing s d with
  | zero => omega
  | succ k ih =>
    have hSLOTS : SLOTS = 80 := rfl
    have hnext : (if (s.nextGroupIndex + 1) % 2 ^ 16 = SLOTS then
        (s.nextGroupIndex + 1) % 2 ^ 16 % SLOTS else (s.nextGroupIndex + 1) % 2 ^ 16) =
        (s.nextGroupIndex + 1) % SLOTS := by
      rw [Nat.mod_eq_of_lt (by omega : s.nextGroupIndex + 1 < 2 ^ 16)]
      split
      · rfl
      · rw [Nat.mod_eq_of_lt (by omega)]
    simp only [searchIdle, hnext]
    by_cases hi : (s.slots s.nextGroupIndex).index = -1
    · rw [if_pos hi]
      exact ⟨_, _, mem_idle.2 ⟨hn, hi⟩, Nat.mod_lt _ (by decide), rfl⟩
    · rw [if_neg hi]
      cases d with
      | zero =>
        rw [Nat.add_zero, Nat.mod_eq_of_lt hn] at hd
        exact absurd hd hi
      | succ d =>
        refine @ih { s with nextGroupIndex := (s.nextGroupIndex + 1) % SLOTS } d
          (Nat.mod_lt _ (by decide)) ?_ (by omega)
        simp only [Nat.mod_add_mod]
        rw [show s.nextGroupIndex + 1 + d = s.nextGroupIndex + (d + 1) by omega]
        exact hd

/-- `GetIdleIndex` ends: it returns -1 when no slot is idle, and an idle slot otherwise. -/
theorem getIdleIndex_spec (hcount : s.availGroupCnt = (idle s).card)
    (hn : s.nextGroupIndex < SLOTS) :
    (idle s = ∅ ∧ getIdleIndex s = (.none, s)) ∨
      ∃ i next, i ∈ idle s ∧ next < SLOTS ∧
        getIdleIndex s = (.slot i, { s with
          nextGroupIndex := next, availGroupCnt := (idle s).card - 1 }) := by
  have hcard : (idle s).card ≤ SLOTS := by
    refine (Finset.card_filter_le _ _).trans ?_
    rw [Finset.card_range]
  unfold getIdleIndex
  by_cases hpos : s.availGroupCnt > 0
  · rw [if_pos hpos]
    obtain ⟨j, hj⟩ := Finset.card_pos.1 (hcount ▸ hpos)
    rw [mem_idle] at hj
    obtain ⟨d, hd, hdj⟩ : ∃ d, d < SLOTS ∧ (s.nextGroupIndex + d) % SLOTS = j := by
      by_cases hle : s.nextGroupIndex ≤ j
      · exact ⟨j - s.nextGroupIndex, by omega, by
          rw [Nat.add_sub_cancel' hle, Nat.mod_eq_of_lt hj.1]⟩
      · exact ⟨j + SLOTS - s.nextGroupIndex, by omega, by
          rw [show s.nextGroupIndex + (j + SLOTS - s.nextGroupIndex) = j + SLOTS by omega,
            Nat.add_mod_right, Nat.mod_eq_of_lt hj.1]⟩
    obtain ⟨i, next, hi, hnext, hs⟩ := searchIdle_spec hn (by rw [hdj]; exact hj.2) hd
    refine .inr ⟨i, next, hi, hnext, ?_⟩
    rw [hs, hcount]
    have hSLOTS : SLOTS = 80 := rfl
    have hsub : ((idle s).card + (2 ^ 16 - 1)) % 2 ^ 16 = (idle s).card - 1 := by omega
    rw [hsub]
  · rw [if_neg hpos]
    exact .inl ⟨Finset.card_eq_zero.1 (by omega), rfl⟩

theorem idle_set_busy {d : Slot} (hd : d.index ≠ -1) : idle (s.set i d) = (idle s).erase i := by
  ext j
  rw [Finset.mem_erase, mem_idle, mem_idle]
  by_cases hj : j = i
  · subst hj
    simp [State.set, hd]
  · simp [State.set, hj]

theorem idle_reset (hi : i < SLOTS) : idle (s.set i {}) = insert i (idle s) := by
  ext j
  rw [Finset.mem_insert, mem_idle, mem_idle]
  by_cases hj : j = i
  · subst hj
    simp [State.set, hi]
  · simp [State.set, hj]

/-- What the invariant needs of the objects of a process that changes, when the slots do not. -/
theorem Inv.setHeld (h : Inv s) (hq : s.procs[p]? = some q)
    (hnodup : (hs.map (·.addr)).Nodup)
    (hmem : ∀ x ∈ hs, x ∈ q.held ∨ x.data = none ∧ x.id < s.created) :
    Inv (s.setHeld p q hs) := by
  have hold : ∀ p' x, Holds (s.setHeld p q hs) p' x →
      (∃ p', Holds s p' x) ∨ x.data = none ∧ x.id < s.created := by
    intro p' x hx
    rw [holds_setHeld hq] at hx
    split at hx
    · rcases hmem x hx with hin | hnew
      · exact .inl ⟨p, q, hq, hin⟩
      · exact .inr hnew
    · exact .inl ⟨p', hx⟩
  refine ⟨h.idleSlot, h.busySlot, h.count, h.next, ?_, ?_, ?_, h.ownerFresh, ?_, h.deleted⟩
  · intro p' x i hx hi
    rcases hold p' x hx with ⟨p', hx⟩ | ⟨hnone, -⟩
    · exact h.bound p' x i hx hi
    · rw [hnone] at hi; cases hi
  · intro p' x i hx hi
    rcases hold p' x hx with ⟨p', hx⟩ | ⟨hnone, -⟩
    · exact h.owner p' x i hx hi
    · rw [hnone] at hi; cases hi
  · intro p' x hx
    rcases hold p' x hx with ⟨p', hx⟩ | ⟨-, hid⟩
    · exact h.fresh p' x hx
    · exact hid
  · intro p' q' hq'
    have hlt : p < s.procs.length := (List.getElem?_eq_some_iff.1 hq).1
    by_cases hp : p' = p
    · subst hp
      rw [State.setHeld, List.getElem?_set_self hlt] at hq'
      cases hq'
      exact hnodup
    · rw [State.setHeld, List.getElem?_set_ne (fun he => hp he.symm)] at hq'
      exact h.addrs p' q' hq'

/-- A group counts down in its slot, or gives it up. -/
theorem Inv.releaseSlot (h : Inv s) (hi : i < SLOTS) :
    Inv (releaseSlot addr i s) := by
  unfold HostGroupProvider.releaseSlot
  simp only
  split
  · exact h
  · rename_i hgroup
    split
    · rename_i hidle
      simp only [ne_eq, not_not] at hgroup
      rw [h.idleSlot i hidle] at hgroup
      cases hgroup
    · rename_i hbusy
      split
      · refine ⟨?_, ?_, ?_, h.next, h.bound, ?_, h.fresh, ?_, h.addrs, h.deleted⟩
        · intro j hj
          by_cases hji : j = i
          · subst hji
            simp [State.set] at hj
            exact absurd hj hbusy
          · simp only [State.set, Function.update_of_ne hji] at hj ⊢
            exact h.idleSlot j hj
        · intro j hj
          by_cases hji : j = i
          · subst hji
            simpa [State.set] using h.busySlot j hbusy
          · simp only [State.set, Function.update_of_ne hji] at hj ⊢
            exact h.busySlot j hj
        · have hnot : i ∉ idle s := by simp [mem_idle, hbusy]
          rw [idle_set_busy (by exact hbusy), Finset.erase_eq_of_notMem hnot]
          exact h.count
        · intro p x j hx hj
          by_cases hji : j = i
          · subst hji
            simpa [State.set] using h.owner p x j hx hj
          · simpa [State.set, hji] using h.owner p x j hx hj
        · intro j g hj
          by_cases hji : j = i
          · subst hji
            exact h.ownerFresh j g (by simpa [State.set] using hj)
          · exact h.ownerFresh j g (by simpa [State.set, hji] using hj)
      · have hcard : (idle s).card < SLOTS := by
          have hlt : idle s ⊂ Finset.range SLOTS :=
            ⟨Finset.filter_subset _ _,
              fun hsub => hbusy (mem_idle.1 (hsub (Finset.mem_range.2 hi))).2⟩
          simpa using Finset.card_lt_card hlt
        refine ⟨?_, ?_, ?_, h.next, h.bound, ?_, h.fresh, ?_, h.addrs, h.deleted⟩
        · intro j hj
          by_cases hji : j = i
          · subst hji
            simp [State.set]
          · simp only [State.set, Function.update_of_ne hji] at hj ⊢
            exact h.idleSlot j hj
        · intro j hj
          by_cases hji : j = i
          · subst hji
            simp [State.set] at hj
          · simp only [State.set, Function.update_of_ne hji] at hj ⊢
            exact h.busySlot j hj
        · have hnot : i ∉ idle s := by simp [mem_idle, hbusy]
          have hSLOTS : SLOTS = 80 := rfl
          have hidle : idle { s.set i {} with
              availGroupCnt := (s.availGroupCnt + 1) % 2 ^ 16 } = insert i (idle s) := idle_reset hi
          rw [hidle, Finset.card_insert_of_notMem hnot]
          simp only [h.count]
          omega
        · intro p x j hx hj
          by_cases hji : j = i
          · subst hji
            simp [State.set]
          · simpa [State.set, hji] using h.owner p x j hx hj
        · intro j g hj
          by_cases hji : j = i
          · subst hji
            simp [State.set] at hj
          · exact h.ownerFresh j g (by simpa [State.set, hji] using hj)

/-- An idle slot goes to a new group. -/
theorem Inv.take {next refCnt : Nat} (h : Inv s) (hi : i ∈ idle s) (hnext : next < SLOTS)
    (hq : s.procs[p]? = some q) (haddr : addr ∉ q.held.map (·.addr))
    (hdist : ∀ p' x, Holds s p' x → x.data = some i → x.addr ≠ addr) :
    Inv (State.setHeld p q (⟨addr, some i, s.created⟩ :: q.held)
      { State.set i { index := i, refCnt := refCnt, group := some addr, owner := some s.created }
          { s with nextGroupIndex := next, availGroupCnt := (idle s).card - 1 } with
        created := s.created + 1 }) := by
  have hbusy : ((i : Nat) : Int) ≠ -1 := by omega
  have hlt := (mem_idle.1 hi).1
  have hslot := h.idleSlot i (mem_idle.1 hi).2
  have hold : ∀ p' x, Holds (State.setHeld p q (⟨addr, some i, s.created⟩ :: q.held)
      { State.set i { index := i, refCnt := refCnt, group := some addr, owner := some s.created }
          { s with nextGroupIndex := next, availGroupCnt := (idle s).card - 1 } with
        created := s.created + 1 }) p' x →
      (∃ p', Holds s p' x) ∨ x = ⟨addr, some i, s.created⟩ := by
    intro p' x hx
    rw [holds_setHeld (by exact hq)] at hx
    split at hx
    · rcases List.mem_cons.1 hx with rfl | hin
      · exact .inr rfl
      · exact .inl ⟨p, q, hq, hin⟩
    · exact .inl ⟨p', hx⟩
  refine ⟨?_, ?_, ?_, hnext, ?_, ?_, ?_, ?_, ?_, h.deleted⟩
  · intro j hj
    by_cases hji : j = i
    · subst hji
      simp [State.set, State.setHeld] at hj
    · simp only [State.set, State.setHeld, Function.update_of_ne hji] at hj ⊢
      exact h.idleSlot j hj
  · intro j hj
    by_cases hji : j = i
    · subst hji
      simp [State.set, State.setHeld]
    · simp only [State.set, State.setHeld, Function.update_of_ne hji] at hj ⊢
      exact h.busySlot j hj
  · have hidle : idle (State.setHeld p q (⟨addr, some i, s.created⟩ :: q.held)
        { State.set i { index := i, refCnt := refCnt, group := some addr, owner := some s.created }
            { s with nextGroupIndex := next, availGroupCnt := (idle s).card - 1 } with
          created := s.created + 1 }) = (idle s).erase i :=
      idle_set_busy (s := s) hbusy
    rw [hidle, Finset.card_erase_of_mem hi]
    rfl
  · intro p' x j hx hj
    rcases hold p' x hx with ⟨r, hr⟩ | rfl
    · exact h.bound r x j hr hj
    · cases hj
      exact hlt
  · intro p' x j hx hj
    rcases hold p' x hx with ⟨r, hr⟩ | rfl
    · by_cases hji : j = i
      · subst hji
        have hne := hdist r x hr hj
        have hid := h.fresh r x hr
        simp only [State.set, State.setHeld, Function.update_self, Option.some.injEq]
        constructor
        · intro he
          exact absurd he.symm hne
        · intro he
          omega
      · simpa [State.set, State.setHeld, hji] using h.owner r x j hr hj
    · cases hj
      simp [State.set, State.setHeld]
  · intro p' x hx
    rcases hold p' x hx with ⟨r, hr⟩ | rfl
    · have := h.fresh r x hr
      simp only [State.setHeld]
      omega
    · simp [State.setHeld]
  · intro j g hj
    by_cases hji : j = i
    · subst hji
      simp [State.set, State.setHeld] at hj ⊢
      omega
    · have := h.ownerFresh j g (by simpa [State.set, State.setHeld, hji] using hj)
      simp only [State.setHeld]
      omega
  · intro p' q' hq'
    have hplt : p < s.procs.length := (List.getElem?_eq_some_iff.1 hq).1
    by_cases hp : p' = p
    · subst hp
      simp only [State.setHeld, State.set] at hq'
      rw [List.getElem?_set_self hplt] at hq'
      cases hq'
      exact List.nodup_cons.2 ⟨haddr, h.addrs _ q hq⟩
    · simp only [State.setHeld, State.set] at hq'
      rw [List.getElem?_set_ne (fun he => hp he.symm)] at hq'
      exact h.addrs p' q' hq'

/-- One more group has been created; the slots are as before. -/
theorem Inv.grow (h : Inv s) : Inv { s with created := s.created + 1 } :=
  ⟨h.idleSlot, h.busySlot, h.count, h.next, h.bound, h.owner,
    fun p x hx => Nat.lt_succ_of_lt (h.fresh p x hx),
    fun i g hi => Nat.lt_succ_of_lt (h.ownerFresh i g hi), h.addrs, h.deleted⟩

theorem Inv.create (h : Inv s) (hdist : Distinct s (.create p addr)) :
    Inv (create n p addr s) := by
  unfold HostGroupProvider.create
  split
  · exact h
  · rename_i q hq
    split
    · exact h
    · rename_i haddr
      have hheap : Inv (State.setHeld p q (⟨addr, none, s.created⟩ :: q.held)
          { s with created := s.created + 1 }) := by
        refine h.grow.setHeld hq (List.nodup_cons.2 ⟨haddr, h.addrs p q hq⟩) ?_
        intro x hx
        rcases List.mem_cons.1 hx with rfl | hx
        · exact .inr ⟨rfl, Nat.lt_succ_self _⟩
        · exact .inl hx
      simp only
      split
      · exact hheap
      · rename_i hworker
        rcases getIdleIndex_spec h.count h.next with ⟨-, hg⟩ | ⟨i, next, hi, hnext, hg⟩
        · rw [hg]
          exact hheap
        · rw [hg]
          exact h.take hi hnext hq haddr
            (hdist q hq (by simpa using hworker) i (by rw [hg]))

theorem Inv.release (h : Inv s) : Inv (release p addr s) := by
  unfold HostGroupProvider.release
  split
  · exact h
  · rename_i q hq
    split
    · exact h
    · rename_i x hx
      have hless : Inv (s.setHeld p q (q.held.filter (·.addr ≠ addr))) := by
        refine h.setHeld hq ?_ fun y hy => .inl (List.mem_of_mem_filter hy)
        exact ((List.filter_sublist).map _).nodup (h.addrs p q hq)
      have hmem := List.mem_of_find?_eq_some hx
      cases hd : x.data with
      | none => exact hless
      | some i => exact hless.releaseSlot (h.bound p x i ⟨q, hq, hmem⟩ hd)

theorem Inv.fork {worker : Bool} (h : Inv s) (hq : s.procs[p]? = some q) :
    Inv { s with procs := s.procs ++ [{ worker := worker, held := q.held }] } := by
  have hold : ∀ p' x, Holds { s with procs := s.procs ++ [{ worker := worker, held := q.held }] }
      p' x → ∃ p', Holds s p' x := by
    rintro p' x ⟨q', hq', hx⟩
    rw [List.getElem?_append] at hq'
    split at hq'
    · exact ⟨p', q', hq', hx⟩
    · rw [List.getElem?_singleton] at hq'
      split at hq'
      · cases hq'
        exact ⟨p, q, hq, hx⟩
      · cases hq'
  refine ⟨h.idleSlot, h.busySlot, h.count, h.next, ?_, ?_, ?_, h.ownerFresh, ?_, h.deleted⟩
  · intro p' x i hx hi
    obtain ⟨p', hx⟩ := hold p' x hx
    exact h.bound p' x i hx hi
  · intro p' x i hx hi
    obtain ⟨p', hx⟩ := hold p' x hx
    exact h.owner p' x i hx hi
  · intro p' x hx
    obtain ⟨p', hx⟩ := hold p' x hx
    exact h.fresh p' x hx
  · intro p' q' hq'
    simp only at hq'
    rw [List.getElem?_append] at hq'
    split at hq'
    · exact h.addrs p' q' hq'
    · rw [List.getElem?_singleton] at hq'
      split at hq'
      · cases hq'
        exact h.addrs p q hq
      · cases hq'

theorem Inv.step {a : Act} (h : Inv s) (hdist : Distinct s a) : Inv (step n s a) := by
  cases a with
  | create p addr => exact h.create hdist
  | release p addr => exact h.release
  | fork p worker =>
    simp only [HostGroupProvider.step]
    split
    · exact h
    · rename_i q hq
      exact h.fork hq
  | exit p =>
    simp only [HostGroupProvider.step]
    split
    · exact h
    · rename_i q hq
      exact h.setHeld hq List.nodup_nil (by simp)

/-! ## What the invariant gives -/

theorem find_held {x : Held} {l : List Held} (hx : x ∈ l) (hnd : (l.map (·.addr)).Nodup) :
    l.find? (·.addr = x.addr) = some x := by
  induction l with
  | nil => cases hx
  | cons y l ih =>
    rw [List.map_cons, List.nodup_cons] at hnd
    rcases List.mem_cons.1 hx with rfl | hx
    · simp
    · have hne : y.addr ≠ x.addr := by
        intro he
        exact hnd.1 (he ▸ List.mem_map_of_mem hx)
      rw [List.find?_cons_of_neg (by simpa using hne)]
      exact ih hx hnd.2

/-- A release of a group with a slot, in a process that has it. -/
theorem release_slot {x : Held} (h : Inv s) (hq : s.procs[p]? = some q) (hx : x ∈ q.held)
    (hi : x.data = some i) :
    release p x.addr s =
      releaseSlot x.addr i (s.setHeld p q (q.held.filter (·.addr ≠ x.addr))) := by
  unfold HostGroupProvider.release
  rw [hq]
  simp only
  rw [find_held hx (h.addrs p q hq)]
  simp only [hi]

theorem Inv.stale {x : Held} (h : Inv s) (hx : Holds s p x) (hi : x.data = some i)
    (hown : (s.slots i).owner ≠ some x.id) :
    ∃ q, HostGroupProvider.release p x.addr s = s.setHeld p q (q.held.filter (·.addr ≠ x.addr)) := by
  obtain ⟨q, hq, hmem⟩ := hx
  have hgroup : (s.slots i).group ≠ some x.addr := fun hg =>
    hown ((h.owner p x i ⟨q, hq, hmem⟩ hi).1 hg)
  refine ⟨q, ?_⟩
  rw [release_slot h hq hmem hi, HostGroupProvider.releaseSlot, if_pos (by exact hgroup)]

theorem Inv.counted {x : Held} (h : Inv s) (hx : Holds s p x) (hi : x.data = some i)
    (hown : (s.slots i).owner = some x.id) :
    ((HostGroupProvider.release p x.addr s).slots i).refCnt = ((s.slots i).refCnt + (2 ^ 16 - 1)) % 2 ^ 16 ∧
      (i ∈ idle (HostGroupProvider.release p x.addr s) ↔ ((HostGroupProvider.release p x.addr s).slots i).refCnt = 0) := by
  have hlt := h.bound p x i hx hi
  have hgroup := (h.owner p x i hx hi).2 hown
  obtain ⟨q, hq, hmem⟩ := hx
  have hbusy : (s.slots i).index ≠ -1 := by
    intro hidle
    rw [h.idleSlot i hidle] at hgroup
    cases hgroup
  rw [release_slot h hq hmem hi]
  simp only [HostGroupProvider.releaseSlot, State.setHeld, hgroup, ne_eq, not_true, if_false,
    if_neg hbusy, mem_idle]
  split
  · rename_i hpos
    simp only [State.set, Function.update_self]
    exact ⟨trivial, ⟨fun hi => absurd hi.2 hbusy, fun hz => by omega⟩⟩
  · rename_i hzero
    simp only [State.set, Function.update_self]
    exact ⟨by omega, ⟨fun _ => trivial, fun _ => ⟨hlt, trivial⟩⟩⟩

theorem releaseSlot_kept {g : Nat} (hlt : i < SLOTS) {j : Nat}
    (hown : (s.slots j).owner = some g) :
    ((releaseSlot addr i s).slots j).owner = some g ∨ j ∈ idle (releaseSlot addr i s) := by
  unfold releaseSlot
  simp only
  split
  · exact .inl hown
  · split
    · exact .inl hown
    · split
      · by_cases hj : j = i
        · subst hj
          exact .inl (by simpa [State.set] using hown)
        · exact .inl (by simpa [State.set, hj] using hown)
      · by_cases hj : j = i
        · subst hj
          exact .inr (mem_idle.2 ⟨hlt, by simp [State.set]⟩)
        · exact .inl (by simpa [State.set, hj] using hown)

theorem create_kept {g j : Nat} (h : Inv s) (hown : (s.slots j).owner = some g) :
    ((create n p addr s).slots j).owner = some g := by
  unfold HostGroupProvider.create
  split
  · exact hown
  · split
    · exact hown
    · simp only
      split
      · exact hown
      · rcases getIdleIndex_spec h.count h.next with ⟨-, hg⟩ | ⟨i, next, hi, -, hg⟩
        · rw [hg]
          exact hown
        · rw [hg]
          have hj : j ≠ i := by
            rintro rfl
            rw [h.idleSlot j (mem_idle.1 hi).2] at hown
            cases hown
          simpa [State.set, State.setHeld, hj] using hown

theorem Inv.managed (n : Int) (h : Inv s) : Managed n s := by
  refine ⟨h.count, ?_, ?_, ?_, ?_, fun p x i hx hi hown => h.counted hx hi hown, h.deleted⟩
  · intro i hi
    rw [h.idleSlot i (mem_idle.1 hi).2]
    exact ⟨rfl, rfl⟩
  · rcases getIdleIndex_spec h.count h.next with ⟨he, hg⟩ | ⟨i, next, hi, -, hg⟩
    · exact .inl ⟨by rw [hg], he⟩
    · exact .inr ⟨i, hi, by rw [hg]⟩
  · intro a j g hown
    cases a with
    | create p addr => exact .inl (create_kept h hown)
    | release p addr =>
      simp only [HostGroupProvider.step, HostGroupProvider.release]
      split
      · exact .inl hown
      · rename_i q hq
        split
        · exact .inl hown
        · rename_i x hx
          have hmem := List.mem_of_find?_eq_some hx
          cases hd : x.data with
          | none => exact .inl hown
          | some i => exact releaseSlot_kept (h.bound p x i ⟨q, hq, hmem⟩ hd) hown
    | fork p worker =>
      simp only [HostGroupProvider.step]
      split <;> exact .inl hown
    | exit p =>
      simp only [HostGroupProvider.step]
      split <;> exact .inl hown
  · intro p x i hx hi hown
    obtain ⟨q, hq⟩ := h.stale hx hi hown
    rw [hq]
    exact ⟨rfl, rfl, rfl⟩

end Steps

/-- In every run in which no group is created at an address where a process has an earlier one of
the same slot, the slots are managed as they should be in every state. -/
theorem slots_managed (numProcesses : Int) (acts : List Act)
    (hmeets : Meets (step numProcesses) Distinct {} acts) :
    Managed numProcesses (exec (step numProcesses) {} acts) :=
  (Run.invariant _ inv_start (fun _ _ h hd => h.step hd) hmeets).managed numProcesses

/-- The master and a worker each release a group that the master created. -/
theorem slots_managed_fork :
    Managed 0 (exec (step 0) {} [.create 0 5, .fork 0 true, .release 0 5, .release 1 5]) := by
  refine slots_managed 0 _ ?_
  have hfirst : Distinct {} (.create 0 5) := by
    rintro q - - i - p' x ⟨q', hq', hx⟩ -
    cases p' <;> simp at hq'
    subst hq'
    cases hx
  refine Run.meets_cons _ hfirst ?_
  refine Run.meets_cons _ trivial (Run.meets_cons _ trivial (Run.meets_cons _ trivial ?_))
  exact Run.meets_nil _ _ _

/-- A group at address 5 is given slot 0; three of the four processes that have it release it,
which frees the slot. 79 groups later a group is created at address 5 in slot 0. -/
def reused : List Act :=
  [.create 0 5, .fork 0 true, .fork 0 false, .fork 0 true, .release 0 5, .release 1 5,
    .release 2 5] ++ (List.range' 6 79).map (.create 0 ·) ++ [.create 0 5]

/-- The fourth process then releases the old group, and the count of the new one goes down. -/
theorem stale_release_counts :
    ¬ ∀ (numProcesses : Int) (acts : List Act),
      Managed numProcesses (exec (step numProcesses) {} acts) := by
  intro h
  have hstale := (h 1 reused).stale 3 ⟨5, some 0, 0⟩ 0
    ⟨{ worker := true, held := [⟨5, some 0, 0⟩] }, by decide +kernel, by decide⟩ rfl
    (by decide +kernel)
  have hslot := congrArg (fun slots => (slots 0).refCnt) hstale.1
  revert hslot
  decide +kernel

end HostGroupProvider
end Shs
