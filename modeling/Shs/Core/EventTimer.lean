import Mathlib
import Shs.Core.RbRuns

/-!
# Core.EventTimer

The timers of `shs_event_timer.cc`: events in a red-black tree in the order of the times when they
are due. An event is the address of its node. Between two reads the clock can move on, and a handler
that `event_timers_expire` calls can add and delete timers; handlers do not add timers that are
already due.

The code drops an `event_timer_add` if `abs` of the change of the key is small. Which `abs` that is
depends on the headers of the compiler, `int abs(int)` or an overload for `long`, so its width is a
parameter.
-/

namespace Shs
namespace EventTimer

open RedBlack RbTree

/-- A conversion to a signed type of `w` bits. -/
def wrapTo (w : Nat) (x : Int) : Int := x.bmod (2 ^ w)

/-- `abs` on a signed type of `w` bits. -/
def absOf (w : Nat) (x : Int) : Int := wrapTo w (wrapTo w x).natAbs

def eventTimerInfinite : Int := -1

def eventTimerLazyDelay : Nat := 300

/-- One handler called by `event_timers_expire`: the event, its key, the clock then, and which
insertion had put the event in the tree. -/
structure Call where
  event : Nat
  key : Int
  clock : Int
  number : Nat

/-- A record of one `event_timers_expire`: the clock and the events due at its start, whether the
clock has moved since, the events whose timers its handlers deleted, and its calls. -/
structure Expiry where
  began : Int := 0
  due : List Nat := []
  moved : Bool := false
  dropped : List Nat := []
  calls : List Call := []

inductive Pc where
  | idle
  | loop
  | handler
  deriving DecidableEq

/-- A handler of the expiry deletes the timer of `ev`. -/
def Expiry.drop (e : Expiry) (pc : Pc) (ev : Nat) : Expiry :=
  if pc = .handler then { e with dropped := ev :: e.dropped } else e

def Expiry.call (e : Expiry) (c : Call) : Expiry := { e with calls := e.calls ++ [c] }

def Expiry.tick (e : Expiry) (moved : Bool) : Expiry := { e with moved := e.moved || moved }

/-- The events whose handlers were called. -/
def Expiry.called (e : Expiry) : List Nat := e.calls.map (·.event)

/-- `event_timer_t`, the fields of all events, and the clock. The last five fields are a record that
no branch of the code reads: the nodes in the tree (their number bounds the loops), how many
insertions there were and the last one of each event, the key that `event_timer_add` last asked
for, and the last expiry. -/
structure State where
  tree : RbTree
  timerSet : Nat → Bool := fun _ => false
  timedout : Nat → Bool := fun _ => false
  now : Int
  pc : Pc := .idle
  stuck : Bool := false
  armed : List Nat := []
  serial : Nat := 0
  number : Nat → Nat := fun _ => 0
  target : Nat → Int := fun _ => 0
  expiry : Expiry := {}

/-- `event_timer_init`. -/
def eventTimerInit (sentinel : Nat) (m : RbTree) (now : Int) : State where
  tree := rbtreeInit sentinel .timerValue m
  now := now

/-- Loops in the tree end within this many iterations. -/
def State.fuel (s : State) : Nat := s.armed.length + 2

def eventTimerDel (ev : Nat) (s : State) : State :=
  if s.timerSet ev = true then
    match rbtreeDelete s.fuel ev s.tree with
    | none => { s with stuck := true }
    | some m =>
      { s with
        tree := m
        timerSet := Function.update s.timerSet ev false
        armed := s.armed.erase ev
        expiry := s.expiry.drop s.pc ev }
  else s

/-- The last three lines of `event_timer_add`. -/
def insertTimer (ev : Nat) (key : Int) (s : State) : State :=
  match rbtreeInsert s.fuel ev (s.tree.setKey ev key) with
  | none => { s with stuck := true }
  | some m =>
    { s with
      tree := m
      timerSet := Function.update s.timerSet ev true
      armed := ev :: s.armed
      serial := s.serial + 1
      number := Function.update s.number ev s.serial }

/-- The difference that `event_timer_add` compares with the lazy delay. -/
def lazyDiff (w : Nat) (key old : Int) : Int := absOf w (wrapTo 64 (key - old))

def eventTimerAdd (w ev : Nat) (timer : Int) (s : State) : State :=
  let key := wrapTo 64 (s.now + timer)
  let s := { s with target := Function.update s.target ev key }
  if s.timerSet ev = true then
    if lazyDiff w key (s.tree.key ev) < eventTimerLazyDelay then s
    else insertTimer ev key (eventTimerDel ev s)
  else insertTimer ev key s

def eventFindTimer (s : State) : Option Int :=
  if s.tree.root = s.tree.sentinel then some eventTimerInfinite
  else do
    let node ← rbtreeMin s.fuel s.tree.root s.tree
    let timer := wrapTo 64 (s.tree.key node - s.now)
    some (if timer > 0 then timer else 0)

/-- One iteration of `event_timers_expire`, up to the call of the handler. -/
def eventTimersExpire (s : State) : State :=
  if s.tree.root = s.tree.sentinel then { s with pc := .idle }
  else
    match rbtreeMin s.fuel s.tree.root s.tree with
    | none => { s with stuck := true }
    | some node =>
      if s.tree.key node ≤ s.now then
        match rbtreeDelete s.fuel node s.tree with
        | none => { s with stuck := true }
        | some m =>
          { s with
            tree := m
            timerSet := Function.update s.timerSet node false
            timedout := Function.update s.timedout node true
            pc := .handler
            armed := s.armed.erase node
            expiry := s.expiry.call ⟨node, s.tree.key node, s.now, s.number node⟩ }
      else { s with pc := .idle }

inductive Act where
  | tick (now : Int)
  | add (ev : Nat) (timer : Int)
  | del (ev : Nat)
  | expire
  | next
  | ret

def InRange (x : Int) : Prop := -2 ^ 63 ≤ x ∧ x < 2 ^ 63

instance (x : Int) : Decidable (InRange x) := by
  unfold InRange
  infer_instance

/-- The clock does not go back, `now + timer` does not wrap, and a handler adds no timer that is
already due. -/
def Allowed (s : State) : Act → Prop
  | .tick n => s.now ≤ n ∧ n < 2 ^ 63
  | .add ev timer => ev ≠ s.tree.sentinel ∧ InRange timer ∧ InRange (s.now + timer) ∧
      (s.pc = .idle ∨ s.pc = .handler ∧ 0 < timer)
  | .del _ => s.pc ≠ .loop
  | .expire => s.pc = .idle
  | .next => s.pc = .loop
  | .ret => s.pc = .handler

instance (s : State) (a : Act) : Decidable (Allowed s a) := by
  cases a <;> unfold Allowed <;> infer_instance

/-- The clock moves on. -/
def tick (n : Int) (s : State) : State :=
  { s with now := n, expiry := s.expiry.tick (decide (s.pc ≠ .idle ∧ n ≠ s.now)) }

/-- `event_timers_expire` is called. -/
def beginExpire (s : State) : State :=
  { s with
    pc := .loop
    expiry :=
      { began := s.now
        due := s.armed.filter fun ev => decide (s.tree.key ev ≤ s.now) } }

def act (w : Nat) (s : State) : Act → State
  | .tick n => tick n s
  | .add ev timer => eventTimerAdd w ev timer s
  | .del ev => eventTimerDel ev s
  | .expire => beginExpire s
  | .next => eventTimersExpire s
  | .ret => { s with pc := .loop }

/-- An action that is not allowed is no step. -/
def step (w : Nat) (s : State) (a : Act) : State := if Allowed s a then act w s a else s

/-! ## The record of an expiry -/

/-- What holds of the record, with the set timers `armed` and their keys. -/
structure Log (pc : Pc) (now : Int) (armed : List Nat) (key : Nat → Int) (number : Nat → Nat)
    (serial : Nat) (e : Expiry) : Prop where
  numbers : ∀ a ∈ armed, number a < serial
  distinct : ∀ a ∈ armed, ∀ b ∈ armed, number a = number b → a = b
  past : ∀ c ∈ e.calls, c.key ≤ c.clock ∧ c.clock ≤ now ∧ c.number < serial
  gone : ∀ c ∈ e.calls, ∀ a ∈ armed, number a ≠ c.number
  sorted : e.calls.Pairwise fun c d => c.key ≤ d.key
  once : (e.calls.map (·.number)).Nodup
  steady : e.moved = false → (∀ a ∈ e.called, a ∈ e.due) ∧ e.called.Nodup
  ended : pc = .idle → ∀ a ∈ e.due, a ∈ e.called ∨ a ∈ e.dropped
  /-- While it runs, what is in the tree is behind what was called. -/
  began : pc ≠ .idle → e.began ≤ now
  behind : pc ≠ .idle → ∀ c ∈ e.calls, ∀ a ∈ armed, c.key ≤ key a
  still : pc ≠ .idle → e.moved = false → now = e.began
  ready : pc ≠ .idle → e.moved = false → ∀ a ∈ armed, key a ≤ now → a ∈ e.due ∧ a ∉ e.called
  left : pc ≠ .idle → ∀ a ∈ e.due, a ∈ e.called ∨ a ∈ e.dropped ∨ a ∈ armed ∧ key a ≤ e.began

section Log

variable {pc : Pc} {now n k : Int} {armed : List Nat} {key key' : Nat → Int} {number : Nat → Nat}
  {serial a : Nat} {e : Expiry}

@[simp] theorem calls_drop : (e.drop pc a).calls = e.calls := by
  unfold Expiry.drop
  split <;> rfl

@[simp] theorem called_drop : (e.drop pc a).called = e.called := by
  unfold Expiry.called
  rw [calls_drop]

@[simp] theorem due_drop : (e.drop pc a).due = e.due := by
  unfold Expiry.drop
  split <;> rfl

@[simp] theorem moved_drop : (e.drop pc a).moved = e.moved := by
  unfold Expiry.drop
  split <;> rfl

@[simp] theorem began_drop : (e.drop pc a).began = e.began := by
  unfold Expiry.drop
  split <;> rfl

theorem mem_dropped {b : Nat} (h : b ∈ e.dropped) : b ∈ (e.drop pc a).dropped := by
  unfold Expiry.drop
  split
  · exact List.mem_cons_of_mem a h
  · exact h

/-- A timer is deleted, by a handler or from outside. -/
theorem Log.erase (h : Log pc now armed key number serial e) (hnd : armed.Nodup)
    (hpc : pc ≠ .loop) (hkey : ∀ b, b ≠ a → key' b = key b) :
    Log pc now (armed.erase a) key' number serial (e.drop pc a) := by
  have hmem {b : Nat} (hb : b ∈ armed.erase a) : b ∈ armed ∧ key' b = key b := by
    obtain ⟨hne, hb⟩ := hnd.mem_erase_iff.1 hb
    exact ⟨hb, hkey b hne⟩
  refine ⟨fun b hb => h.numbers b (hmem hb).1, fun b hb c hc => h.distinct b (hmem hb).1 c (hmem hc).1,
    by simpa using h.past, fun c hc b hb => h.gone c (by simpa using hc) b (hmem hb).1,
    by simpa using h.sorted, by simpa using h.once, by simpa using h.steady, fun hi b hb => ?_,
    by simpa using h.began, fun hr c hc b hb => ?_, by simpa using h.still, fun hr hm b hb hle => ?_,
    fun hr b hb => ?_⟩
  · rw [called_drop]
    exact (h.ended hi b (by simpa using hb)).imp_right mem_dropped
  · rw [(hmem hb).2]
    exact h.behind hr c (by simpa using hc) b (hmem hb).1
  · rw [(hmem hb).2] at hle
    rw [due_drop, called_drop]
    exact h.ready hr (by simpa using hm) b (hmem hb).1 hle
  · rw [called_drop, began_drop]
    rcases h.left hr b (by simpa using hb) with hb | hb | ⟨hb, hle⟩
    · exact .inl hb
    · exact .inr (.inl (mem_dropped hb))
    · by_cases hba : b = a
      · subst hba
        refine .inr (.inl ?_)
        have hh : pc = .handler := by
          cases pc with
          | idle => exact absurd rfl hr
          | loop => exact absurd rfl hpc
          | handler => rfl
        simp [Expiry.drop, hh]
      · exact .inr (.inr ⟨(List.mem_erase_of_ne hba).2 hb, (hkey b hba).symm ▸ hle⟩)

/-- A timer is set; while an expiry runs, to a time that is not yet due. -/
theorem Log.insert (h : Log pc now armed key number serial e) (ha : a ∉ armed)
    (hk : pc = .idle ∨ now < key' a) (hkey : ∀ b, b ≠ a → key' b = key b) :
    Log pc now (a :: armed) key' (Function.update number a serial) (serial + 1) e := by
  have hne {b : Nat} (hb : b ∈ armed) : b ≠ a := ne_of_mem_of_not_mem hb ha
  have hnum {b : Nat} (hb : b ∈ armed) : Function.update number a serial b = number b :=
    Function.update_of_ne (hne hb) ..
  have hk' (hr : pc ≠ .idle) : now < key' a := hk.resolve_left hr
  refine ⟨fun b hb => ?_, fun b hb c hc hbc => ?_, fun c hc => ?_, fun c hc b hb => ?_, h.sorted,
    h.once, h.steady, h.ended, h.began, fun hr c hc b hb => ?_, h.still, fun hr hm b hb hle => ?_,
    fun hr b hb => ?_⟩
  · rcases List.mem_cons.1 hb with rfl | hb
    · simp
    · rw [hnum hb]
      have := h.numbers b hb
      omega
  · rcases List.mem_cons.1 hb with hba | hb' <;> rcases List.mem_cons.1 hc with hca | hc'
    · rw [hba, hca]
    · rw [hba, Function.update_self, hnum hc'] at hbc
      have := h.numbers c hc'
      omega
    · rw [hca, Function.update_self, hnum hb'] at hbc
      have := h.numbers b hb'
      omega
    · rw [hnum hb', hnum hc'] at hbc
      exact h.distinct b hb' c hc' hbc
  · obtain ⟨h1, h2, h3⟩ := h.past c hc
    exact ⟨h1, h2, by omega⟩
  · rcases List.mem_cons.1 hb with rfl | hb
    · rw [Function.update_self]
      have := (h.past c hc).2.2
      omega
    · rw [hnum hb]
      exact h.gone c hc b hb
  · rcases List.mem_cons.1 hb with rfl | hb
    · have h1 := h.past c hc
      have h2 := hk' hr
      omega
    · rw [hkey b (hne hb)]
      exact h.behind hr c hc b hb
  · rcases List.mem_cons.1 hb with rfl | hb
    · have := hk' hr
      omega
    · rw [hkey b (hne hb)] at hle
      exact h.ready hr hm b hb hle
  · refine (h.left hr b hb).imp_right (Or.imp_right fun ⟨hb, hle⟩ => ⟨List.mem_cons_of_mem a hb, ?_⟩)
    rw [hkey b (hne hb)]
    exact hle

/-- The least timer is due: its handler is called. -/
theorem Log.call (h : Log .loop now armed key number serial e) (hnd : armed.Nodup) (ha : a ∈ armed)
    (hdue : key a ≤ now) (hmin : ∀ b ∈ armed, key a ≤ key b) (hkey : ∀ b, b ≠ a → key' b = key b) :
    Log .handler now (armed.erase a) key' number serial (e.call ⟨a, key a, now, number a⟩) := by
  have hrun : Pc.loop ≠ .idle := by simp
  have hmem {b : Nat} (hb : b ∈ armed.erase a) : b ≠ a ∧ b ∈ armed ∧ key' b = key b := by
    obtain ⟨hne, hb⟩ := hnd.mem_erase_iff.1 hb
    exact ⟨hne, hb, hkey b hne⟩
  have hcalled (b : Nat) : b ∈ (e.call ⟨a, key a, now, number a⟩).called ↔ b ∈ e.called ∨ b = a := by
    simp [Expiry.called, Expiry.call]
  have hcalls (c : Call) : c ∈ (e.call ⟨a, key a, now, number a⟩).calls ↔
      c ∈ e.calls ∨ c = ⟨a, key a, now, number a⟩ := by
    simp [Expiry.call]
  refine ⟨fun b hb => h.numbers b (hmem hb).2.1,
    fun b hb c hc => h.distinct b (hmem hb).2.1 c (hmem hc).2.1, fun c hc => ?_,
    fun c hc b hb => ?_, ?_, ?_, fun hm => ?_, by simp, fun _ => h.began hrun, fun _ c hc b hb => ?_,
    fun _ => h.still hrun, fun _ hm b hb hle => ?_, fun _ b hb => ?_⟩
  · rcases (hcalls c).1 hc with hc | rfl
    · exact h.past c hc
    · exact ⟨hdue, le_refl _, h.numbers a ha⟩
  · rcases (hcalls c).1 hc with hc | rfl
    · exact h.gone c hc b (hmem hb).2.1
    · exact fun heq => (hmem hb).1 (h.distinct b (hmem hb).2.1 a ha heq)
  · refine List.pairwise_append.2 ⟨h.sorted, by simp, fun c hc d hd => ?_⟩
    rw [List.mem_singleton.1 hd]
    exact h.behind hrun c hc a ha
  · have hnew : number a ∉ e.calls.map (·.number) := by
      intro hm
      obtain ⟨c, hc, heq⟩ := List.mem_map.1 hm
      exact h.gone c hc a ha heq.symm
    simpa [Expiry.call, List.nodup_append', List.disjoint_singleton] using ⟨h.once, by simpa using hnew⟩
  · obtain ⟨hsub, hnd'⟩ := h.steady hm
    obtain ⟨hd, hnot⟩ := h.ready hrun hm a ha hdue
    refine ⟨fun b hb => ?_, ?_⟩
    · rcases (hcalled b).1 hb with hb | rfl
      · exact hsub b hb
      · exact hd
    · have hmap : (e.call ⟨a, key a, now, number a⟩).called = e.called ++ [a] := by
        simp [Expiry.called, Expiry.call]
      rw [hmap, List.nodup_append']
      exact ⟨hnd', by simp, by simpa [List.disjoint_singleton] using hnot⟩
  · rw [(hmem hb).2.2]
    rcases (hcalls c).1 hc with hc | rfl
    · exact h.behind hrun c hc b (hmem hb).2.1
    · exact hmin b (hmem hb).2.1
  · rw [(hmem hb).2.2] at hle
    obtain ⟨hd, hnot⟩ := h.ready hrun hm b (hmem hb).2.1 hle
    exact ⟨hd, fun hc => ((hcalled b).1 hc).elim hnot (hmem hb).1⟩
  · rcases h.left hrun b hb with hb | hb | ⟨hb, hle⟩
    · exact .inl ((hcalled b).2 (.inl hb))
    · exact .inr (.inl hb)
    · by_cases hba : b = a
      · exact .inl ((hcalled b).2 (.inr hba))
      · exact .inr (.inr ⟨(List.mem_erase_of_ne hba).2 hb, (hkey b hba).symm ▸ hle⟩)

/-- No timer is due any more. -/
theorem Log.finish (h : Log .loop now armed key number serial e) (hlate : ∀ b ∈ armed, now < key b) :
    Log .idle now armed key number serial e := by
  have hrun : Pc.loop ≠ .idle := by simp
  refine ⟨h.numbers, h.distinct, h.past, h.gone, h.sorted, h.once, h.steady, fun _ b hb => ?_,
    by simp, by simp, by simp, by simp, by simp⟩
  rcases h.left hrun b hb with hb | hb | ⟨hb, hle⟩
  · exact .inl hb
  · exact .inr hb
  · have h1 := hlate b hb
    have h2 := h.began hrun
    omega

theorem Log.start (h : Log .idle now armed key number serial e) :
    Log .loop now armed key number serial
      { began := now, due := armed.filter fun a => decide (key a ≤ now) } := by
  refine ⟨h.numbers, h.distinct, by simp, by simp, by simp, by simp, by simp [Expiry.called],
    by simp, by simp, by simp, by simp, fun _ _ b hb hle => ?_, fun _ b hb => ?_⟩
  · simp [Expiry.called, hb, hle]
  · obtain ⟨hb, hle⟩ := List.mem_filter.1 hb
    exact .inr (.inr ⟨hb, by simpa using hle⟩)

theorem Log.tick (h : Log pc now armed key number serial e) (hn : now ≤ n) :
    Log pc n armed key number serial (e.tick (decide (pc ≠ .idle ∧ n ≠ now))) := by
  have hm (hr : pc ≠ .idle) (hm : (e.tick (decide (pc ≠ .idle ∧ n ≠ now))).moved = false) :
      e.moved = false ∧ n = now := by
    simpa [Expiry.tick, hr] using hm
  refine ⟨h.numbers, h.distinct, fun c hc => ?_, h.gone, h.sorted, h.once, fun hm' => ?_, h.ended,
    fun hr => Int.le_trans (h.began hr) hn, h.behind, fun hr hm' => ?_, fun hr hm' b hb hle => ?_,
    h.left⟩
  · obtain ⟨h1, h2, h3⟩ := h.past c hc
    exact ⟨h1, Int.le_trans h2 hn, h3⟩
  · exact h.steady (by simp [Expiry.tick] at hm'; exact hm'.1)
  · obtain ⟨h1, rfl⟩ := hm hr hm'
    exact h.still hr h1
  · obtain ⟨h1, rfl⟩ := hm hr hm'
    exact h.ready hr h1 b hb hle

theorem Log.ret (h : Log .handler now armed key number serial e) :
    Log .loop now armed key number serial e := by
  have hrun : Pc.handler ≠ .idle := by simp
  exact ⟨h.numbers, h.distinct, h.past, h.gone, h.sorted, h.once, h.steady, by simp,
    fun _ => h.began hrun, fun _ => h.behind hrun, fun _ => h.still hrun, fun _ => h.ready hrun,
    fun _ => h.left hrun⟩

end Log

/-! ## The invariant -/

/-- The tree holds the set timers, each with a key close to what was last asked for. -/
structure Keeps (s : State) (t : ColorTree Nat) : Prop where
  running : s.stuck = false
  holds : Holds s.tree t
  nodes : t.inorder.Perm s.armed
  set : ∀ ev, s.timerSet ev = true ↔ ev ∈ s.armed
  close : ∀ ev ∈ s.armed, (s.tree.key ev - s.target ev).natAbs < eventTimerLazyDelay
  range : ∀ ev ∈ s.armed, InRange (s.tree.key ev - s.now)
  log : Log s.pc s.now s.armed s.tree.key s.number s.serial s.expiry

/-- An `event_timer_add` that is dropped for its small difference has a small difference, and the
clock goes to no time that is 2^63 past a set timer. -/
def Sound (w : Nat) (s : State) : Act → Prop
  | .add ev timer => s.timerSet ev = true →
      lazyDiff w (s.now + timer) (s.tree.key ev) < eventTimerLazyDelay →
      (s.now + timer - s.tree.key ev).natAbs < eventTimerLazyDelay
  | .tick n => ∀ ev ∈ s.armed, -2 ^ 63 ≤ s.tree.key ev - n
  | _ => True

instance (w : Nat) (s : State) (a : Act) : Decidable (Sound w s a) := by
  cases a <;> unfold Sound <;> infer_instance

theorem wrapTo_inRange {x : Int} (h : InRange x) : wrapTo 64 x = x := by
  obtain ⟨h1, h2⟩ := h
  unfold wrapTo
  exact Int.bmod_eq_of_le (by omega) (by omega)

section Keeps

variable {s : State} {t : ColorTree Nat} {ev : Nat} {key : Int}

theorem Keeps.nodup (h : Keeps s t) : s.armed.Nodup := h.nodes.nodup_iff.1 h.holds.zip.nodup

theorem Keeps.root_iff (h : Keeps s t) : s.tree.root = s.tree.sentinel ↔ s.armed = [] := by
  rw [h.holds.root_eq_sentinel]
  refine ⟨?_, fun ha => ?_⟩
  · rintro rfl
    exact h.nodes.nil_eq.symm
  · by_contra hn
    have hm := h.nodes.mem_iff.1 (ptr_mem (s := s.tree.sentinel) hn)
    rw [ha] at hm
    cases hm

/-- The least timer. -/
theorem Keeps.min (h : Keeps s t) (hne : s.armed ≠ []) :
    ∃ a ∈ s.armed, rbtreeMin s.fuel s.tree.root s.tree = some a ∧
      ∀ b ∈ s.armed, s.tree.key a ≤ s.tree.key b := by
  have ht : t ≠ ColorTree.nil := fun hn => hne (h.root_iff.1 (h.holds.root_eq_sentinel.2 hn))
  have hlen := h.nodes.length_eq
  obtain ⟨a, l, hin, hmin, hle⟩ := h.holds.min ht
    (show t.inorder.length ≤ s.fuel by unfold State.fuel; omega)
  have hmem (b : Nat) : b ∈ s.armed ↔ b = a ∨ b ∈ l := by
    rw [← h.nodes.mem_iff, hin, List.mem_cons]
  refine ⟨a, (hmem a).2 (.inl rfl), hmin, fun b hb => ?_⟩
  rcases (hmem b).1 hb with rfl | hb
  · exact Int.le_refl _
  · exact hle b hb

/-- What `rbtree_delete` does to a set timer. -/
theorem Keeps.rbtreeDelete (h : Keeps s t) (hev : ev ∈ s.armed) :
    ∃ m t', rbtreeDelete s.fuel ev s.tree = some m ∧ Holds m t' ∧
      t'.inorder.Perm (s.armed.erase ev) ∧ (∀ b, b ≠ ev → m.key b = s.tree.key b) ∧
      m.sentinel = s.tree.sentinel := by
  have hlen := h.nodes.length_eq
  obtain ⟨m, t', hm, hholds, hin, hkept⟩ := rbtreeDelete_spec h.holds (h.nodes.mem_iff.2 hev)
    (show t.inorder.length + 2 ≤ s.fuel by unfold State.fuel; omega)
  exact ⟨m, t', hm, hholds, hin ▸ h.nodes.erase ev, hkept.key, hkept.sentinel⟩

theorem set_erase (hset : ∀ b, s.timerSet b = true ↔ b ∈ s.armed) (hnd : s.armed.Nodup) (ev b : Nat) :
    Function.update s.timerSet ev false b = true ↔ b ∈ s.armed.erase ev := by
  rw [hnd.mem_erase_iff, Function.update_apply]
  split
  · simp [*]
  · simp [*]

theorem Keeps.eventTimerDel (h : Keeps s t) (hpc : s.pc ≠ .loop) (ev : Nat) :
    ∃ t', Keeps (eventTimerDel ev s) t' ∧ ev ∉ (eventTimerDel ev s).armed ∧
      (eventTimerDel ev s).tree.sentinel = s.tree.sentinel ∧
      (eventTimerDel ev s).now = s.now ∧ (eventTimerDel ev s).pc = s.pc ∧
      (eventTimerDel ev s).target = s.target := by
  unfold EventTimer.eventTimerDel
  split
  · rename_i hset
    obtain ⟨m, t', hm, hholds, hperm, hkey, hsent⟩ := h.rbtreeDelete ((h.set ev).1 hset)
    have hnd := h.nodup
    have hmem {b : Nat} (hb : b ∈ s.armed.erase ev) : b ∈ s.armed ∧ m.key b = s.tree.key b := by
      obtain ⟨hne, hb⟩ := hnd.mem_erase_iff.1 hb
      exact ⟨hb, hkey b hne⟩
    rw [hm]
    refine ⟨t', ⟨h.running, hholds, hperm, set_erase h.set hnd ev, fun b hb => ?_, fun b hb => ?_,
      h.log.erase hnd hpc hkey⟩, fun hb => (hnd.mem_erase_iff.1 hb).1 rfl, hsent, rfl, rfl, rfl⟩
    · have hb' := hmem hb
      show (m.key b - s.target b).natAbs < eventTimerLazyDelay
      rw [hb'.2]
      exact h.close b hb'.1
    · have hb' := hmem hb
      show InRange (m.key b - s.now)
      rw [hb'.2]
      exact h.range b hb'.1
  · rename_i hset
    exact ⟨t, h, fun hm => hset ((h.set ev).2 hm), rfl, rfl, rfl, rfl⟩

theorem Keeps.insertTimer (h : Keeps s t) (hev : ev ∉ s.armed) (hs : ev ≠ s.tree.sentinel)
    (htarget : s.target ev = key) (hrange : InRange (key - s.now))
    (hk : s.pc = .idle ∨ s.now < key) : ∃ t', Keeps (insertTimer ev key s) t' := by
  have hlen := h.nodes.length_eq
  have hout : ev ∉ t.inorder := fun hm => hev (h.nodes.mem_iff.1 hm)
  obtain ⟨m, t', hm, hholds, hperm, hsame⟩ := rbtreeInsert_spec (x := ev)
    (h.holds.setKey (k := key) hout) hout hs
    (show t.inorder.length < s.fuel by unfold State.fuel; omega)
  have hkey (b : Nat) : m.key b = if b = ev then key else s.tree.key b := by
    rw [hsame.key, key_setKey]
  have hkeyne (b : Nat) (hb : b ≠ ev) : m.key b = s.tree.key b := by rw [hkey, if_neg hb]
  have hkeyev : m.key ev = key := by rw [hkey, if_pos rfl]
  unfold EventTimer.insertTimer
  rw [hm]
  refine ⟨t', h.running, hholds, hperm.trans (h.nodes.cons ev), fun b => ?_, fun b hb => ?_,
    fun b hb => ?_, h.log.insert hev (hk.imp_right fun hk => hkeyev ▸ hk) hkeyne⟩
  · show Function.update s.timerSet ev true b = true ↔ b ∈ ev :: s.armed
    rw [Function.update_apply, List.mem_cons, ← h.set b]
    split <;> simp [*]
  · show (m.key b - s.target b).natAbs < eventTimerLazyDelay
    rcases List.mem_cons.1 hb with rfl | hb
    · simp [hkeyev, htarget, eventTimerLazyDelay]
    · rw [hkeyne b (ne_of_mem_of_not_mem hb hev)]
      exact h.close b hb
  · show InRange (m.key b - s.now)
    rcases List.mem_cons.1 hb with rfl | hb
    · rwa [hkeyev]
    · rw [hkeyne b (ne_of_mem_of_not_mem hb hev)]
      exact h.range b hb

/-- The target of a timer that is not set, or close to its key. -/
theorem Keeps.retarget (h : Keeps s t) (ev : Nat) (key : Int)
    (hev : ev ∈ s.armed → (s.tree.key ev - key).natAbs < eventTimerLazyDelay) :
    Keeps { s with target := Function.update s.target ev key } t := by
  refine ⟨h.running, h.holds, h.nodes, h.set, fun b hb => ?_, h.range, h.log⟩
  show (s.tree.key b - Function.update s.target ev key b).natAbs < eventTimerLazyDelay
  rw [Function.update_apply]
  split
  · rename_i hbe
    subst hbe
    exact hev hb
  · exact h.close b hb

theorem eventTimerDel_retarget (f : Nat → Int) :
    eventTimerDel ev { s with target := f } = { eventTimerDel ev s with target := f } := by
  unfold eventTimerDel State.fuel
  split
  · dsimp only
    split <;> rfl
  · rfl

theorem Keeps.eventTimerAdd {w : Nat} {timer : Int} (h : Keeps s t)
    (hallowed : Allowed s (.add ev timer)) (hok : Sound w s (.add ev timer)) :
    ∃ t', Keeps (eventTimerAdd w ev timer s) t' := by
  obtain ⟨hs, htimer, hrange, hpc⟩ := hallowed
  have hdiff : InRange (s.now + timer - s.now) := by
    rwa [show s.now + timer - s.now = timer by omega]
  have hk : s.pc = .idle ∨ s.now < s.now + timer := hpc.imp_right fun hp => by omega
  have hloop : s.pc ≠ .loop := by
    rcases hpc with hp | ⟨hp, -⟩ <;> rw [hp] <;> simp
  simp only [EventTimer.eventTimerAdd, wrapTo_inRange hrange]
  split
  · rename_i hset
    split
    · rename_i hlazy
      refine ⟨t, h.retarget ev _ fun _ => ?_⟩
      have hclose := hok hset hlazy
      omega
    · obtain ⟨t', h', hout, hsent, hnow, hpc', htarget⟩ := h.eventTimerDel hloop ev
      have hr := h'.retarget ev (s.now + timer) fun hm => absurd hm hout
      rw [eventTimerDel_retarget, ← htarget]
      exact hr.insertTimer hout (hsent.symm ▸ hs) (Function.update_self ..) (hnow.symm ▸ hdiff)
        (by rw [hpc', hnow]; exact hk)
  · rename_i hset
    have hout : ev ∉ s.armed := fun hm => hset ((h.set ev).2 hm)
    have hr := h.retarget ev (s.now + timer) fun hm => absurd hm hout
    exact hr.insertTimer hout hs (Function.update_self ..) hdiff hk

theorem Keeps.eventTimersExpire (h : Keeps s t) (hpc : s.pc = .loop) :
    ∃ t', Keeps (eventTimersExpire s) t' := by
  have hlog := h.log
  rw [hpc] at hlog
  unfold EventTimer.eventTimersExpire
  split
  · rename_i hroot
    have hnone := h.root_iff.1 hroot
    exact ⟨t, h.running, h.holds, h.nodes, h.set, h.close, h.range, hlog.finish (by simp [hnone])⟩
  · rename_i hroot
    obtain ⟨a, ha, hmin, hle⟩ := h.min fun hn => hroot (h.root_iff.2 hn)
    rw [hmin]
    dsimp only
    split
    · rename_i hdue
      obtain ⟨m, t', hm, hholds, hperm, hkey, -⟩ := h.rbtreeDelete ha
      have hnd := h.nodup
      have hmem {b : Nat} (hb : b ∈ s.armed.erase a) : b ∈ s.armed ∧ m.key b = s.tree.key b := by
        obtain ⟨hne, hb⟩ := hnd.mem_erase_iff.1 hb
        exact ⟨hb, hkey b hne⟩
      rw [hm]
      refine ⟨t', h.running, hholds, hperm, set_erase h.set hnd a, fun b hb => ?_, fun b hb => ?_,
        hlog.call hnd ha hdue hle hkey⟩
      · have hb' := hmem hb
        show (m.key b - s.target b).natAbs < eventTimerLazyDelay
        rw [hb'.2]
        exact h.close b hb'.1
      · have hb' := hmem hb
        show InRange (m.key b - s.now)
        rw [hb'.2]
        exact h.range b hb'.1
    · rename_i hlate
      refine ⟨t, h.running, h.holds, h.nodes, h.set, h.close, h.range, hlog.finish fun b hb => ?_⟩
      have := hle b hb
      omega

theorem Keeps.step {w : Nat} {a : Act} (h : Keeps s t) (hok : Sound w s a) :
    ∃ t', Keeps (step w s a) t' := by
  unfold EventTimer.step
  split
  · rename_i hallowed
    cases a with
    | tick n =>
      obtain ⟨hn, -⟩ := hallowed
      refine ⟨t, h.running, h.holds, h.nodes, h.set, h.close, fun b hb => ?_, h.log.tick hn⟩
      obtain ⟨-, h2⟩ := h.range b hb
      exact ⟨hok b hb, by show s.tree.key b - n < 2 ^ 63; omega⟩
    | add ev timer => exact h.eventTimerAdd hallowed hok
    | del ev =>
      obtain ⟨t', h', -⟩ := h.eventTimerDel hallowed ev
      exact ⟨t', h'⟩
    | expire =>
      have hlog := h.log
      rw [show s.pc = .idle from hallowed] at hlog
      exact ⟨t, h.running, h.holds, h.nodes, h.set, h.close, h.range, hlog.start⟩
    | next => exact h.eventTimersExpire hallowed
    | ret =>
      have hlog := h.log
      rw [show s.pc = .handler from hallowed] at hlog
      exact ⟨t, h.running, h.holds, h.nodes, h.set, h.close, h.range, hlog.ret⟩
  · exact ⟨t, h⟩

theorem keeps_init (sentinel : Nat) (m : RbTree) (now : Int) :
    Keeps (eventTimerInit sentinel m now) ColorTree.nil := by
  refine ⟨rfl, holds_init .., .refl _, by simp [eventTimerInit], by simp [eventTimerInit],
    by simp [eventTimerInit], ?_⟩
  constructor <;> simp [eventTimerInit, Expiry.called]

end Keeps

/-! ## Every run -/

/-- The handlers of one `event_timers_expire`: of timers that are due, in the order of their keys,
each timer once. When it has returned, every timer due at its start was called or deleted by a
handler. If the clock stood still, it called no other event, and none twice. -/
structure Served (pc : Pc) (e : Expiry) : Prop where
  due : ∀ c ∈ e.calls, c.key ≤ c.clock
  sorted : e.calls.Pairwise fun c d => c.key ≤ d.key
  once : (e.calls.map (·.number)).Nodup
  all : pc = .idle → ∀ ev ∈ e.due, ev ∈ e.called ∨ ev ∈ e.dropped
  only : e.moved = false → (∀ ev ∈ e.called, ev ∈ e.due) ∧ e.called.Nodup ∧
    e.calls.length ≤ e.due.length

structure Timely (s : State) : Prop where
  running : s.stuck = false
  tree : ∃ t, Holds s.tree t ∧ ∀ ev, s.timerSet ev = true ↔ ev ∈ t.inorder
  close : ∀ ev, s.timerSet ev = true →
    (s.tree.key ev - s.target ev).natAbs < eventTimerLazyDelay
  infinite : (∀ ev, s.timerSet ev = false) → eventFindTimer s = some eventTimerInfinite
  find : ∀ ev, s.timerSet ev = true →
    (∀ b, s.timerSet b = true → s.tree.key ev ≤ s.tree.key b) →
    eventFindTimer s = some (max 0 (s.tree.key ev - s.now))
  served : Served s.pc s.expiry

section Timely

variable {s : State} {t : ColorTree Nat}

theorem Keeps.find (h : Keeps s t) {ev : Nat} (hev : ev ∈ s.armed)
    (hle : ∀ b ∈ s.armed, s.tree.key ev ≤ s.tree.key b) :
    eventFindTimer s = some (max 0 (s.tree.key ev - s.now)) := by
  have hne : s.armed ≠ [] := List.ne_nil_of_mem hev
  obtain ⟨a, ha, hmin, hle'⟩ := h.min hne
  have hkey : s.tree.key a = s.tree.key ev := Int.le_antisymm (hle' ev hev) (hle a ha)
  have hroot : s.tree.root ≠ s.tree.sentinel := fun hr => hne (h.root_iff.1 hr)
  rw [eventFindTimer, if_neg hroot, hmin, Option.bind_eq_bind, Option.bind_some, hkey,
    wrapTo_inRange (h.range ev hev)]
  refine congrArg some ?_
  split <;> omega

theorem Keeps.served (h : Keeps s t) : Served s.pc s.expiry := by
  refine ⟨fun c hc => (h.log.past c hc).1, h.log.sorted, h.log.once, h.log.ended, fun hm => ?_⟩
  obtain ⟨hsub, hnd⟩ := h.log.steady hm
  refine ⟨hsub, hnd, ?_⟩
  have hlen := (hnd.subperm hsub).length_le
  simpa [Expiry.called] using hlen

theorem Keeps.timely (h : Keeps s t) : Timely s := by
  refine ⟨h.running, ⟨t, h.holds, fun ev => (h.set ev).trans h.nodes.mem_iff.symm⟩,
    fun ev hev => h.close ev ((h.set ev).1 hev), fun hnone => ?_,
    fun ev hev hle => h.find ((h.set ev).1 hev) fun b hb => hle b ((h.set b).2 hb), h.served⟩
  have harmed : s.armed = [] := by
    refine List.eq_nil_iff_forall_not_mem.2 fun ev hev => ?_
    have hset := (h.set ev).2 hev
    rw [hnone ev] at hset
    cases hset
  rw [eventFindTimer, if_pos (h.root_iff.2 harmed)]

end Timely

/-- The timer service, for `abs` on a type of `w` bits, in every run in which no large change of a
timer looks small to that `abs` and no set timer gets overdue by 2^63. -/
theorem timers_run (w sentinel : Nat) (m : RbTree) (now : Int) (acts : List Act)
    (hmeets : Run.Meets (step w) (Sound w) (eventTimerInit sentinel m now) acts) :
    Timely (Run.exec (step w) (eventTimerInit sentinel m now) acts) := by
  obtain ⟨t, h⟩ := Run.invariant (I := fun s => ∃ t, Keeps s t) (step w)
    ⟨ColorTree.nil, keeps_init sentinel m now⟩ (fun _ _ ⟨_, h⟩ hok => h.step hok) hmeets
  exact h.timely

/-- Memory that nothing was written to. -/
def blank : RbTree := ⟨fun _ => {}, 0, 0, .value⟩

/-- Two timers are due; the handler of the first deletes the other and sets its own again. -/
theorem timers_run_handlers : Timely (Run.exec (step 32) (eventTimerInit 0 blank 100)
    [.add 1 500, .add 2 1000, .add 3 50, .add 2 1200, .tick 650, .expire, .next, .del 1, .add 3 10,
      .ret, .next]) := by
  refine timers_run _ _ _ _ _ (Run.meets_of_check _ ?_)
  decide +kernel

/-- With `int abs(int)` a change by 2^32 looks like none; with the overload for `long` the
difference -2^63 looks negative. The old key stays. -/
theorem large_change_dropped :
    (¬ ∀ acts, Timely (Run.exec (step 32) (eventTimerInit 0 blank 0) acts)) ∧
      ¬ ∀ acts, Timely (Run.exec (step 64) (eventTimerInit 0 blank 0) acts) := by
  constructor
  · intro h
    have hclose := (h [.add 1 (2 ^ 32), .add 1 0]).close 1
    revert hclose
    decide +kernel
  · intro h
    have hclose := (h [.add 1 (2 ^ 62), .add 1 (-2 ^ 62)]).close 1
    revert hclose
    decide +kernel

end EventTimer
end Shs
