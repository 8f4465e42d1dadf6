import Mathlib.Algebra.Order.Ring.Int
import Mathlib.Data.List.Perm.Subperm
import Mathlib.Logic.Function.Basic
import Shs.Lib.Rotor

/-!
# Framework.Dispatch

`ModuleImpl::DispatchTask`, which offers a task to the workers of a module in turn, starting with
the one behind the last one asked. How a worker takes its tasks from the queue is in
`Framework.Watcher`.
-/

namespace Shs
namespace Framework

/-- The queue of a `Worker`. -/
structure TaskQueue (α : Type) where
  tasks : List α
  queueSize : Nat
  deriving DecidableEq, Repr

variable {α : Type}

/-- `Worker::AddTask`. -/
def addTask (task : α) (q : TaskQueue α) : TaskQueue α × Bool :=
  if q.tasks = [] then ({ q with tasks := [task] }, true)
  else if q.queueSize ≤ q.tasks.length then (q, false)
  else ({ q with tasks := q.tasks ++ [task] }, true)

/-- A `ModuleImpl` with its workers, `workerNum` in number. `last_worker_` is not set before it is
used. -/
structure ModuleImpl (α : Type) where
  workerNum : Nat
  spawned : 0 < workerNum
  sizeT : workerNum < 2 ^ 64
  workers : Nat → TaskQueue α
  lastWorker : UInt64

/-- What a call of `DispatchTask` leaves and returns, and the workers it asks, in order. -/
structure Dispatched (α : Type) where
  impl : ModuleImpl α
  accepted : Bool
  tried : List Nat

/-- The loop of `DispatchTask` with `k` rounds to go. -/
def dispatchLoop (task : α) : Nat → ModuleImpl α → Dispatched α
  | 0, m => ⟨m, false, []⟩
  | k + 1, m =>
    let idx := m.lastWorker.toNat % m.workerNum
    let m := { m with lastWorker := m.lastWorker + 1 }
    match addTask task (m.workers idx) with
    | (q, true) => ⟨{ m with workers := Function.update m.workers idx q }, true, [idx]⟩
    | (_, false) =>
      let d := dispatchLoop task k m
      { d with tried := idx :: d.tried }

/-- `ModuleImpl::DispatchTask`. -/
def dispatchTask (task : α) (m : ModuleImpl α) : Dispatched α := dispatchLoop task m.workerNum m

/-- The queue takes no task. -/
def TaskQueue.Full (q : TaskQueue α) : Prop := q.tasks ≠ [] ∧ q.queueSize ≤ q.tasks.length

/-- No worker is asked twice. The workers asked before the last one refuse; the last one takes the
task, and no other queue changes. If none takes it, all have been asked and no queue changes. -/
structure AsksEachOnce (task : α) (m : ModuleImpl α) (d : Dispatched α) : Prop where
  once : d.tried.Nodup
  workers : ∀ i ∈ d.tried, i < m.workerNum
  taken : d.accepted = true → ∃ asked i, d.tried = asked ++ [i] ∧
    (∀ j ∈ asked, (m.workers j).Full) ∧ ¬ (m.workers i).Full ∧
    d.impl.workers = Function.update m.workers i
      { m.workers i with tasks := (m.workers i).tasks ++ [task] }
  refused : d.accepted = false → (∀ i < m.workerNum, i ∈ d.tried ∧ (m.workers i).Full) ∧
    d.impl.workers = m.workers

/-- The worker asked in round `i`. -/
def ModuleImpl.asked (m : ModuleImpl α) (i : Nat) : Nat :=
  Rotor.slot (2 ^ 64) m.workerNum m.lastWorker.toNat i

/-! ## The loop -/

theorem addTask_full {q : TaskQueue α} (h : q.Full) (task : α) : addTask task q = (q, false) := by
  rw [addTask, if_neg h.1, if_pos h.2]

theorem addTask_room {q : TaskQueue α} (h : ¬ q.Full) (task : α) :
    addTask task q = ({ q with tasks := q.tasks ++ [task] }, true) := by
  unfold addTask
  split
  · rename_i hnil
    simp [hnil]
  · rename_i hne
    have hlt : ¬ q.queueSize ≤ q.tasks.length := fun hle => h ⟨hne, hle⟩
    rw [if_neg hlt]

theorem asked_zero (m : ModuleImpl α) : m.asked 0 = m.lastWorker.toNat % m.workerNum := by
  rw [ModuleImpl.asked, Rotor.slot, Nat.add_zero, Nat.mod_eq_of_lt m.lastWorker.toNat_lt]

theorem asked_succ (m : ModuleImpl α) :
    ({ m with lastWorker := m.lastWorker + 1 } : ModuleImpl α).asked =
      fun i => m.asked (i + 1) := by
  funext i
  simp only [ModuleImpl.asked, Rotor.slot, UInt64.toNat_add, UInt64.reduceToNat]
  rw [Nat.mod_add_mod, Nat.add_assoc, Nat.add_comm 1 i]

/-- The loop asks up to the first worker with room, or as often as it may. -/
theorem dispatchLoop_spec (task : α) (k : Nat) (m : ModuleImpl α) :
    (∃ c < k, (∀ i < c, (m.workers (m.asked i)).Full) ∧ ¬ (m.workers (m.asked c)).Full ∧
      (dispatchLoop task k m).accepted = true ∧
      (dispatchLoop task k m).tried = (List.range (c + 1)).map m.asked ∧
      (dispatchLoop task k m).impl.workers = Function.update m.workers (m.asked c)
        { m.workers (m.asked c) with tasks := (m.workers (m.asked c)).tasks ++ [task] }) ∨
    (∀ i < k, (m.workers (m.asked i)).Full) ∧
      (dispatchLoop task k m).accepted = false ∧
      (dispatchLoop task k m).tried = (List.range k).map m.asked ∧
      (dispatchLoop task k m).impl.workers = m.workers := by
  induction k generalizing m with
  | zero => exact .inr ⟨by simp, rfl, rfl, rfl⟩
  | succ k ih =>
    have hidx := asked_zero m
    by_cases hfull : (m.workers (m.asked 0)).Full
    · have hstep : dispatchLoop task (k + 1) m =
          { dispatchLoop task k { m with lastWorker := m.lastWorker + 1 } with
            tried := m.asked 0 ::
              (dispatchLoop task k { m with lastWorker := m.lastWorker + 1 }).tried } := by
        rw [hidx] at hfull ⊢
        rw [dispatchLoop]
        dsimp only
        rw [addTask_full hfull]
      have hall : ∀ {c : Nat}, (∀ i < c, (m.workers (m.asked (i + 1))).Full) →
          ∀ i < c + 1, (m.workers (m.asked i)).Full := by
        intro c h i hi
        cases i with
        | zero => exact hfull
        | succ i => exact h i (by omega)
      have hmap : ∀ c : Nat, m.asked 0 :: (List.range c).map (fun i => m.asked (i + 1)) =
          (List.range (c + 1)).map m.asked := by
        intro c
        rw [List.range_succ_eq_map, List.map_cons, List.map_map]
        rfl
      rw [hstep]
      rcases ih { m with lastWorker := m.lastWorker + 1 } with
        ⟨c, hc, hbefore, hroom, hacc, htried, hworkers⟩ | ⟨hbefore, hacc, htried, hworkers⟩
      · simp only [asked_succ] at hbefore hroom htried hworkers
        refine .inl ⟨c + 1, by omega, hall hbefore, hroom, hacc, ?_, hworkers⟩
        exact (congrArg _ htried).trans (hmap (c + 1))
      · simp only [asked_succ] at hbefore htried
        exact .inr ⟨hall hbefore, hacc, (congrArg _ htried).trans (hmap k), hworkers⟩
    · refine .inl ⟨0, by omega, by simp, hfull, ?_⟩
      rw [hidx] at hfull ⊢
      rw [dispatchLoop]
      dsimp only
      rw [addTask_room hfull]
      exact ⟨rfl, by simp [hidx], rfl⟩

/-! ## Each worker once -/

theorem asked_lt (m : ModuleImpl α) (i : Nat) : m.asked i < m.workerNum :=
  Rotor.slot_lt m.spawned i

/-- `n` different workers are all the workers. -/
theorem mem_of_nodup {n : Nat} {is : List Nat} (hnodup : is.Nodup) (hlt : ∀ i ∈ is, i < n)
    (hlen : is.length = n) {i : Nat} (hi : i < n) : i ∈ is := by
  have hsub : is.Subperm (List.range n) :=
    hnodup.subperm fun j hj => List.mem_range.2 (hlt j hj)
  have hperm := hsub.perm_of_length_le (by simp [hlen])
  exact hperm.mem_iff.2 (List.mem_range.2 hi)

theorem dispatchTask_of_nodup (task : α) (m : ModuleImpl α)
    (h : (dispatchTask task m).tried.Nodup) : AsksEachOnce task m (dispatchTask task m) := by
  rcases dispatchLoop_spec task m.workerNum m with
    ⟨c, hc, hbefore, hroom, hacc, htried, hworkers⟩ | ⟨hbefore, hacc, htried, hworkers⟩
  · refine ⟨h, ?_, ?_, fun hno => absurd (hacc.symm.trans hno) (by simp)⟩
    · intro i hi
      rw [dispatchTask, htried] at hi
      obtain ⟨j, -, rfl⟩ := List.mem_map.1 hi
      exact asked_lt m j
    · intro _
      refine ⟨(List.range c).map m.asked, m.asked c, ?_, ?_, hroom, hworkers⟩
      · rw [dispatchTask, htried, List.range_succ, List.map_append, List.map_singleton]
      · intro j hj
        obtain ⟨i, hi, rfl⟩ := List.mem_map.1 hj
        exact hbefore i (List.mem_range.1 hi)
  · have hlt : ∀ i ∈ (dispatchTask task m).tried, i < m.workerNum := by
      intro i hi
      rw [dispatchTask, htried] at hi
      obtain ⟨j, -, rfl⟩ := List.mem_map.1 hi
      exact asked_lt m j
    refine ⟨h, hlt, fun hyes => absurd (hacc.symm.trans hyes) (by simp), fun _ => ⟨?_, hworkers⟩⟩
    intro i hi
    have hmem := mem_of_nodup h hlt (by rw [dispatchTask, htried]; simp) hi
    refine ⟨hmem, ?_⟩
    rw [dispatchTask, htried] at hmem
    obtain ⟨j, hj, rfl⟩ := List.mem_map.1 hmem
    exact hbefore j (List.mem_range.1 hj)

/-- `DispatchTask` asks each worker once until one takes the task if and only if `2 ^ 64` is a
multiple of the number of workers, or the counter does not wrap within that many rounds, or a
worker with room comes before a worker would be asked again. -/
theorem dispatchTask_asksEachOnce_iff (task : α) (m : ModuleImpl α) :
    AsksEachOnce task m (dispatchTask task m) ↔
      2 ^ 64 % m.workerNum = 0 ∨ m.lastWorker.toNat + m.workerNum ≤ 2 ^ 64 ∨
      ∃ i < max (2 ^ 64 - m.lastWorker.toNat) (2 ^ 64 % m.workerNum),
        ¬ (m.workers ((m.lastWorker.toNat + i) % 2 ^ 64 % m.workerNum)).Full := by
  have hs := m.lastWorker.toNat_lt
  have hr := Nat.mod_lt (2 ^ 64) m.spawned
  have hslots := fun {t : Nat} (ht : t ≤ m.workerNum) =>
    Rotor.nodup_slots_iff hs (Nat.le_of_lt m.sizeT) ht
  have hnodup : AsksEachOnce task m (dispatchTask task m) ↔ (dispatchTask task m).tried.Nodup :=
    ⟨fun h => h.once, dispatchTask_of_nodup task m⟩
  rw [hnodup]
  rcases dispatchLoop_spec task m.workerNum m with
    ⟨c, hc, hbefore, hroom, -, htried, -⟩ | ⟨hbefore, -, htried, -⟩
  · rw [dispatchTask, htried]
    refine (hslots (show c + 1 ≤ m.workerNum by omega)).trans ?_
    constructor
    · rintro (h | h)
      · exact .inl h
      · exact .inr (.inr ⟨c, by omega, hroom⟩)
    · rintro (h | h | ⟨i, hi, hnot⟩)
      · exact .inl h
      · exact .inr (by omega)
      · refine .inr ?_
        have hci : c ≤ i := by
          by_contra hlt
          exact hnot (hbefore i (by omega))
        omega
  · rw [dispatchTask, htried]
    refine (hslots (Nat.le_refl m.workerNum)).trans ?_
    constructor
    · rintro (h | h)
      · exact .inl h
      · exact .inr (.inl (by omega))
    · rintro (h | h | ⟨i, hi, hnot⟩)
      · exact .inl h
      · exact .inr (by omega)
      · refine .inr ?_
        have hni : m.workerNum ≤ i := by
          by_contra hlt
          exact hnot (hbefore i (by omega))
        omega

/-- Three workers, of which only worker 2 has room, and a counter at its last value: worker 0 is
asked twice, worker 2 never, and the task is refused. -/
theorem dispatchTask_not_asksEachOnce :
    ¬ ∀ (task : Nat) (m : ModuleImpl Nat), AsksEachOnce task m (dispatchTask task m) := by
  intro h
  have honce := (h 9 ⟨3, by decide, by decide, fun i => ⟨if i = 2 then [] else [7], 1⟩,
    18446744073709551615⟩).once
  exact absurd honce (by decide)

end Framework
end Shs
