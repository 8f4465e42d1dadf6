import Shs.Core.Bytes

/-!
# Process.QueueStatus

The statistics that the processes share and `get_queue_status`, by which a worker compares its
queue with those of the others.
-/

namespace Shs
namespace Process

def MAX_PROCESSES : Nat := 1024

/-- What `get_queue_status` reads of a `ProcessStats`. -/
structure ProcessStats where
  currQueueSize : UInt32
  pid : Int
  type : Int
  deriving DecidableEq, Repr

/-- What the pointers handed to `get_queue_status` point to, `none` for a null pointer. -/
structure QueueStatus where
  min : Option Int
  max : Option Int
  curr : Option Int
  zero : Option Int
  deriving DecidableEq, Repr

/-- An entry that the loop does not skip. -/
def ProcessStats.counted (e : ProcessStats) : Bool := decide (0 < e.pid) && e.type == 1

/-- The `int n` that the loop reads the queue size into. -/
def ProcessStats.size (e : ProcessStats) : Int := toInt32 e.currQueueSize.toNat

/-- The body of the loop of `get_queue_status`. -/
def queueStatusOf (q : QueueStatus) (e : ProcessStats) : QueueStatus :=
  if e.counted then
    { q with
      zero := if e.size = 0 then q.zero.map (· + 1) else q.zero
      min := q.min.map fun m => Min.min m e.size
      max := q.max.map fun m => Max.max m e.size }
  else q

/-- `get_queue_status` over the table `stats`, in a process whose slot has `queueLength`. -/
def getQueueStatus (queueLength : Int) (stats : Nat → ProcessStats) (q : QueueStatus) :
    QueueStatus :=
  let q : QueueStatus :=
    ⟨q.min.map fun _ => 0, q.max.map fun _ => 0, q.curr.map fun _ => queueLength,
      q.zero.map fun _ => 0⟩
  ((List.range MAX_PROCESSES).map stats).foldl queueStatusOf q

/-- The queue sizes of the workers in the table. -/
def workerSizes (stats : Nat → ProcessStats) : List Nat :=
  (((List.range MAX_PROCESSES).map stats).filter ProcessStats.counted).map
    fun e => e.currQueueSize.toNat

/-- The results are the extrema of `sizes`, and the number of its zeros. -/
structure Exact (sizes : List Nat) (q : QueueStatus) : Prop where
  min : ∀ v ∈ q.min, (sizes.map fun n : Nat => (n : Int)).min? = some v
  max : ∀ v ∈ q.max, (sizes.map fun n : Nat => (n : Int)).max? = some v
  zero : ∀ v ∈ q.zero, v = sizes.count 0

/-! ## The loop -/

theorem queueStatusOf_counted {e : ProcessStats} (he : e.counted = true) (q : QueueStatus) :
    queueStatusOf q e =
      { q with
        zero := if e.size = 0 then q.zero.map (· + 1) else q.zero
        min := q.min.map fun m => Min.min m e.size
        max := q.max.map fun m => Max.max m e.size } := by
  rw [queueStatusOf, if_pos he]

/-- What the loop makes of each accumulator. -/
theorem foldl_queueStatusOf (es : List ProcessStats) (q : QueueStatus) :
    es.foldl queueStatusOf q =
      { q with
        zero := q.zero.map (· + ((es.filter ProcessStats.counted).countP fun e => e.size = 0 : Nat))
        min := q.min.map fun m => ((es.filter ProcessStats.counted).map ProcessStats.size).foldl
          Min.min m
        max := q.max.map fun m => ((es.filter ProcessStats.counted).map ProcessStats.size).foldl
          Max.max m } := by
  induction es generalizing q with
  | nil => simp
  | cons e es ih =>
    rw [List.foldl_cons, ih]
    cases he : e.counted with
    | false => simp [queueStatusOf, he]
    | true =>
      rw [queueStatusOf_counted he]
      by_cases hz : e.size = 0
      · simp [he, hz, Function.comp_def, Int.add_assoc, Int.add_comm]
      · simp [he, hz, Function.comp_def]

theorem getQueueStatus_eq (queueLength : Int) (stats : Nat → ProcessStats) (q : QueueStatus) :
    getQueueStatus queueLength stats q =
      { min := q.min.map fun _ => ((workerSizes stats).map fun n : Nat => toInt32 n).foldl Min.min 0
        max := q.max.map fun _ => ((workerSizes stats).map fun n : Nat => toInt32 n).foldl Max.max 0
        curr := q.curr.map fun _ => queueLength
        zero := q.zero.map fun _ => ((workerSizes stats).countP fun n : Nat => toInt32 n = 0 : Nat) } := by
  rw [getQueueStatus, foldl_queueStatusOf]
  simp only [workerSizes, List.map_map, List.countP_map, Option.map_map, Function.comp_def,
    Int.zero_add, ProcessStats.size]
  rfl

theorem getQueueStatus_curr (queueLength : Int) (stats : Nat → ProcessStats) (q : QueueStatus) :
    (getQueueStatus queueLength stats q).curr = q.curr.map fun _ => queueLength := by
  rw [getQueueStatus_eq]

/-! ## Which sizes fit -/

theorem mem_workerSizes {stats : Nat → ProcessStats} {n : Nat} (h : n ∈ workerSizes stats) :
    n < 2 ^ 32 := by
  obtain ⟨e, -, rfl⟩ := List.mem_map.1 h
  exact e.currQueueSize.toNat_lt

theorem toInt32_natCast {n : Nat} (h : n < 2 ^ 32) :
    (n < 2 ^ 31 → toInt32 n = n) ∧ (2 ^ 31 ≤ n → toInt32 n = n - 2 ^ 32) := by
  constructor
  · intro hlt
    exact toInt32_of_range (by omega) (by omega)
  · intro hle
    have hsub : toInt32 n = toInt32 ((n : Int) - 2 ^ 32) := by
      unfold toInt32
      exact (Int.sub_bmod_right n (2 ^ 32)).symm
    rw [hsub]
    exact toInt32_of_range (by omega) (by omega)

theorem toInt32_eq_zero {n : Nat} (h : n < 2 ^ 32) : toInt32 n = 0 ↔ n = 0 := by
  obtain ⟨hlo, hhi⟩ := toInt32_natCast h
  rcases Nat.lt_or_ge n (2 ^ 31) with hn | hn
  · rw [hlo hn]
    omega
  · rw [hhi hn]
    omega

/-- The sizes that an `int` holds. -/
theorem map_toInt32 {ns : List Nat} (h : ∀ n ∈ ns, n < 2 ^ 31) :
    (ns.map fun n : Nat => toInt32 n) = ns.map fun n : Nat => (n : Int) :=
  List.map_congr_left fun n hn => (toInt32_natCast (by have := h n hn; omega)).1 (h n hn)

theorem foldl_min_spec (v : Int) (ns : List Int) :
    ns.foldl Min.min v ∈ v :: ns ∧ ∀ n ∈ v :: ns, ns.foldl Min.min v ≤ n :=
  List.min?_eq_some_iff.1 List.min?_cons'

theorem foldl_max_spec (v : Int) (ns : List Int) :
    ns.foldl Max.max v ∈ v :: ns ∧ ∀ n ∈ v :: ns, n ≤ ns.foldl Max.max v :=
  List.max?_eq_some_iff.1 List.max?_cons'

/-- The least size comes out if and only if it is 0, the value the accumulator starts from. -/
theorem min_iff {ns : List Nat} (hns : ∀ n ∈ ns, n < 2 ^ 32) :
    (ns.map fun n : Nat => (n : Int)).min? = some ((ns.map fun n : Nat => toInt32 n).foldl Min.min 0) ↔
      0 ∈ ns ∧ ∀ n ∈ ns, n < 2 ^ 31 := by
  obtain ⟨hmem, hle⟩ := foldl_min_spec 0 (ns.map fun n : Nat => toInt32 n)
  have hzero := hle 0 List.mem_cons_self
  rw [List.min?_eq_some_iff]
  constructor
  · rintro ⟨hin, -⟩
    obtain ⟨k, hk, hv⟩ := List.mem_map.1 hin
    obtain rfl : k = 0 := by omega
    refine ⟨hk, fun n hn => ?_⟩
    have hn' := hle (toInt32 n) (List.mem_cons_of_mem _ (List.mem_map.2 ⟨n, hn, rfl⟩))
    by_contra hlarge
    have hneg := (toInt32_natCast (hns n hn)).2 (by omega)
    have := hns n hn
    omega
  · rintro ⟨h0, hsmall⟩
    rw [map_toInt32 hsmall] at hmem hle hzero ⊢
    have hv : (ns.map fun n : Nat => (n : Int)).foldl Min.min 0 = 0 := by
      rcases List.mem_cons.1 hmem with hv | hv
      · exact hv
      · obtain ⟨k, -, hk⟩ := List.mem_map.1 hv
        omega
    rw [hv]
    refine ⟨List.mem_map.2 ⟨0, h0, rfl⟩, fun b hb => ?_⟩
    obtain ⟨k, -, rfl⟩ := List.mem_map.1 hb
    omega

/-- The greatest size comes out if and only if all sizes fit an `int`. -/
theorem max_iff {ns : List Nat} (hne : ns ≠ []) (hns : ∀ n ∈ ns, n < 2 ^ 32) :
    (ns.map fun n : Nat => (n : Int)).max? = some ((ns.map fun n : Nat => toInt32 n).foldl Max.max 0) ↔
      ∀ n ∈ ns, n < 2 ^ 31 := by
  obtain ⟨hmem, hle⟩ := foldl_max_spec 0 (ns.map fun n : Nat => toInt32 n)
  rw [List.max?_eq_some_iff]
  constructor
  · rintro ⟨-, hall⟩ n hn
    have hn' := hall n (List.mem_map.2 ⟨n, hn, rfl⟩)
    rcases List.mem_cons.1 hmem with hv | hv
    · omega
    · obtain ⟨k, hk, hv⟩ := List.mem_map.1 hv
      obtain ⟨hlo, hhi⟩ := toInt32_natCast (hns k hk)
      have hk' := hns k hk
      rcases Nat.lt_or_ge k (2 ^ 31) with hlt | hge
      · have := hlo hlt
        omega
      · have := hhi hge
        omega
  · intro hsmall
    rw [map_toInt32 hsmall] at hmem hle ⊢
    refine ⟨?_, fun b hb => hle b (List.mem_cons_of_mem _ hb)⟩
    rcases List.mem_cons.1 hmem with hv | hv
    · obtain ⟨n, ns, rfl⟩ := List.exists_cons_of_ne_nil hne
      have hn := hle n (by simp)
      obtain rfl : n = 0 := by omega
      rw [hv]
      exact List.mem_cons_self
    · exact hv

/-- `get_queue_status` is exact over a table with a worker if and only if, where `*min` is asked
for, some worker's queue is empty, and, where `*min` or `*max` is asked for, all sizes fit an
`int`. -/
theorem getQueueStatus_exact_iff (queueLength : Int) {stats : Nat → ProcessStats}
    (hw : workerSizes stats ≠ []) (q : QueueStatus) :
    Exact (workerSizes stats) (getQueueStatus queueLength stats q) ↔
      (q.min.isSome → 0 ∈ workerSizes stats) ∧
      (q.min.isSome ∨ q.max.isSome → ∀ n ∈ workerSizes stats, n < 2 ^ 31) := by
  have hns : ∀ n ∈ workerSizes stats, n < 2 ^ 32 := fun n hn => mem_workerSizes hn
  rw [getQueueStatus_eq]
  constructor
  · rintro ⟨hmin, hmax, -⟩
    constructor
    · intro hq
      obtain ⟨v, hv⟩ := Option.isSome_iff_exists.1 hq
      exact ((min_iff hns).1 (hmin _ (by simp [hv]))).1
    · rintro (hq | hq)
      · obtain ⟨v, hv⟩ := Option.isSome_iff_exists.1 hq
        exact ((min_iff hns).1 (hmin _ (by simp [hv]))).2
      · obtain ⟨v, hv⟩ := Option.isSome_iff_exists.1 hq
        exact (max_iff hw hns).1 (hmax _ (by simp [hv]))
  · rintro ⟨hzero, hsmall⟩
    refine ⟨?_, ?_, ?_⟩
    · intro v hv
      obtain ⟨w, hq, rfl⟩ := Option.map_eq_some_iff.1 hv
      exact (min_iff hns).2 ⟨hzero (by simp [hq]), hsmall (by simp [hq])⟩
    · intro v hv
      obtain ⟨w, hq, rfl⟩ := Option.map_eq_some_iff.1 hv
      exact (max_iff hw hns).2 (hsmall (by simp [hq]))
    · intro v hv
      obtain ⟨w, -, rfl⟩ := Option.map_eq_some_iff.1 hv
      have hcount : (workerSizes stats).countP (fun n : Nat => toInt32 n = 0) =
          (workerSizes stats).count 0 :=
        List.countP_congr fun n hn => by simp [toInt32_eq_zero (hns n hn)]
      exact congrArg _ hcount

/-- Two workers with queues of 0 and 5. -/
theorem getQueueStatus_exact_two :
    Exact (workerSizes fun i => ⟨if i = 1 then 5 else 0, if i < 2 then 100 else -1, 1⟩)
      (getQueueStatus 5 (fun i => ⟨if i = 1 then 5 else 0, if i < 2 then 100 else -1, 1⟩)
        ⟨some 7, some 7, none, some 7⟩) :=
  (getQueueStatus_exact_iff 5 (by decide +kernel) _).2
    ⟨by decide +kernel, by decide +kernel⟩

/-- With one worker, whose queue holds 5, `*min` is 0. -/
theorem getQueueStatus_not_exact :
    ¬ ∀ (queueLength : Int) (stats : Nat → ProcessStats), workerSizes stats ≠ [] →
      ∀ q, Exact (workerSizes stats) (getQueueStatus queueLength stats q) := by
  intro h
  have hexact := h 5 (fun i => ⟨5, if i = 0 then 100 else -1, 1⟩) (by decide +kernel)
    ⟨some 0, none, none, none⟩
  have hmin := hexact.min 0 (by decide +kernel)
  exact absurd hmin (by decide +kernel)

end Process
end Shs
