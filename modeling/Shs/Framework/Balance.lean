import Shs.Framework.Invoke
import Shs.Process.QueueStatus

/-!
# Framework.Balance

How `Framework::Invoke`, `HandleInvokeTimeout` and `HandleInvokeComplete` keep the queue length of
the worker in its slot of `g_processes`, and by it and the queues of the other workers pause and
resume the service. What they do with `timers_`, the results and the handlers is in
`Framework.Invoke`, and a lemma here says so.

A complete handler runs in the middle of the two handlers and may invoke again, so each of them is
cut where complete handlers run.
-/

namespace Shs
namespace Framework

open Process (ProcessStats getQueueStatus getQueueStatus_curr)

/-- What of the build and of `Config` decides about pausing. -/
structure ServingConfig where
  /-- `USE_SO_REUSEPORT` is defined -/
  reuseport : Bool
  numProcesses : Int
  queueHwm : Int
  queueLwm : Int
  deriving DecidableEq, Repr

/-- Where the main thread is. -/
inductive Control where
  /-- in the event loop, or in a handler that is neither of the following two -/
  | loop
  /-- in `HandleInvokeTimeout`, and the complete handler is running -/
  | timeout
  /-- in the loop of `HandleInvokeComplete` -/
  | drain
  deriving DecidableEq, Repr

/-- A framework in its worker. -/
structure Serving where
  framework : Framework
  control : Control := .loop
  /-- `g_processes[g_process_slot].pid` -/
  slotPid : Int
  /-- `getpid()` -/
  pid : Int
  /-- `g_processes[g_process_slot].queue_length`, an `int` -/
  queueLength : Int32 := 0
  /-- `ev_has_been_added`: the service is not paused -/
  evHasBeenAdded : Bool := true
  deriving DecidableEq, Repr

namespace Serving

def updateQueueLength (n : Int32) (s : Serving) : Serving :=
  if s.slotPid ≠ s.pid then s else { s with queueLength := s.queueLength + n }

/-- `Framework::AddInvokeTimer`. -/
def addInvokeTimer (t : Timer) (s : Serving) : Serving × Bool :=
  match Framework.addInvokeTimer t s.framework with
  | (w, false) => ({ s with framework := w }, false)
  | (w, true) => (updateQueueLength 1 { s with framework := w }, true)

/-- The test of `Invoke` whether to pause, over the table `stats` of the shared memory. -/
def pausing (cfg : ServingConfig) (stats : Nat → ProcessStats) (s : Serving) : Bool :=
  let q := getQueueStatus s.queueLength.toInt stats ⟨none, some 0, some 0, some 0⟩
  let max := q.max.getD 0
  let curr := q.curr.getD 0
  let zero := q.zero.getD 0
  decide (zero > 0 ∨ curr ≥ max ∨ (cfg.queueHwm > 0 ∧ curr ≥ cfg.queueHwm))

def pauseService (cfg : ServingConfig) (stats : Nat → ProcessStats) (s : Serving) : Serving :=
  if cfg.reuseport = false ∧ cfg.numProcesses > 1 ∧ s.evHasBeenAdded = true ∧ pausing cfg stats s
  then { s with evHasBeenAdded := false }
  else s

/-- The test at the end of `HandleInvokeTimeout` and of `HandleInvokeComplete` whether to go on. -/
def continuing (cfg : ServingConfig) (stats : Nat → ProcessStats) (s : Serving) : Bool :=
  let q := getQueueStatus s.queueLength.toInt stats ⟨some 0, none, some 0, none⟩
  let min := q.min.getD 0
  let curr := q.curr.getD 0
  decide (curr = 0 ∨ curr ≤ min ∨
    (cfg.queueHwm > 0 ∧ cfg.queueLwm > 0 ∧ curr ≤ cfg.queueLwm))

def continueService (cfg : ServingConfig) (stats : Nat → ProcessStats) (s : Serving) : Serving :=
  if cfg.reuseport = false ∧ cfg.numProcesses > 1 ∧ s.evHasBeenAdded = false ∧
      continuing cfg stats s
  then { s with evHasBeenAdded := true }
  else s

/-- `Framework::Invoke`. -/
def invoke (cfg : ServingConfig) (moduleName : String) (stats : Nat → ProcessStats) (s : Serving) :
    Serving :=
  let w := s.framework
  let t : Timer := ⟨w.invokeId, w.count⟩
  let w := { w with invokeId := (w.invokeId + 1) % 2 ^ 64, count := w.count + 1 }
  if moduleName ∉ w.modules then
    { s with framework := complete t.num ⟨E_INVALID_MODULE, "Invalid module name"⟩ w }
  else
    match addInvokeTimer t { s with framework := w } with
    | (s, false) =>
      { s with framework :=
          complete t.num ⟨E_INTERNAL, "Invoke Initialize timer failed"⟩ s.framework }
    | (s, true) => pauseService cfg stats s

/-- `HandleInvokeTimeout`, up to the complete handler. -/
def handleInvokeTimeout (id : Nat) (s : Serving) : Serving :=
  match findTimer id s.framework with
  | none => { s with framework := { s.framework with missing := true } }
  | some t =>
    let s := updateQueueLength (-1) { s with framework := eraseTimer id s.framework }
    let w := complete t.num ⟨E_INVOKE_TIMEOUT, "Invoke timed out"⟩ s.framework
    { s with framework := w, control := .timeout }

/-- One round of the loop of `HandleInvokeComplete`. -/
def handleResult (res : Nat × InvokeResult) (s : Serving) : Serving :=
  match findTimer res.1 s.framework with
  | none => s
  | some t =>
    let s := updateQueueLength (-1) { s with framework := eraseTimer res.1 s.framework }
    { s with framework := complete t.num res.2 (cancel t s.framework) }

/-- Each call of `get_queue_status` finds the table of the shared memory as it is then. -/
inductive Act where
  | invoke (moduleName : String) (stats : Nat → ProcessStats)
  /-- a worker thread reports a result -/
  | report (id : Nat) (r : InvokeResult)
  /-- timer `t` is due -/
  | expire (t : Timer)
  /-- the rest of `HandleInvokeTimeout` -/
  | timeoutDone (stats : Nat → ProcessStats)
  /-- `HandleInvokeComplete` swaps `results_` out -/
  | swap
  /-- the next round of its loop -/
  | handle
  /-- what comes after its loop -/
  | drainDone (stats : Nat → ProcessStats)

def next (cfg : ServingConfig) (s : Serving) : Act → Serving
  | .invoke moduleName stats => invoke cfg moduleName stats s
  | .report id r => { s with framework := invokeComplete id r s.framework }
  | .expire t =>
    if s.control = .loop ∧ t ∈ s.framework.tree then
      handleInvokeTimeout t.id
        { s with framework := { s.framework with tree := s.framework.tree.erase t } }
    else s
  | .timeoutDone stats =>
    if s.control = .timeout then continueService cfg stats { s with control := .loop } else s
  | .swap =>
    if s.control = .loop ∧ s.framework.batch = [] then
      { s with framework := { s.framework with results := [], batch := s.framework.results },
               control := .drain }
    else s
  | .handle =>
    match s.control, s.framework.batch with
    | .drain, res :: rest => handleResult res { s with framework := { s.framework with batch := rest } }
    | _, _ => s
  | .drainDone stats =>
    if s.control = .drain ∧ s.framework.batch = [] then
      continueService cfg stats { s with control := .loop }
    else s

/-- Nothing is said of what runs after `timers_.end()` has been dereferenced. -/
def step (cfg : ServingConfig) (s : Serving) (a : Act) : Serving :=
  if s.framework.missing then s else next cfg s a

/-- A framework whose worker has just been spawned. -/
def start (modules : List String) (slotPid pid : Int) : Serving :=
  { framework := Framework.start modules, slotPid := slotPid, pid := pid }

section

variable {cfg : ServingConfig} {s : Serving}

/-! ## The framework of the worker is that of `Framework.Invoke` -/

@[simp] theorem updateQueueLength_framework (n : Int32) :
    (updateQueueLength n s).framework = s.framework := by
  unfold updateQueueLength; split <;> rfl

/-- In the worker of the slot, the length is updated. -/
theorem updateQueueLength_own (n : Int32) (h : s.slotPid = s.pid) :
    updateQueueLength n s = { s with queueLength := s.queueLength + n } := by
  rw [updateQueueLength, if_neg (by simp [h])]

/-- Pausing is done to a service that goes on, and only if the build has it. -/
theorem pauseService_cases (cfg : ServingConfig) (stats : Nat → ProcessStats) (s : Serving) :
    pauseService cfg stats s = s ∨
      (cfg.reuseport = false ∧ pauseService cfg stats s = { s with evHasBeenAdded := false }) := by
  unfold pauseService
  split
  · exact .inr ⟨‹_ ∧ _›.1, rfl⟩
  · exact .inl rfl

/-- A service that stays paused, where several processes may pause, has a queue. -/
theorem continueService_cases (cfg : ServingConfig) (stats : Nat → ProcessStats) (s : Serving) :
    continueService cfg stats s = { s with evHasBeenAdded := true } ∨
      (continueService cfg stats s = s ∧
        (cfg.reuseport = false → 1 < cfg.numProcesses → s.evHasBeenAdded = false →
          s.queueLength ≠ 0)) := by
  unfold continueService
  split
  · exact .inl rfl
  · rename_i hnot
    refine .inr ⟨rfl, fun hr hn he hq => hnot ⟨hr, hn, he, ?_⟩⟩
    simp [continuing, getQueueStatus_curr, hq]

/-- An invocation that ends at once, and one that gets an entry. -/
theorem invoke_cases (cfg : ServingConfig) (name : String) (stats : Nat → ProcessStats)
    (s : Serving) :
    (Framework.invoke name s.framework).timers = s.framework.timers ∧
        s.framework.tree ⊆ (Framework.invoke name s.framework).tree ∧
        invoke cfg name stats s = { s with framework := Framework.invoke name s.framework } ∨
      ∃ t, (Framework.invoke name s.framework).timers = t :: s.framework.timers ∧
        (Framework.invoke name s.framework).tree = t :: s.framework.tree ∧
        invoke cfg name stats s = pauseService cfg stats
          (updateQueueLength 1 { s with framework := Framework.invoke name s.framework }) := by
  by_cases hm : name ∈ s.framework.modules
  · cases hf : findTimer s.framework.invokeId s.framework with
    | some t =>
      simp only [findTimer] at hf
      refine .inl ⟨?_, ?_, ?_⟩ <;>
        simp [Framework.invoke, invoke, addInvokeTimer, Framework.addInvokeTimer, hm, findTimer, hf,
          complete]
    | none =>
      simp only [findTimer] at hf
      refine .inr ⟨⟨s.framework.invokeId, s.framework.count⟩, ?_, ?_, ?_⟩ <;>
        simp [Framework.invoke, invoke, addInvokeTimer, Framework.addInvokeTimer, hm, findTimer, hf]
  · refine .inl ⟨?_, ?_, ?_⟩ <;> simp [Framework.invoke, invoke, hm, complete]

theorem invoke_framework (name : String) (stats : Nat → ProcessStats) :
    (invoke cfg name stats s).framework = Framework.invoke name s.framework := by
  rcases invoke_cases cfg name stats s with ⟨-, -, heq⟩ | ⟨t, -, -, heq⟩
  · rw [heq]
  · rw [heq]
    rcases pauseService_cases cfg stats
      (updateQueueLength 1 { s with framework := Framework.invoke name s.framework }) with h | ⟨-, h⟩
    · rw [h, updateQueueLength_framework]
    · rw [h]
      exact updateQueueLength_framework 1

theorem continueService_framework (stats : Nat → ProcessStats) :
    (continueService cfg stats s).framework = s.framework := by
  rcases continueService_cases cfg stats s with h | ⟨h, -⟩ <;> rw [h]

theorem handleInvokeTimeout_framework (id : Nat) :
    (handleInvokeTimeout id s).framework = Framework.handleInvokeTimeout id s.framework := by
  cases hf : findTimer id s.framework with
  | none => simp [handleInvokeTimeout, Framework.handleInvokeTimeout, hf]
  | some t => simp [handleInvokeTimeout, Framework.handleInvokeTimeout, hf]

theorem handleResult_framework (res : Nat × InvokeResult) :
    (handleResult res s).framework = Framework.handleResult res s.framework := by
  cases hf : findTimer res.1 s.framework with
  | none => simp [handleResult, Framework.handleResult, hf]
  | some t => simp [handleResult, Framework.handleResult, hf]

/-- A step of the worker takes its framework one step further, or leaves it. -/
theorem step_framework (cfg : ServingConfig) (s : Serving) (a : Act) :
    (step cfg s a).framework = s.framework ∨
      ∃ b, (step cfg s a).framework = Framework.step s.framework b := by
  unfold step Framework.step
  by_cases hm : s.framework.missing = true
  · exact .inl (by rw [if_pos hm])
  · rw [if_neg hm]
    cases a with
    | invoke name stats => exact .inr ⟨.invoke name, by simp [next, hm, Framework.next, invoke_framework]⟩
    | report id r => exact .inr ⟨.report id r, by simp [next, hm, Framework.next]⟩
    | expire t =>
      by_cases hc : s.control = .loop ∧ t ∈ s.framework.tree
      · refine .inr ⟨.expire t, ?_⟩
        simp [next, hm, Framework.next, hc, handleInvokeTimeout_framework]
      · exact .inl (by rw [next, if_neg hc])
    | timeoutDone stats =>
      refine .inl ?_
      simp only [next]
      split
      · exact continueService_framework stats
      · rfl
    | swap =>
      by_cases hc : s.control = .loop ∧ s.framework.batch = []
      · exact .inr ⟨.swap, by simp [next, hm, Framework.next, hc]⟩
      · exact .inl (by rw [next, if_neg hc])
    | handle =>
      simp only [next]
      split
      · rename_i res rest _ hb
        refine .inr ⟨.handle, ?_⟩
        simp [hm, Framework.next, hb, handleResult_framework]
      · exact .inl rfl
    | drainDone stats =>
      refine .inl ?_
      simp only [next]
      split
      · exact continueService_framework stats
      · rfl

end

/-! ## The queue length is the number of entries -/

/-- What holds in the worker of the slot. -/
structure Accounted (cfg : ServingConfig) (s : Serving) : Prop where
  own : s.slotPid = s.pid
  counted : Counted s.framework
  queue : s.queueLength = Int32.ofNat s.framework.timers.length
  armed : s.framework.timers ⊆ s.framework.tree
  opened : cfg.reuseport = true → s.evHasBeenAdded = true
  paused : s.control = .loop → 1 < cfg.numProcesses → s.evHasBeenAdded = false →
    s.framework.timers ≠ []

theorem accounted_start (cfg : ServingConfig) (modules : List String) {slotPid pid : Int}
    (h : slotPid = pid) : Accounted cfg (start modules slotPid pid) where
  own := h
  counted := counted_start modules
  queue := rfl
  armed := List.Subset.refl _
  opened := fun _ => rfl
  paused := nofun

namespace Accounted

variable {cfg : ServingConfig} {s : Serving}

/-- `Counted` is kept by the steps of the framework. -/
theorem counted_step (h : Accounted cfg s) (a : Act) : Counted (step cfg s a).framework := by
  rcases step_framework cfg s a with heq | ⟨b, heq⟩
  · rw [heq]
    exact h.counted
  · rw [heq]
    exact h.counted.step b

/-- The results move, and the timers stay. -/
theorem same (h : Accounted cfg s) {w : Framework} (hc : Counted w)
    (ht : w.timers = s.framework.timers) (htree : s.framework.tree ⊆ w.tree) :
    Accounted cfg { s with framework := w } where
  own := h.own
  counted := hc
  queue := by rw [h.queue, ← ht]
  armed := by rw [ht]; exact List.Subset.trans h.armed htree
  opened := h.opened
  paused := by rw [ht]; exact h.paused

/-- An entry that comes is counted, and keeps a paused service from being left alone. -/
theorem invoke (h : Accounted cfg s) (name : String) (stats : Nat → ProcessStats)
    (hc : Counted (Framework.invoke name s.framework)) :
    Accounted cfg (invoke cfg name stats s) := by
  rcases invoke_cases cfg name stats s with ⟨ht, htree, heq⟩ | ⟨t, ht, htree, heq⟩
  · rw [heq]
    exact h.same hc ht htree
  · have hown : ({ s with framework := Framework.invoke name s.framework } : Serving).slotPid =
        ({ s with framework := Framework.invoke name s.framework } : Serving).pid := h.own
    have hin : Accounted cfg
        (updateQueueLength 1 { s with framework := Framework.invoke name s.framework }) := by
      rw [updateQueueLength_own 1 hown]
      exact
        { own := h.own
          counted := hc
          queue := by
            show s.queueLength + 1 = _
            rw [h.queue, ht, List.length_cons]
            exact (Int32.ofNat_add _ 1).symm
          armed := by
            rw [ht, htree]
            exact List.cons_subset_cons t h.armed
          opened := h.opened
          paused := fun _ _ _ => by simp [ht] }
    rw [heq]
    rcases pauseService_cases cfg stats
      (updateQueueLength 1 { s with framework := Framework.invoke name s.framework }) with
      heq' | ⟨hbuild, heq'⟩
    · rw [heq']
      exact hin
    · rw [heq']
      exact { hin with
        opened := fun hb => by simp [hbuild] at hb
        paused := fun _ _ _ => by simp [ht] }

/-- The entry of an id goes, and no timer goes from the tree but one of that id. -/
theorem ends (h : Accounted cfg s) {id : Nat} {t u : Timer}
    (hf : findTimer id s.framework = some t) (hu : u.id = id) {w : Framework} (hc : Counted w)
    (ht : w.timers = (eraseTimer id s.framework).timers)
    (htree : w.tree = s.framework.tree.erase u) {c : Control} (hloop : c ≠ .loop) :
    Accounted cfg { s with framework := w, queueLength := s.queueLength + -1, control := c } where
  own := h.own
  counted := hc
  queue := by
    have hlen := (eraseTimer_perm h.counted.keys hf).length_eq
    rw [List.length_cons] at hlen
    show s.queueLength + -1 = _
    rw [h.queue, hlen, ht, Int32.ofNat_add, ← Int32.sub_eq_add_neg]
    exact Int32.add_sub_cancel _ 1
  armed := by
    intro v hv
    rw [ht, eraseTimer, List.mem_filter] at hv
    rw [htree]
    refine (List.mem_erase_of_ne ?_).2 (h.armed hv.1)
    rintro rfl
    simp [hu] at hv
  opened := h.opened
  paused := fun hl => absurd hl hloop

theorem expire (h : Accounted cfg s) {t : Timer}
    (hc : Counted (handleInvokeTimeout t.id
      { s with framework := { s.framework with tree := s.framework.tree.erase t } }).framework) :
    Accounted cfg (handleInvokeTimeout t.id
      { s with framework := { s.framework with tree := s.framework.tree.erase t } }) := by
  cases hf : findTimer t.id s.framework with
  | none =>
    have hf' := hf
    simp only [findTimer] at hf'
    simp only [handleInvokeTimeout, findTimer, hf'] at hc ⊢
    exact { h with
      counted := hc
      armed := by
        intro v hv
        refine (List.mem_erase_of_ne ?_).2 (h.armed hv)
        rintro rfl
        exact findTimer_none hf (List.mem_map_of_mem hv) }
  | some u =>
    have hf' := hf
    simp only [findTimer] at hf'
    simp only [handleInvokeTimeout, findTimer, hf'] at hc ⊢
    rw [updateQueueLength_own _ (by exact h.own)] at hc ⊢
    exact h.ends hf rfl hc rfl rfl (by simp)

theorem handle (h : Accounted cfg s) {res : Nat × InvokeResult} {rest : List (Nat × InvokeResult)}
    (hd : s.control = .drain)
    (hc : Counted (handleResult res
      { s with framework := { s.framework with batch := rest } }).framework) :
    Accounted cfg (handleResult res { s with framework := { s.framework with batch := rest } }) := by
  cases hf : findTimer res.1 s.framework with
  | none =>
    simp only [findTimer] at hf
    simp only [handleResult, findTimer, hf] at hc ⊢
    exact h.same hc rfl (List.Subset.refl _)
  | some t =>
    have hf' := hf
    simp only [findTimer] at hf'
    simp only [handleResult, findTimer, hf'] at hc ⊢
    rw [updateQueueLength_own _ (by exact h.own)] at hc ⊢
    exact h.ends hf (findTimer_id hf).2 hc rfl rfl (by simp [hd])

/-- Control goes back to the event loop after the test whether to go on. -/
theorem done (h : Accounted cfg s) (stats : Nat → ProcessStats) :
    Accounted cfg (continueService cfg stats { s with control := .loop }) := by
  rcases continueService_cases cfg stats { s with control := .loop } with heq | ⟨heq, hq⟩
  · rw [heq]
    exact { h with
      opened := fun _ => rfl
      paused := nofun }
  · rw [heq]
    refine { h with paused := fun _ hn he => ?_ }
    have hbuild : cfg.reuseport = false := by
      cases hb : cfg.reuseport with
      | false => rfl
      | true => exact absurd (h.opened hb) (by simp [show s.evHasBeenAdded = false from he])
    intro hnil
    refine hq hbuild hn he ?_
    have hqueue := h.queue
    simp only [show s.framework.timers = [] from hnil] at hqueue
    exact hqueue

theorem step (h : Accounted cfg s) (a : Act) : Accounted cfg (step cfg s a) := by
  have hc := h.counted_step a
  unfold Serving.step at hc ⊢
  by_cases hm : s.framework.missing = true
  · rw [if_pos hm]
    exact h
  rw [if_neg hm] at hc ⊢
  cases a with
  | invoke name stats =>
    simp only [next, invoke_framework] at hc
    exact h.invoke name stats hc
  | report id r => exact h.same hc rfl (List.Subset.refl _)
  | expire t =>
    simp only [next] at hc ⊢
    split at hc
    · rename_i hen
      rw [if_pos hen]
      exact h.expire hc
    · rename_i hdis
      rw [if_neg hdis]
      exact h
  | timeoutDone stats =>
    simp only [next]
    split
    · exact h.done stats
    · exact h
  | swap =>
    simp only [next] at hc ⊢
    split at hc
    · rename_i hen
      rw [if_pos hen]
      exact { h.same hc rfl (List.Subset.refl _) with paused := nofun }
    · rename_i hdis
      rw [if_neg hdis]
      exact h
  | handle =>
    simp only [next] at hc ⊢
    split at hc
    · rename_i hd _
      exact h.handle hd hc
    · exact h
  | drainDone stats =>
    simp only [next]
    split
    · exact h.done stats
    · exact h

end Accounted

/-- In every run of a worker whose slot carries its pid, the queue length is the number of entries
of `timers_` as an `int` has it, so the number itself below `2 ^ 31`, whenever the main thread is
in the event loop, and where several processes are configured a paused service has an entry, whose
timer is in the tree. -/
theorem queue_accounted (cfg : ServingConfig) (modules : List String) (slotPid pid : Int)
    (h : slotPid = pid) (as : List Act) :
    let s := Run.exec (step cfg) (start modules slotPid pid) as
    s.control = .loop →
      s.queueLength = Int32.ofNat s.framework.timers.length ∧
      (s.framework.timers.length < 2 ^ 31 →
        s.queueLength.toInt = s.framework.timers.length) ∧
      (1 < cfg.numProcesses → s.evHasBeenAdded = false →
        s.framework.timers ≠ [] ∧ s.framework.timers ⊆ s.framework.tree) := by
  intro s hloop
  have hany : Run.Meets (step cfg) (fun _ _ => True) (start modules slotPid pid) as :=
    fun _ _ _ _ => trivial
  have hs : Accounted cfg s :=
    Run.invariant (step cfg) (accounted_start cfg modules h) (fun s a hs _ => hs.step a) hany
  refine ⟨hs.queue, fun hsmall => ?_, fun hn he => ⟨hs.paused hloop hn he, hs.armed⟩⟩
  rw [hs.queue]
  exact Int32.toInt_ofNat_of_lt hsmall

/-- Two processes with queues of 5 in the shared table, and water marks of 2 and 1. -/
def twoProcesses : ServingConfig := ⟨false, 2, 2, 1⟩

def fullTable : Nat → ProcessStats := fun i => ⟨5, if i < 2 then 100 else -1, 1⟩

/-- The second invocation pauses the service. The handler of the first one invokes again, so the
service stays paused. -/
def pausedRun : List Act :=
  [.invoke "echo" fullTable, .invoke "echo" fullTable, .report 0 {}, .swap, .handle,
    .invoke "echo" fullTable, .drainDone fullTable]

theorem pausedRun_accounted :
    (Run.exec (step twoProcesses) (start ["echo"] 7 7) pausedRun).evHasBeenAdded = false ∧
    (Run.exec (step twoProcesses) (start ["echo"] 7 7) pausedRun).queueLength.toInt =
      (Run.exec (step twoProcesses) (start ["echo"] 7 7) pausedRun).framework.timers.length ∧
    (Run.exec (step twoProcesses) (start ["echo"] 7 7) pausedRun).framework.timers ≠ [] := by
  have he : (Run.exec (step twoProcesses) (start ["echo"] 7 7) pausedRun).evHasBeenAdded = false := by
    decide +kernel
  have h := queue_accounted twoProcesses ["echo"] 7 7 rfl pausedRun (by decide +kernel)
  exact ⟨he, h.2.1 (by decide +kernel), (h.2.2 (by decide) he).1⟩

end Serving

end Framework
end Shs
