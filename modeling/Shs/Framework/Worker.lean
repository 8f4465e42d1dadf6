import Shs.Framework.Watcher

/-!
# Framework.Worker

A `Worker` from `Start` to the end of `Main`. One thread calls `Start` and later `Stop`; `Start`
creates the thread that runs `Main`, where the handlers of the two pipes are called; any thread
calls `AddTask`. Their steps come in any order. The queue of the tasks and its pipe are a
`Watcher`.
-/

namespace Shs
namespace Framework

/-- Where the thread is that starts and stops the worker. -/
inductive Creator where
  | fresh
  /-- `Start` has created the thread and has not set `running_` -/
  | spawned
  /-- `Start` has returned true -/
  | started
  /-- in `join`, called by `Stop` -/
  | joining
  /-- `Stop` has returned -/
  | joined
  deriving DecidableEq, Repr

/-- Where `Main` is. -/
inductive Thread where
  | none
  /-- before its next test of `running_` -/
  | test
  /-- in `thread_event_process` -/
  | polling
  /-- in `HandleStop`, called by `thread_event_process` -/
  | stopping
  | left
  deriving DecidableEq, Repr

structure Worker (α : Type) where
  watcher : Watcher α := {}
  creator : Creator := .fresh
  thread : Thread := .none
  running : Bool := false
  /-- bytes in the pipe of `stop_watcher_` -/
  stopPipe : Nat := 0
  /-- `HandleStop` has run -/
  stopped : Bool := false
  /-- the tasks that had been accepted when `Stop` was called -/
  atStop : Option (List α) := .none
  deriving DecidableEq, Repr

namespace Worker

inductive Act (α : Type) where
  /-- `Start`, up to the new thread -/
  | spawn
  /-- the rest of `Start` -/
  | setRunning
  /-- `Stop`, up to `join` -/
  | stop
  | join
  /-- a step of `AddTask`, of the handler of `task_watcher_` or of `HandleTask` -/
  | watch (a : Watcher.Act α)
  /-- `Main` tests `running_` -/
  | test
  /-- `epoll_wait` reports the pipe of `stop_watcher_`, whose handler reads it empty -/
  | stopWake
  /-- `HandleStop` finds a task and calls `HandleTask` -/
  | drain
  /-- `HandleStop` finds no task -/
  | stopDone
  /-- `thread_event_process` returns -/
  | ret
  deriving DecidableEq, Repr

section

variable {α : Type} (queueSize : Nat) (detach : Bool)

/-- Whether the step can be taken. A detached thread is not waited for. -/
def enabled (w : Worker α) : Act α → Prop
  | .spawn => w.creator = .fresh
  | .setRunning => w.creator = .spawned
  | .stop => w.creator = .started
  | .join => w.creator = .joining ∧ (detach = false → w.thread = .left)
  | .watch a => w.watcher.enabled a ∧ (a = .wake → w.thread = .polling)
  | .test => w.thread = .test
  | .stopWake => w.thread = .polling ∧ w.watcher.consumer = .waiting ∧ 0 < w.stopPipe
  | .drain => w.thread = .stopping ∧ w.watcher.consumer = .waiting ∧ w.watcher.queue ≠ []
  | .stopDone => w.thread = .stopping ∧ w.watcher.consumer = .waiting ∧ w.watcher.queue = []
  | .ret => w.thread = .polling ∧ w.watcher.consumer = .waiting

def next (w : Worker α) : Act α → Worker α
  | .spawn => { w with creator := .spawned, thread := .test }
  | .setRunning => { w with creator := .started, running := true }
  | .stop =>
    let w := { w with atStop := some w.watcher.appended }
    if w.running then { w with creator := .joining, stopPipe := w.stopPipe + 1 }
    else { w with creator := .joined }
  | .join => { w with creator := .joined }
  | .watch a => { w with watcher := w.watcher.next (some queueSize) a }
  | .test => { w with thread := if w.running then .polling else .left }
  | .stopWake => { w with thread := .stopping, stopPipe := 0 }
  | .drain => { w with watcher := { w.watcher with consumer := .drained } }
  | .stopDone => { w with thread := .polling, running := false, stopped := true }
  | .ret => { w with thread := .test }

/-- The tasks that `Stop` finds accepted, or has found. -/
def due (w : Worker α) : List α := w.atStop.getD w.watcher.appended

/-- Steps that do nothing for the tasks accepted so far. -/
def Act.idle : Act α → Prop
  | .watch (.append _) => True
  | .ret => True
  | _ => False

/-- `Main` leaves its loop after `HandleStop` has run, and has executed then what was accepted
before `Stop`. Until all that is executed, some thread can go on with it. -/
structure Served (w : Worker α) : Prop where
  stays : w.thread = .left → w.stopped = true
  executed : w.thread = .left → w.due <+: w.watcher.processed
  inOrder : w.watcher.InOrder
  progress : ¬ w.due <+: w.watcher.processed → ∃ a, enabled detach w a ∧ ¬ a.idle

/-- `Main` does not test `running_` before `Start` has set it. -/
def InTime (w : Worker α) (a : Act α) : Prop := a = .test → w.creator ≠ .spawned

end

/-! ## What holds in every run in which `running_` is set in time -/

structure Inv {α : Type} (w : Worker α) : Prop where
  woken : w.watcher.Woken
  inOrder : w.watcher.InOrder
  fresh : w.thread = .none ↔ w.creator = .fresh
  flag : w.running = true ↔ w.creator ≠ .fresh ∧ w.creator ≠ .spawned ∧ w.stopped = false
  early : w.creator = .fresh ∨ w.creator = .spawned ∨ w.creator = .started → w.atStop = none
  calm : w.atStop = none → w.stopped = false ∧ w.stopPipe = 0 ∧ w.thread ≠ .stopping
  accepted : w.due <+: w.watcher.appended
  stays : w.thread = .left → w.stopped = true
  executed : w.stopped = true → w.due <+: w.watcher.processed

section

variable {α : Type} {queueSize : Nat} {detach : Bool} {w : Worker α}

theorem inv_start : Inv ({} : Worker α) where
  woken := fun h => absurd rfl h
  inOrder := rfl
  fresh := ⟨fun _ => rfl, fun _ => rfl⟩
  flag := by simp
  early := fun _ => rfl
  calm := fun _ => ⟨rfl, rfl, nofun⟩
  accepted := List.prefix_rfl
  stays := nofun
  executed := nofun

namespace Inv

theorem not_stopped (h : Inv w)
    (hc : w.creator = .fresh ∨ w.creator = .spawned ∨ w.creator = .started) :
    w.stopped = false := (h.calm (h.early hc)).1

theorem spawn (h : Inv w) (hc : w.creator = .fresh) :
    Inv { w with creator := .spawned, thread := .test } := by
  have hs := h.not_stopped (.inl hc)
  have hr : ¬ w.running = true := fun hr => (h.flag.1 hr).1 hc
  obtain ⟨-, hp, -⟩ := h.calm (h.early (.inl hc))
  exact { h with
    fresh := ⟨nofun, nofun⟩
    flag := ⟨fun hr' => absurd hr' hr, fun hf => absurd rfl hf.2.1⟩
    early := fun _ => h.early (.inl hc)
    calm := fun _ => ⟨hs, hp, nofun⟩
    stays := nofun }

theorem setRunning (h : Inv w) (hc : w.creator = .spawned) :
    Inv { w with creator := .started, running := true } := by
  have hs := h.not_stopped (.inr (.inl hc))
  have hn : w.thread ≠ .none := fun hn => by simp [h.fresh.1 hn] at hc
  exact { h with
    fresh := ⟨fun ht => absurd ht hn, nofun⟩
    flag := ⟨fun _ => ⟨nofun, nofun, hs⟩, fun _ => rfl⟩
    early := fun _ => h.early (.inr (.inl hc)) }

/-- `Stop` notes what has been accepted, whether it waits or not. -/
theorem stop (h : Inv w) (hc : w.creator = .started) : Inv (next queueSize w .stop) := by
  have hs := h.not_stopped (.inr (.inr hc))
  have hn : w.thread ≠ .none := fun hn => by simp [h.fresh.1 hn] at hc
  have hr : w.running = true := h.flag.2 ⟨by simp [hc], by simp [hc], hs⟩
  simp only [next, hr, if_true]
  exact { h with
    fresh := ⟨fun ht => absurd ht hn, nofun⟩
    flag := ⟨fun _ => ⟨nofun, nofun, hs⟩, fun _ => rfl⟩
    early := by simp
    calm := nofun
    accepted := List.prefix_rfl
    executed := fun hs' => by simp [hs] at hs' }

theorem join (h : Inv w) (hc : w.creator = .joining) : Inv { w with creator := .joined } := by
  have hn : w.thread ≠ .none := fun hn => by simp [h.fresh.1 hn] at hc
  exact { h with
    fresh := ⟨fun ht => absurd ht hn, nofun⟩
    flag := ⟨fun hr => ⟨nofun, nofun, (h.flag.1 hr).2.2⟩,
      fun hf => h.flag.2 ⟨by simp [hc], by simp [hc], hf.2.2⟩⟩
    early := by simp }

/-- The tasks accepted before `Stop` stay the same once `Stop` is called. -/
theorem watch (h : Inv w) {a : Watcher.Act α} (ha : w.watcher.enabled a) :
    Inv (next queueSize w (.watch a)) := by
  obtain ⟨hlen, happ⟩ := Watcher.processed_next (some queueSize) w.watcher a
  have hin : (w.watcher.next (some queueSize) a).InOrder := Watcher.inOrder_next h.inOrder ha
  exact { h with
    woken := Watcher.woken_next h.woken ha
    inOrder := hin
    accepted := by
      cases hat : w.atStop with
      | none => simp [due, next, hat]
      | some tasks =>
        have hacc := h.accepted
        simp only [due, hat, Option.getD_some, next] at hacc ⊢
        exact hacc.trans happ
    executed := fun hs => by
      have hat : w.atStop ≠ none := fun hat => absurd hs (by simp [next, (h.calm hat).1])
      obtain ⟨tasks, hat⟩ := Option.ne_none_iff_exists'.1 hat
      have hacc := h.accepted
      have hexe := h.executed hs
      simp only [due, hat, Option.getD_some, next] at hacc hexe ⊢
      have hpre := hin.processed_prefix
      exact List.prefix_of_prefix_length_le (hacc.trans happ) hpre
        (Nat.le_trans hexe.length_le hlen) }

/-- `Main` goes on as long as `HandleStop` has not run, if the flag has been set. -/
theorem test (h : Inv w) (ht : w.thread = .test) (hc : w.creator ≠ .spawned) :
    Inv { w with thread := if w.running then .polling else .left } := by
  have hf : w.creator ≠ .fresh := fun hf => by simp [h.fresh.2 hf] at ht
  cases hr : w.running with
  | true =>
    exact { h with
      fresh := ⟨nofun, fun hf' => absurd hf' hf⟩
      flag := by simpa only [hr] using h.flag
      calm := fun hat => ⟨(h.calm hat).1, (h.calm hat).2.1, nofun⟩
      stays := nofun }
  | false =>
    have hs : w.stopped = true := by
      by_contra hs
      have hr' := h.flag.2 ⟨hf, hc, by simpa using hs⟩
      rw [hr] at hr'
      cases hr'
    exact { h with
      fresh := ⟨nofun, fun hf' => absurd hf' hf⟩
      flag := by simpa only [hr] using h.flag
      calm := fun hat => ⟨(h.calm hat).1, (h.calm hat).2.1, nofun⟩
      stays := fun _ => hs }

theorem not_fresh (h : Inv w) (ht : w.thread ≠ .none) : w.creator ≠ .fresh :=
  fun hf => ht (h.fresh.2 hf)

theorem stopWake (h : Inv w) (ht : w.thread = .polling) (hp : 0 < w.stopPipe) :
    Inv { w with thread := .stopping, stopPipe := 0 } := by
  have hat : w.atStop ≠ none := fun hat => by
    have hp' := (h.calm hat).2.1
    omega
  exact { h with
    fresh := ⟨nofun, fun hf => absurd hf (h.not_fresh (by simp [ht]))⟩
    calm := fun hat' => absurd hat' hat
    stays := nofun }

theorem drain (h : Inv w) (hc : w.watcher.consumer = .waiting) :
    Inv { w with watcher := { w.watcher with consumer := .drained } } := by
  have hin := h.inOrder
  exact { h with
    woken := fun _ => .inr (.inr (.inr rfl))
    inOrder := by simpa [Watcher.InOrder, Watcher.batch, hc] using hin }

/-- When `HandleStop` has found no task, all that has been accepted has been executed. -/
theorem stopDone (h : Inv w) (ht : w.thread = .stopping) (hc : w.watcher.consumer = .waiting)
    (hq : w.watcher.queue = []) :
    Inv { w with thread := .polling, running := false, stopped := true } := by
  have hat : w.atStop ≠ none := fun hat => (h.calm hat).2.2 ht
  have hall : w.watcher.processed = w.watcher.appended := by
    simpa [Watcher.InOrder, Watcher.batch, hc, hq] using h.inOrder
  have hfresh : w.creator ≠ .fresh := h.not_fresh (by simp [ht])
  exact { h with
    fresh := by simp [hfresh]
    flag := by simp
    calm := fun hat' => absurd hat' hat
    stays := by simp
    executed := fun _ => by rw [hall]; exact h.accepted }

theorem ret (h : Inv w) (ht : w.thread = .polling) : Inv { w with thread := .test } :=
  { h with
    fresh := ⟨nofun, fun hf => absurd hf (h.not_fresh (by simp [ht]))⟩
    calm := fun hat => ⟨(h.calm hat).1, (h.calm hat).2.1, nofun⟩
    stays := nofun }

theorem step (h : Inv w) {a : Act α} (ha : enabled detach w a) (hin : InTime w a) :
    Inv (next queueSize w a) := by
  cases a with
  | spawn => exact h.spawn ha
  | setRunning => exact h.setRunning ha
  | stop => exact h.stop ha
  | join => exact h.join ha.1
  | watch a => exact h.watch ha.1
  | test => exact h.test ha (hin rfl)
  | stopWake => exact h.stopWake ha.1 ha.2.2
  | drain => exact h.drain ha.2.1
  | stopDone => exact h.stopDone ha.1 ha.2.1 ha.2.2
  | ret => exact h.ret ha.1

/-- As long as a task accepted before `Stop` is not executed, some thread can go on. -/
theorem progress (h : Inv w) (hleft : ¬ w.due <+: w.watcher.processed) :
    ∃ a, enabled detach w a ∧ ¬ a.idle := by
  cases ht : w.thread with
  | none => exact ⟨.spawn, h.fresh.1 ht, nofun⟩
  | test => exact ⟨.test, ht, nofun⟩
  | left => exact absurd (h.executed (h.stays ht)) hleft
  | polling =>
    have hne : w.watcher.processed ≠ w.watcher.appended :=
      fun heq => hleft (heq ▸ h.accepted)
    obtain ⟨a, ha, hnot⟩ := Watcher.progress h.woken h.inOrder hne
    refine ⟨.watch a, ⟨ha, fun _ => ht⟩, ?_⟩
    cases a with
    | append x => exact absurd rfl (hnot x)
    | _ => exact nofun
  | stopping =>
    cases hc : w.watcher.consumer with
    | waiting =>
      by_cases hq : w.watcher.queue = []
      · exact ⟨.stopDone, ⟨ht, hc, hq⟩, nofun⟩
      · exact ⟨.drain, ⟨ht, hc, hq⟩, nofun⟩
    | draining => exact ⟨.watch .read, ⟨hc, nofun⟩, nofun⟩
    | drained => exact ⟨.watch .swap, ⟨hc, nofun⟩, nofun⟩
    | processing batch =>
      cases batch with
      | nil => exact ⟨.watch .finish, ⟨hc, nofun⟩, nofun⟩
      | cons x rest => exact ⟨.watch .process, ⟨⟨x, rest, hc⟩, nofun⟩, nofun⟩

theorem served (h : Inv w) : Served detach w where
  stays := h.stays
  executed := fun ht => h.executed (h.stays ht)
  inOrder := h.inOrder
  progress := h.progress

end Inv

/-- When the flag is tested before it is set, `Main` is over. -/
theorem test_early (h : Inv w) (hc : w.creator = .spawned) :
    (next queueSize w .test).thread = .left ∧ (next queueSize w .test).stopped = false := by
  have hr : w.running = false := by
    cases hr : w.running with
    | true => exact absurd hc (h.flag.1 hr).2.1
    | false => rfl
  exact ⟨by simp [next, hr], h.not_stopped (.inr (.inl hc))⟩

/-- In every run, `Main` stays in its loop until `HandleStop` has run, and what is accepted before
`Stop` is executed, if and only if `Main` never tests `running_` before `Start` has set it. -/
theorem served_iff {as : List (Act α)}
    (h : Run.Meets (next queueSize) (enabled detach) {} as) :
    (∀ pre, pre <+: as → Served detach (Run.exec (next queueSize) {} pre)) ↔
      Run.Meets (next queueSize) InTime {} as := by
  have hinv : ∀ {as : List (Act α)}, Run.Meets (next queueSize) (enabled detach) {} as →
      Run.Meets (next queueSize) InTime {} as → Inv (Run.exec (next queueSize) {} as) := by
    intro as h hin
    have hboth : Run.Meets (next queueSize) (fun w a => enabled detach w a ∧ InTime w a) {} as :=
      fun pre a post heq => ⟨h pre a post heq, hin pre a post heq⟩
    exact Run.invariant (next queueSize) inv_start (fun w a hw hok => hw.step hok.1 hok.2) hboth
  constructor
  · intro hall
    induction as using List.reverseRecOn with
    | nil => exact Run.meets_nil _ _ _
    | append_singleton as a ih =>
      have hpre := ih (h.pre _) fun pre hp => hall pre (hp.trans (List.prefix_append _ _))
      refine hpre.concat _ ?_
      rintro rfl hc
      have hserved := hall (as ++ [.test]) List.prefix_rfl
      rw [Run.exec_concat] at hserved
      obtain ⟨hleft, hstop⟩ := test_early (hinv (h.pre _) hpre) hc
      have hstay := hserved.stays hleft
      rw [hstop] at hstay
      cases hstay
  · rintro hin pre ⟨post, rfl⟩
    exact (hinv (h.pre _) (hin.pre _)).served

end

section

instance (w : Worker Nat) (a : Act Nat) : Decidable (InTime w a) := by
  unfold InTime; infer_instance

instance (detach : Bool) (w : Worker Nat) (a : Act Nat) : Decidable (enabled detach w a) := by
  cases a <;> unfold enabled <;> infer_instance

/-- `Start` is done before `Main` begins, and `Stop` is called before the second task is seen. -/
def stoppedRun : List (Act Nat) :=
  [.spawn, .setRunning, .test, .watch (.append 7), .watch (.notify true), .watch .wake,
    .watch .read, .watch .read, .watch .swap, .watch (.append 8), .stop, .watch .process,
    .watch .finish, .stopWake, .drain, .watch .swap, .watch .process, .watch .finish, .stopDone,
    .ret, .test]

theorem stoppedRun_served :
    (Run.exec (next 0) {} stoppedRun).thread = .left ∧
      ∀ pre, pre <+: stoppedRun → Served false (Run.exec (next 0) {} pre) :=
  ⟨by decide +kernel,
    (served_iff (Run.meets_of_check _ (by decide +kernel))).2
      (Run.meets_of_check _ (by decide +kernel))⟩

/-- `Main` tests `running_` before `Start` sets it. `Start` returns true, a task is accepted, and
nobody is there to execute it. -/
def earlyRun : List (Act Nat) :=
  [.spawn, .test, .setRunning, .watch (.append 7), .watch (.notify true)]

theorem earlyRun_not_served :
    ¬ ∀ as : List (Act Nat), Run.Meets (next 0) (enabled false) {} as →
      Served false (Run.exec (next 0) {} as) := by
  intro h
  have hserved := h earlyRun (Run.meets_of_check _ (by decide +kernel))
  have hstay := hserved.stays (by decide +kernel)
  exact absurd hstay (by decide +kernel)

end

end Worker

end Framework
end Shs
