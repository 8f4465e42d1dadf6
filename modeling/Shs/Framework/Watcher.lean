import Shs.Lib.Run

/-!
# Framework.Watcher

The two queues that threads hand work over with: `results_` of the framework (`InvokeComplete`
adds, `HandleInvokeComplete` takes) and `tasks_` of a worker (`AddTask` adds, `HandleTask` takes).
Both work the same way. Producers append under the mutex, and the one that finds the queue empty
writes a byte into the pipe of a `PipedEventWatcher` afterwards. The consumer sits in its event
loop until the pipe is readable, reads it empty and then swaps the queue out under the mutex.

The pipe is not locked with the queue, so the steps of the producers and of the consumer come in
any order.
-/

namespace Shs
namespace Framework

/-- Where the thread of the event loop is. -/
inductive Consumer (α : Type) where
  /-- in `epoll_wait` -/
  | waiting
  /-- in the reading loop of `PipedEventWatcher::HandlerFn` -/
  | draining
  /-- `read` has said EAGAIN, and the handler has not swapped yet -/
  | drained
  /-- in the loop over what has been swapped out -/
  | processing (batch : List α)
  deriving DecidableEq, Repr

structure Watcher (α : Type) where
  queue : List α := []
  /-- bytes in the pipe -/
  pipe : Nat := 0
  /-- producers that have appended and are about to notify -/
  notifying : Nat := 0
  consumer : Consumer α := .waiting
  /-- all items appended, in order -/
  appended : List α := []
  /-- all items processed, in order -/
  processed : List α := []
  deriving DecidableEq, Repr

namespace Watcher

def BUFF_SZ : Nat := 1024

inductive Act (α : Type) where
  /-- a producer runs its critical section -/
  | append (x : α)
  /-- a producer writes its byte; the pipe may refuse it -/
  | notify (accepted : Bool)
  /-- `epoll_wait` reports the pipe -/
  | wake
  | read
  | swap
  | process
  | finish
  deriving DecidableEq, Repr

section

variable {α : Type} (queueSize : Option Nat)

/-- The critical section of `Worker::AddTask`, where a queue that is not empty has a limit, and of
`Framework::InvokeComplete`, where it has none. -/
def append (x : α) (w : Watcher α) : Watcher α :=
  if w.queue = [] then
    { w with queue := [x], appended := w.appended ++ [x], notifying := w.notifying + 1 }
  else if ∃ limit ∈ queueSize, limit ≤ w.queue.length then w
  else { w with queue := w.queue ++ [x], appended := w.appended ++ [x] }

/-- `PipedEventWatcher::Notify`. -/
def notify (accepted : Bool) (w : Watcher α) : Watcher α :=
  { w with notifying := w.notifying - 1, pipe := if accepted then w.pipe + 1 else w.pipe }

/-- One `read` of `PipedEventWatcher::HandlerFn`. -/
def read (w : Watcher α) : Watcher α :=
  if w.pipe = 0 then { w with consumer := .drained }
  else { w with pipe := w.pipe - min w.pipe BUFF_SZ }

/-- `results.swap(results_)`, and the same for `tasks_`. -/
def swap (w : Watcher α) : Watcher α :=
  { w with consumer := .processing w.queue, queue := [] }

/-- Whether the step can be taken. A write into the pipe fails only if there is something in it. -/
def enabled (w : Watcher α) : Act α → Prop
  | .append _ => True
  | .notify accepted => 0 < w.notifying ∧ (accepted = false → 0 < w.pipe)
  | .wake => w.consumer = .waiting ∧ 0 < w.pipe
  | .read => w.consumer = .draining
  | .swap => w.consumer = .drained
  | .process => ∃ x rest, w.consumer = .processing (x :: rest)
  | .finish => w.consumer = .processing []

def next (w : Watcher α) : Act α → Watcher α
  | .append x => append queueSize x w
  | .notify accepted => notify accepted w
  | .wake => { w with consumer := .draining }
  | .read => read w
  | .swap => swap w
  | .process =>
    match w.consumer with
    | .processing (x :: rest) =>
      { w with consumer := .processing rest, processed := w.processed ++ [x] }
    | _ => w
  | .finish => { w with consumer := .waiting }

instance [DecidableEq α] (w : Watcher α) (a : Act α) : Decidable (w.enabled a) :=
  match a with
  | .append _ => inferInstanceAs (Decidable True)
  | .notify accepted => inferInstanceAs (Decidable (0 < w.notifying ∧ (accepted = false → 0 < w.pipe)))
  | .wake => inferInstanceAs (Decidable (w.consumer = .waiting ∧ 0 < w.pipe))
  | .read => inferInstanceAs (Decidable (w.consumer = .draining))
  | .swap => inferInstanceAs (Decidable (w.consumer = .drained))
  | .process =>
    match h : w.consumer with
    | .processing (x :: rest) => .isTrue ⟨x, rest, h⟩
    | .processing [] => .isFalse fun ⟨_, _, h'⟩ => by simp [h] at h'
    | .waiting => .isFalse fun ⟨_, _, h'⟩ => by simp [h] at h'
    | .draining => .isFalse fun ⟨_, _, h'⟩ => by simp [h] at h'
    | .drained => .isFalse fun ⟨_, _, h'⟩ => by simp [h] at h'
  | .finish => inferInstanceAs (Decidable (w.consumer = .processing []))

/-- The states that any interleaving of the producers and the consumer leads to. -/
inductive Reachable : Watcher α → Prop
  | start : Reachable {}
  | next {w : Watcher α} {a : Act α} (h : Reachable w) (ha : w.enabled a) :
      Reachable (w.next queueSize a)

/-- `w` goes to `w'` by steps of which `n` are not those of appending producers. -/
inductive Steps : Nat → Watcher α → Watcher α → Prop
  | refl (w : Watcher α) : Steps 0 w w
  | append {n : Nat} {w w' : Watcher α} (h : Steps n w w') (x : α) :
      Steps n w (w'.next queueSize (.append x))
  | move {n : Nat} {w w' : Watcher α} (h : Steps n w w') {a : Act α} (ha : w'.enabled a)
      (hne : ∀ x, a ≠ .append x) : Steps (n + 1) w (w'.next queueSize a)

end

section

variable {α : Type} {queueSize : Option Nat} {w w' : Watcher α}

/-- What has been swapped out and not processed yet. -/
def batch (w : Watcher α) : List α :=
  match w.consumer with
  | .processing rest => rest
  | _ => []

/-- A queue with something in it: the pipe has a byte, or a producer is about to write one, or the
consumer has come for it and has not swapped. -/
def Woken (w : Watcher α) : Prop :=
  w.queue ≠ [] →
    0 < w.pipe ∨ 0 < w.notifying ∨ w.consumer = .draining ∨ w.consumer = .drained

/-- No item is lost, none is there twice, and none has overtaken another. -/
def InOrder (w : Watcher α) : Prop := w.processed ++ w.batch ++ w.queue = w.appended

theorem append_cases (queueSize : Option Nat) (x : α) (w : Watcher α) :
    (w.queue = [] ∧ append queueSize x w =
      { w with queue := [x], appended := w.appended ++ [x], notifying := w.notifying + 1 }) ∨
    (w.queue ≠ [] ∧ append queueSize x w = w) ∨
    (w.queue ≠ [] ∧ append queueSize x w =
      { w with queue := w.queue ++ [x], appended := w.appended ++ [x] }) := by
  unfold append
  split
  · exact .inl ⟨‹_›, rfl⟩
  · split
    · exact .inr (.inl ⟨‹_›, rfl⟩)
    · exact .inr (.inr ⟨‹_›, rfl⟩)

theorem woken_next (h : Woken w) {a : Act α} (ha : w.enabled a) : Woken (w.next queueSize a) := by
  cases a with
  | append x =>
    rcases append_cases queueSize x w with ⟨-, heq⟩ | ⟨-, heq⟩ | ⟨hq, heq⟩
    · rw [next, heq]
      exact fun _ => .inr (.inl (Nat.succ_pos _))
    · rw [next, heq]
      exact h
    · rw [next, heq]
      exact fun _ => h hq
  | notify accepted =>
    -- the byte is in the pipe now, or there was one that kept it out
    intro _
    refine .inl ?_
    cases accepted with
    | true => exact Nat.succ_pos _
    | false => exact ha.2 rfl
  | wake => exact fun _ => .inr (.inr (.inl rfl))
  | read =>
    intro _
    simp only [next, read]
    split
    · exact .inr (.inr (.inr rfl))
    · exact .inr (.inr (.inl ha))
  | swap => exact fun hq => absurd rfl hq
  | process =>
    obtain ⟨x, rest, hc⟩ := ha
    intro hq
    simp only [next, hc] at hq ⊢
    simpa [hc] using h hq
  | finish =>
    intro hq
    simp only [enabled] at ha
    simpa [next, ha] using h hq

theorem inOrder_next (h : InOrder w) {a : Act α} (ha : w.enabled a) :
    InOrder (w.next queueSize a) := by
  unfold InOrder at h ⊢
  cases a with
  | append x =>
    rcases append_cases queueSize x w with ⟨hq, heq⟩ | ⟨-, heq⟩ | ⟨-, heq⟩
    · rw [next, heq, ← h, hq, List.append_nil]
      rfl
    · rw [next, heq, h]
    · rw [next, heq, ← h]
      simp [batch]
  | notify accepted => exact h
  | wake =>
    obtain ⟨hc, -⟩ := ha
    simpa [next, batch, hc] using h
  | read =>
    simp only [enabled] at ha
    simp only [next, read]
    split <;> simpa [batch, ha] using h
  | swap =>
    simp only [enabled] at ha
    simpa [next, swap, batch, ha] using h
  | process =>
    obtain ⟨x, rest, hc⟩ := ha
    simpa [next, batch, hc] using h
  | finish =>
    simp only [enabled] at ha
    simpa [next, batch, ha] using h

theorem Reachable.sound (h : Reachable queueSize w) : Woken w ∧ InOrder w := by
  induction h with
  | start => exact ⟨fun hq => absurd rfl hq, rfl⟩
  | next _ ha ih => exact ⟨woken_next ih.1 ha, inOrder_next ih.2 ha⟩

theorem InOrder.processed_prefix (ho : InOrder w) : w.processed <+: w.appended := by
  rw [← ho, List.append_assoc]
  exact List.prefix_append _ _

/-! ## Every item is processed -/

/-- As long as something is left to do, some thread can do it. -/
theorem progress (hw : Woken w) (ho : InOrder w) (h : w.processed ≠ w.appended) :
    ∃ a, w.enabled a ∧ ∀ x, a ≠ .append x := by
  cases hc : w.consumer with
  | draining => exact ⟨.read, hc, by simp⟩
  | drained => exact ⟨.swap, hc, by simp⟩
  | processing rest =>
    cases rest with
    | nil => exact ⟨.finish, hc, by simp⟩
    | cons x rest => exact ⟨.process, ⟨x, rest, hc⟩, by simp⟩
  | waiting =>
    have hq : w.queue ≠ [] := by
      intro hq
      refine h ?_
      rw [InOrder, hq] at ho
      simpa [batch, hc] using ho
    rcases hw hq with hp | hn | habs | habs
    · exact ⟨.wake, ⟨hc, hp⟩, by simp⟩
    · exact ⟨.notify true, ⟨hn, by simp⟩, by simp⟩
    · rw [hc] at habs; cases habs
    · rw [hc] at habs; cases habs

/-- How far the consumer is from its swap. -/
def distance : Consumer α → Nat
  | .processing _ => 3
  | .waiting => 2
  | .draining => 1
  | .drained => 0

/-- The producer who finds the queue empty will notify. -/
def pending : List α → Nat
  | [] => 2
  | _ :: _ => 0

/-- Steps that notifying may still take before the next swap: for the bytes in the pipe, those
that producers are about to write, and that of the producer who finds the queue empty. -/
def noise (w : Watcher α) : Nat := w.pipe + 2 * w.notifying + pending w.queue

def workOf (n processed batch noise distance : Nat) : Nat :=
  (n - processed) + noise + if processed + batch < n then distance + 3 else 0

theorem workOf_near {n p b : Nat} (h : n ≤ p + b) (k d : Nat) : workOf n p b k d = n - p + k := by
  rw [workOf, if_neg (by omega), Nat.add_zero]

theorem workOf_far {n p b : Nat} (h : p + b < n) (k d : Nat) :
    workOf n p b k d = n - p + k + (d + 3) := by
  rw [workOf, if_pos h]

/-- A bound on the steps until the first `n` items are processed. -/
def work (n : Nat) (w : Watcher α) : Nat :=
  workOf n w.processed.length w.batch.length w.noise (distance w.consumer)

/-- Producers that append do not put the consumer off: one byte is written for each swap. -/
theorem work_append (n : Nat) (x : α) : work n (append queueSize x w) = work n w := by
  rcases append_cases queueSize x w with ⟨hq, heq⟩ | ⟨-, heq⟩ | ⟨hq, heq⟩
  · have hnoise : noise (append queueSize x w) = noise w := by
      simp only [heq, noise, hq, pending]
      omega
    rw [work, hnoise, heq]
    rfl
  · rw [heq]
  · have hnoise : noise (append queueSize x w) = noise w := by
      simp only [heq, noise]
      cases hl : w.queue with
      | nil => exact absurd hl hq
      | cons y ys => rfl
    rw [work, hnoise, heq]
    rfl

theorem InOrder.length (ho : InOrder w) :
    w.processed.length + w.batch.length + w.queue.length = w.appended.length := by
  rw [← ho, List.length_append, List.length_append]

theorem pending_nil : pending ([] : List α) = 2 := rfl

theorem pending_le (q : List α) : pending q ≤ 2 := by
  cases q <;> simp [pending]

/-- Every other step brings the processing of the first `n` items nearer. -/
theorem work_move (queueSize : Option Nat) {n : Nat} (hn : n ≤ w.appended.length) (ho : InOrder w)
    (hleft : w.processed.length < n) {a : Act α} (ha : w.enabled a) (hne : ∀ x, a ≠ .append x) :
    work n (w.next queueSize a) < work n w := by
  have hlen := ho.length
  cases a with
  | append x => exact absurd rfl (hne x)
  | notify accepted =>
    have hpos := ha.1
    have hnoise : noise (notify accepted w) < noise w := by
      simp only [noise, notify]
      split <;> omega
    exact Nat.add_lt_add_right (Nat.add_lt_add_left hnoise _) _
  | wake =>
    obtain ⟨hc, -⟩ := ha
    simp only [next, work, noise, hc, batch, distance, List.length_nil]
    rw [workOf_far (by omega), workOf_far (by omega)]
    omega
  | read =>
    simp only [enabled] at ha
    simp only [next, read]
    split
    · simp only [work, noise, batch, distance, ha, List.length_nil]
      rw [workOf_far (by omega), workOf_far (by omega)]
      omega
    · simp only [work, noise, batch, distance, ha, List.length_nil, BUFF_SZ]
      rw [workOf_far (by omega), workOf_far (by omega)]
      omega
  | swap =>
    simp only [enabled] at ha
    have hbatch : w.batch = [] := by simp [batch, ha]
    have hpend := pending_le w.queue
    rw [hbatch, List.length_nil] at hlen
    simp only [next, swap, work, noise, batch, distance, ha, List.length_nil, pending_nil]
    rw [workOf_near (by omega), workOf_far (by omega)]
    omega
  | process =>
    obtain ⟨x, rest, hc⟩ := ha
    simp only [next, work, noise, hc, batch, distance, List.length_append, List.length_cons,
      List.length_nil]
    by_cases hfar : w.processed.length + (rest.length + 1) < n
    · rw [workOf_far (by omega), workOf_far hfar]
      omega
    · rw [workOf_near (by omega), workOf_near (by omega)]
      omega
  | finish =>
    simp only [enabled] at ha
    simp only [next, work, noise, ha, batch, distance, List.length_nil]
    rw [workOf_far (by omega), workOf_far (by omega)]
    omega

theorem processed_next (queueSize : Option Nat) (w : Watcher α) (a : Act α) :
    w.processed.length ≤ (w.next queueSize a).processed.length ∧
      w.appended <+: (w.next queueSize a).appended := by
  cases a with
  | append x =>
    rcases append_cases queueSize x w with ⟨-, heq⟩ | ⟨-, heq⟩ | ⟨-, heq⟩ <;> simp [next, heq]
  | notify accepted => exact ⟨Nat.le_refl _, List.prefix_rfl⟩
  | wake => exact ⟨Nat.le_refl _, List.prefix_rfl⟩
  | read =>
    simp only [next, read]
    split <;> exact ⟨Nat.le_refl _, List.prefix_rfl⟩
  | swap => exact ⟨Nat.le_refl _, List.prefix_rfl⟩
  | process =>
    simp only [next]
    split <;> simp
  | finish => exact ⟨Nat.le_refl _, List.prefix_rfl⟩

theorem Steps.inOrder {k : Nat} (h : Steps queueSize k w w') (ho : InOrder w) :
    InOrder w' ∧ w.appended <+: w'.appended := by
  induction h with
  | refl => exact ⟨ho, List.prefix_rfl⟩
  | append _ x ih =>
    obtain ⟨ho', happ⟩ := ih ho
    exact ⟨inOrder_next ho' trivial, happ.trans (processed_next queueSize _ (.append x)).2⟩
  | @move k w₀ w₁ _ a ha _ ih =>
    obtain ⟨ho', happ⟩ := ih ho
    exact ⟨inOrder_next ho' ha, happ.trans (processed_next queueSize _ a).2⟩

/-- Along any steps, as long as what had been appended is not all processed. -/
theorem Steps.work {k : Nat} (h : Steps queueSize k w w') (ho : InOrder w)
    (hleft : w'.processed.length < w.appended.length) :
    w'.work w.appended.length + k ≤ w.work w.appended.length := by
  induction h with
  | refl => exact Nat.le_refl _
  | @append k w₀ w₁ _ x ih =>
    have hp := (processed_next queueSize w₁ (.append x)).1
    rw [next, work_append]
    exact ih ho (by omega)
  | @move k w₀ w₁ hs a ha hne ih =>
    have hp := (processed_next queueSize w₁ a).1
    obtain ⟨ho', happ⟩ := hs.inOrder ho
    have hwork := ih ho (by omega)
    have hless := work_move queueSize happ.length_le ho' (by omega) ha hne
    omega

/-- In every reachable state a queue with something in it has a wakeup under way, no item has been
lost, doubled or overtaken, some thread can go on as long as an item is not processed, and what
has been appended is processed after a bounded number of steps, however many items follow. -/
theorem handed_over (queueSize : Option Nat) (w : Watcher α) (h : Reachable queueSize w) :
    Woken w ∧ InOrder w ∧
      (w.processed ≠ w.appended → ∃ a, w.enabled a ∧ ∀ x, a ≠ .append x) ∧
      ∃ bound, ∀ k w', Steps queueSize k w w' → bound ≤ k → w.appended <+: w'.processed := by
  obtain ⟨hw, ho⟩ := h.sound
  refine ⟨hw, ho, progress hw ho, w.work w.appended.length + 1, fun k w' hs hk => ?_⟩
  obtain ⟨ho', happ⟩ := hs.inOrder ho
  refine List.prefix_of_prefix_length_le happ ho'.processed_prefix ?_
  by_contra hshort
  have hwork := hs.work ho (by omega)
  omega

end

/-- A worker whose queue takes two tasks: the second one comes between the drain and the swap, and
the third one while the first two are run. -/
theorem handed_over_late :
    ∃ w : Watcher Nat, w.appended = [1, 2, 3] ∧ w.processed = [1] ∧ w.queue = [3] ∧
      Reachable (some 2) w ∧ Woken w ∧ InOrder w ∧
      (w.processed ≠ w.appended → ∃ a, w.enabled a ∧ ∀ x, a ≠ .append x) ∧
      ∃ bound, ∀ k w', Steps (some 2) k w w' → bound ≤ k → w.appended <+: w'.processed := by
  have h₁ : Reachable (some 2) ⟨[1], 0, 1, .waiting, [1], []⟩ :=
    .next (a := .append 1) .start trivial
  have h₂ : Reachable (some 2) ⟨[1], 1, 0, .waiting, [1], []⟩ :=
    .next (a := .notify true) h₁ ⟨Nat.one_pos, nofun⟩
  have h₃ : Reachable (some 2) ⟨[1], 1, 0, .draining, [1], []⟩ :=
    .next (a := .wake) h₂ ⟨rfl, Nat.one_pos⟩
  have h₄ : Reachable (some 2) ⟨[1], 0, 0, .draining, [1], []⟩ := .next (a := .read) h₃ rfl
  have h₅ : Reachable (some 2) ⟨[1], 0, 0, .drained, [1], []⟩ := .next (a := .read) h₄ rfl
  have h₆ : Reachable (some 2) ⟨[1, 2], 0, 0, .drained, [1, 2], []⟩ :=
    .next (a := .append 2) h₅ trivial
  have h₇ : Reachable (some 2) ⟨[], 0, 0, .processing [1, 2], [1, 2], []⟩ :=
    .next (a := .swap) h₆ rfl
  have h₈ : Reachable (some 2) ⟨[], 0, 0, .processing [2], [1, 2], [1]⟩ :=
    .next (a := .process) h₇ ⟨1, [2], rfl⟩
  have h : Reachable (some 2) ⟨[3], 0, 1, .processing [2], [1, 2, 3], [1]⟩ :=
    .next (a := .append 3) h₈ trivial
  exact ⟨_, rfl, rfl, rfl, h, handed_over (some 2) _ h⟩

end Watcher

end Framework
end Shs
