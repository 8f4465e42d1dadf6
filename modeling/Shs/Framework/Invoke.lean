import Mathlib.Algebra.Order.Ring.Int
import Shs.Lib.Run

/-!
# Framework.Invoke

`Framework::Invoke` and what ends an invocation: a completion that a worker puts into `results_`
and `HandleInvokeComplete` takes out, or the timeout of its `InvokeTimer`. The main thread calls
the handlers; workers only add to `results_`, at any time.

Invocations are numbered in the order of the calls. `invoke_id_` is a 64-bit counter, so the id of
an invocation is its number up to a multiple of `2 ^ 64`.
-/

namespace Shs
namespace Framework

def OK : Int := 0
def E_INVALID_MODULE : Int := -1
def E_INVOKE_TIMEOUT : Int := -5
def E_INTERNAL : Int := -7

structure InvokeResult where
  ec : Int := OK
  msg : String := ""
  deriving DecidableEq, Repr

/-- An `InvokeTimer` as `timers_` and the timer tree have it: the id it was made for, and the
invocation whose `complete_handler_` it holds. -/
structure Timer where
  id : Nat
  num : Nat
  deriving DecidableEq, Repr

end Framework

open Framework (Timer InvokeResult) in
structure Framework where
  modules : List String
  invokeId : Nat := 0
  timers : List Timer := []
  /-- the timers that the timer tree holds -/
  tree : List Timer := []
  results : List (Nat × InvokeResult) := []
  /-- what `HandleInvokeComplete` has taken out of `results_` and not yet looked at -/
  batch : List (Nat × InvokeResult) := []
  /-- how many invocations there have been -/
  count : Nat := 0
  /-- the calls of complete handlers, the last one first -/
  calls : List (Nat × InvokeResult) := []
  /-- `HandleInvokeTimeout` has dereferenced `timers_.end()` -/
  missing : Bool := false
  deriving DecidableEq, Repr

namespace Framework

/-- `timers_.find(id)`. -/
def findTimer (id : Nat) (w : Framework) : Option Timer := w.timers.find? fun t => t.id == id

/-- `timers_.erase(it)`. -/
def eraseTimer (id : Nat) (w : Framework) : Framework :=
  { w with timers := w.timers.filter fun t => t.id != id }

/-- `InvokeTimer::Complete`, and the direct calls of `complete_handler`. -/
def complete (num : Nat) (r : InvokeResult) (w : Framework) : Framework :=
  { w with calls := (num, r) :: w.calls }

/-- `InvokeTimer::Cancel`. -/
def cancel (t : Timer) (w : Framework) : Framework := { w with tree := w.tree.erase t }

/-- `Framework::AddInvokeTimer`, with false where the id is taken. The new timer is in the tree
then, and the destructor of its watcher does not take it out: `~EventWatcher` calls the empty
`DoClose` of the base class. -/
def addInvokeTimer (t : Timer) (w : Framework) : Framework × Bool :=
  let w := { w with tree := t :: w.tree }
  match findTimer t.id w with
  | some _ => (w, false)
  | none => ({ w with timers := t :: w.timers }, true)

/-- `Framework::Invoke`. The module gets the request last, and answers through
`invokeComplete`. -/
def invoke (moduleName : String) (w : Framework) : Framework :=
  let t : Timer := ⟨w.invokeId, w.count⟩
  let w := { w with invokeId := (w.invokeId + 1) % 2 ^ 64, count := w.count + 1 }
  if moduleName ∉ w.modules then complete t.num ⟨E_INVALID_MODULE, "Invalid module name"⟩ w
  else
    match addInvokeTimer t w with
    | (w, false) => complete t.num ⟨E_INTERNAL, "Invoke Initialize timer failed"⟩ w
    | (w, true) => w

/-- `Framework::InvokeComplete`, in the thread of a worker. -/
def invokeComplete (id : Nat) (r : InvokeResult) (w : Framework) : Framework :=
  { w with results := w.results ++ [(id, r)] }

def handleInvokeTimeout (id : Nat) (w : Framework) : Framework :=
  match findTimer id w with
  | none => { w with missing := true }
  | some t => complete t.num ⟨E_INVOKE_TIMEOUT, "Invoke timed out"⟩ (eraseTimer id w)

/-- One round of the loop of `HandleInvokeComplete`. -/
def handleResult (res : Nat × InvokeResult) (w : Framework) : Framework :=
  match findTimer res.1 w with
  | none => w
  | some t => complete t.num res.2 (cancel t (eraseTimer res.1 w))

inductive Act where
  | invoke (moduleName : String)
  /-- a worker reports a result -/
  | report (id : Nat) (r : InvokeResult)
  /-- timer `t` is due -/
  | expire (t : Timer)
  /-- `result_watcher_` calls `HandleInvokeComplete`, which swaps `results_` out -/
  | swap
  /-- the next round of its loop -/
  | handle
  deriving DecidableEq, Repr

/-- `HandleInvokeComplete` is cut into its swap and its rounds, so that a run may have, between
two rounds, what workers report and what a complete handler invokes. -/
def next (w : Framework) : Act → Framework
  | .invoke name => invoke name w
  | .report id r => invokeComplete id r w
  | .expire t =>
    if t ∈ w.tree then handleInvokeTimeout t.id { w with tree := w.tree.erase t } else w
  | .swap => if w.batch = [] then { w with results := [], batch := w.results } else w
  | .handle =>
    match w.batch with
    | [] => w
    | res :: rest => handleResult res { w with batch := rest }

/-- Nothing is said of what runs after `timers_.end()` has been dereferenced. -/
def step (w : Framework) (a : Act) : Framework := if w.missing then w else next w a

def start (modules : List String) : Framework := { modules := modules }

/-! ## Every invocation ends once -/

/-- How often the handler of invocation `n` has been called. -/
def called (n : Nat) (w : Framework) : Nat := w.calls.countP fun c => c.1 == n

/-- How many entries of `timers_` hold the handler of invocation `n`. -/
def entries (n : Nat) (w : Framework) : Nat := w.timers.countP fun t => t.num == n

/-- What holds however often the ids come round. -/
structure Counted (w : Framework) : Prop where
  keys : (w.timers.map Timer.id).Nodup
  once : ∀ n < w.count, called n w + entries n w = 1
  fresh : ∀ n, w.count ≤ n → called n w + entries n w = 0

theorem counted_start (modules : List String) : Counted (start modules) :=
  ⟨List.nodup_nil, fun n hn => absurd hn (Nat.not_lt_zero n), fun _ _ => rfl⟩

theorem findTimer_id {w : Framework} {id : Nat} {t : Timer} (hf : findTimer id w = some t) :
    t ∈ w.timers ∧ t.id = id := by
  unfold findTimer at hf
  exact ⟨List.mem_of_find?_eq_some hf, by simpa using List.find?_some hf⟩

theorem findTimer_none {w : Framework} {id : Nat} (hf : findTimer id w = none) :
    id ∉ w.timers.map Timer.id := by
  unfold findTimer at hf
  intro hmem
  obtain ⟨t, ht, rfl⟩ := List.mem_map.mp hmem
  simpa using List.find?_eq_none.mp hf t ht

/-- An entry that is found is the only one of its id, and goes. -/
theorem eraseTimer_perm {w : Framework} {id : Nat} {t : Timer}
    (hk : (w.timers.map Timer.id).Nodup) (hf : findTimer id w = some t) :
    w.timers.Perm (t :: (eraseTimer id w).timers) := by
  obtain ⟨ht, rfl⟩ := findTimer_id hf
  have herase : (eraseTimer t.id w).timers = w.timers.erase t := by
    simp only [eraseTimer]
    generalize w.timers = ts at hk ht
    induction ts with
    | nil => cases ht
    | cons u ts ih =>
      obtain ⟨hu, hk⟩ := List.nodup_cons.mp hk
      by_cases hut : u = t
      · subst hut
        have hrest : ∀ v ∈ ts, (v.id != u.id) = true := by
          intro v hv
          simp only [bne_iff_ne, ne_eq]
          intro hid
          exact hu (List.mem_map.mpr ⟨v, hv, hid⟩)
        simp [List.filter_eq_self.mpr hrest]
      · have htt : t ∈ ts := by
          rcases List.mem_cons.mp ht with h | h
          · exact absurd h.symm hut
          · exact h
        have hid : (u.id != t.id) = true := by
          simp only [bne_iff_ne, ne_eq]
          intro hid
          exact hu (List.mem_map.mpr ⟨t, htt, hid.symm⟩)
        rw [List.filter_cons, if_pos hid, ih hk htt, List.erase_cons_tail (by simpa using hut)]
  rw [herase]
  exact List.perm_cons_erase ht

section Counts

variable {w : Framework} (n : Nat)

theorem called_complete (m : Nat) (r : InvokeResult) :
    called n (complete m r w) = called n w + if m = n then 1 else 0 := by
  simp [called, complete, List.countP_cons]

theorem entries_cons {t : Timer} {ts : List Timer} (ht : w.timers.Perm (t :: ts)) :
    entries n w = ts.countP (fun t => t.num == n) + if t.num = n then 1 else 0 := by
  simp [entries, ht.countP_eq, List.countP_cons]

end Counts

namespace Counted

variable {w : Framework}

theorem num_lt (h : Counted w) {t : Timer} (ht : t ∈ w.timers) : t.num < w.count := by
  have hpos : 0 < entries t.num w := List.countP_pos_iff.mpr ⟨t, ht, by simp⟩
  have hfresh := h.fresh t.num
  omega

/-- The entry of an invocation goes, and its handler is called. -/
theorem ends (h : Counted w) {id : Nat} {t : Timer} (hf : findTimer id w = some t)
    (r : InvokeResult) (tree : List Timer) :
    Counted (complete t.num r { eraseTimer id w with tree := tree }) := by
  have hperm := eraseTimer_perm h.keys hf
  have hsame : ∀ n, called n (complete t.num r { eraseTimer id w with tree := tree }) +
      entries n (complete t.num r { eraseTimer id w with tree := tree }) =
      called n w + entries n w := by
    intro n
    rw [called_complete, entries_cons n hperm]
    simp only [called, entries, complete, eraseTimer]
    omega
  refine ⟨?_, fun n hn => (hsame n).trans (h.once n hn), fun n hn => (hsame n).trans (h.fresh n hn)⟩
  have hk := (hperm.map Timer.id).nodup_iff.mp h.keys
  exact (List.nodup_cons.mp hk).2

/-- What a new invocation has to bring with it: one handler, called or entered. -/
theorem grown (h : Counted w) {w' : Framework} (hk : (w'.timers.map Timer.id).Nodup)
    (hc : w'.count = w.count + 1)
    (hs : ∀ n, called n w' + entries n w' =
      called n w + entries n w + if w.count = n then 1 else 0) : Counted w' := by
  refine ⟨hk, fun n hn => ?_, fun n hn => ?_⟩
  · rw [hs n]
    rcases Nat.lt_succ_iff_lt_or_eq.mp (hc ▸ hn) with hlt | rfl
    · rw [h.once n hlt, if_neg (by omega)]
    · rw [h.fresh _ (Nat.le_refl _), if_pos rfl]
  · rw [hs n, h.fresh n (by omega), if_neg (by omega)]

/-- An invocation that ends at once. -/
theorem refused (h : Counted w) (r : InvokeResult) (tree : List Timer) (id : Nat) :
    Counted (complete w.count r
      { w with invokeId := id, count := w.count + 1, tree := tree }) := by
  refine h.grown h.keys rfl fun n => ?_
  rw [called_complete]
  simp only [called, entries, complete]
  omega

/-- An invocation that gets an entry. -/
theorem entered (h : Counted w) {t : Timer} (ht : t.num = w.count) (hf : findTimer t.id w = none)
    (tree : List Timer) (id : Nat) :
    Counted { w with invokeId := id, count := w.count + 1, tree := tree,
                     timers := t :: w.timers } := by
  refine h.grown (List.nodup_cons.mpr ⟨findTimer_none hf, h.keys⟩) rfl fun n => ?_
  simp only [called, entries, List.countP_cons, beq_iff_eq, ht]
  omega

end Counted

/-- What an invocation does: it ends at once, or gets the entry of its id. -/
theorem invoke_cases (name : String) (w : Framework) :
    (∃ r tree, invoke name w = complete w.count r
        { w with invokeId := (w.invokeId + 1) % 2 ^ 64, count := w.count + 1, tree := tree } ∧
      (name ∉ w.modules ∧ tree = w.tree ∨ ∃ t, findTimer w.invokeId w = some t)) ∨
    (findTimer w.invokeId w = none ∧ name ∈ w.modules ∧
      invoke name w =
        { w with invokeId := (w.invokeId + 1) % 2 ^ 64, count := w.count + 1,
                 tree := ⟨w.invokeId, w.count⟩ :: w.tree,
                 timers := ⟨w.invokeId, w.count⟩ :: w.timers }) := by
  by_cases hm : name ∈ w.modules
  · cases hf : findTimer w.invokeId w with
    | some t =>
      refine .inl ⟨⟨E_INTERNAL, "Invoke Initialize timer failed"⟩,
        ⟨w.invokeId, w.count⟩ :: w.tree, ?_, .inr ⟨t, rfl⟩⟩
      simp only [findTimer] at hf
      simp [invoke, hm, addInvokeTimer, findTimer, hf]
    | none =>
      refine .inr ⟨rfl, hm, ?_⟩
      simp only [findTimer] at hf
      simp only [invoke, hm, addInvokeTimer, findTimer, hf, not_true, if_false]
  · exact .inl ⟨⟨E_INVALID_MODULE, "Invalid module name"⟩, w.tree, by simp [invoke, hm],
      .inl ⟨hm, rfl⟩⟩

/-- The main thread ends an invocation: its entry goes, its handler is called with `r`. The timer
tree is `tree` then. -/
def ended (id : Nat) (t : Timer) (r : InvokeResult) (tree : List Timer) (w : Framework) :
    Framework :=
  complete t.num r { eraseTimer id w with tree := tree }

theorem handleResult_cases (res : Nat × InvokeResult) (w : Framework) :
    findTimer res.1 w = none ∧ handleResult res w = w ∨
    ∃ t, findTimer res.1 w = some t ∧
      handleResult res w = ended res.1 t res.2 (w.tree.erase t) w := by
  cases hf : findTimer res.1 w with
  | none => exact .inl ⟨rfl, by simp [handleResult, hf]⟩
  | some t =>
    refine .inr ⟨t, rfl, ?_⟩
    simp [handleResult, hf, ended, cancel, eraseTimer, complete]

theorem handleInvokeTimeout_cases (id : Nat) (w : Framework) :
    findTimer id w = none ∧ handleInvokeTimeout id w = { w with missing := true } ∨
    ∃ t, findTimer id w = some t ∧ handleInvokeTimeout id w =
      ended id t ⟨E_INVOKE_TIMEOUT, "Invoke timed out"⟩ w.tree w := by
  cases hf : findTimer id w with
  | none => exact .inl ⟨rfl, by simp [handleInvokeTimeout, hf]⟩
  | some t =>
    refine .inr ⟨t, rfl, ?_⟩
    simp [handleInvokeTimeout, hf, ended, eraseTimer, complete]

namespace Counted

variable {w : Framework}

/-- `Counted` looks at the entries, the calls and the count only. -/
theorem same (h : Counted w) {w' : Framework} (ht : w'.timers = w.timers)
    (hc : w'.calls = w.calls) (hn : w'.count = w.count) : Counted w' := by
  refine ⟨ht ▸ h.keys, fun n hlt => ?_, fun n hle => ?_⟩
  · have honce := h.once n (hn ▸ hlt)
    simp only [called, entries] at honce ⊢
    rw [ht, hc, honce]
  · have hfresh := h.fresh n (hn ▸ hle)
    simp only [called, entries] at hfresh ⊢
    rw [ht, hc, hfresh]

theorem step (h : Counted w) (a : Act) : Counted (step w a) := by
  unfold Framework.step
  split
  · exact h
  · cases a with
    | invoke name =>
      simp only [next]
      rcases invoke_cases name w with ⟨r, tree, heq, -⟩ | ⟨hf, -, heq⟩
      · rw [heq]; exact h.refused r tree _
      · rw [heq]; exact h.entered rfl hf _ _
    | report id r => exact h.same rfl rfl rfl
    | expire t =>
      simp only [next]
      split
      · have hw : Counted { w with tree := w.tree.erase t } := h.same rfl rfl rfl
        rcases handleInvokeTimeout_cases t.id { w with tree := w.tree.erase t } with
          ⟨-, heq⟩ | ⟨u, hf, heq⟩
        · rw [heq]; exact h.same rfl rfl rfl
        · rw [heq]; exact hw.ends hf _ _
      · exact h
    | swap =>
      simp only [next]
      split
      · exact h.same rfl rfl rfl
      · exact h
    | handle =>
      simp only [next]
      split
      · exact h
      · rename_i res rest _
        have hw : Counted { w with batch := rest } := h.same rfl rfl rfl
        rcases handleResult_cases res { w with batch := rest } with ⟨-, heq⟩ | ⟨t, hf, heq⟩
        · rw [heq]; exact hw
        · rw [heq]; exact hw.ends hf _ _

end Counted

/-- What holds as long as the ids have not come round. -/
structure Balanced (w : Framework) : Prop where
  counted : Counted w
  range : w.count ≤ 2 ^ 64
  ids : w.invokeId = w.count % 2 ^ 64
  named : ∀ t ∈ w.timers, t.id = t.num
  armed : w.tree.Perm w.timers
  found : w.missing = false

theorem balanced_start (modules : List String) : Balanced (start modules) :=
  ⟨counted_start modules, Nat.zero_le _, rfl, fun t ht => (by cases ht), .nil, rfl⟩

/-- `Invoke` is called at most `2 ^ 64` times. -/
def idsLast (w : Framework) : Act → Prop
  | .invoke _ => w.count < 2 ^ 64
  | _ => True

namespace Balanced

variable {w : Framework}

/-- The next id is free. -/
theorem free (h : Balanced w) (hlt : w.count < 2 ^ 64) : findTimer w.invokeId w = none := by
  cases hf : findTimer w.invokeId w with
  | none => rfl
  | some t =>
    obtain ⟨ht, hid⟩ := findTimer_id hf
    have hnum := h.counted.num_lt ht
    rw [h.named t ht, h.ids, Nat.mod_eq_of_lt hlt] at hid
    omega

theorem find_mem (h : Balanced w) {t : Timer} (ht : t ∈ w.timers) :
    findTimer t.id w = some t := by
  cases hf : findTimer t.id w with
  | none => exact absurd (List.mem_map.mpr ⟨t, ht, rfl⟩) (findTimer_none hf)
  | some u =>
    obtain ⟨hu, hid⟩ := findTimer_id hf
    have hut : u.num = t.num := by rw [← h.named u hu, ← h.named t ht, hid]
    cases u; cases t
    simp only at hut hid ⊢
    simp only [hid, hut]

theorem same (h : Balanced w) {results batch : List (Nat × InvokeResult)} :
    Balanced { w with results := results, batch := batch } :=
  ⟨h.counted.same rfl rfl rfl, h.range, h.ids, h.named, h.armed, h.found⟩

theorem ended (h : Balanced w) {id : Nat} {t : Timer} (hf : findTimer id w = some t)
    (r : InvokeResult) : Balanced (ended id t r (w.tree.erase t) w) := by
  have hperm := eraseTimer_perm h.counted.keys hf
  refine ⟨h.counted.ends hf r _, h.range, h.ids, fun u hu => ?_, ?_, h.found⟩
  · exact h.named u (hperm.symm.mem_iff.mp (List.mem_cons_of_mem t hu))
  · have htree := (h.armed.trans hperm).erase t
    rwa [List.erase_cons_head] at htree

theorem invoke (h : Balanced w) (hlt : w.count < 2 ^ 64) (name : String) :
    Balanced (invoke name w) := by
  have hids : (w.invokeId + 1) % 2 ^ 64 = (w.count + 1) % 2 ^ 64 := by
    rw [h.ids, Nat.mod_add_mod]
  have hfree := h.free hlt
  rcases invoke_cases name w with ⟨r, tree, heq, hwhy⟩ | ⟨hf, -, heq⟩
  · rcases hwhy with ⟨-, rfl⟩ | ⟨t, ht⟩
    · rw [heq]
      exact ⟨h.counted.refused r _ _, hlt, hids, h.named, h.armed, h.found⟩
    · rw [hfree] at ht
      cases ht
  · rw [heq]
    refine ⟨h.counted.entered rfl hf _ _, hlt, hids, fun t ht => ?_, h.armed.cons _, h.found⟩
    rcases List.mem_cons.mp ht with rfl | ht
    · exact h.ids.trans (Nat.mod_eq_of_lt hlt)
    · exact h.named t ht

theorem step (h : Balanced w) {a : Act} (hok : idsLast w a) : Balanced (step w a) := by
  rw [Framework.step, if_neg (by simp [h.found])]
  cases a with
  | invoke name => exact h.invoke hok name
  | report id r => exact h.same
  | expire t =>
    simp only [next]
    split
    · rename_i ht
      have hf := h.find_mem (h.armed.mem_iff.mp ht)
      rcases handleInvokeTimeout_cases t.id { w with tree := w.tree.erase t } with
        ⟨hnone, -⟩ | ⟨u, hu, heq⟩
      · rw [show findTimer t.id { w with tree := w.tree.erase t } = some t from hf] at hnone
        cases hnone
      · rw [show findTimer t.id { w with tree := w.tree.erase t } = some t from hf] at hu
        cases hu
        rw [heq]
        exact h.ended hf _
    · exact h
  | swap =>
    simp only [next]
    split
    · exact h.same
    · exact h
  | handle =>
    simp only [next]
    split
    · exact h
    · rename_i res rest _
      have hw : Balanced { w with batch := rest } := h.same
      rcases handleResult_cases res { w with batch := rest } with ⟨-, heq⟩ | ⟨t, hf, heq⟩
      · rw [heq]; exact hw
      · rw [heq]; exact hw.ended hf _

end Balanced

/-- The id that the 64-bit counter gives to invocation `n`. -/
def idOf (n : Nat) : Nat := n % 2 ^ 64

/-- Handlers are called at most once, a timeout finds the entry of its id, a completion of an
invocation that has ended changes nothing, and an invocation without an entry has ended. -/
structure ExactlyOnce (w : Framework) : Prop where
  once : ∀ n, called n w ≤ 1
  found : w.missing = false ∧ ∀ t ∈ w.tree, findTimer t.id w = some t
  ignored : ∀ n r, 0 < called n w → handleResult (idOf n, r) w = w
  answered : ∀ n < w.count, findTimer (idOf n) w = none → called n w = 1

theorem Balanced.exactlyOnce {w : Framework} (h : Balanced w) : ExactlyOnce w := by
  have hlt : ∀ n, 0 < called n w → n < w.count := by
    intro n hn
    have hfresh := h.counted.fresh n
    omega
  have hid : ∀ n < w.count, idOf n = n := fun n hn =>
    Nat.mod_eq_of_lt (Nat.lt_of_lt_of_le hn h.range)
  refine ⟨fun n => ?_, ⟨h.found, fun t ht => h.find_mem (h.armed.mem_iff.mp ht)⟩,
    fun n r hn => ?_, fun n hn hf => ?_⟩
  · have honce := h.counted.once n
    have hfresh := h.counted.fresh n
    omega
  · rcases handleResult_cases (idOf n, r) w with ⟨-, heq⟩ | ⟨t, hf, -⟩
    · exact heq
    · -- the entry would be that of the invocation that has ended
      obtain ⟨ht, htid⟩ := findTimer_id hf
      have hnum : t.num = n := by rw [← h.named t ht, htid, hid n (hlt n hn)]
      have hpos : 0 < entries n w := List.countP_pos_iff.mpr ⟨t, ht, by simp [hnum]⟩
      have honce := h.counted.once n (hlt n hn)
      omega
  · have hzero : entries n w = 0 := by
      refine List.countP_eq_zero.mpr fun t ht hnum => ?_
      have hnum : t.num = n := by simpa using hnum
      refine findTimer_none hf (List.mem_map.mpr ⟨t, ht, ?_⟩)
      rw [hid n hn, h.named t ht, hnum]
    have honce := h.counted.once n hn
    omega

/-- In every run with at most `2 ^ 64` invocations, whatever workers report and whatever times
out, every invocation ends once. -/
theorem invoke_exactly_once (modules : List String) (as : List Act)
    (h : Run.Meets step idsLast (start modules) as) :
    ExactlyOnce (Run.exec step (start modules) as) :=
  (Run.invariant step (balanced_start modules) (fun _ _ hw hok => hw.step hok) h).exactlyOnce

instance (w : Framework) (a : Act) : Decidable (idsLast w a) := by
  cases a <;> unfold idsLast <;> infer_instance

/-- A module answers twice, a module is not there, and a timer fires after all that. -/
def mixedRun : List Act :=
  [.invoke "echo", .invoke "none", .report 0 {}, .report 0 {}, .swap, .handle, .invoke "echo",
   .handle, .expire ⟨2, 2⟩, .report 2 {}, .swap, .handle]

theorem mixedRun_exactly_once :
    (Run.exec step (start ["echo"]) mixedRun).calls =
      [(2, ⟨E_INVOKE_TIMEOUT, "Invoke timed out"⟩), (0, {}),
       (1, ⟨E_INVALID_MODULE, "Invalid module name"⟩)] ∧
    ExactlyOnce (Run.exec step (start ["echo"]) mixedRun) :=
  ⟨by decide +kernel,
    invoke_exactly_once ["echo"] mixedRun (Run.meets_of_check step (by decide +kernel))⟩

/-- Invocations of a module that is not there only move the counter and call their handlers. -/
theorem refused_run {w : Framework} {name : String} (hname : name ∉ w.modules)
    (hm : w.missing = false) (hid : w.invokeId < 2 ^ 64) (k : Nat) :
    let w' := Run.exec step w (List.replicate k (.invoke name))
    w'.modules = w.modules ∧ w'.missing = false ∧ w'.timers = w.timers ∧
      w'.invokeId = (w.invokeId + k) % 2 ^ 64 ∧ ∀ n, called n w ≤ called n w' := by
  induction k with
  | zero => exact ⟨rfl, hm, rfl, (Nat.mod_eq_of_lt hid).symm, fun _ => Nat.le_refl _⟩
  | succ k ih =>
    simp only [List.replicate_succ', Run.exec_concat]
    obtain ⟨hmod, hmiss, htim, hinv, hcall⟩ := ih
    generalize Run.exec step w (List.replicate k (.invoke name)) = w' at *
    have hstep : step w' (.invoke name) = complete w'.count ⟨E_INVALID_MODULE, "Invalid module name"⟩
        { w' with invokeId := (w'.invokeId + 1) % 2 ^ 64, count := w'.count + 1 } := by
      simp [step, hmiss, next, invoke, hmod, hname]
    rw [hstep]
    refine ⟨hmod, hmiss, htim, ?_, fun n => ?_⟩
    · simp only [complete, hinv]
      omega
    · refine Nat.le_trans (hcall n) ?_
      rw [called_complete]
      exact Nat.le_add_right _ _

/-- `k` invocations of a module that is not there, between two of `echo`. -/
def roundRun (k : Nat) : List Act :=
  [.invoke "echo", .report 0 {}, .swap, .handle] ++ List.replicate k (.invoke "none") ++
    [.invoke "echo"]

/-- When the counter is back at zero, the id of the first invocation is in use again: a late
completion of the first invocation would end the new one. -/
theorem roundRun_not_once {k : Nat} (hk : (1 + k) % 2 ^ 64 = 0) :
    ¬ ExactlyOnce (Run.exec step (start ["echo"]) (roundRun k)) := by
  intro hw
  rw [roundRun, Run.exec_concat, Run.exec_append] at hw
  have hfirst : Run.exec step (start ["echo"]) [.invoke "echo", .report 0 {}, .swap, .handle] =
      { modules := ["echo"], invokeId := 1, count := 1, calls := [(0, {})] } := by
    decide +kernel
  have hname : "none" ∉ ["echo"] := by decide
  rw [hfirst] at hw
  obtain ⟨hmod, hmiss, htim, hinv, hcall⟩ :=
    refused_run (w := { modules := ["echo"], invokeId := 1, count := 1, calls := [(0, {})] })
      hname rfl (by decide) k
  generalize Run.exec step _ (List.replicate k _) = w at hw hmod hmiss htim hinv hcall
  have hstep : (step w (.invoke "echo")).timers = [⟨0, w.count⟩] ∧
      0 < called 0 (step w (.invoke "echo")) := by
    have hfree : findTimer w.invokeId w = none := by simp [findTimer, htim]
    have hpos : 0 < called 0 w := hcall 0
    rw [step, if_neg (by simp [hmiss])]
    rcases invoke_cases "echo" w with ⟨r, tree, -, ⟨hnot, -⟩ | ⟨t, ht⟩⟩ | ⟨-, -, heq⟩
    · exact absurd hnot (by simp [hmod])
    · rw [hfree] at ht
      cases ht
    · have hid : w.invokeId = 0 := hinv.trans hk
      rw [next, heq]
      exact ⟨by simp [htim, hid], hpos⟩
  generalize step w (.invoke "echo") = w' at hw hstep
  have hsame := congrArg Framework.timers (hw.ignored 0 {} hstep.2)
  simp [handleResult, findTimer, hstep.1, idOf, complete, cancel, eraseTimer] at hsame

theorem invoke_ids_come_round :
    ¬ ∀ modules as, ExactlyOnce (Run.exec step (start modules) as) := by
  intro h
  have hk : (1 + (2 ^ 64 - 1)) % 2 ^ 64 = 0 := by decide
  exact roundRun_not_once hk (h ["echo"] (roundRun (2 ^ 64 - 1)))

end Framework
end Shs
