import Mathlib.Data.List.Nodup
import Mathlib.Data.List.Perm.Subperm
import Shs.Framework.Invoke

/-!
# Framework.Status

A `/status` request: `HttpStatusHandler` invokes the `Status` method of every module, and the
complete handler of each, `StatusReply`, enters what its module says into a context that they
share. The last one to report is to send the reply.

A run has one such request, at any point. All other invocations, those of further `/status`
requests too, are those of the framework's own steps: their handlers have contexts of their own.
-/

namespace Shs
namespace Framework

open Run (exec)

/-- What is given to `http_send_reply`. -/
structure Reply where
  code : Nat
  reason : String
  data : String
  deriving DecidableEq, Repr

def HTTP_OK : Nat := 200
def HTTP_SERVUNAVAIL : Nat := 503

/-- The framework, the `StatusHandlerContext` of the request and the replies to it. -/
structure Status where
  framework : Framework
  /-- what the configured status file holds, with `none` where it is not there; no configured
  file is the same as an empty one -/
  statusFile : Option String
  asked : Bool := false
  /-- the invocations made for the request, with the `module_name_` of their handlers -/
  handlers : List (Nat × String) := []
  waitingNum : Nat := 0
  modulesStatus : List (String × InvokeResult) := []
  replies : List Reply := []
  deriving DecidableEq, Repr

/-- `modules_status[name] = result`. -/
def setStatus (name : String) (r : InvokeResult) (ms : List (String × InvokeResult)) :
    List (String × InvokeResult) :=
  (name, r) :: ms.filter fun m => m.1 != name

/-- The reply to what the modules say. -/
def answer (statusFile : Option String) (ms : List (String × InvokeResult)) : Reply :=
  if ms.all fun m => m.2.ec == OK then
    let response := statusFile.getD ""
    ⟨HTTP_OK, "OK", if response = "" then "ok" else response⟩
  else ⟨HTTP_SERVUNAVAIL, "Service Unavailable", ""⟩

/-- `SHSHttpHandler::StatusReply` of the handler for module `name`. -/
def statusReply (name : String) (r : InvokeResult) (s : Status) : Status :=
  let s := { s with modulesStatus := setStatus name r s.modulesStatus }
  if s.waitingNum ≠ s.modulesStatus.length then s
  else { s with replies := s.replies ++ [answer s.statusFile s.modulesStatus] }

/-- A call of a complete handler: `StatusReply` for those of this request. -/
def deliver (c : Nat × InvokeResult) (s : Status) : Status :=
  match s.handlers.lookup c.1 with
  | some name => statusReply name c.2 s
  | none => s

/-- The framework goes to `fw`, and the complete handlers that it has called on the way run. -/
def settle (fw : Framework) (s : Status) : Status :=
  (fw.calls.take (fw.calls.length - s.framework.calls.length)).foldr deliver
    { s with framework := fw }

/-- One round of the loop of `HttpStatusHandler`. -/
def launch (s : Status) (name : String) : Status :=
  settle (invoke name s.framework)
    { s with waitingNum := s.waitingNum + 1,
             handlers := (s.framework.count, name) :: s.handlers }

/-- `HttpStatusHandler`. `GetModulesAndMethods` has one entry for each module. -/
def httpStatusHandler (s : Status) : Status :=
  if s.statusFile = none then
    { s with replies := s.replies ++ [⟨HTTP_SERVUNAVAIL, "Service Unavailable", ""⟩] }
  else s.framework.modules.foldl launch s

namespace Status

inductive Act where
  | framework (a : Framework.Act)
  /-- the `/status` request arrives -/
  | status
  deriving DecidableEq, Repr

def step (s : Status) : Act → Status
  | .framework a => settle (Framework.step s.framework a) s
  | .status => if s.asked then s else httpStatusHandler { s with asked := true }

/-- The status file is there and reads as `text`. -/
def start (modules : List String) (text : String) : Status :=
  { framework := Framework.start modules, statusFile := some text }

/-- Module `name` has reported `r`. -/
def Reported (s : Status) (name : String) (r : InvokeResult) : Prop :=
  ∃ n, (n, name) ∈ s.handlers ∧ (n, r) ∈ s.framework.calls

/-- Nothing is sent before every module has reported. Then there is one reply, 200 if and only if
they all reported OK. A module that has not reported has its entry in `timers_`. -/
structure Aggregated (s : Status) : Prop where
  early : s.asked = true → (∃ name ∈ s.framework.modules, ∀ r, ¬ s.Reported name r) →
    s.replies = []
  one : s.asked = true → (∀ name ∈ s.framework.modules, ∃ r, s.Reported name r) →
    ∃ reply, s.replies = [reply] ∧ (reply.code = HTTP_OK ↔
      ∀ name ∈ s.framework.modules, ∀ r, s.Reported name r → r.ec = OK)
  waits : s.asked = true → ∀ name ∈ s.framework.modules, (∀ r, ¬ s.Reported name r) →
    ∃ n t, (n, name) ∈ s.handlers ∧ t ∈ s.framework.timers ∧ t.num = n

end Status

/-! ## Calls of one step -/

/-- A framework goes on by at most one call of a complete handler. -/
structure Goes (w w' : Framework) : Prop where
  modules : w'.modules = w.modules
  calls : w'.calls = w.calls ∨ ∃ c, w'.calls = c :: w.calls
  count : w.count ≤ w'.count

theorem goes_invoke (name : String) (w : Framework) : Goes w (invoke name w) := by
  rcases invoke_cases name w with ⟨r, tree, heq, -⟩ | ⟨-, -, heq⟩
  · rw [heq]
    exact ⟨rfl, .inr ⟨_, rfl⟩, Nat.le_succ _⟩
  · rw [heq]
    exact ⟨rfl, .inl rfl, Nat.le_succ _⟩

theorem goes_step (w : Framework) (a : Act) : Goes w (step w a) := by
  have hself : Goes w w := ⟨rfl, .inl rfl, Nat.le_refl _⟩
  unfold step
  split
  · exact hself
  · cases a with
    | invoke name => exact goes_invoke name w
    | report id r => exact ⟨rfl, .inl rfl, Nat.le_refl _⟩
    | expire t =>
      simp only [next]
      split
      · rcases handleInvokeTimeout_cases t.id { w with tree := w.tree.erase t } with
          ⟨-, heq⟩ | ⟨u, -, heq⟩
        · rw [heq]; exact ⟨rfl, .inl rfl, Nat.le_refl _⟩
        · rw [heq]; exact ⟨rfl, .inr ⟨_, rfl⟩, Nat.le_refl _⟩
      · exact hself
    | swap =>
      simp only [next]
      split
      · exact ⟨rfl, .inl rfl, Nat.le_refl _⟩
      · exact hself
    | handle =>
      simp only [next]
      split
      · exact hself
      · rename_i res rest _
        rcases handleResult_cases res { w with batch := rest } with ⟨-, heq⟩ | ⟨t, -, heq⟩
        · rw [heq]; exact ⟨rfl, .inl rfl, Nat.le_refl _⟩
        · rw [heq]; exact ⟨rfl, .inr ⟨_, rfl⟩, Nat.le_refl _⟩

namespace Status

theorem settle_silent {s : Status} {w : Framework} (h : w.calls = s.framework.calls) :
    settle w s = { s with framework := w } := by
  simp [settle, h]

theorem settle_call {s : Status} {w : Framework} {c : Nat × InvokeResult}
    (h : w.calls = c :: s.framework.calls) :
    settle w s = deliver c { s with framework := w } := by
  simp [settle, h]

/-! ## The context of the request -/

/-- What the context says of the invocations made for the request. -/
structure Book (s : Status) : Prop where
  nums : (s.handlers.map Prod.fst).Nodup
  names : (s.handlers.map Prod.snd).Nodup
  waiting : s.waitingNum = s.handlers.length
  entered : ∀ name r, (name, r) ∈ s.modulesStatus ↔ s.Reported name r
  keys : (s.modulesStatus.map Prod.fst).Nodup

/-- Every module asked so far has reported. -/
def Full (s : Status) : Prop := s.modulesStatus.length = s.handlers.length

/-- The replies are what they should be for what has been reported. -/
def Replied (s : Status) : Prop :=
  (s.Full → s.replies = [answer s.statusFile s.modulesStatus]) ∧ (¬ s.Full → s.replies = [])

/-- `StatusReply` for a module that has not reported before. -/
def report (name : String) (r : InvokeResult) (s : Status) : Status :=
  { s with modulesStatus := (name, r) :: s.modulesStatus,
           replies := s.replies ++
             if s.waitingNum = s.modulesStatus.length + 1 then
               [answer s.statusFile ((name, r) :: s.modulesStatus)]
             else [] }

theorem statusReply_report {s : Status} {name : String} (r : InvokeResult)
    (h : name ∉ s.modulesStatus.map Prod.fst) : statusReply name r s = report name r s := by
  have hset : setStatus name r s.modulesStatus = (name, r) :: s.modulesStatus := by
    have hkeep : ∀ m ∈ s.modulesStatus, (m.1 != name) = true := by
      intro m hm
      simp only [bne_iff_ne, ne_eq]
      intro heq
      exact h (List.mem_map.mpr ⟨m, hm, heq⟩)
    rw [setStatus, List.filter_eq_self.mpr hkeep]
  by_cases hw : s.waitingNum = s.modulesStatus.length + 1
  · simp [statusReply, hset, report, hw]
  · simp [statusReply, hset, report, hw]

theorem lookup_handler {hs : List (Nat × String)} (hn : (hs.map Prod.fst).Nodup) {n : Nat}
    {name : String} : hs.lookup n = some name ↔ (n, name) ∈ hs := by
  induction hs with
  | nil => simp
  | cons p hs ih =>
    obtain ⟨m, x⟩ := p
    obtain ⟨hm, hn⟩ := List.nodup_cons.mp hn
    by_cases heq : n = m
    · subst heq
      have hnot : (n, name) ∉ hs := fun hmem => hm (List.mem_map.mpr ⟨_, hmem, rfl⟩)
      simp [hnot, eq_comm]
    · have hbeq : (n == m) = false := by simpa using heq
      simp [List.lookup_cons, hbeq, ih hn, heq]

namespace Book

variable {s : Status}

theorem keys_sub (h : Book s) : s.modulesStatus.map Prod.fst ⊆ s.handlers.map Prod.snd := by
  intro name hname
  obtain ⟨⟨x, r⟩, hmem, rfl⟩ := List.mem_map.mp hname
  obtain ⟨n, hn, -⟩ := (h.entered x r).mp hmem
  exact List.mem_map.mpr ⟨_, hn, rfl⟩

theorem size_le (h : Book s) : s.modulesStatus.length ≤ s.handlers.length := by
  simpa using (List.subperm_of_subset h.keys h.keys_sub).length_le

theorem mem_keys (h : Book s) {name : String} :
    name ∈ s.modulesStatus.map Prod.fst ↔ ∃ r, s.Reported name r := by
  constructor
  · intro hname
    obtain ⟨⟨x, r⟩, hmem, rfl⟩ := List.mem_map.mp hname
    exact ⟨r, (h.entered x r).mp hmem⟩
  · rintro ⟨r, hr⟩
    exact List.mem_map.mpr ⟨_, (h.entered name r).mpr hr, rfl⟩

/-- The counter of the code against what it stands for. -/
theorem full_iff (h : Book s) :
    s.Full ↔ ∀ name ∈ s.handlers.map Prod.snd, ∃ r, s.Reported name r := by
  have hsub := List.subperm_of_subset h.keys h.keys_sub
  constructor
  · intro hfull name hname
    have hperm := hsub.perm_of_length_le (by simpa using Nat.le_of_eq hfull.symm)
    exact h.mem_keys.mp (hperm.mem_iff.mpr hname)
  · intro hall
    have hback : s.handlers.map Prod.snd ⊆ s.modulesStatus.map Prod.fst :=
      fun name hname => h.mem_keys.mpr (hall name hname)
    have hle := (List.subperm_of_subset h.names hback).length_le
    simp only [List.length_map] at hle
    exact Nat.le_antisymm h.size_le hle

/-- The framework has moved without calling a handler. -/
theorem silent (h : Book s) {w : Framework} (hw : w.calls = s.framework.calls) :
    Book { s with framework := w } :=
  ⟨h.nums, h.names, h.waiting, by simpa [Reported, hw] using h.entered, h.keys⟩

/-- The framework has called a handler that is not of this request. -/
theorem other (h : Book s) {w : Framework} {c : Nat × InvokeResult}
    (hw : w.calls = c :: s.framework.calls) (hc : ∀ name, (c.1, name) ∉ s.handlers) :
    Book { s with framework := w } := by
  refine ⟨h.nums, h.names, h.waiting, fun name r => (h.entered name r).trans ?_, h.keys⟩
  simp only [Reported, hw, List.mem_cons]
  refine exists_congr fun n => and_congr_right fun hn => ⟨.inr, fun hr => ?_⟩
  rcases hr with rfl | hr
  · exact absurd hn (hc name)
  · exact hr

/-- The framework has called a handler of this request. -/
theorem reported (h : Book s) {w : Framework} {c : Nat × InvokeResult} {name : String}
    (hw : w.calls = c :: s.framework.calls) (hc : (c.1, name) ∈ s.handlers)
    (hnew : ∀ r, (c.1, r) ∉ s.framework.calls) :
    name ∉ s.modulesStatus.map Prod.fst ∧
      Book (report name c.2 { s with framework := w }) := by
  -- a handler has one module, and a module one handler
  have hone : ∀ n x, (n, x) ∈ s.handlers → (n = c.1 ↔ x = name) := by
    intro n x hx
    constructor
    · rintro rfl
      have hfst := List.inj_on_of_nodup_map h.nums hx hc rfl
      exact congrArg Prod.snd hfst
    · rintro rfl
      have hsnd := List.inj_on_of_nodup_map h.names hx hc rfl
      exact congrArg Prod.fst hsnd
  have hfresh : name ∉ s.modulesStatus.map Prod.fst := by
    intro hname
    obtain ⟨r, n, hn, hr⟩ := h.mem_keys.mp hname
    obtain rfl := (hone n name hn).mpr rfl
    exact hnew r hr
  refine ⟨hfresh, h.nums, h.names, h.waiting, fun x r => ?_,
    List.nodup_cons.mpr ⟨hfresh, h.keys⟩⟩
  simp only [report, List.mem_cons, h.entered x r, Reported, hw, Prod.mk.injEq]
  constructor
  · rintro (⟨rfl, rfl⟩ | ⟨n, hn, hr⟩)
    · exact ⟨c.1, hc, .inl rfl⟩
    · exact ⟨n, hn, .inr hr⟩
  · rintro ⟨n, hn, heq | hr⟩
    · obtain ⟨rfl, rfl⟩ : n = c.1 ∧ r = c.2 := by simpa [Prod.ext_iff] using heq
      exact .inl ⟨(hone _ x hn).mp rfl, rfl⟩
    · exact .inr ⟨n, hn, hr⟩

end Book

/-- What the complete handlers of a step do to the request: nothing, or `StatusReply` for a
module that had not reported. -/
theorem settle_cases {s : Status} {w : Framework} (h : Book s) (hg : Goes s.framework w)
    (hw : Counted w) :
    Book (settle w s) ∧
      (settle w s = { s with framework := w } ∨
        ∃ name r, settle w s = report name r { s with framework := w } ∧
          s.modulesStatus.length < s.handlers.length) := by
  rcases hg.calls with hcalls | ⟨c, hcalls⟩
  · rw [settle_silent hcalls]
    exact ⟨h.silent hcalls, .inl rfl⟩
  · have hnew : ∀ r, (c.1, r) ∉ s.framework.calls := by
      intro r hr
      have hone : called c.1 w ≤ 1 := by
        have honce := hw.once c.1
        have hfresh := hw.fresh c.1
        omega
      have hpos : 0 < s.framework.calls.countP fun d => d.1 == c.1 :=
        List.countP_pos_iff.mpr ⟨_, hr, by simp⟩
      simp only [called, hcalls, List.countP_cons, beq_self_eq_true, if_true] at hone
      omega
    rw [settle_call hcalls]
    cases hl : s.handlers.lookup c.1 with
    | none =>
      have hc : ∀ name, (c.1, name) ∉ s.handlers := by
        intro name hname
        rw [(lookup_handler h.nums).mpr hname] at hl
        cases hl
      have heq : deliver c { s with framework := w } = { s with framework := w } := by
        simp [deliver, hl]
      rw [heq]
      exact ⟨h.other hcalls hc, .inl rfl⟩
    | some name =>
      obtain ⟨hfresh, hbook⟩ := h.reported hcalls ((lookup_handler h.nums).mp hl) hnew
      have heq : deliver c { s with framework := w } = report name c.2 { s with framework := w } := by
        rw [← statusReply_report (s := { s with framework := w }) c.2 hfresh]
        simp [deliver, hl]
      rw [heq]
      have hle := hbook.size_le
      exact ⟨hbook, .inr ⟨name, c.2, rfl, by simpa [report, Nat.succ_le_iff] using hle⟩⟩

/-- A step that does not ask a further module keeps the replies right. -/
theorem Replied.settle {s : Status} {w : Framework} (h : Replied s) (hb : Book s)
    (hg : Goes s.framework w) (hw : Counted w) : Replied (settle w s) := by
  obtain ⟨-, heq | ⟨name, r, heq, hlt⟩⟩ := settle_cases hb hg hw
  · rw [heq]
    exact h
  · rw [heq]
    have hnone : s.replies = [] := h.2 (Nat.ne_of_lt hlt)
    have hwait := hb.waiting
    simp only [Replied, Full, report, List.length_cons, hnone, List.nil_append, hwait]
    exact ⟨fun hfull => if_pos hfull.symm, fun hnot => if_neg fun heq => hnot heq.symm⟩

/-! ## The loop of `HttpStatusHandler` -/

/-- The state between two rounds of the loop. -/
structure Open (s : Status) : Prop where
  counted : Counted s.framework
  book : Book s
  below : ∀ p ∈ s.handlers, p.1 < s.framework.count

theorem counted_invoke {w : Framework} (h : Counted w) (name : String) :
    Counted (invoke name w) := by
  rcases invoke_cases name w with ⟨r, tree, heq, -⟩ | ⟨hf, -, heq⟩
  · rw [heq]; exact h.refused r tree _
  · rw [heq]; exact h.entered rfl hf _ _

theorem invoke_count (name : String) (w : Framework) :
    (invoke name w).count = w.count + 1 := by
  rcases invoke_cases name w with ⟨r, tree, heq, -⟩ | ⟨-, -, heq⟩
  · rw [heq]; rfl
  · rw [heq]

/-- The context once a further module counts as asked. -/
def asking (name : String) (s : Status) : Status :=
  { s with waitingNum := s.waitingNum + 1,
           handlers := (s.framework.count, name) :: s.handlers }

theorem Open.asking {s : Status} (h : Open s) {name : String}
    (hname : name ∉ s.handlers.map Prod.snd) : Book (asking name s) := by
  have hnum : s.framework.count ∉ s.handlers.map Prod.fst := by
    intro hmem
    obtain ⟨p, hp, heq⟩ := List.mem_map.mp hmem
    have hlt := h.below p hp
    omega
  refine ⟨List.nodup_cons.mpr ⟨hnum, h.book.nums⟩, List.nodup_cons.mpr ⟨hname, h.book.names⟩,
    congrArg (· + 1) h.book.waiting, fun x r => (h.book.entered x r).trans ?_, h.book.keys⟩
  constructor
  · rintro ⟨n, hn, hr⟩
    exact ⟨n, List.mem_cons_of_mem _ hn, hr⟩
  · rintro ⟨n, hn, hr⟩
    rcases List.mem_cons.mp hn with heq | hn
    · -- the handler of the new invocation has not been called yet
      obtain ⟨rfl, rfl⟩ := Prod.mk.inj heq
      have hzero := h.counted.fresh s.framework.count (Nat.le_refl _)
      have hpos : 0 < called s.framework.count s.framework :=
        List.countP_pos_iff.mpr ⟨_, hr, by simp⟩
      omega
    · exact ⟨n, hn, hr⟩

/-- One round: the handlers get the module's one, and `StatusReply` may run. -/
theorem launch_cases {s : Status} (h : Open s) {name : String}
    (hname : name ∉ s.handlers.map Prod.snd) :
    Open (launch s name) ∧ (launch s name).handlers.map Prod.snd = name :: s.handlers.map Prod.snd ∧
      ((launch s name).asked = s.asked ∧
        (launch s name).framework.modules = s.framework.modules) ∧
      (launch s name = { asking name s with framework := invoke name s.framework } ∨
        ∃ x r, launch s name =
          report x r { asking name s with framework := invoke name s.framework }) := by
  have hbook := h.asking hname
  have hg : Goes (asking name s).framework (invoke name s.framework) := goes_invoke name _
  have hcount := counted_invoke h.counted name
  have hbelow : ∀ p ∈ (asking name s).handlers, p.1 < (invoke name s.framework).count := by
    intro p hp
    rw [invoke_count]
    rcases List.mem_cons.mp hp with rfl | hp
    · exact Nat.lt_succ_self _
    · exact Nat.lt_succ_of_lt (h.below p hp)
  have hl : launch s name = settle (invoke name s.framework) (asking name s) := rfl
  obtain ⟨hb, hcases⟩ := settle_cases hbook hg hcount
  rw [hl]
  rcases hcases with heq | ⟨x, r, heq, -⟩
  · rw [heq] at hb ⊢
    exact ⟨⟨hcount, hb, hbelow⟩, rfl, ⟨rfl, hg.modules⟩, .inl rfl⟩
  · rw [heq] at hb ⊢
    exact ⟨⟨hcount, hb, hbelow⟩, rfl, ⟨rfl, hg.modules⟩, .inr ⟨x, r, rfl⟩⟩

/-- Nothing has been sent and some module asked has not reported. -/
def Quiet (s : Status) : Prop := s.replies = [] ∧ ¬ s.Full

theorem Quiet.launch {s : Status} (hq : Quiet s) (h : Open s) {name : String}
    (hname : name ∉ s.handlers.map Prod.snd) : Quiet (launch s name) := by
  obtain ⟨-, -, -, heq | ⟨x, r, heq⟩⟩ := launch_cases h hname
  · rw [heq]
    refine ⟨hq.1, fun hfull => ?_⟩
    have hle := h.book.size_le
    simp only [Full, asking, List.length_cons] at hfull
    omega
  · rw [heq]
    have hle := h.book.size_le
    have hne := hq.2
    have hwait := h.book.waiting
    simp only [Full] at hne
    constructor
    · simp only [report, asking, hq.1, List.nil_append]
      exact if_neg (by omega)
    · simp only [Full, report, asking, List.length_cons]
      omega

/-- Something has been sent, and twice if every module asked has reported. -/
def Loud (s : Status) : Prop := s.replies ≠ [] ∧ (s.Full → 2 ≤ s.replies.length)

theorem loud_launch {s : Status} (hr : s.replies ≠ []) (h : Open s) {name : String}
    (hname : name ∉ s.handlers.map Prod.snd) : Loud (launch s name) := by
  obtain ⟨-, -, -, heq | ⟨x, r, heq⟩⟩ := launch_cases h hname
  · rw [heq]
    refine ⟨hr, fun hfull => ?_⟩
    have hle := h.book.size_le
    simp only [Full, asking, List.length_cons] at hfull
    omega
  · rw [heq]
    have hwait := h.book.waiting
    have hpos := List.length_pos_iff.mpr hr
    refine ⟨by simp [report, asking, hr], fun hfull => ?_⟩
    simp only [Full, report, asking, List.length_cons] at hfull
    simp only [report, asking, hwait]
    rw [if_pos (by omega)]
    simp only [List.length_append, List.length_singleton]
    omega

/-- The rounds of the loop, from a state between two rounds. -/
theorem launches {s : Status} (h : Open s) {names : List String} (hn : names.Nodup)
    (hd : ∀ name ∈ names, name ∉ s.handlers.map Prod.snd) :
    Open (names.foldl launch s) ∧
      (names.foldl launch s).handlers.map Prod.snd =
        names.reverse ++ s.handlers.map Prod.snd ∧
      ((names.foldl launch s).asked = s.asked ∧
        (names.foldl launch s).framework.modules = s.framework.modules) ∧
      (Quiet s → Quiet (names.foldl launch s)) ∧
      (s.replies ≠ [] → names ≠ [] → Loud (names.foldl launch s)) := by
  induction names generalizing s with
  | nil => exact ⟨h, rfl, ⟨rfl, rfl⟩, id, fun _ hne => absurd rfl hne⟩
  | cons name names ih =>
    obtain ⟨hnot, hn⟩ := List.nodup_cons.mp hn
    have hname := hd name List.mem_cons_self
    obtain ⟨ho, hh, hkept, -⟩ := launch_cases h hname
    have hd' : ∀ x ∈ names, x ∉ (launch s name).handlers.map Prod.snd := by
      intro x hx hmem
      rw [hh] at hmem
      rcases List.mem_cons.mp hmem with rfl | hmem
      · exact hnot hx
      · exact hd x (List.mem_cons_of_mem _ hx) hmem
    obtain ⟨hopen, hhand, hkeep, hquiet, hloud⟩ := ih ho hn hd'
    refine ⟨hopen, ?_, ⟨hkeep.1.trans hkept.1, hkeep.2.trans hkept.2⟩, fun hq => hquiet (hq.launch h hname), fun hr _ => ?_⟩
    · rw [List.foldl_cons, hhand, hh, List.reverse_cons, List.append_assoc]
      rfl
    · have hl := loud_launch hr h hname
      cases names with
      | nil => exact hl
      | cons x xs => exact hloud hl.1 (by simp)

/-! ## Runs -/

/-- Nothing has been done about the request. -/
structure Blank (modules : List String) (s : Status) : Prop where
  counted : Counted s.framework
  modules : s.framework.modules = modules
  handlers : s.handlers = []
  waiting : s.waitingNum = 0
  entered : s.modulesStatus = []
  replies : s.replies = []
  file : s.statusFile ≠ none

/-- The request has arrived, and every module has been asked. -/
structure Asked (modules : List String) (s : Status) : Prop where
  opened : Open s
  modules : s.framework.modules = modules
  asked : s.asked = true
  names : ∀ name, name ∈ s.handlers.map Prod.snd ↔ name ∈ s.framework.modules

section Runs

variable {modules : List String} {s : Status}

theorem blank_start (modules : List String) (text : String) :
    Blank modules (start modules text) :=
  ⟨counted_start modules, rfl, rfl, rfl, rfl, rfl, Option.some_ne_none text⟩

theorem Blank.opened (h : Blank modules s) : Open s := by
  refine ⟨h.counted, ⟨?_, ?_, ?_, ?_, ?_⟩, ?_⟩
  all_goals simp [h.handlers, h.entered, h.waiting, Reported]

theorem Blank.step (h : Blank modules s) (a : Framework.Act) :
    Blank modules (step s (.framework a)) ∧ (step s (.framework a)).asked = s.asked := by
  have hg := goes_step s.framework a
  obtain ⟨-, heq | ⟨name, r, -, hlt⟩⟩ := settle_cases h.opened.book hg (h.counted.step a)
  · rw [Status.step, heq]
    exact ⟨⟨h.counted.step a, hg.modules.trans h.modules, h.handlers, h.waiting, h.entered,
      h.replies, h.file⟩, rfl⟩
  · rw [h.handlers] at hlt
    cases hlt

theorem Asked.step (h : Asked modules s) (hr : Replied s) (a : Act) :
    Asked modules (step s a) ∧ Replied (step s a) := by
  cases a with
  | status => simpa only [Status.step, h.asked, if_true] using ⟨h, hr⟩
  | framework a =>
    have hg := goes_step s.framework a
    have hc := h.opened.counted.step a
    have hbelow : ∀ p ∈ s.handlers, p.1 < (Framework.step s.framework a).count :=
      fun p hp => Nat.lt_of_lt_of_le (h.opened.below p hp) hg.count
    have hnames : ∀ name, name ∈ s.handlers.map Prod.snd ↔
        name ∈ (Framework.step s.framework a).modules := by
      rw [hg.modules]
      exact h.names
    refine ⟨?_, hr.settle h.opened.book hg hc⟩
    rw [Status.step]
    obtain ⟨hb, heq | ⟨name, r, heq, -⟩⟩ := settle_cases h.opened.book hg hc
    · rw [heq] at hb ⊢
      exact ⟨⟨hc, hb, hbelow⟩, hg.modules.trans h.modules, h.asked, hnames⟩
    · rw [heq] at hb ⊢
      exact ⟨⟨hc, hb, hbelow⟩, hg.modules.trans h.modules, h.asked, hnames⟩

theorem answer_ok (file : Option String) (ms : List (String × InvokeResult)) :
    (answer file ms).code = HTTP_OK ↔ ∀ m ∈ ms, m.2.ec = OK := by
  unfold answer
  split
  · rename_i hall
    simpa [HTTP_OK] using hall
  · rename_i hall
    simpa [HTTP_OK, HTTP_SERVUNAVAIL] using hall

theorem Asked.full_iff (h : Asked modules s) :
    s.Full ↔ ∀ name ∈ s.framework.modules, ∃ r, s.Reported name r := by
  simp only [h.opened.book.full_iff, h.names]

/-- A module without a report has its handler in `timers_`. -/
theorem Asked.waits (h : Asked modules s) {name : String} (hname : name ∈ s.framework.modules)
    (hnot : ∀ r, ¬ s.Reported name r) :
    ∃ n t, (n, name) ∈ s.handlers ∧ t ∈ s.framework.timers ∧ t.num = n := by
  obtain ⟨⟨n, x⟩, hmem, rfl⟩ := List.mem_map.mp ((h.names name).mpr hname)
  have hzero : called n s.framework = 0 := by
    refine List.countP_eq_zero.mpr fun c hc heq => hnot c.2 ⟨n, hmem, ?_⟩
    have hn : c.1 = n := by simpa using heq
    rw [← hn]
    exact hc
  have honce := h.opened.counted.once n (h.opened.below _ hmem)
  have hpos : 0 < entries n s.framework := by omega
  obtain ⟨t, ht, hnum⟩ := List.countP_pos_iff.mp hpos
  exact ⟨n, t, hmem, ht, by simpa using hnum⟩

/-- The replies that the code's counter gives are those the reports call for. -/
theorem Asked.aggregated (h : Asked modules s) (hr : Replied s) : Aggregated s where
  early _ hsome := by
    obtain ⟨name, hname, hnot⟩ := hsome
    refine hr.2 fun hfull => ?_
    obtain ⟨r, hrep⟩ := h.full_iff.mp hfull name hname
    exact hnot r hrep
  one _ hall := by
    refine ⟨_, hr.1 (h.full_iff.mpr hall), ?_⟩
    rw [answer_ok]
    constructor
    · intro hok name hname r hrep
      exact hok _ ((h.opened.book.entered name r).mpr hrep)
    · intro hok m hm
      have hrep := (h.opened.book.entered m.1 m.2).mp hm
      have hname : m.1 ∈ s.handlers.map Prod.snd := by
        obtain ⟨n, hn, -⟩ := hrep
        exact List.mem_map.mpr ⟨_, hn, rfl⟩
      exact hok m.1 ((h.names m.1).mp hname) m.2 hrep
  waits _ name hname hnot := h.waits hname hnot

theorem Loud.not_aggregated (hl : Loud s) (h : Asked modules s) : ¬ Aggregated s := by
  intro ha
  by_cases hfull : s.Full
  · obtain ⟨reply, hreply, -⟩ := ha.one h.asked (h.full_iff.mp hfull)
    have htwo := hl.2 hfull
    rw [hreply] at htwo
    simp at htwo
  · refine hl.1 (ha.early h.asked ?_)
    rw [h.full_iff] at hfull
    simpa only [not_forall, not_exists, exists_prop] using hfull

/-- There is a module, and it is the only one, or the next id is free, so that the first
invocation does not end before the second one is made. -/
def Launchable (s : Status) : Prop :=
  s.framework.modules ≠ [] ∧
    (s.framework.modules.length = 1 ∨ findTimer s.framework.invokeId s.framework = none)

/-- The first round, by what becomes of its invocation. -/
theorem first_launch (h : Blank modules s) {name : String} (hname : name ∈ s.framework.modules) :
    Replied (launch s name) ∧ ((launch s name).Full ↔ findTimer s.framework.invokeId s.framework ≠ none) := by
  have hnot : name ∉ s.handlers.map Prod.snd := by simp [h.handlers]
  have hasked : Replied (asking name s) := by
    have hempty : ¬ (asking name s).Full := by simp [Full, asking, h.entered, h.handlers]
    exact ⟨fun hfull => absurd hfull hempty, fun _ => h.replies⟩
  have hbook := h.opened.asking hnot
  refine ⟨hasked.settle hbook (goes_invoke name _) (counted_invoke h.counted name), ?_⟩
  rcases invoke_cases name s.framework with ⟨r, tree, heq, hwhy⟩ | ⟨hfree, -, heq⟩
  · have hfound : findTimer s.framework.invokeId s.framework ≠ none := by
      rcases hwhy with ⟨habs, -⟩ | ⟨t, ht⟩
      · exact absurd hname habs
      · simp [ht]
    have hl : launch s name =
        deliver (s.framework.count, r) { asking name s with framework := invoke name s.framework } :=
      settle_call (s := asking name s) (by rw [heq]; rfl)
    refine ⟨fun _ => hfound, fun _ => ?_⟩
    rw [hl]
    simp [Full, deliver, asking, statusReply, setStatus, h.entered, h.handlers, h.waiting]
  · have hl : launch s name = { asking name s with framework := invoke name s.framework } :=
      settle_silent (s := asking name s) (by rw [heq]; rfl)
    rw [hl]
    simp [Full, asking, h.entered, h.handlers, hfree]

theorem handler_done (h : Blank modules s) (hn : modules.Nodup) :
    Open (httpStatusHandler s) ∧
      (httpStatusHandler s).handlers.map Prod.snd = modules.reverse ∧
      ((httpStatusHandler s).asked = s.asked ∧
        (httpStatusHandler s).framework.modules = modules) := by
  have hloop : httpStatusHandler s = modules.foldl launch s := by
    simp [httpStatusHandler, h.file, h.modules]
  obtain ⟨ho, hh, ⟨hasked, hmod⟩, -⟩ := launches h.opened hn (by simp [h.handlers])
  rw [hloop]
  refine ⟨ho, ?_, hasked, hmod.trans h.modules⟩
  simpa [h.handlers] using hh

/-- What the loop has sent when it is through. -/
theorem handler_replies (h : Blank modules s) (hn : modules.Nodup) :
    (Launchable s → Replied (httpStatusHandler s)) ∧
      (¬ Launchable s → (httpStatusHandler s).replies = [] ∧ modules = [] ∨
        Loud (httpStatusHandler s)) := by
  have hloop : httpStatusHandler s = modules.foldl launch s := by
    simp [httpStatusHandler, h.file, h.modules]
  rw [hloop]
  unfold Launchable
  rw [h.modules]
  cases modules with
  | nil => exact ⟨fun hl => absurd rfl hl.1, fun _ => .inl ⟨h.replies, rfl⟩⟩
  | cons name names =>
    have hname : name ∈ s.framework.modules := by simp [h.modules]
    have hfresh : name ∉ s.handlers.map Prod.snd := by simp [h.handlers]
    obtain ⟨hfirst, hfull⟩ := first_launch h hname
    obtain ⟨ho, hh, -⟩ := launch_cases h.opened hfresh
    obtain ⟨hnot, hn⟩ := List.nodup_cons.mp hn
    have hd : ∀ x ∈ names, x ∉ (launch s name).handlers.map Prod.snd := by
      intro x hx hmem
      rw [hh] at hmem
      rcases List.mem_cons.mp hmem with rfl | hmem
      · exact hnot hx
      · simp [h.handlers] at hmem
    obtain ⟨-, -, -, hquiet, hloud⟩ := launches ho hn hd
    rw [List.foldl_cons]
    by_cases hfree : findTimer s.framework.invokeId s.framework = none
    · -- the first module has not reported, and the counter stays ahead of the reports
      have hopen : ¬ (launch s name).Full := fun hf => hfull.mp hf hfree
      have hq := hquiet ⟨hfirst.2 hopen, hopen⟩
      exact ⟨fun _ => ⟨fun hf => absurd hf hq.2, fun _ => hq.1⟩,
        fun hl => absurd ⟨by simp, .inr hfree⟩ hl⟩
    · -- the first module has reported, and that has been taken for all of them
      have hr : (launch s name).replies ≠ [] := by
        rw [hfirst.1 (hfull.mpr hfree)]
        simp
      cases names with
      | nil => exact ⟨fun _ => hfirst, fun hl => absurd ⟨by simp, .inl rfl⟩ hl⟩
      | cons x xs =>
        refine ⟨fun hl => ?_, fun _ => .inr (hloud hr (by simp))⟩
        rcases hl.2 with hone | hnone
        · simp at hone
        · exact absurd hnone hfree

end Runs

section Aggregation

variable {modules : List String} {s : Status}

theorem asked_status (h : Blank modules s) (hn : modules.Nodup) (ha : s.asked = false) :
    Asked modules (step s .status) := by
  have hb : Blank modules { s with asked := true } :=
    ⟨h.counted, h.modules, h.handlers, h.waiting, h.entered, h.replies, h.file⟩
  obtain ⟨ho, hh, hasked, hmod⟩ := handler_done hb hn
  have hs : step s .status = httpStatusHandler { s with asked := true } := by simp [step, ha]
  rw [hs]
  refine ⟨ho, hmod, hasked, fun name => ?_⟩
  rw [hh, hmod, List.mem_reverse]

/-- Once the request is there, everything that may follow gives the one right reply if and only
if the request came to a framework that could launch it. -/
theorem aggregated_from (h : Blank modules s) (hn : modules.Nodup) (ha : s.asked = false) :
    (∀ as, Aggregated (exec step s (.status :: as))) ↔ Launchable s := by
  have hb : Blank modules { s with asked := true } :=
    ⟨h.counted, h.modules, h.handlers, h.waiting, h.entered, h.replies, h.file⟩
  have hasked := asked_status h hn ha
  have hs : step s .status = httpStatusHandler { s with asked := true } := by simp [step, ha]
  obtain ⟨hgood, hbad⟩ := handler_replies hb hn
  rw [← hs] at hgood hbad
  constructor
  · intro hall
    by_contra hl
    have hnow : Aggregated (step s .status) := hall []
    rcases hbad hl with ⟨hnone, hempty⟩ | hloud
    · obtain ⟨reply, hreply, -⟩ := hnow.one hasked.asked (by simp [hasked.modules, hempty])
      rw [hnone] at hreply
      cases hreply
    · exact hloud.not_aggregated hasked hnow
  · intro hl as
    have hrun : Asked modules (exec step (step s .status) as) ∧
        Replied (exec step (step s .status) as) := by
      induction as using List.reverseRecOn with
      | nil => exact ⟨hasked, hgood hl⟩
      | append_singleton as a ih =>
        rw [Run.exec_concat]
        exact ih.1.step ih.2 a
    exact hrun.1.aggregated hrun.2

end Aggregation

/-- For every run of the framework up to the request and every run after it: there is one reply,
after the last report and 200 if and only if all are OK, exactly when there is a module and the
first of several does not end its invocation at once. -/
theorem status_aggregated (modules : List String) (text : String) (hn : modules.Nodup)
    (as : List Framework.Act) :
    (∀ bs, Aggregated (exec step (start modules text) (as.map .framework ++ .status :: bs))) ↔
      Launchable (exec step (start modules text) (as.map .framework)) := by
  have hrun : Blank modules (exec step (start modules text) (as.map .framework)) ∧
      (exec step (start modules text) (as.map .framework)).asked = false := by
    induction as using List.reverseRecOn with
    | nil => exact ⟨blank_start modules text, rfl⟩
    | append_singleton as a ih =>
      rw [List.map_append, List.map_singleton, Run.exec_concat]
      obtain ⟨hb, ha⟩ := ih.1.step a
      exact ⟨hb, ha.trans ih.2⟩
  simp only [Run.exec_append]
  exact aggregated_from hrun.1 hn hrun.2

theorem status_aggregated_two_modules :
    ["echo", "static"].Nodup ∧ ∀ bs, Aggregated (exec step (start ["echo", "static"] "")
      ([Framework.Act.invoke "echo"].map .framework ++ .status :: bs)) := by
  have hn : ["echo", "static"].Nodup := by decide
  exact ⟨hn, (status_aggregated ["echo", "static"] "" hn [.invoke "echo"]).mpr
    ⟨by decide +kernel, .inr (by decide +kernel)⟩⟩

/-- With no module, nobody reports and nothing is sent. -/
theorem status_unanswered :
    ¬ ∀ (modules : List String) (text : String), modules.Nodup →
      ∀ (as : List Framework.Act) (bs : List Act),
        Aggregated (exec step (start modules text) (as.map .framework ++ .status :: bs)) := by
  intro h
  have hnone := h [] "" List.nodup_nil [] []
  obtain ⟨reply, hreply, -⟩ := hnone.one rfl (fun name hname => by cases hname)
  cases hreply

end Status

end Framework
end Shs
