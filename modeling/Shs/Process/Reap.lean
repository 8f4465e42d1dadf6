import Mathlib.Data.List.Basic
import Mathlib.Logic.Function.Basic

/-!
# Process.Reap

The process table of the master, one pass of `reap_children` over it, and what `channel_handler`
makes of the messages in a worker. A message is a `shs_channel_t`; the pass writes it to
`channel[0]` of a slot, and the process of that slot reads its messages in the order written.
-/

namespace Shs
namespace ProcessCycle

def SHS_CMD_OPEN_CHANNEL : Nat := 1
def SHS_CMD_CLOSE_CHANNEL : Nat := 2

/-- `shs_channel_t`. -/
structure Channel where
  command : Nat
  pid : Int
  slot : Nat
  fd : Int
  deriving DecidableEq, Repr

/-- What the pass reads and writes of a `process_t`. -/
structure Process where
  pid : Int
  channel : Int × Int
  respawn : Bool := false
  detached : Bool := false
  exiting : Bool := false
  exited : Bool := false
  deriving DecidableEq, Repr

/-- What the kernel answers to `spawn_process`, with the descriptors of the socket pair. -/
inductive Spawn where
  /-- `socketpair` fails -/
  | noSocket
  /-- setting an option of the sockets fails -/
  | noOption (channel : Int × Int)
  /-- `fork` fails -/
  | noFork (channel : Int × Int)
  | child (pid : Int) (channel : Int × Int)
  deriving DecidableEq, Repr

/-- The globals of the master. -/
structure Master where
  processes : Nat → Process
  lastProcess : Nat
  processSlot : Nat := 0
  newBinary : Int := 0
  noaccepting : Bool := false
  restart : Bool := false
  terminate : Bool := false
  quit : Bool := false

def Master.set (i : Nat) (p : Process) (m : Master) : Master :=
  { m with processes := Function.update m.processes i p }

/-- `spawn_process` for slot `s`, that is with `respawn >= 0`. -/
def spawnProcess (answer : Spawn) (s : Nat) (m : Master) : Bool × Master :=
  let p := m.processes s
  match answer with
  | .noSocket => (false, m)
  | .noOption c => (false, m.set s { p with channel := c })
  | .noFork c => (false, { m.set s { p with channel := c } with processSlot := s })
  | .child pid c =>
    (true, { m.set s { p with channel := c, pid := pid, exited := false } with processSlot := s })

/-- `ch` is written to `channel[0]` of every slot below `g_last_process` that `keep` holds of. -/
def writeChannels (keep : Nat → Process → Bool) (ch : Channel) (m : Master) :
    List (Nat × Channel) :=
  ((List.range m.lastProcess).filter fun n => keep n (m.processes n)).map fun n => (n, ch)

def passOpenChannel (ch : Channel) (m : Master) : List (Nat × Channel) :=
  writeChannels (fun n p => n != m.processSlot && p.pid != -1 && p.channel.1 != -1) ch m

/-- The master in `reap_children`, with the locals `ch` and `live` and what it has written so far:
each message with the slot to whose channel it went. -/
structure Reap where
  m : Master
  ch : Channel
  live : Bool := false
  sent : List (Nat × Channel) := []

/-- An exited slot that is not detached: its channel is closed and the others are told. -/
def closeSlot (i : Nat) (s : Reap) : Reap :=
  let p := s.m.processes i
  let m := s.m.set i { p with channel := (-1, -1) }
  let ch := { s.ch with pid := p.pid, slot := i }
  { s with m := m, ch := ch,
           sent := s.sent ++
             writeChannels (fun _ p => !p.exited && p.pid != -1 && p.channel.1 != -1) ch m }

/-- An exited slot that is not respawned. -/
def dropSlot (i : Nat) (m : Master) : Master :=
  let p := m.processes i
  let m :=
    if p.pid = m.newBinary then
      { m with newBinary := 0, restart := m.restart || m.noaccepting, noaccepting := false }
    else m
  if i + 1 = m.lastProcess then { m with lastProcess := m.lastProcess - 1 }
  else m.set i { p with pid := -1 }

/-- The body of the outer loop of `reap_children`. -/
def reapSlot (spawns : Nat → Spawn) (i : Nat) (s : Reap) : Reap :=
  let p := s.m.processes i
  if p.pid = -1 then s
  else if p.exited then
    let s := if p.detached then s else closeSlot i s
    if p.respawn && !p.exiting && !s.m.terminate && !s.m.quit then
      match spawnProcess (spawns i) i s.m with
      | (false, m) => { s with m := m }
      | (true, m) =>
        let p := m.processes m.processSlot
        let ch : Channel := ⟨SHS_CMD_OPEN_CHANNEL, p.pid, m.processSlot, p.channel.1⟩
        ⟨m, ch, true, s.sent ++ passOpenChannel ch m⟩
    else { s with m := dropSlot i s.m }
  else if p.exiting || !p.detached then { s with live := true }
  else s

/-- `for (i = 0; i < g_last_process; i++)`, from `i`. `g_last_process` does not grow, so its first
value bounds the rounds. -/
def reapLoop (spawns : Nat → Spawn) : Nat → Nat → Reap → Reap
  | 0, _, s => s
  | k + 1, i, s =>
    if i < s.m.lastProcess then reapLoop spawns k (i + 1) (reapSlot spawns i s) else s

/-- `reap_children`, where the kernel answers `spawns i` to the respawn of slot `i`. -/
def reapChildren (spawns : Nat → Spawn) (m : Master) : Reap :=
  reapLoop spawns m.lastProcess 0 ⟨m, ⟨SHS_CMD_CLOSE_CHANNEL, 0, 0, -1⟩, false, []⟩

/-! ## The side of a worker -/

/-- `pid` and `channel[0]` of the slots in the table of a worker. -/
abbrev Table := Nat → Int × Int

/-- `channel_handler` for one message. With a descriptor passed, the kernel enters it in the
worker under a number of its own, `dup fd`. -/
def apply (dup : Int → Int) (ch : Channel) (t : Table) : Table :=
  if ch.command = SHS_CMD_OPEN_CHANNEL then Function.update t ch.slot (ch.pid, dup ch.fd)
  else if ch.command = SHS_CMD_CLOSE_CHANNEL then Function.update t ch.slot (-1, -1)
  else t

/-- `channel_handler` for the messages of `chs`. It reads no more once `shs_read_channel` fails,
as it does for an open message that passes no descriptor. -/
def channelHandler (dup : Int → Int) : List Channel → Table → Table
  | [], t => t
  | ch :: chs, t =>
    if ch.command = SHS_CMD_OPEN_CHANNEL ∧ ch.fd = -1 then t
    else channelHandler dup chs (apply dup ch t)

def messagesTo (n : Nat) (sent : List (Nat × Channel)) : List Channel :=
  (sent.filter fun e => e.1 = n).map (·.2)

/-! ## What a pass is to do -/

/-- The pid under which an open slot is known, `none` for a slot that is not open. -/
def view (e : Int × Int) : Option Int := if e.1 = -1 ∨ e.2 = -1 then none else some e.1

def Master.view (m : Master) (j : Nat) : Option Int :=
  if j < m.lastProcess then ProcessCycle.view ((m.processes j).pid, (m.processes j).channel.1) else none

/-- The tables have the same slots open, with the same pids. -/
def Agrees (m : Master) (t : Table) : Prop := ∀ j, view (t j) = m.view j

/-- A process that has a channel and has not exited. -/
def Survivor (m : Master) (n : Nat) : Prop :=
  n < m.lastProcess ∧ (m.processes n).exited = false ∧ (m.processes n).pid ≠ -1 ∧
    (m.processes n).channel.1 ≠ -1

/-- Slot `j` holds an exited child. -/
def reaped (m : Master) (j : Nat) : Bool := (m.processes j).pid != -1 && (m.processes j).exited

/-- `j` is a slot to respawn. -/
def wanted (m : Master) (j : Nat) : Bool :=
  (m.processes j).respawn && !(m.processes j).exiting && !m.terminate && !m.quit

/-- The pid and `channel[0]` of the process that slot `j` is respawned with. -/
def respawned (spawns : Nat → Spawn) (m : Master) (j : Nat) : Option (Int × Int) :=
  if reaped m j && wanted m j then
    match spawns j with
    | .child pid c => some (pid, c.1)
    | _ => none
  else none

/-- What slot `j` adds to the messages of each survivor: a close for an exited slot that is not
detached, an open for a respawned one. -/
def expected (spawns : Nat → Spawn) (m : Master) (j : Nat) : List Channel :=
  (if reaped m j && !(m.processes j).detached then
    [⟨SHS_CMD_CLOSE_CHANNEL, (m.processes j).pid, j, -1⟩] else []) ++
  match respawned spawns m j with
  | some (pid, fd) => [⟨SHS_CMD_OPEN_CHANNEL, pid, j, fd⟩]
  | none => []

/-- Survivor `n` gets those messages, and a table that agreed with the master's before the pass
agrees with it once `channel_handler` has read them. -/
structure Informed (spawns : Nat → Spawn) (dup : Int → Int) (m : Master) (n : Nat) : Prop where
  messages : messagesTo n (reapChildren spawns m).sent =
    (List.range m.lastProcess).flatMap (expected spawns m)
  agrees : ∀ t, Agrees m t → Agrees (reapChildren spawns m).m
    (channelHandler dup (messagesTo n (reapChildren spawns m).sent) t)

/-- No slot is respawned before a later one that is to be closed, and no respawn fails once its
socket pair is made. -/
structure Clean (spawns : Nat → Spawn) (m : Master) : Prop where
  order : ∀ i j, i < j → j < m.lastProcess → respawned spawns m i ≠ none → reaped m j = true →
    (m.processes j).detached = true
  spawned : ∀ i c, i < m.lastProcess → reaped m i = true → wanted m i = true →
    spawns i ≠ .noOption c ∧ spawns i ≠ .noFork c

/-- `spawn_process` makes detached slots without a channel, and not to be respawned. -/
def WellFormed (m : Master) : Prop :=
  ∀ i, (m.processes i).detached = true →
    (m.processes i).channel.1 = -1 ∧ (m.processes i).respawn = false

/-- Descriptors and pids that the kernel hands out are not negative. -/
structure Kernel (spawns : Nat → Spawn) (dup : Int → Int) : Prop where
  noOption : ∀ i c, spawns i = .noOption c → 0 ≤ c.1
  noFork : ∀ i c, spawns i = .noFork c → 0 ≤ c.1
  child : ∀ i pid c, spawns i = .child pid c → 0 < pid ∧ 0 ≤ c.1
  dup : ∀ fd, 0 ≤ dup fd

/-! ## One slot -/

section Slot

variable {spawns : Nat → Spawn} {m : Master} {i n : Nat} {s : Reap}

theorem filter_range_eq (p : Nat → Bool) (k n : Nat) :
    (List.range k).filter (fun a => decide (a = n) && p a) =
      if n < k ∧ p n = true then [n] else [] := by
  induction k with
  | zero => simp
  | succ k ih =>
    rw [List.range_succ, List.filter_append, ih]
    by_cases hk : k = n
    · subst hk
      cases hp : p k <;> simp [hp]
    · have hlt : n < k + 1 ↔ n < k := by omega
      simp [hk, hlt]

theorem messagesTo_append (a b : List (Nat × Channel)) :
    messagesTo n (a ++ b) = messagesTo n a ++ messagesTo n b := by
  simp [messagesTo]

theorem messagesTo_writeChannels {keep : Nat → Process → Bool} {ch : Channel} :
    messagesTo n (writeChannels keep ch m) =
      if n < m.lastProcess ∧ keep n (m.processes n) = true then [ch] else [] := by
  simp only [messagesTo, writeChannels, List.filter_map, List.map_map, List.filter_filter,
    Function.comp_def]
  rw [filter_range_eq (fun a => keep a (m.processes a))]
  split <;> rfl

/-- The command and the descriptor that the message structure holds when slot `i` is reached. -/
def chAt (spawns : Nat → Spawn) (m : Master) : Nat → Nat × Int
  | 0 => (SHS_CMD_CLOSE_CHANNEL, -1)
  | i + 1 =>
    match respawned spawns m i with
    | some (_, fd) => (SHS_CMD_OPEN_CHANNEL, fd)
    | none => chAt spawns m i

/-- What slot `j` does add to the messages of a survivor. -/
def written (spawns : Nat → Spawn) (m : Master) (j : Nat) : List Channel :=
  (if reaped m j && !(m.processes j).detached then
    [⟨(chAt spawns m j).1, (m.processes j).pid, j, (chAt spawns m j).2⟩] else []) ++
  match respawned spawns m j with
  | some (pid, fd) => [⟨SHS_CMD_OPEN_CHANNEL, pid, j, fd⟩]
  | none => []

/-- How the master sees slot `j` behind it. A respawn that fails leaves the old pid, beside the
descriptors of the socket pair if there was one. -/
def viewAfter (spawns : Nat → Spawn) (m : Master) (j : Nat) : Option Int :=
  if reaped m j then
    if wanted m j then
      match spawns j with
      | .noSocket =>
        if (m.processes j).detached then view ((m.processes j).pid, (m.processes j).channel.1)
        else none
      | .noOption c => view ((m.processes j).pid, c.1)
      | .noFork c => view ((m.processes j).pid, c.1)
      | .child pid c => view (pid, c.1)
    else none
  else m.view j

/-- Slots below `i` are behind the pass; `n` is a survivor. -/
structure Passed (spawns : Nat → Spawn) (m : Master) (n i : Nat) (s : Reap) : Prop where
  later : ∀ j, i ≤ j → s.m.processes j = m.processes j
  survivor : s.m.processes n = m.processes n
  last : i < m.lastProcess → s.m.lastProcess = m.lastProcess
  bound : s.m.lastProcess ≤ m.lastProcess
  terminate : s.m.terminate = m.terminate
  quit : s.m.quit = m.quit
  ch : (s.ch.command, s.ch.fd) = chAt spawns m i
  messages : messagesTo n s.sent = (List.range i).flatMap (written spawns m)
  view : ∀ j, j < i → s.m.view j = viewAfter spawns m j

/-- The state between the two halves of the body, at an exited slot: the survivors know, the
master's table has the channel closed. -/
structure Told (spawns : Nat → Spawn) (m : Master) (n i : Nat) (s s' : Reap) : Prop where
  others : ∀ j, j ≠ i → s'.m.processes j = s.m.processes j
  slot : s'.m.processes i =
    { m.processes i with
      channel := if (m.processes i).detached then (m.processes i).channel else (-1, -1) }
  last : s'.m.lastProcess = m.lastProcess
  terminate : s'.m.terminate = m.terminate
  quit : s'.m.quit = m.quit
  ch : (s'.ch.command, s'.ch.fd) = chAt spawns m i
  messages : messagesTo n s'.sent = messagesTo n s.sent ++
    if (m.processes i).detached then []
    else [⟨(chAt spawns m i).1, (m.processes i).pid, i, (chAt spawns m i).2⟩]

theorem Survivor.ne (hn : Survivor m n) (hr : reaped m i = true) : n ≠ i := by
  rintro rfl
  simp [reaped, hn.2.1] at hr

theorem Passed.told (h : Passed spawns m n i s) (hn : Survivor m n) (hi : i < m.lastProcess)
    (hr : reaped m i = true) :
    Told spawns m n i s (if (m.processes i).detached then s else closeSlot i s) := by
  have hslot := h.later i (Nat.le_refl i)
  have hlast := h.last hi
  by_cases hd : (m.processes i).detached = true
  · rw [if_pos hd]
    exact ⟨fun _ _ => rfl, by rw [hslot, if_pos hd], hlast, h.terminate, h.quit, h.ch, by simp [hd]⟩
  · rw [if_neg hd]
    have hni := hn.ne hr
    have hch := h.ch
    refine ⟨?_, ?_, hlast, h.terminate, h.quit, h.ch, ?_⟩
    · intro j hj
      simp [closeSlot, Master.set, hj]
    · simp [closeSlot, Master.set, hslot, hd]
    · rw [← hch]
      simp [closeSlot, messagesTo_append, messagesTo_writeChannels, Master.set, hslot, hd, hlast,
        hni, h.survivor, hn.1, hn.2.1, hn.2.2.1, hn.2.2.2]

theorem chAt_succ_none (h : respawned spawns m i = none) :
    chAt spawns m (i + 1) = chAt spawns m i := by
  rw [chAt, h]

theorem chAt_succ_some {pid fd : Int} (h : respawned spawns m i = some (pid, fd)) :
    chAt spawns m (i + 1) = (SHS_CMD_OPEN_CHANNEL, fd) := by
  rw [chAt, h]

theorem written_not_reaped (h : reaped m i = false) : written spawns m i = [] := by
  simp [written, respawned, h]

/-- A slot without an exited child changes nothing but `live`. -/
theorem Passed.skip (h : Passed spawns m n i s) (hi : i < m.lastProcess)
    (hr : reaped m i = false) (b : Bool) : Passed spawns m n (i + 1) { s with live := b } where
  later := fun j hj => h.later j (by omega)
  survivor := h.survivor
  last := fun _ => h.last hi
  bound := h.bound
  terminate := h.terminate
  quit := h.quit
  ch := by
    rw [chAt_succ_none (by simp [respawned, hr])]
    exact h.ch
  messages := by
    rw [List.range_succ, List.flatMap_append, ← h.messages]
    simp [written_not_reaped hr]
  view := by
    intro j hj
    by_cases hji : j = i
    · subst hji
      have hlast := h.last hi
      simp [viewAfter, hr, Master.view, hlast, h.later j (Nat.le_refl j)]
    · exact h.view j (by omega)

/-- The second half of the body has to write the open message of slot `i`, if it is respawned, and
to leave the slot as `viewAfter` says. -/
theorem Passed.finish {s' r : Reap} (h : Passed spawns m n i s) (ht : Told spawns m n i s s')
    (hn : Survivor m n) (hi : i < m.lastProcess) (hr : reaped m i = true)
    (hothers : ∀ j, j ≠ i → r.m.processes j = s'.m.processes j)
    (hlast : r.m.lastProcess = m.lastProcess ∨ i + 1 = m.lastProcess ∧ r.m.lastProcess = i)
    (hterminate : r.m.terminate = m.terminate) (hquit : r.m.quit = m.quit)
    (hch : (r.ch.command, r.ch.fd) = chAt spawns m (i + 1))
    (hmsgs : messagesTo n r.sent = messagesTo n s'.sent ++
      match respawned spawns m i with
      | some (pid, fd) => [⟨SHS_CMD_OPEN_CHANNEL, pid, i, fd⟩]
      | none => [])
    (hview : r.m.view i = viewAfter spawns m i) : Passed spawns m n (i + 1) r where
  later := by
    intro j hj
    rw [hothers j (by omega), ht.others j (by omega)]
    exact h.later j (by omega)
  survivor := by
    rw [hothers n (hn.ne hr), ht.others n (hn.ne hr)]
    exact h.survivor
  last := by
    intro hlt
    rcases hlast with hlast | ⟨hend, -⟩
    · exact hlast
    · omega
  bound := by omega
  terminate := hterminate
  quit := hquit
  ch := hch
  messages := by
    rw [List.range_succ, List.flatMap_append, ← h.messages, hmsgs, ht.messages]
    cases hd : (m.processes i).detached <;> simp [written, hr, hd]
  view := by
    intro j hj
    by_cases hji : j = i
    · rw [hji]; exact hview
    · have hold := h.view j (by omega)
      have hjl : j < r.m.lastProcess := by omega
      have hjs : j < s.m.lastProcess := by rw [h.last hi]; omega
      rw [Master.view, if_pos hjs] at hold
      rw [Master.view, if_pos hjl, hothers j hji, ht.others j hji]
      exact hold

/-- A slot that is dropped is open to nobody. -/
theorem view_dropSlot (i : Nat) (m : Master) : (dropSlot i m).view i = none := by
  unfold dropSlot
  dsimp only
  by_cases hlast : i + 1 = m.lastProcess
  · have hout : ¬ i < m.lastProcess - 1 := by omega
    rw [if_pos (by split <;> exact hlast)]
    split <;> exact if_neg hout
  · rw [if_neg (by split <;> exact hlast)]
    simp [Master.view, Master.set, ProcessCycle.view]

/-- An exited slot that is not to be respawned is dropped. -/
theorem Passed.drop {s' : Reap} (h : Passed spawns m n i s) (ht : Told spawns m n i s s')
    (hn : Survivor m n) (hi : i < m.lastProcess) (hr : reaped m i = true)
    (hw : wanted m i = false) : Passed spawns m n (i + 1) { s' with m := dropSlot i s'.m } := by
  have hnone : respawned spawns m i = none := by simp [respawned, hw]
  refine h.finish ht hn hi hr ?_ ?_ ?_ ?_ ?_ ?_ ?_
  · intro j hj
    simp only [dropSlot]
    split <;> split <;> simp [Master.set, hj]
  · have hl := ht.last
    simp only [dropSlot]
    split <;> split <;> simp_all [Master.set] <;> omega
  · have hq := ht.terminate
    simp only [dropSlot]
    split <;> split <;> simpa [Master.set] using hq
  · have hq := ht.quit
    simp only [dropSlot]
    split <;> split <;> simpa [Master.set] using hq
  · rw [chAt_succ_none hnone]
    exact ht.ch
  · simp [hnone]
  · rw [view_dropSlot]
    simp [viewAfter, hr, hw]

/-- An exited slot that is to be respawned. -/
theorem Passed.spawn {s' : Reap} (h : Passed spawns m n i s) (ht : Told spawns m n i s s')
    (hn : Survivor m n) (hi : i < m.lastProcess) (hr : reaped m i = true)
    (hw : wanted m i = true) :
    Passed spawns m n (i + 1)
      (match spawnProcess (spawns i) i s'.m with
      | (false, m) => { s' with m := m }
      | (true, m) =>
        let p := m.processes m.processSlot
        let ch : Channel := ⟨SHS_CMD_OPEN_CHANNEL, p.pid, m.processSlot, p.channel.1⟩
        ⟨m, ch, true, s'.sent ++ passOpenChannel ch m⟩) := by
  have hni := hn.ne hr
  have hlt : i < s'.m.lastProcess := by rw [ht.last]; exact hi
  cases hs : spawns i with
  | noSocket =>
    have hnone : respawned spawns m i = none := by simp [respawned, hs]
    refine h.finish ht hn hi hr (fun _ _ => rfl) (.inl ht.last) ht.terminate ht.quit ?_ ?_ ?_
    · rw [chAt_succ_none hnone]
      exact ht.ch
    · simp [hnone, spawnProcess]
    · simp only [spawnProcess, Master.view, viewAfter, hr, hw, hs, ht.slot]
      by_cases hd : (m.processes i).detached = true <;> simp [hd, hlt, ProcessCycle.view]
  | noOption c | noFork c =>
    have hnone : respawned spawns m i = none := by simp [respawned, hs]
    refine h.finish ht hn hi hr ?_ (.inl ht.last) ht.terminate ht.quit ?_ ?_ ?_
    · intro j hj
      simp [spawnProcess, Master.set, hj]
    · rw [chAt_succ_none hnone]
      exact ht.ch
    · simp [hnone, spawnProcess]
    · simp [spawnProcess, Master.view, Master.set, viewAfter, hr, hw, hs, ht.slot, hlt]
  | child pid c =>
    have hsome : respawned spawns m i = some (pid, c.1) := by simp [respawned, hr, hw, hs]
    refine h.finish ht hn hi hr ?_ (.inl ht.last) ht.terminate ht.quit ?_ ?_ ?_
    · intro j hj
      simp [spawnProcess, Master.set, hj]
    · rw [chAt_succ_some hsome]
      simp [spawnProcess, Master.set]
    · have hsurv : s'.m.processes n = m.processes n := by rw [ht.others n hni, h.survivor]
      simp [hsome, spawnProcess, messagesTo_append, passOpenChannel, messagesTo_writeChannels,
        Master.set, hni, hsurv, ht.last, hn.1, hn.2.2.1, hn.2.2.2]
    · simp [spawnProcess, Master.view, Master.set, viewAfter, hr, hw, hs, hlt]

theorem Passed.step (h : Passed spawns m n i s) (hn : Survivor m n) (hi : i < m.lastProcess) :
    Passed spawns m n (i + 1) (reapSlot spawns i s) := by
  have hslot := h.later i (Nat.le_refl i)
  cases hr : reaped m i with
  | true =>
    have ht := h.told hn hi hr
    simp only [reaped, Bool.and_eq_true, bne_iff_ne, ne_eq] at hr
    simp only [reapSlot, hslot, if_neg hr.1, if_pos hr.2]
    have hr' : reaped m i = true := by simp [reaped, hr.1, hr.2]
    cases hw : wanted m i with
    | true =>
      have hw' := hw
      simp only [wanted] at hw'
      rw [if_pos (by rw [ht.terminate, ht.quit]; exact hw')]
      exact h.spawn ht hn hi hr' hw
    | false =>
      have hw' := hw
      simp only [wanted] at hw'
      rw [if_neg (by rw [ht.terminate, ht.quit, hw']; simp)]
      exact h.drop ht hn hi hr' hw
  | false =>
    have hskip := h.skip hi hr
    simp only [reaped, Bool.and_eq_false_iff, bne_eq_false_iff_eq] at hr
    simp only [reapSlot, hslot]
    split
    · exact hskip s.live
    · rename_i hpid
      have hex : (m.processes i).exited = false := by tauto
      rw [if_neg (by simp [hex])]
      split
      · exact hskip true
      · exact hskip s.live

end Slot

/-! ## The pass -/

section Pass

variable {spawns : Nat → Spawn} {dup : Int → Int} {m : Master} {n : Nat}

theorem Passed.loop {k i : Nat} {s : Reap} (h : Passed spawns m n i s) (hn : Survivor m n)
    (hk : i + k = m.lastProcess) :
    Passed spawns m n m.lastProcess (reapLoop spawns k i s) := by
  induction k generalizing i s with
  | zero =>
    have hi : i = m.lastProcess := by omega
    rw [← hi]
    exact h
  | succ k ih =>
    have hi : i < m.lastProcess := by omega
    rw [reapLoop, if_pos (by rw [h.last hi]; exact hi)]
    exact ih (h.step hn hi) (by omega)

/-- The messages to a survivor, and the table of the master behind the pass. -/
theorem reapChildren_passed (spawns : Nat → Spawn) (hn : Survivor m n) :
    Passed spawns m n m.lastProcess (reapChildren spawns m) :=
  Passed.loop
    { later := fun _ _ => rfl, survivor := rfl, last := fun _ => rfl,
      bound := Nat.le_refl _, terminate := rfl, quit := rfl, ch := rfl, messages := rfl, view := fun j hj => absurd hj (Nat.not_lt_zero j) }
    hn (Nat.zero_add _)

theorem reapChildren_view (spawns : Nat → Spawn) (hn : Survivor m n) (j : Nat) :
    (reapChildren spawns m).m.view j = if j < m.lastProcess then viewAfter spawns m j else none := by
  split
  · rename_i hj
    exact (reapChildren_passed spawns hn).view j hj
  · rename_i hj
    have hle := (reapChildren_passed spawns hn).bound
    rw [Master.view, if_neg (by omega)]

/-! ### The messages -/

theorem chAt_close {j : Nat} (h : ∀ i, i < j → respawned spawns m i = none) :
    chAt spawns m j = (SHS_CMD_CLOSE_CHANNEL, -1) := by
  induction j with
  | zero => rfl
  | succ j ih =>
    rw [chAt_succ_none (h j (by omega))]
    exact ih fun i hi => h i (by omega)

theorem chAt_open {i j : Nat} (hij : i < j) (h : respawned spawns m i ≠ none) :
    (chAt spawns m j).1 = SHS_CMD_OPEN_CHANNEL := by
  induction j with
  | zero => omega
  | succ j ih =>
    cases hj : respawned spawns m j with
    | some e => rw [chAt_succ_some (show respawned spawns m j = some (e.1, e.2) from hj)]
    | none =>
      rw [chAt_succ_none hj]
      refine ih ?_
      by_contra hle
      have hij' : i = j := by omega
      exact h (hij' ▸ hj)

theorem written_eq_expected_iff (j : Nat) :
    written spawns m j = expected spawns m j ↔
      (reaped m j = true → (m.processes j).detached = false →
        ∀ i, i < j → respawned spawns m i = none) := by
  constructor
  · intro h hr hd i hi
    by_contra hne
    have hopen := chAt_open hi hne
    have hcmd := congrArg List.head? h
    simp only [written, expected, hr, hd] at hcmd
    simp [hopen, SHS_CMD_OPEN_CHANNEL, SHS_CMD_CLOSE_CHANNEL] at hcmd
  · intro h
    by_cases hc : reaped m j = true ∧ (m.processes j).detached = false
    · simp only [written, expected, chAt_close (h hc.1 hc.2)]
    · have hskip : (reaped m j && !(m.processes j).detached) = false := by
        cases hr : reaped m j <;> cases hd : (m.processes j).detached <;> simp_all
      simp [written, expected, hskip]

theorem flatMap_inj {α β : Type} {f g : α → List β} {l : List α}
    (hlen : ∀ a ∈ l, (f a).length = (g a).length) (h : l.flatMap f = l.flatMap g) :
    ∀ a ∈ l, f a = g a := by
  induction l with
  | nil => simp
  | cons b l ih =>
    rw [List.flatMap_cons, List.flatMap_cons] at h
    obtain ⟨hb, hl⟩ := List.append_inj h (hlen b (by simp))
    intro a ha
    rcases List.mem_cons.1 ha with rfl | ha
    · exact hb
    · exact ih (fun a ha => hlen a (by simp [ha])) hl a ha

theorem written_length (j : Nat) :
    (written spawns m j).length = (expected spawns m j).length := by
  simp only [written, expected, List.length_append]
  congr 1
  split <;> rfl

/-- The messages are the right ones if and only if no slot is respawned before one to close. -/
theorem messages_iff (spawns : Nat → Spawn) (hn : Survivor m n) :
    messagesTo n (reapChildren spawns m).sent =
        (List.range m.lastProcess).flatMap (expected spawns m) ↔
      ∀ i j, i < j → j < m.lastProcess → respawned spawns m i ≠ none → reaped m j = true →
        (m.processes j).detached = true := by
  rw [(reapChildren_passed spawns hn).messages]
  constructor
  · intro h i j hij hj hi hr
    by_contra hd
    have hw := flatMap_inj (fun a _ => written_length a) h j (List.mem_range.2 hj)
    exact hi ((written_eq_expected_iff j).1 hw hr (by simpa using hd) i hij)
  · intro h
    refine List.flatMap_congr fun j hj => (written_eq_expected_iff j).2 fun hr hd i hij => ?_
    by_contra hi
    have := h i j hij (List.mem_range.1 hj) hi hr
    simp [hd] at this

/-! ### The tables -/

theorem channelHandler_append {as bs : List Channel} {t : Table}
    (h : ∀ ch ∈ as, ¬ (ch.command = SHS_CMD_OPEN_CHANNEL ∧ ch.fd = -1)) :
    channelHandler dup (as ++ bs) t = channelHandler dup bs (channelHandler dup as t) := by
  induction as generalizing t with
  | nil => rfl
  | cons a as ih =>
    have ha := h a (by simp)
    rw [List.cons_append, channelHandler, if_neg ha, channelHandler, if_neg ha]
    exact ih fun ch hch => h ch (by simp [hch])

/-- What the messages about slot `j` leave of its entry `e`. -/
def entryAfter (spawns : Nat → Spawn) (dup : Int → Int) (m : Master) (j : Nat) (e : Int × Int) :
    Int × Int :=
  match respawned spawns m j with
  | some (pid, fd) => (pid, dup fd)
  | none => if reaped m j && !(m.processes j).detached then (-1, -1) else e

theorem respawned_fd (hk : Kernel spawns dup) {j : Nat} {pid fd : Int}
    (h : respawned spawns m j = some (pid, fd)) : 0 < pid ∧ 0 ≤ fd := by
  unfold respawned at h
  split at h
  · split at h
    · rename_i c hs
      cases h
      exact hk.child _ _ _ hs
    · cases h
  · cases h

theorem expected_readable (hk : Kernel spawns dup) (j : Nat) :
    ∀ ch ∈ expected spawns m j, ¬ (ch.command = SHS_CMD_OPEN_CHANNEL ∧ ch.fd = -1) := by
  intro ch hch
  rw [expected, List.mem_append] at hch
  rcases hch with hch | hch
  · split at hch
    · simp only [List.mem_singleton] at hch
      simp [hch, SHS_CMD_CLOSE_CHANNEL, SHS_CMD_OPEN_CHANNEL]
    · cases hch
  · split at hch
    · rename_i pid fd hs
      have hfd := (respawned_fd hk hs).2
      simp only [List.mem_singleton] at hch
      rw [hch]
      rintro ⟨-, hneg⟩
      simp only at hneg
      omega
    · cases hch

theorem channelHandler_expected (hk : Kernel spawns dup) (j : Nat) (t : Table) :
    channelHandler dup (expected spawns m j) t =
      Function.update t j (entryAfter spawns dup m j (t j)) := by
  unfold expected entryAfter
  cases hs : respawned spawns m j with
  | none =>
    simp only [List.append_nil]
    split
    · simp [channelHandler, apply, SHS_CMD_CLOSE_CHANNEL, SHS_CMD_OPEN_CHANNEL]
    · simp [channelHandler]
  | some e =>
    obtain ⟨pid, fd⟩ := e
    have hfd := (respawned_fd hk hs).2
    have hne : fd ≠ -1 := by omega
    simp only
    split <;>
      simp [channelHandler, apply, SHS_CMD_CLOSE_CHANNEL, SHS_CMD_OPEN_CHANNEL, hne]

theorem channelHandler_range (hk : Kernel spawns dup) (k : Nat) (t : Table) (j : Nat) :
    channelHandler dup ((List.range k).flatMap (expected spawns m)) t j =
      if j < k then entryAfter spawns dup m j (t j) else t j := by
  induction k with
  | zero => rfl
  | succ k ih =>
    rw [List.range_succ, List.flatMap_append, channelHandler_append, List.flatMap_singleton,
      channelHandler_expected hk]
    · by_cases hj : j = k
      · subst hj
        simp [ih]
      · have hlt : j < k + 1 ↔ j < k := by omega
        rw [Function.update_of_ne hj, ih]
        simp [hlt]
    · intro ch hch
      obtain ⟨i, -, hi⟩ := List.mem_flatMap.1 hch
      exact expected_readable hk i ch hi

theorem view_of_ne {pid fd : Int} (hp : pid ≠ -1) (hf : fd ≠ -1) : view (pid, fd) = some pid := by
  simp [view, hp, hf]

/-- Slot `j` looks alike on both sides unless its respawn fails with descriptors left over. -/
theorem viewAfter_eq_iff (hwf : WellFormed m) (hk : Kernel spawns dup) {t : Table}
    (ht : Agrees m t) {j : Nat} (hj : j < m.lastProcess) :
    view (entryAfter spawns dup m j (t j)) = viewAfter spawns m j ↔
      (reaped m j = true → wanted m j = true →
        ∀ c, spawns j ≠ .noOption c ∧ spawns j ≠ .noFork c) := by
  have htj := ht j
  cases hr : reaped m j with
  | false => simp [entryAfter, viewAfter, respawned, hr, htj]
  | true =>
    have hpid : (m.processes j).pid ≠ -1 := by
      simp only [reaped, Bool.and_eq_true, bne_iff_ne] at hr
      exact hr.1
    cases hw : wanted m j with
    | false =>
      cases hd : (m.processes j).detached with
      | false => simp [entryAfter, viewAfter, respawned, hr, hw, hd, view]
      | true =>
        have hnone : view (t j) = none := by
          rw [htj, Master.view, if_pos hj]
          simp [view, (hwf j hd).1]
        simp [entryAfter, viewAfter, respawned, hr, hw, hd, hnone]
    | true =>
      have hd : (m.processes j).detached = false := by
        by_contra hd
        simp [wanted, (hwf j (by simpa using hd)).2] at hw
      cases hs : spawns j with
      | noSocket => simp [entryAfter, viewAfter, respawned, hr, hw, hd, hs, view]
      | noOption c =>
        have hc := hk.noOption j c hs
        have hne : c.1 ≠ -1 := by omega
        simp [entryAfter, viewAfter, respawned, hr, hw, hd, hs, view, hpid, hne]
      | noFork c =>
        have hc := hk.noFork j c hs
        have hne : c.1 ≠ -1 := by omega
        simp [entryAfter, viewAfter, respawned, hr, hw, hd, hs, view, hpid, hne]
      | child pid c =>
        obtain ⟨hp, hc⟩ := hk.child j pid c hs
        have hdup := hk.dup c.1
        have hp' : pid ≠ -1 := by omega
        have hc' : c.1 ≠ -1 := by omega
        have hdup' : dup c.1 ≠ -1 := by omega
        simp [entryAfter, viewAfter, respawned, hr, hw, hs, view_of_ne hp' hc',
          view_of_ne hp' hdup']

/-- The entries of the master's table, as they stand. -/
def Master.table (m : Master) : Table := fun j =>
  if j < m.lastProcess then ((m.processes j).pid, (m.processes j).channel.1) else (-1, -1)

theorem agrees_table (m : Master) : Agrees m m.table := by
  intro j
  by_cases hj : j < m.lastProcess <;> simp [Master.table, Master.view, hj, view]

theorem tables_iff (hwf : WellFormed m) (hk : Kernel spawns dup) (hn : Survivor m n)
    (hmsgs : messagesTo n (reapChildren spawns m).sent =
      (List.range m.lastProcess).flatMap (expected spawns m)) :
    (∀ t, Agrees m t → Agrees (reapChildren spawns m).m
        (channelHandler dup (messagesTo n (reapChildren spawns m).sent) t)) ↔
      ∀ i c, i < m.lastProcess → reaped m i = true → wanted m i = true →
        spawns i ≠ .noOption c ∧ spawns i ≠ .noFork c := by
  rw [hmsgs]
  constructor
  · intro h i c hi hr hw
    have hv := h m.table (agrees_table m) i
    rw [channelHandler_range hk, reapChildren_view spawns hn, if_pos hi, if_pos hi] at hv
    exact (viewAfter_eq_iff hwf hk (agrees_table m) hi).1 hv hr hw c
  · intro h t ht j
    rw [channelHandler_range hk, reapChildren_view spawns hn]
    split
    · rename_i hj
      exact (viewAfter_eq_iff hwf hk ht hj).2 fun hr hw c => h j c hj hr hw
    · rename_i hj
      rw [ht j, Master.view, if_neg hj]

/-- A survivor is told what happened, and has the table of the master, if and only if no slot is
respawned before a later one to close and no respawn fails behind its `socketpair`. -/
theorem survivor_informed_iff (hwf : WellFormed m) (hk : Kernel spawns dup) (hn : Survivor m n) :
    Informed spawns dup m n ↔ Clean spawns m := by
  constructor
  · intro h
    exact ⟨(messages_iff spawns hn).1 h.messages, (tables_iff hwf hk hn h.messages).1 h.agrees⟩
  · intro h
    have hmsgs := (messages_iff spawns hn).2 h.order
    exact ⟨hmsgs, (tables_iff hwf hk hn hmsgs).2 h.spawned⟩

end Pass

/-! ## Two workers exit together -/

/-- Workers with pids 100, 101 and 102 in slots 0, 1 and 2, all to be respawned. -/
def workers (exited : Nat → Bool) : Master where
  processes i := { pid := 100 + i, channel := (2 * i, 2 * i + 1), respawn := true,
                   exited := exited i }
  lastProcess := 3

/-- Each respawn gets a child. -/
def children (i : Nat) : Spawn := .child (200 + i) (20 + 2 * i, 21 + 2 * i)

theorem workers_wellFormed (exited : Nat → Bool) : WellFormed (workers exited) := by
  intro i h
  cases h

theorem children_kernel : Kernel children (fun _ => 7) where
  noOption := by rintro i c ⟨⟩
  noFork := by rintro i c ⟨⟩
  child := by
    rintro i pid c ⟨⟩
    exact ⟨by omega, by simp only; omega⟩
  dup := by simp

theorem survivor_informed_one :
    Informed children (fun _ => 7) (workers (· = 0)) 2 ↔ Clean children (workers (· = 0)) :=
  survivor_informed_iff (workers_wellFormed _) children_kernel
    ⟨by decide, by decide, by decide, by decide⟩

/-- Slots 0 and 1 exit in one pass. The worker in slot 2 reads that slot 1 is open, under the pid
of the exited process and with the descriptor of slot 0. -/
theorem two_exits_not_informed :
    ¬ ∀ (spawns : Nat → Spawn) (dup : Int → Int) (m : Master) (n : Nat),
      WellFormed m → Kernel spawns dup → Survivor m n → Informed spawns dup m n := by
  intro h
  have hinf := h children (fun _ => 7) (workers (· < 2)) 2 (workers_wellFormed _) children_kernel
    ⟨by decide, by decide, by decide, by decide⟩
  exact absurd hinf.messages (by decide)

end ProcessCycle
end Shs
