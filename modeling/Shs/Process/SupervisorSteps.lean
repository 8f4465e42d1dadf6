import Shs.Process.Supervisor

/-!
# Process.SupervisorSteps

What each call of the master does to its table, said once for each: `spawnKind_cases` for a new
process, `reapSlot_cases` for a slot of the reaper, `signalSlot_cases` for a slot that is told, and
`getStatus` for children with entries. The later files use these and unfold nothing.
-/

namespace Shs
namespace ProcessCycle

/-! ## A new process -/

section Spawn

variable {m : Master}

theorem set_processes_self (m : Master) (i : Nat) (p : Process) : (m.set i p).processes i = p := by
  simp [Master.set]

theorem set_processes_ne (m : Master) {i j : Nat} (p : Process) (h : j ≠ i) :
    (m.set i p).processes j = m.processes j := by
  simp [Master.set, h]

@[simp] theorem master_set_lastProcess (m : Master) (i : Nat) (p : Process) :
    (m.set i p).lastProcess = m.lastProcess := rfl

/-- The slot for a new process is behind the last one, or holds none. -/
theorem newSlot_free (m : Master) :
    newSlot m = m.lastProcess ∨
      newSlot m < m.lastProcess ∧ (m.processes (newSlot m)).pid = -1 := by
  unfold newSlot
  cases hfind : (List.range m.lastProcess).find? fun s => (m.processes s).pid == -1 with
  | none => exact .inl rfl
  | some s =>
    have hmem := List.mem_range.1 (List.mem_of_find?_eq_some hfind)
    have hpid := List.find?_some hfind
    exact .inr ⟨hmem, by simpa using hpid⟩

/-- The table has not changed but for descriptors, and the globals beside it not at all. -/
structure SameTable (m m' : Master) : Prop where
  slots : ∀ j, ∃ c, m'.processes j = { m.processes j with channel := c }
  last : m'.lastProcess = m.lastProcess
  newBinary : m'.newBinary = m.newBinary
  noaccepting : m'.noaccepting = m.noaccepting
  restart : m'.restart = m.restart
  terminate : m'.terminate = m.terminate
  quit : m'.quit = m.quit

theorem SameTable.refl (m : Master) : SameTable m m :=
  ⟨fun j => ⟨(m.processes j).channel, rfl⟩, rfl, rfl, rfl, rfl, rfl, rfl⟩

/-- Slot `i` is now `p`, the globals beside the table are as they were. -/
structure Entered (i : Nat) (p : Process) (m m' : Master) : Prop where
  slot : m'.processes i = p
  others : ∀ j, j ≠ i → m'.processes j = m.processes j
  newBinary : m'.newBinary = m.newBinary
  noaccepting : m'.noaccepting = m.noaccepting
  restart : m'.restart = m.restart
  terminate : m'.terminate = m.terminate
  quit : m'.quit = m.quit

/-- The process that `spawn_process` enters into a new slot. -/
def newProcess (kind : Respawn) (pid : Int) (c : Int × Int) : Process where
  pid := pid
  channel := if kind = .detached then (-1, -1) else c
  respawn := kind = .respawn ∨ kind = .justRespawn
  detached := kind = .detached
  exiting := false
  exited := false

theorem sameTable_set (m : Master) (i : Nat) (c : Int × Int) :
    SameTable m (m.set i { m.processes i with channel := c }) := by
  refine ⟨fun j => ?_, rfl, rfl, rfl, rfl, rfl, rfl⟩
  by_cases hj : j = i
  · subst hj
    exact ⟨c, set_processes_self m j _⟩
  · exact ⟨(m.processes j).channel, set_processes_ne m _ hj⟩

theorem SameTable.slot {m m' : Master} (h : SameTable m m') (i : Nat) :
    SameTable m { m' with processSlot := i } :=
  ⟨h.slots, h.last, h.newBinary, h.noaccepting, h.restart, h.terminate, h.quit⟩

/-- A failing `spawn_process` leaves the table as it is, but for descriptors. -/
theorem spawnNew_fails (kind : Respawn) {answer : Spawn} (h : answer.isChild = false)
    (m : Master) : SameTable m (spawnNew kind answer m) := by
  unfold spawnNew
  simp only
  split
  · exact .refl m
  · by_cases hk : kind = .detached
    · subst hk
      simp only [if_pos]
      cases answer with
      | noSocket | noOption c | noFork c =>
        simp only [spawnDetached]
        exact (sameTable_set m (newSlot m) (-1, -1)).slot _
      | child pid c => cases h
    · simp only [if_neg hk]
      cases answer with
      | noSocket => exact .refl m
      | noOption c =>
        simp only [spawnProcess]
        exact sameTable_set m (newSlot m) c
      | noFork c =>
        simp only [spawnProcess]
        exact (sameTable_set m (newSlot m) c).slot _
      | child pid c => cases h

theorem spawnNew_child (kind : Respawn) (pid : Int) (c : Int × Int) (m : Master)
    (hmax : newSlot m ≠ MAX_PROCESSES) :
    Entered (newSlot m) (newProcess kind pid c) m (spawnNew kind (.child pid c) m) ∧
      (spawnNew kind (.child pid c) m).lastProcess =
        if newSlot m = m.lastProcess then m.lastProcess + 1 else m.lastProcess := by
  unfold spawnNew
  simp only [if_neg hmax]
  by_cases hk : kind = .detached
  · subst hk
    simp only [if_pos, spawnDetached, enterProcess, master_set_lastProcess, set_processes_self]
    split
    · exact ⟨⟨by simp [Master.set, newProcess], fun j hj => by simp [Master.set, hj],
        rfl, rfl, rfl, rfl, rfl⟩, rfl⟩
    · exact ⟨⟨by simp [Master.set, newProcess], fun j hj => by simp [Master.set, hj],
        rfl, rfl, rfl, rfl, rfl⟩, rfl⟩
  · simp only [if_neg hk, spawnProcess, enterProcess, master_set_lastProcess, set_processes_self]
    split
    · exact ⟨⟨by simp [Master.set, newProcess, hk], fun j hj => by simp [Master.set, hj],
        rfl, rfl, rfl, rfl, rfl⟩, rfl⟩
    · exact ⟨⟨by simp [Master.set, newProcess, hk], fun j hj => by simp [Master.set, hj],
        rfl, rfl, rfl, rfl, rfl⟩, rfl⟩

/-- What `spawn_process` with `respawn < 0` can do. -/
inductive Spawned (kind : Respawn) (answer : Spawn) (s s' : Supervisor) : Prop
  /-- there is no free slot, or a call fails -/
  | failed (table : SameTable s.m s'.m) (just : s'.justSpawn = s.justSpawn) (kids : s'.kids = s.kids)
  | entered (pid : Int) (c : Int × Int) (hanswer : answer = .child pid c)
      (max : newSlot s.m ≠ MAX_PROCESSES)
      (slot : Entered (newSlot s.m) (newProcess kind pid c) s.m s'.m)
      (last : s'.m.lastProcess =
        if newSlot s.m = s.m.lastProcess then s.m.lastProcess + 1 else s.m.lastProcess)
      (just : s'.justSpawn =
        Function.update s.justSpawn (newSlot s.m) (kind = .justSpawn ∨ kind = .justRespawn))
      (kids : s'.kids = s.kids.fork (newSlot s.m) s.m answer)

theorem spawnKind_cases (kind : Respawn) (answer : Spawn) (s : Supervisor) :
    Spawned kind answer s (spawnKind kind answer s) := by
  unfold spawnKind
  simp only
  split
  · exact .failed (.refl s.m) rfl rfl
  · rename_i hmax
    cases answer with
    | child pid c =>
      obtain ⟨hslot, hlast⟩ := spawnNew_child kind pid c s.m hmax
      exact .entered pid c rfl hmax hslot hlast rfl rfl
    | noSocket | noOption c | noFork c => exact .failed (spawnNew_fails kind rfl s.m) rfl rfl

/-- Neither flags nor locals are touched. -/
structure SameLoop (s s' : Supervisor) : Prop where
  flags : s'.flags = s.flags
  locals : s'.locals = s.locals
  stopped : s'.stopped = s.stopped
  kills : s'.kills = s.kills
  timer : s'.timer = s.timer
  daemonized : s'.daemonized = s.daemonized

theorem SameLoop.refl (s : Supervisor) : SameLoop s s := ⟨rfl, rfl, rfl, rfl, rfl, rfl⟩

theorem SameLoop.trans {s s' s'' : Supervisor} (h : SameLoop s s') (h' : SameLoop s' s'') :
    SameLoop s s'' :=
  ⟨h'.flags.trans h.flags, h'.locals.trans h.locals, h'.stopped.trans h.stopped,
    h'.kills.trans h.kills, h'.timer.trans h.timer, h'.daemonized.trans h.daemonized⟩

theorem spawnKind_loop (kind : Respawn) (answer : Spawn) (s : Supervisor) :
    SameLoop s (spawnKind kind answer s) := by
  unfold spawnKind
  simp only
  split
  · exact .refl s
  · exact ⟨rfl, rfl, rfl, rfl, rfl, rfl⟩

end Spawn

/-! ## The reaper -/

section Reaper

variable {spawns : Nat → Spawn}

/-- The slot counts for `live` as it stands. -/
def running (p : Process) : Bool := p.pid != -1 && !p.exited && (p.exiting || !p.detached)

/-- What `reap_children` can do to slot `i`: `m` is the master before, `m'` behind, and `live` is
what the slot adds to the result. -/
inductive SlotReaped (spawns : Nat → Spawn) (i : Nat) (m m' : Master) (live : Bool) : Prop
  /-- no process, or one that has not exited -/
  | kept (hslot : reaped m i = false) (hm : m' = m) (hlive : live = running (m.processes i))
  | respawned (hslot : respawns (m.processes i) m = true) (pid : Int) (c : Int × Int)
      (hanswer : spawns i = .child pid c) (hlive : live = true)
      (hlast : m'.lastProcess = m.lastProcess)
      (hentry : Entered i { m.processes i with pid := pid, channel := c, exited := false } m m')
  | failed (hslot : respawns (m.processes i) m = true) (hanswer : (spawns i).isChild = false)
      (hlive : live = false) (hlast : m'.lastProcess = m.lastProcess) (c : Int × Int)
      (hentry : Entered i { m.processes i with channel := c } m m')
  | dropped (hslot : reaped m i = true) (hno : respawns (m.processes i) m = false)
      (hlive : live = false) (hothers : ∀ j, j ≠ i → m'.processes j = m.processes j)
      (hgone : i + 1 = m.lastProcess ∧ m'.lastProcess = i ∨
        i + 1 ≠ m.lastProcess ∧ m'.lastProcess = m.lastProcess ∧ (m'.processes i).pid = -1)
      (hkeep : (m'.processes i).exited = true ∧
        (m'.processes i).detached = (m.processes i).detached)
      (hbinary : (m'.newBinary = m.newBinary ∧ m'.noaccepting = m.noaccepting ∧
          m'.restart = m.restart) ∨
        (m.processes i).pid = m.newBinary ∧ m'.newBinary = 0 ∧ m'.noaccepting = false ∧
          m'.restart = (m.restart || m.noaccepting))
      (hterminate : m'.terminate = m.terminate) (hquit : m'.quit = m.quit)

/-- The slot behind the closing of its channel. -/
def closedSlot (p : Process) : Process :=
  if p.detached then p else { p with channel := (-1, -1) }

theorem closed_entered (i : Nat) (s : Reap) :
    Entered i (closedSlot (s.m.processes i)) s.m
        (if (s.m.processes i).detached then s else closeSlot i s).m ∧
      (if (s.m.processes i).detached then s else closeSlot i s).m.lastProcess = s.m.lastProcess ∧
      (if (s.m.processes i).detached then s else closeSlot i s).live = s.live := by
  unfold closedSlot
  split
  · exact ⟨⟨rfl, fun _ _ => rfl, rfl, rfl, rfl, rfl, rfl⟩, rfl, rfl⟩
  · exact ⟨⟨set_processes_self _ _ _, fun j hj => set_processes_ne _ _ hj, rfl, rfl, rfl, rfl, rfl⟩,
      rfl, rfl⟩

theorem Entered.trans {i : Nat} {p q : Process} {m m' m'' : Master} (h : Entered i p m m')
    (h' : Entered i q m' m'') : Entered i q m m'' :=
  ⟨h'.slot, fun j hj => (h'.others j hj).trans (h.others j hj), h'.newBinary.trans h.newBinary,
    h'.noaccepting.trans h.noaccepting, h'.restart.trans h.restart,
    h'.terminate.trans h.terminate, h'.quit.trans h.quit⟩

theorem Entered.eq {i : Nat} {p q : Process} {m m' : Master} (h : Entered i p m m') (hp : p = q) :
    Entered i q m m' := hp ▸ h

/-- `g_process_slot` does not matter. -/
theorem Entered.globals {i : Nat} {p : Process} {m m' m'' : Master} (h : Entered i p m m')
    (hprocs : m''.processes = m'.processes) (hb : m''.newBinary = m'.newBinary)
    (hn : m''.noaccepting = m'.noaccepting) (hr : m''.restart = m'.restart)
    (ht : m''.terminate = m'.terminate) (hq : m''.quit = m'.quit) : Entered i p m m'' :=
  ⟨by rw [hprocs, h.slot], fun j hj => by rw [hprocs, h.others j hj], hb.trans h.newBinary,
    hn.trans h.noaccepting, hr.trans h.restart, ht.trans h.terminate, hq.trans h.quit⟩

@[simp] theorem closedSlot_pid (p : Process) : (closedSlot p).pid = p.pid := by
  unfold closedSlot
  split <;> rfl

@[simp] theorem closedSlot_exited (p : Process) : (closedSlot p).exited = p.exited := by
  unfold closedSlot
  split <;> rfl

@[simp] theorem closedSlot_detached (p : Process) : (closedSlot p).detached = p.detached := by
  unfold closedSlot
  split <;> rfl

theorem closedSlot_channel (p : Process) (c : Int × Int) :
    { closedSlot p with channel := c } = { p with channel := c } := by
  unfold closedSlot
  split <;> rfl

theorem entered_set (m : Master) (i : Nat) (p : Process) : Entered i p m (m.set i p) :=
  ⟨set_processes_self m i p, fun _ hj => set_processes_ne m p hj, rfl, rfl, rfl, rfl, rfl⟩

/-- A slot that is not to be respawned is given up. -/
theorem dropSlot_cases {m m₁ : Master} {i : Nat} (hr : reaped m i = true)
    (hno : respawns (m.processes i) m = false)
    (h₁ : Entered i (closedSlot (m.processes i)) m m₁) (hl : m₁.lastProcess = m.lastProcess) :
    SlotReaped spawns i m (dropSlot i m₁) false := by
  have hex : (m.processes i).exited = true := by
    simp only [reaped, Bool.and_eq_true] at hr
    exact hr.2
  -- the new binary first, then the slot
  obtain ⟨m₂, h₂, hprocs, hlast, hb⟩ : ∃ m₂ : Master,
      dropSlot i m₁ = (if i + 1 = m₂.lastProcess then { m₂ with lastProcess := m₂.lastProcess - 1 }
        else m₂.set i { (m₁.processes i) with pid := -1 }) ∧
      m₂.processes = m₁.processes ∧ m₂.lastProcess = m₁.lastProcess ∧
      (m₂.terminate = m₁.terminate ∧ m₂.quit = m₁.quit ∧
        ((m₂.newBinary = m₁.newBinary ∧ m₂.noaccepting = m₁.noaccepting ∧
          m₂.restart = m₁.restart) ∨
        (m₁.processes i).pid = m₁.newBinary ∧ m₂.newBinary = 0 ∧ m₂.noaccepting = false ∧
          m₂.restart = (m₁.restart || m₁.noaccepting))) := by
    by_cases hpid : (m₁.processes i).pid = m₁.newBinary
    · let m₂ : Master :=
        { m₁ with newBinary := 0, restart := m₁.restart || m₁.noaccepting, noaccepting := false }
      refine ⟨m₂, ?_, rfl, rfl, rfl, rfl, .inr ⟨hpid, rfl, rfl, rfl⟩⟩
      simp only [dropSlot, if_pos hpid, m₂]
    · refine ⟨m₁, ?_, rfl, rfl, rfl, rfl, .inl ⟨rfl, rfl, rfl⟩⟩
      simp only [dropSlot, if_neg hpid]
  have hpid : (m₁.processes i).pid = (m.processes i).pid := by rw [h₁.slot, closedSlot_pid]
  have hlast' : m₂.lastProcess = m.lastProcess := hlast.trans hl
  rw [h₁.newBinary, h₁.noaccepting, h₁.restart, hpid] at hb
  have hself : m₂.processes i = closedSlot (m.processes i) := by rw [hprocs, h₁.slot]
  have hothers : ∀ j, j ≠ i → m₂.processes j = m.processes j := by
    intro j hj
    rw [hprocs, h₁.others j hj]
  rw [h₂]
  by_cases hend : i + 1 = m₂.lastProcess
  · rw [if_pos hend]
    refine .dropped hr hno rfl hothers (.inl ⟨hlast' ▸ hend, ?_⟩) ?_ hb.2.2
      (hb.1.trans h₁.terminate) (hb.2.1.trans h₁.quit)
    · show m₂.lastProcess - 1 = i
      omega
    · show (m₂.processes i).exited = true ∧ _
      rw [hself, closedSlot_exited]
      exact ⟨hex, by simp⟩
  · rw [if_neg hend]
    refine .dropped hr hno rfl (fun j hj => ?_) (.inr ⟨hlast' ▸ hend, hlast', ?_⟩) ?_ hb.2.2
      (hb.1.trans h₁.terminate) (hb.2.1.trans h₁.quit)
    · rw [set_processes_ne _ _ hj]
      exact hothers j hj
    · rw [set_processes_self]
    · rw [set_processes_self, h₁.slot]
      exact ⟨by rw [closedSlot_exited, hex], by rw [closedSlot_detached]⟩

/-- One slot of `reap_children`. -/
theorem reapSlot_cases (spawns : Nat → Spawn) (i : Nat) (s : Reap) :
    ∃ live, SlotReaped spawns i s.m (reapSlot spawns i s).m live ∧
      (reapSlot spawns i s).live = (s.live || live) := by
  unfold reapSlot
  simp only
  by_cases hpid : (s.m.processes i).pid = -1
  · rw [if_pos hpid]
    exact ⟨false, .kept (by simp [reaped, hpid]) rfl (by simp [running, hpid]), by simp⟩
  rw [if_neg hpid]
  by_cases hex : (s.m.processes i).exited = true
  · rw [if_pos hex]
    have hr : reaped s.m i = true := by simp [reaped, hpid, hex]
    obtain ⟨hclosed, hlast, hlive⟩ := closed_entered i s
    generalize (if (s.m.processes i).detached = true then s else closeSlot i s) = s₁ at *
    have hguard : ((s.m.processes i).respawn && !(s.m.processes i).exiting &&
        !s₁.m.terminate && !s₁.m.quit) = respawns (s.m.processes i) s.m := by
      have hne : ((s.m.processes i).pid != -1) = true := by simpa using hpid
      rw [hclosed.terminate, hclosed.quit, respawns, hne, hex]
      rfl
    rw [hguard]
    by_cases hw : respawns (s.m.processes i) s.m = true
    · rw [if_pos hw]
      cases hs : spawns i with
      | noSocket =>
        refine ⟨false, .failed hw (by rw [hs]; rfl) rfl hlast (closedSlot (s.m.processes i)).channel ?_,
          by simp [spawnProcess, hlive]⟩
        rw [← closedSlot_channel]
        exact hclosed
      | noOption c | noFork c =>
        simp only [spawnProcess]
        refine ⟨false, .failed hw (by rw [hs]; rfl) rfl hlast c ?_, by simp [hlive]⟩
        have hset := hclosed.trans (entered_set s₁.m i { s₁.m.processes i with channel := c })
        have heq : { s₁.m.processes i with channel := c } =
            { s.m.processes i with channel := c } := by
          rw [hclosed.slot, closedSlot_channel]
        exact (hset.eq heq).globals rfl rfl rfl rfl rfl rfl
      | child pid c =>
        simp only [spawnProcess]
        refine ⟨true, .respawned hw pid c hs rfl hlast ?_, by simp⟩
        have hset := hclosed.trans (entered_set s₁.m i
          { s₁.m.processes i with channel := c, pid := pid, exited := false })
        have heq : { s₁.m.processes i with channel := c, pid := pid, exited := false } =
            { s.m.processes i with channel := c, pid := pid, exited := false } := by
          rw [hclosed.slot]
          unfold closedSlot
          split <;> rfl
        exact (hset.eq heq).globals rfl rfl rfl rfl rfl rfl
    · rw [if_neg hw]
      refine ⟨false, dropSlot_cases hr (by simpa using hw) hclosed hlast, by simp [hlive]⟩
  · rw [if_neg hex]
    have hr : reaped s.m i = false := by simp [reaped, hex]
    by_cases hrun : ((s.m.processes i).exiting || !(s.m.processes i).detached) = true
    · rw [if_pos hrun]
      refine ⟨true, .kept hr rfl ?_, by simp⟩
      have hex' : (s.m.processes i).exited = false := by simpa using hex
      simp [running, hpid, hex', hrun]
    · rw [if_neg hrun]
      refine ⟨false, .kept hr rfl ?_, by simp⟩
      have hrun' : ((s.m.processes i).exiting || !(s.m.processes i).detached) = false := by
        simpa using hrun
      simp [running, hrun']

/-- The rule for the loop of `reap_children`: what each slot keeps holds behind the pass, where all
slots in use are behind. -/
theorem reapLoop_rule {P : Nat → Reap → Kids → Prop} (n : Nat)
    (hstep : ∀ i s k, i < s.m.lastProcess → P i s k →
      P (i + 1) (reapSlot spawns i s)
        (if respawns (s.m.processes i) s.m then k.fork i s.m (spawns i) else k))
    (i : Nat) (s : Reap) (k : Kids) (h : P i s k) (hn : s.m.lastProcess ≤ i + n) :
    ∃ i', (reapLoop spawns n i s).m.lastProcess ≤ i' ∧
      P i' (reapLoop spawns n i s) (reapLoopKids spawns n i s k) := by
  induction n generalizing i s k with
  | zero => exact ⟨i, hn, h⟩
  | succ n ih =>
    rw [reapLoop, reapLoopKids]
    by_cases hi : i < s.m.lastProcess
    · rw [if_pos hi, if_pos hi]
      refine ih (i + 1) _ _ (hstep i s k hi h) ?_
      obtain ⟨live, hcase, -⟩ := reapSlot_cases spawns i s
      cases hcase with
      | kept _ hm _ => rw [hm]; omega
      | respawned _ _ _ _ _ hlast _ => rw [hlast]; omega
      | failed _ _ _ hlast _ _ => rw [hlast]; omega
      | dropped _ _ _ _ hgone => rcases hgone with ⟨_, hlast⟩ | ⟨_, hlast, _⟩ <;> omega
    · rw [if_neg hi, if_neg hi]
      exact ⟨i, by omega, h⟩

end Reaper

/-! ## Telling the processes -/

section Tell

variable {signo : Signo} {told : Answers} {s : Supervisor}

/-- What becomes of a process that is told. -/
def toldProcess (signo : Signo) (written : Bool) (kill : Kill) (just : Bool) (p : Process) :
    Process :=
  if p.detached ∨ p.pid = -1 ∨ just ∨ p.exiting ∧ signo = .shutdown then p
  else if signo.command ≠ 0 ∧ written then { p with exiting := p.exiting || signo != .reopen }
  else
    match kill with
    | .done => { p with exiting := p.exiting || signo != .reopen }
    | .noProcess => { p with exited := true, exiting := false }
    | .refused => p

@[simp] theorem toldProcess_pid (written : Bool) (kill : Kill) (just : Bool) (p : Process) :
    (toldProcess signo written kill just p).pid = p.pid := by
  unfold toldProcess
  split
  · rfl
  · split
    · rfl
    · cases kill <;> rfl

@[simp] theorem toldProcess_detached (written : Bool) (kill : Kill) (just : Bool) (p : Process) :
    (toldProcess signo written kill just p).detached = p.detached := by
  unfold toldProcess
  split
  · rfl
  · split
    · rfl
    · cases kill <;> rfl

@[simp] theorem toldProcess_respawn (written : Bool) (kill : Kill) (just : Bool) (p : Process) :
    (toldProcess signo written kill just p).respawn = p.respawn := by
  unfold toldProcess
  split
  · rfl
  · split
    · rfl
    · cases kill <;> rfl

/-- The process is found to be gone only if `kill` says so. -/
theorem toldProcess_exited (signo : Signo) (written : Bool) (kill : Kill) (just : Bool) (p : Process) :
    (toldProcess signo written kill just p).exited = p.exited ∨
      kill = .noProcess ∧ (toldProcess signo written kill just p).exited = true := by
  unfold toldProcess
  split
  · exact .inl rfl
  · split
    · exact .inl rfl
    · cases kill with
      | done => exact .inl rfl
      | noProcess => exact .inr ⟨rfl, rfl⟩
      | refused => exact .inl rfl

/-- The slot keeps its `just_spawn`. -/
def untold (p : Process) : Bool := p.detached || p.pid == -1

/-- What `signal_worker_processes` does to slot `i`. -/
structure SlotTold (signo : Signo) (told : Answers) (i : Nat) (s s' : Supervisor) : Prop where
  slot : s'.m.processes i =
    toldProcess signo (told.written i) (told.kill i) (s.justSpawn i) (s.m.processes i)
  others : ∀ j, j ≠ i → s'.m.processes j = s.m.processes j
  just : s'.justSpawn i = (untold (s.m.processes i) && s.justSpawn i)
  justOthers : ∀ j, j ≠ i → s'.justSpawn j = s.justSpawn j
  kids : s'.kids = s.kids ∨ s'.kids = s.kids.kill (s.m.processes i).pid (told.kill i)
  /-- a slot that has exited now was killed -/
  gone : (s.m.processes i).exited = false → (s'.m.processes i).exited = true →
    told.kill i = .noProcess ∧ s'.kids = s.kids.kill (s.m.processes i).pid .noProcess
  killed : signo = .kill → untold (s.m.processes i) = false → s.justSpawn i = false →
    ((s.m.processes i).pid, .kill) ∈ s'.kills
  kills : ∃ ks, s'.kills = s.kills ++ ks

/-- The globals and locals that `signal_worker_processes` leaves alone. -/
structure SameBut (s s' : Supervisor) : Prop where
  last : s'.m.lastProcess = s.m.lastProcess
  newBinary : s'.m.newBinary = s.m.newBinary
  noaccepting : s'.m.noaccepting = s.m.noaccepting
  restart : s'.m.restart = s.m.restart
  terminate : s'.m.terminate = s.m.terminate
  quit : s'.m.quit = s.m.quit
  flags : s'.flags = s.flags ∨ s'.flags = { s.flags with reap := true }
  locals : s'.locals = s.locals
  stopped : s'.stopped = s.stopped
  timer : s'.timer = s.timer
  daemonized : s'.daemonized = s.daemonized

theorem SameBut.refl (s : Supervisor) : SameBut s s :=
  ⟨rfl, rfl, rfl, rfl, rfl, rfl, .inl rfl, rfl, rfl, rfl, rfl⟩

theorem SameBut.trans {s s' s'' : Supervisor} (h : SameBut s s') (h' : SameBut s' s'') :
    SameBut s s'' where
  last := h'.last.trans h.last
  newBinary := h'.newBinary.trans h.newBinary
  noaccepting := h'.noaccepting.trans h.noaccepting
  restart := h'.restart.trans h.restart
  terminate := h'.terminate.trans h.terminate
  quit := h'.quit.trans h.quit
  flags := by
    rcases h.flags with h₁ | h₁ <;> rcases h'.flags with h₂ | h₂
    · exact .inl (h₂.trans h₁)
    · exact .inr (by rw [h₂, h₁])
    · exact .inr (h₂.trans h₁)
    · exact .inr (by rw [h₂, h₁])
  locals := h'.locals.trans h.locals
  stopped := h'.stopped.trans h.stopped
  timer := h'.timer.trans h.timer
  daemonized := h'.daemonized.trans h.daemonized

theorem set_exiting (m : Master) (i : Nat) (signo : Signo) :
    Entered i { m.processes i with exiting := (m.processes i).exiting || signo != .reopen } m
      (if signo = .reopen then m else m.set i { m.processes i with exiting := true }) := by
  split
  · rename_i h
    subst h
    exact ⟨by simp, fun _ _ => rfl, rfl, rfl, rfl, rfl, rfl⟩
  · rename_i h
    have hne : (signo != .reopen) = true := by simpa using h
    simpa [hne] using entered_set m i { m.processes i with exiting := true }

theorem signalSlot_told (signo : Signo) (told : Answers) (s : Supervisor) (i : Nat) :
    SlotTold signo told i s (signalSlot signo told s i) ∧
      SameBut s (signalSlot signo told s i) := by
  have hexit := set_exiting s.m i signo
  have hlast : (if signo = .reopen then s.m
      else s.m.set i { s.m.processes i with exiting := true }).lastProcess = s.m.lastProcess := by
    split <;> rfl
  generalize hm : (if signo = .reopen then s.m
      else s.m.set i { s.m.processes i with exiting := true }) = m at hexit hlast
  unfold signalSlot
  simp only [hm]
  by_cases hskip : (s.m.processes i).detached = true ∨ (s.m.processes i).pid = -1
  · rw [if_pos hskip]
    have hun : untold (s.m.processes i) = true := by
      rcases hskip with h | h <;> simp [untold, h]
    refine ⟨⟨?_, fun _ _ => rfl, by simp [hun], fun _ _ => rfl, .inl rfl, ?_, ?_, [], by simp⟩,
      .refl s⟩
    · unfold toldProcess
      rw [if_pos (by tauto)]
    · intro h h'
      rw [h] at h'
      cases h'
    · intro _ h _
      rw [hun] at h
      cases h
  rw [if_neg hskip]
  have hun : untold (s.m.processes i) = false := by
    have hskip' := not_or.1 hskip
    simp only [untold, Bool.or_eq_false_iff, beq_eq_false_iff_ne]
    exact ⟨by simpa using hskip'.1, hskip'.2⟩
  by_cases hj : s.justSpawn i = true
  · rw [if_pos hj]
    refine ⟨⟨?_, fun _ _ => rfl, by simp [hun], fun j hji => by simp [hji], .inl rfl, ?_, ?_,
      [], by simp⟩, ⟨rfl, rfl, rfl, rfl, rfl, rfl, .inl rfl, rfl, rfl, rfl, rfl⟩⟩
    · unfold toldProcess
      rw [if_pos (by tauto)]
    · intro h h'
      rw [h] at h'
      cases h'
    · intro _ _ h
      rw [hj] at h
      cases h
  rw [if_neg hj]
  have hj' : s.justSpawn i = false := by simpa using hj
  by_cases hleave : (s.m.processes i).exiting = true ∧ signo = .shutdown
  · rw [if_pos hleave]
    refine ⟨⟨?_, fun _ _ => rfl, by simp [hj'], fun _ _ => rfl, .inl rfl, ?_, ?_, [], by simp⟩,
      .refl s⟩
    · unfold toldProcess
      rw [if_pos (by tauto)]
    · intro h h'
      rw [h] at h'
      cases h'
    · intro h
      rw [h] at hleave
      cases hleave.2
  rw [if_neg hleave]
  have htold : toldProcess signo (told.written i) (told.kill i) (s.justSpawn i) (s.m.processes i) =
      if signo.command ≠ 0 ∧ told.written i = true then
        { s.m.processes i with exiting := (s.m.processes i).exiting || signo != .reopen }
      else
        match told.kill i with
        | .done =>
          { s.m.processes i with exiting := (s.m.processes i).exiting || signo != .reopen }
        | .noProcess => { s.m.processes i with exited := true, exiting := false }
        | .refused => s.m.processes i := by
    unfold toldProcess
    rw [if_neg (by tauto)]
  obtain ⟨sent, hsent⟩ : ∃ sent, (if signo.command ≠ 0 then
      { s with sent := s.sent ++ [(i, ⟨signo.command, 0, 0, -1⟩)] } else s) =
        { s with sent := sent } := by
    split
    · exact ⟨_, rfl⟩
    · exact ⟨s.sent, rfl⟩
  rw [hsent]
  have hsame : (s.m.processes i).exited = false → (m.processes i).exited = true → False := by
    intro h h'
    rw [hexit.slot] at h'
    exact absurd (h.symm.trans h') (by decide)
  by_cases hw : signo.command ≠ 0 ∧ told.written i = true
  · rw [if_pos hw] at htold ⊢
    refine ⟨⟨?_, hexit.others, by simp [hj'], fun _ _ => rfl, .inl rfl,
      fun h h' => (hsame h h').elim, ?_, [], by simp⟩, ⟨hlast, hexit.newBinary, hexit.noaccepting,
        hexit.restart, hexit.terminate, hexit.quit, .inl rfl, rfl, rfl, rfl, rfl⟩⟩
    · rw [htold]
      exact hexit.slot
    · rintro rfl
      exact absurd rfl hw.1
  · rw [if_neg hw] at htold ⊢
    have hkilled : signo = .kill → ((s.m.processes i).pid, Signo.kill) ∈
        s.kills ++ [((s.m.processes i).pid, signo)] := by
      rintro rfl
      simp
    cases hk : told.kill i with
    | done =>
      rw [hk] at htold
      refine ⟨⟨?_, hexit.others, by simp [hj'], fun _ _ => rfl, .inr (by rw [hk]),
        fun h h' => (hsame h h').elim, fun h _ _ => hkilled h, _, rfl⟩, ⟨hlast, hexit.newBinary,
        hexit.noaccepting, hexit.restart, hexit.terminate, hexit.quit, .inl rfl, rfl, rfl, rfl, rfl⟩⟩
      rw [hk, htold]
      exact hexit.slot
    | noProcess =>
      rw [hk] at htold
      refine ⟨⟨?_, fun j hji => set_processes_ne _ _ hji, by simp [hj'], fun _ _ => rfl,
        .inr (by rw [hk]), fun _ _ => ⟨hk, rfl⟩, fun h _ _ => hkilled h, _, rfl⟩,
        ⟨rfl, rfl, rfl, rfl, rfl, rfl, .inr rfl, rfl, rfl, rfl, rfl⟩⟩
      rw [hk, htold]
      exact set_processes_self _ _ _
    | refused =>
      rw [hk] at htold
      refine ⟨⟨?_, fun _ _ => rfl, by simp [hj'], fun _ _ => rfl, .inr (by rw [hk]), ?_,
        fun h _ _ => hkilled h, _, rfl⟩, ⟨rfl, rfl, rfl, rfl, rfl, rfl, .inl rfl, rfl, rfl, rfl, rfl⟩⟩
      · rw [hk, htold]
      · intro h h'
        rw [h] at h'
        cases h'

/-- What telling the slots of `l` does. -/
structure AllTold (signo : Signo) (told : Answers) (l : List Nat) (s s' : Supervisor) : Prop where
  slots : ∀ i ∈ l, s'.m.processes i =
    toldProcess signo (told.written i) (told.kill i) (s.justSpawn i) (s.m.processes i)
  others : ∀ i, i ∉ l → s'.m.processes i = s.m.processes i
  just : ∀ i ∈ l, s'.justSpawn i = (untold (s.m.processes i) && s.justSpawn i)
  justOthers : ∀ i, i ∉ l → s'.justSpawn i = s.justSpawn i
  killed : signo = .kill → ∀ i ∈ l, untold (s.m.processes i) = false → s.justSpawn i = false →
    ((s.m.processes i).pid, .kill) ∈ s'.kills
  kills : ∃ ks, s'.kills = s.kills ++ ks
  pids : s'.kids.pids = s.kids.pids
  lawful : s'.kids.lawful = true → s.kids.lawful = true
  same : SameBut s s'

theorem exec_signalSlot (signo : Signo) (told : Answers) (l : List Nat) (hl : l.Nodup)
    (s : Supervisor) : AllTold signo told l s (Run.exec (signalSlot signo told) s l) := by
  induction l generalizing s with
  | nil =>
    exact ⟨by simp, fun _ _ => rfl, by simp, fun _ _ => rfl, by simp, ⟨[], by simp⟩, rfl, id, .refl s⟩
  | cons a l ih =>
    obtain ⟨hnot, hl⟩ := List.nodup_cons.1 hl
    obtain ⟨hone, hbut⟩ := signalSlot_told signo told s a
    have hrest := ih hl (signalSlot signo told s a)
    have hne : ∀ i ∈ l, i ≠ a := by
      rintro i hi rfl
      exact hnot hi
    show AllTold signo told (a :: l) s (Run.exec (signalSlot signo told) (signalSlot signo told s a) l)
    refine ⟨fun i hi => ?_, fun i hi => ?_, fun i hi => ?_, fun i hi => ?_, fun hk i hi hu hj => ?_,
      ?_, ?_, fun hlaw => ?_, hbut.trans hrest.same⟩
    · rcases List.mem_cons.1 hi with rfl | hi
      · rw [hrest.others i hnot, hone.slot]
      · rw [hrest.slots i hi, hone.others i (hne i hi), hone.justOthers i (hne i hi)]
    · obtain ⟨hia, hil⟩ := List.ne_and_not_mem_of_not_mem_cons hi
      rw [hrest.others i hil, hone.others i hia]
    · rcases List.mem_cons.1 hi with rfl | hi
      · rw [hrest.justOthers i hnot, hone.just]
      · rw [hrest.just i hi, hone.others i (hne i hi), hone.justOthers i (hne i hi)]
    · obtain ⟨hia, hil⟩ := List.ne_and_not_mem_of_not_mem_cons hi
      rw [hrest.justOthers i hil, hone.justOthers i hia]
    · rcases List.mem_cons.1 hi with rfl | hi
      · obtain ⟨ks, hks⟩ := hrest.kills
        rw [hks]
        exact List.mem_append_left _ (hone.killed hk hu hj)
      · have hmem := hrest.killed hk i hi
        rw [hone.others i (hne i hi), hone.justOthers i (hne i hi)] at hmem
        exact hmem hu hj
    · obtain ⟨ks, hks⟩ := hone.kills
      obtain ⟨ks', hks'⟩ := hrest.kills
      exact ⟨ks ++ ks', by rw [hks', hks, List.append_assoc]⟩
    · rw [hrest.pids]
      rcases hone.kids with h | h <;> rw [h]
      rfl
    · have hlaw' := hrest.lawful hlaw
      rcases hone.kids with h | h <;> rw [h] at hlaw'
      · exact hlaw'
      · simp only [Kids.kill, Bool.and_eq_true] at hlaw'
        exact hlaw'.1

theorem signalWorkerProcesses_told (signo : Signo) (told : Answers) (s : Supervisor) :
    AllTold signo told (List.range s.m.lastProcess) s (signalWorkerProcesses signo told s) :=
  exec_signalSlot signo told _ List.nodup_range s

end Tell

/-! ## Children that have exited -/

section Status

variable {pid status : Int} {s : Pass} {i : Nat}

/-- The process of an entry that `waitpid` has named. -/
def exitedProcess (status : Int) (p : Process) : Process :=
  { p with exited := true, respawn := p.respawn && wexitstatus status != 2 }

/-- The search finds the first entry of the pid. -/
theorem searchPid_found (status : Int) (k a : Nat) (s : Pass) (hlo : a ≤ i) (hhi : i < a + k)
    (hpid : (s.processes i).pid = pid) (hfirst : ∀ j, a ≤ j → j < i → (s.processes j).pid ≠ pid) :
    (searchPid pid status k a s).1 = i ∧
      (searchPid pid status k a s).2.processes =
        Function.update s.processes i { s.processes i with status := status, exited := true } ∧
      (searchPid pid status k a s).2.lastProcess = s.lastProcess := by
  induction k generalizing a s with
  | zero => omega
  | succ k ih =>
    by_cases ha : a = i
    · subst ha
      rw [searchPid, look_processes, if_pos hpid]
      exact ⟨rfl, rfl, rfl⟩
    · rw [searchPid, look_processes, if_neg (hfirst a (Nat.le_refl a) (by omega))]
      exact ih (a + 1) (s.look a) (by omega) (by omega) hpid
        fun j hj hji => hfirst j (by omega) hji

/-- A child with an entry is entered there as exited, and is not respawned if it exits with 2. -/
theorem reapChild_found (status : Int) (s : Pass) (hi : i < s.lastProcess) (hpid : (s.processes i).pid = pid)
    (hfirst : ∀ j < i, (s.processes j).pid ≠ pid) :
    ((reapChild pid status s).processes i).toProcess =
        exitedProcess status (s.processes i).toProcess ∧
      (∀ j, j ≠ i → (reapChild pid status s).processes j = s.processes j) ∧
      (reapChild pid status s).lastProcess = s.lastProcess := by
  obtain ⟨hend, hprocs, hlast⟩ := searchPid_found status s.lastProcess 0 s
    (Nat.zero_le i) (by omega) hpid fun j _ hj => hfirst j hj
  have hreap : reapChild pid status s = dropRespawn status
      (searchPid pid status s.lastProcess 0 s).1
      (countCoredump status (searchPid pid status s.lastProcess 0 s).2) := rfl
  rw [hreap, hend]
  generalize (searchPid pid status s.lastProcess 0 s).2 = s₁ at hprocs hlast
  obtain ⟨hcount, hcounted⟩ := countCoredump_spec status i s₁
  have hl := hcount.last
  generalize countCoredump status s₁ = s₂ at hcounted hl
  rw [hprocs] at hcounted
  have hself : s₂.processes i = { s.processes i with status := status, exited := true } := by
    rw [hcounted, Function.update_self]
  have hother : ∀ j, j ≠ i → s₂.processes j = s.processes j := by
    intro j hj
    rw [hcounted, Function.update_of_ne hj]
  unfold dropRespawn
  by_cases hw : wexitstatus status = 2
  · rw [if_pos hw]
    dsimp only
    rw [look_processes]
    split
    · refine ⟨?_, fun j hj => ?_, ?_⟩
      · rw [set_processes, if_pos rfl, hself]
        simp [exitedProcess, hw]
      · rw [set_processes, if_neg hj, look_processes, hother j hj]
      · rw [set_lastProcess, look_lastProcess, hl, hlast]
    · rename_i hr
      refine ⟨?_, fun j hj => ?_, ?_⟩
      · rw [hself] at hr
        have hr' : (s.processes i).respawn = false := by simpa using hr
        rw [look_processes, hself]
        simp [exitedProcess, hr']
      · rw [look_processes, hother j hj]
      · rw [look_lastProcess, hl, hlast]
  · rw [if_neg hw]
    refine ⟨?_, hother, hl.trans hlast⟩
    have hne : (wexitstatus status != 2) = true := by simpa using hw
    rw [hself]
    simp [exitedProcess, hne]

/-- What the handler can do to a process at all. -/
structure Lowered (p p' : Process) : Prop where
  pid : p'.pid = p.pid
  detached : p'.detached = p.detached
  exiting : p'.exiting = p.exiting
  exited : p.exited = true → p'.exited = true
  respawn : p'.respawn = true → p.respawn = true

theorem Lowered.refl (p : Process) : Lowered p p := ⟨rfl, rfl, rfl, id, id⟩

theorem Lowered.trans {p q r : Process} (h : Lowered p q) (h' : Lowered q r) : Lowered p r :=
  ⟨h'.pid.trans h.pid, h'.detached.trans h.detached, h'.exiting.trans h.exiting,
    fun he => h'.exited (h.exited he), fun hr => h.respawn (h'.respawn hr)⟩

theorem lowered_set {i : Nat} {p : Child} (h : Lowered (s.processes i).toProcess p.toProcess)
    (j : Nat) : Lowered (s.processes j).toProcess ((s.set i p).processes j).toProcess := by
  rw [set_processes]
  split
  · rename_i hj
    rw [hj]
    exact h
  · exact .refl _

theorem searchPid_lowered (pid status : Int) (k a : Nat) (s : Pass) (j : Nat) :
    Lowered (s.processes j).toProcess ((searchPid pid status k a s).2.processes j).toProcess := by
  induction k generalizing a s with
  | zero => exact .refl _
  | succ k ih =>
    rw [searchPid, look_processes]
    split
    · refine lowered_set ?_ j
      exact ⟨rfl, rfl, rfl, fun _ => rfl, id⟩
    · exact ih (a + 1) (s.look a)

theorem reapChild_lowered (pid status : Int) (s : Pass) (j : Nat) :
    Lowered (s.processes j).toProcess ((reapChild pid status s).processes j).toProcess := by
  have hreap : reapChild pid status s = dropRespawn status
      (searchPid pid status s.lastProcess 0 s).1
      (countCoredump status (searchPid pid status s.lastProcess 0 s).2) := rfl
  rw [hreap]
  refine (searchPid_lowered pid status s.lastProcess 0 s j).trans ?_
  generalize searchPid pid status s.lastProcess 0 s = r
  obtain ⟨-, hcounted⟩ := countCoredump_spec status r.1 r.2
  rw [← hcounted]
  unfold dropRespawn
  split
  · dsimp only
    split
    · show Lowered (((countCoredump status r.2).look r.1).processes j).toProcess _
      refine lowered_set ?_ j
      exact ⟨rfl, rfl, rfl, id, by simp⟩
    · exact .refl _
  · exact .refl _

/-- `process_get_status` in the whole state. -/
theorem getStatus_lowered (waits : List Wait) (s : Supervisor) (j : Nat) :
    Lowered (s.m.processes j) ((getStatus waits s).m.processes j) := by
  have hfold : ∀ (rs : List (Int × Int)) (p : Pass), Lowered (p.processes j).toProcess
      ((rs.foldl (fun s r => reapChild r.1 r.2 s) p).processes j).toProcess := by
    intro rs
    induction rs with
    | nil => intro p; exact .refl _
    | cons r rs ih => intro p; exact (reapChild_lowered r.1 r.2 p j).trans (ih _)
  unfold getStatus
  dsimp only
  rw [processGetStatus_eq]
  exact hfold (returned waits) ⟨fun i => { toProcess := s.m.processes i, status := s.status i },
    s.m.lastProcess, s.numCoredump, []⟩

end Status

/-! ## One signal -/

theorem wait_lawful {k : Kids} {pid : Int} (h : (k.wait pid).lawful = true) : k.lawful = true ∧ pid ∈ k.pids := by
  simpa [Kids.wait] using h

theorem waits_lawful {rs : List (Int × Int)} {k : Kids}
    (h : (rs.foldl (fun k r => k.wait r.1) k).lawful = true) :
    k.lawful = true ∧ ∀ r ∈ rs, r.1 ∈ k.pids := by
  induction rs generalizing k with
  | nil => exact ⟨h, by simp⟩
  | cons r rs ih =>
    obtain ⟨hk, hrs⟩ := ih h
    obtain ⟨hk, hr⟩ := wait_lawful hk
    refine ⟨hk, fun r' hr' => ?_⟩
    rcases List.mem_cons.1 hr' with rfl | hr'
    · exact hr
    · exact List.mem_of_mem_erase (hrs r' hr')


/-- What signals leave alone. The flags are set, never cleared. -/
structure Signalled (s s' : Supervisor) : Prop where
  slots : ∀ j, Lowered (s.m.processes j) (s'.m.processes j)
  last : s'.m.lastProcess = s.m.lastProcess
  newBinary : s'.m.newBinary = s.m.newBinary
  noaccepting : s'.m.noaccepting = s.m.noaccepting
  restart : s'.m.restart = s.m.restart
  terminate : s.m.terminate = true → s'.m.terminate = true
  quit : s.m.quit = true → s'.m.quit = true
  reap : s.flags.reap = true → s'.flags.reap = true
  just : s'.justSpawn = s.justSpawn
  locals : s'.locals = s.locals
  kills : s'.kills = s.kills
  stopped : s'.stopped = s.stopped
  pids : s'.kids.pids.Sublist s.kids.pids
  lawful : s'.kids.lawful = true → s.kids.lawful = true

theorem Signalled.refl (s : Supervisor) : Signalled s s :=
  ⟨fun _ => .refl _, rfl, rfl, rfl, rfl, id, id, id, rfl, rfl, rfl, rfl, .refl _, id⟩

theorem Signalled.trans {s s' s'' : Supervisor} (h : Signalled s s') (h' : Signalled s' s'') :
    Signalled s s'' where
  slots := fun j => (h.slots j).trans (h'.slots j)
  last := h'.last.trans h.last
  newBinary := h'.newBinary.trans h.newBinary
  noaccepting := h'.noaccepting.trans h.noaccepting
  restart := h'.restart.trans h.restart
  terminate := fun ht => h'.terminate (h.terminate ht)
  quit := fun hq => h'.quit (h.quit hq)
  reap := fun hr => h'.reap (h.reap hr)
  just := h'.just.trans h.just
  locals := h'.locals.trans h.locals
  kills := h'.kills.trans h.kills
  stopped := h'.stopped.trans h.stopped
  pids := h'.pids.trans h.pids
  lawful := fun hl => h.lawful (h'.lawful hl)

theorem wait_sublist (rs : List (Int × Int)) (k : Kids) :
    (rs.foldl (fun k r => k.wait r.1) k).pids.Sublist k.pids := by
  induction rs generalizing k with
  | nil => exact .refl _
  | cons r rs ih => exact (ih _).trans List.erase_sublist

theorem getStatus_signalled (waits : List Wait) (s : Supervisor) :
    Signalled s (getStatus waits s) where
  slots := getStatus_lowered waits s
  last := rfl
  newBinary := rfl
  noaccepting := rfl
  restart := rfl
  terminate := id
  quit := id
  reap := id
  just := rfl
  locals := rfl
  kills := rfl
  stopped := rfl
  pids := wait_sublist (returned waits) s.kids
  lawful := fun hl => (waits_lawful hl).1

theorem signalHandler_signalled (s : Supervisor) (d : Delivery) :
    Signalled s (signalHandler s d) := by
  have hflags : ∀ f : Flags, (s.flags.reap = true → f.reap = true) →
      Signalled s { s with flags := f } := fun f hf =>
    ⟨fun _ => .refl _, rfl, rfl, rfl, rfl, id, id, hf, rfl, rfl, rfl, rfl, .refl _, id⟩
  cases d with
  | shutdown =>
    exact ⟨fun _ => .refl _, rfl, rfl, rfl, rfl, id, fun _ => rfl, id, rfl, rfl, rfl, rfl, .refl _, id⟩
  | terminate =>
    exact ⟨fun _ => .refl _, rfl, rfl, rfl, rfl, fun _ => rfl, id, id, rfl, rfl, rfl, rfl, .refl _, id⟩
  | reconfigure | reopen | alarm | io => exact hflags _ id
  | noaccept | changeBinary ppid =>
    simp only [signalHandler]
    split
    · exact hflags _ id
    · exact hflags _ id
  | child waits =>
    exact (hflags { s.flags with reap := true } fun _ => rfl).trans (getStatus_signalled waits _)

theorem exec_signalHandler (ds : List Delivery) (s : Supervisor) :
    Signalled s (Run.exec signalHandler s ds) := by
  induction ds generalizing s with
  | nil => exact .refl s
  | cons d ds ih => exact (signalHandler_signalled s d).trans (ih _)

/-- A `SIGCHLD` leaves `g_reap` set. -/
theorem exec_reap {ds : List Delivery} {waits : List Wait} (h : .child waits ∈ ds)
    (s : Supervisor) : (Run.exec signalHandler s ds).flags.reap = true := by
  induction ds generalizing s with
  | nil => cases h
  | cons d ds ih =>
    rcases List.mem_cons.1 h with rfl | h
    · exact (exec_signalHandler ds (signalHandler s (.child waits))).reap rfl
    · exact ih h _

/-! ## What starting processes leaves alone -/

theorem startProcess_loop (kind : Respawn) (answer : Spawn) (s : Supervisor) :
    SameLoop s (startProcess kind s answer) :=
  (spawnKind_loop kind answer s).trans ⟨rfl, rfl, rfl, rfl, rfl, rfl⟩

theorem startAll_loop (cfg : Settings) (kind : Respawn) (env : Env) (s : Supervisor) :
    SameLoop s (startAll cfg kind env s) := by
  have hworkers : SameLoop s (startWorkerProcesses cfg kind env.workers s) := by
    unfold startWorkerProcesses
    generalize (List.range cfg.numProcesses).map env.workers = answers
    induction answers generalizing s with
    | nil => exact .refl s
    | cons a answers ih => exact (startProcess_loop kind a s).trans (ih _)
  exact (hworkers.trans (startProcess_loop kind env.monitor _)).trans ⟨rfl, rfl, rfl, rfl, rfl, rfl⟩

theorem execNewBinary_loop (answer : Option Spawn) (s : Supervisor) :
    SameLoop s (execNewBinary answer s) := by
  cases answer with
  | none => exact ⟨rfl, rfl, rfl, rfl, rfl, rfl⟩
  | some answer =>
    exact (spawnKind_loop .detached answer s).trans ⟨rfl, rfl, rfl, rfl, rfl, rfl⟩

/-! ## What every call keeps -/

/-- `P` speaks of the table, of `just_spawn` and of the children only, and every call that changes
these keeps it. -/
structure Kept (P : Supervisor → Prop) : Prop where
  congr : ∀ s s', P s → s'.m.processes = s.m.processes → s'.m.lastProcess = s.m.lastProcess →
    s'.justSpawn = s.justSpawn → s'.kids = s.kids → P s'
  spawn : ∀ s kind answer, P s → P (spawnKind kind answer s)
  slot : ∀ s signo told i, i < s.m.lastProcess → P s → P (signalSlot signo told s i)
  status : ∀ s waits, P s → P (getStatus waits s)
  reap : ∀ s env, P s → P (reapTurn env s)

namespace Kept

variable {P : Supervisor → Prop} {s : Supervisor}

theorem startAll (h : Kept P) (cfg : Settings) (kind : Respawn) (env : Env) (hs : P s) :
    P (startAll cfg kind env s) := by
  have hone : ∀ s answer, P s → P (startProcess kind s answer) :=
    fun s answer hs => h.congr _ _ (h.spawn s kind answer hs) rfl rfl rfl rfl
  have hworkers : P (startWorkerProcesses cfg kind env.workers s) := by
    unfold startWorkerProcesses
    generalize (List.range cfg.numProcesses).map env.workers = answers
    induction answers generalizing s with
    | nil => exact hs
    | cons a answers ih => exact ih (hone s a hs)
  exact h.congr _ _ (hone _ env.monitor hworkers) rfl rfl rfl rfl

theorem execNewBinary (h : Kept P) (answer : Option Spawn) (hs : P s) :
    P (execNewBinary answer s) := by
  cases answer with
  | none => exact h.congr _ _ hs rfl rfl rfl rfl
  | some answer => exact h.congr _ _ (h.spawn s .detached answer hs) rfl rfl rfl rfl

theorem signalWorkerProcesses (h : Kept P) (signo : Signo) (told : Answers) (hs : P s) :
    P (signalWorkerProcesses signo told s) := by
  unfold ProcessCycle.signalWorkerProcesses
  have hl : ∀ i ∈ List.range s.m.lastProcess, i < s.m.lastProcess := fun i hi => List.mem_range.1 hi
  generalize List.range s.m.lastProcess = l at hl
  induction l generalizing s with
  | nil => exact hs
  | cons a l ih =>
    refine ih (h.slot s signo told a (hl a List.mem_cons_self) hs) fun i hi => ?_
    rw [(signalSlot_told signo told s a).2.last]
    exact hl i (List.mem_cons_of_mem _ hi)

theorem signalHandler (h : Kept P) (d : Delivery) (hs : P s) : P (signalHandler s d) := by
  cases d with
  | shutdown | terminate | reconfigure | reopen | alarm | io =>
    exact h.congr _ _ hs rfl rfl rfl rfl
  | noaccept | changeBinary ppid =>
    simp only [ProcessCycle.signalHandler]
    split
    · exact h.congr _ _ hs rfl rfl rfl rfl
    · exact h.congr _ _ hs rfl rfl rfl rfl
  | child waits => exact h.status _ waits (h.congr _ _ hs rfl rfl rfl rfl)

theorem suspend (h : Kept P) (ds : List Delivery) (hs : P s) :
    P (Run.exec ProcessCycle.signalHandler s ds) := by
  induction ds generalizing s with
  | nil => exact hs
  | cons d ds ih => exact ih (h.signalHandler d hs)

theorem loopTop (h : Kept P) (hs : P s) : P (loopTop s) := by
  unfold ProcessCycle.loopTop
  dsimp only
  split <;> split <;> exact h.congr _ _ hs rfl rfl rfl rfl

theorem wake (h : Kept P) (env : Env) (hs : P s) : P (wake env s) :=
  h.reap _ env (h.suspend env.signals (h.loopTop hs))

theorem terminateTurn (h : Kept P) (cfg : Settings) (env : Env) (hs : P s) :
    P (terminateTurn cfg env s) := by
  unfold ProcessCycle.terminateTurn
  dsimp only
  split
  · exact h.congr _ _ hs rfl rfl rfl rfl
  · split
    · exact h.congr _ _ hs rfl rfl rfl rfl
    · split
      · exact h.signalWorkerProcesses _ _ (h.congr _ _ hs rfl rfl rfl rfl)
      · exact h.signalWorkerProcesses _ _ (h.congr _ _ hs rfl rfl rfl rfl)

theorem reconfigureTurn (h : Kept P) (cfg : Settings) (env : Env) (hs : P s) :
    P (reconfigureTurn cfg env s) := by
  have hnow : P { s with
      flags := { s.flags with reconfigure := false }
      locals := { s.locals with lastReconfig := env.now } } := h.congr _ _ hs rfl rfl rfl rfl
  unfold ProcessCycle.reconfigureTurn
  dsimp only
  split
  · exact h.congr _ _ hs rfl rfl rfl rfl
  · split
    · exact h.congr _ _ (h.startAll cfg .respawn env hnow) rfl rfl rfl rfl
    · split
      · split
        · exact h.congr _ _ (h.startAll cfg .justRespawn env hnow) rfl rfl rfl rfl
        · exact h.startAll cfg .justRespawn env hnow
      · exact h.congr _ _ hs rfl rfl rfl rfl

theorem alarmTurn (h : Kept P) (env : Env) (hs : P s) : P (alarmTurn env s) := by
  unfold ProcessCycle.alarmTurn
  split
  · exact h.signalWorkerProcesses _ _ (h.congr _ _ hs rfl rfl rfl rfl)
  · exact hs

theorem restartTurn (h : Kept P) (cfg : Settings) (env : Env) (hs : P s) :
    P (restartTurn cfg env s) := by
  unfold ProcessCycle.restartTurn
  split
  · have hflag : P { s with m := { s.m with restart := false } } := h.congr _ _ hs rfl rfl rfl rfl
    exact h.congr _ _ (h.startAll cfg .respawn env hflag) rfl rfl rfl rfl
  · exact hs

theorem changeBinaryTurn (h : Kept P) (env : Env) (hs : P s) : P (changeBinaryTurn env s) := by
  unfold ProcessCycle.changeBinaryTurn
  split
  · exact h.execNewBinary _ (h.congr _ _ hs rfl rfl rfl rfl)
  · exact hs

theorem noacceptTurn (h : Kept P) (env : Env) (hs : P s) : P (noacceptTurn env s) := by
  unfold ProcessCycle.noacceptTurn
  split
  · exact h.signalWorkerProcesses _ _ (h.congr _ _ hs rfl rfl rfl rfl)
  · exact hs

/-- One round. -/
theorem turn (h : Kept P) (cfg : Settings) (env : Env) (hs : P s) : P (turn cfg s env) := by
  unfold ProcessCycle.turn
  split
  · exact hs
  · have hw := h.wake env hs
    unfold act
    split
    · exact h.congr _ _ hw rfl rfl rfl rfl
    · split
      · exact h.terminateTurn cfg env hw
      · split
        · exact h.signalWorkerProcesses _ _ hw
        · split
          · exact h.reconfigureTurn cfg env hw
          · exact h.noacceptTurn env (h.changeBinaryTurn env (h.restartTurn cfg env
              (h.alarmTurn env hw)))

/-- The rule for runs of the master. -/
theorem run (h : Kept P) (cfg : Settings) (daemonized : Bool) (start : Env) (envs : List Env)
    (h0 : P { m := World.init.m, daemonized := daemonized }) :
    P (masterProcessCycle cfg daemonized start envs) := by
  unfold masterProcessCycle masterStart
  have hs := h.startAll cfg .respawn start h0
  generalize ProcessCycle.startAll cfg .respawn start
    { m := World.init.m, daemonized := daemonized } = s at hs
  induction envs generalizing s with
  | nil => exact hs
  | cons env envs ih => exact ih _ (h.turn cfg env hs)

end Kept

end ProcessCycle
end Shs
