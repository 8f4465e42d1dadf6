import Shs.Process.Shutdown

/-!
# Process.Reload

The workers over runs of the master. A slot that serves, that is whose process is to be respawned
and has not been told to exit, goes on serving through exits and failing respawns. A reload starts a
generation beside the old one and marks it by `just_spawn`; the alarm that ends it tells the old
generation to quit and passes over the new one.
-/

namespace Shs
namespace ProcessCycle

/-- The slot holds a process. -/
def Used (m : Master) (i : Nat) : Prop := i < m.lastProcess ∧ (m.processes i).pid ≠ -1

/-- The slot is to hold a process for good. -/
structure Serving (m : Master) (i : Nat) : Prop where
  used : Used m i
  respawn : (m.processes i).respawn = true
  exiting : (m.processes i).exiting = false

/-! ## Signals -/

section Signals

variable {s : Supervisor} {i : Nat}

/-- `waitpid` names no process of slot `i` that has exited with 2. -/
def NotFatal (i : Nat) (s : Supervisor) (ds : List Delivery) : Prop :=
  ∀ waits, .child waits ∈ ds → ∀ r ∈ returned waits, r.1 = (s.m.processes i).pid →
    wexitstatus r.2 ≠ 2

/-- What becomes of one entry while children are waited for. -/
theorem foldl_slot {m : Master} {k : Kids} (rs : List (Int × Int)) (p : Pass)
    (hm : Known (m.take p) k) (hl : m.lastProcess = p.lastProcess)
    (hlaw : (rs.foldl (fun k r => k.wait r.1) k).lawful = true) (j : Nat) :
    ((rs.foldl (fun s r => reapChild r.1 r.2 s) p).processes j).toProcess =
        (p.processes j).toProcess ∨
      ∃ status, ((p.processes j).pid, status) ∈ rs ∧
        ((rs.foldl (fun s r => reapChild r.1 r.2 s) p).processes j).toProcess =
          exitedProcess status (p.processes j).toProcess := by
  induction rs generalizing p k with
  | nil => exact .inl rfl
  | cons r rs ih =>
    have hmem := (waits_lawful hlaw).2 r List.mem_cons_self
    obtain ⟨i, -, hpid, hself, hothers, hlast, hknown⟩ := hm.reapChild hl hmem r.2
    have hrest := ih (reapChild r.1 r.2 p) hknown hlast hlaw
    rw [List.foldl_cons]
    by_cases hji : j = i
    · subst hji
      rw [hself] at hrest
      rcases hrest with hsame | ⟨status, hin, -⟩
      · exact .inr ⟨r.2, by rw [hpid]; exact List.mem_cons_self, hsame⟩
      · -- a child is waited for only once
        rw [show (exitedProcess r.2 (p.processes j).toProcess).pid = r.1 from hpid] at hin
        have hgone := (waits_lawful (k := k.wait r.1) hlaw).2 _ hin
        exact absurd rfl ((List.Nodup.mem_erase_iff hm.nodup).1 hgone).1
    · rw [hothers j hji] at hrest
      rcases hrest with hsame | ⟨status, hin, heq⟩
      · exact .inl hsame
      · exact .inr ⟨status, List.mem_cons_of_mem _ hin, heq⟩

theorem Serving.getStatus {waits : List Wait} (h : Serving s.m i) (ht : Tracked s)
    (hlaw : (getStatus waits s).kids.lawful = true)
    (hf : ∀ r ∈ returned waits, r.1 = (s.m.processes i).pid → wexitstatus r.2 ≠ 2) :
    Serving (getStatus waits s).m i := by
  have hlow := getStatus_lowered waits s i
  refine ⟨⟨h.used.1, by rw [hlow.pid]; exact h.used.2⟩, ?_, hlow.exiting.trans h.exiting⟩
  rw [getStatus_kids] at hlaw
  have hslot := foldl_slot (returned waits) s.pass (ht (waits_lawful hlaw).1) rfl hlaw i
  rw [getStatus_m]
  show ((List.foldl (fun s r => reapChild r.1 r.2 s) s.pass
    (returned waits)).processes i).toProcess.respawn = true
  rcases hslot with hsame | ⟨status, hin, heq⟩
  · rw [hsame]
    exact h.respawn
  · rw [heq]
    have hne := hf _ hin rfl
    show ((s.m.processes i).respawn && wexitstatus status != 2) = true
    rw [h.respawn]
    simpa using hne

theorem exec_lawful (ds : List Delivery) (s : Supervisor)
    (hlaw : (Run.exec signalHandler s ds).kids.lawful = true) : s.kids.lawful = true :=
  (exec_signalHandler ds s).lawful hlaw

/-- A slot goes on serving through signals, unless its process exits with 2. -/
theorem Serving.signals (ds : List Delivery) (h : Serving s.m i) (ht : Tracked s)
    (hlaw : (Run.exec signalHandler s ds).kids.lawful = true) (hf : NotFatal i s ds) :
    Serving (Run.exec signalHandler s ds).m i := by
  induction ds generalizing s with
  | nil => exact h
  | cons d ds ih =>
    have hsig := signalHandler_signalled s d
    have hlaw' : (signalHandler s d).kids.lawful = true := exec_lawful ds _ hlaw
    have hone : Serving (signalHandler s d).m i := by
      cases d with
      | shutdown | terminate | reconfigure | reopen | alarm | io =>
        exact ⟨h.used, h.respawn, h.exiting⟩
      | noaccept | changeBinary ppid =>
        simp only [signalHandler]
        split
        · exact h
        · exact h
      | child waits =>
        exact Serving.getStatus h (kept_tracked.congr _ _ ht rfl rfl rfl rfl) hlaw'
          (hf waits List.mem_cons_self)
    refine ih hone (kept_tracked.signalHandler d ht) hlaw fun waits hw r hr hp => ?_
    rw [(hsig.slots i).pid] at hp
    exact hf waits (List.mem_cons_of_mem _ hw) r hr hp

end Signals

/-! ## The reaper -/

section Reaper

variable {s : Supervisor} {i : Nat}

theorem Serving.slot {spawns : Nat → Spawn} {a : Nat} {r : Reap} {k : Kids}
    (h : Serving r.m i) (ha : a < r.m.lastProcess) (ht : r.m.terminate = false)
    (hq : r.m.quit = false)
    (hlaw : (if respawns (r.m.processes a) r.m then k.fork a r.m (spawns a) else k).lawful = true) :
    Serving (reapSlot spawns a r).m i ∧
      (reapSlot spawns a r).m.terminate = false ∧ (reapSlot spawns a r).m.quit = false ∧
      (a ≠ i → (reapSlot spawns a r).m.processes i = r.m.processes i) ∧
      (a = i → (spawns i).isChild = true →
        ((reapSlot spawns a r).m.processes i).exited = false) := by
  obtain ⟨live, hcase, -⟩ := reapSlot_cases spawns a r
  cases hcase with
  | kept hslot hm _ =>
    rw [hm]
    refine ⟨h, ht, hq, fun _ => rfl, fun hai _ => ?_⟩
    subst hai
    have hp : ((r.m.processes a).pid != -1) = true := by simpa using h.used.2
    simpa [reaped, hp] using hslot
  | respawned hslot pid c hanswer _ hlast hentry =>
    rw [if_pos hslot, hanswer] at hlaw
    have hpos := (fork_lawful hlaw).2.1
    refine ⟨?_, hentry.terminate.trans ht, hentry.quit.trans hq, fun hai => hentry.others i (Ne.symm hai),
      fun hai _ => ?_⟩
    · by_cases hai : i = a
      · subst hai
        refine ⟨⟨hlast ▸ h.used.1, ?_⟩, ?_, ?_⟩
        · rw [hentry.slot]
          show pid ≠ -1
          omega
        · rw [hentry.slot]
          exact h.respawn
        · rw [hentry.slot]
          exact h.exiting
      · refine ⟨⟨hlast ▸ h.used.1, ?_⟩, ?_, ?_⟩ <;> rw [hentry.others i hai]
        exacts [h.used.2, h.respawn, h.exiting]
    · subst hai
      rw [hentry.slot]
  | failed hslot hanswer _ hlast c hentry =>
    refine ⟨?_, hentry.terminate.trans ht, hentry.quit.trans hq, fun hai => hentry.others i (Ne.symm hai),
      fun hai hc => ?_⟩
    · by_cases hai : i = a
      · subst hai
        refine ⟨⟨hlast ▸ h.used.1, ?_⟩, ?_, ?_⟩ <;> rw [hentry.slot]
        exacts [h.used.2, h.respawn, h.exiting]
      · refine ⟨⟨hlast ▸ h.used.1, ?_⟩, ?_, ?_⟩ <;> rw [hentry.others i hai]
        exacts [h.used.2, h.respawn, h.exiting]
    · subst hai
      rw [hanswer] at hc
      cases hc
  | dropped hslot hno _ hothers hgone _ _ hterminate hquit =>
    have hai : i ≠ a := by
      rintro rfl
      have hex : (r.m.processes i).exited = true := by
        simp only [reaped, Bool.and_eq_true] at hslot
        exact hslot.2
      have hp : ((r.m.processes i).pid != -1) = true := by simpa using h.used.2
      simp [respawns, hp, hex, h.respawn, h.exiting, ht, hq] at hno
    refine ⟨⟨⟨?_, ?_⟩, ?_, ?_⟩, hterminate.trans ht, hquit.trans hq, fun _ => hothers i hai,
      fun he => absurd he.symm hai⟩
    · have := h.used.1
      rcases hgone with ⟨_, hlast⟩ | ⟨_, hlast, _⟩ <;> omega
    all_goals rw [hothers i hai]
    exacts [h.used.2, h.respawn, h.exiting]

theorem ite_fork_lawful {k : Kids} {b : Bool} {a : Nat} {m : Master} {answer : Spawn}
    (h : (if b then k.fork a m answer else k).lawful = true) : k.lawful = true := by
  cases b with
  | true => exact fork_lawful_of answer h
  | false => exact h

/-- A slot goes on serving through the reaper, and its process runs behind it if the kernel has
given one. -/
theorem Serving.reapTurn (h : Serving s.m i) (env : Env) (ht : s.m.terminate = false)
    (hq : s.m.quit = false) (hlaw : (reapTurn env s).kids.lawful = true) :
    Serving (reapTurn env s).m i ∧
      (s.flags.reap = true → (env.respawns i).isChild = true →
        ((reapTurn env s).m.processes i).exited = false) := by
  unfold ProcessCycle.reapTurn at hlaw ⊢
  split at hlaw
  · rename_i hreap
    rw [if_pos hreap]
    have hstep : ∀ a r (k : Kids), a < r.m.lastProcess →
        (k.lawful = true → Serving r.m i ∧ r.m.terminate = false ∧ r.m.quit = false ∧
          (i < a → (env.respawns i).isChild = true → (r.m.processes i).exited = false)) →
        (if respawns (r.m.processes a) r.m then k.fork a r.m (env.respawns a) else k).lawful = true →
          Serving (reapSlot env.respawns a r).m i ∧
          (reapSlot env.respawns a r).m.terminate = false ∧
          (reapSlot env.respawns a r).m.quit = false ∧
          (i < a + 1 → (env.respawns i).isChild = true →
            ((reapSlot env.respawns a r).m.processes i).exited = false) := by
      intro a r k ha hP hl
      obtain ⟨hserve, hterm, hquit, hdone⟩ := hP (ite_fork_lawful hl)
      obtain ⟨hserve', hterm', hquit', hother, hself⟩ := hserve.slot ha hterm hquit hl
      refine ⟨hserve', hterm', hquit', fun hia hc => ?_⟩
      by_cases hai : a = i
      · exact hself hai hc
      · rw [hother hai]
        exact hdone (by omega) hc
    obtain ⟨i', hle, hend⟩ := reapLoop_rule s.m.lastProcess hstep 0 (startReap s.m) s.kids
      (fun _ => ⟨h, ht, hq, fun hi => absurd hi (Nat.not_lt_zero i)⟩)
      (Nat.le_of_eq (Nat.zero_add _).symm)
    obtain ⟨hserve, -, -, hdone⟩ := hend hlaw
    exact ⟨hserve, fun _ hc => hdone (Nat.lt_of_lt_of_le hserve.used.1 hle) hc⟩
  · rename_i hreap
    rw [if_neg hreap]
    exact ⟨h, fun hr => absurd hr hreap⟩

theorem reapLoopKids_lawful {spawns : Nat → Spawn} (n a : Nat) (r : Reap) (k : Kids)
    (h : (reapLoopKids spawns n a r k).lawful = true) : k.lawful = true := by
  induction n generalizing a r k with
  | zero => exact h
  | succ n ih =>
    rw [reapLoopKids] at h
    split at h
    · exact ite_fork_lawful (ih _ _ _ h)
    · exact h

theorem reapTurn_lawful (env : Env) (h : (reapTurn env s).kids.lawful = true) :
    s.kids.lawful = true := by
  unfold reapTurn at h
  split at h
  · exact reapLoopKids_lawful _ _ _ _ h
  · exact h

end Reaper

/-! ## Rounds in which nothing else happens -/

section Calm

variable {s : Supervisor} {i : Nat}

/-- The round has nothing to do but signals and the reaper. -/
structure Quiet (s : Supervisor) (env : Env) : Prop where
  running : s.stopped = false
  terminate : (wake env s).m.terminate = false
  quit : (wake env s).m.quit = false
  reconfigure : (wake env s).flags.reconfigure = false
  alarm : ¬ ((wake env s).locals.delayShutdownProcess = true ∧
    (wake env s).flags.sigalrm = true)
  restart : (wake env s).m.restart = false
  changeBinary : (wake env s).flags.changeBinary = false
  noaccept : (wake env s).flags.noaccept = false

theorem Quiet.turn_eq {env : Env} (h : Quiet s env) (cfg : Settings) :
    turn cfg s env = wake env s := by
  have hlate : noacceptTurn env (changeBinaryTurn env (restartTurn cfg env (alarmTurn env
      (wake env s)))) = wake env s := by
    rw [alarmTurn, if_neg h.alarm, restartTurn, if_neg (by simp [h.restart]), changeBinaryTurn,
      if_neg (by simp [h.changeBinary]), noacceptTurn, if_neg (by simp [h.noaccept])]
  rw [turn, if_neg (by simp [h.running]), act, if_neg (by simp [h.terminate, h.quit]),
    if_neg (by simp [h.terminate]), if_neg (by simp [h.quit]), if_neg (by simp [h.reconfigure]),
    hlate]

/-- A quiet round in which the process of slot `i` does not exit with 2. -/
structure Calm (i : Nat) (s : Supervisor) (env : Env) : Prop where
  quiet : Quiet s env
  notFatal : NotFatal i s env.signals

/-- The reaper leaves the flags for the end as they are. -/
theorem reapTurn_flags {env : Env} (h : (reapTurn env s).m.terminate = false ∧
    (reapTurn env s).m.quit = false) : s.m.terminate = false ∧ s.m.quit = false := by
  cases hshut : s.shutting with
  | false =>
    simpa [Supervisor.shutting] using hshut
  | true =>
    have hkeep : (reapTurn env s).m.terminate = s.m.terminate ∧
        (reapTurn env s).m.quit = s.m.quit := by
      unfold reapTurn
      split
      · have hr := (reapLoop_shutting env.respawns s.m s.kids hshut).1
        exact ⟨hr.terminate, hr.quit⟩
      · exact ⟨rfl, rfl⟩
    rw [hkeep.1, hkeep.2] at h
    exact h

/-- A slot goes on serving up to the first test of what to do. -/
theorem Serving.wake {env : Env} (h : Serving s.m i) (htracked : Tracked s)
    (ht : (wake env s).m.terminate = false) (hq : (wake env s).m.quit = false)
    (hlaw : (wake env s).kids.lawful = true) (hf : NotFatal i s env.signals) :
    Serving (wake env s).m i ∧
      (∀ waits, .child waits ∈ env.signals → (env.respawns i).isChild = true →
        ((ProcessCycle.wake env s).m.processes i).exited = false) := by
  obtain ⟨htop, -, -, -, -⟩ := loopTop_same s
  have hu := reapTurn_flags ⟨ht, hq⟩
  have hs := Serving.signals env.signals (htop ▸ h) (kept_tracked.loopTop htracked)
    (reapTurn_lawful env hlaw) (by
      intro waits hw r hr hp
      rw [htop] at hp
      exact hf waits hw r hr hp)
  obtain ⟨hserve, hdone⟩ := hs.reapTurn env hu.1 hu.2 hlaw
  exact ⟨hserve, fun waits hw hc => hdone (exec_reap hw _) hc⟩

/-- Runs of calm rounds. -/
theorem Serving.run (cfg : Settings) {envs : List Env} (h : Serving s.m i) (ht : Tracked s)
    (hcalm : Run.Meets (turn cfg) (Calm i) s envs)
    (hlaw : (Run.exec (turn cfg) s envs).kids.lawful = true) :
    Serving (Run.exec (turn cfg) s envs).m i := by
  induction envs using List.reverseRecOn with
  | nil => exact h
  | append_singleton envs env ih =>
    rw [Run.exec_concat] at hlaw ⊢
    have hlast := hcalm.last (turn cfg)
    have heq := hlast.quiet.turn_eq cfg
    have htrack : Tracked (Run.exec (turn cfg) s envs) :=
      Run.invariant (turn cfg) ht (fun s env hs _ => kept_tracked.turn cfg env hs) hcalm.pre
    rw [heq] at hlaw ⊢
    have hbefore : (Run.exec (turn cfg) s envs).kids.lawful = true := by
      have h₁ := exec_lawful _ _ (reapTurn_lawful env hlaw)
      rwa [(loopTop_same _).2.1] at h₁
    exact (Serving.wake (ih hcalm.pre hbefore) htrack hlast.quiet.terminate
      hlast.quiet.quit hlaw hlast.notFatal).1

end Calm

/-- However many exits and failing respawns there have been: in a run of calm rounds a slot goes on
serving, and behind a `SIGCHLD` for which the kernel gives it a new process it has a child. -/
theorem worker_restored (cfg : Settings) (daemonized : Bool) (start : Env) (envs₀ envs : List Env)
    (i : Nat) (hserve : Serving (masterProcessCycle cfg daemonized start envs₀).m i)
    (hcalm : Run.Meets (turn cfg) (Calm i) (masterProcessCycle cfg daemonized start envs₀) envs)
    (s : Supervisor) (hs : s = masterProcessCycle cfg daemonized start (envs₀ ++ envs))
    (hlaw : s.kids.lawful = true) :
    Serving s.m i ∧
      ∀ pre env waits, envs = pre ++ [env] → .child waits ∈ env.signals →
        (env.respawns i).isChild = true → (s.m.processes i).pid ∈ s.kids.pids := by
  have hknown : Known s.m s.kids := by
    subst hs
    exact tracked_run cfg daemonized start _ hlaw
  have htrack := tracked_run cfg daemonized start envs₀
  have hsplit : s = Run.exec (turn cfg) (masterProcessCycle cfg daemonized start envs₀) envs :=
    hs.trans (Run.exec_append _ _ _ _)
  generalize masterProcessCycle cfg daemonized start envs₀ = s₀ at *
  have hrun : Serving s.m i := by
    rw [hsplit] at hlaw ⊢
    exact hserve.run cfg htrack hcalm hlaw
  refine ⟨hrun, fun pre env waits henvs hchild hfork =>
    hknown.child i hrun.used.1 hrun.used.2 ?_⟩
  -- the last round: the reaper has come to the slot
  subst henvs
  have hlast := hcalm.last (turn cfg)
  rw [Run.exec_concat, hlast.quiet.turn_eq cfg] at hsplit
  subst hsplit
  have hbefore : (Run.exec (turn cfg) s₀ pre).kids.lawful = true := by
    have h₁ := exec_lawful _ _ (reapTurn_lawful env hlaw)
    rwa [(loopTop_same _).2.1] at h₁
  have htrack' : Tracked (Run.exec (turn cfg) s₀ pre) :=
    Run.invariant (turn cfg) htrack (fun s env hs _ => kept_tracked.turn cfg env hs) hcalm.pre
  exact (Serving.wake (hserve.run cfg htrack hcalm.pre hbefore) htrack' hlast.quiet.terminate
    hlast.quiet.quit hlaw hlast.notFatal).2 waits hchild hfork

/-- What `waitpid` answers to the handler of a signal. -/
def Delivery.waits : Delivery → List Wait
  | .child waits => waits
  | _ => []

theorem notFatal_iff (i : Nat) (s : Supervisor) (ds : List Delivery) :
    (∀ d ∈ ds, ∀ r ∈ returned d.waits, r.1 = (s.m.processes i).pid → wexitstatus r.2 ≠ 2) ↔
      NotFatal i s ds := by
  constructor
  · intro h waits hw
    exact h _ hw
  · intro h d hd
    cases d with
    | child waits => exact h waits hd
    | _ => intro r hr; cases hr

instance (i : Nat) (s : Supervisor) (ds : List Delivery) : Decidable (NotFatal i s ds) :=
  decidable_of_iff _ (notFatal_iff i s ds)

instance (s : Supervisor) (env : Env) : Decidable (Quiet s env) :=
  decidable_of_iff (s.stopped = false ∧ (wake env s).m.terminate = false ∧
    (wake env s).m.quit = false ∧ (wake env s).flags.reconfigure = false ∧
    ¬ ((wake env s).locals.delayShutdownProcess = true ∧ (wake env s).flags.sigalrm = true) ∧
    (wake env s).m.restart = false ∧ (wake env s).flags.changeBinary = false ∧
    (wake env s).flags.noaccept = false)
    ⟨fun ⟨a, b, c, d, e, f, g, h⟩ => ⟨a, b, c, d, e, f, g, h⟩,
      fun ⟨a, b, c, d, e, f, g, h⟩ => ⟨a, b, c, d, e, f, g, h⟩⟩

instance (i : Nat) (s : Supervisor) (env : Env) : Decidable (Calm i s env) :=
  decidable_of_iff (Quiet s env ∧ NotFatal i s env.signals)
    ⟨fun ⟨a, b⟩ => ⟨a, b⟩, fun ⟨a, b⟩ => ⟨a, b⟩⟩

/-- The first worker exits, the fork for its respawn fails, and the next `SIGCHLD` makes good. -/
def failingEnv : Env :=
  { quietEnv with signals := [.child [.child 100 0, .nothing]], respawns := fun _ => .noFork (20, 21) }

def nextEnv : Env := { quietEnv with signals := [.child [.nothing]] }

theorem worker_restored_late :
    let s := masterProcessCycle ⟨2, false⟩ true quietEnv ([] ++ ([failingEnv] ++ [nextEnv]))
    Serving s.m 0 ∧ (s.m.processes 0).pid ∈ s.kids.pids :=
  have h := worker_restored ⟨2, false⟩ true quietEnv [] ([failingEnv] ++ [nextEnv]) 0
    ⟨⟨by decide +kernel, by decide +kernel⟩, by decide +kernel, by decide +kernel⟩
    (Run.meets_of_check _ (by decide +kernel)) _ rfl (by decide +kernel)
  ⟨h.1, h.2 [failingEnv] nextEnv _ rfl List.mem_cons_self (by decide)⟩

/-! ## Generations -/

section Generations

variable {s s' s'' : Supervisor} {kind : Respawn}

/-- A process as `spawn_process` enters it, with its `just_spawn`. -/
structure Fresh (kind : Respawn) (p : Process) (just : Bool) : Prop where
  respawn : p.respawn = decide (kind = .respawn ∨ kind = .justRespawn)
  detached : p.detached = decide (kind = .detached)
  exiting : p.exiting = false
  just : just = decide (kind = .justSpawn ∨ kind = .justRespawn)

/-- Processes have been started in free slots; those in use are as they were, but for
descriptors. -/
structure Grown (kind : Respawn) (s s' : Supervisor) : Prop where
  old : ∀ i, Used s.m i → Used s'.m i ∧
    (∃ c, s'.m.processes i = { s.m.processes i with channel := c }) ∧
    s'.justSpawn i = s.justSpawn i
  fresh : ∀ i, Used s'.m i → Used s.m i ∨ Fresh kind (s'.m.processes i) (s'.justSpawn i)
  newBinary : s'.m.newBinary = s.m.newBinary
  lawful : s'.kids.lawful = true → s.kids.lawful = true

theorem Grown.refl (s : Supervisor) : Grown kind s s :=
  ⟨fun i hi => ⟨hi, ⟨(s.m.processes i).channel, rfl⟩, rfl⟩, fun _ hi => .inl hi, rfl, id⟩

theorem Grown.trans (h : Grown kind s s') (h' : Grown kind s' s'') : Grown kind s s'' where
  old := by
    intro i hi
    obtain ⟨hused, ⟨c, hc⟩, hj⟩ := h.old i hi
    obtain ⟨hused', ⟨c', hc'⟩, hj'⟩ := h'.old i hused
    exact ⟨hused', ⟨c', by rw [hc', hc]⟩, hj'.trans hj⟩
  fresh := by
    intro i hi
    rcases h'.fresh i hi with hused | hfresh
    · rcases h.fresh i hused with hused | hfresh
      · exact .inl hused
      · obtain ⟨-, ⟨c, hc⟩, hj⟩ := h'.old i hused
        refine .inr ⟨?_, ?_, ?_, ?_⟩
        · rw [hc]
          exact hfresh.respawn
        · rw [hc]
          exact hfresh.detached
        · rw [hc]
          exact hfresh.exiting
        · rw [hj]
          exact hfresh.just
    · exact .inr hfresh
  newBinary := h'.newBinary.trans h.newBinary
  lawful := fun hl => h.lawful (h'.lawful hl)

theorem Grown.spawnKind (kind : Respawn) (answer : Spawn) (s : Supervisor) :
    Grown kind s (spawnKind kind answer s) := by
  cases spawnKind_cases kind answer s with
  | failed table just kids =>
    refine ⟨fun i hi => ?_, fun i hi => .inl ?_, table.newBinary, fun hl => kids ▸ hl⟩
    · obtain ⟨c, hc⟩ := table.slots i
      exact ⟨⟨table.last ▸ hi.1, by rw [hc]; exact hi.2⟩, ⟨c, hc⟩, by rw [just]⟩
    · obtain ⟨c, hc⟩ := table.slots i
      have hp := hi.2
      rw [hc] at hp
      exact ⟨table.last ▸ hi.1, hp⟩
  | entered pid c _ _ slot last just kids =>
    have hfree := newSlot_free s.m
    refine ⟨fun i hi => ?_, fun i hi => ?_, slot.newBinary, fun hl => fork_lawful_of _ (kids ▸ hl)⟩
    · have hne : i ≠ newSlot s.m := by
        rintro rfl
        rcases hfree with hf | ⟨-, hf⟩
        · have := hi.1
          omega
        · exact hi.2 hf
      refine ⟨⟨?_, by rw [slot.others i hne]; exact hi.2⟩,
        ⟨(s.m.processes i).channel, slot.others i hne⟩, by rw [just, Function.update_of_ne hne]⟩
      have := hi.1
      rw [last]
      split <;> omega
    · by_cases hne : i = newSlot s.m
      · subst hne
        refine .inr ?_
        rw [slot.slot, just, Function.update_self]
        exact ⟨rfl, rfl, rfl, rfl⟩
      · have hlt := hi.1
        have hp := hi.2
        rw [slot.others i hne] at hp
        rw [last] at hlt
        refine .inl ⟨?_, hp⟩
        split at hlt <;> omega

theorem Grown.startAll (cfg : Settings) (kind : Respawn) (env : Env) (s : Supervisor) :
    Grown kind s (startAll cfg kind env s) := by
  have hone : ∀ s answer, Grown kind s (startProcess kind s answer) := fun s answer =>
    ⟨(Grown.spawnKind kind answer s).old, (Grown.spawnKind kind answer s).fresh,
      (Grown.spawnKind kind answer s).newBinary, (Grown.spawnKind kind answer s).lawful⟩
  have hworkers : Grown kind s (startWorkerProcesses cfg kind env.workers s) := by
    unfold startWorkerProcesses
    generalize (List.range cfg.numProcesses).map env.workers = answers
    induction answers generalizing s with
    | nil => exact .refl s
    | cons a answers ih => exact (hone s a).trans (ih _)
  have hall := hworkers.trans (hone _ env.monitor)
  exact ⟨hall.old, hall.fresh, hall.newBinary, hall.lawful⟩

/-- What `wake` leaves of the slots: none comes into use. -/
structure Woken (s w : Supervisor) : Prop where
  used : ∀ i, Used w.m i → Used s.m i ∧
    (w.m.processes i).detached = (s.m.processes i).detached
  just : w.justSpawn = s.justSpawn
  delayed : w.locals.delayShutdownProcess = s.locals.delayShutdownProcess
  delay : w.locals.delay = 0

theorem reapChildren_used (spawns : Nat → Spawn) (m : Master) (i : Nat)
    (hi : Used (reapChildren spawns m).m i) :
    Used m i ∧ ((reapChildren spawns m).m.processes i).detached = (m.processes i).detached := by
  have hstep : ∀ a r (_ : Kids), a < r.m.lastProcess →
      (Used r.m i → Used m i ∧ (r.m.processes i).detached = (m.processes i).detached) →
      Used (reapSlot spawns a r).m i → Used m i ∧
        ((reapSlot spawns a r).m.processes i).detached = (m.processes i).detached := by
    intro a r _ ha hP hused
    have hentered : ∀ p : Process, Entered a p r.m (reapSlot spawns a r).m →
        (reapSlot spawns a r).m.lastProcess = r.m.lastProcess →
        respawns (r.m.processes a) r.m = true → p.detached = (r.m.processes a).detached →
        Used m i ∧ ((reapSlot spawns a r).m.processes i).detached = (m.processes i).detached := by
      intro p hentry hlast hslot hd
      by_cases hia : i = a
      · subst hia
        have hp : (r.m.processes i).pid ≠ -1 := by
          simp only [respawns, Bool.and_eq_true, bne_iff_ne] at hslot
          exact hslot.1.1.1.1.1
        rw [hentry.slot, hd]
        exact hP ⟨ha, hp⟩
      · have hp := hused.2
        rw [hentry.others i hia] at hp ⊢
        exact hP ⟨hlast ▸ hused.1, hp⟩
    obtain ⟨live, hcase, -⟩ := reapSlot_cases spawns a r
    cases hcase with
    | kept _ hm _ =>
      rw [hm] at hused ⊢
      exact hP hused
    | respawned hslot pid c _ _ hlast hentry => exact hentered _ hentry hlast hslot rfl
    | failed hslot _ _ hlast c hentry => exact hentered _ hentry hlast hslot rfl
    | dropped _ _ _ hothers hgone =>
      have hlt := hused.1
      have hia : i ≠ a ∧ i < r.m.lastProcess := by
        rcases hgone with ⟨hend, hlast⟩ | ⟨-, hlast, hpid⟩
        · omega
        · exact ⟨fun h => hused.2 (h ▸ hpid), by omega⟩
      have hp := hused.2
      rw [hothers i hia.1] at hp ⊢
      exact hP ⟨hia.2, hp⟩
  obtain ⟨-, -, hend⟩ := reapLoop_rule m.lastProcess hstep 0 (startReap m) {}
    (fun h => ⟨h, rfl⟩) (Nat.le_of_eq (Nat.zero_add _).symm)
  exact hend hi

theorem wake_woken (env : Env) (s : Supervisor) : Woken s (wake env s) := by
  obtain ⟨htop, -, -, hjust, -⟩ := loopTop_same s
  have hsig := exec_signalHandler env.signals (loopTop s)
  have hlocals : (loopTop s).locals.delayShutdownProcess = s.locals.delayShutdownProcess ∧
      (loopTop s).locals.delay = 0 := by
    unfold loopTop
    dsimp only
    split
    · split <;> exact ⟨rfl, rfl⟩
    · have : s.locals.delay = 0 := by omega
      split <;> exact ⟨rfl, this⟩
  have hu : ∀ i, Used (Run.exec signalHandler (loopTop s) env.signals).m i → Used s.m i ∧
      ((Run.exec signalHandler (loopTop s) env.signals).m.processes i).detached =
        (s.m.processes i).detached := by
    intro i hi
    have hlow := hsig.slots i
    rw [htop] at hlow
    have hp := hi.2
    rw [hlow.pid] at hp
    have hlt := hi.1
    rw [hsig.last, htop] at hlt
    exact ⟨⟨hlt, hp⟩, hlow.detached⟩
  have hj := hsig.just.trans hjust
  have hl := hsig.locals
  unfold wake
  generalize Run.exec signalHandler (loopTop s) env.signals = u at hu hj hl
  unfold reapTurn
  split
  · refine ⟨fun i hi => ?_, hj, ?_, ?_⟩
    · obtain ⟨hi', hd⟩ := reapChildren_used env.respawns u.m i hi
      obtain ⟨hi'', hd'⟩ := hu i hi'
      exact ⟨hi'', hd.trans hd'⟩
    · show u.locals.delayShutdownProcess = _
      rw [hl, hlocals.1]
    · show u.locals.delay = 0
      rw [hl, hlocals.2]
  · exact ⟨hu, hj, by rw [hl, hlocals.1], by rw [hl, hlocals.2]⟩

/-- Outside a reload no process is marked, and detached ones never are. -/
structure Marked (s : Supervisor) : Prop where
  detached : ∀ i, Used s.m i → (s.m.processes i).detached = true → s.justSpawn i = false
  settled : s.locals.delayShutdownProcess = false → ∀ i, Used s.m i → s.justSpawn i = false

theorem Marked.woken (h : Marked s) {w : Supervisor} (hw : Woken s w) : Marked w := by
  refine ⟨fun i hi hd => ?_, fun hl i hi => ?_⟩
  · obtain ⟨hi, hd'⟩ := hw.used i hi
    rw [hw.just]
    exact h.detached i hi (hd'.symm.trans hd)
  · rw [hw.just]
    exact h.settled (hw.delayed.symm.trans hl) i (hw.used i hi).1

/-- Once the processes have been told, none is marked. -/
theorem Marked.told (h : ∀ i, Used s.m i → (s.m.processes i).detached = true →
    s.justSpawn i = false) (signo : Signo) (told : Answers) :
    Marked (signalWorkerProcesses signo told s) := by
  have hall := signalWorkerProcesses_told signo told s
  have hnone : ∀ i, Used (signalWorkerProcesses signo told s).m i →
      (signalWorkerProcesses signo told s).justSpawn i = false := by
    intro i hi
    have hlt : i < s.m.lastProcess := hall.same.last ▸ hi.1
    have hmem := List.mem_range.2 hlt
    have hp := hi.2
    rw [hall.slots i hmem, toldProcess_pid] at hp
    rw [hall.just i hmem]
    cases hd : (s.m.processes i).detached with
    | true => rw [h i ⟨hlt, hp⟩ hd, Bool.and_false]
    | false => simp [untold, hd, hp]
  exact ⟨fun i hi _ => hnone i hi, fun _ => hnone⟩

/-- Processes that are started without a mark. -/
theorem Marked.grown (h : Marked s) (hg : Grown kind s s')
    (hkind : kind ≠ .justSpawn ∧ kind ≠ .justRespawn)
    (hl : s'.locals.delayShutdownProcess = s.locals.delayShutdownProcess) : Marked s' := by
  have hfresh : ∀ i, Used s'.m i → ¬ Used s.m i → s'.justSpawn i = false := by
    intro i hi hnot
    rcases hg.fresh i hi with hused | hf
    · exact absurd hused hnot
    · rw [hf.just]
      simp [hkind.1, hkind.2]
  refine ⟨fun i hi hd => ?_, fun hs i hi => ?_⟩
  · by_cases hused : Used s.m i
    · obtain ⟨-, ⟨c, hc⟩, hj⟩ := hg.old i hused
      rw [hc] at hd
      rw [hj]
      exact h.detached i hused hd
    · exact hfresh i hi hused
  · by_cases hused : Used s.m i
    · rw [(hg.old i hused).2.2]
      exact h.settled (hl ▸ hs) i hused
    · exact hfresh i hi hused

theorem Marked.congr (h : Marked s) (hp : s'.m.processes = s.m.processes)
    (hl : s'.m.lastProcess = s.m.lastProcess) (hj : s'.justSpawn = s.justSpawn)
    (hd : s'.locals.delayShutdownProcess = s.locals.delayShutdownProcess) : Marked s' := by
  have hused : ∀ i, Used s'.m i → Used s.m i := by
    intro i hi
    have := hi.2
    rw [hp] at this
    exact ⟨hl ▸ hi.1, this⟩
  refine ⟨fun i hi hdet => ?_, fun hs i hi => ?_⟩
  · rw [hp] at hdet
    rw [hj]
    exact h.detached i (hused i hi) hdet
  · rw [hj]
    exact h.settled (hd ▸ hs) i (hused i hi)

/-- The start of a reload marks the processes it starts. -/
theorem Marked.justRespawn (h : Marked s) (hg : Grown .justRespawn s s')
    (hl : s'.locals.delayShutdownProcess = true) : Marked s' := by
  refine ⟨fun i hi hd => ?_, fun hs => absurd (hl.symm.trans hs) (by simp)⟩
  rcases hg.fresh i hi with hused | hf
  · obtain ⟨-, ⟨c, hc⟩, hj⟩ := hg.old i hused
    rw [hc] at hd
    rw [hj]
    exact h.detached i hused hd
  · rw [hf.detached] at hd
    cases hd

theorem startAll_delayed (cfg : Settings) (kind : Respawn) (env : Env) (s : Supervisor) :
    (startAll cfg kind env s).locals.delayShutdownProcess = s.locals.delayShutdownProcess := by
  rw [(startAll_loop cfg kind env s).locals]

theorem Marked.turn (h : Marked s) (cfg : Settings) (env : Env) : Marked (turn cfg s env) := by
  unfold ProcessCycle.turn
  split
  · exact h
  have hwoken := wake_woken env s
  have hw := h.woken hwoken
  have hdelay := hwoken.delay
  generalize wake env s = w at hw hdelay
  unfold act
  by_cases hexit : (!w.locals.live && (w.m.terminate || w.m.quit)) = true
  · rw [if_pos hexit]
    exact hw.congr rfl rfl rfl rfl
  rw [if_neg hexit]
  by_cases hterm : w.m.terminate = true
  · rw [if_pos hterm]
    unfold terminateTurn
    dsimp only
    split
    · exact hw.congr rfl rfl rfl rfl
    · split
      · exact hw.congr rfl rfl rfl rfl
      · split
        · apply Marked.told
          exact hw.detached
        · apply Marked.told
          exact hw.detached
  rw [if_neg hterm]
  by_cases hquit : w.m.quit = true
  · rw [if_pos hquit]
    exact Marked.told hw.detached _ _
  rw [if_neg hquit]
  by_cases hrec : w.flags.reconfigure = true
  · rw [if_pos hrec]
    have hnow : Marked { w with
        flags := { w.flags with reconfigure := false }
        locals := { w.locals with lastReconfig := env.now } } := hw.congr rfl rfl rfl rfl
    have hloop := fun kind => startAll_loop cfg kind env { w with
        flags := { w.flags with reconfigure := false }
        locals := { w.locals with lastReconfig := env.now } }
    have hgrown := fun kind => Grown.startAll cfg kind env { w with
        flags := { w.flags with reconfigure := false }
        locals := { w.locals with lastReconfig := env.now } }
    unfold reconfigureTurn
    dsimp only
    split
    · exact hw.congr rfl rfl rfl rfl
    · split
      · exact (hnow.grown (hgrown .respawn) (by decide)
          (startAll_delayed cfg .respawn env _)).congr rfl rfl rfl rfl
      · split
        · rw [if_pos (by rw [(hloop .justRespawn).locals]; exact hdelay)]
          have hg := hgrown .justRespawn
          exact hnow.justRespawn ⟨hg.old, hg.fresh, hg.newBinary, hg.lawful⟩ rfl
        · exact hw.congr rfl rfl rfl rfl
  rw [if_neg hrec]
  have halarm : Marked (alarmTurn env w) := by
    unfold alarmTurn
    split
    · apply Marked.told
      exact hw.detached
    · exact hw
  have hrestart : Marked (restartTurn cfg env (alarmTurn env w)) := by
    unfold restartTurn
    split
    · have hflag : Marked { alarmTurn env w with
          m := { (alarmTurn env w).m with restart := false } } := halarm.congr rfl rfl rfl rfl
      exact (hflag.grown (Grown.startAll cfg .respawn env _) (by decide)
        (startAll_delayed cfg .respawn env _)).congr rfl rfl rfl rfl
    · exact halarm
  have hbinary : Marked (changeBinaryTurn env (restartTurn cfg env (alarmTurn env w))) := by
    unfold changeBinaryTurn
    split
    · have hflag : Marked { restartTurn cfg env (alarmTurn env w) with
          flags := { (restartTurn cfg env (alarmTurn env w)).flags with changeBinary := false } } :=
        hrestart.congr rfl rfl rfl rfl
      unfold execNewBinary
      split
      · exact hflag.congr rfl rfl rfl rfl
      · rename_i answer _
        exact (hflag.grown (Grown.spawnKind .detached answer _) (by decide)
          (by rw [(spawnKind_loop .detached answer _).locals])).congr rfl rfl rfl rfl
    · exact hrestart
  unfold noacceptTurn
  split
  · apply Marked.told
    exact hbinary.detached
  · exact hbinary

theorem marked_run (cfg : Settings) (daemonized : Bool) (start : Env) (envs : List Env) :
    Marked (masterProcessCycle cfg daemonized start envs) := by
  unfold masterProcessCycle masterStart
  have h0 : Marked { m := World.init.m, daemonized := daemonized } :=
    ⟨fun i hi _ => absurd hi.1 (Nat.not_lt_zero i), fun _ i hi => absurd hi.1 (Nat.not_lt_zero i)⟩
  have hs := h0.grown (Grown.startAll cfg .respawn start _) (by decide)
    (startAll_delayed cfg .respawn start _)
  generalize startAll cfg .respawn start { m := World.init.m, daemonized := daemonized } = s at hs
  induction envs generalizing s with
  | nil => exact hs
  | cons env envs ih => exact ih _ (hs.turn cfg env)

/-! ## A reload -/

/-- The round starts a reload. -/
structure Reloads (s : Supervisor) (env : Env) : Prop where
  running : s.stopped = false
  terminate : (wake env s).m.terminate = false
  quit : (wake env s).m.quit = false
  reconfigure : (wake env s).flags.reconfigure = true
  newBinary : (wake env s).m.newBinary = 0
  delayed : s.locals.delayShutdownProcess = false
  hook : env.reload = true

/-- The round has the alarm that ends a reload, and nothing else. -/
structure Closes (s : Supervisor) (env : Env) : Prop where
  running : s.stopped = false
  terminate : (wake env s).m.terminate = false
  quit : (wake env s).m.quit = false
  reconfigure : (wake env s).flags.reconfigure = false
  delayed : (wake env s).locals.delayShutdownProcess = true
  alarm : (wake env s).flags.sigalrm = true
  restart : (wake env s).m.restart = false
  changeBinary : (wake env s).flags.changeBinary = false
  noaccept : (wake env s).flags.noaccept = false

theorem Reloads.grown {env : Env} (h : Reloads s env) (cfg : Settings) :
    Grown .justRespawn (wake env s) (turn cfg s env) := by
  have hd : (wake env s).locals.delayShutdownProcess = false :=
    (wake_woken env s).delayed.trans h.delayed
  rw [turn, if_neg (by simp [h.running]), act, if_neg (by simp [h.terminate, h.quit]),
    if_neg (by simp [h.terminate]), if_neg (by simp [h.quit]), if_pos h.reconfigure]
  unfold reconfigureTurn
  dsimp only
  rw [if_neg (by simp [hd]), if_neg (by simp [h.newBinary]), if_pos h.hook]
  have hg := Grown.startAll cfg .justRespawn env { wake env s with
    flags := { (wake env s).flags with reconfigure := false }
    locals := { (wake env s).locals with lastReconfig := env.now } }
  split
  · exact ⟨hg.old, hg.fresh, hg.newBinary, hg.lawful⟩
  · exact ⟨hg.old, hg.fresh, hg.newBinary, hg.lawful⟩

theorem Closes.turn_eq {env : Env} (h : Closes s env) (cfg : Settings) :
    ∃ l, turn cfg s env =
      signalWorkerProcesses .shutdown env.told { wake env s with locals := l } := by
  refine ⟨{ (wake env s).locals with
    delay := 0, delayTimes := 0, delayShutdownProcess := false, live := true }, ?_⟩
  have halarm : alarmTurn env (wake env s) = signalWorkerProcesses .shutdown env.told
      { wake env s with locals := { (wake env s).locals with
        delay := 0, delayTimes := 0, delayShutdownProcess := false, live := true } } := by
    rw [alarmTurn, if_pos ⟨h.delayed, h.alarm⟩]
  have hsame := (signalWorkerProcesses_told .shutdown env.told
    { wake env s with locals := { (wake env s).locals with
      delay := 0, delayTimes := 0, delayShutdownProcess := false, live := true } }).same
  have hflags : (alarmTurn env (wake env s)).m.restart = false ∧
      (alarmTurn env (wake env s)).flags.changeBinary = false ∧
      (alarmTurn env (wake env s)).flags.noaccept = false := by
    rw [halarm, hsame.restart]
    refine ⟨h.restart, ?_⟩
    rcases hsame.flags with hf | hf <;> rw [hf] <;> exact ⟨h.changeBinary, h.noaccept⟩
  rw [← halarm, turn, if_neg (by simp [h.running]), act, if_neg (by simp [h.terminate, h.quit]),
    if_neg (by simp [h.terminate]), if_neg (by simp [h.quit]), if_neg (by simp [h.reconfigure])]
  rw [restartTurn, if_neg (by simp [hflags.1]), changeBinaryTurn, if_neg (by simp [hflags.2.1]),
    noacceptTurn, if_neg (by simp [hflags.2.2])]

/-- Quiet rounds bring no slot into use and leave the marks. -/
theorem quiet_run (cfg : Settings) {envs : List Env} (h : Run.Meets (turn cfg) Quiet s envs) :
    (∀ i, Used (Run.exec (turn cfg) s envs).m i → Used s.m i ∧
      ((Run.exec (turn cfg) s envs).m.processes i).detached = (s.m.processes i).detached) ∧
    (Run.exec (turn cfg) s envs).justSpawn = s.justSpawn := by
  induction envs using List.reverseRecOn with
  | nil => exact ⟨fun i hi => ⟨hi, rfl⟩, rfl⟩
  | append_singleton envs env ih =>
    obtain ⟨hused, hjust⟩ := ih h.pre
    rw [Run.exec_concat, (h.last (turn cfg)).turn_eq cfg]
    have hw := wake_woken env (Run.exec (turn cfg) s envs)
    refine ⟨fun i hi => ?_, hw.just.trans hjust⟩
    obtain ⟨hi, hd⟩ := hw.used i hi
    obtain ⟨hi', hd'⟩ := hused i hi
    exact ⟨hi', hd.trans hd'⟩

/-- An unmarked process that is told to quit will, unless the kernel refuses. -/
theorem toldProcess_shutdown {written : Bool} {kill : Kill} {p : Process}
    (hp : untold p = false) :
    (toldProcess .shutdown written kill false p).exiting = true ∨
      (toldProcess .shutdown written kill false p).exited = true ∨
      written = false ∧ kill = .refused := by
  obtain ⟨hd, hpid⟩ := Bool.or_eq_false_iff.1 hp
  unfold toldProcess
  by_cases he : p.exiting = true
  · rw [if_pos (by tauto)]
    exact .inl he
  · rw [if_neg (by simp [hd, he]; simpa using hpid)]
    by_cases hw : written = true
    · rw [if_pos ⟨by decide, hw⟩]
      exact .inl (by simp)
    · rw [if_neg (by tauto)]
      cases kill with
      | done => exact .inl (by simp)
      | noProcess => exact .inr (.inl rfl)
      | refused => exact .inr (.inr ⟨by simpa using hw, rfl⟩)

/-- A reload replaces one generation by the next. Whatever exits and fails to be respawned between
its start and the alarm, the alarm tells every process of the old generation that is still there to
quit, and the slots of the new one, unless their processes exit with 2, go on serving. -/
theorem reload_rolls (cfg : Settings) (daemonized : Bool) (start : Env) (envs₀ envs : List Env)
    (env₁ env₂ : Env) (s s₁ s₂ s₃ : Supervisor)
    (hs : s = masterProcessCycle cfg daemonized start envs₀) (h₁ : s₁ = turn cfg s env₁)
    (h₂ : s₂ = Run.exec (turn cfg) s₁ envs) (h₃ : s₃ = turn cfg s₂ env₂)
    (hreload : Reloads s env₁) (hquiet : Run.Meets (turn cfg) Quiet s₁ envs)
    (hclose : Closes s₂ env₂) (hlaw : s₃.kids.lawful = true) (i : Nat) :
    (Used (wake env₁ s).m i → ((wake env₁ s).m.processes i).detached = false → Used s₃.m i →
      (s₃.m.processes i).exiting = true ∨ (s₃.m.processes i).exited = true ∨
        env₂.told.written i = false ∧ env₂.told.kill i = .refused) ∧
    (Used s₁.m i → ¬ Used (wake env₁ s).m i →
      Run.Meets (turn cfg) (fun s env => NotFatal i s env.signals) s₁ (envs ++ [env₂]) →
      Serving s₃.m i ∧ s₃.justSpawn i = false) := by
  have hgrown : Grown .justRespawn (wake env₁ s) s₁ := h₁ ▸ hreload.grown cfg
  have hmarked : Marked s := hs ▸ marked_run cfg daemonized start envs₀
  have hwoken := wake_woken env₁ s
  have htrack₁ : Tracked s₁ := by
    rw [h₁, hs]
    exact kept_tracked.turn cfg env₁ (tracked_run cfg daemonized start envs₀)
  obtain ⟨hused, hjust⟩ := quiet_run cfg hquiet
  rw [← h₂] at hused hjust
  have hwoken₂ := wake_woken env₂ s₂
  obtain ⟨l, heq⟩ := hclose.turn_eq cfg
  rw [← h₃] at heq
  have hall := signalWorkerProcesses_told .shutdown env₂.told { wake env₂ s₂ with locals := l }
  rw [← heq] at hall
  have hjust₂ : (wake env₂ s₂).justSpawn = s₁.justSpawn := hwoken₂.just.trans hjust
  refine ⟨fun hold hdet hnow => ?_, fun hnew hfree hfatal => ?_⟩
  · -- the slot has not been marked by the reload
    obtain ⟨-, ⟨c, hc⟩, hj⟩ := hgrown.old i hold
    have hunmarked : s₁.justSpawn i = false := by
      rw [hj, hwoken.just]
      exact hmarked.settled hreload.delayed i (hwoken.used i hold).1
    have hmem : i ∈ List.range (wake env₂ s₂).m.lastProcess :=
      List.mem_range.2 (hall.same.last ▸ hnow.1)
    have hslot := hall.slots i hmem
    have hp := hnow.2
    rw [hslot, toldProcess_pid] at hp
    have hused₂ : Used (wake env₂ s₂).m i := ⟨List.mem_range.1 hmem, hp⟩
    obtain ⟨hi₂, hd₂⟩ := hwoken₂.used i hused₂
    have hdet₂ : ((wake env₂ s₂).m.processes i).detached = false := by
      rw [hd₂, (hused i hi₂).2, hc]
      exact hdet
    have hun : untold ((wake env₂ s₂).m.processes i) = false := by
      simp [untold, hdet₂, hused₂.2]
    rw [hslot, show ({ wake env₂ s₂ with locals := l } : Supervisor).justSpawn i = false from
      (congrFun hjust₂ i).trans hunmarked]
    exact toldProcess_shutdown hun
  · -- the slot is marked and serves
    rcases hgrown.fresh i hnew with hold | hfresh
    · exact absurd hold hfree
    have hserve : Serving s₁.m i :=
      ⟨hnew, by rw [hfresh.respawn]; rfl, hfresh.exiting⟩
    have hmark : s₁.justSpawn i = true := by rw [hfresh.just]; rfl
    have hcalm : Run.Meets (turn cfg) (Calm i) s₁ envs :=
      fun pre env post hp => ⟨hquiet pre env post hp, hfatal.pre (turn cfg) pre env post hp⟩
    have hlast := hfatal.last (turn cfg)
    rw [← h₂] at hlast
    have hlaw₂ : (wake env₂ s₂).kids.lawful = true := hall.lawful hlaw
    have hlaw₁ : s₂.kids.lawful = true := by
      have h := exec_lawful _ _ (reapTurn_lawful env₂ hlaw₂)
      rwa [(loopTop_same _).2.1] at h
    have hserve₁ : Serving s₂.m i := by
      rw [h₂] at hlaw₁ ⊢
      exact hserve.run cfg htrack₁ hcalm hlaw₁
    have htrack₂ : Tracked s₂ := by
      rw [h₂]
      exact Run.invariant (turn cfg) htrack₁ (fun s env hs _ => kept_tracked.turn cfg env hs) hquiet
    have hserve₂ := (hserve₁.wake htrack₂ hclose.terminate hclose.quit hlaw₂ hlast).1
    have hmem : i ∈ List.range (wake env₂ s₂).m.lastProcess := List.mem_range.2 hserve₂.used.1
    have hsame : s₃.m.processes i = (wake env₂ s₂).m.processes i := by
      rw [hall.slots i hmem]
      unfold toldProcess
      rw [if_pos (.inr (.inr (.inl ((congrFun hjust₂ i).trans hmark))))]
    refine ⟨⟨⟨hall.same.last ▸ hserve₂.used.1, ?_⟩, ?_, ?_⟩, ?_⟩
    · rw [hsame]
      exact hserve₂.used.2
    · rw [hsame]
      exact hserve₂.respawn
    · rw [hsame]
      exact hserve₂.exiting
    · have hdet₂ : ((wake env₂ s₂).m.processes i).detached = false := by
        obtain ⟨hi₂, hd₂⟩ := hwoken₂.used i hserve₂.used
        rw [hd₂, (hused i hi₂).2, hfresh.detached]
        rfl
      rw [hall.just i hmem]
      have hun : untold ((wake env₂ s₂).m.processes i) = false := by
        simp [untold, hdet₂, hserve₂.used.2]
      rw [hun, Bool.false_and]

end Generations

/-! ## A new binary that could not be started -/

section Upgrade

variable {s s' : Supervisor} {kind : Respawn} {i : Nat}

theorem Serving.grown (h : Serving s.m i) (hg : Grown kind s s') : Serving s'.m i := by
  obtain ⟨hused, ⟨c, hc⟩, -⟩ := hg.old i h.used
  refine ⟨hused, ?_, ?_⟩
  · rw [hc]
    exact h.respawn
  · rw [hc]
    exact h.exiting

/-- The reaper resets `g_new_binary` only for a slot that holds its process. -/
theorem reapChildren_newBinary (spawns : Nat → Spawn) (m : Master) (h : m.newBinary = -1) :
    (reapChildren spawns m).m.newBinary = -1 := by
  have hstep : ∀ a r (_ : Kids), a < r.m.lastProcess → r.m.newBinary = -1 →
      (reapSlot spawns a r).m.newBinary = -1 := by
    intro a r _ _ hr
    obtain ⟨live, hcase, -⟩ := reapSlot_cases spawns a r
    cases hcase with
    | kept _ hm _ => rw [hm, hr]
    | respawned _ _ _ _ _ _ hentry => rw [hentry.newBinary, hr]
    | failed _ _ _ _ _ hentry => rw [hentry.newBinary, hr]
    | dropped hslot _ _ _ _ _ hbinary =>
      rcases hbinary with ⟨hsame, -⟩ | ⟨hpid, -⟩
      · rw [hsame, hr]
      · simp only [reaped, Bool.and_eq_true, bne_iff_ne] at hslot
        exact absurd (hpid.trans hr) hslot.1
  obtain ⟨-, -, hend⟩ := reapLoop_rule m.lastProcess hstep 0 (startReap m) {} h
    (Nat.le_of_eq (Nat.zero_add _).symm)
  exact hend

theorem wake_newBinary (env : Env) (h : s.m.newBinary = -1) :
    (wake env s).m.newBinary = -1 := by
  have hsig := exec_signalHandler env.signals (loopTop s)
  have hu : (Run.exec signalHandler (loopTop s) env.signals).m.newBinary = -1 := by
    rw [hsig.newBinary, (loopTop_same s).1, h]
  unfold wake
  generalize Run.exec signalHandler (loopTop s) env.signals = u at hu
  unfold reapTurn
  split
  · exact reapChildren_newBinary env.respawns u.m hu
  · exact hu

/-- The round is not told to end or to accept no more, and it starts no new binary. -/
structure Upgraded (s : Supervisor) (env : Env) : Prop where
  terminate : (wake env s).m.terminate = false
  quit : (wake env s).m.quit = false
  changeBinary : (wake env s).flags.changeBinary = false
  noaccept : (wake env s).flags.noaccept = false

/-- `g_new_binary` has the result of a failed `exec_new_binary`, and no reload is under way. -/
structure Sticks (s : Supervisor) : Prop where
  newBinary : s.m.newBinary = -1
  delayed : s.locals.delayShutdownProcess = false

/-- What a round that retires no process does behind the reaper. -/
structure Spares (w s' : Supervisor) : Prop where
  newBinary : s'.m.newBinary = w.m.newBinary
  delayed : s'.locals.delayShutdownProcess = w.locals.delayShutdownProcess
  kills : s'.kills = w.kills
  lawful : s'.kids.lawful = true → w.kids.lawful = true
  serving : ∀ i, Serving w.m i → Serving s'.m i

theorem Spares.refl (s : Supervisor) : Spares s s := ⟨rfl, rfl, rfl, id, fun _ h => h⟩

theorem Spares.sticks (h : Spares s s') (hs : Sticks s) : Sticks s' :=
  ⟨h.newBinary.trans hs.newBinary, h.delayed.trans hs.delayed⟩

/-- Processes that are started retire none. -/
theorem Spares.startAll (cfg : Settings) (kind : Respawn) (env : Env) (s : Supervisor) :
    Spares s (startAll cfg kind env s) := by
  have hg := Grown.startAll cfg kind env s
  have hloop := startAll_loop cfg kind env s
  exact ⟨hg.newBinary, by rw [hloop.locals], hloop.kills, hg.lawful, fun _ h => h.grown hg⟩

theorem wake_kills (env : Env) (s : Supervisor) : (wake env s).kills = s.kills := by
  obtain ⟨-, -, -, -, htop⟩ := loopTop_same s
  have hsig := (exec_signalHandler env.signals (loopTop s)).kills.trans htop
  unfold wake reapTurn
  split
  · exact hsig
  · exact hsig

/-- A reload starts processes for good, and does not arm the alarm that would retire the old
ones. -/
theorem Sticks.spares (h : Sticks s) (cfg : Settings) (env : Env) (hns : s.stopped = false)
    (hok : Upgraded s env) : Sticks (wake env s) ∧ Spares (wake env s) (turn cfg s env) := by
  have hw : Sticks (wake env s) :=
    ⟨wake_newBinary env h.newBinary, (wake_woken env s).delayed.trans h.delayed⟩
  refine ⟨hw, ?_⟩
  have hterm := hok.terminate
  have hquit := hok.quit
  have hchange := hok.changeBinary
  have hnoaccept := hok.noaccept
  unfold ProcessCycle.turn
  rw [if_neg (by simp [hns])]
  generalize wake env s = w at *
  unfold act
  rw [if_neg (by simp [hterm, hquit]), if_neg (by simp [hterm]), if_neg (by simp [hquit])]
  split
  · unfold reconfigureTurn
    dsimp only
    rw [if_neg (by simp [hw.delayed]), if_pos (by rw [hw.newBinary]; decide)]
    have hs := Spares.startAll cfg .respawn env { w with
      flags := { w.flags with reconfigure := false }
      locals := { w.locals with lastReconfig := env.now } }
    exact ⟨hs.newBinary, hs.delayed, hs.kills, hs.lawful,
      fun i hi => (fun h => ⟨h.used, h.respawn, h.exiting⟩) (hs.serving i ⟨hi.used, hi.respawn, hi.exiting⟩)⟩
  · have halarm : alarmTurn env w = w := by
      rw [alarmTurn, if_neg (by simp [hw.delayed])]
    rw [halarm]
    have hrestart : Spares w (restartTurn cfg env w) ∧
        (restartTurn cfg env w).flags = w.flags := by
      unfold restartTurn
      split
      · have hs := Spares.startAll cfg .respawn env { w with m := { w.m with restart := false } }
        exact ⟨⟨hs.newBinary, hs.delayed, hs.kills, hs.lawful,
          fun i hi => hs.serving i ⟨hi.used, hi.respawn, hi.exiting⟩⟩,
          (startAll_loop cfg .respawn env _).flags⟩
      · exact ⟨.refl w, rfl⟩
    have hbinary : changeBinaryTurn env (restartTurn cfg env w) = restartTurn cfg env w := by
      rw [changeBinaryTurn, if_neg (by rw [hrestart.2]; simp [hchange])]
    rw [hbinary, noacceptTurn, if_neg (by rw [hrestart.2]; simp [hnoaccept])]
    exact hrestart.1

theorem Sticks.turn (h : Sticks s) (cfg : Settings) (env : Env) (hok : Upgraded s env) :
    Sticks (turn cfg s env) ∧ (ProcessCycle.turn cfg s env).kills = s.kills := by
  cases hns : s.stopped with
  | true => rw [ProcessCycle.turn, if_pos hns]; exact ⟨h, rfl⟩
  | false =>
    obtain ⟨hw, hspares⟩ := h.spares cfg env hns hok
    exact ⟨hspares.sticks hw, hspares.kills.trans (wake_kills env s)⟩

/-- A slot goes on serving through such a round, unless its process exits with 2. -/
theorem Sticks.serving (h : Sticks s) (ht : Tracked s) (cfg : Settings) (env : Env)
    (hok : Upgraded s env) (hf : NotFatal i s env.signals)
    (hserve : s.kids.lawful = true → Serving s.m i)
    (hlaw : (ProcessCycle.turn cfg s env).kids.lawful = true) :
    Serving (ProcessCycle.turn cfg s env).m i := by
  cases hns : s.stopped with
  | true =>
    rw [ProcessCycle.turn, if_pos hns] at hlaw ⊢
    exact hserve hlaw
  | false =>
    obtain ⟨-, hspares⟩ := h.spares cfg env hns hok
    have hlaw' := hspares.lawful hlaw
    have hbefore := exec_lawful _ _ (reapTurn_lawful env hlaw')
    rw [(loopTop_same _).2.1] at hbefore
    exact hspares.serving i ((hserve hbefore).wake ht hok.terminate hok.quit hlaw' hf).1

/-- Once `exec_new_binary` has failed, every reload adds processes and retires none: in runs without
another upgrade `g_new_binary` keeps its value, the alarm is never armed and no signal is sent,
however many reloads and alarms come, and no process that serves is told to quit. -/
theorem failed_upgrade_retires_none (cfg : Settings) (daemonized : Bool) (start : Env)
    (envs₀ envs : List Env) (s₀ s : Supervisor)
    (hs₀ : s₀ = masterProcessCycle cfg daemonized start envs₀)
    (hs : s = masterProcessCycle cfg daemonized start (envs₀ ++ envs))
    (hfailed : s₀.m.newBinary = -1) (hdelayed : s₀.locals.delayShutdownProcess = false)
    (hok : Run.Meets (turn cfg) Upgraded s₀ envs) :
    s.m.newBinary = -1 ∧ s.locals.delayShutdownProcess = false ∧ s.kills = s₀.kills ∧
      ∀ i, Serving s₀.m i →
        Run.Meets (turn cfg) (fun s env => NotFatal i s env.signals) s₀ envs →
        s.kids.lawful = true → Serving s.m i := by
  have hrun : s = Run.exec (turn cfg) s₀ envs := by
    rw [hs, hs₀]
    exact Run.exec_append _ _ _ _
  have hsticks : Sticks s ∧ s.kills = s₀.kills := by
    rw [hrun]
    exact Run.invariant (turn cfg) (I := fun s => Sticks s ∧ s.kills = s₀.kills)
      ⟨⟨hfailed, hdelayed⟩, rfl⟩
      (fun s env hs hok => ⟨(hs.1.turn cfg env hok).1, (hs.1.turn cfg env hok).2.trans hs.2⟩) hok
  refine ⟨hsticks.1.newBinary, hsticks.1.delayed, hsticks.2, fun i hserve hfatal hlaw => ?_⟩
  have hboth : Run.Meets (turn cfg) (fun s env => Upgraded s env ∧ NotFatal i s env.signals) s₀
      envs := fun pre env post hp => ⟨hok pre env post hp, hfatal pre env post hp⟩
  have htrack : Tracked s₀ := hs₀ ▸ tracked_run cfg daemonized start envs₀
  have hinv := Run.invariant (turn cfg)
    (I := fun s => Tracked s ∧ Sticks s ∧ (s.kids.lawful = true → Serving s.m i))
    ⟨htrack, ⟨hfailed, hdelayed⟩, fun _ => hserve⟩
    (fun s env hs hok => ⟨kept_tracked.turn cfg env hs.1, (hs.2.1.turn cfg env hok.1).1,
      hs.2.1.serving hs.1 cfg env hok.1 hok.2 hs.2.2⟩) hboth
  rw [← hrun] at hinv
  exact hinv.2.2 hlaw

instance (s : Supervisor) (env : Env) : Decidable (Upgraded s env) :=
  decidable_of_iff ((wake env s).m.terminate = false ∧ (wake env s).m.quit = false ∧
    (wake env s).flags.changeBinary = false ∧ (wake env s).flags.noaccept = false)
    ⟨fun ⟨a, b, c, d⟩ => ⟨a, b, c, d⟩, fun ⟨a, b, c, d⟩ => ⟨a, b, c, d⟩⟩

end Upgrade

/-- A reload of two workers and the monitor, with an exit before its alarm. -/
def reloadEnv : Env :=
  { quietEnv with
    signals := [.reconfigure]
    workers := fun i => .child (200 + i) (30 + 2 * i, 31 + 2 * i)
    monitor := .child 202 (34, 35) }

def rolling : Supervisor :=
  turn ⟨2, false⟩ (Run.exec (turn ⟨2, false⟩)
    (turn ⟨2, false⟩ (masterProcessCycle ⟨2, false⟩ true quietEnv []) reloadEnv) [nextEnv])
    { quietEnv with signals := [.alarm] }

/-- Slot 0 is of the old generation, slot 3 of the new one. -/
theorem reload_rolls_two :
    ((rolling.m.processes 0).exiting = true ∨ (rolling.m.processes 0).exited = true ∨
      true = false ∧ Kill.done = .refused) ∧
    Serving rolling.m 3 ∧ rolling.justSpawn 3 = false := by
  have h := fun i => reload_rolls ⟨2, false⟩ true quietEnv [] [nextEnv] reloadEnv
    { quietEnv with signals := [.alarm] } _ _ _ rolling rfl rfl rfl rfl
    ⟨by decide +kernel, by decide +kernel, by decide +kernel, by decide +kernel, by decide +kernel,
      by decide +kernel, rfl⟩
    (Run.meets_of_check _ (by decide +kernel))
    ⟨by decide +kernel, by decide +kernel, by decide +kernel, by decide +kernel, by decide +kernel,
      by decide +kernel, by decide +kernel, by decide +kernel, by decide +kernel⟩
    (by decide +kernel) i
  exact ⟨(h 0).1 ⟨by decide +kernel, by decide +kernel⟩ (by decide +kernel)
      ⟨by decide +kernel, by decide +kernel⟩,
    (h 3).2 ⟨by decide +kernel, by decide +kernel⟩ (by
      rintro ⟨hlt, -⟩
      exact absurd hlt (by decide +kernel)) (Run.meets_of_check _ (by decide +kernel))⟩

/-- `SIGUSR2` with a rename that fails, then a reload and an alarm. -/
def upgradeEnv : Env := { quietEnv with signals := [.changeBinary 1] }

theorem failed_upgrade_retires_none_two :
    let s := masterProcessCycle ⟨2, false⟩ true quietEnv
      ([upgradeEnv] ++ [reloadEnv, { quietEnv with signals := [.alarm] }])
    s.kids.pids.length = 6 ∧ s.kills = [] ∧ Serving s.m 0 :=
  have h := failed_upgrade_retires_none ⟨2, false⟩ true quietEnv [upgradeEnv]
    [reloadEnv, { quietEnv with signals := [.alarm] }] _ _ rfl rfl (by decide +kernel)
    (by decide +kernel) (Run.meets_of_check _ (by decide +kernel))
  ⟨by decide +kernel, h.2.2.1.trans (by decide +kernel),
    h.2.2.2 0 ⟨⟨by decide +kernel, by decide +kernel⟩, by decide +kernel, by decide +kernel⟩
      (Run.meets_of_check _ (by decide +kernel)) (by decide +kernel)⟩

end ProcessCycle
end Shs
