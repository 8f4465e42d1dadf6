import Shs.Process.Children

/-!
# Process.Shutdown

How the master ends. Told to terminate or to quit it forks no more, it leaves the loop in the
round in which the last of its workers has been waited for, and with every alarm it tells the
workers again, from the fourth one on by `SIGKILL`.
-/

namespace Shs
namespace ProcessCycle

/-- No slot counts for `live`. -/
def Idle (m : Master) : Prop := ∀ i < m.lastProcess, running (m.processes i) = false

/-- The master has been told to terminate or to quit. -/
def Supervisor.shutting (s : Supervisor) : Bool := s.m.terminate || s.m.quit

theorem running_iff (p : Process) : running p = true ↔
    p.pid ≠ -1 ∧ p.exited = false ∧ (p.exiting = true ∨ p.detached = false) := by
  simp [running, and_assoc]

/-! ## The reaper -/

section Reaper

variable {spawns : Nat → Spawn}

/-- What slot `i` adds to `live` is whether it counts for it behind the pass, but for a slot that
has been respawned. -/
theorem reapSlot_running (spawns : Nat → Spawn) (i : Nat) (r : Reap) :
    ∃ live, (reapSlot spawns i r).live = (r.live || live) ∧
      (∀ j, j ≠ i → (reapSlot spawns i r).m.processes j = r.m.processes j) ∧
      ((reapSlot spawns i r).m.lastProcess = r.m.lastProcess ∧
          running ((reapSlot spawns i r).m.processes i) = live ∨
        (reapSlot spawns i r).m.lastProcess = r.m.lastProcess ∧ live = true ∧
          respawns (r.m.processes i) r.m = true ∨
        (reapSlot spawns i r).m.lastProcess = i ∧ i + 1 = r.m.lastProcess ∧ live = false) := by
  obtain ⟨live, hcase, hlive⟩ := reapSlot_cases spawns i r
  refine ⟨live, hlive, ?_⟩
  cases hcase with
  | kept _ hm hl =>
    rw [hm]
    exact ⟨fun _ _ => rfl, .inl ⟨rfl, hl.symm⟩⟩
  | respawned hslot pid c _ hl hlast hentry =>
    exact ⟨hentry.others, .inr (.inl ⟨hlast, hl, hslot⟩)⟩
  | failed hslot _ hl hlast c hentry =>
    simp only [respawns, Bool.and_eq_true] at hslot
    refine ⟨hentry.others, .inl ⟨hlast, ?_⟩⟩
    rw [hentry.slot, hl]
    simp [running, hslot.1.1.1.1.2]
  | dropped _ _ hl hothers hgone =>
    refine ⟨hothers, ?_⟩
    rcases hgone with ⟨hend, hlast⟩ | ⟨-, hlast, hpid⟩
    · exact .inr (.inr ⟨hlast, hend, hl⟩)
    · refine .inl ⟨hlast, ?_⟩
      rw [hl]
      simp [running, hpid]

/-- If the pass finds no live process, then none is left. -/
theorem idle_of_reapChildren (spawns : Nat → Spawn) (m : Master)
    (h : (reapChildren spawns m).live = false) : Idle (reapChildren spawns m).m := by
  have hstep : ∀ i r (_ : Kids), i < r.m.lastProcess →
      (r.live = false → ∀ j < r.m.lastProcess, j < i → running (r.m.processes j) = false) →
      (reapSlot spawns i r).live = false → ∀ j < (reapSlot spawns i r).m.lastProcess, j < i + 1 →
        running ((reapSlot spawns i r).m.processes j) = false := by
    intro i r _ hi hP hl j hj hji
    obtain ⟨live, hlive, hothers, hself⟩ := reapSlot_running spawns i r
    rw [hlive, Bool.or_eq_false_iff] at hl
    rcases Nat.lt_succ_iff_lt_or_eq.1 hji with hlt | rfl
    · rw [hothers j (by omega)]
      refine hP hl.1 j ?_ hlt
      omega
    · rcases hself with ⟨-, hrun⟩ | ⟨-, htrue, -⟩ | ⟨hlast, -, -⟩
      · rw [hrun, hl.2]
      · rw [htrue] at hl
        cases hl.2
      · omega
  obtain ⟨i', hle, hend⟩ := reapLoop_rule m.lastProcess hstep 0 (startReap m) {}
    (fun _ j _ hj => absurd hj (Nat.not_lt_zero j)) (Nat.le_of_eq (Nat.zero_add _).symm)
  exact fun j hj => hend h j hj (Nat.lt_of_lt_of_le hj hle)

/-- What the pass leaves of a master that is shutting down: the globals, no new processes, and
`live` as it should be. -/
structure Reaped (m : Master) (k : Kids) (r : Reap) (k' : Kids) : Prop where
  kids : k' = k
  terminate : r.m.terminate = m.terminate
  quit : r.m.quit = m.quit
  slots : ∀ j < r.m.lastProcess,
    r.m.processes j = m.processes j ∨ (r.m.processes j).pid = -1
  last : r.m.lastProcess ≤ m.lastProcess

theorem respawns_shutting {m : Master} (h : (m.terminate || m.quit) = true) (p : Process) :
    respawns p m = false := by
  rcases Bool.or_eq_true_iff.1 h with h | h <;> simp [respawns, h]

theorem reapLoop_shutting (spawns : Nat → Spawn) (m : Master) (k : Kids)
    (h : (m.terminate || m.quit) = true) :
    Reaped m k (reapChildren spawns m) (reapLoopKids spawns m.lastProcess 0 (startReap m) k) ∧
      (Idle (reapChildren spawns m).m → (reapChildren spawns m).live = false) := by
  have hstep : ∀ i r k₁, i < r.m.lastProcess →
      Reaped m k r k₁ ∧
        ((∀ j < r.m.lastProcess, j < i → running (r.m.processes j) = false) → r.live = false) →
      Reaped m k (reapSlot spawns i r)
          (if respawns (r.m.processes i) r.m then k₁.fork i r.m (spawns i) else k₁) ∧
        ((∀ j < (reapSlot spawns i r).m.lastProcess, j < i + 1 →
          running ((reapSlot spawns i r).m.processes j) = false) →
            (reapSlot spawns i r).live = false) := by
    intro i r k₁ hi hP
    obtain ⟨hr, hP⟩ := hP
    have hshut : (r.m.terminate || r.m.quit) = true := by rw [hr.terminate, hr.quit, h]
    have hno := respawns_shutting hshut (r.m.processes i)
    rw [if_neg (by simp [hno])]
    refine ⟨?_, fun hidle => ?_⟩
    · obtain ⟨live, hcase, -⟩ := reapSlot_cases spawns i r
      cases hcase with
      | kept _ hm _ => exact ⟨hr.kids, by rw [hm, hr.terminate], by rw [hm, hr.quit],
          by rw [hm]; exact hr.slots, by rw [hm]; exact hr.last⟩
      | respawned hslot | failed hslot =>
        rw [hno] at hslot
        cases hslot
      | dropped _ _ _ hothers hgone _ _ hterminate hquit =>
        have hle : (reapSlot spawns i r).m.lastProcess ≤ r.m.lastProcess := by
          rcases hgone with ⟨_, hlast⟩ | ⟨_, hlast, _⟩ <;> omega
        refine ⟨hr.kids, hterminate.trans hr.terminate, hquit.trans hr.quit, fun j hj => ?_,
          Nat.le_trans hle hr.last⟩
        by_cases hji : j = i
        · rcases hgone with ⟨_, hlast⟩ | ⟨_, _, hpid⟩
          · omega
          · exact .inr (hji ▸ hpid)
        · rw [hothers j hji]
          exact hr.slots j (Nat.lt_of_lt_of_le hj hle)
    · obtain ⟨live, hlive, hothers, hself⟩ := reapSlot_running spawns i r
      rw [hlive, Bool.or_eq_false_iff]
      refine ⟨hP fun j hj hji => ?_, ?_⟩
      · rw [← hothers j (by omega)]
        refine hidle j ?_ (by omega)
        rcases hself with ⟨hlast, -⟩ | ⟨hlast, -⟩ | ⟨hlast, -⟩ <;> omega
      · rcases hself with ⟨hlast, hrun⟩ | ⟨-, -, hres⟩ | ⟨-, -, hl⟩
        · rw [← hrun]
          exact hidle i (by omega) (Nat.lt_succ_self i)
        · rw [hno] at hres
          cases hres
        · exact hl
  obtain ⟨i', hle, hr, hend⟩ := reapLoop_rule m.lastProcess hstep 0 (startReap m) k
    ⟨⟨rfl, rfl, rfl, fun _ _ => .inl rfl, Nat.le_refl _⟩, fun _ => rfl⟩
    (Nat.le_of_eq (Nat.zero_add _).symm)
  exact ⟨hr, fun hidle => hend fun j hj _ => hidle j hj⟩

end Reaper

/-! ## Detached processes -/

/-- A detached process is never told to exit. -/
def DetachedStay (m : Master) : Prop :=
  ∀ i < m.lastProcess, (m.processes i).pid ≠ -1 → (m.processes i).detached = true →
    (m.processes i).exiting = false

theorem DetachedStay.entered {m m' : Master} {i : Nat} {p : Process} (h : DetachedStay m)
    (hentry : Entered i p m m') (hl : ∀ j < m'.lastProcess, j ≠ i → j < m.lastProcess)
    (hp : p.pid ≠ -1 → p.detached = true → p.exiting = false) : DetachedStay m' := by
  intro j hj
  by_cases hji : j = i
  · rw [hji, hentry.slot]
    exact hp
  · rw [hentry.others j hji]
    exact h j (hl j hj hji)

theorem DetachedStay.reapTurn {s : Supervisor} (h : DetachedStay s.m) (env : Env) :
    DetachedStay (reapTurn env s).m := by
  unfold ProcessCycle.reapTurn
  split
  · have hstep : ∀ i r (_ : Kids), i < r.m.lastProcess → DetachedStay r.m →
        DetachedStay (reapSlot env.respawns i r).m := by
      intro i r _ hi hr
      have hself : ∀ pid, respawns (r.m.processes i) r.m = true → pid ≠ (-1 : Int) →
          (r.m.processes i).detached = true → (r.m.processes i).exiting = false := by
        intro pid hslot _ hd
        simp only [respawns, Bool.and_eq_true, bne_iff_ne] at hslot
        exact hr i hi hslot.1.1.1.1.1 hd
      obtain ⟨live, hcase, -⟩ := reapSlot_cases env.respawns i r
      cases hcase with
      | kept _ hm _ => exact hm ▸ hr
      | respawned hslot pid c _ _ hlast hentry =>
        exact hr.entered hentry (fun j hj _ => hlast ▸ hj) (hself pid hslot)
      | failed hslot _ _ hlast c hentry =>
        exact hr.entered hentry (fun j hj _ => hlast ▸ hj) (hself _ hslot)
      | dropped _ _ _ hothers hgone =>
        intro j hj hp
        have hji : j ≠ i ∧ j < r.m.lastProcess := by
          rcases hgone with ⟨hend, hlast⟩ | ⟨-, hlast, hpid⟩
          · omega
          · exact ⟨fun hji => hp (hji ▸ hpid), by omega⟩
        rw [hothers j hji.1] at hp ⊢
        exact hr j hji.2 hp
    obtain ⟨-, -, hend⟩ := reapLoop_rule s.m.lastProcess hstep 0 (startReap s.m) s.kids h
      (Nat.le_of_eq (Nat.zero_add _).symm)
    exact hend
  · exact h

theorem kept_detachedStay : Kept fun s => DetachedStay s.m where
  congr := by
    intro s s' h hp hl _ _ j hj
    rw [hp]
    exact h j (hl ▸ hj)
  spawn := by
    intro s kind answer h
    cases spawnKind_cases kind answer s with
    | failed table =>
      intro j hj
      obtain ⟨c, hc⟩ := table.slots j
      rw [hc]
      exact h j (table.last ▸ hj)
    | entered pid c _ _ slot last =>
      refine h.entered slot (fun j hj hji => ?_) fun _ _ => rfl
      rw [last] at hj
      split at hj <;> omega
  slot := by
    intro s signo told i hi h j hj
    obtain ⟨hslot, hsame⟩ := signalSlot_told signo told s i
    rw [hsame.last] at hj
    by_cases hji : j = i
    · subst hji
      intro hp hd
      rw [hslot.slot, toldProcess_pid] at hp
      rw [hslot.slot, toldProcess_detached] at hd
      rw [hslot.slot]
      unfold toldProcess
      rw [if_pos (.inl hd)]
      exact h j hj hp hd
    · rw [hslot.others j hji]
      exact h j hj
  status := by
    intro s waits h j hj hp hd
    have hlow := getStatus_lowered waits s j
    rw [hlow.pid] at hp
    rw [hlow.detached] at hd
    rw [hlow.exiting]
    exact h j hj hp hd
  reap := fun _ env h => h.reapTurn env

/-! ## `live` -/

/-- `live` is only false while no worker runs, and the master has stopped only then. -/
structure LiveInv (s : Supervisor) : Prop where
  live : s.locals.live = false → Idle s.m
  stopped : s.stopped = true → Idle s.m

section Live

variable {s s' : Supervisor}

theorem Idle.signalled (h : Idle s.m) (hs : Signalled s s') : Idle s'.m := by
  intro i hi
  rw [hs.last] at hi
  have hlow := hs.slots i
  have hrun := h i hi
  by_contra hne
  obtain ⟨hp, he, hd⟩ := (running_iff _).1 (by simpa using hne)
  rw [hlow.pid] at hp
  rw [hlow.exiting, hlow.detached] at hd
  have he' : (s.m.processes i).exited = false := by
    by_contra hex
    rw [hlow.exited (by simpa using hex)] at he
    cases he
  rw [(running_iff _).2 ⟨hp, he', hd⟩] at hrun
  cases hrun

/-- A process counts for `live` after it was told only if it did before. -/
theorem running_toldProcess {signo : Signo} {written just : Bool} {kill : Kill} {p : Process}
    (h : running p = false) : running (toldProcess signo written kill just p) = false := by
  by_cases hd : p.detached = true ∨ p.pid = -1
  · unfold toldProcess
    rw [if_pos (by tauto)]
    exact h
  · obtain ⟨hd, hp⟩ := not_or.1 hd
    by_contra hne
    obtain ⟨-, he, -⟩ := (running_iff _).1 (by simpa using hne)
    have he' : p.exited = false := by
      rcases toldProcess_exited signo written kill just p with hsame | ⟨-, htrue⟩
      · rw [← hsame, he]
      · rw [htrue] at he
        cases he
    rw [(running_iff _).2 ⟨hp, he', .inr (by simpa using hd)⟩] at h
    cases h

theorem Idle.told (h : Idle s.m) (signo : Signo) (told : Answers) :
    Idle (signalWorkerProcesses signo told s).m := by
  have hall := signalWorkerProcesses_told signo told s
  intro i hi
  rw [hall.same.last] at hi
  rw [hall.slots i (List.mem_range.2 hi)]
  exact running_toldProcess (h i hi)

theorem LiveInv.told (h : LiveInv s) (signo : Signo) (told : Answers) :
    LiveInv (signalWorkerProcesses signo told s) := by
  have hsame := (signalWorkerProcesses_told signo told s).same
  refine ⟨fun hl => ?_, fun hs => ?_⟩
  · rw [hsame.locals] at hl
    exact (h.live hl).told signo told
  · rw [hsame.stopped] at hs
    exact (h.stopped hs).told signo told

theorem LiveInv.wake (h : LiveInv s) (hns : s.stopped = false) (env : Env) :
    LiveInv (wake env s) ∧ (ProcessCycle.wake env s).stopped = false := by
  have htop : Idle s.m → Idle (loopTop s).m := by
    intro hi
    unfold loopTop
    dsimp only
    split <;> split <;> exact hi
  have hlive : (loopTop s).locals.live = s.locals.live ∧ (loopTop s).stopped = s.stopped := by
    unfold loopTop
    dsimp only
    split <;> split <;> exact ⟨rfl, rfl⟩
  have hsig := exec_signalHandler env.signals (loopTop s)
  have hstop : (Run.exec signalHandler (loopTop s) env.signals).stopped = false := by
    rw [hsig.stopped, hlive.2, hns]
  unfold ProcessCycle.wake reapTurn
  split
  · exact ⟨⟨fun hl => idle_of_reapChildren _ _ hl, fun hs => absurd (hstop.symm.trans hs) (by simp)⟩,
      hstop⟩
  · refine ⟨⟨fun hl => ?_, fun hs => absurd (hstop.symm.trans hs) (by simp)⟩, hstop⟩
    rw [hsig.locals, hlive.1] at hl
    exact (htop (h.live hl)).signalled hsig

/-- The reload is put off: one is under way that began less than 150 seconds ago. -/
def PutOff (env : Env) (w : Supervisor) : Prop :=
  w.locals.delayShutdownProcess = true ∧ w.locals.lastReconfig ≠ 0 ∧
    env.now - w.locals.lastReconfig < 150

/-- The round starts the processes of a reload: it has come to `g_reconfigure`, and neither the time
since the last reload nor the hook keeps it from them. -/
structure StartsReload (s : Supervisor) (env : Env) : Prop where
  running : s.stopped = false
  terminate : (ProcessCycle.wake env s).m.terminate = false
  quit : (ProcessCycle.wake env s).m.quit = false
  reconfigure : (ProcessCycle.wake env s).flags.reconfigure = true
  due : ¬ PutOff env (ProcessCycle.wake env s)
  hook : (ProcessCycle.wake env s).m.newBinary ≠ 0 ∨ env.reload = true

/-- A reload starts new processes only while `live` holds. -/
def ReloadsLive (s : Supervisor) (env : Env) : Prop :=
  StartsReload s env → (ProcessCycle.wake env s).locals.live = true

theorem LiveInv.ofLive (hl : s.locals.live = true) (hs : s.stopped = false) : LiveInv s :=
  ⟨fun h => absurd (hl.symm.trans h) (by simp), fun h => absurd (hs.symm.trans h) (by simp)⟩

theorem Idle.execNewBinary (h : Idle s.m) (answer : Option Spawn) :
    Idle (execNewBinary answer s).m := by
  cases answer with
  | none => exact h
  | some answer =>
    show Idle { (spawnKind .detached answer s).m with newBinary := _ }
    intro i hi
    cases spawnKind_cases .detached answer s with
    | failed table =>
      obtain ⟨c, hc⟩ := table.slots i
      have hrun := h i (table.last ▸ hi)
      show running ((spawnKind .detached answer s).m.processes i) = false
      rw [hc]
      exact hrun
    | entered pid c _ _ slot last =>
      show running ((spawnKind .detached answer s).m.processes i) = false
      have hi' : i < (spawnKind .detached answer s).m.lastProcess := hi
      by_cases hnew : i = newSlot s.m
      · rw [hnew, slot.slot]
        simp [running, newProcess]
      · rw [slot.others i hnew]
        refine h i ?_
        rw [last] at hi'
        split at hi' <;> omega

/-- One round, in which a reload finds `live`. -/
theorem LiveInv.turn (h : LiveInv s) (cfg : Settings) (env : Env) (hok : ReloadsLive s env) :
    LiveInv (turn cfg s env) := by
  unfold ProcessCycle.turn
  split
  · exact h
  rename_i hns
  obtain ⟨hw, hstop⟩ := h.wake (by simpa using hns) env
  have hstarts : (ProcessCycle.wake env s).m.terminate = false →
      (ProcessCycle.wake env s).m.quit = false →
      (ProcessCycle.wake env s).flags.reconfigure = true →
      ¬ PutOff env (ProcessCycle.wake env s) →
      (ProcessCycle.wake env s).m.newBinary ≠ 0 ∨ env.reload = true →
      (ProcessCycle.wake env s).locals.live = true :=
    fun hterm hquit hrec hdue hhook => hok ⟨by simpa using hns, hterm, hquit, hrec, hdue, hhook⟩
  generalize ProcessCycle.wake env s = w at hw hstop hstarts
  unfold act
  by_cases hexit : (!w.locals.live && (w.m.terminate || w.m.quit)) = true
  · rw [if_pos hexit]
    have hl : w.locals.live = false := by
      simp only [Bool.and_eq_true, Bool.not_eq_true'] at hexit
      exact hexit.1
    exact ⟨fun _ => hw.live hl, fun _ => hw.live hl⟩
  rw [if_neg hexit]
  by_cases hterm : w.m.terminate = true
  · rw [if_pos hterm]
    unfold terminateTurn
    dsimp only
    split
    · exact ⟨hw.live, hw.stopped⟩
    · split
      · exact ⟨hw.live, hw.stopped⟩
      · split
        · apply LiveInv.told
          exact ⟨hw.live, hw.stopped⟩
        · apply LiveInv.told
          exact ⟨hw.live, hw.stopped⟩
  rw [if_neg hterm]
  by_cases hquit : w.m.quit = true
  · rw [if_pos hquit]
    exact hw.told _ _
  rw [if_neg hquit]
  by_cases hrec : w.flags.reconfigure = true
  · rw [if_pos hrec]
    -- a reload that starts nothing leaves `live` and the processes as they are
    have hnone : ∀ l : Locals, l.live = w.locals.live → LiveInv
        { w with flags := { w.flags with reconfigure := false }, locals := l } :=
      fun l hl => ⟨fun h => hw.live (hl.symm.trans h), hw.stopped⟩
    have hstarts := hstarts (by simpa using hterm) (by simpa using hquit) hrec
    unfold reconfigureTurn
    dsimp only
    have hstart : ∀ (kind : Respawn) (w' : Supervisor), w'.locals.live = true → w'.stopped = false →
        (startAll cfg kind env w').locals.live = true ∧
          (startAll cfg kind env w').stopped = false := by
      intro kind w' hl' hs'
      have hloop := startAll_loop cfg kind env w'
      rw [hloop.locals, hloop.stopped]
      exact ⟨hl', hs'⟩
    split
    · exact hnone w.locals rfl
    · rename_i hdue
      split
      · rename_i hbinary
        have hs := hstart .respawn { w with
          flags := { w.flags with reconfigure := false }
          locals := { w.locals with lastReconfig := env.now } } (hstarts hdue (.inl hbinary)) hstop
        exact .ofLive hs.1 hs.2
      · split
        · rename_i hhook
          have hs := hstart .justRespawn { w with
            flags := { w.flags with reconfigure := false }
            locals := { w.locals with lastReconfig := env.now } } (hstarts hdue (.inr hhook)) hstop
          split
          · exact .ofLive hs.1 hs.2
          · exact .ofLive hs.1 hs.2
        · exact hnone { w.locals with lastReconfig := env.now } rfl
  rw [if_neg hrec]
  have halarm : LiveInv (alarmTurn env w) ∧ (alarmTurn env w).stopped = false := by
    unfold alarmTurn
    split
    · refine ⟨?_, ?_⟩
      · apply LiveInv.told
        exact .ofLive rfl hstop
      · rw [(signalWorkerProcesses_told _ _ _).same.stopped]
        exact hstop
    · exact ⟨hw, hstop⟩
  have hrestart : LiveInv (restartTurn cfg env (alarmTurn env w)) ∧
      (restartTurn cfg env (alarmTurn env w)).stopped = false := by
    unfold restartTurn
    split
    · have hs : (startAll cfg .respawn env { alarmTurn env w with
          m := { (alarmTurn env w).m with restart := false } }).stopped = false := by
        rw [(startAll_loop cfg .respawn env _).stopped]
        exact halarm.2
      exact ⟨.ofLive rfl hs, hs⟩
    · exact halarm
  have hbinary : LiveInv (changeBinaryTurn env (restartTurn cfg env (alarmTurn env w))) := by
    unfold changeBinaryTurn
    split
    · have hloop := execNewBinary_loop env.binary
        { restartTurn cfg env (alarmTurn env w) with
          flags := { (restartTurn cfg env (alarmTurn env w)).flags with changeBinary := false } }
      refine ⟨fun hl => ?_, fun hs => ?_⟩
      · rw [hloop.locals] at hl
        apply Idle.execNewBinary
        exact hrestart.1.live hl
      · rw [hloop.stopped] at hs
        apply Idle.execNewBinary
        exact hrestart.1.stopped hs
    · exact hrestart.1
  unfold noacceptTurn
  split
  · apply LiveInv.told
    exact ⟨hbinary.live, hbinary.stopped⟩
  · exact hbinary

end Live

/-! ## Every worker is waited for before the master ends -/

/-- Only detached children are left. -/
def WorkersGone (s : Supervisor) : Prop :=
  ∀ pid ∈ s.kids.pids, ∃ i < s.m.lastProcess,
    (s.m.processes i).pid = pid ∧ (s.m.processes i).detached = true

section Ends

variable {s : Supervisor}

theorem idle_iff_workersGone (hk : Known s.m s.kids) (hd : DetachedStay s.m) :
    Idle s.m ↔ WorkersGone s := by
  constructor
  · intro hidle pid hpid
    obtain ⟨i, hi, hp, he⟩ := hk.entry pid hpid
    have hpos := hk.pos pid hpid
    refine ⟨i, hi, hp, ?_⟩
    by_contra hdet
    have hrun := (running_iff (s.m.processes i)).2 ⟨by omega, he, .inr (by simpa using hdet)⟩
    rw [hidle i hi] at hrun
    cases hrun
  · intro hgone i hi
    by_contra hrun
    obtain ⟨hp, he, hor⟩ := (running_iff _).1 (by simpa using hrun)
    obtain ⟨j, hj, hpj, hdj⟩ := hgone _ (hk.child i hi hp he)
    obtain rfl := hk.apart j i hj hi hpj (by rw [hpj]; exact hp)
    have hex := hd j hi hp hdj
    rcases hor with h | h
    · rw [hex] at h
      cases h
    · rw [hdj] at h
      cases h

variable (cfg : Settings) (daemonized : Bool) (start : Env)

theorem detachedStay_run (envs : List Env) :
    DetachedStay (masterProcessCycle cfg daemonized start envs).m :=
  kept_detachedStay.run cfg daemonized start envs fun i hi => absurd hi (Nat.not_lt_zero i)

theorem liveInv_run {envs : List Env}
    (hok : Run.Meets (turn cfg) ReloadsLive (masterStart cfg daemonized start) envs) :
    LiveInv (masterProcessCycle cfg daemonized start envs) := by
  have hloop := startAll_loop cfg .respawn start { m := World.init.m, daemonized := daemonized }
  refine Run.invariant (turn cfg) ?_ (fun s env h hs => h.turn cfg env hs) hok
  refine .ofLive ?_ ?_
  · show (startAll cfg .respawn start _).locals.live = true
    rw [hloop.locals]
  · show (startAll cfg .respawn start _).stopped = false
    rw [hloop.stopped]

/-- In every run in which no reload starts processes while `live` is false, the master exits with
all children but detached ones waited for. -/
theorem exit_leaves_no_worker {envs : List Env}
    (hok : Run.Meets (turn cfg) ReloadsLive (masterStart cfg daemonized start) envs)
    (hlaw : (masterProcessCycle cfg daemonized start envs).kids.lawful = true)
    (hstop : (masterProcessCycle cfg daemonized start envs).stopped = true) :
    WorkersGone (masterProcessCycle cfg daemonized start envs) :=
  (idle_iff_workersGone (tracked_run cfg daemonized start envs hlaw)
    (detachedStay_run cfg daemonized start envs)).1
      ((liveInv_run cfg daemonized start hok).stopped hstop)

end Ends

instance (env : Env) (w : Supervisor) : Decidable (PutOff env w) :=
  inferInstanceAs (Decidable (_ ∧ _))

instance (s : Supervisor) (env : Env) : Decidable (StartsReload s env) :=
  decidable_of_iff (s.stopped = false ∧ (wake env s).m.terminate = false ∧
    (wake env s).m.quit = false ∧ (wake env s).flags.reconfigure = true ∧
    ¬ PutOff env (wake env s) ∧ ((wake env s).m.newBinary ≠ 0 ∨ env.reload = true))
    ⟨fun ⟨a, b, c, d, e, f⟩ => ⟨a, b, c, d, e, f⟩, fun ⟨a, b, c, d, e, f⟩ => ⟨a, b, c, d, e, f⟩⟩

instance (s : Supervisor) (env : Env) : Decidable (ReloadsLive s env) :=
  inferInstanceAs (Decidable (_ → _))

/-- Both workers and the monitor exit, one after the other, once `SIGTERM` has come. -/
def endingEnvs : List Env :=
  [{ quietEnv with signals := [.terminate] },
   { quietEnv with signals := [.child [.child 100 0, .child 101 0, .nothing]] },
   { quietEnv with signals := [.child [.child 102 0, .nothing]] }]

theorem exit_leaves_no_worker_ending :
    (masterProcessCycle ⟨2, false⟩ true quietEnv endingEnvs).stopped = true ∧
      WorkersGone (masterProcessCycle ⟨2, false⟩ true quietEnv endingEnvs) :=
  ⟨by decide +kernel, exit_leaves_no_worker ⟨2, false⟩ true quietEnv
    (Run.meets_of_check _ (by decide +kernel)) (by decide +kernel) (by decide +kernel)⟩

/-- All processes exit with 2, so that none is left. A reload then starts new ones, and `SIGTERM`
ends the master before these have exited. -/
example : (fun s : Supervisor => (s.kids.lawful, s.stopped, s.kids.pids))
    (masterProcessCycle ⟨2, false⟩ true quietEnv
      [{ quietEnv with
          signals := [.child [.child 100 512, .child 101 512, .child 102 512, .nothing]] },
       { quietEnv with
          signals := [.reconfigure]
          workers := fun i => .child (200 + i) (10 + 2 * i, 11 + 2 * i)
          monitor := .child 202 (14, 15) },
       { quietEnv with signals := [.terminate] }]) = (true, true, [202, 201, 200]) := by
  decide +kernel

/-! ## The last round -/

section LastRound

variable {s : Supervisor}

/-- What a round of a master that is shutting down does behind the reaper. -/
structure Ends (w s' : Supervisor) : Prop where
  last : s'.m.lastProcess = w.m.lastProcess
  pid : ∀ j < w.m.lastProcess, (s'.m.processes j).pid = (w.m.processes j).pid
  detached : ∀ j < w.m.lastProcess, (s'.m.processes j).detached = (w.m.processes j).detached
  pids : s'.kids.pids = w.kids.pids
  lawful : s'.kids.lawful = true → w.kids.lawful = true
  shutting : s'.shutting = true
  stopped : s'.stopped = true ↔ w.locals.live = false

theorem loopTop_same (s : Supervisor) : (loopTop s).m = s.m ∧ (loopTop s).kids = s.kids ∧
    (loopTop s).stopped = s.stopped ∧ (loopTop s).justSpawn = s.justSpawn ∧
    (loopTop s).kills = s.kills := by
  unfold loopTop
  dsimp only
  split <;> split <;> exact ⟨rfl, rfl, rfl, rfl, rfl⟩

theorem shutting_iff (s : Supervisor) :
    s.shutting = true ↔ s.m.terminate = true ∨ s.m.quit = true := by
  simp [Supervisor.shutting]

theorem Signalled.shutting {s s' : Supervisor} (h : Signalled s s') (hs : s.shutting = true) :
    s'.shutting = true := by
  rw [shutting_iff] at hs ⊢
  rcases hs with hs | hs
  · exact .inl (h.terminate hs)
  · exact .inr (h.quit hs)

/-- Up to the reaper: nothing is forked. -/
theorem wake_shutting (env : Env) (h : s.shutting = true) :
    (wake env s).shutting = true ∧ (wake env s).kids.pids.Sublist s.kids.pids ∧
      (wake env s).stopped = s.stopped := by
  obtain ⟨htop, hkids, hstop, -, -⟩ := loopTop_same s
  have hsig := exec_signalHandler env.signals (loopTop s)
  have hshut : (Run.exec signalHandler (loopTop s) env.signals).shutting = true :=
    hsig.shutting (by rw [Supervisor.shutting, htop]; exact h)
  have hpids := hsig.pids
  rw [hkids] at hpids
  have hstop' := hsig.stopped.trans hstop
  unfold wake
  generalize Run.exec signalHandler (loopTop s) env.signals = u at hshut hpids hstop'
  unfold reapTurn
  split
  · obtain ⟨hr, -⟩ := reapLoop_shutting env.respawns u.m u.kids hshut
    refine ⟨?_, ?_, hstop'⟩
    · show ((reapChildren env.respawns u.m).m.terminate || (reapChildren env.respawns u.m).m.quit) = true
      rw [hr.terminate, hr.quit]
      exact hshut
    · show (reapLoopKids _ _ _ _ u.kids).pids.Sublist _
      rw [hr.kids]
      exact hpids
  · exact ⟨hshut, hpids, hstop'⟩

/-- A `SIGCHLD` has `live` say whether a worker runs. -/
theorem wake_live (env : Env) {waits : List Wait} (h : s.shutting = true)
    (hchild : .child waits ∈ env.signals) :
    (wake env s).locals.live = false ↔ Idle (wake env s).m := by
  obtain ⟨htop, -⟩ := loopTop_same s
  have hshut : (Run.exec signalHandler (loopTop s) env.signals).shutting = true :=
    (exec_signalHandler env.signals (loopTop s)).shutting (by rw [Supervisor.shutting, htop]; exact h)
  have hreap := exec_reap hchild (loopTop s)
  unfold wake
  generalize Run.exec signalHandler (loopTop s) env.signals = u at hshut hreap
  unfold reapTurn
  rw [if_pos hreap]
  exact ⟨idle_of_reapChildren _ _, (reapLoop_shutting env.respawns u.m u.kids hshut).2⟩

theorem AllTold.ends {signo : Signo} {told : Answers} {w s' : Supervisor}
    (h : AllTold signo told (List.range w.m.lastProcess) w s') (hw : w.shutting = true)
    (hs : w.stopped = false) (hl : w.locals.live = true) : Ends w s' where
  last := h.same.last
  pid := fun j hj => by rw [h.slots j (List.mem_range.2 hj), toldProcess_pid]
  detached := fun j hj => by rw [h.slots j (List.mem_range.2 hj), toldProcess_detached]
  pids := h.pids
  lawful := h.lawful
  shutting := by rw [Supervisor.shutting, h.same.terminate, h.same.quit]; exact hw
  stopped := by rw [h.same.stopped, hs, hl]; simp

theorem act_shutting (cfg : Settings) (env : Env) {w : Supervisor} (hw : w.shutting = true)
    (hs : w.stopped = false) : Ends w (act cfg env w) := by
  unfold act
  cases hl : w.locals.live with
  | false =>
    have hexit : (!false && (w.m.terminate || w.m.quit)) = true := hw
    rw [if_pos hexit]
    exact ⟨rfl, fun _ _ => rfl, fun _ _ => rfl, rfl, id, hw, by simp [hl]⟩
  | true =>
    rw [if_neg (by simp)]
    by_cases hterm : w.m.terminate = true
    · rw [if_pos hterm]
      unfold terminateTurn
      dsimp only
      have hsame : ∀ l : Locals, l.live = true → Ends w { w with locals := l } := fun l hl' =>
        ⟨rfl, fun _ _ => rfl, fun _ _ => rfl, rfl, id, hw, by simp [hs, hl]⟩
      have htold : ∀ (signo : Signo) (l : Locals), l.live = true →
          Ends w (signalWorkerProcesses signo env.told { w with locals := l }) := by
        intro signo l hl'
        have h := (signalWorkerProcesses_told signo env.told { w with locals := l }).ends hw hs hl'
        have hstop : l.live = false ↔ w.locals.live = false := by rw [hl', hl]
        exact ⟨h.last, h.pid, h.detached, h.pids, h.lawful, h.shutting, h.stopped.trans hstop⟩
      split
      · exact hsame _ hl
      · split
        · exact hsame _ hl
        · split
          · exact htold _ _ hl
          · exact htold _ _ hl
    · rw [if_neg hterm]
      have hquit : w.m.quit = true := by
        rcases (shutting_iff w).1 hw with h | h
        · exact absurd h hterm
        · exact h
      rw [if_pos hquit]
      exact (signalWorkerProcesses_told _ _ w).ends hw hs hl

theorem turn_shutting (cfg : Settings) (env : Env) (h : s.shutting = true)
    (hs : s.stopped = false) : Ends (wake env s) (turn cfg s env) := by
  obtain ⟨hw, -, hstop⟩ := wake_shutting env h
  unfold turn
  rw [if_neg (by simp [hs])]
  exact act_shutting cfg env hw (hstop.trans hs)

/-- A master that is shutting down goes on doing so, and forks no more. -/
theorem run_shutting (cfg : Settings) (envs : List Env) (h : s.shutting = true) :
    (Run.exec (turn cfg) s envs).shutting = true ∧
      (Run.exec (turn cfg) s envs).kids.pids.Sublist s.kids.pids := by
  induction envs generalizing s with
  | nil => exact ⟨h, .refl _⟩
  | cons env envs ih =>
    have hone : (turn cfg s env).shutting = true ∧
        (turn cfg s env).kids.pids.Sublist s.kids.pids := by
      cases hs : s.stopped with
      | true =>
        rw [turn, if_pos hs]
        exact ⟨h, .refl _⟩
      | false =>
        have hend := turn_shutting cfg env h hs
        rw [hend.pids]
        exact ⟨hend.shutting, (wake_shutting env h).2.1⟩
    obtain ⟨hshut, hsub⟩ := ih hone.1
    exact ⟨hshut, hsub.trans hone.2⟩

/-- Once the master has been told to end it forks no more, whatever comes, and a round with a
`SIGCHLD` is its last one if and only if that leaves no child but detached ones. -/
theorem shutdown_completes (cfg : Settings) (daemonized : Bool) (start : Env)
    (envs envs' : List Env) (env : Env) {waits : List Wait}
    (hshut : (masterProcessCycle cfg daemonized start envs).shutting = true)
    (hrun : (masterProcessCycle cfg daemonized start (envs ++ envs')).stopped = false)
    (hchild : .child waits ∈ env.signals)
    (hlaw : (masterProcessCycle cfg daemonized start (envs ++ envs' ++ [env])).kids.lawful = true) :
    (masterProcessCycle cfg daemonized start (envs ++ envs' ++ [env])).kids.pids.Sublist
        (masterProcessCycle cfg daemonized start envs).kids.pids ∧
      ((masterProcessCycle cfg daemonized start (envs ++ envs' ++ [env])).stopped = true ↔
        WorkersGone (masterProcessCycle cfg daemonized start (envs ++ envs' ++ [env]))) := by
  have hrun' : masterProcessCycle cfg daemonized start (envs ++ envs') =
      Run.exec (turn cfg) (masterProcessCycle cfg daemonized start envs) envs' :=
    Run.exec_append _ _ _ _
  have hlast : masterProcessCycle cfg daemonized start (envs ++ envs' ++ [env]) =
      turn cfg (masterProcessCycle cfg daemonized start (envs ++ envs')) env :=
    Run.exec_concat _ _ _ _
  have hstay := kept_detachedStay.wake env (detachedStay_run cfg daemonized start (envs ++ envs'))
  have htracked := kept_tracked.wake env (tracked_run cfg daemonized start (envs ++ envs'))
  obtain ⟨hshut', hsub⟩ := run_shutting cfg envs' hshut
  rw [← hrun'] at hshut' hsub
  rw [hlast] at hlaw ⊢
  generalize masterProcessCycle cfg daemonized start (envs ++ envs') = s at *
  have hend := turn_shutting cfg env hshut' hrun
  obtain ⟨-, hsub', -⟩ := wake_shutting env hshut'
  have hgone := idle_iff_workersGone (htracked (hend.lawful hlaw)) hstay
  refine ⟨?_, ?_⟩
  · rw [hend.pids]
    exact hsub'.trans hsub
  · rw [hend.stopped, wake_live env hshut' hchild, hgone]
    -- the workers are told behind the reaper, but pids and children stay
    unfold WorkersGone
    rw [hend.pids, hend.last]
    refine forall₂_congr fun pid _ => exists_congr fun i => ?_
    refine and_congr_right fun hi => ?_
    rw [hend.pid i hi, hend.detached i hi]

end LastRound

theorem shutdown_completes_ending :
    (masterProcessCycle ⟨2, false⟩ true quietEnv endingEnvs).stopped = true ∧
      ((masterProcessCycle ⟨2, false⟩ true quietEnv endingEnvs).stopped = true ↔
        WorkersGone (masterProcessCycle ⟨2, false⟩ true quietEnv endingEnvs)) :=
  ⟨by decide +kernel, (shutdown_completes ⟨2, false⟩ true quietEnv
    [{ quietEnv with signals := [.terminate] }]
    [{ quietEnv with signals := [.child [.child 100 0, .child 101 0, .nothing]] }]
    { quietEnv with signals := [.child [.child 102 0, .nothing]] } (by decide +kernel)
    (by decide +kernel) List.mem_cons_self (by decide +kernel)).2⟩

/-! ## From `SIGTERM` to `SIGKILL` -/

/-- How many rounds begin with an alarm to be counted. -/
def alarms (cfg : Settings) : Supervisor → List Env → Nat
  | _, [] => 0
  | s, env :: envs =>
    (if !s.stopped && s.flags.sigalrm then 1 else 0) + alarms cfg (turn cfg s env) envs

section Escalation

variable {d a : Nat} {s : Supervisor}

/-- A worker, or the monitor. -/
def Supervisor.Worker (s : Supervisor) (i : Nat) : Prop :=
  i < s.m.lastProcess ∧ untold (s.m.processes i) = false

/-- Behind `a` alarms of a master that terminates, with `d` alarms counted before. -/
structure Escalating (d a : Nat) (s : Supervisor) : Prop where
  terminate : s.m.terminate = true
  graceful : s.locals.gracefulQuit = false
  times : s.locals.delayTimes = d + a
  just : 4 ≤ a → s.stopped = false → ∀ i, s.Worker i → s.justSpawn i = false
  killed : 5 ≤ a → s.stopped = false → ∀ i, s.Worker i → ((s.m.processes i).pid, .kill) ∈ s.kills
  timer : 1 ≤ a → s.stopped = false → 0 < s.locals.delay

theorem terminateDelay_bounds (n : Nat) (h : n < 30) :
    0 < terminateDelay n ∧ (4 ≤ n → 1000 < terminateDelay n) := by
  revert n
  decide

theorem Lowered.untold {p p' : Process} (h : Lowered p p') :
    ProcessCycle.untold p' = ProcessCycle.untold p := by
  rw [ProcessCycle.untold, ProcessCycle.untold, h.pid, h.detached]

/-- What `wake` does to the workers and the locals. -/
structure Wakes (s w : Supervisor) : Prop where
  worker : ∀ i, w.Worker i → s.Worker i ∧ (w.m.processes i).pid = (s.m.processes i).pid
  just : w.justSpawn = s.justSpawn
  kills : w.kills = s.kills
  terminate : w.m.terminate = true
  locals : ∃ live, w.locals = { (loopTop s).locals with live := live }

theorem wake_wakes (env : Env) (hterm : s.m.terminate = true) : Wakes s (wake env s) := by
  obtain ⟨htop, -, -, hjust, hkills⟩ := loopTop_same s
  have hsig := exec_signalHandler env.signals (loopTop s)
  have hslots := hsig.slots
  have hlast := hsig.last
  have hterm' := hsig.terminate (by rw [htop]; exact hterm)
  have hj := hsig.just.trans hjust
  have hk := hsig.kills.trans hkills
  have hl := hsig.locals
  rw [htop] at hslots hlast
  unfold wake
  generalize Run.exec signalHandler (loopTop s) env.signals = u at hslots hlast hterm' hj hk hl
  have hu : ∀ i, u.Worker i → s.Worker i ∧ (u.m.processes i).pid = (s.m.processes i).pid := by
    intro i hi
    exact ⟨⟨hlast ▸ hi.1, by rw [← (hslots i).untold]; exact hi.2⟩, (hslots i).pid⟩
  unfold reapTurn
  split
  · have hr := (reapLoop_shutting env.respawns u.m u.kids (by rw [hterm']; rfl)).1
    refine ⟨fun i hi => ?_, hj, hk, by rw [← hterm']; exact hr.terminate, _, by rw [← hl]⟩
    obtain ⟨hi, hun⟩ := hi
    rcases hr.slots i hi with hsame | hgone
    · have hw : u.Worker i := ⟨Nat.lt_of_lt_of_le hi hr.last, by rw [← hsame]; exact hun⟩
      obtain ⟨hs, hpid⟩ := hu i hw
      exact ⟨hs, by rw [← hpid, ← hsame]⟩
    · have hun' : untold ((reapChildren env.respawns u.m).m.processes i) = true := by
        simp [untold, hgone]
      exact absurd (hun'.symm.trans hun) (by decide)
  · exact ⟨hu, hj, hk, hterm', (loopTop s).locals.live, hl⟩

/-- The locals behind the alarm. -/
theorem loopTop_locals (s : Supervisor) (hg : s.locals.gracefulQuit = false)
    (hd : s.locals.delayTimes < 2 ^ 32 - 1) :
    (loopTop s).locals.gracefulQuit = false ∧
      (loopTop s).locals.delayTimes =
        s.locals.delayTimes + (if s.flags.sigalrm then 1 else 0) ∧
      (s.flags.sigalrm = true → (loopTop s).locals.sigio = 0) := by
  unfold loopTop
  dsimp only
  split <;> by_cases ha : s.flags.sigalrm = true
  all_goals
    simp only [ha, if_true, if_false, Bool.false_eq_true, hg, true_and]
    simp
    try omega

/-- The workers of a master that has told them. -/
theorem AllTold.worker {signo : Signo} {told : Answers} {w s' : Supervisor}
    (h : AllTold signo told (List.range w.m.lastProcess) w s') {i : Nat} (hi : s'.Worker i) :
    w.Worker i ∧ (s'.m.processes i).pid = (w.m.processes i).pid ∧ s'.justSpawn i = false := by
  have hlt : i < w.m.lastProcess := h.same.last ▸ hi.1
  have hmem := List.mem_range.2 hlt
  have hun : untold (w.m.processes i) = false := by
    have hun := hi.2
    rw [h.slots i hmem] at hun
    rw [← hun, untold, untold, toldProcess_pid, toldProcess_detached]
  refine ⟨⟨hlt, hun⟩, ?_, ?_⟩
  · rw [h.slots i hmem, toldProcess_pid]
  · rw [h.just i hmem, hun]
    rfl

/-- One round. `a'` counts the alarm that it begins with, if there is one. -/
theorem Escalating.turn (h : Escalating d a s) (cfg : Settings)
    (hcfg : cfg.useGracefulQuit = false) (env : Env) (hs : s.stopped = false) {a' : Nat}
    (ha : a' = a + (if s.flags.sigalrm then 1 else 0)) (hbound : d + a' < 30) :
    Escalating d a' (turn cfg s env) := by
  have hw := wake_wakes env h.terminate
  obtain ⟨live, hlocals⟩ := hw.locals
  obtain ⟨hgraceful, htimes, halarm⟩ := loopTop_locals s h.graceful (by rw [h.times]; omega)
  have hstop := (wake_shutting env ((shutting_iff s).2 (.inl h.terminate))).2.2.trans hs
  unfold ProcessCycle.turn
  rw [if_neg (by simp [hs])]
  generalize wake env s = w at hw hlocals hstop
  have hg : w.locals.gracefulQuit = false := by rw [hlocals]; exact hgraceful
  have ht : w.locals.delayTimes = d + a' := by
    rw [hlocals, ha]
    show (loopTop s).locals.delayTimes = _
    rw [htimes, h.times]
    omega
  have hsigio : s.flags.sigalrm = true → w.locals.sigio = 0 := by rw [hlocals]; exact halarm
  have hjust : 4 ≤ a → ∀ i, w.Worker i → w.justSpawn i = false := by
    intro h4 i hi
    rw [hw.just]
    exact h.just h4 hs i (hw.worker i hi).1
  have hkilled : 5 ≤ a → ∀ i, w.Worker i → ((w.m.processes i).pid, .kill) ∈ w.kills := by
    intro h5 i hi
    obtain ⟨hi, hpid⟩ := hw.worker i hi
    rw [hw.kills, hpid]
    exact h.killed h5 hs i hi
  unfold act
  by_cases hexit : (!w.locals.live && (w.m.terminate || w.m.quit)) = true
  · rw [if_pos hexit]
    exact ⟨hw.terminate, hg, ht, fun _ h => absurd h (by simp), fun _ h => absurd h (by simp),
      fun _ h => absurd h (by simp)⟩
  rw [if_neg hexit, if_pos hw.terminate]
  obtain ⟨hdelay, hlong⟩ := terminateDelay_bounds (d + a') hbound
  unfold terminateTurn
  simp only [hg, hcfg, ht, Bool.false_and, Bool.or_false]
  by_cases hio : 0 < w.locals.sigio
  · rw [if_pos hio]
    have hsame : a' = a := by
      by_cases hal : s.flags.sigalrm = true
      · have := hsigio hal
        omega
      · rw [ha, if_neg hal, Nat.add_zero]
    subst hsame
    exact ⟨hw.terminate, rfl, rfl, fun h4 _ => hjust h4, fun h5 _ => hkilled h5, fun _ _ => hdelay⟩
  · rw [if_neg hio, if_neg (by simp)]
    have htold : ∀ signo (l : Locals), (5 ≤ a' → a = a' ∨ signo = .kill) →
        l.gracefulQuit = false → l.delayTimes = d + a' → 0 < l.delay →
        Escalating d a' (signalWorkerProcesses signo env.told { w with locals := l }) := by
      intro signo l hsig hlg hlt hld
      have hall := signalWorkerProcesses_told signo env.told { w with locals := l }
      refine ⟨hall.same.terminate.trans hw.terminate, ?_, ?_, fun _ _ i hi => (hall.worker hi).2.2,
        fun h5 _ i hi => ?_, fun _ _ => ?_⟩
      · rw [hall.same.locals, hlg]
      · rw [hall.same.locals, hlt]
      · obtain ⟨hi, hpid, -⟩ := hall.worker hi
        have hiw : w.Worker i := hi
        rw [hpid]
        by_cases hsame : a = a'
        · obtain ⟨ks, hks⟩ := hall.kills
          rw [hks]
          exact List.mem_append_left _ (hkilled (hsame ▸ h5) i hiw)
        · have h4 : 4 ≤ a := by
            rw [ha] at h5 hsame
            split at h5 <;> omega
          have hk : signo = .kill := by
            rcases hsig h5 with he | hk
            · exact absurd he hsame
            · exact hk
          exact hall.killed hk i (List.mem_range.2 hiw.1) hiw.2 (hjust h4 i hiw)
      · rw [hall.same.locals]
        exact hld
    by_cases hkill : 1000 < terminateDelay (d + a')
    · rw [if_pos hkill]
      exact htold .kill _ (fun _ => .inr rfl) rfl rfl hdelay
    · rw [if_neg hkill]
      refine htold .terminate _ (fun h5 => ?_) rfl rfl hdelay
      exact absurd (hlong (by omega)) hkill

theorem Escalating.run (cfg : Settings) (hcfg : cfg.useGracefulQuit = false) (envs : List Env)
    (h : Escalating d a s) (hbound : d + a + alarms cfg s envs < 30) :
    Escalating d (a + alarms cfg s envs) (Run.exec (ProcessCycle.turn cfg) s envs) := by
  induction envs generalizing s a with
  | nil => exact h
  | cons env envs ih =>
    rw [alarms] at hbound ⊢
    show Escalating d _ (Run.exec (ProcessCycle.turn cfg) (ProcessCycle.turn cfg s env) envs)
    cases hs : s.stopped with
    | true =>
      have hsame : ProcessCycle.turn cfg s env = s := by rw [ProcessCycle.turn, if_pos hs]
      rw [hs, hsame] at hbound
      rw [hsame]
      simpa using ih h (by simpa using hbound)
    | false =>
      rw [hs] at hbound
      have hone := h.turn cfg hcfg env hs rfl (by
        by_cases ha : s.flags.sigalrm = true <;> simp [ha] at hbound ⊢ <;> omega)
      have hrest := ih hone (by
        by_cases ha : s.flags.sigalrm = true <;> simp [ha] at hbound ⊢ <;> omega)
      have hadd : a + ((if (!false && s.flags.sigalrm) = true then 1 else 0) +
          alarms cfg (ProcessCycle.turn cfg s env) envs) =
          a + (if s.flags.sigalrm = true then 1 else 0) +
            alarms cfg (ProcessCycle.turn cfg s env) envs := by
        simp [Nat.add_assoc]
      rw [hadd]
      exact hrest

/-- A master that terminates without a graceful quit sleeps under a timer once an alarm has come,
and after five alarms it has sent `SIGKILL` to the workers and the monitor, unless it has ended. -/
theorem terminate_escalates (cfg : Settings) (hcfg : cfg.useGracefulQuit = false) (s : Supervisor)
    (hterm : s.m.terminate = true) (hgraceful : s.locals.gracefulQuit = false) (envs : List Env)
    (hbound : s.locals.delayTimes + alarms cfg s envs < 30) :
    (Run.exec (turn cfg) s envs).stopped = true ∨
      (1 ≤ alarms cfg s envs → 0 < (Run.exec (turn cfg) s envs).locals.delay) ∧
      (5 ≤ alarms cfg s envs → ∀ i, (Run.exec (turn cfg) s envs).Worker i →
        (((Run.exec (turn cfg) s envs).m.processes i).pid, .kill) ∈
          (Run.exec (turn cfg) s envs).kills) := by
  have h : Escalating s.locals.delayTimes 0 s :=
    ⟨hterm, hgraceful, rfl, fun h => absurd h (by decide), fun h => absurd h (by decide),
      fun h => absurd h (by decide)⟩
  have hrun := h.run cfg hcfg envs (by simpa using hbound)
  rw [Nat.zero_add] at hrun
  cases hs : (Run.exec (turn cfg) s envs).stopped with
  | true => exact .inl rfl
  | false => exact .inr ⟨fun h1 => hrun.timer h1 hs, fun h5 => hrun.killed h5 hs⟩

end Escalation

/-- The master behind `SIGTERM`, and behind seven alarms with workers that do not exit. -/
def terminating : Supervisor :=
  masterProcessCycle ⟨2, false⟩ true quietEnv [{ quietEnv with signals := [.terminate] }]

def stubborn : Supervisor :=
  Run.exec (turn ⟨2, false⟩) terminating (List.replicate 7 { quietEnv with signals := [.alarm] })

theorem terminate_escalates_stubborn :
    stubborn.stopped = false ∧ (stubborn.stopped = true ∨
      (1 ≤ 6 → 0 < stubborn.locals.delay) ∧
      (5 ≤ 6 → ∀ i, stubborn.Worker i → ((stubborn.m.processes i).pid, .kill) ∈ stubborn.kills)) := by
  have halarms : alarms ⟨2, false⟩ terminating
      (List.replicate 7 { quietEnv with signals := [.alarm] }) = 6 := by decide +kernel
  have h := terminate_escalates ⟨2, false⟩ rfl terminating (by decide +kernel) (by decide +kernel)
    (List.replicate 7 { quietEnv with signals := [.alarm] }) (by decide +kernel)
  rw [halarms] at h
  exact ⟨by decide +kernel, h⟩

end ProcessCycle
end Shs
