import Shs.Process.SupervisorSteps

/-!
# Process.Children

The table of the master and the children in the kernel. `Known`: the slots with a process that has
not exited are, one for one, the children that have not been waited for. Every call of the master
keeps it, as long as the kernel's answers are lawful, so that `process_get_status` finds an entry
for every child that `waitpid` names.
-/

namespace Shs
namespace ProcessCycle

/-- The table and the children agree. -/
structure Known (m : Master) (k : Kids) : Prop where
  nodup : k.pids.Nodup
  pos   : ∀ pid ∈ k.pids, 0 < pid
  entry : ∀ pid ∈ k.pids, ∃ i < m.lastProcess,
    (m.processes i).pid = pid ∧ (m.processes i).exited = false
  child : ∀ i < m.lastProcess, (m.processes i).pid ≠ -1 → (m.processes i).exited = false →
    (m.processes i).pid ∈ k.pids
  apart : ∀ i j, i < m.lastProcess → j < m.lastProcess →
    (m.processes i).pid = (m.processes j).pid → (m.processes i).pid ≠ -1 → i = j

/-! ## What the kernel keeps to -/

section Kernel

variable {k : Kids} {m m' : Master} {i : Nat} {pid : Int} {c : Int × Int}

theorem fork_lawful (h : (k.fork i m (.child pid c)).lawful = true) :
    k.lawful = true ∧ 0 < pid ∧ pid ∉ k.pids ∧
      ∀ j < m.lastProcess, j ≠ i → (m.processes j).pid ≠ pid := by
  simp only [Kids.fork, Bool.and_eq_true, decide_eq_true_eq, Bool.not_eq_true'] at h
  obtain ⟨⟨⟨hk, hpos⟩, hnew⟩, hun⟩ := h
  refine ⟨hk, hpos, by simpa using hnew, fun j hj hji => ?_⟩
  have hall := List.all_eq_true.1 hun j (List.mem_range.2 hj)
  simpa [hji] using hall

theorem fork_lawful_of (answer : Spawn) (h : (k.fork i m answer).lawful = true) :
    k.lawful = true := by
  cases answer with
  | child pid c => exact (fork_lawful h).1
  | noSocket | noOption c | noFork c => exact h

theorem kill_lawful {answer : Kill} (h : (k.kill pid answer).lawful = true) :
    k.lawful = true ∧ (answer = .noProcess → pid ∉ k.pids) := by
  simp only [Kids.kill, Bool.and_eq_true, Bool.not_eq_true', Bool.and_eq_false_iff] at h
  refine ⟨h.1, fun ha => ?_⟩
  rcases h.2 with h | h
  · simpa using h
  · rw [ha] at h
    cases h

/-! ## What the calls keep -/

/-- Only pids and exits matter. -/
theorem Known.congr (h : Known m k) {k' : Kids} (hk : k'.pids = k.pids)
    (hl : m'.lastProcess = m.lastProcess)
    (hp : ∀ j, (m'.processes j).pid = (m.processes j).pid)
    (he : ∀ j < m.lastProcess, (m'.processes j).pid ≠ -1 →
      (m'.processes j).exited = (m.processes j).exited) : Known m' k' where
  nodup := hk ▸ h.nodup
  pos := hk ▸ h.pos
  entry := by
    intro q hq
    rw [hk] at hq
    obtain ⟨j, hj, hpid, hex⟩ := h.entry q hq
    have hpos := h.pos q hq
    refine ⟨j, hl ▸ hj, (hp j).trans hpid, ?_⟩
    rw [he j hj (by rw [hp, hpid]; omega), hex]
  child := by
    intro j hj hpid hex
    rw [hl] at hj
    rw [he j hj hpid] at hex
    rw [hp] at hpid ⊢
    exact hk ▸ h.child j hj hpid hex
  apart := by
    intro a b ha hb hab hne
    rw [hl] at ha hb
    rw [hp, hp] at hab
    rw [hp] at hne
    exact h.apart a b ha hb hab hne

theorem Known.sameTable (h : Known m k) (hs : SameTable m m') : Known m' k := by
  refine h.congr rfl hs.last (fun j => ?_) (fun j _ _ => ?_) <;>
    · obtain ⟨c, hc⟩ := hs.slots j
      rw [hc]

/-- A fork for a slot that stands for no child. -/
theorem Known.fork {p : Process} (h : Known m k)
    (hlaw : (k.fork i m (.child pid c)).lawful = true)
    (hfree : i < m.lastProcess → (m.processes i).pid = -1 ∨ (m.processes i).exited = true)
    (hentry : Entered i p m m') (hpid : p.pid = pid) (hex : p.exited = false)
    (hl : ∀ j, j < m'.lastProcess ↔ j < m.lastProcess ∨ j = i) :
    Known m' (k.fork i m (.child pid c)) := by
  obtain ⟨-, hpos, hnew, hun⟩ := fork_lawful hlaw
  have hself : (m'.processes i).pid = pid := by rw [hentry.slot, hpid]
  have hself' : (m'.processes i).exited = false := by rw [hentry.slot, hex]
  refine ⟨List.nodup_cons.2 ⟨hnew, h.nodup⟩, fun q hq => ?_, fun q hq => ?_, fun j hj hp he => ?_,
    fun a b ha hb hab hne => ?_⟩
  · rcases List.mem_cons.1 hq with rfl | hq'
    · exact hpos
    · exact h.pos q hq'
  · rcases List.mem_cons.1 hq with rfl | hq'
    · exact ⟨i, (hl i).2 (.inr rfl), hself, hself'⟩
    · obtain ⟨j, hj, hp, he⟩ := h.entry q hq'
      have hji : j ≠ i := by
        rintro rfl
        rcases hfree hj with hf | hf
        · have := h.pos q hq'
          omega
        · rw [he] at hf
          cases hf
      exact ⟨j, (hl j).2 (.inl hj), by rw [hentry.others j hji, hp], by rw [hentry.others j hji, he]⟩
  · by_cases hji : j = i
    · rw [hji, hself]
      exact List.mem_cons_self
    · have hj' : j < m.lastProcess := by
        rcases (hl j).1 hj with h | h
        · exact h
        · exact absurd h hji
      rw [hentry.others j hji] at hp he ⊢
      exact List.mem_cons_of_mem _ (h.child j hj' hp he)
  · have hold : ∀ j, j < m'.lastProcess → j ≠ i → j < m.lastProcess := by
      intro j hj hji
      rcases (hl j).1 hj with h | h
      · exact h
      · exact absurd h hji
    by_cases hai : a = i <;> by_cases hbi : b = i
    · rw [hai, hbi]
    · rw [hai, hself, hentry.others b hbi] at hab
      exact absurd hab.symm (hun b (hold b hb hbi) hbi)
    · rw [hbi, hself, hentry.others a hai] at hab
      exact absurd hab (hun a (hold a ha hai) hai)
    · rw [hentry.others a hai, hentry.others b hbi] at hab
      rw [hentry.others a hai] at hne
      exact h.apart a b (hold a ha hai) (hold b hb hbi) hab hne

/-- A child is waited for, and its slot is entered as exited. -/
theorem Known.wait {p : Process} (h : Known m k) (hi : i < m.lastProcess)
    (hpid : (m.processes i).pid = pid)
    (hself : m'.processes i = p) (hothers : ∀ j, j ≠ i → m'.processes j = m.processes j)
    (hp : p.pid = pid) (hex : p.exited = true) (hl : m'.lastProcess = m.lastProcess) :
    Known m' (k.wait pid) := by
  have hpids : ∀ j, (m'.processes j).pid = (m.processes j).pid := by
    intro j
    by_cases hji : j = i
    · rw [hji, hself, hp, hpid]
    · rw [hothers j hji]
  refine ⟨h.nodup.erase _, fun q hq => h.pos q (List.mem_of_mem_erase hq), fun q hq => ?_,
    fun j hj hne he => ?_, fun a b ha hb hab hne => ?_⟩
  · obtain ⟨hqp, hq⟩ := (List.Nodup.mem_erase_iff h.nodup).1 hq
    obtain ⟨j, hj, hjp, hje⟩ := h.entry q hq
    have hji : j ≠ i := by
      rintro rfl
      exact hqp (hjp.symm.trans hpid)
    exact ⟨j, hl ▸ hj, by rw [hothers j hji, hjp], by rw [hothers j hji, hje]⟩
  · have hji : j ≠ i := by
      rintro rfl
      rw [hself, hex] at he
      cases he
    rw [hl] at hj
    rw [hothers j hji] at hne he ⊢
    refine (List.Nodup.mem_erase_iff h.nodup).2 ⟨fun hjp => ?_, h.child j hj hne he⟩
    exact hji (h.apart j i hj hi (hjp.trans hpid.symm) hne)
  · rw [hl] at ha hb
    rw [hpids, hpids] at hab
    rw [hpids] at hne
    exact h.apart a b ha hb hab hne

/-- A slot that stands for no child is given up. -/
theorem Known.drop (h : Known m k) (hex : (m.processes i).exited = true)
    (hothers : ∀ j, j ≠ i → m'.processes j = m.processes j)
    (hgone : i + 1 = m.lastProcess ∧ m'.lastProcess = i ∨
      m'.lastProcess = m.lastProcess ∧ (m'.processes i).pid = -1) : Known m' k := by
  have hused : ∀ j < m'.lastProcess, (m'.processes j).pid ≠ -1 → j ≠ i ∧ j < m.lastProcess := by
    intro j hj hp
    rcases hgone with ⟨hend, hl⟩ | ⟨hl, hpid⟩
    · exact ⟨by omega, by omega⟩
    · refine ⟨fun hji => ?_, by omega⟩
      rw [hji] at hp
      exact hp hpid
  refine ⟨h.nodup, h.pos, fun q hq => ?_, fun j hj hp he => ?_, fun a b ha hb hab hne => ?_⟩
  · obtain ⟨j, hj, hjp, hje⟩ := h.entry q hq
    have hji : j ≠ i := by
      rintro rfl
      rw [hex] at hje
      cases hje
    refine ⟨j, ?_, by rw [hothers j hji, hjp], by rw [hothers j hji, hje]⟩
    rcases hgone with ⟨hend, hl⟩ | ⟨hl, -⟩ <;> omega
  · obtain ⟨hji, hj⟩ := hused j hj hp
    rw [hothers j hji] at hp he ⊢
    exact h.child j hj hp he
  · obtain ⟨hai, ha⟩ := hused a ha hne
    obtain ⟨hbi, hb⟩ := hused b hb (hab ▸ hne)
    rw [hothers a hai, hothers b hbi] at hab
    rw [hothers a hai] at hne
    exact h.apart a b ha hb hab hne

end Kernel

/-! ## The whole state -/

/-- The table and the children agree unless the kernel has given an answer that it cannot give. -/
def Tracked (s : Supervisor) : Prop := s.kids.lawful = true → Known s.m s.kids

section Tracked

variable {s : Supervisor}

/-- Other globals and the locals do not matter. -/
theorem Tracked.congr {s' : Supervisor} (h : Tracked s) (hp : s'.m.processes = s.m.processes)
    (hl : s'.m.lastProcess = s.m.lastProcess) (hk : s'.kids = s.kids) : Tracked s' := by
  intro hlaw
  rw [hk] at hlaw
  exact (h hlaw).congr (by rw [hk]) hl (fun j => by rw [hp]) fun j _ _ => by rw [hp]

theorem Tracked.spawnKind (h : Tracked s) (kind : Respawn) (answer : Spawn) :
    Tracked (spawnKind kind answer s) := by
  intro hlaw
  cases spawnKind_cases kind answer s with
  | failed table _ kids =>
    rw [kids] at hlaw ⊢
    exact (h hlaw).sameTable table
  | entered pid c hanswer _ slot last _ kids =>
    subst hanswer
    rw [kids] at hlaw ⊢
    have hfree := newSlot_free s.m
    refine (h (fork_lawful hlaw).1).fork hlaw (fun hlt => ?_) slot rfl rfl fun j => ?_
    · rcases hfree with hf | ⟨-, hf⟩
      · omega
      · exact .inl hf
    · rw [last]
      rcases hfree with hf | ⟨hf, -⟩
      · rw [if_pos hf]
        omega
      · rw [if_neg (by omega)]
        omega

theorem Tracked.signalSlot (h : Tracked s) (signo : Signo) (told : Answers) (i : Nat)
    (hi : i < s.m.lastProcess) : Tracked (signalSlot signo told s i) := by
  intro hlaw
  obtain ⟨hslot, hsame⟩ := signalSlot_told signo told s i
  have hlaw' : s.kids.lawful = true := by
    rcases hslot.kids with hk | hk <;> rw [hk] at hlaw
    · exact hlaw
    · exact (kill_lawful hlaw).1
  have hknown := h hlaw'
  refine hknown.congr ?_ hsame.last (fun j => ?_) fun j hj hp => ?_
  · rcases hslot.kids with hk | hk <;> rw [hk]
    rfl
  · by_cases hji : j = i
    · rw [hji, hslot.slot, toldProcess_pid]
    · rw [hslot.others j hji]
  · by_cases hji : j = i
    · subst hji
      have hpid : (s.m.processes j).pid ≠ -1 := by
        rw [hslot.slot, toldProcess_pid] at hp
        exact hp
      cases hex : (s.m.processes j).exited with
      | false =>
        cases hex' : ((ProcessCycle.signalSlot signo told s j).m.processes j).exited with
        | false => rfl
        | true =>
          -- `ESRCH` for a child is not lawful
          obtain ⟨-, hk⟩ := hslot.gone hex hex'
          rw [hk] at hlaw
          exact absurd (hknown.child j hi hpid hex) ((kill_lawful hlaw).2 rfl)
      | true =>
        rw [hslot.slot]
        rcases toldProcess_exited signo (told.written j) (told.kill j) (s.justSpawn j)
          (s.m.processes j) with he | ⟨-, he⟩
        · rw [he, hex]
        · exact he
    · rw [hslot.others j hji]

/-! ### `process_get_status` -/

/-- The table of the master as `process_get_status` sees it. -/
def Supervisor.pass (s : Supervisor) : Pass :=
  ⟨fun i => { toProcess := s.m.processes i, status := s.status i }, s.m.lastProcess,
    s.numCoredump, []⟩

/-- The master with the table of a pass. -/
def Master.take (m : Master) (p : Pass) : Master :=
  { m with processes := fun i => (p.processes i).toProcess }

/-- A child that `waitpid` names has one entry, and the table agrees with the children behind it. -/
theorem Known.reapChild {m : Master} {k : Kids} {p : Pass} {pid : Int} (hm : Known (m.take p) k)
    (hl : m.lastProcess = p.lastProcess) (hmem : pid ∈ k.pids) (status : Int) :
    ∃ i < m.lastProcess, (p.processes i).pid = pid ∧
      ((ProcessCycle.reapChild pid status p).processes i).toProcess =
        exitedProcess status (p.processes i).toProcess ∧
      (∀ j, j ≠ i → (ProcessCycle.reapChild pid status p).processes j = p.processes j) ∧
      m.lastProcess = (ProcessCycle.reapChild pid status p).lastProcess ∧
      Known (m.take (ProcessCycle.reapChild pid status p)) (k.wait pid) := by
  obtain ⟨i, hi, hpid, -⟩ := hm.entry pid hmem
  have hpos := hm.pos pid hmem
  have hfirst : ∀ j < i, (p.processes j).pid ≠ pid := by
    intro j hj hjp
    have hne : ((m.take p).processes j).pid ≠ -1 := by
      intro h
      have : (p.processes j).pid = -1 := h
      omega
    have := hm.apart j i (Nat.lt_trans hj hi) hi (hjp.trans hpid.symm) hne
    omega
  obtain ⟨hself, hothers, hlast⟩ := reapChild_found status p (hl ▸ hi) hpid hfirst
  refine ⟨i, hi, hpid, hself, hothers, hl.trans hlast.symm, ?_⟩
  refine hm.wait hi hpid hself (fun j hj => ?_) hpid rfl rfl
  show ((ProcessCycle.reapChild pid status p).processes j).toProcess = (p.processes j).toProcess
  rw [hothers j hj]

/-- The children that `waitpid` names, one after the other. -/
theorem foldl_known {m : Master} {k : Kids} (rs : List (Int × Int)) (p : Pass)
    (hm : Known (m.take p) k) (hl : m.lastProcess = p.lastProcess)
    (hlaw : (rs.foldl (fun k r => k.wait r.1) k).lawful = true) :
    Known (m.take (rs.foldl (fun s r => ProcessCycle.reapChild r.1 r.2 s) p))
      (rs.foldl (fun k r => k.wait r.1) k) := by
  induction rs generalizing p k with
  | nil => exact hm
  | cons r rs ih =>
    have hmem := (waits_lawful hlaw).2 r List.mem_cons_self
    obtain ⟨i, -, -, -, -, hlast, hknown⟩ := hm.reapChild hl hmem r.2
    exact ih _ hknown hlast hlaw

theorem getStatus_m (waits : List Wait) (s : Supervisor) :
    (getStatus waits s).m =
      s.m.take ((returned waits).foldl (fun s r => reapChild r.1 r.2 s) s.pass) := by
  rw [← processGetStatus_eq]
  rfl

theorem getStatus_kids (waits : List Wait) (s : Supervisor) :
    (getStatus waits s).kids = (returned waits).foldl (fun k r => k.wait r.1) s.kids := rfl

theorem Tracked.getStatus (h : Tracked s) (waits : List Wait) : Tracked (getStatus waits s) := by
  intro hlaw
  rw [getStatus_kids] at hlaw ⊢
  rw [getStatus_m]
  exact foldl_known _ s.pass (h (waits_lawful hlaw).1) rfl hlaw

/-! ### The reaper -/

theorem Tracked.reapSlot {spawns : Nat → Spawn} {i : Nat} {r : Reap} {k : Kids}
    (hi : i < r.m.lastProcess) (h : k.lawful = true → Known r.m k)
    (hlaw : (if respawns (r.m.processes i) r.m then k.fork i r.m (spawns i) else k).lawful = true) :
    Known (reapSlot spawns i r).m
      (if respawns (r.m.processes i) r.m then k.fork i r.m (spawns i) else k) := by
  obtain ⟨live, hcase, -⟩ := reapSlot_cases spawns i r
  cases hcase with
  | kept hslot hm _ =>
    have hno : respawns (r.m.processes i) r.m = false := by
      simp only [reaped, Bool.and_eq_false_iff] at hslot
      rcases hslot with hs | hs <;> simp [respawns, hs]
    rw [if_neg (by simp [hno])] at hlaw ⊢
    rw [hm]
    exact h hlaw
  | respawned hslot pid c hanswer _ hlast hentry =>
    rw [if_pos hslot, hanswer] at hlaw ⊢
    refine (h (fork_lawful hlaw).1).fork hlaw (fun _ => .inr ?_) hentry rfl rfl fun j => ?_
    · simp only [respawns, Bool.and_eq_true] at hslot
      exact hslot.1.1.1.1.2
    · rw [hlast]
      omega
  | failed hslot hanswer _ hlast c hentry =>
    have hkids : k.fork i r.m (spawns i) = k := by
      cases hs : spawns i with
      | child pid c => rw [hs] at hanswer; cases hanswer
      | noSocket | noOption c | noFork c => rfl
    rw [if_pos hslot, hkids] at hlaw ⊢
    refine (h hlaw).congr rfl hlast (fun j => ?_) fun j _ _ => ?_ <;>
      · by_cases hji : j = i
        · rw [hji, hentry.slot]
        · rw [hentry.others j hji]
  | dropped hslot hno _ hothers hgone =>
    rw [if_neg (by simp [hno])] at hlaw ⊢
    have hex : (r.m.processes i).exited = true := by
      simp only [reaped, Bool.and_eq_true] at hslot
      exact hslot.2
    refine (h hlaw).drop hex hothers ?_
    rcases hgone with hgone | ⟨-, hl, hp⟩
    · exact .inl hgone
    · exact .inr ⟨hl, hp⟩

theorem Tracked.reapTurn (h : Tracked s) (env : Env) : Tracked (reapTurn env s) := by
  unfold ProcessCycle.reapTurn
  split
  · obtain ⟨i', -, hend⟩ := reapLoop_rule
      (P := fun _ r k => k.lawful = true → Known r.m k) s.m.lastProcess
      (fun i r k hi hP hlaw => Tracked.reapSlot hi hP hlaw) 0 (startReap s.m) s.kids h
      (Nat.le_of_eq (Nat.zero_add _).symm)
    exact hend
  · exact h

theorem kept_tracked : Kept Tracked where
  congr := fun _ _ h hp hl _ hk => h.congr hp hl hk
  spawn := fun _ kind answer h => h.spawnKind kind answer
  slot := fun _ signo told i hi h => h.signalSlot signo told i hi
  status := fun _ waits h => h.getStatus waits
  reap := fun _ env h => h.reapTurn env

end Tracked

/-! ## Runs -/

section Runs

variable (cfg : Settings) (daemonized : Bool) (start : Env)

theorem tracked_run (envs : List Env) :
    Tracked (masterProcessCycle cfg daemonized start envs) := by
  refine kept_tracked.run cfg daemonized start envs fun _ => ?_
  exact ⟨List.nodup_nil, by simp, by simp, fun i hi => absurd hi (Nat.not_lt_zero i),
    fun i _ hi => absurd hi (Nat.not_lt_zero i)⟩

/-- At every `SIGCHLD` of every run the slots with a process that has not exited are, one for one,
the children that have not been waited for, and `process_get_status` keeps to the entries of those
that it is told of. -/
theorem master_knows_children (envs : List Env) (signals : List Delivery) (waits : List Wait)
    (s : Supervisor)
    (hs : s = Run.exec signalHandler (loopTop (masterProcessCycle cfg daemonized start envs)) signals)
    (hlaw : (getStatus waits s).kids.lawful = true) :
    Known s.m s.kids ∧
      Confined ((returned waits).map (·.1)) s.pass (processGetStatus waits s.pass) := by
  have htracked : Tracked s :=
    hs ▸ kept_tracked.suspend signals
      (kept_tracked.loopTop (tracked_run cfg daemonized start envs))
  rw [getStatus_kids] at hlaw
  obtain ⟨hk, hmem⟩ := waits_lawful hlaw
  have hknown := htracked hk
  refine ⟨hknown, ?_⟩
  rw [processGetStatus_eq]
  refine foldl_confined ⟨fun j hj => absurd rfl hj, by simp [Supervisor.pass]⟩ ⟨rfl, fun _ => rfl⟩
    (fun r hr => List.mem_map.2 ⟨r, hr, rfl⟩) fun r hr _ => ?_
  obtain ⟨i, hi, hpid, -⟩ := hknown.entry r.1 (hmem r hr)
  exact ⟨i, hi, hpid⟩

end Runs

/-- Two workers and the monitor start; the first worker exits and is replaced. -/
def quietEnv : Env where
  signals := []
  respawns i := .child (110 + i) (20 + 2 * i, 21 + 2 * i)
  workers i := .child (100 + i) (10 + 2 * i, 11 + 2 * i)
  monitor := .child 102 (14, 15)
  binary := none
  told := ⟨fun _ => true, fun _ => .done⟩
  toldNoaccept := ⟨fun _ => true, fun _ => .done⟩
  statusFile := false
  now := 1000
  reload := true

/-- The master behind the replacement. -/
def replaced : Supervisor :=
  loopTop (masterProcessCycle ⟨2, false⟩ true quietEnv
    [{ quietEnv with signals := [.child [.child 100 0, .nothing]] }])

theorem master_knows_children_replaced :
    replaced.kids.pids = [110, 102, 101] ∧ Known replaced.m replaced.kids :=
  ⟨by decide +kernel, (master_knows_children ⟨2, false⟩ true quietEnv
    [{ quietEnv with signals := [.child [.child 100 0, .nothing]] }] []
    [.child 101 512, .nothing] replaced rfl (by decide +kernel)).1⟩

end ProcessCycle
end Shs
