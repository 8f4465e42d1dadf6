import Shs.Process.Reap

/-!
# Process.GetStatus

`process_get_status`, the master's answer to `SIGCHLD`: it asks `waitpid` for children that have
exited, enters what it is told into the process table, and does not have those respawned that
exit with 2.
-/

namespace Shs
namespace ProcessCycle

/-- A `process_t` with its `status`. -/
structure Child extends Process where
  status : Int := 0
  deriving DecidableEq, Repr

/-- What `waitpid(-1, &status, WNOHANG)` answers. -/
inductive Wait where
  | child (pid status : Int)
  /-- 0: no other child has exited -/
  | nothing
  /-- -1 with `EINTR` -/
  | interrupted
  /-- -1 with another error -/
  | failed
  deriving DecidableEq, Repr

def wtermsig (status : Int) : Int := status % 128
def wcoredump (status : Int) : Bool := status / 128 % 2 == 1
def wexitstatus (status : Int) : Int := status / 256 % 256

/-- `g_processes`, with the indexes of the entries read so far, the last one first. -/
structure Pass where
  processes : Nat → Child
  lastProcess : Nat
  numCoredump : Int
  read : List Nat := []

def Pass.look (i : Nat) (s : Pass) : Pass := { s with read := i :: s.read }

def Pass.set (i : Nat) (p : Child) (s : Pass) : Pass :=
  { s with processes := Function.update s.processes i p }

/-- The loop `for (i = 0; i < g_last_process; i++)`, from `i` with `k` rounds to go: where it
ends, and what it leaves. -/
def searchPid (pid status : Int) : Nat → Nat → Pass → Nat × Pass
  | 0, i, s => (i, s)
  | k + 1, i, s =>
    let s := s.look i
    if (s.processes i).pid = pid then
      (i, s.set i { s.processes i with status := status, exited := true })
    else searchPid pid status k (i + 1) s

def countCoredump (status : Int) (s : Pass) : Pass :=
  if wtermsig status ≠ 0 ∧ wcoredump status = true then
    { s with numCoredump := s.numCoredump + 1 }
  else s

/-- What is done last, with the index that the search has left. -/
def dropRespawn (status : Int) (i : Nat) (s : Pass) : Pass :=
  if wexitstatus status = 2 then
    let s := s.look i
    if (s.processes i).respawn then s.set i { s.processes i with respawn := false } else s
  else s

/-- One round of `process_get_status`, where `waitpid` names a child. -/
def reapChild (pid status : Int) (s : Pass) : Pass :=
  let (i, s) := searchPid pid status s.lastProcess 0 s
  dropRespawn status i (countCoredump status s)

/-- `process_get_status` with the answers of `waitpid` in order. -/
def processGetStatus : List Wait → Pass → Pass
  | .child pid status :: ws, s => processGetStatus ws (reapChild pid status s)
  | .interrupted :: ws, s => processGetStatus ws s
  | .nothing :: _, s => s
  | .failed :: _, s => s
  | [], s => s

/-- The children that `waitpid` names before the function returns. -/
def returned : List Wait → List (Int × Int)
  | .child pid status :: ws => (pid, status) :: returned ws
  | .interrupted :: ws => returned ws
  | .nothing :: _ => []
  | .failed :: _ => []
  | [] => []

/-- The table has an entry for `pid`. -/
def Pass.Known (s : Pass) (pid : Int) : Prop := ∃ i < s.lastProcess, (s.processes i).pid = pid

/-- From `s₀` to `s` only entries of the pids have changed, and only entries below
`g_last_process` have been read. -/
structure Confined (pids : List Int) (s₀ s : Pass) : Prop where
  changed : ∀ j, s.processes j ≠ s₀.processes j → (s₀.processes j).pid ∈ pids
  reads : ∀ j ∈ s.read, j < s₀.lastProcess

/-! ## The search -/

section

variable {pid status : Int} {s s₀ : Pass} {ps : List Int}

@[simp] theorem look_processes (i : Nat) : (s.look i).processes = s.processes := rfl
@[simp] theorem look_lastProcess (i : Nat) : (s.look i).lastProcess = s.lastProcess := rfl
@[simp] theorem look_read (i : Nat) : (s.look i).read = i :: s.read := rfl
@[simp] theorem set_lastProcess (i : Nat) (p : Child) : (s.set i p).lastProcess = s.lastProcess := rfl
@[simp] theorem set_read (i : Nat) (p : Child) : (s.set i p).read = s.read := rfl

theorem set_processes (i j : Nat) (p : Child) :
    (s.set i p).processes j = if j = i then p else s.processes j := by
  simp [Pass.set, Function.update_apply]

/-- `s'` is `s` with other fields than the pid changed at `i` at most, and with the reads
`rs` behind those of `s`. -/
structure Changes (i : Nat) (s s' : Pass) (rs : List Nat) : Prop where
  last : s'.lastProcess = s.lastProcess
  others : ∀ j, j ≠ i → s'.processes j = s.processes j
  pid : (s'.processes i).pid = (s.processes i).pid
  read : s'.read = rs ++ s.read

theorem Changes.pids {i : Nat} {s' : Pass} {rs : List Nat} (h : Changes i s s' rs) (j : Nat) :
    (s'.processes j).pid = (s.processes j).pid := by
  by_cases hj : j = i
  · rw [hj, h.pid]
  · rw [h.others j hj]

/-- The search ends at the entry of the pid, or behind the last entry. It reads the entries on
the way. -/
theorem searchPid_spec (pid status : Int) (k i : Nat) (s : Pass) :
    ∃ rs, Changes (searchPid pid status k i s).1 s (searchPid pid status k i s).2 rs ∧
      (∀ j ∈ rs, j < i + k) ∧
      ((searchPid pid status k i s).1 < i + k ∧
          (s.processes (searchPid pid status k i s).1).pid = pid ∨
        (searchPid pid status k i s).1 = i + k ∧
          (searchPid pid status k i s).2.processes = s.processes ∧
          ∀ j, i ≤ j → j < i + k → (s.processes j).pid ≠ pid) := by
  induction k generalizing i s with
  | zero =>
    refine ⟨[], ⟨rfl, fun _ _ => rfl, rfl, rfl⟩, by simp, .inr ⟨rfl, rfl, ?_⟩⟩
    intro j hlo hhi
    omega
  | succ k ih =>
    by_cases hp : (s.processes i).pid = pid
    · rw [searchPid, look_processes, if_pos hp]
      refine ⟨[i], ⟨rfl, fun j hj => ?_, ?_, rfl⟩, by simp, .inl ⟨by simp only; omega, hp⟩⟩
      · rw [set_processes, if_neg hj, look_processes]
      · rw [set_processes, if_pos rfl]
    · rw [searchPid, look_processes, if_neg hp]
      obtain ⟨rs, hc, hrs, hend⟩ := ih (i + 1) (s.look i)
      refine ⟨rs ++ [i], ⟨hc.last, hc.others, hc.pid, ?_⟩, ?_, ?_⟩
      · rw [hc.read, look_read, List.append_assoc]
        rfl
      · intro j hj
        rcases List.mem_append.1 hj with hj | hj
        · have := hrs j hj
          omega
        · rw [List.mem_singleton] at hj
          omega
      · rcases hend with ⟨hlt, hpid⟩ | ⟨heq, hsame, hnone⟩
        · exact .inl ⟨by omega, hpid⟩
        · refine .inr ⟨by omega, hsame, fun j hlo hhi => ?_⟩
          rcases Nat.eq_or_lt_of_le hlo with rfl | hlt
          · exact hp
          · exact hnone j hlt (by omega)

/-! ## One child -/

theorem Changes.trans {i : Nat} {s' s'' : Pass} {rs rs' : List Nat} (h : Changes i s s' rs)
    (h' : Changes i s' s'' rs') : Changes i s s'' (rs' ++ rs) where
  last := h'.last.trans h.last
  others := fun j hj => (h'.others j hj).trans (h.others j hj)
  pid := h'.pid.trans h.pid
  read := by rw [h'.read, h.read, List.append_assoc]

theorem countCoredump_spec (status : Int) (i : Nat) (s : Pass) :
    Changes i s (countCoredump status s) [] ∧ (countCoredump status s).processes = s.processes := by
  unfold countCoredump
  split <;> exact ⟨⟨rfl, fun _ _ => rfl, rfl, rfl⟩, rfl⟩

/-- The index behind the search is read if the child exited with 2. -/
theorem dropRespawn_spec (status : Int) (i : Nat) (s : Pass) :
    Changes i s (dropRespawn status i s) (if wexitstatus status = 2 then [i] else []) ∧
      (wexitstatus status ≠ 2 → (dropRespawn status i s).processes = s.processes) := by
  unfold dropRespawn
  by_cases hw : wexitstatus status = 2
  · refine ⟨?_, fun h => absurd hw h⟩
    rw [if_pos hw, if_pos hw]
    dsimp only
    split
    · refine ⟨rfl, fun j hj => ?_, ?_, rfl⟩
      · rw [set_processes, if_neg hj, look_processes]
      · rw [set_processes, if_pos rfl, look_processes]
    · exact ⟨rfl, fun _ _ => rfl, rfl, rfl⟩
  · rw [if_neg hw, if_neg hw]
    exact ⟨⟨rfl, fun _ _ => rfl, rfl, rfl⟩, fun _ => rfl⟩

/-- A child with an entry changes that entry. One without leads to the index behind the last
entry, which is read if it exited with 2. -/
theorem reapChild_spec (pid status : Int) (s : Pass) :
    ∃ i rs, Changes i s (reapChild pid status s) rs ∧
      (i < s.lastProcess ∧ (s.processes i).pid = pid ∧ (∀ j ∈ rs, j < s.lastProcess) ∨
        ¬ s.Known pid ∧
          (wexitstatus status = 2 → s.lastProcess ∈ rs) ∧
          (wexitstatus status ≠ 2 → (reapChild pid status s).processes = s.processes ∧
            ∀ j ∈ rs, j < s.lastProcess)) := by
  obtain ⟨rs, hsearch, hrs, hend⟩ := searchPid_spec pid status s.lastProcess 0 s
  rw [Nat.zero_add] at hrs hend
  have hreap : reapChild pid status s = dropRespawn status
      (searchPid pid status s.lastProcess 0 s).1
      (countCoredump status (searchPid pid status s.lastProcess 0 s).2) := rfl
  rw [hreap]
  generalize searchPid pid status s.lastProcess 0 s = r at hsearch hend
  obtain ⟨hcount, hcounted⟩ := countCoredump_spec status r.1 r.2
  obtain ⟨hdrop, hsame⟩ := dropRespawn_spec status r.1 (countCoredump status r.2)
  refine ⟨r.1, _, (hsearch.trans hcount).trans hdrop, ?_⟩
  rcases hend with ⟨hlt, hpid⟩ | ⟨heq, hsearched, hnone⟩
  · refine .inl ⟨hlt, hpid, fun j hj => ?_⟩
    rcases List.mem_append.1 hj with hj | hj
    · split at hj
      · rw [List.mem_singleton] at hj
        omega
      · cases hj
    · exact hrs j hj
  · refine .inr ⟨?_, fun hw => ?_, fun hw => ⟨?_, fun j hj => ?_⟩⟩
    · rintro ⟨j, hj, hp⟩
      exact hnone j (Nat.zero_le j) hj hp
    · rw [if_pos hw]
      exact List.mem_append_left _ (by simp [heq])
    · exact (hsame hw).trans (hcounted.trans hsearched)
    · rw [if_neg hw] at hj
      exact hrs j hj

/-! ## All answers -/

/-- The pids of the table, and how many entries it has, stay as they are. -/
structure SamePids (s₀ s : Pass) : Prop where
  last : s.lastProcess = s₀.lastProcess
  pids : ∀ j, (s.processes j).pid = (s₀.processes j).pid

theorem SamePids.known (h : SamePids s₀ s) (pid : Int) : s.Known pid ↔ s₀.Known pid := by
  simp only [Pass.Known, h.last, h.pids]

theorem SamePids.reapChild (h : SamePids s₀ s) (pid status : Int) :
    SamePids s₀ (reapChild pid status s) := by
  obtain ⟨i, rs, hc, -⟩ := reapChild_spec pid status s
  exact ⟨hc.last.trans h.last, fun j => (hc.pids j).trans (h.pids j)⟩

theorem Confined.reapChild (h : Confined ps s₀ s) (hsame : SamePids s₀ s) (hpid : pid ∈ ps)
    (hok : wexitstatus status = 2 → s₀.Known pid) :
    Confined ps s₀ (reapChild pid status s) := by
  obtain ⟨i, rs, hc, hcase⟩ := reapChild_spec pid status s
  have hread : (∀ j ∈ rs, j < s.lastProcess) →
      ∀ j ∈ (ProcessCycle.reapChild pid status s).read, j < s₀.lastProcess := by
    intro hrs j hj
    rw [hc.read] at hj
    rcases List.mem_append.1 hj with hj | hj
    · exact hsame.last ▸ hrs j hj
    · exact h.reads j hj
  rcases hcase with ⟨-, hp, hrs⟩ | ⟨hunknown, -, hother⟩
  · refine ⟨fun j hj => ?_, hread hrs⟩
    by_cases hji : j = i
    · rw [hji, ← hsame.pids, hp]
      exact hpid
    · rw [hc.others j hji] at hj
      exact h.changed j hj
  · have hw : wexitstatus status ≠ 2 := fun hw => hunknown ((hsame.known pid).2 (hok hw))
    obtain ⟨hprocs, hrs⟩ := hother hw
    refine ⟨fun j hj => ?_, hread hrs⟩
    rw [hprocs] at hj
    exact h.changed j hj

theorem processGetStatus_eq (ws : List Wait) (s : Pass) :
    processGetStatus ws s = (returned ws).foldl (fun s r => reapChild r.1 r.2 s) s := by
  induction ws generalizing s with
  | nil => rfl
  | cons w ws ih =>
    cases w with
    | child pid status => exact ih _
    | interrupted => exact ih _
    | nothing => rfl
    | failed => rfl

theorem foldl_confined {rs : List (Int × Int)} (h : Confined ps s₀ s) (hsame : SamePids s₀ s)
    (hps : ∀ r ∈ rs, r.1 ∈ ps) (hok : ∀ r ∈ rs, wexitstatus r.2 = 2 → s₀.Known r.1) :
    Confined ps s₀ (rs.foldl (fun s r => reapChild r.1 r.2 s) s) := by
  induction rs generalizing s with
  | nil => exact h
  | cons r rs ih =>
    have hr := List.mem_cons_self (a := r) (l := rs)
    exact ih (h.reapChild hsame (hps r hr) (hok r hr)) (hsame.reapChild r.1 r.2)
      (fun r hr => hps r (List.mem_cons_of_mem _ hr)) fun r hr => hok r (List.mem_cons_of_mem _ hr)

/-- What has been read stays read. -/
theorem foldl_read (rs : List (Int × Int)) {j : Nat} (h : j ∈ s.read) :
    j ∈ (rs.foldl (fun s r => reapChild r.1 r.2 s) s).read := by
  induction rs generalizing s with
  | nil => exact h
  | cons r rs ih =>
    obtain ⟨i, ns, hc, -⟩ := reapChild_spec r.1 r.2 s
    exact ih (by rw [hc.read]; exact List.mem_append_right _ h)

/-- A child without an entry that exits with 2 has the index behind the last entry read. -/
theorem foldl_outside {rs : List (Int × Int)} (hsame : SamePids s₀ s) {r : Int × Int} (hr : r ∈ rs)
    (hw : wexitstatus r.2 = 2) (hunknown : ¬ s₀.Known r.1) :
    s₀.lastProcess ∈ (rs.foldl (fun s r => reapChild r.1 r.2 s) s).read := by
  induction rs generalizing s with
  | nil => cases hr
  | cons r' rs ih =>
    rcases List.mem_cons.1 hr with rfl | hr
    · obtain ⟨i, ns, hc, hcase⟩ := reapChild_spec r.1 r.2 s
      refine foldl_read rs ?_
      rcases hcase with ⟨hi, hp, -⟩ | ⟨-, hread, -⟩
      · exact absurd ((hsame.known r.1).1 ⟨i, hi, hp⟩) hunknown
      · rw [hc.read, ← hsame.last]
        exact List.mem_append_left _ (hread hw)
    · exact ih (hsame.reapChild r'.1 r'.2) hr

/-- `process_get_status` keeps to the entries of the children that it is told of if and only if
every child that exits with 2 has one. -/
theorem processGetStatus_confined_iff (ws : List Wait) (processes : Nat → Child)
    (lastProcess : Nat) (numCoredump : Int) :
    Confined ((returned ws).map (·.1)) ⟨processes, lastProcess, numCoredump, []⟩
        (processGetStatus ws ⟨processes, lastProcess, numCoredump, []⟩) ↔
      ∀ r ∈ returned ws, wexitstatus r.2 = 2 →
        ∃ i < lastProcess, (processes i).pid = r.1 := by
  have hsame : SamePids ⟨processes, lastProcess, numCoredump, []⟩
      ⟨processes, lastProcess, numCoredump, []⟩ := ⟨rfl, fun _ => rfl⟩
  rw [processGetStatus_eq]
  constructor
  · intro h r hr hw
    by_contra hunknown
    have hread := h.reads _ (foldl_outside hsame hr hw hunknown)
    exact absurd hread (Nat.lt_irrefl _)
  · intro hok
    refine foldl_confined ⟨fun j hj => absurd rfl hj, by simp⟩ hsame ?_ hok
    intro r hr
    exact List.mem_map.2 ⟨r, hr, rfl⟩

/-- A child that the table does not hold exits with 2, and has the entry behind the last one
read. The entry is that of a process that was in the table, and loses its `respawn`. -/
theorem processGetStatus_not_confined :
    ¬ ∀ (ws : List Wait) (processes : Nat → Child) (lastProcess : Nat) (numCoredump : Int),
      Confined ((returned ws).map (·.1)) ⟨processes, lastProcess, numCoredump, []⟩
        (processGetStatus ws ⟨processes, lastProcess, numCoredump, []⟩) := by
  intro h
  have hconf := h [.child 200 512, .nothing]
    (fun i => { pid := 100 + i, channel := (-1, -1), respawn := true }) 1 0
  have hchanged := hconf.changed 1 (by decide)
  exact absurd hchanged (by decide)

end

end ProcessCycle
end Shs
