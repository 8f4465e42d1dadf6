import Shs.Lib.Run
import Shs.Process.Reap

/-!
# Process.Channels

The channel descriptors of the master over runs of `spawn_process` and `reap_children`, with
exits, signals and failing calls in between. `Fds` follows the descriptors that `socketpair` has
returned: open, closed, and closed while they were not open.
-/

namespace Shs
namespace ProcessCycle

def MAX_PROCESSES : Nat := 1024

/-- The channel descriptors that are open, those that were closed at some time, and those that
`close` was called on while they were not open. -/
structure Fds where
  opened : List Int := []
  closed : List Int := []
  twice  : List Int := []

def Fds.socketpair (c : Int × Int) (f : Fds) : Fds := { f with opened := c.1 :: c.2 :: f.opened }

/-- `close(n)`; -1 is no descriptor. -/
def Fds.close (n : Int) (f : Fds) : Fds :=
  if n = -1 then f
  else if n ∈ f.opened then { f with opened := f.opened.erase n, closed := n :: f.closed }
  else { f with twice := n :: f.twice }

/-- `shs_close_channel`. -/
def shsCloseChannel (c : Int × Int) (f : Fds) : Fds := (f.close c.1).close c.2

/-- The descriptors in `spawn_process` when its process gets a channel: each of its failure exits
behind `socketpair` closes the pair. -/
def spawnFds (answer : Spawn) (f : Fds) : Fds :=
  match answer with
  | .noSocket => f
  | .noOption c => shsCloseChannel c (f.socketpair c)
  | .noFork c => shsCloseChannel c (f.socketpair c)
  | .child _ c => f.socketpair c

/-! ## A new process -/

/-- The negative values of the argument `respawn`. -/
inductive Respawn where
  | noRespawn
  | justSpawn
  | respawn
  | justRespawn
  | detached
  deriving DecidableEq

/-- The slot `spawn_process` searches for a new process. -/
def newSlot (m : Master) : Nat :=
  ((List.range m.lastProcess).find? fun s => (m.processes s).pid == -1).getD m.lastProcess

/-- The channel and the `fork` of `spawn_process` for a detached process in slot `s`. -/
def spawnDetached (answer : Spawn) (s : Nat) (m : Master) : Bool × Master :=
  let p := { m.processes s with channel := (-1, -1) }
  match answer with
  | .child pid _ => (true, { m.set s { p with pid := pid, exited := false } with processSlot := s })
  | _ => (false, { m.set s p with processSlot := s })

/-- The fields set behind the `fork` for a new process. -/
def enterProcess (kind : Respawn) (s : Nat) (m : Master) : Master :=
  let m := m.set s { m.processes s with
    exiting := false
    respawn := kind = .respawn ∨ kind = .justRespawn
    detached := kind = .detached }
  if s = m.lastProcess then { m with lastProcess := m.lastProcess + 1 } else m

/-- `spawn_process` with `respawn < 0`. -/
def spawnNew (kind : Respawn) (answer : Spawn) (m : Master) : Master :=
  let s := newSlot m
  if s = MAX_PROCESSES then m
  else
    match if kind = .detached then spawnDetached answer s m else spawnProcess answer s m with
    | (false, m) => m
    | (true, m) => enterProcess kind s m

def spawnNewFds (kind : Respawn) (answer : Spawn) (m : Master) (f : Fds) : Fds :=
  if newSlot m = MAX_PROCESSES then f
  else if kind = .detached then
    match answer with
    | .child _ _ => f
    | _ => shsCloseChannel (-1, -1) f
  else spawnFds answer f

/-! ## One pass of the reaper -/

/-- `reapSlot` closes the channel of the slot. -/
def closes (p : Process) : Bool := p.pid != -1 && p.exited && !p.detached

/-- `reapSlot` spawns the process of the slot again. -/
def respawns (p : Process) (m : Master) : Bool :=
  p.pid != -1 && p.exited && p.respawn && !p.exiting && !m.terminate && !m.quit

/-- The descriptors when the reaper asks for a new process of slot `i`. -/
def closedFds (i : Nat) (s : Reap) (f : Fds) : Fds :=
  if closes (s.m.processes i) then shsCloseChannel (s.m.processes i).channel f else f

/-- The descriptors in `reapSlot`. -/
def reapSlotFds (spawns : Nat → Spawn) (i : Nat) (s : Reap) (f : Fds) : Fds :=
  if respawns (s.m.processes i) s.m then spawnFds (spawns i) (closedFds i s f)
  else closedFds i s f

/-- The descriptors in `reapLoop`. -/
def reapLoopFds (spawns : Nat → Spawn) : Nat → Nat → Reap → Fds → Fds
  | 0, _, _, f => f
  | k + 1, i, s, f =>
    if i < s.m.lastProcess then
      reapLoopFds spawns k (i + 1) (reapSlot spawns i s) (reapSlotFds spawns i s f)
    else f

/-- A condition on every answer to a respawn in `reapLoop`. -/
def reapAnswers (ok : Fds → Spawn → Prop) (spawns : Nat → Spawn) : Nat → Nat → Reap → Fds → Prop
  | 0, _, _, _ => True
  | k + 1, i, s, f =>
    if i < s.m.lastProcess then
      (respawns (s.m.processes i) s.m = true → ok (closedFds i s f) (spawns i)) ∧
        reapAnswers ok spawns k (i + 1) (reapSlot spawns i s) (reapSlotFds spawns i s f)
    else True

/-! ## Runs -/

inductive Act where
  | spawn (kind : Respawn) (answer : Spawn)
  | reap (spawns : Nat → Spawn)
  /-- the process of slot `i` has exited; `fatal` is the exit status 2, which ends its respawning -/
  | exited (i : Nat) (fatal : Bool)
  /-- the master has told the process of slot `i` to exit, or found out that it is gone -/
  | exiting (i : Nat) (exiting : Bool)
  | flags (terminate quit noaccepting restart : Bool) (newBinary : Int)

structure World where
  m : Master
  fds : Fds := {}

/-- The globals at the start: a table of zeros. -/
def World.init : World :=
  { m := { processes := fun _ => { pid := 0, channel := (0, 0) }, lastProcess := 0 } }

def startReap (m : Master) : Reap := ⟨m, ⟨SHS_CMD_CLOSE_CHANNEL, 0, 0, -1⟩, false, []⟩

def step (w : World) : Act → World
  | .spawn kind answer => ⟨spawnNew kind answer w.m, spawnNewFds kind answer w.m w.fds⟩
  | .reap spawns =>
    ⟨(reapChildren spawns w.m).m, reapLoopFds spawns w.m.lastProcess 0 (startReap w.m) w.fds⟩
  | .exited i fatal =>
    let p := w.m.processes i
    { w with m := w.m.set i { p with exited := true, respawn := p.respawn && !fatal } }
  | .exiting i exiting => { w with m := w.m.set i { w.m.processes i with exiting := exiting } }
  | .flags terminate quit noaccepting restart newBinary =>
    { w with m := { w.m with terminate := terminate, quit := quit, noaccepting := noaccepting,
                             restart := restart, newBinary := newBinary } }

/-- `socketpair` returns two new descriptors; descriptor 0 stays the standard input. -/
def SocketsOk (f : Fds) (c : Int × Int) : Prop :=
  0 < c.1 ∧ 0 < c.2 ∧ c.1 ≠ c.2 ∧ c.1 ∉ f.opened ∧ c.2 ∉ f.opened

/-- What the kernel keeps to. -/
def kernelOk (f : Fds) : Spawn → Prop
  | .noSocket => True
  | .noOption c => SocketsOk f c
  | .noFork c => SocketsOk f c
  | .child _ c => SocketsOk f c

/-- No call behind `socketpair` fails. -/
def wholeOk (f : Fds) : Spawn → Prop
  | .noSocket => True
  | .noOption _ => False
  | .noFork _ => False
  | .child _ c => SocketsOk f c

/-- A condition on the answers to the calls of `spawn_process` that make a channel. -/
def actOk (ok : Fds → Spawn → Prop) (w : World) : Act → Prop
  | .spawn kind answer => kind ≠ .detached → newSlot w.m ≠ MAX_PROCESSES → ok w.fds answer
  | .reap spawns => reapAnswers ok spawns w.m.lastProcess 0 (startReap w.m) w.fds
  | _ => True

/-- The entry names a descriptor that was closed. -/
def Stale (f : Fds) (n : Int) : Prop := n ∈ f.closed ∧ n ∉ f.opened

/-! ## Who owns the descriptors -/

/-- The channel consists of two open descriptors. -/
structure Held (f : Fds) (c : Int × Int) : Prop where
  pos₁ : 0 < c.1
  pos₂ : 0 < c.2
  ne   : c.1 ≠ c.2
  mem₁ : c.1 ∈ f.opened
  mem₂ : c.2 ∈ f.opened

/-- Every channel of the table is unset, given up or open, no descriptor is in two slots, and no
descriptor was closed while it was not open. -/
structure Owned (m : Master) (f : Fds) : Prop where
  nodup   : f.opened.Nodup
  once    : f.twice = []
  pos     : ∀ n ∈ f.closed, 0 < n
  entries : ∀ i, (m.processes i).channel = (-1, -1) ∨ (m.processes i).channel = (0, 0) ∨
    Held f (m.processes i).channel
  used    : ∀ i < m.lastProcess, (m.processes i).channel ≠ (0, 0)
  apart   : ∀ i j n, 0 < n →
    ((m.processes i).channel.1 = n ∨ (m.processes i).channel.2 = n) →
    ((m.processes j).channel.1 = n ∨ (m.processes j).channel.2 = n) → i = j

theorem owned_init : Owned World.init.m World.init.fds :=
  ⟨.nil, rfl, fun _ h => absurd h List.not_mem_nil, fun _ => .inr (.inl rfl),
    fun _ h => absurd h (Nat.not_lt_zero _), fun i j n hn hi _ => by
      rcases hi with rfl | rfl <;> exact absurd hn (Int.lt_irrefl 0)⟩

/-- The descriptors that are open now have one owner and are not stale. -/
theorem Owned.not_stale {m : Master} {f : Fds} (h : Owned m f) (i : Nat) :
    ¬ Stale f (m.processes i).channel.1 ∧ ¬ Stale f (m.processes i).channel.2 := by
  rcases h.entries i with hc | hc | hc
  · rw [hc]
    exact ⟨fun hs => absurd (h.pos _ hs.1) (by decide), fun hs => absurd (h.pos _ hs.1) (by decide)⟩
  · rw [hc]
    exact ⟨fun hs => absurd (h.pos _ hs.1) (by decide), fun hs => absurd (h.pos _ hs.1) (by decide)⟩
  · exact ⟨fun hs => hs.2 hc.mem₁, fun hs => hs.2 hc.mem₂⟩

/-- What matters is the channels of the table and how many slots are in use. -/
theorem Owned.congr {m m' : Master} {f : Fds} (h : Owned m f)
    (hc : ∀ i, (m'.processes i).channel = (m.processes i).channel)
    (hl : m'.lastProcess ≤ m.lastProcess) : Owned m' f := by
  refine ⟨h.nodup, h.once, h.pos, fun i => ?_, fun i hi => ?_, fun i j n hn hi hj => ?_⟩
  · rw [hc i]
    exact h.entries i
  · rw [hc i]
    exact h.used i (Nat.lt_of_lt_of_le hi hl)
  · rw [hc i] at hi
    rw [hc j] at hj
    exact h.apart i j n hn hi hj

theorem close_opened {f : Fds} {n : Int} (hn : 0 < n) (hm : n ∈ f.opened) :
    f.close n = { f with opened := f.opened.erase n, closed := n :: f.closed } := by
  rw [Fds.close, if_neg (by omega), if_pos hm]

/-- Closing a pair that is open. -/
theorem shsCloseChannel_held {f : Fds} {c : Int × Int} (h : Held f c) :
    shsCloseChannel c f =
      { f with opened := (f.opened.erase c.1).erase c.2, closed := c.2 :: c.1 :: f.closed } := by
  have hmem : c.2 ∈ f.opened.erase c.1 := (List.mem_erase_of_ne (Ne.symm h.ne)).2 h.mem₂
  rw [shsCloseChannel, close_opened h.pos₁ h.mem₁]
  exact close_opened (f := { f with opened := f.opened.erase c.1, closed := c.1 :: f.closed })
    h.pos₂ hmem

theorem shsCloseChannel_none (f : Fds) : shsCloseChannel (-1, -1) f = f := rfl

/-- The reaper closes the channel of a slot in use and gives it up. -/
theorem Owned.close {m m' : Master} {f : Fds} {i : Nat} (h : Owned m f) (hi : i < m.lastProcess)
    (hc : ∀ j, (m'.processes j).channel = if j = i then (-1, -1) else (m.processes j).channel)
    (hl : m'.lastProcess ≤ m.lastProcess) :
    Owned m' (shsCloseChannel (m.processes i).channel f) := by
  have hself : (m'.processes i).channel = (-1, -1) := by rw [hc, if_pos rfl]
  have hother : ∀ j, j ≠ i → (m'.processes j).channel = (m.processes j).channel := by
    intro j hj
    rw [hc, if_neg hj]
  have hused : ∀ j < m'.lastProcess, (m'.processes j).channel ≠ (0, 0) := by
    intro j hj
    by_cases hji : j = i
    · subst hji
      rw [hself]
      decide
    · rw [hother j hji]
      exact h.used j (Nat.lt_of_lt_of_le hj hl)
  have hapart : ∀ j k n, 0 < n →
      ((m'.processes j).channel.1 = n ∨ (m'.processes j).channel.2 = n) →
      ((m'.processes k).channel.1 = n ∨ (m'.processes k).channel.2 = n) → j = k := by
    have hpos : ∀ j n, 0 < n →
        ((m'.processes j).channel.1 = n ∨ (m'.processes j).channel.2 = n) → j ≠ i := by
      rintro j n hn hj rfl
      rw [hself] at hj
      rcases hj with hj | hj <;> simp only at hj <;> omega
    intro j k n hn hj hk
    have hji := hpos j n hn hj
    have hki := hpos k n hn hk
    rw [hother j hji] at hj
    rw [hother k hki] at hk
    exact h.apart j k n hn hj hk
  rcases h.entries i with hch | hch | hheld
  · rw [hch, shsCloseChannel_none]
    refine ⟨h.nodup, h.once, h.pos, fun j => ?_, hused, hapart⟩
    by_cases hji : j = i
    · exact .inl (hji ▸ hself)
    · rw [hother j hji]
      exact h.entries j
  · exact absurd hch (h.used i hi)
  · rw [shsCloseChannel_held hheld]
    refine ⟨(h.nodup.erase _).erase _, h.once, ?_, fun j => ?_, hused, hapart⟩
    · intro n hn
      rcases List.mem_cons.1 hn with rfl | hn
      · exact hheld.pos₂
      · rcases List.mem_cons.1 hn with rfl | hn
        · exact hheld.pos₁
        · exact h.pos n hn
    · by_cases hji : j = i
      · exact .inl (hji ▸ hself)
      · rw [hother j hji]
        rcases h.entries j with hj | hj | hj
        · exact .inl hj
        · exact .inr (.inl hj)
        · -- the pair of another slot shares no descriptor with the pair closed
          have hne : ∀ n, ((m.processes j).channel.1 = n ∨ (m.processes j).channel.2 = n) →
              0 < n → n ≠ (m.processes i).channel.1 ∧ n ≠ (m.processes i).channel.2 := by
            intro n hn hpos
            refine ⟨fun he => hji (h.apart j i n hpos hn (.inl he.symm)), fun he => ?_⟩
            exact hji (h.apart j i n hpos hn (.inr he.symm))
          have hkeep : ∀ n, ((m.processes j).channel.1 = n ∨ (m.processes j).channel.2 = n) →
              0 < n → n ∈ f.opened → n ∈ (f.opened.erase (m.processes i).channel.1).erase
                (m.processes i).channel.2 := by
            intro n hn hpos hmem
            obtain ⟨h1, h2⟩ := hne n hn hpos
            exact (List.mem_erase_of_ne h2).2 ((List.mem_erase_of_ne h1).2 hmem)
          exact .inr (.inr ⟨hj.pos₁, hj.pos₂, hj.ne, hkeep _ (.inl rfl) hj.pos₁ hj.mem₁,
            hkeep _ (.inr rfl) hj.pos₂ hj.mem₂⟩)

/-- A slot gets a new pair. -/
theorem Owned.open {m m' : Master} {f : Fds} {s : Nat} {c : Int × Int} (h : Owned m f)
    (hs : SocketsOk f c)
    (hc : ∀ j, (m'.processes j).channel = if j = s then c else (m.processes j).channel)
    (hl : ∀ j < m'.lastProcess, j ≠ s → j < m.lastProcess) : Owned m' (f.socketpair c) := by
  obtain ⟨hpos₁, hpos₂, hne, hnew₁, hnew₂⟩ := hs
  have hself : (m'.processes s).channel = c := by rw [hc, if_pos rfl]
  have hother : ∀ j, j ≠ s → (m'.processes j).channel = (m.processes j).channel := by
    intro j hj
    rw [hc, if_neg hj]
  have hold : ∀ j n, 0 < n → ((m.processes j).channel.1 = n ∨ (m.processes j).channel.2 = n) →
      n ∈ f.opened := by
    intro j n hn hj
    rcases h.entries j with hch | hch | hch
    · rw [hch] at hj
      rcases hj with hj | hj <;> simp only at hj <;> omega
    · rw [hch] at hj
      rcases hj with hj | hj <;> simp only at hj <;> omega
    · rcases hj with rfl | rfl
      · exact hch.mem₁
      · exact hch.mem₂
  have hfresh : ∀ j n, 0 < n → ((m.processes j).channel.1 = n ∨ (m.processes j).channel.2 = n) →
      ¬ (c.1 = n ∨ c.2 = n) := by
    intro j n hn hj hcn
    have hmem := hold j n hn hj
    rcases hcn with rfl | rfl
    · exact hnew₁ hmem
    · exact hnew₂ hmem
  refine ⟨?_, h.once, h.pos, fun j => ?_, fun j hj => ?_, fun j k n hn hj hk => ?_⟩
  · refine List.nodup_cons.2 ⟨fun hmem => ?_, List.nodup_cons.2 ⟨hnew₂, h.nodup⟩⟩
    rcases List.mem_cons.1 hmem with heq | hmem
    · exact hne heq
    · exact hnew₁ hmem
  · by_cases hjs : j = s
    · subst hjs
      rw [hself]
      exact .inr (.inr ⟨hpos₁, hpos₂, hne, by simp [Fds.socketpair], by simp [Fds.socketpair]⟩)
    · rw [hother j hjs]
      rcases h.entries j with hch | hch | hch
      · exact .inl hch
      · exact .inr (.inl hch)
      · exact .inr (.inr ⟨hch.pos₁, hch.pos₂, hch.ne, by simp [Fds.socketpair, hch.mem₁],
          by simp [Fds.socketpair, hch.mem₂]⟩)
  · by_cases hjs : j = s
    · subst hjs
      rw [hself]
      rintro rfl
      exact absurd hpos₁ (by decide)
    · rw [hother j hjs]
      exact h.used j (hl j hj hjs)
  · by_cases hjs : j = s <;> by_cases hks : k = s
    · rw [hjs, hks]
    · subst hjs
      rw [hself] at hj
      rw [hother k hks] at hk
      exact absurd hj (hfresh k n hn hk)
    · subst hks
      rw [hself] at hk
      rw [hother j hjs] at hj
      exact absurd hk (hfresh j n hn hj)
    · rw [hother j hjs] at hj
      rw [hother k hks] at hk
      exact h.apart j k n hn hj hk

/-! ## The calls -/

theorem set_channel (m : Master) (s : Nat) (p : Process) (j : Nat) :
    ((m.set s p).processes j).channel = if j = s then p.channel else (m.processes j).channel := by
  by_cases hj : j = s
  · subst hj
    simp [Master.set]
  · simp [Master.set, hj]

theorem Owned.spawnProcess {m : Master} {f : Fds} (h : Owned m f) (s : Nat) {answer : Spawn}
    (hok : wholeOk f answer) :
    Owned (ProcessCycle.spawnProcess answer s m).2 (spawnFds answer f) ∧
      (ProcessCycle.spawnProcess answer s m).2.lastProcess = m.lastProcess := by
  cases answer with
  | noSocket => exact ⟨h, rfl⟩
  | noOption c => exact hok.elim
  | noFork c => exact hok.elim
  | child pid c =>
    refine ⟨h.open hok (s := s) (fun j => ?_) fun j hj _ => hj, rfl⟩
    exact set_channel m s { m.processes s with channel := c, pid := pid, exited := false } j

/-- Slot `s` is entered as used once its channel is set. -/
theorem Owned.enterProcess {m : Master} {f : Fds} (h : Owned m f) (kind : Respawn) (s : Nat)
    (hs : (m.processes s).channel ≠ (0, 0)) : Owned (ProcessCycle.enterProcess kind s m) f := by
  have hset : ∀ (p : Process), p.channel = (m.processes s).channel → Owned (m.set s p) f := by
    intro p hp
    refine h.congr (fun j => ?_) (Nat.le_refl _)
    rw [set_channel]
    split
    · rename_i hj
      rw [hp, hj]
    · rfl
  unfold ProcessCycle.enterProcess
  simp only
  split
  · rename_i hlast
    have hown := hset { m.processes s with
      exiting := false
      respawn := kind = .respawn ∨ kind = .justRespawn
      detached := kind = .detached } rfl
    refine ⟨hown.nodup, hown.once, hown.pos, hown.entries, fun j hj => ?_, hown.apart⟩
    by_cases hjs : j = s
    · subst hjs
      rw [set_channel, if_pos rfl]
      exact hs
    · refine hown.used j ?_
      have hjl : j < m.lastProcess + 1 := hj
      have hlast' : s = m.lastProcess := hlast
      show j < m.lastProcess
      omega
  · exact hset _ rfl

theorem spawnDetached_owned {m : Master} {f : Fds} (h : Owned m f) (s : Nat) (answer : Spawn) :
    Owned (spawnDetached answer s m).2 f ∧
      ((spawnDetached answer s m).2.processes s).channel = (-1, -1) := by
  have hown : ∀ m', (∀ j, (m'.processes j).channel =
      if j = s then ((-1, -1) : Int × Int) else (m.processes j).channel) →
      m'.lastProcess = m.lastProcess → Owned m' f := by
    intro m' hc hl
    refine ⟨h.nodup, h.once, h.pos, fun j => ?_, fun j hj => ?_, fun j k n hn hj hk => ?_⟩
    · rw [hc]
      split
      · exact .inl rfl
      · exact h.entries j
    · rw [hc]
      split
      · decide
      · exact h.used j (hl ▸ hj)
    · rw [hc] at hj hk
      split at hj
      · rcases hj with hj | hj <;> simp only at hj <;> omega
      · split at hk
        · rcases hk with hk | hk <;> simp only at hk <;> omega
        · exact h.apart j k n hn hj hk
  have hself : ∀ p : Process, p.channel = (-1, -1) → ∀ j, ((m.set s p).processes j).channel =
      if j = s then ((-1, -1) : Int × Int) else (m.processes j).channel := by
    intro p hp j
    rw [set_channel, hp]
  cases answer <;>
    exact ⟨hown _ (hself _ rfl) rfl, (hself _ rfl s).trans (if_pos rfl)⟩

theorem detached_fds (answer : Spawn) (f : Fds) :
    (match answer with
      | .child _ _ => f
      | _ => shsCloseChannel (-1, -1) f) = f := by
  cases answer <;> rfl

theorem Owned.spawnNew {m : Master} {f : Fds} (h : Owned m f) (kind : Respawn) {answer : Spawn}
    (hok : kind ≠ .detached → newSlot m ≠ MAX_PROCESSES → wholeOk f answer) :
    Owned (ProcessCycle.spawnNew kind answer m) (spawnNewFds kind answer m f) := by
  unfold ProcessCycle.spawnNew spawnNewFds
  simp only
  by_cases hfull : newSlot m = MAX_PROCESSES
  · rw [if_pos hfull, if_pos hfull]
    exact h
  · rw [if_neg hfull, if_neg hfull]
    by_cases hk : kind = .detached
    · rw [if_pos hk, if_pos hk]
      obtain ⟨hown, hch⟩ := spawnDetached_owned h (newSlot m) answer
      rw [detached_fds]
      split
      · rename_i m' heq
        rw [heq] at hown
        exact hown
      · rename_i m' heq
        rw [heq] at hown hch
        exact hown.enterProcess kind _ (by rw [hch]; decide)
    · rw [if_neg hk, if_neg hk]
      have hans := hok hk hfull
      obtain ⟨hown, _⟩ := h.spawnProcess (newSlot m) hans
      split
      · rename_i m' heq
        rw [heq] at hown
        exact hown
      · rename_i m' heq
        cases answer with
        | noSocket => cases heq
        | noOption c => cases heq
        | noFork c => cases heq
        | child pid c =>
          cases heq
          refine hown.enterProcess kind _ ?_
          show ((m.set (newSlot m) _).processes (newSlot m)).channel ≠ _
          rw [set_channel, if_pos rfl]
          rintro rfl
          exact absurd hans.1 (by decide)

theorem closeSlot_owned {s : Reap} {f : Fds} {i : Nat} (h : Owned s.m f) (hi : i < s.m.lastProcess) :
    Owned (closeSlot i s).m (shsCloseChannel (s.m.processes i).channel f) :=
  h.close hi (fun j => set_channel s.m i _ j) (Nat.le_refl _)

theorem dropSlot_owned {m : Master} {f : Fds} (i : Nat) (h : Owned m f) : Owned (dropSlot i m) f := by
  have hm : ∀ m' : Master, m'.processes = m.processes → m'.lastProcess = m.lastProcess →
      Owned m' f := fun m' hp hl => h.congr (fun j => by rw [hp]) (Nat.le_of_eq hl)
  unfold dropSlot
  simp only
  split <;> split
  · exact (hm _ rfl rfl).congr (fun _ => rfl) (Nat.sub_le _ _)
  · refine (hm _ rfl rfl).congr (fun j => ?_) (Nat.le_refl _)
    rw [set_channel]
    split
    · rename_i hj
      rw [hj]
    · rfl
  · exact (hm _ rfl rfl).congr (fun _ => rfl) (Nat.sub_le _ _)
  · refine h.congr (fun j => ?_) (Nat.le_refl _)
    rw [set_channel]
    split
    · rename_i hj
      rw [hj]
    · rfl

/-- One round of the reaper. -/
theorem reapSlot_owned {spawns : Nat → Spawn} {s : Reap} {f : Fds} {i : Nat} (h : Owned s.m f)
    (hi : i < s.m.lastProcess)
    (hok : respawns (s.m.processes i) s.m = true → wholeOk (closedFds i s f) (spawns i)) :
    Owned (reapSlot spawns i s).m (reapSlotFds spawns i s f) := by
  by_cases hpid : (s.m.processes i).pid = -1
  · have hc : closes (s.m.processes i) = false := by simp [closes, hpid]
    have hr : respawns (s.m.processes i) s.m = false := by simp [respawns, hpid]
    simp only [reapSlot, hpid, if_true, reapSlotFds, closedFds, hc, hr]
    exact h
  · cases hex : (s.m.processes i).exited with
    | false =>
      have hc : closes (s.m.processes i) = false := by simp [closes, hex]
      have hr : respawns (s.m.processes i) s.m = false := by simp [respawns, hex]
      simp only [reapSlot, if_neg hpid, hex, reapSlotFds, closedFds, hc, hr, Bool.false_eq_true,
        if_false]
      split <;> exact h
    | true =>
      -- the slot after its channel was closed
      let s₁ : Reap := if (s.m.processes i).detached then s else closeSlot i s
      have hs₁ : Owned s₁.m (closedFds i s f) := by
        cases hd : (s.m.processes i).detached with
        | true => simpa [s₁, hd, closedFds, closes] using h
        | false => simpa [s₁, hd, closedFds, closes, hpid, hex] using closeSlot_owned h hi
      have hflags : s₁.m.terminate = s.m.terminate ∧ s₁.m.quit = s.m.quit := by
        cases hd : (s.m.processes i).detached <;> simp [s₁, hd, closeSlot, Master.set]
      have hcond : ((s.m.processes i).respawn && !(s.m.processes i).exiting && !s₁.m.terminate &&
          !s₁.m.quit) = respawns (s.m.processes i) s.m := by
        have hne : ((s.m.processes i).pid != -1) = true := by simpa using hpid
        simp only [respawns, hex, hne, hflags, Bool.true_and]
      have hslot : reapSlot spawns i s =
          if respawns (s.m.processes i) s.m = true then
            match ProcessCycle.spawnProcess (spawns i) i s₁.m with
            | (false, m) => { s₁ with m := m }
            | (true, m) =>
              let p := m.processes m.processSlot
              let ch : Channel := ⟨SHS_CMD_OPEN_CHANNEL, p.pid, m.processSlot, p.channel.1⟩
              ⟨m, ch, true, s₁.sent ++ passOpenChannel ch m⟩
          else { s₁ with m := dropSlot i s₁.m } := by
        rw [← hcond]
        simp only [reapSlot, if_neg hpid, hex, if_true]
        rfl
      rw [hslot, reapSlotFds]
      by_cases hr : respawns (s.m.processes i) s.m = true
      · rw [if_pos hr, if_pos hr]
        obtain ⟨hown, _⟩ := hs₁.spawnProcess i (hok hr)
        split <;> rename_i m heq <;> rw [heq] at hown <;> exact hown
      · rw [if_neg hr, if_neg hr]
        exact dropSlot_owned i hs₁

theorem reapLoop_owned {spawns : Nat → Spawn} (k : Nat) {i : Nat} {s : Reap} {f : Fds}
    (h : Owned s.m f) (hok : reapAnswers wholeOk spawns k i s f) :
    Owned (reapLoop spawns k i s).m (reapLoopFds spawns k i s f) := by
  induction k generalizing i s f with
  | zero => exact h
  | succ k ih =>
    rw [reapLoop, reapLoopFds]
    rw [reapAnswers] at hok
    by_cases hi : i < s.m.lastProcess
    · rw [if_pos hi] at hok ⊢
      rw [if_pos hi]
      exact ih (reapSlot_owned h hi hok.1) hok.2
    · rw [if_neg hi, if_neg hi]
      exact h

/-- One call keeps the descriptors owned. -/
theorem step_owned (w : World) (a : Act) (h : Owned w.m w.fds) (hok : actOk wholeOk w a) :
    Owned (step w a).m (step w a).fds := by
  have hset : ∀ i (p : Process), p.channel = (w.m.processes i).channel →
      Owned (w.m.set i p) w.fds := by
    intro i p hp
    refine h.congr (fun j => ?_) (Nat.le_refl _)
    rw [set_channel]
    split
    · rename_i hj
      rw [hp, hj]
    · rfl
  cases a with
  | spawn kind answer => exact h.spawnNew kind hok
  | reap spawns => exact reapLoop_owned w.m.lastProcess (s := startReap w.m) h hok
  | exited i fatal => exact hset i _ rfl
  | exiting i exiting => exact hset i _ rfl
  | flags terminate quit noaccepting restart newBinary =>
    exact h.congr (fun _ => rfl) (Nat.le_refl _)

/-- In a run where no call behind a successful `socketpair` fails, the master closes a descriptor
only while it is open, and no slot names a descriptor that was closed. -/
theorem channels_run (as : List Act) (hok : Run.Meets step (actOk wholeOk) World.init as) :
    let w := Run.exec step World.init as
    w.fds.twice = [] ∧
      ∀ i, ¬ Stale w.fds (w.m.processes i).channel.1 ∧ ¬ Stale w.fds (w.m.processes i).channel.2 := by
  have h : Owned (Run.exec step World.init as).m (Run.exec step World.init as).fds :=
    Run.invariant step (I := fun w => Owned w.m w.fds) owned_init step_owned hok
  exact ⟨h.once, h.not_stale⟩

section Decidable

instance (f : Fds) (c : Int × Int) : Decidable (SocketsOk f c) := by
  unfold SocketsOk
  infer_instance

instance (f : Fds) (answer : Spawn) : Decidable (kernelOk f answer) := by
  cases answer <;> unfold kernelOk <;> infer_instance

instance (f : Fds) (answer : Spawn) : Decidable (wholeOk f answer) := by
  cases answer <;> unfold wholeOk <;> infer_instance

variable (ok : Fds → Spawn → Prop) [∀ f answer, Decidable (ok f answer)]

instance reapAnswersDecidable (spawns : Nat → Spawn) :
    ∀ k i s f, Decidable (reapAnswers ok spawns k i s f)
  | 0, _, _, _ => inferInstanceAs (Decidable True)
  | k + 1, i, s, f =>
    have := reapAnswersDecidable spawns k (i + 1) (reapSlot spawns i s) (reapSlotFds spawns i s f)
    inferInstanceAs (Decidable (if i < s.m.lastProcess then _ ∧ _ else True))

instance (w : World) (a : Act) : Decidable (actOk ok w a) := by
  cases a <;> unfold actOk <;> infer_instance

end Decidable

/-- A worker exits twice and is spawned again both times. -/
theorem channels_run_worker :
    (Run.exec step World.init
      [.spawn .respawn (.child 100 (5, 6)), .exited 0 false, .reap fun _ => .child 101 (5, 6),
        .exited 0 false, .reap fun _ => .child 102 (7, 8)]).fds.twice = [] :=
  (channels_run [.spawn .respawn (.child 100 (5, 6)), .exited 0 false,
    .reap fun _ => .child 101 (5, 6), .exited 0 false, .reap fun _ => .child 102 (7, 8)]
    (Run.meets_of_check _ (by decide +kernel))).1

/-- A worker exits and the fork of its respawn fails: the slot keeps the numbers of the pair that
was closed, and the next pass closes them again. -/
theorem failed_fork_closes_twice :
    ¬ ∀ as : List Act, Run.Meets step (actOk kernelOk) World.init as →
      let w := Run.exec step World.init as
      w.fds.twice = [] ∧
        ∀ i, ¬ Stale w.fds (w.m.processes i).channel.1 ∧
          ¬ Stale w.fds (w.m.processes i).channel.2 := by
  intro h
  have htwice := (h [.spawn .respawn (.child 100 (5, 6)), .exited 0 false,
    .reap fun _ => .noFork (7, 8), .reap fun _ => .noSocket]
    (Run.meets_of_check _ (by decide +kernel))).1
  revert htwice
  decide +kernel

end ProcessCycle
end Shs
