import Mathlib.Algebra.Order.Ring.Nat
import Shs.Process.Channels
import Shs.Process.GetStatus

/-!
# Process.Supervisor

`master_process_cycle`: the loop of the master with its signal handler, the calls that start
workers and the monitor, `signal_worker_processes`, the reaper and `exec_new_binary`. All signals
are blocked outside `sigsuspend`, so that one round of the loop is one step, `turn`, on the globals
and the locals of the master. What the kernel answers in a round is an `Env`; `Kids` follows the
children that have been forked and not yet been waited for.
-/

namespace Shs
namespace ProcessCycle

/-! ## The children in the kernel -/

/-- What `kill` answers. -/
inductive Kill where
  | done
  /-- `ESRCH` -/
  | noProcess
  /-- another error -/
  | refused
  deriving DecidableEq, Repr

/-- The children that have not been waited for. `lawful` holds as long as all answers have been
ones that the kernel can give. -/
structure Kids where
  pids   : List Int := []
  lawful : Bool := true
  deriving DecidableEq, Repr

/-- No slot in use but `s` has the pid. -/
def unused (s : Nat) (m : Master) (pid : Int) : Bool :=
  (List.range m.lastProcess).all fun j => j == s || (m.processes j).pid != pid

/-- `fork` for slot `s`: a child gets a pid that is no child's and that the table does not hold. -/
def Kids.fork (s : Nat) (m : Master) (answer : Spawn) (k : Kids) : Kids :=
  match answer with
  | .child pid _ =>
    ⟨pid :: k.pids, k.lawful && decide (0 < pid) && !k.pids.contains pid && unused s m pid⟩
  | _ => k

/-- `waitpid` names a child. -/
def Kids.wait (pid : Int) (k : Kids) : Kids :=
  ⟨k.pids.erase pid, k.lawful && k.pids.contains pid⟩

/-- `kill` finds every child. -/
def Kids.kill (pid : Int) (answer : Kill) (k : Kids) : Kids :=
  { k with lawful := k.lawful && !(k.pids.contains pid && answer == .noProcess) }

/-! ## The master -/

/-- The signals that the master sends. -/
inductive Signo where
  | shutdown
  | terminate
  | reopen
  | kill
  deriving DecidableEq, Repr

def SHS_CMD_QUIT : Nat := 3
def SHS_CMD_TERMINATE : Nat := 4
def SHS_CMD_REOPEN : Nat := 5

/-- The command for a signal in `signal_worker_processes`; 0 is none. -/
def Signo.command : Signo → Nat
  | .shutdown => SHS_CMD_QUIT
  | .terminate => SHS_CMD_TERMINATE
  | .reopen => SHS_CMD_REOPEN
  | .kill => 0

/-- The flags that the signal handler sets, but those of `Master`. -/
structure Flags where
  reap : Bool := false
  sigio : Bool := false
  sigalrm : Bool := false
  reconfigure : Bool := false
  reopen : Bool := false
  changeBinary : Bool := false
  noaccept : Bool := false
  deriving DecidableEq, Repr

/-- The locals of `master_process_cycle`. -/
structure Locals where
  delayShutdownProcess : Bool := false
  sigio : Nat := 0
  live : Bool := true
  delay : Nat := 0
  delayTimes : Nat := 0
  lastReconfig : Int := 0
  gracefulQuit : Bool := false
  deriving DecidableEq, Repr

/-- The master between two rounds: its globals and locals, the children in the kernel, and what it
has done so far to the outside: messages written to channels, pids killed with their signals, the
last value given to `setitimer`, and `exit`. -/
structure Supervisor where
  m : Master
  status : Nat → Int := fun _ => 0
  justSpawn : Nat → Bool := fun _ => false
  numCoredump : Int := 0
  daemonized : Bool := true
  monitorPid : Int := 0
  flags : Flags := {}
  locals : Locals := {}
  kids : Kids := {}
  sent : List (Nat × Channel) := []
  kills : List (Int × Signo) := []
  timer : Nat := 0
  stopped : Bool := false

/-- A signal in `sigsuspend`, with what the kernel tells its handler. -/
inductive Delivery where
  | shutdown
  /-- `SIGTERM` or `SIGINT` -/
  | terminate
  | noaccept
  | reconfigure
  | reopen
  | changeBinary (ppid : Int)
  | alarm
  | io
  | child (waits : List Wait)

/-- The answers to `signal_worker_processes`, for each slot: whether the command could be written
to its channel, and what `kill` says. -/
structure Answers where
  written : Nat → Bool
  kill : Nat → Kill

/-- What the kernel answers in one round. -/
structure Env where
  signals : List Delivery
  /-- to the respawns of the reaper -/
  respawns : Nat → Spawn
  /-- to the forks of new workers and of the monitor -/
  workers : Nat → Spawn
  monitor : Spawn
  /-- to `exec_new_binary`, `none` if it fails before the fork -/
  binary : Option Spawn
  told : Answers
  toldNoaccept : Answers
  /-- the status file exists -/
  statusFile : Bool
  /-- the seconds of `gettimeofday` -/
  now : Int
  /-- the hook `on_reload` returns true -/
  reload : Bool

structure Settings where
  numProcesses : Nat
  useGracefulQuit : Bool

/-! ## Starting processes -/

def Spawn.isChild : Spawn → Bool
  | .child _ _ => true
  | _ => false

/-- `spawn_process` with `respawn < 0` in the whole state. -/
def spawnKind (kind : Respawn) (answer : Spawn) (s : Supervisor) : Supervisor :=
  let i := newSlot s.m
  if i = MAX_PROCESSES then s
  else
    { s with
      m := spawnNew kind answer s.m
      justSpawn :=
        if answer.isChild then
          Function.update s.justSpawn i (kind = .justSpawn ∨ kind = .justRespawn)
        else s.justSpawn
      kids := s.kids.fork i s.m answer }

/-- The message that announces `g_process_slot`. -/
def Supervisor.announce (s : Supervisor) : Supervisor :=
  let p := s.m.processes s.m.processSlot
  { s with sent := s.sent ++
      passOpenChannel ⟨SHS_CMD_OPEN_CHANNEL, p.pid, s.m.processSlot, p.channel.1⟩ s.m }

/-- The body of the loop in `start_worker_processes`. -/
def startProcess (kind : Respawn) (s : Supervisor) (answer : Spawn) : Supervisor :=
  (spawnKind kind answer s).announce

def startWorkerProcesses (cfg : Settings) (kind : Respawn) (answers : Nat → Spawn)
    (s : Supervisor) : Supervisor :=
  Run.exec (startProcess kind) s ((List.range cfg.numProcesses).map answers)

def startMonitorProcesses (kind : Respawn) (answer : Spawn) (s : Supervisor) : Supervisor :=
  let s := startProcess kind s answer
  { s with monitorPid := (s.m.processes s.m.processSlot).pid }

/-- Workers and the monitor, as they are always started together. -/
def startAll (cfg : Settings) (kind : Respawn) (env : Env) (s : Supervisor) : Supervisor :=
  startMonitorProcesses kind env.monitor (startWorkerProcesses cfg kind env.workers s)

/-- `exec_new_binary`, with its result in `g_new_binary`. -/
def execNewBinary (answer : Option Spawn) (s : Supervisor) : Supervisor :=
  match answer with
  | none => { s with m := { s.m with newBinary := -1 } }
  | some answer =>
    let pid :=
      match answer with
      | .child pid _ => if newSlot s.m = MAX_PROCESSES then -1 else pid
      | _ => -1
    let s := spawnKind .detached answer s
    { s with m := { s.m with newBinary := pid } }

/-! ## Telling the processes -/

/-- The body of the loop in `signal_worker_processes`. The message has its command and no
descriptor; `pid` and `slot` are left unset. -/
def signalSlot (signo : Signo) (told : Answers) (s : Supervisor) (i : Nat) : Supervisor :=
  let p := s.m.processes i
  if p.detached ∨ p.pid = -1 then s
  else if s.justSpawn i then { s with justSpawn := Function.update s.justSpawn i false }
  else if p.exiting ∧ signo = .shutdown then s
  else
    let exiting := if signo = .reopen then s.m else s.m.set i { p with exiting := true }
    let s :=
      if signo.command ≠ 0 then { s with sent := s.sent ++ [(i, ⟨signo.command, 0, 0, -1⟩)] } else s
    if signo.command ≠ 0 ∧ told.written i then { s with m := exiting }
    else
      let s := { s with kids := s.kids.kill p.pid (told.kill i), kills := s.kills ++ [(p.pid, signo)] }
      match told.kill i with
      | .done => { s with m := exiting }
      | .noProcess =>
        { s with m := s.m.set i { p with exited := true, exiting := false },
                 flags := { s.flags with reap := true } }
      | .refused => s

def signalWorkerProcesses (signo : Signo) (told : Answers) (s : Supervisor) : Supervisor :=
  Run.exec (signalSlot signo told) s (List.range s.m.lastProcess)

/-! ## Signals -/

/-- `process_get_status` in the whole state. -/
def getStatus (waits : List Wait) (s : Supervisor) : Supervisor :=
  let p := processGetStatus waits
    ⟨fun i => { toProcess := s.m.processes i, status := s.status i }, s.m.lastProcess,
      s.numCoredump, []⟩
  { s with
    m := { s.m with processes := fun i => (p.processes i).toProcess }
    status := fun i => (p.processes i).status
    numCoredump := p.numCoredump
    kids := (returned waits).foldl (fun k r => k.wait r.1) s.kids }

/-- `signal_handler` in the master. -/
def signalHandler (s : Supervisor) : Delivery → Supervisor
  | .shutdown => { s with m := { s.m with quit := true } }
  | .terminate => { s with m := { s.m with terminate := true } }
  | .noaccept => if s.daemonized then { s with flags := { s.flags with noaccept := true } } else s
  | .reconfigure => { s with flags := { s.flags with reconfigure := true } }
  | .reopen => { s with flags := { s.flags with reopen := true } }
  | .changeBinary ppid =>
    if 1 < ppid ∨ 0 < s.m.newBinary then s
    else { s with flags := { s.flags with changeBinary := true } }
  | .alarm => { s with flags := { s.flags with sigalrm := true } }
  | .io => { s with flags := { s.flags with sigio := true } }
  | .child waits => getStatus waits { s with flags := { s.flags with reap := true } }

/-! ## The reaper -/

/-- The children in `reapLoop`. -/
def reapLoopKids (spawns : Nat → Spawn) : Nat → Nat → Reap → Kids → Kids
  | 0, _, _, k => k
  | n + 1, i, s, k =>
    if i < s.m.lastProcess then
      reapLoopKids spawns n (i + 1) (reapSlot spawns i s)
        (if respawns (s.m.processes i) s.m then k.fork i s.m (spawns i) else k)
    else k

/-- `if (g_reap)` in the loop. -/
def reapTurn (env : Env) (s : Supervisor) : Supervisor :=
  if s.flags.reap then
    let r := reapChildren env.respawns s.m
    { s with
      m := r.m
      flags := { s.flags with reap := false }
      locals := { s.locals with live := r.live }
      kids := reapLoopKids env.respawns s.m.lastProcess 0 (startReap s.m) s.kids
      sent := s.sent ++ r.sent }
  else s

/-! ## The loop -/

/-- `50 * (2 << delay_times)` in 32 bits. -/
def terminateDelay (delayTimes : Nat) : Nat := 50 * (2 * 2 ^ (delayTimes % 32) % 2 ^ 32) % 2 ^ 32

/-- What comes before `sigsuspend`. -/
def loopTop (s : Supervisor) : Supervisor :=
  let s :=
    if 0 < s.locals.delay then
      { s with timer := s.locals.delay, locals := { s.locals with delay := 0, gracefulQuit := false } }
    else s
  if s.flags.sigalrm then
    { s with
      flags := { s.flags with sigalrm := false }
      locals := { s.locals with sigio := 0, delayTimes := (s.locals.delayTimes + 1) % 2 ^ 32 } }
  else s

/-- The loop up to the first test of what to do. -/
def wake (env : Env) (s : Supervisor) : Supervisor :=
  reapTurn env (Run.exec signalHandler (loopTop s) env.signals)

/-- `if (g_terminate)`. -/
def terminateTurn (cfg : Settings) (env : Env) (s : Supervisor) : Supervisor :=
  let graceful := s.locals.gracefulQuit || (cfg.useGracefulQuit && env.statusFile)
  let delay := terminateDelay s.locals.delayTimes
  let s := { s with locals := { s.locals with gracefulQuit := graceful, delay := delay } }
  if 0 < s.locals.sigio then
    { s with locals := { s.locals with sigio := s.locals.sigio - 1 } }
  else
    let s := { s with locals := { s.locals with sigio := cfg.numProcesses + 1 } }
    if graceful then s
    else if 1000 < delay then signalWorkerProcesses .kill env.told s
    else signalWorkerProcesses .terminate env.told s

/-- `if (g_reconfigure)`. -/
def reconfigureTurn (cfg : Settings) (env : Env) (s : Supervisor) : Supervisor :=
  let s := { s with flags := { s.flags with reconfigure := false } }
  if s.locals.delayShutdownProcess ∧ s.locals.lastReconfig ≠ 0 ∧
      env.now - s.locals.lastReconfig < 150 then s
  else
    let s := { s with locals := { s.locals with lastReconfig := env.now } }
    if s.m.newBinary ≠ 0 then
      let s := startAll cfg .respawn env s
      { s with m := { s.m with noaccepting := false } }
    else if env.reload then
      let s := startAll cfg .justRespawn env s
      if s.locals.delay = 0 then
        { s with locals := { s.locals with delayShutdownProcess := true, delay := 60000 } }
      else s
    else s

/-- The alarm that ends a reload. -/
def alarmTurn (env : Env) (s : Supervisor) : Supervisor :=
  if s.locals.delayShutdownProcess ∧ s.flags.sigalrm then
    signalWorkerProcesses .shutdown env.told
      { s with locals :=
          { s.locals with delay := 0, delayTimes := 0, delayShutdownProcess := false, live := true } }
  else s

/-- `if (g_restart)`. -/
def restartTurn (cfg : Settings) (env : Env) (s : Supervisor) : Supervisor :=
  if s.m.restart then
    let s := startAll cfg .respawn env { s with m := { s.m with restart := false } }
    { s with locals := { s.locals with live := true } }
  else s

/-- `if (g_change_binary)`. -/
def changeBinaryTurn (env : Env) (s : Supervisor) : Supervisor :=
  if s.flags.changeBinary then
    execNewBinary env.binary { s with flags := { s.flags with changeBinary := false } }
  else s

/-- `if (g_noaccept)`. -/
def noacceptTurn (env : Env) (s : Supervisor) : Supervisor :=
  if s.flags.noaccept then
    signalWorkerProcesses .shutdown env.toldNoaccept
      { s with flags := { s.flags with noaccept := false },
               m := { s.m with noaccepting := true } }
  else s

/-- The loop behind the reaper. -/
def act (cfg : Settings) (env : Env) (s : Supervisor) : Supervisor :=
  if !s.locals.live && (s.m.terminate || s.m.quit) then { s with stopped := true }
  else if s.m.terminate then terminateTurn cfg env s
  else if s.m.quit then signalWorkerProcesses .shutdown env.told s
  else if s.flags.reconfigure then reconfigureTurn cfg env s
  else noacceptTurn env (changeBinaryTurn env (restartTurn cfg env (alarmTurn env s)))

/-- One round of `master_process_cycle`. Behind `exit` there are no rounds. -/
def turn (cfg : Settings) (s : Supervisor) (env : Env) : Supervisor :=
  if s.stopped then s else act cfg env (wake env s)

/-- `master_process_cycle` up to its loop. -/
def masterStart (cfg : Settings) (daemonized : Bool) (env : Env) : Supervisor :=
  startAll cfg .respawn env { m := World.init.m, daemonized := daemonized }

/-- `master_process_cycle` over a list of rounds. -/
def masterProcessCycle (cfg : Settings) (daemonized : Bool) (start : Env) (envs : List Env) :
    Supervisor :=
  Run.exec (turn cfg) (masterStart cfg daemonized start) envs

end ProcessCycle
end Shs
