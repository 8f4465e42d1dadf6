import Shs.Incoming.Whole
import Shs.Outgoing.Call

/-!
# System

Results about `http.cc` on both sides: an accepted connection with its requests, and a downstream
call with its attempts. Messages that are handed on are complete, objects are freed once and not
used afterwards, a connection knows which side made it, and no timer outlives its connection.
-/

namespace Shs
namespace System

open Http Loop Outgoing
open Incoming hiding step

/-- Which side a run is about: a server that accepts descriptor `fd`, or a downstream call. -/
inductive Side where
  | server (fd : Int)
  | client
  deriving DecidableEq, Repr

namespace Side

def start (cfg : Cfg) (env : Env) : Side → World
  | .server fd => httpGetRequest cfg fd env
  | .client => startRequest cfg env

/-- Every descriptor is above 0. -/
def fds (env : Env) : Side → Bool
  | .server fd => 0 < fd
  | .client => fdsOk env

/-- Connection `i` is one that this side makes. -/
def makes (i : Nat) : Side → Bool
  | .server _ => i == 0
  | .client => true

end Side

/-- The state a run of a side comes to. -/
def run (cfg : Cfg) (env : Env) (side : Side) (as : List Act) : World :=
  Run.exec step (side.start cfg env) as

/-- A run all of whose steps meet a condition of the side. -/
def Holds (ok : Side → World → Act → Bool) (cfg : Cfg) (env : Env) (side : Side)
    (as : List Act) : Prop :=
  Run.Meets step (fun w a => side.fds (actEnv a) = true ∧ ok side w a = true)
    (side.start cfg env) as

/-- A downstream call whose steps meet a condition that the aims `A` allow. -/
theorem inv_client {A : Aims} {ok : Side → World → Act → Bool} {cfg : Cfg} {env : Env}
    {as : List Act} (henv : EnvOk A cfg env)
    (hok : ∀ w a, fdsOk (actEnv a) = true → ok .client w a = true → Allows A w a)
    (h : Holds ok cfg env .client as) : Inv A (run cfg env .client as) :=
  inv_run henv (Run.Meets.imp step h fun w a hc => hok w a hc.1 hc.2)

/-! ## Messages -/

/-- A message that is handed on is complete. -/
def WholeMessage : Side → Obs → Prop
  | .server _, x => WholeDispatch x
  | .client, x => WholeResponse x

/-- A read event does not take anything else for the end of a message. -/
def soundStep : Side → World → Act → Bool
  | .server _, w, a => !unsoundRequest w a
  | .client, w, a => !unsoundResponse w a

/-- **Messages are complete.** The server hands out requests, and the client takes responses, only
when they have been received whole, as long as no read event takes something else for the end of
a message. -/
theorem messages_complete (cfg : Cfg) (env : Env) (side : Side) (as : List Act)
    (hfd : side.fds env = true) (h : Holds soundStep cfg env side as) :
    ∀ x ∈ (run cfg env side as).log, WholeMessage side x := by
  cases side with
  | server fd =>
    refine server_whole cfg fd env (of_decide_eq_true hfd) as (Run.Meets.imp step h fun w a hc => ?_)
    simpa [soundStep] using hc.2
  | client =>
    let A : Aims := { whole := True }
    have hok : ∀ {cfg : Cfg} {env : Env}, fdsOk env = true → EnvOk A cfg env := fun hf =>
      envOk hf (fun h => (h.elim id id).elim) fun h => h.elim
    obtain ⟨_, hbook⟩ := (inv_client (hok hfd) (fun w a hf hs => ⟨hok hf, fun h => h.elim,
      fun h => h.elim, fun h => h.elim, fun _ => by simpa [soundStep] using hs⟩) h).book
    exact hbook.whole trivial

/-- A request in two pieces. -/
def twoPieces : List Act :=
  [.readable 0 (dataOf (str "POST /x HTTP/1.1\r\nContent-Length: 2\r\n\r\na")) {},
    .readable 0 (dataOf (str "b")) {}]

theorem messages_complete_twoPieces :
    Holds soundStep {} {} (.server 5) twoPieces ∧
      ∀ x ∈ (run {} {} (.server 5) twoPieces).log, WholeMessage (.server 5) x := by
  have h : Holds soundStep {} {} (.server 5) twoPieces :=
    Run.meets_of_check step (by decide +kernel)
  exact ⟨h, messages_complete {} {} (.server 5) twoPieces (by decide) h⟩

/-- The peer closes behind the first line. The end of the stream is taken for the end of the
request, and a module gets it. -/
theorem messages_incomplete_closed :
    ¬ ∀ (cfg : Cfg) (env : Env) (side : Side) (as : List Act), side.fds env = true →
      ∀ x ∈ (run cfg env side as).log, WholeMessage side x := by
  intro h
  have hlog : ∀ x ∈ (run {} {} (.server 5) [.readable 0 (dataOf (str "GET /x HTTP/1.1\r\n")) {},
      .readable 0 [.eof] {}]).log, WholeDispatch x := h {} {} (.server 5) _ (by decide)
  revert hlog
  decide +kernel

/-! ## Objects -/

/-- The steps after which nothing that was freed is used. -/
def tidyStep : Side → World → Act → Bool
  | .server _, w, a => !statEof w a && !syncAnswer w a
  | .client, w, a => !instantFail w.cfg (actEnv a)

/-- What the code around the client answers to the first attempt. -/
def tidyStart (cfg : Cfg) (env : Env) : Side → Bool
  | .server _ => true
  | .client => !instantFail cfg env

/-- **Objects are freed once and not used afterwards**, on the server as long as no read event is
a `statEof` or a `syncAnswer`, and on the client as long as no `connect` succeeds at once with a
`send` that fails. -/
theorem objects_freed_once (cfg : Cfg) (env : Env) (side : Side) (as : List Act)
    (hfd : side.fds env = true) (hstart : tidyStart cfg env side = true)
    (h : Holds tidyStep cfg env side as) (x : Obj) :
    frees x (run cfg env side as).log ≤ 1 ∧ .fault x ∉ (run cfg env side as).log := by
  cases side with
  | server fd =>
    refine server_lifecycle cfg fd env (of_decide_eq_true hfd) as
      (Run.Meets.imp step h fun w a hc => ?_) x
    simpa [tidyStep] using hc.2
  | client =>
    let A : Aims := { clean := True }
    have hok : ∀ {cfg : Cfg} {env : Env}, fdsOk env = true → instantFail cfg env = false →
        EnvOk A cfg env := fun hf hi => envOk hf (fun h => (h.elim id id).elim) fun _ => hi
    have hstart : instantFail cfg env = false := by simpa [tidyStart] using hstart
    obtain ⟨_, hbook⟩ := (inv_client (hok hfd hstart) (fun w a hf hs =>
      ⟨hok hf (by simpa [tidyStep] using hs), fun h => h.elim, fun h => h.elim, fun h => h.elim,
        fun h => h.elim⟩) h).book
    refine ⟨?_, hbook.clean trivial x⟩
    cases x with
    | req r =>
      have := hbook.reqs r
      split at this <;> omega
    | conn i =>
      have := hbook.conns i
      split at this <;> omega
    | ctx =>
      have := hbook.ctx
      omega

theorem objects_freed_once_twoAttempts :
    Holds tidyStep { uri := str "/", maxRetryNum := 1 } {} .client twoAttempts ∧
      .fault (.req 0) ∉ (run { uri := str "/", maxRetryNum := 1 } {} .client twoAttempts).log := by
  have h : Holds tidyStep { uri := str "/", maxRetryNum := 1 } {} .client twoAttempts :=
    Run.meets_of_check step (by decide +kernel)
  exact ⟨h, (objects_freed_once _ {} .client twoAttempts (by decide) (by decide) h _).2⟩

/-- The module answers before `req_cb` returns, and `http_handle_request` empties the uri of a
request that is gone. -/
theorem objects_used_syncAnswer :
    ¬ ∀ (cfg : Cfg) (env : Env) (side : Side) (as : List Act) (x : Obj), side.fds env = true →
      frees x (run cfg env side as).log ≤ 1 ∧ .fault x ∉ (run cfg env side as).log := by
  intro h
  have := (h {} {} (.server 5)
    [.readable 0 (dataOf (str "GET /a HTTP/1.1\r\n\r\n")) { module := some {} }] (.req 0)
    (by decide)).2
  revert this
  decide +kernel

/-! ## Directions -/

/-- The direction bits of a connection are those of its side. -/
def Directed (hc : HttpConn) : Side → Prop
  | .server _ => hc.flags &&& HTTP_FLAGS_INCOMING ≠ 0 ∧ hc.flags &&& HTTP_FLAGS_OUTGOING = 0
  | .client => hc.flags &&& HTTP_FLAGS_OUTGOING ≠ 0 ∧ hc.flags &&& HTTP_FLAGS_INCOMING = 0

instance (hc : HttpConn) (side : Side) : Decidable (Directed hc side) := by
  cases side <;> (unfold Directed; infer_instance)

/-- A step in which no connection of the client is established. -/
def unconnected : Side → World → Act → Bool
  | .server _, _, _ => true
  | .client, w, a => noInstant (actEnv a) && !completesConnect w a

def unconnectedStart (env : Env) : Side → Bool
  | .server _ => true
  | .client => noInstant env

/-- **A connection knows its side.** The accepted one is marked as incoming in every run, and one
the client opens as outgoing, as long as it is not established. -/
theorem direction_kept (cfg : Cfg) (env : Env) (side : Side) (as : List Act)
    (hfd : side.fds env = true) (hstart : unconnectedStart env side = true)
    (h : Holds unconnected cfg env side as) (i : Nat) (hi : side.makes i = true)
    (hlive : ((run cfg env side as).conns i).live = true) :
    Directed ((run cfg env side as).conns i) side := by
  cases side with
  | server fd =>
    have hs := sim_exec as (sim_accepted cfg fd env (of_decide_eq_true hfd))
    have hi : i = 0 := by simpa [Side.makes] using hi
    subst hi
    cases hconn : (Run.exec Incoming.step (accepted cfg fd env) as).conn with
    | none =>
      rw [show ((run cfg env (.server fd) as).conns 0).live = false from (hs.shut hconn).live]
        at hlive
      cases hlive
    | some o =>
      have hf : ((run cfg env (.server fd) as).conns 0).flags = HTTP_FLAGS_INCOMING :=
        (hs.link o hconn).flags
      show _ ≠ _ ∧ _ = _
      rw [hf]
      decide
  | client =>
    let A : Aims := { marked := True }
    have hok : ∀ {cfg : Cfg} {env : Env}, fdsOk env = true → noInstant env = true →
        EnvOk A cfg env := fun hf hi => envOk hf (fun _ => hi) fun h => h.elim
    have hinv := inv_client (hok hfd hstart) (fun w a hf hs => by
      simp only [unconnected, Bool.and_eq_true, Bool.not_eq_true'] at hs
      exact ⟨hok hf hs.1, fun h => h.elim, fun _ => hs.2, fun h => h.elim, fun h => h.elim⟩) h
    obtain ⟨r, hl⟩ := hinv.of_live (.inr trivial) hlive
    unfold Directed
    cases hl.phase with
    | connecting p => rw [p.flags]; decide
    | writing p => exact absurd trivial p.marked
    | reading p => exact absurd trivial p.marked

/-- The second attempt waits for its connection. -/
theorem direction_kept_connecting :
    Holds unconnected { uri := str "/", maxRetryNum := 1 } {} .client (twoAttempts.take 1) ∧
      Directed ((run { uri := str "/", maxRetryNum := 1 } {} .client
        (twoAttempts.take 1)).conns 1) .client := by
  have h : Holds unconnected { uri := str "/", maxRetryNum := 1 } {} .client
      (twoAttempts.take 1) := Run.meets_of_check step (by decide +kernel)
  exact ⟨h, direction_kept _ {} .client _ (by decide) (by decide) h 1 (by decide)
    (by decide +kernel)⟩

/-- `http_send_request` stops the detection of a close, and `HTTP_FLAGS_CLOSEDETECT` covers both
direction bits. -/
theorem direction_lost_connected :
    ¬ ∀ (cfg : Cfg) (env : Env) (side : Side) (as : List Act) (i : Nat), side.fds env = true →
      side.makes i = true → ((run cfg env side as).conns i).live = true →
      Directed ((run cfg env side as).conns i) side := by
  intro h
  have := h { uri := str "/" } {} .client [.writable 0 {}] 0 (by decide) (by decide)
    (by decide +kernel)
  revert this
  decide +kernel

/-! ## Timers -/

/-- No event is wiped or given away while a timer tree holds it. -/
def TreesClean (log : List Obs) : Prop := ∀ i, .orphan i ∉ log

/-- **Timers do not outlive their connection**, as long as no socket has descriptor 0. -/
theorem timers_removed (cfg : Cfg) (env : Env) (side : Side) (as : List Act)
    (hfd : side.fds env = true) (h : Holds (fun _ _ _ => true) cfg env side as) :
    TreesClean (run cfg env side as).log := by
  cases side with
  | server fd =>
    intro i
    have hs := sim_exec as (sim_accepted cfg fd env (of_decide_eq_true hfd))
    rw [show (run cfg env (.server fd) as).log = _ from hs.base.log]
    refine fun hmem => all_run (Q := fun x => x ≠ .orphan i) (fun x hx => ?_) (fun _ _ _ => ?_)
      cfg fd env as _ hmem rfl
    · rintro rfl; cases hx
    · simp
  | client =>
    let A : Aims := {}
    have hok : ∀ {cfg : Cfg} {env : Env}, fdsOk env = true → EnvOk A cfg env := fun hf =>
      envOk hf (fun h => (h.elim id id).elim) fun h => h.elim
    obtain ⟨_, hbook⟩ := (inv_client (hok hfd) (fun w a hf _ => ⟨hok hf, fun h => h.elim,
      fun h => h.elim, fun h => h.elim, fun h => h.elim⟩) h).book
    exact hbook.tree

theorem timers_removed_twoAttempts :
    Holds (fun _ _ _ => true) { uri := str "/", maxRetryNum := 1 } {} .client twoAttempts ∧
      TreesClean (run { uri := str "/", maxRetryNum := 1 } {} .client twoAttempts).log := by
  have h : Holds (fun _ _ _ => true) { uri := str "/", maxRetryNum := 1 } {} .client twoAttempts :=
    Run.meets_of_check step (by decide +kernel)
  exact ⟨h, timers_removed _ {} .client twoAttempts (by decide) h⟩

/-- The accepted socket is descriptor 0, and a response has to wait. `conn_close` skips the socket,
so its write timer is still in the tree when the connection goes back to the pool. -/
theorem timers_left_descriptorZero :
    ¬ ∀ (cfg : Cfg) (env : Env) (side : Side) (as : List Act),
      (∀ fd, side = .server fd → 0 ≤ fd) → TreesClean (run cfg env side as).log := by
  intro h
  have := h {} {} (.server 0) [.readable 0 (dataOf (str "GET /a HTTP/1.1\r\n\r\n")) {},
    .reply 0 {} { sends := [.again] }, .readable 0 [.error] {}] (fun fd hfd => by cases hfd; decide) 0
  revert this
  decide +kernel

end System
end Shs
