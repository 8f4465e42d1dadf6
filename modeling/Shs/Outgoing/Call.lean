import Shs.Outgoing.Events

/-!
# Outgoing.Call

What a downstream call keeps in every run: it completes once and loses no request, its events lead
back to it, and a timer stands behind every wait. Each holds up to one kind of event, and a run
that has one breaks it.
-/

namespace Shs
namespace Outgoing

open Http Downstream Loop

/-- No socket gets descriptor 0 or a negative one. -/
def fdsOk (env : Env) : Bool := env.connects.all fdOk

/-- No `connect` succeeds at once. -/
def noInstant (env : Env) : Bool := env.connects.all fun x => !instant x

theorem envOk {A : Aims} {cfg : Cfg} {env : Env} (hf : fdsOk env = true)
    (hi : A.wired ∨ A.marked → noInstant env = true)
    (hc : A.clean → instantFail cfg env = false) : EnvOk A cfg env := by
  refine ⟨List.all_eq_true.mp hf, fun hA x hx => ?_, fun hA => instantFail_false (hc hA)⟩
  simpa using List.all_eq_true.mp (hi hA) x hx

/-- A connection that a request uses waits for the network. -/
def waits (hc : HttpConn) : Bool :=
  hc.live && (hc.status == .connecting || hc.status == .writing || hc.status.reading)

theorem Inv.of_live {A : Aims} {w : World} (hw : Inv A w) (hA : A.wired ∨ A.marked) {h : Nat}
    (hl : (w.conns h).live = true) : ∃ r, Linked A [] h r w := by
  have halive : ∀ {H : Option Nat} {called : Nat}, Stock A called [] H w → H = some h := by
    intro H called hs
    by_contra hne
    have := (hs.dead h hne).live
    rw [hl] at this; cases this
  cases hw with
  | ended he => cases halive he.stock
  | lost _ _ hs => cases halive hs
  | linked i r hl =>
    cases halive hl.stock
    exact ⟨r, hl⟩
  | crashed _ _ _ hn _ => exact absurd hA hn

/-! ## Completion -/

/-- The caller's handler is called at most once, the context is freed at most once and behind that
call, and until then the context has a request. -/
structure CompletesOnce (w : World) : Prop where
  once : completions w.log ≤ 1
  freed : frees .ctx w.log ≤ 1
  order : FreedAfter w.log
  kept : completions w.log = 0 →
    ∃ h r, w.ctx.hc = some h ∧ (w.conns h).req = some r ∧ (w.reqs r).live = true

theorem Inv.completesOnce {A : Aims} {w : World} (hw : Inv A w) (hA : A.kept) :
    CompletesOnce w := by
  have hbook : ∀ {called : Nat}, Book A called w → called ≤ 1 →
      (called = 0 → ∃ h r, w.ctx.hc = some h ∧ (w.conns h).req = some r ∧
        (w.reqs r).live = true) → CompletesOnce w := by
    intro called hb hle hk
    have hctx := hb.ctx
    refine ⟨by rw [hb.calls]; exact hle, by omega, hb.order, fun h0 => hk ?_⟩
    rw [← hb.calls]; exact h0
  cases hw with
  | ended he => exact hbook he.stock.book (Nat.le_refl 1) fun h => by cases h
  | lost hk _ _ => exact absurd hA hk
  | linked h r hl =>
    exact hbook hl.stock.book (Nat.zero_le 1) fun _ => ⟨h, r, hl.hc, hl.req, hl.reqLive⟩
  | crashed h r _ _ hl =>
    exact hbook hl.stock.book (Nat.zero_le 1) fun _ => ⟨h, r, hl.hc, hl.req, hl.reqLive⟩

/-- **A downstream call completes once**, as long as no write event sends the rest of a request
that had to wait. -/
theorem call_completes_once (cfg : Cfg) (env : Env) (henv : fdsOk env = true) (as : List Act)
    (h : Run.Meets step (fun w a => fdsOk (actEnv a) = true ∧ finishesRequest w a = false)
      (startRequest cfg env) as) :
    CompletesOnce (Run.exec step (startRequest cfg env) as) := by
  let A : Aims := { kept := True }
  have hok : ∀ {cfg : Cfg} {env : Env}, fdsOk env = true → EnvOk A cfg env := fun hf =>
    envOk hf (fun h => (h.elim id id).elim) fun h => h.elim
  have hallows : Run.Meets step (Allows A) (startRequest cfg env) as :=
    h.imp step fun w a hc =>
      ⟨hok hc.1, fun _ => hc.2, fun h => h.elim, fun h => h.elim, fun h => h.elim⟩
  exact (inv_run (hok henv) hallows).completesOnce trivial

/-- A connection that needs two attempts, and a response in two pieces. -/
def twoAttempts : List Act :=
  [.writable 0 { sockError := .failed }, .writable 1 {},
    .readable 1 (dataOf (str "HTTP/1.1 200 OK\r\nContent-Length: 2\r\n\r\na")) {},
    .readable 1 (dataOf (str "b")) {}]

theorem call_completes_once_twoAttempts :
    Run.Meets step (fun w a => fdsOk (actEnv a) = true ∧ finishesRequest w a = false)
        (startRequest { uri := str "/", maxRetryNum := 1 } {}) twoAttempts ∧
      CompletesOnce (Run.exec step (startRequest { uri := str "/", maxRetryNum := 1 } {})
        twoAttempts) := by
  have hrun : Run.Meets step (fun w a => fdsOk (actEnv a) = true ∧ finishesRequest w a = false)
      (startRequest { uri := str "/", maxRetryNum := 1 } {}) twoAttempts :=
    Run.meets_of_check step (by decide +kernel)
  exact ⟨hrun, call_completes_once _ {} (by decide) _ hrun⟩

/-- `send` has to wait once. The write event that sends the request calls `http_send_done`, which
frees request and connection, and the caller never hears of it. -/
theorem call_lost_blockedSend :
    ¬ ∀ (cfg : Cfg) (env : Env) (as : List Act), fdsOk env = true →
      CompletesOnce (Run.exec step (startRequest cfg env) as) := by
  intro h
  have hw := h { uri := str "/" } {} [.writable 0 { sends := [.again] }, .writable 0 {}] (by decide)
  obtain ⟨i, r, hi, hr, -⟩ := hw.kept (by decide +kernel)
  have h0 : (Run.exec step (startRequest { uri := str "/" } {})
      [.writable 0 { sends := [.again] }, .writable 0 {}]).ctx.hc = some 0 := by decide +kernel
  rw [h0, Option.some.injEq] at hi
  subst hi
  have hnone : ((Run.exec step (startRequest { uri := str "/" } {})
      [.writable 0 { sends := [.again] }, .writable 0 {}]).conns 0).req = none := by decide +kernel
  rw [hnone] at hr
  cases hr

/-! ## Events -/

/-- The events of the socket lead to connection `h`. -/
def Wired (h : Nat) (c : Conn) : Prop :=
  c.connData = some h ∧ c.read.handler = true ∧ c.write.handler = true

instance (h : Nat) (c : Conn) : Decidable (Wired h c) := by
  unfold Wired; infer_instance

theorem Linked.wired {A : Aims} {E : List Nat} {h r : Nat} {w : World} (hw : Linked A E h r w)
    (hA : A.wired ∨ A.marked) : Wired h (w.conns h).c := by
  obtain ⟨hr, hw'⟩ := hw.events.wired hA
  exact ⟨hw.events.data (.inl hr), hr, hw'⟩

/-- **The events of a connection that waits lead to it**, as long as no `connect` succeeds at
once. -/
theorem call_wired (cfg : Cfg) (env : Env) (henv : fdsOk env = true ∧ noInstant env = true)
    (as : List Act)
    (h : Run.Meets step (fun _ a => fdsOk (actEnv a) = true ∧ noInstant (actEnv a) = true)
      (startRequest cfg env) as) (i : Nat)
    (hi : waits ((Run.exec step (startRequest cfg env) as).conns i) = true) :
    Wired i ((Run.exec step (startRequest cfg env) as).conns i).c := by
  let A : Aims := { wired := True }
  have hok : ∀ {cfg : Cfg} {env : Env}, fdsOk env = true ∧ noInstant env = true → EnvOk A cfg env :=
    fun hf => envOk hf.1 (fun _ => hf.2) fun h => h.elim
  have hallows : Run.Meets step (Allows A) (startRequest cfg env) as :=
    h.imp step fun w a hc =>
      ⟨hok hc, fun h => h.elim, fun h => h.elim, fun h => h.elim, fun h => h.elim⟩
  simp only [waits, Bool.and_eq_true] at hi
  obtain ⟨r, hl⟩ := (inv_run (hok henv) hallows).of_live (.inl trivial) hi.1
  exact hl.wired (.inl trivial)

/-- The second attempt waits for its response. -/
theorem call_wired_twoAttempts :
    Run.Meets step (fun _ a => fdsOk (actEnv a) = true ∧ noInstant (actEnv a) = true)
        (startRequest { uri := str "/", maxRetryNum := 1 } {}) (twoAttempts.take 3) ∧
      Wired 1 ((Run.exec step (startRequest { uri := str "/", maxRetryNum := 1 } {})
        (twoAttempts.take 3)).conns 1).c := by
  have hrun : Run.Meets step (fun _ a => fdsOk (actEnv a) = true ∧ noInstant (actEnv a) = true)
      (startRequest { uri := str "/", maxRetryNum := 1 } {}) (twoAttempts.take 3) :=
    Run.meets_of_check step (by decide +kernel)
  exact ⟨hrun, call_wired _ {} (by decide) _ hrun 1 (by decide +kernel)⟩

/-- `connect` succeeds at once, and nobody installs the handlers that `conn_set_default` wiped. -/
theorem call_unwired_instant :
    ¬ ∀ (cfg : Cfg) (env : Env) (as : List Act) (i : Nat), fdsOk env = true →
      waits ((Run.exec step (startRequest cfg env) as).conns i) = true →
      Wired i ((Run.exec step (startRequest cfg env) as).conns i).c := by
  intro h
  have := h { uri := str "/" } { connects := [.done 4] } [] 0 (by decide) (by decide +kernel)
  revert this
  decide +kernel

/-! ## Timers -/

/-- A timer with a handler stands behind what the connection waits for. -/
structure Timed (w : World) (h : Nat) : Prop where
  wired : Wired h (w.conns h).c
  connecting : (w.conns h).status = .connecting → (w.conns h).c.write.timerSet = true
  writing : (w.conns h).status = .writing → (w.conns h).c.write.timerSet = true
  reading : (w.conns h).status.reading = true → (w.conns h).c.read.timerSet = true

theorem Linked.timed {A : Aims} {E : List Nat} {h r : Nat} {w : World} (hw : Linked A E h r w)
    (hA : A.wired) (ht : A.timed) : Timed w h := by
  refine ⟨hw.wired (.inl hA), fun hs => ?_, fun hs => ?_, fun hs => ?_⟩
  all_goals
    cases hw.phase with
    | connecting p => first | exact p.write | (rw [p.status] at hs; cases hs)
    | writing p => first | exact p.write | (rw [p.status] at hs; cases hs)
    | reading p => first | exact p.timer ht | (have h := p.status; rw [hs] at h; cases h)

/-- A step after which no wait of the client is without a timer. -/
def timedOk (w : World) (a : Act) : Prop :=
  fdsOk (actEnv a) = true ∧ noInstant (actEnv a) = true ∧ leavesPartial w a = false

instance (w : World) (a : Act) : Decidable (timedOk w a) := by
  unfold timedOk; infer_instance

/-- **Every wait of the client ends in a timeout**, as long as responses come in one piece and no
`connect` succeeds at once. -/
theorem call_timed (cfg : Cfg) (env : Env) (henv : fdsOk env = true ∧ noInstant env = true)
    (as : List Act) (h : Run.Meets step timedOk (startRequest cfg env) as) (i : Nat)
    (hi : waits ((Run.exec step (startRequest cfg env) as).conns i) = true) :
    Timed (Run.exec step (startRequest cfg env) as) i := by
  let A : Aims := { wired := True, timed := True }
  have hok : ∀ {cfg : Cfg} {env : Env}, fdsOk env = true → noInstant env = true → EnvOk A cfg env :=
    fun hf hi => envOk hf (fun _ => hi) fun h => h.elim
  have hallows : Run.Meets step (Allows A) (startRequest cfg env) as :=
    h.imp step fun w a hc =>
      ⟨hok hc.1 hc.2.1, fun h => h.elim, fun h => h.elim, fun _ => hc.2.2, fun h => h.elim⟩
  simp only [waits, Bool.and_eq_true] at hi
  obtain ⟨r, hl⟩ := (inv_run (hok henv.1 henv.2) hallows).of_live (.inl trivial) hi.1
  exact hl.timed trivial trivial

/-- The second attempt has sent its request. -/
theorem call_timed_secondAttempt :
    Run.Meets step timedOk (startRequest { uri := str "/", maxRetryNum := 1 } {})
        (twoAttempts.take 2) ∧
      Timed (Run.exec step (startRequest { uri := str "/", maxRetryNum := 1 } {})
        (twoAttempts.take 2)) 1 := by
  have hrun : Run.Meets step timedOk (startRequest { uri := str "/", maxRetryNum := 1 } {})
      (twoAttempts.take 2) := Run.meets_of_check step (by decide +kernel)
  exact ⟨hrun, call_timed _ {} (by decide) _ hrun 1 (by decide +kernel)⟩

/-- A part of the response has come. `conn_read_handler` has taken the read timer away, and the
client waits without one for the rest. -/
theorem call_untimed_partialResponse :
    ¬ ∀ (cfg : Cfg) (env : Env) (as : List Act) (i : Nat),
      (fdsOk env = true ∧ noInstant env = true) →
      waits ((Run.exec step (startRequest cfg env) as).conns i) = true →
      Timed (Run.exec step (startRequest cfg env) as) i := by
  intro h
  have := (h { uri := str "/" } {} [.writable 0 {}, .readable 0 (dataOf (str "HTTP/1.1 200 OK\r\n")) {}]
    0 (by decide) (by decide +kernel)).reading (by decide +kernel)
  revert this
  decide +kernel

end Outgoing
end Shs
