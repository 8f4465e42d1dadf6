import Shs.Incoming.Moves

/-!
# Incoming.Dispatch

How often a request is handed to a module. A request that `req_cb` has got loses its uri and is
not handed out again. One that `stat_cb` has got keeps it, so an end of file that is read while
it is processed hands it out once more. `dispatch_once` shows that this is the only way.
-/

namespace Shs
namespace Incoming

open Http Loop

def isDispatch (r : Nat) : Obs → Bool
  | .dispatch _ r' _ => r' == r
  | _ => false

/-- How often request `r` has been handed to `stat_cb` or `req_cb`. -/
def dispatches (r : Nat) (log : List Obs) : Nat := log.countP (isDispatch r)

/-- A read event that finds the end of the stream on a connection whose request goes to
`stat_cb` and has been read. -/
def statEof (w : World) : Act → Bool
  | .readable h rs _ =>
    h == 0 && delivered (w.conns 0).c (w.conns 0).c.read && !(w.conns 0).status.reading &&
      ((w.conns 0).c.rcvq ++ rs).head? == some .eof &&
      match (w.conns 0).req with
      | some r => (w.reqs r).inBuf.data.isEmpty && isStatUri (w.reqs r).uri && w.cfg.statCb
      | none => false
  | _ => false

/-- `statEof` on the machine. -/
def Open.statEof (cfg : Cfg) (o : Open) : Act → Bool
  | .readable h rs _ =>
    h == 0 && delivered o.c o.c.read && !o.status.reading &&
      (o.c.rcvq ++ rs).head? == some .eof &&
      (o.req.inBuf.data.isEmpty && isStatUri o.req.uri && cfg.statCb)
  | _ => false

/-- Of a read event that is not `statEof`, for the request that the handler finds. -/
theorem Open.statEof_false {cfg : Cfg} {o o' : Open} {rs : List RecvResult} {e : Env}
    (hstat : o.statEof cfg (.readable 0 rs e) = false) (hd : delivered o.c o.c.read = true)
    (hsame : Same o o') (hq : o'.c.rcvq = o.c.rcvq ++ rs) (hst : o'.status.reading = false)
    (hbuf : o'.req.inBuf.data = []) (hhead : o'.c.rcvq.head? = some .eof) :
    (isStatUri o'.req.uri && cfg.statCb) = false := by
  rw [hsame.status] at hst
  rw [hsame.req] at hbuf
  rw [hq] at hhead
  rw [hsame.req]
  simpa only [Open.statEof, beq_self_eq_true, hd, hst, hhead, hbuf, List.isEmpty_nil,
    Bool.not_false, Bool.and_true, Bool.true_and] using hstat

theorem statEof_link {w : World} {s : Server} {o : Open} (hs : Sim w s) (ho : s.conn = some o)
    (a : Act) : statEof w a = o.statEof s.cfg a := by
  have hl := hs.link o ho
  cases a with
  | readable h rs e =>
    simp only [statEof, Open.statEof, hl.req, hl.c, hl.status, hl.reqs, hs.base.cfg]
  | _ => rfl

/-! ## The log -/

theorem dispatches_plain {news log : List Obs} (h : ∀ x ∈ news, plain x = true) (r : Nat) :
    dispatches r (news ++ log) = dispatches r log := by
  have hnone : news.countP (isDispatch r) = 0 := by
    rw [List.countP_eq_zero]
    intro x hx
    have := h x hx
    cases x <;> simp_all [isDispatch, plain]
  simp only [dispatches, List.countP_append, hnone, Nat.zero_add]

theorem dispatches_frame {o : Open} {s s' : Server} (h : Frame o s s') (r : Nat) :
    dispatches r s'.log = dispatches r s.log := by
  obtain ⟨news, hlog, hplain⟩ := h.log
  rw [hlog, dispatches_plain hplain]

/-- No request has been handed out twice, and none before it was there. -/
structure Counted (s : Server) : Prop where
  once : ∀ r, dispatches r s.log ≤ 1
  later : ∀ r, s.nreq ≤ r → dispatches r s.log = 0

theorem Counted.frame {o : Open} {s s' : Server} (h : Counted s) (hf : Frame o s s') :
    Counted s' := by
  refine ⟨fun r => ?_, fun r hr => ?_⟩
  · rw [dispatches_frame hf]; exact h.once r
  · rw [dispatches_frame hf]; exact h.later r (Nat.le_trans hf.nreq hr)

/-! ## The open connection -/

/-- The request of connection `o` is there, and if it has been handed out then `P`. -/
structure Once (P : Open → Prop) (s : Server) (o : Open) : Prop where
  id : o.id < s.nreq
  size : 0 < o.req.inBuf.size
  served : dispatches o.id s.log = 0 ∨ P o

structure OnceInv (P : Open → Prop) (s : Server) : Prop where
  counted : Counted s
  held : ∀ o, s.conn = some o → Once P s o

/-- A request that has been read, and that no module gets (again) without an end of file. -/
def Served (cfg : Cfg) (o : Open) : Prop :=
  o.status.reading = false ∧ (o.req.uri = [] ∨ (isStatUri o.req.uri && cfg.statCb) = true)

/-- A property of the number, the status and the uri of a connection. -/
def Stable (P : Open → Prop) : Prop :=
  ∀ o o' : Open, o'.id = o.id → o'.status = o.status → o'.req.uri = o.req.uri → P o → P o'

theorem stable_served (cfg : Cfg) : Stable (Served cfg) := by
  intro o o' _ hst huri h
  unfold Served at *
  rw [hst, huri]; exact h

theorem OnceInv.shut {P : Open → Prop} {s : Server} (hc : Counted s) (hs : s.conn = none) :
    OnceInv P s :=
  ⟨hc, fun o ho => by rw [hs] at ho; cases ho⟩

theorem OnceInv.opened {P : Open → Prop} {s : Server} {o : Open} (hc : Counted s)
    (hs : s.conn = some o) (ho : Once P s o) : OnceInv P s :=
  ⟨hc, fun o' ho' => by rw [hs, Option.some.injEq] at ho'; rw [← ho']; exact ho⟩

theorem once_sent {P : Open → Prop} (hP : Stable P) {o : Open} {s s' : Server} (hc : Counted s)
    (ho : Once P s o) (hf : Frame o s s') (hs : Sent o s s') : OnceInv P s' := by
  have hc' := hc.frame hf
  cases hs with
  | closed _ hconn _ => exact .shut hc' hconn
  | next _ _ _ c hconn hnreq _ _ =>
    have hsize : 0 < freshReq.inBuf.size := by decide
    refine .opened hc' hconn ⟨by rw [hnreq]; exact Nat.lt_succ_self _, hsize, .inl ?_⟩
    rw [dispatches_frame hf]
    exact hc.later _ (Nat.le_refl _)
  | blocked _ c hconn _ hnreq =>
    refine .opened hc' hconn ⟨by rw [hnreq]; exact ho.id, ho.size, ?_⟩
    rw [dispatches_frame hf]
    exact ho.served.imp id (hP o _ rfl rfl rfl)

theorem once_hangUp {P : Open → Prop} {o : Open} {s : Server} (hc : Counted s) (ec : HttpCode) :
    OnceInv P (hangUp o ec s) :=
  .shut (hc.frame (Frame.hangUp ec)) (hangUp_conn o ec s)

theorem once_send {P : Open → Prop} (hP : Stable P) {make : HttpReq → HttpReq}
    (hm : ∀ q, (make q).links = q.links) {o : Open} {s : Server} (hc : Counted s)
    (ho : Once P s o) : OnceInv P (send make o s) := by
  have hlinks := hm o.req
  simp only [HttpReq.links, Prod.mk.injEq] at hlinks
  have ho' : Once P s { o with req := make o.req } :=
    ⟨ho.id, by rw [hlinks.2.2.2.1]; exact ho.size,
      ho.served.imp id (hP o _ rfl rfl hlinks.2.2.2.2.1)⟩
  obtain ⟨hf, hs⟩ := sent_writeBuffer { o with req := make o.req } s ho'.id
  exact once_sent hP hc ho' hf hs

theorem links_answer (cfg : WriteCfg) (rep : Reply) (q : HttpReq) :
    (makeReply cfg (addReplyHeaders q rep.headers) rep).links = q.links :=
  (links_makeReply cfg _ rep).trans (links_addReplyHeaders q rep.headers)

/-! ## Dispatch -/

/-- The connections with the number, the status and the uri of `o`. -/
def Like (o o' : Open) : Prop :=
  o'.id = o.id ∧ o'.status = o.status ∧ o'.req.uri = o.req.uri

theorem stable_like (o : Open) : Stable (Like o) := by
  rintro o₁ o₂ hid hst huri ⟨h₁, h₂, h₃⟩
  exact ⟨hid.trans h₁, hst.trans h₂, huri.trans h₃⟩

theorem once_callModule (stat : Bool) {o : Open} {s : Server} (hc : Counted s)
    (hid : o.id < s.nreq) (hsize : 0 < o.req.inBuf.size) (hnew : dispatches o.id s.log = 0) :
    OnceInv (Like o) (callModule stat o s) := by
  set s₁ : Server := { s with conn := some o }.emit (.dispatch stat o.id o.req) with hs₁
  have hlog : ∀ r, dispatches r s₁.log = (if r = o.id then 1 else 0) + dispatches r s.log := by
    intro r
    simp only [hs₁, Server.emit, dispatches, List.countP_cons, isDispatch, beq_iff_eq]
    rw [Nat.add_comm]
    simp only [eq_comm]
  have hc₁ : Counted s₁ := by
    refine ⟨fun r => ?_, fun r hr => ?_⟩
    · rw [hlog]
      split
      · rename_i h; simp only [h, hnew, Nat.le_refl]
      · rw [Nat.zero_add]; exact hc.once r
    · have hlt : r ≠ o.id := by have : s.nreq ≤ r := hr; omega
      rw [hlog, if_neg hlt, Nat.zero_add]; exact hc.later r hr
  have ho₁ : Once (Like o) s₁ o := ⟨hid, hsize, .inr ⟨rfl, rfl, rfl⟩⟩
  unfold callModule
  simp only
  split
  · exact .opened (s := { s₁ with pending := o.id :: s₁.pending }) { hc₁ with } rfl { ho₁ with }
  · exact once_send (stable_like o) (fun q => links_answer _ _ q) hc₁ ho₁

theorem once_clearUri {o : Open} {s : Server} (hst : o.status.reading = false)
    (h : OnceInv (Like o) s) : OnceInv (Served s.cfg) (clearUri o.id s) := by
  have hlog : ∀ r, dispatches r (clearUri o.id s).log = dispatches r s.log := by
    intro r
    unfold clearUri
    simp only
    split <;> simp [Server.emit, dispatches, isDispatch]
  have hnreq : (clearUri o.id s).nreq = s.nreq := by
    unfold clearUri; simp only; split <;> rfl
  have hconn : (clearUri o.id s).conn = s.conn.map fun o' =>
      if o'.id = o.id then { o' with req := { o'.req with uri := [] } } else o' := by
    unfold clearUri; simp only; split <;> rfl
  refine ⟨⟨fun r => ?_, fun r hr => ?_⟩, fun o' ho' => ?_⟩
  · rw [hlog]; exact h.counted.once r
  · rw [hlog]; exact h.counted.later r (by rw [← hnreq]; exact hr)
  · rw [hconn, Option.map_eq_some_iff] at ho'
    obtain ⟨o₁, ho₁, rfl⟩ := ho'
    have hh := h.held o₁ ho₁
    by_cases hid : o₁.id = o.id
    · rw [if_pos hid]
      refine ⟨by rw [hnreq]; exact hh.id, hh.size, ?_⟩
      rw [hlog]
      refine hh.served.imp id fun hl => ⟨?_, .inl rfl⟩
      show o₁.status.reading = false
      rw [hl.2.1]; exact hst
    · rw [if_neg hid]
      refine ⟨by rw [hnreq]; exact hh.id, hh.size, .inl ?_⟩
      rw [hlog]
      exact hh.served.resolve_right fun hl => hid hl.1

/-- A request that has been handed out has lost its uri by now. -/
theorem once_handle {o : Open} {s : Server} (hc : Counted s) (ho : Once (Served s.cfg) s o)
    (hst : o.req.uri ≠ [] → o.status.reading = false ∧ dispatches o.id s.log = 0) :
    OnceInv (Served s.cfg) (handle o s) := by
  unfold handle
  split
  · split
    · exact once_hangUp hc _
    · exact once_send (stable_served s.cfg) (fun q => links_makeError _ q _ _) hc ho
  · rename_i huri
    obtain ⟨hread, hnew⟩ := hst (fun h => huri (by rw [h]; rfl))
    simp only
    split
    · rename_i hstat
      have h := once_callModule true (o := { o with req := { o.req with userdone := false } }) hc
        ho.id ho.size hnew
      refine ⟨h.counted, fun o' ho' => ?_⟩
      have hh := h.held o' ho'
      refine ⟨hh.id, hh.size, hh.served.imp id fun hl => ⟨by rw [hl.2.1]; exact hread, .inr ?_⟩⟩
      rw [hl.2.2]; exact hstat
    · split
      · have h := once_callModule false (o := { o with req := { o.req with userdone := false } }) hc
          ho.id ho.size hnew
        have := once_clearUri hread h
        rwa [cfg_callModule] at this
      · exact once_send (stable_served s.cfg) (fun q => links_makeNotFound _ q) hc
          ⟨ho.id, ho.size, .inl hnew⟩

/-! ## Steps and runs -/

theorem once_readHandler {o : Open} {s : Server} (hc : Counted s) (ho : Once (Served s.cfg) s o)
    (hok : o.status.reading = false → o.req.inBuf.data = [] → o.c.rcvq.head? = some .eof →
      (isStatUri o.req.uri && s.cfg.statCb) = false) :
    OnceInv (Served s.cfg) (readHandler o s) := by
  have hr := reads_connRead (o.c.read.active && o.c.read.ready) o.reader ho.size
  obtain ⟨o', hread, hmove⟩ := readHandler_cases o s ho.size
  generalize connRead (o.c.read.active && o.c.read.ready) o.reader = out at *
  have hsize : 0 < o'.req.inBuf.size := by
    rw [hread.req, hr.size]; exact ho.size
  -- a request that has been handed out is not read, and keeps its uri
  have hserved : Served s.cfg o → o'.status.reading = false ∧ o'.req.uri = o.req.uri := by
    intro h
    have hidle := hr.idle h.1
    rw [hread.status, hread.req]
    exact ⟨hidle.1, hidle.2.1⟩
  have ho' : Once (Served s.cfg) s o' := by
    refine ⟨by rw [hread.id]; exact ho.id, hsize, ?_⟩
    rw [hread.id]
    refine ho.served.imp id fun h => ?_
    obtain ⟨h₁, h₂⟩ := hserved h
    exact ⟨h₁, by rw [h₂]; exact h.2⟩
  cases hmove with
  | quiet _ h => rw [h]; exact .opened { hc with } rfl { ho' with }
  | broken _ h => rw [h]; exact once_hangUp hc _
  | invalid ec hec hv h =>
    rw [h]
    have hf : Frame o' s (s.emit (.connFail 0 ec)) := Frame.emit _ rfl
    refine once_handle (o := { o' with req := { o'.req with uri := [] } }) (hc.frame hf)
      ⟨ho'.id, hsize, ?_⟩ (fun h => absurd rfl h)
    rw [dispatches_frame hf]
    exact ho'.served.imp id fun h => ⟨h.1, .inl rfl⟩
  | done hv h =>
    rw [h]
    obtain ⟨hid, hreq, -, hst, -⟩ := doneOpen_fields o'
    refine once_handle (o := doneOpen o') hc
      ⟨by rw [hid]; exact ho'.id, by rw [hreq]; exact hsize, ?_⟩ ?_
    · rw [hid]
      refine ho'.served.imp id fun h => ⟨hst, ?_⟩
      rw [hreq]; exact h.2
    · intro huri
      refine ⟨hst, ?_⟩
      rw [hid, hread.id]
      refine ho.served.resolve_right fun hsv => ?_
      -- it has been handed out, so this is the end of the stream, and the uri is that of a page
      have hend := ((hr.idle hsv.1).2.2 hv).2
      have hno := hok hsv.1 hend.1 hend.2
      have hu := (hserved hsv).2
      rcases hsv.2 with h₁ | h₁
      · rw [hreq, hu] at huri; exact huri h₁
      · rw [hno] at h₁; cases h₁

theorem once_writeHandler {o : Open} {s : Server} (hc : Counted s)
    (ho : Once (Served s.cfg) s o) : OnceInv (Served s.cfg) (writeHandler o s) := by
  unfold writeHandler
  split
  · exact once_hangUp hc _
  · obtain ⟨hf, hs⟩ := sent_writeBuffer
      { o with c := { o.c with write := eventTimerDel o.c.write } } s ho.id
    refine once_sent (stable_served s.cfg) hc ?_ hf hs
    exact ⟨ho.id, ho.size, ho.served.imp id (stable_served s.cfg o _ rfl rfl rfl)⟩

theorem answerDetached_log (r : Nat) (s : Server) :
    (answerDetached r s).conn = s.conn ∧ (answerDetached r s).nreq = s.nreq ∧
      ∀ r', dispatches r' (answerDetached r s).log = dispatches r' s.log := by
  unfold answerDetached
  split
  · exact ⟨rfl, rfl, fun r' => by simp [freeReq, Server.emit, dispatches, isDispatch]⟩
  · exact ⟨rfl, rfl, fun r' => by simp [Server.emit, dispatches, isDispatch]⟩

theorem once_answerDetached {P : Open → Prop} (r : Nat) {s : Server} (h : OnceInv P s) :
    OnceInv P (answerDetached r s) := by
  obtain ⟨hconn, hnreq, hlog⟩ := answerDetached_log r s
  refine ⟨⟨fun r' => ?_, fun r' hr' => ?_⟩, fun o ho => ?_⟩
  · rw [hlog]; exact h.counted.once r'
  · rw [hlog]; exact h.counted.later r' (by rw [← hnreq]; exact hr')
  · have hh := h.held o (by rw [← hconn]; exact ho)
    exact ⟨by rw [hnreq]; exact hh.id, hh.size, by rw [hlog]; exact hh.served⟩

/-- **One step keeps the count**, unless it is an end of file on a request of `stat_cb`. -/
theorem once_step {s : Server} {a : Act} (h : OnceInv (Served s.cfg) s)
    (hok : ∀ o, s.conn = some o → o.statEof s.cfg a = false) :
    OnceInv (Served s.cfg) (step s a) := by
  cases hconn : s.conn with
  | none =>
    rcases step_shut hconn a with ⟨e, he⟩ | ⟨r, rep, e, -, -, he⟩
    · rw [he]; exact .shut { h.counted with } hconn
    · rw [he]
      exact once_answerDetached r (.shut { h.counted with } hconn)
  | some o =>
    have ho := h.held o hconn
    have same : ∀ {o' : Open} (e : Env), Same o o' →
        Once (Served s.cfg) { s with env := e } o' := fun e hs =>
      ⟨by rw [hs.id]; exact ho.id, by rw [hs.req]; exact ho.size, by
        rw [hs.id]
        exact ho.served.imp id (stable_served s.cfg _ _ hs.id hs.status (by rw [hs.req]))⟩
    cases step_turn hconn a with
    | idle o' e hs he => rw [he]; exact .opened { h.counted with } rfl { same e hs with }
    | read rs e o' ha hd hs hq hready he =>
      rw [he]
      have hstat := hok o hconn
      rw [ha] at hstat
      exact once_readHandler (s := { s with env := e }) { h.counted with } (same e hs)
        (Open.statEof_false hstat hd hs hq)
    | write e o' ha hs harmed he =>
      rw [he]
      exact once_writeHandler (s := { s with env := e }) { h.counted with } (same e hs)
    | reply rep e ha hr he =>
      rw [he]
      exact once_send (s := { s with env := e, pending := _ }) (stable_served s.cfg)
        (fun q => links_answer _ rep q) { h.counted with } { ho with }
    | detached r rep e ha hr hne he =>
      rw [he]
      exact once_answerDetached r (.opened { h.counted with } hconn { ho with })

theorem once_accepted (cfg : Cfg) (fd : Int) (env : Env) :
    OnceInv (Served cfg) (accepted cfg fd env) := by
  set s₀ : Server :=
    { cfg := cfg, conn := none, nreq := 0, live := fun _ => false, pending := [], env := env,
      log := [] } with hs₀
  obtain ⟨-, -, ⟨news, hlog, hplain⟩, -, hconn⟩ := openNext_cases false (connSetDefault fd) s₀
  have hzero : ∀ r, dispatches r (accepted cfg fd env).log = 0 := by
    intro r
    rw [show (accepted cfg fd env).log = news ++ s₀.log from hlog, dispatches_plain hplain]
    rfl
  have hc : Counted (accepted cfg fd env) :=
    ⟨fun r => by rw [hzero]; exact Nat.zero_le 1, fun r _ => hzero r⟩
  rcases hconn with ⟨hconn, -⟩ | ⟨hconn, hnreq, -⟩
  · exact .shut hc hconn
  · have hsize : 0 < freshReq.inBuf.size := by decide
    refine .opened hc hconn ⟨?_, hsize, .inl (hzero _)⟩
    rw [show (accepted cfg fd env).nreq = 0 + 1 from hnreq]
    exact Nat.lt_succ_self 0

/-- **Single dispatch.** In a run of an accepted connection that reads no end of file while a
request of `stat_cb` is processed, every request is handed out at most once. -/
theorem dispatch_once (cfg : Cfg) (fd : Int) (env : Env) (hfd : 0 < fd) (as : List Act)
    (h : Run.Meets Loop.step (fun w a => statEof w a = false) (httpGetRequest cfg fd env) as)
    (r : Nat) : dispatches r (Run.exec Loop.step (httpGetRequest cfg fd env) as).log ≤ 1 := by
  have hinv : ∃ s, Sim (Run.exec Loop.step (httpGetRequest cfg fd env) as) s ∧ s.cfg = cfg ∧
      OnceInv (Served cfg) s := by
    refine Run.invariant Loop.step (I := fun w => ∃ s, Sim w s ∧ s.cfg = cfg ∧
      OnceInv (Served cfg) s) ?_ ?_ h
    · exact ⟨_, sim_accepted cfg fd env hfd, cfg_accepted cfg fd env, once_accepted cfg fd env⟩
    · rintro w a ⟨s, hs, rfl, ho⟩ hok
      refine ⟨_, sim_step a hs, cfg_step s a, once_step ho fun o hconn => ?_⟩
      rw [← statEof_link hs hconn]; exact hok
  obtain ⟨s, hs, -, ho⟩ := hinv
  rw [hs.base.log]
  exact ho.counted.once r

/-- A status request that is answered while the peer keeps its end open. -/
def statRun : List Act :=
  [.readable 0 (dataOf (str "GET /status HTTP/1.1\r\n\r\n")) {}, .reply 0 {} {}]

theorem dispatch_once_statRun :
    0 < (5 : Int) ∧
      Run.Meets Loop.step (fun w a => statEof w a = false) (httpGetRequest {} 5 {}) statRun ∧
      dispatches 0 (Run.exec Loop.step (httpGetRequest {} 5 {}) statRun).log ≤ 1 := by
  have hrun : Run.Meets Loop.step (fun w a => statEof w a = false) (httpGetRequest {} 5 {})
      statRun := Run.meets_of_check Loop.step (by decide +kernel)
  exact ⟨by decide, hrun, dispatch_once {} 5 {} (by decide) statRun hrun 0⟩

/-- The peer closes its end while the module works on a status request. -/
theorem dispatch_twice_statEof :
    ¬ ∀ (cfg : Cfg) (fd : Int) (env : Env) (as : List Act) (r : Nat), 0 < fd →
      dispatches r (Run.exec Loop.step (httpGetRequest cfg fd env) as).log ≤ 1 := by
  intro h
  have := h {} 5 {} [.readable 0 (dataOf (str "GET /status HTTP/1.1\r\n\r\n")) {},
    .readable 0 [.eof] {}] 0 (by decide)
  revert this
  decide +kernel

end Incoming
end Shs
