import Shs.Outgoing.Attempt
import Shs.Lib.Run

/-!
# Outgoing.Events

What an event does to a downstream call. Between two turns of the event loop the call has ended,
or one connection waits for the network, or the request was lost, or the process has called a
handler that is NULL (`Inv`). `inv_step` goes through all events, and the conditions under which
each aim survives one are functions of the state and the event alone. `inv_run` is the invariant
of whole runs.
-/

namespace Shs
namespace Outgoing

open Http Downstream Loop

variable {A : Aims} {E : List Nat} {h r n : Nat} {w : World} {cb : Callbacks}

/-! ## Conditions -/

def actEnv : Act → Env
  | .readable _ _ e | .writable _ e | .readTimeout _ e | .writeTimeout _ e | .reply _ _ e => e

/-- The request on connection `h`, and what the reading functions get when `rs` arrives. -/
def readerOf (w : World) (h : Nat) (rs : List RecvResult) : Option Reader :=
  (w.conns h).req.map fun r => ⟨w.reqs r, (w.conns h).status, (w.conns h).c.rcvq ++ rs⟩

/-- A read event for which `conn_read_handler` reads. -/
def reads (w : World) (h : Nat) : Bool :=
  delivered (w.conns h).c (w.conns h).c.read && !(w.conns h).c.read.timedout &&
    (w.conns h).readEventHandler == some .connReadHandler

/-- A write event for which handler `f` runs. -/
def writes (w : World) (h : Nat) (f : WriteHandler) : Bool :=
  delivered (w.conns h).c (w.conns h).c.write && !(w.conns h).c.write.timedout &&
    (w.conns h).writeEventHandler == some f

/-- A write event sends the rest of a request that had to wait. -/
def finishesRequest (w : World) : Act → Bool
  | .writable h env =>
    writes w h .connWriteHandler &&
      match (w.conns h).req with
      | none => false
      | some r => 0 < (sendLoop env.sends (w.reqs r).outBuf.data 0).ret
  | _ => false

/-- A connection is established. -/
def completesConnect (w : World) : Act → Bool
  | .writable h env => writes w h .connWaitConnectHandler && env.sockError == .none
  | _ => false

/-- A read event after which more of the response has to come. -/
def leavesPartial (w : World) : Act → Bool
  | .readable h rs _ =>
    reads w h &&
      match readerOf w h rs with
      | none => false
      | some s => (connRead true s).2 == .wait
  | _ => false

/-- A read event that takes something for the end of a response that is none. -/
def unsoundResponse (w : World) : Act → Bool
  | .readable h rs _ =>
    reads w h &&
      match readerOf w h rs with
      | none => false
      | some s => !soundRead true s
  | _ => false

/-- The event leaves the aims within reach. -/
structure Allows (A : Aims) (w : World) (a : Act) : Prop where
  env : EnvOk A w.cfg (actEnv a)
  kept : A.kept → finishesRequest w a = false
  marked : A.marked → completesConnect w a = false
  timed : A.timed → leavesPartial w a = false
  whole : A.whole → unsoundResponse w a = false

/-- What holds between two turns of the event loop. -/
inductive Inv (A : Aims) (w : World) : Prop
  | ended (he : Ended A [] w)
  | lost (hk : ¬ A.kept) (hl : w.ctx.live = true) (hs : Stock A 0 [] none w)
  | linked (h r : Nat) (hl : Linked A [] h r w)
  | crashed (h r : Nat) (hc : w.crashed = true) (hA : ¬ (A.wired ∨ A.marked))
      (hl : Tied A [] h r w)

theorem Inv.of_settled (hw : Settled A [] w) : Inv A w := by
  rcases hw with hw | ⟨h, r, hw⟩
  · exact .ended hw
  · exact .linked h r hw

/-! ## The socket -/

/-- The socket changes, and the connection waits as before. -/
theorem Linked.modC (hw : Linked A E h r w) {k : Conn → Conn}
    (hfd : (k (w.conns h).c).fd = (w.conns h).c.fd)
    (hdata : (k (w.conns h).c).connData = (w.conns h).c.connData)
    (hr : (k (w.conns h).c).read.handler = (w.conns h).c.read.handler)
    (hwr : (k (w.conns h).c).write.handler = (w.conns h).c.write.handler)
    (hp : Phase A { w.conns h with c := k (w.conns h).c } (w.reqs r)) :
    Linked A E h r (w.modC h k) := by
  have hfd' : 0 < (k (w.conns h).c).fd := by rw [hfd]; exact hw.fd
  refine ⟨hw.toTied.modConn rfl rfl (.inl hfd'), ?_, ?_, ?_⟩
  · rw [modC_conns, if_pos rfl]; exact hfd'
  · rw [modC_conns, if_pos rfl]
    have he := hw.events
    exact ⟨by rw [hr, hwr, hdata]; exact he.data, by rw [hr, hwr]; exact he.wired⟩
  · rw [modC_conns, if_pos rfl]; exact hp

/-- Neither timers nor the timeout of the write event have changed. -/
theorem Phase.socket {hc : HttpConn} {q : HttpReq} (hp : Phase A hc q) {c : Conn}
    (hrt : c.read.timerSet = hc.c.read.timerSet) (hwt : c.write.timerSet = hc.c.write.timerSet)
    (hto : c.write.timedout = hc.c.write.timedout) : Phase A { hc with c := c } q := by
  cases hp with
  | connecting p =>
    exact .connecting ⟨p.status, p.flags, p.weh, p.reh, hwt.trans p.write, hrt.trans p.read,
      hto.trans p.timely, p.fresh⟩
  | writing p =>
    exact .writing ⟨⟨p.status, p.flags, p.marked, p.reh, p.fresh⟩, p.weh, hwt.trans p.write⟩
  | reading p =>
    exact .reading ⟨p.status, p.flags, p.marked, p.weh, p.reh, p.kind,
      fun hA => hrt.trans (p.timer hA), p.progress⟩

theorem Linked.withEnv (hw : Linked A E h r w) {e : Env} (he : EnvOk A w.cfg e) :
    Linked A E h r { w with env := e } := { hw with toTied := hw.toTied.withEnv he }

/-- A dead connection changes. -/
theorem Tied.modDead (hw : Tied A E h r w) {i : Nat} (hi : i ≠ h) {g : HttpConn → HttpConn}
    (hd : Dead (g (w.conns i))) : Tied A E h r (w.modConn i g) := by
  have hconn : (w.modConn i g).conns h = w.conns h := by
    rw [modConn_conns, if_neg (Ne.symm hi)]
  have hne : some h ≠ some i := fun h => hi (Option.some.inj h).symm
  exact ⟨⟨hw.live, hw.hc, hw.stock.modDead hne hd⟩, by rw [hconn]; exact hw.req, hw.back, hw.cb,
    hw.size⟩

theorem Linked.modDead (hw : Linked A E h r w) {i : Nat} (hi : i ≠ h) {g : HttpConn → HttpConn}
    (hd : Dead (g (w.conns i))) : Linked A E h r (w.modConn i g) := by
  have hconn : (w.modConn i g).conns h = w.conns h := by
    rw [modConn_conns, if_neg (Ne.symm hi)]
  refine ⟨hw.toTied.modDead hi hd, by rw [hconn]; exact hw.fd, by rw [hconn]; exact hw.events, ?_⟩
  rw [hconn]; exact hw.phase

/-! ## Read events -/

/-- The call back into `HandlerResponse` with the response that was read. -/
theorem settled_connDone (hcb : Answers A n cb) (hw : Tied A E h r w)
    (hfuel : w.cfg.maxRetryNum < n + w.ctx.retryNum) (hf : (w.conns h).flags = 0)
    (hwhole : A.whole → complete .response (w.reqs r) = true) :
    Settled A E (httpConnDone cb h r w) := by
  have hout : ¬ (w.conns h).flags &&& HTTP_FLAGS_OUTGOING ≠ 0 := by rw [hf]; decide
  have hcall : ∀ {w : World}, Tied A E h r w → w.cfg.maxRetryNum < n + w.ctx.retryNum →
      (A.whole → complete .response (w.reqs r) = true) → Settled A E (callCb cb .ok r w) := by
    intro w hw hfuel hwhole
    unfold callCb
    simp only [touchReq_live hw.reqLive, hw.cb]
    refine hcb hw.toHolds hfuel (fun r' hr' => ?_) fun hA _ => ⟨r, rfl, hwhole hA⟩
    rw [← Option.some.inj hr']; exact hw.reqLive
  unfold httpConnDone
  simp only [touchConn_live hw.conn, touchReq_live hw.reqLive, hout, if_false]
  split
  · refine hcall (hw.modConn rfl rfl ?_) hfuel hwhole
    exact (hw.stock.conn h rfl).2
  · exact hcall hw hfuel hwhole

/-- The heap behind the reading functions. -/
theorem tied_noteRead (hw : Tied A E h r w) {t : Reader} (hk : Kept (w.reqs r) t.req)
    (hs : t.req.inBuf.size = (w.reqs r).inBuf.size) :
    Tied A E h r (noteRead h r t w) := by
  have hset : w.setReq r t.req = w.modReq r fun _ => t.req := rfl
  unfold noteRead
  rw [hset]
  refine (hw.modReq hk.live hk.hc hk.cb hs).modConn rfl rfl ?_
  exact (hw.stock.conn h rfl).2.of_fd rfl rfl rfl

/-- `conn_read_handler`, when the read timer has expired. -/
theorem settled_readTimeout (hcb : Answers A n cb) (hw : Tied A E h r w)
    (hto : (w.conns h).c.read.timedout = true) (hf : (w.conns h).flags = 0)
    (hfuel : w.cfg.maxRetryNum < n + w.ctx.retryNum) : Settled A E (connReadHandler cb h w) := by
  unfold connReadHandler
  simp only [touchConn_live hw.conn, hw.req, hto, if_true]
  exact settled_connFail hcb hw hfuel (.inl hf) (by simp)

/-- `conn_write_handler`, when the write timer has expired. -/
theorem settled_writeTimeout (hcb : Answers A n cb) (hw : Tied A E h r w)
    (hto : (w.conns h).c.write.timedout = true) (hf : (w.conns h).flags = 0)
    (hfuel : w.cfg.maxRetryNum < n + w.ctx.retryNum) : Settled A E (connWriteHandler cb h w) := by
  unfold connWriteHandler
  simp only [touchConn_live hw.conn, hto, if_true]
  exact settled_connFail hcb hw hfuel (.inl hf) (by simp)

/-- `conn_read_handler` on a connection that reads its response. -/
theorem inv_readHandler (hcb : Answers A n cb) (hw : Linked A [] h r w)
    (hp : Reading A (w.conns h) (w.reqs r)) (hfuel : w.cfg.maxRetryNum < n + w.ctx.retryNum)
    (htimed : A.timed → (w.conns h).c.read.timedout = false →
      (connRead ((w.conns h).c.read.active && (w.conns h).c.read.ready)
        ⟨w.reqs r, (w.conns h).status, (w.conns h).c.rcvq⟩).2 ≠ .wait)
    (hwhole : A.whole → (w.conns h).c.read.timedout = false →
      soundRead ((w.conns h).c.read.active && (w.conns h).c.read.ready)
        ⟨w.reqs r, (w.conns h).status, (w.conns h).c.rcvq⟩ = true) :
    Inv A (connReadHandler cb h w) := by
  cases hto : (w.conns h).c.read.timedout with
  | true => exact .of_settled (settled_readTimeout hcb hw.toTied hto hp.flags hfuel)
  | false =>
    unfold connReadHandler
    simp only [touchConn_live hw.conn, hw.req, hto, Bool.false_eq_true, if_false,
      touchReq_live hw.reqLive]
    set w₁ := w.modC h fun c => { c with read := eventTimerDel c.read } with hw₁
    have hconn : w₁.conns h = { w.conns h with
        c := { (w.conns h).c with read := eventTimerDel (w.conns h).c.read } } := by
      rw [hw₁, modC_conns, if_pos rfl]
    have h₁ : Tied A [] h r w₁ := hw.toTied.modConn rfl rfl (.inl hw.fd)
    have hreader : connRead ((w₁.conns h).c.read.active && (w₁.conns h).c.read.ready)
        ⟨w₁.reqs r, (w₁.conns h).status, (w₁.conns h).c.rcvq⟩ =
        connRead ((w.conns h).c.read.active && (w.conns h).c.read.ready)
          ⟨w.reqs r, (w.conns h).status, (w.conns h).c.rcvq⟩ := by
      rw [hconn]; rfl
    rw [hreader]
    have hreads := reads_connRead ((w.conns h).c.read.active && (w.conns h).c.read.ready)
      ⟨w.reqs r, (w.conns h).status, (w.conns h).c.rcvq⟩ hw.size
    have hkept := kept_connRead ((w.conns h).c.read.active && (w.conns h).c.read.ready)
      ⟨w.reqs r, (w.conns h).status, (w.conns h).c.rcvq⟩
    have hjudged : A.whole → Judged ⟨w.reqs r, (w.conns h).status, (w.conns h).c.rcvq⟩
        (connRead ((w.conns h).c.read.active && (w.conns h).c.read.ready)
          ⟨w.reqs r, (w.conns h).status, (w.conns h).c.rcvq⟩) := fun hA =>
      judged_connRead _ _ hp.status (hp.progress hA) (hwhole hA hto)
    have htimed := fun hA => htimed hA hto
    generalize connRead ((w.conns h).c.read.active && (w.conns h).c.read.ready)
      ⟨w.reqs r, (w.conns h).status, (w.conns h).c.rcvq⟩ = out at *
    obtain ⟨t, v⟩ := out
    simp only at hreads hkept hjudged htimed ⊢
    have h₂ : Tied A [] h r (noteRead h r t w₁) := tied_noteRead h₁ hkept hreads.size
    have hconn₂ : (noteRead h r t w₁).conns h = { w₁.conns h with
        status := t.status, c := { (w₁.conns h).c with rcvq := t.rcvq } } := if_pos rfl
    have hreq₂ : (noteRead h r t w₁).reqs r = t.req := if_pos rfl
    have hfuel₂ : (noteRead h r t w₁).cfg.maxRetryNum < n + (noteRead h r t w₁).ctx.retryNum := hfuel
    have hflags : ((noteRead h r t w₁).conns h).flags = 0 := by
      rw [hconn₂, hconn]; exact hp.flags
    have hign : v ≠ .ignore := by
      rintro rfl
      rcases hreads.verdict with hd | hd
      · simp only at hd
        generalize t.status = st at hd
        cases hd with
        | ignore hst => rw [hp.status] at hst; cases hst
      · cases hd.2.1
    rcases hreads.verdicts with hv | hv | hv | hv | hv | hv <;> simp only at hv <;> subst hv
    · -- more has to come
      have hquiet : t.status.reading = true := by
        have := hreads.quiet (.inl rfl)
        exact this.trans hp.status
      refine .linked h r ?_
      unfold onVerdict
      simp only
      refine ⟨h₂.modConn rfl rfl (.inl ?_), ?_, ?_, .reading ?_⟩
      · rw [hconn₂, hconn]; exact hw.fd
      · rw [modC_conns, if_pos rfl, hconn₂, hconn]; exact hw.fd
      · rw [modC_conns, if_pos rfl, hconn₂, hconn]
        have hh := (eventAdd_fields (noteRead h r t w₁).env.add
          (eventTimerDel (w.conns h).c.read)).2
        exact ⟨fun hor => hw.events.data (hor.imp (fun h => hh ▸ h) id),
          fun hA => ⟨hh.trans (hw.events.wired hA).1, (hw.events.wired hA).2⟩⟩
      · rw [modC_conns, if_pos rfl]
        show Reading A _ ((noteRead h r t w₁).reqs r)
        rw [hconn₂, hconn, hreq₂]
        exact ⟨hquiet, hp.flags, hp.marked, hp.weh, hp.reh, hkept.kind.trans hp.kind,
          fun hA => absurd rfl (htimed hA), fun hA => (hjudged hA).waits (.inl rfl)⟩
    · exact absurd rfl hign
    · refine .of_settled (settled_connDone hcb h₂ hfuel₂ hflags fun hA => ?_)
      rw [hreq₂]
      rcases (hjudged hA).hands rfl with hc | hc
      · rw [← hp.kind]; exact hc
      · have hk := hc.2.1
        simp only at hk
        rw [hp.kind] at hk; cases hk
    all_goals exact .of_settled (settled_connFail hcb h₂ hfuel₂ (.inl hflags) (by simp))

/-! ## Write events -/

/-- `conn_write_handler`: the rest of a request goes out, and `http_send_done` drops it. -/
theorem inv_writeHandler (hcb : Answers A n cb) (hw : Linked A [] h r w)
    (hp : Writing A (w.conns h) (w.reqs r)) (hfuel : w.cfg.maxRetryNum < n + w.ctx.retryNum)
    (hkept : A.kept → (w.conns h).c.write.timedout = false → ¬ 0 < (sendOf r w).ret) :
    Inv A (connWriteHandler cb h w) := by
  cases hto : (w.conns h).c.write.timedout with
  | true => exact .of_settled (settled_writeTimeout hcb hw.toTied hto hp.flags hfuel)
  | false =>
    unfold connWriteHandler
    simp only [touchConn_live hw.conn, hto, Bool.false_eq_true, if_false, World.modC,
      modConn_modConn]
    set w₁ := w.modConn h fun hc =>
      { hc with
        c := { hc.c with write := eventTimerDel hc.c.write }
        connCb := some (if hc.flags &&& HTTP_FLAGS_OUTGOING ≠ 0 then .httpSendRequestDone
          else .httpSendDone) } with hw₁
    have hdone : ¬ (w.conns h).flags &&& HTTP_FLAGS_OUTGOING ≠ 0 := by rw [hp.flags]; decide
    have hconn : w₁.conns h = { w.conns h with
        c := { (w.conns h).c with write := eventTimerDel (w.conns h).c.write }
        connCb := some .httpSendDone } := by
      rw [hw₁, modConn_self, if_neg hdone]
    have h₁ : Ready A [] h r w₁ := by
      refine ⟨hw.toTied.modConn rfl rfl (.inl hw.fd), ?_, ?_⟩
      · rw [hconn]; exact ⟨hw.events.data, hw.events.wired⟩
      · rw [hconn]; exact ⟨hp.status, hp.flags, hp.marked, hp.reh, hp.fresh⟩
    obtain ⟨hs, hctx, hcfg, -, hfd'⟩ := ready_noteSent h₁
    have hfd : 0 < ((noteSent h r (sendOf r w₁) w₁).conns h).c.fd := by
      rw [hfd', hconn]; exact hw.fd
    rw [writeBuffer_ready h₁]
    simp only [hconn]
    split
    · refine .of_settled (settled_connFail hcb hs.toTied ?_ (.inl hs.loaded.flags) (by simp))
      rw [hctx, hcfg]; exact hfuel
    · split
      · rename_i hpos
        obtain ⟨hc, hst⟩ := stock_sendDone hs
        refine .lost (fun hA => hkept hA hto hpos) ?_ hst
        rw [hc, hctx]; exact hw.live
      · exact .linked h r (linked_blocked hs hfd)

/-- `conn_wait_connect_handler`, when the connection did not come in time. -/
theorem settled_connectTimeout (hcb : Answers A n cb) (hw : Dialing A [] h r w)
    (hto : (w.conns h).c.write.timedout = true) (hfuel : w.cfg.maxRetryNum < n + w.ctx.retryNum) :
    Settled A [] (connWaitConnectHandler cb h w) := by
  unfold connWaitConnectHandler
  simp only [touchConn_live hw.conn, hto, if_true]
  exact settled_retry hcb _ (by simp) hw hfuel

/-- `conn_wait_connect_handler`, when the socket reports how `connect` ended. -/
theorem settled_connected (hcb : Answers A n cb) (hw : Linked A [] h r w)
    (hp : Connecting (w.conns h) (w.reqs r)) (hfuel : w.cfg.maxRetryNum < n + w.ctx.retryNum)
    (hm : A.marked → w.env.sockError ≠ .none) : Settled A [] (connWaitConnectHandler cb h w) := by
  set w₁ := w.modC h fun c => { c with write := eventTimerDel c.write } with hw₁
  have hconn : w₁.conns h = { w.conns h with
      c := { (w.conns h).c with write := eventTimerDel (w.conns h).c.write } } := by
    rw [hw₁, modC_conns, if_pos rfl]
  have h₁ : Dialing A [] h r w₁ :=
    { toTied := hw.toTied.modConn rfl rfl (.inl hw.fd)
      flags := by rw [hconn]; exact .inr hp.flags
      reh := by rw [hconn]; exact hp.reh
      read := by rw [hconn]; exact hp.read
      write := by rw [hconn]; rfl
      fresh := hp.fresh }
  unfold connWaitConnectHandler
  simp only [touchConn_live hw.conn, hp.timely, Bool.false_eq_true, if_false]
  rw [← hw₁]
  split
  · exact settled_retry hcb _ (by simp) h₁ hfuel
  · exact settled_retry hcb _ (by simp) h₁ hfuel
  · rename_i hnone
    have hno : ¬ A.marked := fun hA => hm hA hnone
    set w₂ := w₁.modConn h fun hc => { hc with retryCnt := 0, status := .idle } with hw₂
    have hconn₂ : w₂.conns h = { w₁.conns h with retryCnt := 0, status := .idle } :=
      modConn_self w₁ h fun hc => { hc with retryCnt := 0, status := .idle }
    have h₂ : Dialing A [] h r w₂ :=
      { toTied := h₁.toTied.modConn rfl rfl (by rw [hconn]; exact .inl hw.fd)
        flags := by rw [hconn₂]; exact h₁.flags
        reh := by rw [hconn₂]; exact h₁.reh
        read := by rw [hconn₂]; exact h₁.read
        write := by rw [hconn₂]; exact h₁.write
        fresh := h₁.fresh }
    refine settled_sendRequest hcb h₂ (by rw [hconn₂]) ?_ ?_ hno hfuel
    · rw [hconn₂, hconn]; exact hw.fd
    · rw [hconn₂, hconn]; exact ⟨hw.events.data, hw.events.wired⟩

/-! ## One turn of the event loop -/

theorem loop_answers (A : Aims) (w : World) :
    Answers A (w.cfg.maxRetryNum + 2) (loopCallbacks w) := answers_callbacks A _

theorem fuel_enough (w : World) :
    w.cfg.maxRetryNum < w.cfg.maxRetryNum + 2 + w.ctx.retryNum := by omega

/-- An event of a connection that is gone. -/
theorem dead_event (hd : Dead (w.conns h)) (rs : List RecvResult) :
    onReadable h rs w = w.modC h (fun c => { c with rcvq := c.rcvq ++ rs }) ∧
      onWritable h w = w ∧ onReadTimeout h w = w ∧ onWriteTimeout h w = w := by
  have hno : ∀ ev, delivered (w.conns h).c ev = false := by
    intro ev
    simp only [delivered, hd.fd, bne_self_eq_false, Bool.false_and]
  refine ⟨?_, ?_, ?_, ?_⟩
  · unfold onReadable
    simp only
    rw [if_neg]
    rw [modC_conns, if_pos rfl]
    show ¬ delivered { (w.conns h).c with rcvq := _ } (w.conns h).c.read = true
    simp only [delivered, hd.fd, bne_self_eq_false, Bool.false_and, Bool.false_eq_true,
      not_false_eq_true]
  · unfold onWritable
    rw [if_neg (by rw [hno]; simp)]
  · unfold onReadTimeout
    rw [if_neg (by rw [hd.read]; simp)]
  · unfold onWriteTimeout
    rw [if_neg (by rw [hd.write]; simp)]

theorem dead_socket {hc : HttpConn} (hd : Dead hc) (rs : List RecvResult) :
    Dead { hc with c := { hc.c with rcvq := hc.c.rcvq ++ rs } } :=
  ⟨hd.live, hd.fd, hd.read, hd.write⟩

theorem Tied.alive (hw : Tied A E h r w) {i : Nat} (hd : Dead (w.conns i)) : i ≠ h := by
  rintro rfl
  have := hd.live
  rw [hw.conn] at this
  cases this

theorem Inv.modDead (hw : Inv A w) {i : Nat} (hi : Dead (w.conns i)) {g : HttpConn → HttpConn}
    (hd : Dead (g (w.conns i))) : Inv A (w.modConn i g) := by
  cases hw with
  | ended he => exact .ended ⟨he.live, he.stock.modDead (by simp) hd⟩
  | lost hk hl hs => exact .lost hk hl (hs.modDead (by simp) hd)
  | linked h r hl => exact .linked h r (hl.modDead (hl.alive hi) hd)
  | crashed h r hc hA hl => exact .crashed h r hc hA (hl.modDead (hl.alive hi) hd)

theorem Inv.withEnv (hw : Inv A w) {e : Env} (he : EnvOk A w.cfg e) : Inv A { w with env := e } := by
  cases hw with
  | ended h => exact .ended ⟨h.live, h.stock.withEnv he⟩
  | lost hk hl hs => exact .lost hk hl (hs.withEnv he)
  | linked h r hl => exact .linked h r (hl.withEnv he)
  | crashed h r hc hA hl => exact .crashed h r hc hA (hl.withEnv he)

theorem Inv.pending (hw : Inv A w) : w.pending = [] := by
  cases hw with
  | ended h => exact h.stock.pending
  | lost _ _ hs => exact hs.pending
  | linked _ _ hl => exact hl.stock.pending
  | crashed _ _ _ _ hl => exact hl.stock.pending

theorem Inv.book (hw : Inv A w) : ∃ called, Book A called w := by
  cases hw with
  | ended h => exact ⟨1, h.stock.book⟩
  | lost _ _ hs => exact ⟨0, hs.book⟩
  | linked _ _ hl => exact ⟨0, hl.stock.book⟩
  | crashed _ _ _ _ hl => exact ⟨0, hl.stock.book⟩

/-- Every connection but the one that waits is dead. -/
theorem Inv.dead_or_linked (hw : Inv A w) (hc : w.crashed = false) (i : Nat) :
    Dead (w.conns i) ∨ ∃ r, Linked A [] i r w := by
  cases hw with
  | ended h => exact .inl (h.stock.dead i (by simp))
  | lost _ _ hs => exact .inl (hs.dead i (by simp))
  | linked h r hl =>
    by_cases hi : i = h
    · subst hi; exact .inr ⟨r, hl⟩
    · exact .inl (hl.stock.dead i fun he => hi (Option.some.inj he).symm)
  | crashed _ _ hcr _ _ => rw [hc] at hcr; cases hcr

theorem inv_dead (hw : Inv A w) (hd : Dead (w.conns h)) (rs : List RecvResult) :
    Inv A (onReadable h rs w) ∧ Inv A (onWritable h w) ∧ Inv A (onReadTimeout h w) ∧
      Inv A (onWriteTimeout h w) := by
  obtain ⟨hr, hw', hrt, hwt⟩ := dead_event hd rs
  rw [hr, hw', hrt, hwt]
  exact ⟨hw.modDead hd (g := fun hc => { hc with c := { hc.c with rcvq := hc.c.rcvq ++ rs } })
    (dead_socket hd rs), hw, hw, hw⟩

theorem inv_readable (hw : Linked A [] h r w) (rs : List RecvResult)
    (htimed : A.timed → reads w h = true →
      (connRead true ⟨w.reqs r, (w.conns h).status, (w.conns h).c.rcvq ++ rs⟩).2 ≠ .wait)
    (hwhole : A.whole → reads w h = true →
      soundRead true ⟨w.reqs r, (w.conns h).status, (w.conns h).c.rcvq ++ rs⟩ = true) :
    Inv A (onReadable h rs w) := by
  have h₁ : Linked A [] h r (w.modC h fun c => { c with rcvq := c.rcvq ++ rs }) :=
    hw.modC rfl rfl rfl rfl (hw.phase.socket rfl rfl rfl)
  unfold onReadable
  simp only
  split
  · rename_i hd
    set w₂ := (w.modC h fun c => { c with rcvq := c.rcvq ++ rs }).modC h fun c =>
      { c with read := { c.read with ready := true } } with hw₂
    have hconn : w₂.conns h = { w.conns h with
        c := { (w.conns h).c with
          rcvq := (w.conns h).c.rcvq ++ rs, read := { (w.conns h).c.read with ready := true } } } := by
      rw [hw₂, modC_conns, if_pos rfl, modC_conns, if_pos rfl]
    have h₂ : Linked A [] h r w₂ := h₁.modC rfl rfl rfl rfl (h₁.phase.socket rfl rfl rfl)
    have hdel : delivered (w.conns h).c (w.conns h).c.read = true := by
      rw [modC_conns, if_pos rfl] at hd; exact hd
    simp only [delivered, Bool.and_eq_true] at hdel
    have hdata : (w₂.conns h).c.connData = some h := by
      rw [hconn]; exact hw.events.data (.inl hdel.2)
    unfold processRead
    simp only [hdata, touchConn_live h₂.conn]
    cases h₂.phase with
    | connecting p => rw [p.reh]; exact .linked h r h₂
    | writing p => rw [p.reh]; exact .linked h r h₂
    | reading p =>
      rw [p.reh]
      have harm : ((w₂.conns h).c.read.active && (w₂.conns h).c.read.ready) = true := by
        rw [hconn]; simp only [hdel.1.2, Bool.and_self]
      have hreader : (⟨w₂.reqs r, (w₂.conns h).status, (w₂.conns h).c.rcvq⟩ : Reader) =
          ⟨w.reqs r, (w.conns h).status, (w.conns h).c.rcvq ++ rs⟩ := by
        rw [hconn]; rfl
      have hreads : (w₂.conns h).c.read.timedout = false → reads w h = true := by
        intro hto
        have hreh := p.reh
        rw [hconn] at hto hreh
        simp only at hto hreh
        simp only [reads, delivered, hdel.1.1, hdel.1.2, hdel.2, hto, hreh, Bool.and_self,
          Bool.not_false, beq_self_eq_true]
      refine inv_readHandler (loop_answers A w) h₂ p (fuel_enough w) (fun hA hto => ?_)
        fun hA hto => ?_
      · rw [harm, hreader]; exact htimed hA (hreads hto)
      · rw [harm, hreader]; exact hwhole hA (hreads hto)
  · exact .linked h r h₁

theorem inv_writable (hw : Linked A [] h r w)
    (hkept : A.kept → writes w h .connWriteHandler = true → ¬ 0 < (sendOf r w).ret)
    (hmarked : A.marked → writes w h .connWaitConnectHandler = true → w.env.sockError ≠ .none) :
    Inv A (onWritable h w) := by
  unfold onWritable
  split
  · rename_i hd
    simp only [delivered, Bool.and_eq_true] at hd
    set w₂ := w.modC h fun c => { c with write := { c.write with ready := true } } with hw₂
    have hconn : w₂.conns h = { w.conns h with
        c := { (w.conns h).c with write := { (w.conns h).c.write with ready := true } } } := by
      rw [hw₂, modC_conns, if_pos rfl]
    have h₂ : Linked A [] h r w₂ := hw.modC rfl rfl rfl rfl (hw.phase.socket rfl rfl rfl)
    have hdata : (w₂.conns h).c.connData = some h := by
      rw [hconn]; exact hw.events.data (.inr hd.2)
    have hwrites : ∀ f, (w₂.conns h).c.write.timedout = false →
        (w₂.conns h).writeEventHandler = some f → writes w h f = true := by
      intro f hto hweh
      rw [hconn] at hto hweh
      simp only at hto hweh
      simp only [writes, delivered, hd.1.1, hd.1.2, hd.2, hto, hweh, Bool.and_self,
        Bool.not_false, beq_self_eq_true]
    unfold processWrite
    simp only [hdata, touchConn_live h₂.conn]
    cases h₂.phase with
    | connecting p =>
      rw [p.weh]
      exact .of_settled (settled_connected (loop_answers A w) h₂ p (fuel_enough w)
        fun hA => hmarked hA (hwrites _ p.timely p.weh))
    | writing p =>
      rw [p.weh]
      exact inv_writeHandler (loop_answers A w) h₂ p (fuel_enough w)
        fun hA hto => hkept hA (hwrites _ hto p.weh)
    | reading p => rw [p.weh]; exact .linked h r h₂
  · exact .linked h r hw

/-- A timer of a connection whose handlers were wiped expires. -/
theorem inv_crash (hw : Tied A [] h r w) (hA : ¬ (A.wired ∨ A.marked)) : Inv A w.crash :=
  .crashed h r rfl hA { hw with stock := hw.stock.crash }

theorem inv_readTimeout (hw : Linked A [] h r w) : Inv A (onReadTimeout h w) := by
  unfold onReadTimeout
  split
  · rename_i hset
    set w₂ := w.modC h fun c => { c with read := eventExpire c.read } with hw₂
    have hconn : w₂.conns h = { w.conns h with
        c := { (w.conns h).c with read := eventExpire (w.conns h).c.read } } := by
      rw [hw₂, modC_conns, if_pos rfl]
    have h₂ : Tied A [] h r w₂ := hw.toTied.modConn rfl rfl (.inl hw.fd)
    have hdata : (w₂.conns h).c.read.handler = true → (w₂.conns h).c.connData = some h := by
      rw [hconn]; exact fun hh => hw.events.data (.inl hh)
    have hunwired : ¬ (w₂.conns h).c.read.handler = true → ¬ (A.wired ∨ A.marked) := by
      rw [hconn]; exact fun hh hA => hh (hw.events.wired hA).1
    simp only
    cases hw.phase with
    | connecting p => rw [p.read] at hset; cases hset
    | writing p =>
      have h₃ : Linked A [] h r w₂ := hw.modC rfl rfl rfl rfl
        (.writing ⟨⟨p.status, p.flags, p.marked, p.reh, p.fresh⟩, p.weh, p.write⟩)
      split
      · rename_i hh
        unfold processRead
        simp only [hdata hh, touchConn_live h₂.conn]
        rw [show (w₂.conns h).readEventHandler = none by rw [hconn]; exact p.reh]
        exact .linked h r h₃
      · rename_i hh; exact inv_crash h₂ (hunwired hh)
    | reading p =>
      split
      · rename_i hh
        unfold processRead
        simp only [hdata hh, touchConn_live h₂.conn]
        rw [show (w₂.conns h).readEventHandler = some .connReadHandler by rw [hconn]; exact p.reh]
        refine .of_settled (settled_readTimeout (loop_answers A w) h₂ ?_ ?_ (fuel_enough w))
        · rw [hconn]; rfl
        · rw [hconn]; exact p.flags
      · rename_i hh; exact inv_crash h₂ (hunwired hh)
  · exact .linked h r hw

theorem inv_writeTimeout (hw : Linked A [] h r w) : Inv A (onWriteTimeout h w) := by
  unfold onWriteTimeout
  split
  · set w₂ := w.modC h fun c => { c with write := eventExpire c.write } with hw₂
    have hconn : w₂.conns h = { w.conns h with
        c := { (w.conns h).c with write := eventExpire (w.conns h).c.write } } := by
      rw [hw₂, modC_conns, if_pos rfl]
    have h₂ : Tied A [] h r w₂ := hw.toTied.modConn rfl rfl (.inl hw.fd)
    simp only
    split
    · rename_i hh
      have hdata : (w₂.conns h).c.connData = some h := by
        rw [hconn] at hh ⊢; exact hw.events.data (.inr hh)
      unfold processWrite
      simp only [hdata, touchConn_live h₂.conn]
      cases hw.phase with
      | connecting p =>
        rw [show (w₂.conns h).writeEventHandler = some .connWaitConnectHandler by
          rw [hconn]; exact p.weh]
        have h₃ : Dialing A [] h r w₂ :=
          { toTied := h₂
            flags := by rw [hconn]; exact .inr p.flags
            reh := by rw [hconn]; exact p.reh
            read := by rw [hconn]; exact p.read
            write := by rw [hconn]; rfl
            fresh := p.fresh }
        refine .of_settled (settled_connectTimeout (loop_answers A w) h₃ ?_ (fuel_enough w))
        rw [hconn]; rfl
      | writing p =>
        rw [show (w₂.conns h).writeEventHandler = some .connWriteHandler by
          rw [hconn]; exact p.weh]
        refine .of_settled (settled_writeTimeout (loop_answers A w) h₂ ?_ ?_ (fuel_enough w))
        · rw [hconn]; rfl
        · rw [hconn]; exact p.flags
      | reading p =>
        rw [show (w₂.conns h).writeEventHandler = none by rw [hconn]; exact p.weh]
        exact .linked h r (hw.modC rfl rfl rfl rfl (.reading ⟨p.status, p.flags, p.marked, p.weh,
          p.reh, p.kind, p.timer, p.progress⟩))
    · rename_i hh
      refine inv_crash h₂ fun hA => hh ?_
      rw [hconn]; exact (hw.events.wired hA).2
  · exact .linked h r hw

/-- One turn of the event loop that meets the conditions keeps the invariant. -/
theorem inv_step (hw : Inv A w) {a : Act} (ha : Allows A w a) : Inv A (step w a) := by
  unfold step
  split
  · exact hw
  · rename_i hc
    have hw' : Inv A { w with env := actEnv a } := hw.withEnv ha.env
    have hdl := hw'.dead_or_linked (by simpa using hc)
    cases a with
    | readable h rs env =>
      rcases hdl h with hd | ⟨r, hl⟩
      · exact (inv_dead hw' hd rs).1
      · have hreader : readerOf w h rs =
            some ⟨w.reqs r, (w.conns h).status, (w.conns h).c.rcvq ++ rs⟩ := by
          simp only [readerOf]
          rw [show (w.conns h).req = some r from hl.req]; rfl
        refine inv_readable hl rs (fun hA hr => ?_) fun hA hr => ?_
        · have := ha.timed hA
          rw [leavesPartial, show reads w h = true from hr, hreader] at this
          simpa using this
        · have := ha.whole hA
          rw [unsoundResponse, show reads w h = true from hr, hreader] at this
          simpa using this
    | writable h env =>
      rcases hdl h with hd | ⟨r, hl⟩
      · exact (inv_dead hw' hd []).2.1
      · refine inv_writable hl (fun hA hr => ?_) fun hA hr => ?_
        · have := ha.kept hA
          rw [finishesRequest, show writes w h .connWriteHandler = true from hr,
            show (w.conns h).req = some r from hl.req] at this
          simpa [sendOf] using this
        · have := ha.marked hA
          rw [completesConnect, show writes w h .connWaitConnectHandler = true from hr] at this
          simpa using this
    | readTimeout h env =>
      rcases hdl h with hd | ⟨r, hl⟩
      · exact (inv_dead hw' hd []).2.2.1
      · exact inv_readTimeout hl
    | writeTimeout h env =>
      rcases hdl h with hd | ⟨r, hl⟩
      · exact (inv_dead hw' hd []).2.2.2
      · exact inv_writeTimeout hl
    | reply r rep env =>
      have hr : r ∉ ({ w with env := env } : World).pending := by
        show r ∉ w.pending
        rw [hw.pending]; exact List.not_mem_nil
      show Inv A (if _ then _ else _)
      rw [if_neg hr]
      exact hw'

/-! ## Runs -/

theorem inv_start {cfg : Cfg} {env : Env} (he : EnvOk A cfg env) : Inv A (startRequest cfg env) := by
  have hbook : Book A 0 { cfg := cfg, env := env, ctx := { live := true } } :=
    ⟨fun _ => rfl, fun _ => rfl, rfl, rfl, fun newer older h => (by simp at h),
      fun _ x => List.not_mem_nil, fun _ x hx => absurd hx List.not_mem_nil,
      fun _ => List.not_mem_nil⟩
  have hw : Holds A [] none { cfg := cfg, env := env, ctx := { live := true } } :=
    ⟨rfl, rfl, hbook, he, fun _ _ => ⟨rfl, rfl, rfl, rfl⟩, fun _ h => (by cases h),
      fun _ => ⟨fun h => (by cases h), fun h => (by simp at h)⟩, fun _ _ h => (by cases h),
      Nat.zero_le _, rfl⟩
  exact .of_settled (settled_execute (loop_answers A _) hw (fuel_enough _))

/-- **The invariant of a downstream call.** -/
theorem inv_run {cfg : Cfg} {env : Env} (he : EnvOk A cfg env) {as : List Act}
    (h : Run.Meets step (Allows A) (startRequest cfg env) as) :
    Inv A (Run.exec step (startRequest cfg env) as) :=
  Run.invariant step (inv_start he) (fun _ _ hw ha => inv_step hw ha) h

end Outgoing
end Shs
