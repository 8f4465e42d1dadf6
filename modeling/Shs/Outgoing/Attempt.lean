import Shs.Outgoing.Stock

/-!
# Outgoing.Attempt

How an attempt of a downstream call ends. Whatever `http_make_request`, the callbacks and the
retries do, control comes back with the call ended (`Ended`) or with one connection that waits
for the network (`Linked`): it connects, writes its request, or reads the response.
`answers_callbacks` is the induction over nested attempts.
-/

namespace Shs
namespace Outgoing

open Http Downstream Loop

variable {A : Aims} {E : List Nat} {H : Option Nat} {h r n : Nat} {w : World} {cb : Callbacks}

/-! ## States -/

/-- The call goes on; the context holds connection `H`. -/
structure Holds (A : Aims) (E : List Nat) (H : Option Nat) (w : World) : Prop where
  live : w.ctx.live = true
  hc : w.ctx.hc = H
  stock : Stock A 0 E H w

/-- The caller's handler was called, and the context is gone. -/
structure Ended (A : Aims) (E : List Nat) (w : World) : Prop where
  live : w.ctx.live = false
  stock : Stock A 1 E none w

/-- Connection `h` of the context and its request `r` point to each other. -/
structure Tied (A : Aims) (E : List Nat) (h r : Nat) (w : World) : Prop
    extends Holds A E (some h) w where
  req : (w.conns h).req = some r
  back : (w.reqs r).hc = some h
  cb : (w.reqs r).cb = some .handlerResponse
  size : 0 < (w.reqs r).inBuf.size

/-- A request of which no response byte has come. -/
structure Fresh (q : HttpReq) : Prop where
  minor : q.minor = 0
  headers : q.inputHeaders = initHeaders
  rx : q.rx = []
  data : q.inBuf.data = []
  done : q.readDone = 0

/-- The events of the socket lead to connection `h`. After a `connect` that succeeds at once they
lead nowhere. -/
structure Data (A : Aims) (h : Nat) (c : Conn) : Prop where
  data : c.read.handler = true ∨ c.write.handler = true → c.connData = some h
  wired : A.wired ∨ A.marked → c.read.handler = true ∧ c.write.handler = true

structure Connecting (hc : HttpConn) (q : HttpReq) : Prop where
  status : hc.status = .connecting
  flags : hc.flags = HTTP_FLAGS_OUTGOING
  weh : hc.writeEventHandler = some .connWaitConnectHandler
  reh : hc.readEventHandler = none
  write : hc.c.write.timerSet = true
  read : hc.c.read.timerSet = false
  timely : hc.c.write.timedout = false
  fresh : Fresh q

/-- A connection that has a request to send. -/
structure Loaded (A : Aims) (hc : HttpConn) (q : HttpReq) : Prop where
  status : hc.status = .writing
  flags : hc.flags = 0
  marked : ¬ A.marked
  reh : hc.readEventHandler = none
  fresh : Fresh q

structure Writing (A : Aims) (hc : HttpConn) (q : HttpReq) : Prop
    extends Loaded A hc q where
  weh : hc.writeEventHandler = some .connWriteHandler
  write : hc.c.write.timerSet = true

structure Reading (A : Aims) (hc : HttpConn) (q : HttpReq) : Prop where
  status : hc.status.reading = true
  flags : hc.flags = 0
  marked : ¬ A.marked
  weh : hc.writeEventHandler = none
  reh : hc.readEventHandler = some .connReadHandler
  kind : q.kind = .response
  timer : A.timed → hc.c.read.timerSet = true
  progress : A.whole → Progress hc.status q

inductive Phase (A : Aims) (hc : HttpConn) (q : HttpReq) : Prop
  | connecting (p : Connecting hc q)
  | writing (p : Writing A hc q)
  | reading (p : Reading A hc q)

/-- The connection waits for the network. -/
structure Linked (A : Aims) (E : List Nat) (h r : Nat) (w : World) : Prop
    extends Tied A E h r w where
  fd : 0 < (w.conns h).c.fd
  events : Data A h (w.conns h).c
  phase : Phase A (w.conns h) (w.reqs r)

/-- What an attempt comes to. -/
def Settled (A : Aims) (E : List Nat) (w : World) : Prop :=
  Ended A E w ∨ ∃ h r, Linked A E h r w

/-- The callback `HandlerResponse`, with `n` nested calls of itself left. -/
def Answers (A : Aims) (n : Nat) (cb : Callbacks) : Prop :=
  ∀ {E : List Nat} {H : Option Nat} {w : World} {ec : HttpCode} {rsp : Option Nat}, Holds A E H w →
    w.cfg.maxRetryNum < n + w.ctx.retryNum → (∀ r, rsp = some r → (w.reqs r).live = true) →
    (A.whole → ec = .ok → ∃ r, rsp = some r ∧ complete .response (w.reqs r) = true) →
    Settled A E (cb .handlerResponse ec rsp w)

/-! ## Small steps -/

theorem Holds.emit (hw : Holds A E H w) {x : Obs} (hx : neutral x = true) :
    Holds A E H (w.emit x) := ⟨hw.live, hw.hc, hw.stock.emit hx⟩

theorem Holds.modCtx (hw : Holds A E H w) {f : Ctx → Ctx} (hlive : (f w.ctx).live = w.ctx.live)
    (hhc : (f w.ctx).hc = w.ctx.hc) (hretry : (f w.ctx).retryNum ≤ w.cfg.maxRetryNum) :
    Holds A E H (Downstream.modCtx f w) :=
  ⟨hlive.trans hw.live, hhc.trans hw.hc, hw.stock.modCtx hlive hretry⟩

theorem Tied.conn (hw : Tied A E h r w) : (w.conns h).live = true := (hw.stock.conn h rfl).1

theorem Tied.reqLive (hw : Tied A E h r w) : (w.reqs r).live = true :=
  (hw.stock.reqs r).mpr (.inr ⟨h, rfl, hw.req⟩)

theorem Tied.emit (hw : Tied A E h r w) {x : Obs} (hx : neutral x = true) :
    Tied A E h r (w.emit x) := { hw with toHolds := hw.toHolds.emit hx }

theorem Tied.modConn (hw : Tied A E h r w) {g : HttpConn → HttpConn}
    (hlive : (g (w.conns h)).live = (w.conns h).live)
    (hreq : (g (w.conns h)).req = (w.conns h).req) (hc : Closable (g (w.conns h)).c) :
    Tied A E h r (w.modConn h g) := by
  refine { hw with stock := hw.stock.modConn (hlive.trans hw.conn) hreq hc, req := ?_ }
  rw [modConn_conns, if_pos rfl, hreq]; exact hw.req

theorem Tied.modReq (hw : Tied A E h r w) {f : HttpReq → HttpReq}
    (hf : (f (w.reqs r)).live = (w.reqs r).live) (hb : (f (w.reqs r)).hc = (w.reqs r).hc)
    (hcb : (f (w.reqs r)).cb = (w.reqs r).cb)
    (hs : (f (w.reqs r)).inBuf.size = (w.reqs r).inBuf.size) : Tied A E h r (w.modReq r f) := by
  refine { hw with stock := hw.stock.modReq r hf, back := ?_, cb := ?_, size := ?_ }
  · rw [modReq_reqs, if_pos rfl, hb]; exact hw.back
  · rw [modReq_reqs, if_pos rfl, hcb]; exact hw.cb
  · rw [modReq_reqs, if_pos rfl, hs]; exact hw.size

theorem Tied.withEnv (hw : Tied A E h r w) {e : Env} (he : EnvOk A w.cfg e) :
    Tied A E h r { w with env := e } := { hw with stock := hw.stock.withEnv he }

/-- What freeing leaves alone. -/
theorem httpRequestFree_frame (r : Nat) (w : World) :
    (httpRequestFree r w).ctx = w.ctx ∧ (httpRequestFree r w).cfg = w.cfg ∧
      (httpRequestFree r w).conns = w.conns ∧
      ∀ i, i ≠ r → (httpRequestFree r w).reqs i = w.reqs i := by
  unfold httpRequestFree
  split
  · exact ⟨rfl, rfl, rfl, fun i hi => if_neg hi⟩
  · exact ⟨rfl, rfl, rfl, fun i _ => rfl⟩

theorem httpConnFree_frame (h : Nat) (w : World) :
    (httpConnFree h w).ctx = w.ctx ∧ (httpConnFree h w).cfg = w.cfg := by
  have htimers : ∀ w : World, (w.noteTimers h).ctx = w.ctx ∧ (w.noteTimers h).cfg = w.cfg := by
    intro w
    unfold World.noteTimers
    split <;> exact ⟨rfl, rfl⟩
  unfold httpConnFree
  split
  · simp only
    split
    · exact htimers _
    · rename_i r _
      obtain ⟨h₁, h₂, -⟩ := httpRequestFree_frame r w
      exact ⟨(htimers _).1.trans h₁, (htimers _).2.trans h₂⟩
  · exact ⟨rfl, rfl⟩

/-- The request in hand is freed when the callback has returned. -/
theorem Settled.freeReq {r : Nat} (hw : Settled A (r :: E) w) (hr : r ∉ E) :
    Settled A E (httpRequestFree r w) := by
  obtain ⟨hctx, -, hconns, hreqs⟩ := httpRequestFree_frame r w
  rcases hw with hw | ⟨h, r', hw⟩
  · exact .inl ⟨by rw [hctx]; exact hw.live, hw.stock.freeReq hr⟩
  · have hne : r' ≠ r := fun heq =>
      hw.stock.apart h r' rfl hw.req (by rw [heq]; exact List.mem_cons_self)
    refine .inr ⟨h, r', ?_⟩
    refine ⟨⟨⟨by rw [hctx]; exact hw.live, by rw [hctx]; exact hw.hc, hw.stock.freeReq hr⟩,
      by rw [hconns]; exact hw.req, by rw [hreqs r' hne]; exact hw.back,
      by rw [hreqs r' hne]; exact hw.cb, by rw [hreqs r' hne]; exact hw.size⟩,
      by rw [hconns]; exact hw.fd, by rw [hconns]; exact hw.events,
      by rw [hconns, hreqs r' hne]; exact hw.phase⟩

/-! ## The end of a call -/

theorem ended_finish (hw : Holds A E H w) (ec : Nat) : Ended A E (finish ec w) := by
  have hclose : ∀ {w : World}, w.ctx.live = true → Stock A 1 E none w →
      Ended A E ((Downstream.modCtx (fun x => { x with live := false, hc := none }) w).emit
        (.free .ctx)) := by
    intro w hlive hs
    refine ⟨rfl, { hs with book := ?_ }⟩
    refine hs.book.free .ctx rfl (fun r => ?_) (fun i => ?_) ?_ rfl rfl fun _ => Nat.one_pos
    · rw [if_neg (by simp)]; rfl
    · rw [if_neg (by simp)]; rfl
    · rw [if_pos rfl, hlive]; rfl
  have hs : Stock A 1 E H (w.emit (.completion ec)) :=
    { hw.stock with book := hw.stock.book.complete ec }
  have hlive : (w.emit (.completion ec)).ctx.live = true := hw.live
  have hhc : (w.emit (.completion ec)).ctx.hc = H := hw.hc
  unfold finish deleteCtx
  rw [if_pos hlive]
  simp only [hhc]
  cases H with
  | none => exact hclose hlive hs
  | some h =>
    refine hclose ?_ hs.freeConn
    rw [(httpConnFree_frame h _).1]; exact hlive

theorem incoming_of_flags {f : BitVec 32} (hf : f = 0 ∨ f = HTTP_FLAGS_OUTGOING) :
    ¬ f &&& HTTP_FLAGS_INCOMING ≠ 0 := by
  rcases hf with rfl | rfl <;> decide

/-- `http_conn_fail` on an outgoing connection. -/
theorem settled_connFail (hcb : Answers A n cb) (hw : Tied A E h r w)
    (hfuel : w.cfg.maxRetryNum < n + w.ctx.retryNum)
    (hf : (w.conns h).flags = 0 ∨ (w.conns h).flags = HTTP_FLAGS_OUTGOING) {ec : HttpCode}
    (hec : ec ≠ .ok) : Settled A E (httpConnFail cb h ec w) := by
  have hw₁ : Tied A E h r (w.emit (.connFail h ec)) := hw.emit rfl
  have hd := hw₁.stock.detach hw₁.req
  unfold httpConnFail
  simp only [touchConn_live hw.conn, hw₁.req]
  have hin : ¬ ((w.emit (.connFail h ec)).conns h).flags &&& HTTP_FLAGS_INCOMING ≠ 0 :=
    incoming_of_flags hf
  rw [if_neg hin]
  set w₂ := (w.emit (.connFail h ec)).modConn h fun hc => { hc with req := none } with hw₂
  have hlive : (w₂.reqs r).live = true := hw.reqLive
  have hcb' : (w₂.reqs r).cb = some .handlerResponse := hw.cb
  unfold callCb
  simp only [touchReq_live hlive, hcb']
  refine Settled.freeReq ?_ (hw.stock.apart h r rfl hw.req)
  refine hcb ⟨hw.live, hw.hc, hd⟩ hfuel ?_ fun _ h => absurd h hec
  intro r' hr'
  rw [← Option.some.inj hr']; exact hlive

/-! ## Sending -/

/-- A connection with a request to send, before `http_write_buffer`. -/
structure Ready (A : Aims) (E : List Nat) (h r : Nat) (w : World) : Prop
    extends Tied A E h r w where
  events : Data A h (w.conns h).c
  loaded : Loaded A (w.conns h) (w.reqs r)

theorem eventAdd_fields (ok : Bool) (ev : Event) :
    (eventAdd ok ev).timerSet = ev.timerSet ∧ (eventAdd ok ev).handler = ev.handler := by
  unfold eventAdd
  split <;> exact ⟨rfl, rfl⟩

/-- A connection keeps its descriptor, so it can still be closed. -/
theorem Closable.of_fd {c c' : Conn} (hc : Closable c) (hfd : c'.fd = c.fd)
    (hr : c'.read.timerSet = c.read.timerSet) (hw : c'.write.timerSet = c.write.timerSet) :
    Closable c' := by
  unfold Closable at *
  rw [hfd, hr, hw]; exact hc

/-- The heap behind `conn_send`. -/
theorem ready_noteSent (hw : Ready A E h r w) :
    let t := sendLoop w.env.sends (w.reqs r).outBuf.data 0
    Ready A E h r (noteSent h r t w) ∧ (noteSent h r t w).ctx = w.ctx ∧
      (noteSent h r t w).cfg = w.cfg ∧
      ((noteSent h r t w).conns h).connCb = (w.conns h).connCb ∧
      ((noteSent h r t w).conns h).c.fd = (w.conns h).c.fd := by
  intro t
  set w₁ := (w.modReq r fun q => { q with outBuf := sentOut q.outBuf t.unsent }).modC h fun c =>
    { c with write := { c.write with ready := c.write.ready && !t.stalled } } with hw₁
  have henv : EnvOk A w.cfg { w.env with sends := t.sends } :=
    hw.stock.env.sub (fun _ hx => hx) (sendLoop_sends _ _ _).subset (fun _ hx => hx) rfl
  have htied : Tied A E h r { w₁ with env := { w.env with sends := t.sends } } := by
    refine Tied.withEnv ?_ henv
    refine (hw.toTied.modReq rfl rfl rfl rfl).modConn rfl rfl ?_
    exact (hw.stock.conn h rfl).2.of_fd rfl rfl rfl
  have hconn : w₁.conns h = { w.conns h with c := { (w.conns h).c with
      write := { (w.conns h).c.write with ready := (w.conns h).c.write.ready && !t.stalled } } } := by
    rw [hw₁, modC_conns, if_pos rfl]; rfl
  have hreq : w₁.reqs r = { w.reqs r with outBuf := sentOut (w.reqs r).outBuf t.unsent } :=
    modReq_self w r fun q => { q with outBuf := sentOut q.outBuf t.unsent }
  have hready : Ready A E h r { w₁ with env := { w.env with sends := t.sends } } := by
    refine ⟨htied, ?_, ?_⟩
    · show Data A h (w₁.conns h).c
      rw [hconn]; exact ⟨hw.events.data, hw.events.wired⟩
    · show Loaded A (w₁.conns h) (w₁.reqs r)
      have hl := hw.loaded
      have hf := hl.fresh
      rw [hconn, hreq]
      exact ⟨hl.status, hl.flags, hl.marked, hl.reh,
        ⟨hf.minor, hf.headers, hf.rx, hf.data, hf.done⟩⟩
  have hfields : (w₁.conns h).connCb = (w.conns h).connCb ∧
      (w₁.conns h).c.fd = (w.conns h).c.fd := by
    rw [hconn]; exact ⟨rfl, rfl⟩
  unfold noteSent
  simp only
  split
  · exact ⟨⟨hready.toTied.emit rfl, hready.events, hready.loaded⟩, rfl, rfl, hfields⟩
  · exact ⟨hready, rfl, rfl, hfields⟩

/-- The request has been sent: the response is read next. -/
theorem linked_sendRequestDone (hw : Ready A E h r w) (hfd : 0 < (w.conns h).c.fd) :
    Linked A E h r (httpSendRequestDone h r w) := by
  have hl := hw.loaded
  have hf := hl.fresh
  unfold httpSendRequestDone
  simp only [touchConn_live hw.conn, touchReq_live hw.reqLive]
  rw [if_neg (not_not.mpr hl.status)]
  have h₁ : Tied A E h r (w.modReq r fun q => { q with kind := .response }) :=
    hw.toTied.modReq rfl rfl rfl rfl
  unfold requestBlockWriting
  set w₁ := ((w.modReq r fun q => { q with kind := .response }).modC h fun c =>
    { c with write := { c.write with active := false } }).modConn h (fun hc =>
      { hc with
        writeEventHandler := none, readEventHandler := some .connReadHandler,
        status := .readingFirstline }) with hw₁
  have h₂ : Tied A E h r w₁ := by
    refine (h₁.modConn rfl rfl ?_).modConn rfl rfl ?_
    · exact .inl hfd
    · refine .inl ?_
      rw [modConn_self]; exact hfd
  have hconn : w₁.conns h = { w.conns h with
      c := { (w.conns h).c with write := { (w.conns h).c.write with active := false } }
      writeEventHandler := none, readEventHandler := some .connReadHandler
      status := .readingFirstline } := by
    rw [hw₁, modConn_conns, if_pos rfl, modC_conns, if_pos rfl]; rfl
  have h₃ : Tied A E h r (w₁.modC h fun c => { c with read := eventTimerAdd (eventAdd w₁.env.add c.read) }) :=
    h₂.modConn rfl rfl (.inl (by rw [hconn]; exact hfd))
  refine ⟨h₃, ?_, ?_, .reading ?_⟩
  · rw [modC_conns, if_pos rfl, hconn]; exact hfd
  · rw [modC_conns, if_pos rfl, hconn]
    have hh := (eventAdd_fields w₁.env.add (w.conns h).c.read).2
    exact ⟨fun hor => hw.events.data (hor.imp (fun h => hh ▸ h) id),
      fun hA => ⟨hh.trans (hw.events.wired hA).1, (hw.events.wired hA).2⟩⟩
  · have hreq : (w₁.modC h fun c => { c with read := eventTimerAdd (eventAdd w₁.env.add c.read) }).reqs r =
        { w.reqs r with kind := .response } :=
      modReq_self w r fun q => { q with kind := .response }
    rw [modC_conns, if_pos rfl, hconn, hreq]
    refine ⟨rfl, hl.flags, hl.marked, rfl, rfl, rfl, fun _ => rfl, fun _ => ⟨?_, hf.done⟩⟩
    simp only [hf.rx, hf.data]
    rfl

/-- The request has to wait. -/
theorem linked_blocked (hw : Ready A E h r w) (hfd : 0 < (w.conns h).c.fd) :
    Linked A E h r (w.modConn h fun hc =>
      { hc with
        writeEventHandler := some .connWriteHandler
        c := { hc.c with write := eventTimerAdd (eventAdd w.env.add hc.c.write) } }) := by
  have hl := hw.loaded
  refine ⟨hw.toTied.modConn rfl rfl (.inl hfd), ?_, ?_, .writing ?_⟩
  · rw [modConn_self]; exact hfd
  · rw [modConn_conns, if_pos rfl]
    have hh := (eventAdd_fields w.env.add (w.conns h).c.write).2
    exact ⟨fun hor => hw.events.data (hor.imp id fun h => hh ▸ h),
      fun hA => ⟨(hw.events.wired hA).1, hh.trans (hw.events.wired hA).2⟩⟩
  · rw [modConn_conns, if_pos rfl]
    exact ⟨⟨hl.status, hl.flags, hl.marked, hl.reh, hl.fresh⟩, rfl, rfl⟩

/-- A request that `http_send_done` takes for an answered one is freed with its connection. -/
theorem stock_sendDone (hw : Ready A E h r w) :
    (httpSendDone h r w).ctx = w.ctx ∧ Stock A 0 E none (httpSendDone h r w) := by
  have hl := hw.loaded
  have hf := hl.fresh
  unfold httpSendDone
  simp only [touchConn_live hw.conn, touchReq_live hw.reqLive]
  set w₁ := w.modConn h fun hc => { hc with req := none } with hw₁
  have hclose : needClose w₁.writeCfg (w₁.reqs r) = true := by
    have hq : w₁.reqs r = w.reqs r := rfl
    have hkeep : httpIsConnectionKeepalive initHeaders = false := by decide +kernel
    simp only [needClose, hq, hf.minor, hf.headers, hkeep, beq_self_eq_true, Bool.not_false,
      Bool.and_self, Bool.true_or]
  rw [if_pos hclose]
  have hs := (hw.stock.detach hw.req).freeReq (hw.stock.apart h r rfl hw.req)
  refine ⟨?_, hs.freeConn⟩
  rw [(httpConnFree_frame h _).1, (httpRequestFree_frame r _).1]; rfl

/-- `conn_send` on the request of connection `h`. -/
abbrev sendOf (r : Nat) (w : World) : Http.Sending := sendLoop w.env.sends (w.reqs r).outBuf.data 0

theorem writeBuffer_ready (hw : Ready A E h r w) :
    httpWriteBuffer cb h w =
      let w' := noteSent h r (sendOf r w) w
      if (sendOf r w).ret = 0 ∨ (sendOf r w).ret = SHS_ERROR then httpConnFail cb h .writeEof w'
      else if (sendOf r w).ret > 0 then
        match (w.conns h).connCb with
        | none => w'
        | some .httpSendDone => httpSendDone h r w'
        | some .httpSendRequestDone => httpSendRequestDone h r w'
      else
        w'.modConn h fun hc =>
          { hc with
            writeEventHandler := some .connWriteHandler
            c := { hc.c with write := eventTimerAdd (eventAdd w'.env.add hc.c.write) } } := by
  have hcb := (ready_noteSent hw).2.2.2.1
  unfold httpWriteBuffer connSend
  cases hc : (w.conns h).connCb with
  | none =>
    simp only [touchConn_live hw.conn, hw.req, touchReq_live hw.reqLive, hw.back, hcb, hc]
  | some c =>
    cases c <;>
      simp only [touchConn_live hw.conn, hw.req, touchReq_live hw.reqLive, hw.back, hcb, hc]

theorem settled_writeBuffer (hcb : Answers A n cb) (hw : Ready A E h r w)
    (hfd : 0 < (w.conns h).c.fd) (hfuel : w.cfg.maxRetryNum < n + w.ctx.retryNum)
    (hdone : (w.conns h).connCb = some .httpSendRequestDone) :
    Settled A E (httpWriteBuffer cb h w) := by
  obtain ⟨hw', hctx, hcfg, -, hfd'⟩ := ready_noteSent hw
  rw [← hfd'] at hfd
  rw [writeBuffer_ready hw, hdone]
  simp only
  split
  · refine settled_connFail hcb hw'.toTied ?_ (.inl hw'.loaded.flags) (by simp)
    rw [hctx, hcfg]; exact hfuel
  · split
    · exact .inr ⟨h, r, linked_sendRequestDone hw' hfd⟩
    · exact .inr ⟨h, r, linked_blocked hw' hfd⟩

/-- A request that is sent, or has to wait. -/
theorem linked_writeBuffer (cb : Callbacks) (hw : Ready A E h r w) (hfd : 0 < (w.conns h).c.fd)
    (hdone : (w.conns h).connCb = some .httpSendRequestDone)
    (hret : 0 < (sendOf r w).ret ∨ (sendOf r w).ret = SHS_AGAIN) :
    Linked A E h r (httpWriteBuffer cb h w) := by
  obtain ⟨hw', -, -, -, hfd'⟩ := ready_noteSent hw
  rw [← hfd'] at hfd
  have hne : ¬ ((sendOf r w).ret = 0 ∨ (sendOf r w).ret = SHS_ERROR) := by
    rcases hret with h | h
    · simp only [SHS_ERROR]; omega
    · rw [h]; decide
  rw [writeBuffer_ready hw, hdone]
  simp only
  rw [if_neg hne]
  split
  · exact linked_sendRequestDone hw' hfd
  · exact linked_blocked hw' hfd

/-- Sends that do not fail send all or have to wait. -/
theorem sendLoop_fine {rs : List SendResult} {bs : Bytes} {done : Nat}
    (hrs : ∀ x ∈ rs, fails x = false) (hne : 0 < done + bs.length)
    (hlen : done + bs.length < 2 ^ 31) :
    0 < (sendLoop rs bs done).ret ∨ (sendLoop rs bs done).ret = SHS_AGAIN := by
  induction rs generalizing bs done with
  | nil =>
    left
    cases bs with
    | nil =>
      simp only [List.length_nil, Nat.add_zero] at hne hlen
      rw [sendLoop_nil, toInt32_small hlen]
      exact Int.natCast_pos.mpr hne
    | cons b bs =>
      rw [sendLoop_all, toInt32_small hlen]
      exact Int.natCast_pos.mpr hne
  | cons x rs ih =>
    cases bs with
    | nil =>
      left
      simp only [List.length_nil, Nat.add_zero] at hne hlen
      rw [sendLoop_nil, toInt32_small hlen]
      exact Int.natCast_pos.mpr hne
    | cons b bs =>
      have hx := hrs x List.mem_cons_self
      cases x with
      | error => cases hx
      | again => right; rw [sendLoop_again]
      | sent k =>
        have hk : ¬ k = 0 := by simpa [fails] using hx
        rw [sendLoop_sent, if_neg hk]
        generalize hn : min (min k (b :: bs).length) MAX_RW_COUNT = m
        have hle : m ≤ (b :: bs).length := by
          rw [← hn]
          exact Nat.le_trans (Nat.min_le_left _ _) (Nat.min_le_right _ _)
        refine ih (fun y hy => hrs y (List.mem_cons_of_mem _ hy)) ?_ ?_ <;>
          rw [List.length_drop] <;> omega

/-! ## Connecting -/

/-- A connection that is about to connect, or to connect again. -/
structure Dialing (A : Aims) (E : List Nat) (h r : Nat) (w : World) : Prop
    extends Tied A E h r w where
  flags : (w.conns h).flags = 0 ∨ (w.conns h).flags = HTTP_FLAGS_OUTGOING
  reh : (w.conns h).readEventHandler = none
  read : (w.conns h).c.read.timerSet = false
  write : (w.conns h).c.write.timerSet = false
  fresh : Fresh (w.reqs r)

/-- What `http_conn_connect` leaves. -/
structure Dialed (A : Aims) (E : List Nat) (h r : Nat) (w w' : World) (res : Connected) : Prop
    extends Dialing A E h r w' where
  out : (w'.conns h).flags = HTTP_FLAGS_OUTGOING
  ctx : w'.ctx = w.ctx
  cfg : w'.cfg = w.cfg
  reqs : w'.reqs = w.reqs
  sends : w'.env.sends = w.env.sends
  date : w'.env.date = w.env.date
  retry : (w'.conns h).retryMax = (w.conns h).retryMax ∧ (w'.conns h).retryCnt = (w.conns h).retryCnt
  fd : res ≠ .error → 0 < (w'.conns h).c.fd
  again : res = .again → (w'.conns h).status = .connecting ∧
    (w'.conns h).c.write.timedout = false
  ok : res = .ok → (w'.conns h).status = .idle ∧ (w'.conns h).c.read.handler = false ∧
    (w'.conns h).c.write.handler = false ∧ ∃ x ∈ w.env.connects, instant x = true

theorem out_of_flags {f : BitVec 32} (hf : f = 0 ∨ f = HTTP_FLAGS_OUTGOING) :
    f ||| HTTP_FLAGS_OUTGOING = HTTP_FLAGS_OUTGOING := by
  rcases hf with rfl | rfl <;> decide

theorem nextConnect_cases (env : Env) :
    (∃ fd, (nextConnect env).1 = .inProgress fd ∧ 0 < fd ∧ (nextConnect env).2 = env) ∨
      ∃ x xs, env.connects = x :: xs ∧ nextConnect env = (x, { env with connects := xs }) := by
  unfold nextConnect
  cases h : env.connects with
  | nil => exact .inl ⟨3, rfl, by decide, rfl⟩
  | cons x xs => exact .inr ⟨x, xs, rfl, rfl⟩

/-- `http_conn_connect`. -/
theorem dialed_connect (hw : Dialing A E h r w) :
    Dialed A E h r w (httpConnConnect h w).1 (httpConnConnect h w).2 := by
  set env := (nextConnect w.env).2 with henv
  have hsub : env.connects ⊆ w.env.connects ∧ env.sends = w.env.sends ∧
      env.attempts = w.env.attempts ∧ env.date = w.env.date := by
    rcases nextConnect_cases w.env with ⟨-, -, -, he⟩ | ⟨x, xs, hx, he⟩
    · rw [henv, he]; exact ⟨fun _ h => h, rfl, rfl, rfl⟩
    · rw [henv, he, hx]; exact ⟨List.subset_cons_self _ _, rfl, rfl, rfl⟩
  have hres : ∀ x, (nextConnect w.env).1 = x → fdOk x = true ∧
      (instant x = true → ∃ y ∈ w.env.connects, instant y = true) := by
    rintro x rfl
    rcases nextConnect_cases w.env with ⟨fd, hx, hfd, -⟩ | ⟨x, xs, hx, he⟩
    · rw [hx]; exact ⟨by simpa [fdOk] using hfd, fun h => by cases h⟩
    · have hmem : x ∈ w.env.connects := by rw [hx]; exact List.mem_cons_self
      rw [he]; exact ⟨hw.stock.env.fds x hmem, fun h => ⟨x, hmem, h⟩⟩
  have henvOk : EnvOk A w.cfg env :=
    hw.stock.env.sub hsub.1 (by rw [hsub.2.1]; exact fun _ h => h)
      (by rw [hsub.2.2.1]; exact fun _ h => h) hsub.2.2.2
  -- the connection with any socket that has no timers
  have key : ∀ (c : Conn) (st : ConnStatus) (res : Connected), c.read.timerSet = false →
      c.write.timerSet = false → (c.fd = -1 ∨ 0 < c.fd) → (res ≠ .error → 0 < c.fd) →
      (res = .again → st = .connecting ∧ c.write.timedout = false) →
      (res = .ok → st = .idle ∧ c.read.handler = false ∧ c.write.handler = false ∧
        ∃ x ∈ w.env.connects, instant x = true) →
      Dialed A E h r w ({ w with env := env }.modConn h fun hc =>
        { hc with c := c, flags := hc.flags ||| HTTP_FLAGS_OUTGOING, status := st }) res := by
    intro c st res hrt hwt hfd herr hag hok
    have hflags := out_of_flags hw.flags
    have htied : Tied A E h r { w with env := env } := hw.toTied.withEnv henvOk
    have hc : Closable c := hfd.elim (fun h => .inr ⟨h, hrt, hwt⟩) .inl
    refine { toTied := htied.modConn rfl rfl hc, flags := ?_, reh := ?_, read := ?_, write := ?_,
             fresh := hw.fresh, out := ?_, ctx := rfl, cfg := rfl, reqs := rfl,
             sends := hsub.2.1, date := hsub.2.2.2, retry := ?_, fd := ?_, again := ?_, ok := ?_ }
    all_goals rw [modConn_self]
    · exact .inr hflags
    · exact hw.reh
    · exact hrt
    · exact hwt
    · exact hflags
    · exact ⟨rfl, rfl⟩
    · exact herr
    · exact hag
    · exact hok
  have hfd := hres _ rfl
  -- there is no timer that `conn_set_default` could wipe
  have hunset : ({ w with env := env }.modConn h fun hc =>
      { hc with
        c := { hc.c with fd := -1 }, flags := hc.flags ||| HTTP_FLAGS_OUTGOING
        status := .connecting }).noteTimers h = { w with env := env }.modConn h fun hc =>
      { hc with
        c := { hc.c with fd := -1 }, flags := hc.flags ||| HTTP_FLAGS_OUTGOING
        status := .connecting } := by
    refine World.noteTimers_unset ?_ ?_
    · rw [modConn_self]; exact hw.read
    · rw [modConn_self]; exact hw.write
  unfold httpConnConnect
  simp only [touchConn_live hw.conn]
  rw [show nextConnect w.env = ((nextConnect w.env).1, env) from rfl]
  generalize (nextConnect w.env).1 = x at hfd ⊢
  cases x with
  | socketFail =>
    exact key { (w.conns h).c with fd := -1 } .connecting .error hw.read hw.write (.inl rfl)
      (fun h => absurd rfl h) (fun h => by cases h) fun h => by cases h
  | nonblockFail =>
    exact key { (w.conns h).c with fd := -1 } .connecting .error hw.read hw.write (.inl rfl)
      (fun h => absurd rfl h) (fun h => by cases h) fun h => by cases h
  | addFail fd =>
    simp only [hunset, World.modC, modConn_modConn]
    exact key { connSetDefault fd with fd := -1 } .connecting .error rfl rfl (.inl rfl)
      (fun h => absurd rfl h) (fun h => by cases h) fun h => by cases h
  | refused fd =>
    simp only [hunset, World.modC, modConn_modConn]
    exact key { connOpened fd with fd := -1 } .connecting .error rfl rfl (.inl rfl)
      (fun h => absurd rfl h) (fun h => by cases h) fun h => by cases h
  | inProgress fd =>
    have hpos : 0 < fd := by simpa [fdOk] using hfd.1
    simp only [hunset, World.modC, modConn_modConn]
    exact key (connOpened fd) .connecting .again rfl rfl (.inr hpos) (fun _ => hpos)
      (fun _ => ⟨rfl, rfl⟩) fun h => by cases h
  | done fd =>
    have hpos : 0 < fd := by simpa [fdOk] using hfd.1
    simp only [hunset, modConn_modConn]
    exact key { connOpened fd with write := { active := true, ready := true } } .idle .ok rfl rfl
      (.inr hpos) (fun _ => hpos) (fun h => by cases h) fun _ => ⟨rfl, rfl, rfl, hfd.2 rfl⟩

/-- Waiting for the connection. -/
theorem linked_waitConnect {w₀ : World} (hw : Dialed A E h r w₀ w .again) :
    Linked A E h r (waitConnect h w) := by
  have hfd := hw.fd (by simp)
  unfold waitConnect
  refine ⟨hw.toTied.modConn rfl rfl (.inl hfd), ?_, ?_, .connecting ?_⟩
  · rw [modConn_self]; exact hfd
  · rw [modConn_self]
    exact ⟨fun _ => rfl, fun _ => ⟨rfl, rfl⟩⟩
  · rw [modConn_self]
    exact ⟨(hw.again rfl).1, hw.out, rfl, hw.reh, rfl, hw.read, (hw.again rfl).2, hw.fresh⟩

/-- The heap before `http_write_buffer` in `http_send_request`. -/
def loadRequest (h r : Nat) (w : World) : World :=
  let w := (httpConnStopDetectclose h w).modConn h fun hc => { hc with status := .writing }
  (w.modReq r fun q => httpMakeHeader w.writeCfg q).modConn h fun hc =>
    { hc with connCb := some .httpSendRequestDone }

theorem stop_of_flags {f : BitVec 32} (hf : f = 0 ∨ f = HTTP_FLAGS_OUTGOING) :
    f &&& ~~~HTTP_FLAGS_CLOSEDETECT = 0 := by
  rcases hf with rfl | rfl <;> decide

theorem loadRequest_eq (h r : Nat) (w : World) :
    loadRequest h r w = (w.modConn h fun hc =>
      { hc with
        flags := hc.flags &&& ~~~HTTP_FLAGS_CLOSEDETECT, status := .writing
        connCb := some .httpSendRequestDone }).modReq r fun q => httpMakeHeader w.writeCfg q := by
  unfold loadRequest httpConnStopDetectclose
  simp only [modReq_modConn, modConn_modConn]
  rfl

theorem loadRequest_conn (h r : Nat) (w : World) :
    (loadRequest h r w).conns h = { w.conns h with
      flags := (w.conns h).flags &&& ~~~HTTP_FLAGS_CLOSEDETECT, status := .writing
      connCb := some .httpSendRequestDone } := by
  rw [loadRequest_eq]; exact if_pos rfl

theorem loadRequest_req (h r : Nat) (w : World) :
    (loadRequest h r w).reqs r = httpMakeHeader w.writeCfg (w.reqs r) := by
  rw [loadRequest_eq]; exact modReq_self w r fun q => httpMakeHeader w.writeCfg q

theorem ready_loadRequest (hw : Dialing A E h r w) (hd : Data A h (w.conns h).c)
    (hm : ¬ A.marked) : Ready A E h r (loadRequest h r w) := by
  obtain ⟨buf, hs, hq⟩ := writes_httpMakeHeader w.writeCfg (w.reqs r)
  have htied : Tied A E h r (loadRequest h r w) := by
    have h₁ : Tied A E h r (w.modConn h fun hc =>
      { hc with
        flags := hc.flags &&& ~~~HTTP_FLAGS_CLOSEDETECT, status := .writing
        connCb := some .httpSendRequestDone }) :=
      hw.toTied.modConn rfl rfl (hw.stock.conn h rfl).2
    rw [loadRequest_eq]
    have hl : (httpMakeHeader w.writeCfg (w.reqs r)).live = (w.reqs r).live := by rw [hq]
    have hb : (httpMakeHeader w.writeCfg (w.reqs r)).hc = (w.reqs r).hc := by rw [hq]
    have hcb : (httpMakeHeader w.writeCfg (w.reqs r)).cb = (w.reqs r).cb := by rw [hq]
    have hsz : (httpMakeHeader w.writeCfg (w.reqs r)).inBuf.size = (w.reqs r).inBuf.size := by
      rw [hq]
    exact h₁.modReq hl hb hcb hsz
  refine ⟨htied, ?_, ?_⟩
  · rw [loadRequest_conn]; exact ⟨hd.data, hd.wired⟩
  · rw [loadRequest_conn, loadRequest_req, hq]
    have hf := hw.fresh
    exact ⟨rfl, stop_of_flags hw.flags, hm, hw.reh, ⟨hf.minor, hf.headers, hf.rx, hf.data, hf.done⟩⟩

theorem sendRequest_eq (hw : Dialing A E h r w) (hst : (w.conns h).status = .idle) :
    httpSendRequest cb h w = httpWriteBuffer cb h (loadRequest h r w) := by
  unfold httpSendRequest
  simp only [touchConn_live hw.conn, hw.req]
  have hst' : ¬ ((httpConnStopDetectclose h w).conns h).status ≠ .idle := by
    unfold httpConnStopDetectclose
    rw [modConn_self]
    exact not_not.mpr hst
  rw [if_neg hst']
  set w₁ := (httpConnStopDetectclose h w).modConn h fun hc => { hc with status := .writing } with hw₁
  have hlive : (w₁.reqs r).live = true := hw.reqLive
  rw [touchReq_live hlive]
  rfl

/-- `http_send_request`, when the connection is there. -/
theorem settled_sendRequest (hcb : Answers A n cb) (hw : Dialing A E h r w)
    (hst : (w.conns h).status = .idle) (hfd : 0 < (w.conns h).c.fd) (hd : Data A h (w.conns h).c)
    (hm : ¬ A.marked) (hfuel : w.cfg.maxRetryNum < n + w.ctx.retryNum) :
    Settled A E (httpSendRequest cb h w) := by
  rw [sendRequest_eq hw hst]
  refine settled_writeBuffer hcb (ready_loadRequest hw hd hm) ?_ ?_ ?_
  · rw [loadRequest_conn]; exact hfd
  · rw [loadRequest_eq]; exact hfuel
  · rw [loadRequest_conn]

/-- `http_retry_connect`: after a timeout or a failure it connects again, or gives up. -/
theorem settled_retry (hcb : Answers A n cb) (m : Nat) {ec : HttpCode} (hec : ec ≠ .ok)
    (hw : Dialing A E h r w) (hfuel : w.cfg.maxRetryNum < n + w.ctx.retryNum) :
    Settled A E (httpRetryConnectN cb m ec h w) := by
  induction m generalizing ec w with
  | zero =>
    unfold httpRetryConnectN
    simp only [touchConn_live hw.conn]
    unfold httpConnReset
    have h₁ : Tied A E h r (w.modConn h fun hc => { hc with status := .disconnected }) :=
      hw.toTied.modConn rfl rfl (hw.stock.conn h rfl).2
    simp only [h₁.req]
    have hd := h₁.stock.detach h₁.req
    set w₁ := (w.modConn h fun hc => { hc with status := .disconnected }).modConn h
      fun hc => { hc with req := none } with hw₁
    have hlive : (w₁.reqs r).live = true := hw.reqLive
    have hcb' : (w₁.reqs r).cb = some .handlerResponse := hw.cb
    unfold callCb
    simp only [touchReq_live hlive, hcb']
    refine Settled.freeReq ?_ (hw.stock.apart h r rfl hw.req)
    refine hcb ⟨hw.live, hw.hc, hd⟩ hfuel ?_ fun _ h => absurd h hec
    intro r' hr'
    rw [← Option.some.inj hr']; exact hlive
  | succ m ih =>
    unfold httpRetryConnectN
    simp only [touchConn_live hw.conn]
    set w₁ := w.modConn h fun hc => { hc with retryCnt := hc.retryCnt + 1 } with hw₁
    have hconn : w₁.conns h = { w.conns h with retryCnt := (w.conns h).retryCnt + 1 } :=
      modConn_self w h fun hc => { hc with retryCnt := hc.retryCnt + 1 }
    have h₁ : Dialing A E h r w₁ :=
      { toTied := hw.toTied.modConn rfl rfl (hw.stock.conn h rfl).2
        flags := by rw [hconn]; exact hw.flags
        reh := by rw [hconn]; exact hw.reh
        read := by rw [hconn]; exact hw.read
        write := by rw [hconn]; exact hw.write
        fresh := hw.fresh }
    have hd := dialed_connect h₁
    rcases hr : httpConnConnect h w₁ with ⟨w₂, res⟩
    rw [hr] at hd
    simp only at hd
    have hfuel₂ : w₂.cfg.maxRetryNum < n + w₂.ctx.retryNum := by
      rw [hd.cfg, hd.ctx]; exact hfuel
    cases res with
    | error => exact ih (by simp) hd.toDialing hfuel₂
    | again => exact .inr ⟨h, r, linked_waitConnect hd⟩
    | ok =>
      obtain ⟨hst, hrh, hwh, x, hx, hi⟩ := hd.ok rfl
      have hno : ¬ (A.wired ∨ A.marked) := fun hA => by
        have := hw.stock.env.wired hA x hx
        rw [hi] at this; cases this
      refine settled_sendRequest hcb hd.toDialing hst (hd.fd (by simp)) ⟨fun hor => ?_, fun hA => ?_⟩
        (fun h => hno (.inr h)) hfuel₂
      · rw [hrh, hwh] at hor
        exact hor.elim (fun h => by cases h) fun h => by cases h
      · exact absurd hA hno

/-! ## The message of an attempt -/

/-- The request with other ties to its surroundings. -/
def retie (live : Bool) (cb : Option ReqCb) (hc : Option Nat) (q : HttpReq) : HttpReq :=
  { q with live := live, cb := cb, hc := hc }

section Retie

variable (l : Bool) (c : Option ReqCb) (x : Option Nat) (q : HttpReq)

theorem addIfMissing_retie (key value : Bytes) :
    addIfMissing key value (retie l c x q) = retie l c x (addIfMissing key value q) := by
  unfold addIfMissing
  have hsame : httpExistHeader (retie l c x q).outputHeaders key =
      httpExistHeader q.outputHeaders key := rfl
  rw [hsame]
  split <;> rfl

theorem requestHeaders_retie (cfg : Cfg) (ctx : Ctx) :
    requestHeaders cfg ctx (retie l c x q) = retie l c x (requestHeaders cfg ctx q) := by
  have hfold : ∀ (hs : List Header) (q : HttpReq),
      hs.foldl (fun q h => httpAddOutputHeader q h.key h.value) (retie l c x q) =
        retie l c x (hs.foldl (fun q h => httpAddOutputHeader q h.key h.value) q) := by
    intro hs
    induction hs with
    | nil => exact fun _ => rfl
    | cons h hs ih => exact fun q => ih (httpAddOutputHeader q h.key h.value)
  unfold requestHeaders
  simp only [hfold, addIfMissing_retie]

theorem httpMakeHeader_retie (cfg : WriteCfg) (hk : q.kind = .request) :
    (httpMakeHeader cfg (retie l c x q)).outBuf = (httpMakeHeader cfg q).outBuf := by
  have hreq : httpMakeRequestHeader (retie l c x q) = retie l c x (httpMakeRequestHeader q) := by
    unfold httpMakeRequestHeader
    simp only
    rw [apply_ite (retie l c x)]
    rfl
  have hjoin : ∀ q : HttpReq, (joinBody (retie l c x q)).outBuf = (joinBody q).outBuf := by
    intro q
    unfold joinBody
    rw [apply_ite HttpReq.outBuf, apply_ite HttpReq.outBuf]
    rfl
  have hk' : (retie l c x q).kind = .request := hk
  unfold httpMakeHeader
  simp only [hk, hk', hreq]
  exact hjoin (putOut (httpMakeRequestHeader q)
    (((httpMakeRequestHeader q).outputHeaders.map headerLine).flatten ++ CRLF))

end Retie

theorem requestMessage_eq {cfg : Cfg} {ctx : Ctx} {date host : Bytes} (h : Nat)
    (hhost : ctx.host = some host) :
    (httpMakeHeader ⟨cfg.disableHttpKeepalive, date⟩ (prepareRequest cfg (requestHeaders cfg ctx
      { live := true, cb := some .handlerResponse, hc := some h }))).outBuf.data =
      requestMessage cfg date host ctx.retryNum := by
  have hctx : requestHeaders cfg ctx {} =
      requestHeaders cfg { host := some host, retryNum := ctx.retryNum } {} := by
    unfold requestHeaders
    rw [hhost]
  have hret : requestHeaders cfg ctx
      { live := true, cb := some .handlerResponse, hc := some h } =
      retie true (some .handlerResponse) (some h) (requestHeaders cfg ctx {}) :=
    requestHeaders_retie true (some .handlerResponse) (some h) {} cfg ctx
  rw [hret, hctx]
  exact congrArg Buffer.data (httpMakeHeader_retie true (some .handlerResponse) (some h)
    (prepareRequest cfg (requestHeaders cfg { host := some host, retryNum := ctx.retryNum } {})) _ rfl)

/-! ## Attempts -/

theorem Linked.modCtx (hw : Linked A E h r w) {f : Ctx → Ctx}
    (hlive : (f w.ctx).live = w.ctx.live) (hhc : (f w.ctx).hc = w.ctx.hc)
    (hretry : (f w.ctx).retryNum ≤ w.cfg.maxRetryNum) :
    Linked A E h r (Downstream.modCtx f w) :=
  { hw with toHolds := hw.toHolds.modCtx hlive hhc hretry }

/-- The end of `Request::Execute` looks at the context again. -/
theorem Settled.touchCtx (hw : Settled A E w) (hlive : A.clean → w.ctx.live = true) :
    Settled A E (Downstream.modCtx (fun x => { x with errCode := E_OK }) w.touchCtx) := by
  rcases hw with hw | ⟨h, r, hw⟩
  · have hcl : ¬ A.clean := fun hcl => by
      have := hlive hcl
      rw [hw.live] at this; cases this
    have htouch : w.touchCtx = w.emit (.fault .ctx) := if_neg (by rw [hw.live]; simp)
    rw [htouch]
    exact .inl ⟨hw.live, (hw.stock.emitFault .ctx hcl).modCtx rfl hw.stock.retry⟩
  · rw [touchCtx_live hw.live]
    exact .inr ⟨h, r, hw.modCtx rfl rfl hw.stock.retry⟩

theorem nextAttempt_cases (env : Env) :
    (nextAttempt env).2.connects = env.connects ∧ (nextAttempt env).2.sends = env.sends ∧
      (nextAttempt env).2.attempts ⊆ env.attempts ∧ (nextAttempt env).2.date = env.date ∧
      ∀ host, (nextAttempt env).1.host = some host → host ∈ hosts env := by
  unfold nextAttempt hosts
  cases h : env.attempts with
  | nil =>
    refine ⟨rfl, rfl, by simp [h], rfl, fun host hh => ?_⟩
    rw [← Option.some.inj hh]; exact List.mem_cons_self
  | cons a as =>
    refine ⟨rfl, rfl, List.subset_cons_self _ _, rfl, fun host hh => ?_⟩
    exact List.mem_cons_of_mem _ (List.mem_filterMap.mpr ⟨a, List.mem_cons_self, hh⟩)

/-- The first connection of an attempt. -/
theorem dialing_first (hw : Holds A E (some h) w)
    (hconn : w.conns h = { live := true, retryMax := w.cfg.maxRetryCon }) :
    Dialing A E h w.nreq ((newRequest h w).modReq w.nreq (prepareRequest w.cfg)) ∧
      ((newRequest h w).modReq w.nreq (prepareRequest w.cfg)).reqs w.nreq =
        prepareRequest w.cfg (requestHeaders w.cfg w.ctx
          { live := true, cb := some .handlerResponse, hc := some h }) := by
  have hstock := hw.stock.newRequest (by rw [hconn])
  obtain ⟨buf, hs, hq⟩ := writes_requestHeaders w.cfg w.ctx
    { live := true, cb := some .handlerResponse, hc := some h }
  set w₁ := newRequest h w with hw₁
  have hconns : w₁.conns h = { w.conns h with req := some w.nreq } := if_pos rfl
  have hreq : w₁.reqs w.nreq = requestHeaders w.cfg w.ctx
      { live := true, cb := some .handlerResponse, hc := some h } := if_pos rfl
  have htied : Tied A E h w.nreq w₁ :=
    { live := hw.live, hc := hw.hc, stock := hstock, req := by rw [hconns],
      back := by rw [hreq, hq], cb := by rw [hreq, hq]
      size := by
        rw [hreq, hq]
        exact Nat.zero_lt_succ _ }
  have hprep : (w₁.modReq w.nreq (prepareRequest w.cfg)).reqs w.nreq =
      prepareRequest w.cfg (w₁.reqs w.nreq) := modReq_self _ _ _
  refine ⟨{ toTied := htied.modReq rfl rfl rfl ?_, flags := ?_, reh := ?_, read := ?_, write := ?_,
            fresh := ?_ }, by rw [hprep, hreq]⟩
  · rw [hreq, hq]; rfl
  · left; show (w₁.conns h).flags = 0
    rw [hconns, hconn]
  · show (w₁.conns h).readEventHandler = none
    rw [hconns, hconn]
  · show (w₁.conns h).c.read.timerSet = false
    rw [hconns, hconn]
  · show (w₁.conns h).c.write.timerSet = false
    rw [hconns, hconn]
  · rw [hprep, hreq, hq]
    exact ⟨rfl, rfl, rfl, rfl, rfl⟩

/-- `http_make_request` on the first connection of an attempt, and what `Request::Execute` does
with its result. -/
theorem settled_makeRequest (hcb : Answers A n cb) (hw : Holds A E (some h) w)
    (hconn : w.conns h = { live := true, retryMax := w.cfg.maxRetryCon })
    (hfuel : w.cfg.maxRetryNum < n + w.ctx.retryNum) {host : Bytes} (hhost : w.ctx.host = some host)
    (hsmall : A.clean → (∃ x ∈ w.env.connects, instant x = true) →
      (∀ y ∈ w.env.sends, fails y = false) ∧
        (requestMessage w.cfg w.env.date host w.ctx.retryNum).length < 2 ^ 31) :
    Settled A E (match httpMakeRequest cb w.nreq (newRequest h w) with
      | (w, false) =>
        cb .handlerResponse .callerError none
          (Downstream.modCtx (fun x => { x with errCode := E_HTTP_CONNECT_FAIL }) w.touchCtx)
      | (w, true) => Downstream.modCtx (fun x => { x with errCode := E_OK }) w.touchCtx) := by
  obtain ⟨hdial, hreq⟩ := dialing_first hw hconn
  have hlive : ((newRequest h w).reqs w.nreq).live = true := by
    obtain ⟨buf, hs, hq⟩ := writes_requestHeaders w.cfg w.ctx
      { live := true, cb := some .handlerResponse, hc := some h }
    show (if w.nreq = w.nreq then _ else _ : HttpReq).live = true
    rw [if_pos rfl, hq]
  unfold httpMakeRequest
  simp only [touchReq_live hlive, show (newRequest h w).cfg = w.cfg from rfl, hdial.back]
  have hd := dialed_connect hdial
  set w₁ := (newRequest h w).modReq w.nreq (prepareRequest w.cfg) with hw₁
  have hctx : w₁.ctx = w.ctx := rfl
  have hcfg : w₁.cfg = w.cfg := rfl
  have henv : w₁.env = w.env := rfl
  rcases hr : httpConnConnect h w₁ with ⟨w₂, res⟩
  rw [hr] at hd
  simp only at hd
  have hfuel₂ : w₂.cfg.maxRetryNum < n + w₂.ctx.retryNum := by
    rw [hd.cfg, hd.ctx]; exact hfuel
  cases res with
  | error =>
    simp only [touchCtx_live hd.live]
    exact hcb (hd.toHolds.modCtx rfl rfl hd.stock.retry) hfuel₂ (fun _ h => by cases h)
      fun _ h => by cases h
  | again =>
    exact Settled.touchCtx (.inr ⟨h, w.nreq, linked_waitConnect hd⟩)
      fun _ => (linked_waitConnect hd).live
  | ok =>
    obtain ⟨hst, hrh, hwh, x, hx, hi⟩ := hd.ok rfl
    have hno : ¬ (A.wired ∨ A.marked) := fun hA => by
      have := hw.stock.env.wired hA x hx
      rw [hi] at this; cases this
    have hevents : Data A h (w₂.conns h).c := by
      refine ⟨fun hor => ?_, fun hA => absurd hA hno⟩
      rw [hrh, hwh] at hor
      exact hor.elim (fun h => by cases h) fun h => by cases h
    have hm : ¬ A.marked := fun h => hno (.inr h)
    have hfd := hd.fd (by simp)
    refine Settled.touchCtx
      (settled_sendRequest hcb hd.toDialing hst hfd hevents hm hfuel₂) fun hcl => ?_
    -- sends that do not fail leave the connection waiting, so the context is there
    obtain ⟨hsends, hlen⟩ := hsmall hcl ⟨x, hx, hi⟩
    have hmsg : ((loadRequest h w.nreq w₂).reqs w.nreq).outBuf.data =
        requestMessage w.cfg w.env.date host w.ctx.retryNum := by
      have hwc : w₂.writeCfg = ⟨w.cfg.disableHttpKeepalive, w.env.date⟩ := by
        unfold World.writeCfg
        rw [hd.cfg, hd.date]; rfl
      rw [loadRequest_req, hd.reqs, hreq, hwc]
      exact requestMessage_eq h hhost
    have hne : 0 < 0 + (requestMessage w.cfg w.env.date host w.ctx.retryNum).length := by
      rw [Nat.zero_add]
      exact List.length_pos_of_ne_nil (httpMakeHeader_ne_nil _ _)
    have hret := @sendLoop_fine _ _ 0 hsends hne (by rw [Nat.zero_add]; exact hlen)
    have hlinked := linked_writeBuffer cb (ready_loadRequest hd.toDialing hevents hm)
      (by rw [loadRequest_conn]; exact hfd) (by rw [loadRequest_conn]) (by
        have hs : (loadRequest h w.nreq w₂).env.sends = w.env.sends := by
          rw [loadRequest_eq]; exact hd.sends
        unfold sendOf
        rw [hs, hmsg]; exact hret)
    rw [sendRequest_eq hd.toDialing hst]
    exact hlinked.live

/-- `Request::Execute` behind the connection of the last attempt. -/
theorem settled_open (hcb : Answers A n cb) (hw : Holds A E none w) (a : Attempt)
    (hfuel : w.cfg.maxRetryNum < n + w.ctx.retryNum) {host : Bytes} (hhost : w.ctx.host = some host)
    (hsmall : A.clean → (∃ x ∈ w.env.connects, instant x = true) →
      (∀ y ∈ w.env.sends, fails y = false) ∧
        (requestMessage w.cfg w.env.date host w.ctx.retryNum).length < 2 ^ 31) :
    Settled A E (if !a.connAlloc then finish E_BAD_REQUEST w
      else if !a.reqAlloc then finish E_BAD_REQUEST (newConn w)
      else
        match httpMakeRequest cb (newConn w).nreq (newRequest w.nconn (newConn w)) with
        | (w, false) =>
          cb .handlerResponse .callerError none
            (Downstream.modCtx (fun x => { x with errCode := E_HTTP_CONNECT_FAIL }) w.touchCtx)
        | (w, true) => Downstream.modCtx (fun x => { x with errCode := E_OK }) w.touchCtx) := by
  have h₁ : Holds A E (some w.nconn) (newConn w) := ⟨hw.live, rfl, hw.stock.newConn⟩
  have hconn : (newConn w).conns w.nconn =
      { live := true, retryMax := (newConn w).cfg.maxRetryCon } := if_pos rfl
  split
  · exact .inl (ended_finish hw _)
  · split
    · exact .inl (ended_finish h₁ _)
    · exact settled_makeRequest hcb h₁ hconn hfuel hhost hsmall

theorem httpConnFree_env (h : Nat) (w : World) : (httpConnFree h w).env = w.env := by
  have htimers : ∀ w : World, (w.noteTimers h).env = w.env := by
    intro w
    unfold World.noteTimers
    split <;> rfl
  have hreq : ∀ r, (httpRequestFree r w).env = w.env := by
    intro r
    unfold httpRequestFree
    split <;> rfl
  unfold httpConnFree
  split
  · simp only
    split
    · exact htimers _
    · exact (htimers _).trans (hreq _)
  · rfl

/-- **An attempt settles.** -/
theorem settled_execute (hcb : Answers A n cb) (hw : Holds A E H w)
    (hfuel : w.cfg.maxRetryNum < n + w.ctx.retryNum) : Settled A E (execute cb w) := by
  obtain ⟨hco, hse, hat, hda, hho⟩ := nextAttempt_cases w.env
  have henv : EnvOk A w.cfg (nextAttempt w.env).2 :=
    hw.stock.env.sub (by rw [hco]; exact fun _ h => h) (by rw [hse]; exact fun _ h => h) hat hda
  rcases ha : nextAttempt w.env with ⟨a, env⟩
  rw [ha] at hco hse hda hho henv
  simp only at hco hse hda hho henv
  have h₁ : Holds A E H { w.emit .attempt with env := env } :=
    ⟨hw.live, hw.hc, (hw.stock.emit rfl).withEnv henv⟩
  have h₂ : Holds A E H (Downstream.modCtx (fun x => { x with host := a.host })
      { w.emit .attempt with env := env }) := h₁.modCtx rfl rfl hw.stock.retry
  unfold execute
  simp only [ha, touchCtx_live hw.live, h₂.hc]
  set w₂ := Downstream.modCtx (fun x => { x with host := a.host })
    { w.emit .attempt with env := env } with hw₂
  split
  · exact .inl (ended_finish (h₂.modCtx rfl rfl hw.stock.retry) _)
  · rename_i hne
    obtain ⟨host, hhost⟩ := Option.ne_none_iff_exists'.mp hne
    have hsmall : A.clean → (∃ x ∈ env.connects, instant x = true) →
        (∀ y ∈ env.sends, fails y = false) ∧
          (requestMessage w.cfg env.date host w.ctx.retryNum).length < 2 ^ 31 := by
      rintro hcl ⟨x, hx, hi⟩
      rw [hco] at hx
      obtain ⟨hs, hm⟩ := hw.stock.env.clean hcl x hx hi
      rw [hse, hda]
      exact ⟨hs, hm host (hho host hhost) _ hw.stock.retry⟩
    cases H with
    | none => exact settled_open hcb h₂ a hfuel hhost hsmall
    | some h =>
      -- the connection of the last attempt goes
      obtain ⟨hctx, hcfg⟩ := httpConnFree_frame h w₂
      have henv' := httpConnFree_env h w₂
      set w₃ := Downstream.modCtx (fun x => { x with hc := none }) (httpConnFree h w₂) with hw₃
      have hctx₃ : w₃.ctx = { w₂.ctx with hc := none } := by
        show { (httpConnFree h w₂).ctx with hc := none } = _
        rw [hctx]
      have hcfg₃ : w₃.cfg = w.cfg := hcfg
      have henv₃ : w₃.env = env := henv'
      have h₃ : Holds A E none w₃ := by
        refine ⟨by rw [hctx₃]; exact hw.live, rfl, h₂.stock.freeConn.modCtx rfl ?_⟩
        rw [hctx, hcfg]; exact hw.stock.retry
      have hhost₃ : w₃.ctx.host = some host := by rw [hctx₃]; exact hhost
      refine settled_open hcb h₃ a ?_ hhost₃ ?_
      · rw [hcfg₃, hctx₃]; exact hfuel
      · rw [hcfg₃, henv₃, hctx₃]; exact hsmall

/-- `HandlerResponse` behind its look at the response: the call ends, or another attempt is
made. -/
theorem settled_decide (hcb : Answers A n cb) (hw : Holds A E H w)
    (hfuel : w.cfg.maxRetryNum < n + 1 + w.ctx.retryNum) (code : Nat) :
    Settled A E (if code = E_OK then finish code w
      else if w.ctx.retryNum < w.cfg.maxRetryNum then
        execute cb (Downstream.modCtx (fun x => { x with retryNum := x.retryNum + 1 }) w)
      else finish code w) := by
  split
  · exact .inl (ended_finish hw _)
  · split
    · rename_i hlt
      refine settled_execute hcb (hw.modCtx rfl rfl hlt) ?_
      show w.cfg.maxRetryNum < n + (w.ctx.retryNum + 1)
      omega
    · exact .inl (ended_finish hw _)

theorem settled_handlerResponse (hcb : Answers A n cb) (hw : Holds A E H w)
    (hfuel : w.cfg.maxRetryNum < n + 1 + w.ctx.retryNum) {ec : HttpCode} {rsp : Option Nat}
    (hrsp : ∀ r, rsp = some r → (w.reqs r).live = true)
    (hwhole : A.whole → ec = .ok → ∃ r, rsp = some r ∧ complete .response (w.reqs r) = true) :
    Settled A E (handlerResponse cb ec rsp w) := by
  set w₁ := w.emit (.response ec (rsp.map w.reqs)) with hw₁
  have h₁ : Holds A E H w₁ := by
    refine ⟨hw.live, hw.hc, { hw.stock with book := ?_ }⟩
    refine hw.stock.book.note _ (fun y hy => by cases hy) hw.stock.book.calls
      (fun _ y hy => by cases hy) (fun hA => ?_) fun i hi => by cases hi
    cases ec with
    | ok =>
      obtain ⟨r, hr, hc⟩ := hwhole hA rfl
      exact ⟨w.reqs r, by rw [hr]; rfl, hc⟩
    | _ => trivial
  -- the error code is noted in the context
  have hnoted : ∀ code : Nat, Settled A E
      (let w₂ := if code ≠ E_OK then Downstream.modCtx (fun x => { x with errCode := code }) w₁
        else w₁
      if code = E_OK then finish code w₂
      else if w₂.ctx.retryNum < w₂.cfg.maxRetryNum then
        execute cb (Downstream.modCtx (fun x => { x with retryNum := x.retryNum + 1 }) w₂)
      else finish code w₂) := by
    intro code
    by_cases hcode : code ≠ E_OK
    · simp only [if_pos hcode]
      have h₂ : Holds A E H (Downstream.modCtx (fun x => { x with errCode := code }) w₁) :=
        h₁.modCtx rfl rfl hw.stock.retry
      exact settled_decide hcb h₂ hfuel code
    · simp only [if_neg hcode]
      exact settled_decide hcb h₁ hfuel code
  unfold handlerResponse
  simp only [touchCtx_live hw.live]
  cases rsp with
  | none => exact hnoted _
  | some r =>
    simp only [touchReq_live (hrsp r rfl)]
    exact hnoted _

/-- **Every nested callback settles.** -/
theorem answers_callbacks (A : Aims) (n : Nat) : Answers A n (callbacks n) := by
  induction n with
  | zero =>
    intro E H w ec rsp hw hfuel
    have := hw.stock.retry
    omega
  | succ n ih =>
    intro E H w ec rsp hw hfuel hrsp hwhole
    exact settled_handlerResponse ih hw (by omega) hrsp hwhole

end Outgoing
end Shs
