import Shs.Http.Receive
import Shs.Incoming.Machine

/-!
# Incoming.Simulation

`Sim` relates the heap with connection 0 to the server machine. Each function of `http.cc` that
runs on an incoming connection is matched by its counterpart on the machine, and so is a step of
the event loop (`sim_step`).
-/

namespace Shs
namespace Incoming

open Http Loop

/-- What the heap and the machine share apart from the open connection. -/
structure Base (w : World) (s : Server) : Prop where
  crashed : w.crashed = false
  cfg : w.cfg = s.cfg
  nreq : w.nreq = s.nreq
  live : ∀ r, (w.reqs r).live = s.live r
  pending : w.pending = s.pending
  env : w.env = s.env
  log : w.log = s.log
  /-- there is no other connection -/
  strangers : ∀ h, h ≠ 0 →
    (w.conns h).c.fd = -1 ∧ (w.conns h).c.read.timerSet = false ∧
      (w.conns h).c.write.timerSet = false

/-- Connection 0 of the heap is the open connection `o`. -/
structure Link (w : World) (o : Open) : Prop where
  live : (w.conns 0).live = true
  req : (w.conns 0).req = some o.id
  c : (w.conns 0).c = o.c
  flags : (w.conns 0).flags = HTTP_FLAGS_INCOMING
  status : (w.conns 0).status = o.status
  readEventHandler : (w.conns 0).readEventHandler = some .connReadHandler
  writeEventHandler :
    (w.conns 0).writeEventHandler = if o.armed then some .connWriteHandler else none
  reqs : w.reqs o.id = o.req
  reqLive : o.req.live = true
  reqHc : o.req.hc = some 0
  reqCb : o.req.cb = some .httpHandleRequest
  others : ∀ r, r ≠ o.id → (w.reqs r).hc = none
  fd : 0 < o.c.fd
  connData : o.c.connData = some 0
  readHandler : o.c.read.handler = true
  writeHandler : o.c.write.handler = true
  noReadTimer : o.c.read.timerSet = false
  noReadTimeout : o.c.read.timedout = false

/-- Connection 0 has been freed, and no request refers to it. -/
structure Shut (w : World) : Prop where
  live : (w.conns 0).live = false
  fd : (w.conns 0).c.fd = -1
  noReadTimer : (w.conns 0).c.read.timerSet = false
  noWriteTimer : (w.conns 0).c.write.timerSet = false
  others : ∀ r, (w.reqs r).hc = none

structure Sim (w : World) (s : Server) : Prop where
  base : Base w s
  link : ∀ o, s.conn = some o → Link w o
  shut : s.conn = none → Shut w

theorem Sim.opened {w : World} {s : Server} {o : Open} (hb : Base w s) (hl : Link w o)
    (hs : s.conn = some o) : Sim w s :=
  ⟨hb, fun o' ho' => (by rw [hs, Option.some.injEq] at ho'; rw [← ho']; exact hl),
    fun h => (by rw [hs] at h; cases h)⟩

theorem Sim.closed {w : World} {s : Server} (hb : Base w s) (hc : Shut w) (hs : s.conn = none) :
    Sim w s := ⟨hb, fun o ho => (by rw [hs] at ho; cases ho), fun _ => hc⟩

/-! ## Heap updates -/

namespace Base

variable {w : World} {s : Server}

theorem emit (h : Base w s) (x : Obs) : Base (w.emit x) (s.emit x) :=
  { h with log := by simp only [World.emit, Server.emit, h.log] }

theorem conn (h : Base w s) (c : Option Open) : Base w { s with conn := c } := { h with }

theorem withEnv (h : Base w s) (e : Env) : Base { w with env := e } { s with env := e } :=
  { h with env := rfl }

theorem modConn (h : Base w s) (f : HttpConn → HttpConn) : Base (w.modConn 0 f) s :=
  { h with
    strangers := by
      intro i hi
      simp only [World.modConn, World.setConn, if_neg hi]
      exact h.strangers i hi }

theorem setReq (h : Base w s) (r : Nat) (q : HttpReq) (hq : q.live = s.live r) :
    Base (w.setReq r q) s :=
  { h with
    live := by
      intro i
      simp only [World.setReq]
      split
      · rename_i hi; rw [hi]; exact hq
      · exact h.live i }

theorem modReq (h : Base w s) (r : Nat) (f : HttpReq → HttpReq)
    (hf : (f (w.reqs r)).live = (w.reqs r).live) : Base (w.modReq r f) s :=
  h.setReq r _ (by rw [hf, h.live])

theorem free (h : Base w s) (r : Nat) (hr : (w.reqs r).live = true) :
    Base (httpRequestFree r w) (freeReq r s) := by
  unfold httpRequestFree
  rw [if_pos hr]
  refine Base.emit (s := { s with live := fun i => if i = r then false else s.live i }) ?_ _
  exact
    { h with
      live := by
        intro i
        simp only [World.modReq, World.setReq]
        split
        · rfl
        · exact h.live i }

end Base

namespace Link

variable {w : World} {o : Open}

theorem emit (h : Link w o) (x : Obs) : Link (w.emit x) o := { h with }

theorem withEnv (h : Link w o) (e : Env) : Link { w with env := e } o := { h with }

theorem touchConn (h : Link w o) : w.touchConn 0 = w := by
  simp only [World.touchConn, h.live, if_true]

theorem reqLive' (h : Link w o) : (w.reqs o.id).live = true := by rw [h.reqs]; exact h.reqLive

theorem touchReq (h : Link w o) : w.touchReq o.id = w := by
  simp only [World.touchReq, h.reqLive', if_true]

theorem setReq (h : Link w o) (q : HttpReq) (hlive : q.live = true) (hhc : q.hc = some 0)
    (hcb : q.cb = some .httpHandleRequest) : Link (w.setReq o.id q) { o with req := q } :=
  { h with
    reqs := by simp [World.setReq]
    reqLive := hlive
    reqHc := hhc
    reqCb := hcb
    others := by
      intro r hr
      simp only [World.setReq, if_neg hr]
      exact h.others r hr }

theorem modReq (h : Link w o) (f : HttpReq → HttpReq) (hlive : (f o.req).live = o.req.live)
    (hhc : (f o.req).hc = o.req.hc) (hcb : (f o.req).cb = o.req.cb) :
    Link (w.modReq o.id f) { o with req := f o.req } := by
  unfold World.modReq
  rw [h.reqs]
  exact h.setReq (f o.req) (by rw [hlive, h.reqLive]) (by rw [hhc, h.reqHc]) (by rw [hcb, h.reqCb])

/-- An update of the connection that keeps what identifies it. -/
theorem modConn (h : Link w o) (f : HttpConn → HttpConn) (o' : Open) (hid : o'.id = o.id)
    (hreq : o'.req = o.req) (hc : (f (w.conns 0)).c = o'.c)
    (hst : (f (w.conns 0)).status = o'.status)
    (hwh : (f (w.conns 0)).writeEventHandler = if o'.armed then some .connWriteHandler else none)
    (hkeep : (f (w.conns 0)).live = (w.conns 0).live ∧ (f (w.conns 0)).req = (w.conns 0).req ∧
      (f (w.conns 0)).flags = (w.conns 0).flags ∧
      (f (w.conns 0)).readEventHandler = (w.conns 0).readEventHandler)
    (hcc : o'.c.fd = o.c.fd ∧ o'.c.connData = o.c.connData ∧
      o'.c.read.handler = o.c.read.handler ∧ o'.c.write.handler = o.c.write.handler ∧
      o'.c.read.timerSet = false ∧ o'.c.read.timedout = o.c.read.timedout) :
    Link (w.modConn 0 f) o' := by
  obtain ⟨k₁, k₂, k₃, k₄⟩ := hkeep
  obtain ⟨c₁, c₂, c₃, c₄, c₅, c₆⟩ := hcc
  refine
    { live := ?_, req := ?_, c := ?_, flags := ?_, status := ?_, readEventHandler := ?_,
      writeEventHandler := ?_, reqs := ?_, reqLive := ?_, reqHc := ?_, reqCb := ?_, others := ?_,
      fd := ?_, connData := ?_, readHandler := ?_, writeHandler := ?_, noReadTimer := c₅,
      noReadTimeout := ?_ }
  all_goals try simp only [World.modConn, World.setConn, if_true, hreq, hid]
  · rw [k₁, h.live]
  · rw [k₂, h.req]
  · exact hc
  · rw [k₃, h.flags]
  · exact hst
  · rw [k₄, h.readEventHandler]
  · exact hwh
  · exact h.reqs
  · exact h.reqLive
  · exact h.reqHc
  · exact h.reqCb
  · exact h.others
  · rw [c₁]; exact h.fd
  · rw [c₂]; exact h.connData
  · rw [c₃]; exact h.readHandler
  · rw [c₄]; exact h.writeHandler
  · rw [c₆]; exact h.noReadTimeout

end Link

/-! ## Freeing and failing -/

theorem connClose_fd {c : Conn} (h : 0 < c.fd) :
    (connClose c).fd = -1 ∧ (connClose c).read.timerSet = false ∧
      (connClose c).write.timerSet = false := by
  unfold connClose
  rw [if_pos h]
  exact ⟨rfl, rfl, rfl⟩

/-- The connection is given back without timers. -/
theorem noteTimers_freed {h : Nat} (w : World) (hfd : 0 < (w.conns h).c.fd) :
    (w.modConn h fun hc =>
      { hc with
        live := false, c := connClose hc.c, readEventHandler := none, writeEventHandler := none,
        connCb := none }).noteTimers h =
      w.modConn h fun hc =>
        { hc with
          live := false, c := connClose hc.c, readEventHandler := none, writeEventHandler := none,
          connCb := none } := by
  obtain ⟨-, h₂, h₃⟩ := connClose_fd hfd
  refine World.noteTimers_unset ?_ ?_
  all_goals simp only [World.modConn, World.setConn, if_true]
  · exact h₂
  · exact h₃

/-- `http_conn_free` on a connection that holds no request. -/
theorem sim_close {w : World} {s : Server} (hb : Base w s) (hlive : (w.conns 0).live = true)
    (hreq : (w.conns 0).req = none) (hfd : 0 < (w.conns 0).c.fd)
    (hothers : ∀ r, (w.reqs r).hc = none) : Sim (httpConnFree 0 w) (close s) := by
  obtain ⟨h₁, h₂, h₃⟩ := connClose_fd hfd
  simp only [httpConnFree, hlive, hreq, if_true]
  rw [noteTimers_freed _ hfd]
  refine Sim.closed (((hb.modConn _).conn none).emit _) ?_ rfl
  refine ⟨?_, ?_, ?_, ?_, hothers⟩
  all_goals simp only [World.emit, World.modConn, World.setConn, if_true]
  · exact h₁
  · exact h₂
  · exact h₃

theorem cleared_others {w : World} {o : Open} (h : Link w o) (r : Nat) :
    ((httpRequestFree o.id w).reqs r).hc = none := by
  simp only [httpRequestFree, h.reqLive', if_true, World.emit, World.modReq, World.setReq]
  split
  · rfl
  · rename_i hr; exact h.others r hr

theorem httpRequestFree_conns (r : Nat) (w : World) : (httpRequestFree r w).conns = w.conns := by
  unfold httpRequestFree
  split <;> rfl

theorem sim_drop {w : World} {s : Server} {o : Open} (hb : Base w s) (hl : Link w o) :
    Sim (httpConnFree 0 w) (drop o s) := by
  obtain ⟨h₁, h₂, h₃⟩ := connClose_fd (c := (w.conns 0).c) (by rw [hl.c]; exact hl.fd)
  simp only [httpConnFree, hl.live, hl.req, if_true]
  rw [noteTimers_freed]
  swap
  · simp only [World.modConn, World.setConn, if_true, httpRequestFree_conns]
    rw [hl.c]; exact hl.fd
  refine Sim.closed ((((hb.free o.id hl.reqLive').modConn _).modConn _).conn none |>.emit _) ?_ rfl
  refine ⟨?_, ?_, ?_, ?_, fun r => cleared_others hl r⟩
  all_goals
    simp only [World.emit, World.modConn, World.setConn, if_true, httpRequestFree_conns]
  · exact h₁
  · exact h₂
  · exact h₃

/-- The codes with which `http_incoming_fail` returns -1. -/
def ends : HttpCode → Bool
  | .readTimeout | .readEof | .writeTimeout | .writeEof => true
  | _ => false

theorem sim_hangUp {w : World} {s : Server} {o : Open} (cb : Callbacks) {ec : HttpCode}
    (hb : Base w s) (hl : Link w o) (hec : ends ec = true) :
    Sim (httpConnFail cb 0 ec w) (hangUp o ec s) := by
  have hl' := hl.emit (.connFail 0 ec)
  have hb' := hb.emit (.connFail 0 ec)
  have hflag : (w.conns 0).flags &&& HTTP_FLAGS_INCOMING ≠ 0 := by rw [hl.flags]; decide
  have hinc : ∀ w' : World, Link w' o → httpIncomingFail cb ec o.id w' =
      (if o.req.userdone then w'
        else (w'.modConn 0 fun hc => { hc with req := none }).modReq o.id
          fun q => { q with hc := none }, true) := by
    intro w' h'
    cases ec <;> simp only [ends, Bool.false_eq_true] at hec
    all_goals
      simp only [httpIncomingFail, h'.touchReq, h'.reqs, h'.reqHc]
      split <;> rfl
  have hsame : ((w.emit (.connFail 0 ec)).conns 0) = w.conns 0 := rfl
  simp only [httpConnFail, hl.touchConn, hsame, hl.req, if_pos hflag, hinc _ hl', hangUp]
  split
  · exact sim_drop hb' hl'
  · refine sim_close ((hb'.modConn _).modReq _ _ rfl) ?_ ?_ ?_ ?_
    · exact hl.live
    · simp [World.modReq, World.setReq, World.modConn, World.setConn]
    · show 0 < (w.conns 0).c.fd
      rw [hl.c]; exact hl.fd
    · intro r
      simp only [World.modReq, World.setReq]
      split
      · rfl
      · rename_i hr; exact hl.others r hr

/-! ## Sending -/

theorem nextConn_keeps (env : Env) {c : Conn} (hfd : 0 < c.fd) (ht : c.read.timerSet = false)
    (hto : c.read.timedout = false) :
    0 < (nextConn env c).fd ∧ (nextConn env c).connData = some 0 ∧
      (nextConn env c).read.handler = true ∧ (nextConn env c).write.handler = true ∧
      (nextConn env c).read.timerSet = false ∧ (nextConn env c).read.timedout = false := by
  refine ⟨hfd, rfl, ?_, rfl, ?_, ?_⟩
  all_goals
    simp only [nextConn, eventAdd]
    split <;> simp [ht, hto]

/-- A connection of the heap that holds no request and can take the next one. -/
structure Vacant (w : World) (armed : Bool) (c : Conn) : Prop where
  live : (w.conns 0).live = true
  req : (w.conns 0).req = none
  conn : (w.conns 0).c = c
  flags : (w.conns 0).flags = HTTP_FLAGS_INCOMING
  writeEventHandler :
    (w.conns 0).writeEventHandler = if armed then some .connWriteHandler else none
  others : ∀ r, (w.reqs r).hc = none
  fd : 0 < c.fd
  noReadTimer : c.read.timerSet = false
  noReadTimeout : c.read.timedout = false

theorem attachRequest_base {w : World} {s : Server} (hb : Base w s) :
    Base (attachRequest 0 w) { s with
      nreq := s.nreq + 1, live := fun i => if i = s.nreq then true else s.live i } := by
  unfold attachRequest
  refine Base.modConn ?_ _
  exact
    { hb with
      nreq := by simp only [World.setReq, hb.nreq]
      live := by
        intro i
        simp only [World.setReq, hb.nreq]
        split
        · rfl
        · exact hb.live i }

theorem attachRequest_link {w : World} {s : Server} {armed : Bool} {c : Conn} (hb : Base w s)
    (hv : Vacant w armed c) :
    Link (attachRequest 0 w)
      ⟨s.nreq, freshReq, .readingFirstline, armed, nextConn s.env c⟩ := by
  obtain ⟨n₁, n₂, n₃, n₄, n₅, n₆⟩ :=
    nextConn_keeps s.env hv.fd hv.noReadTimer hv.noReadTimeout
  refine
    { live := hv.live, req := ?_, c := ?_, flags := hv.flags, status := rfl,
      readEventHandler := rfl, writeEventHandler := hv.writeEventHandler, reqs := ?_,
      reqLive := rfl, reqHc := rfl, reqCb := rfl, others := ?_, fd := n₁, connData := n₂,
      readHandler := n₃, writeHandler := n₄, noReadTimer := n₅, noReadTimeout := n₆ }
  · simp [attachRequest, World.modConn, World.setConn, hb.nreq]
  · simp [attachRequest, World.modConn, World.setConn, World.setReq, nextConn, hv.conn, hb.env]
  · simp [attachRequest, World.modConn, World.setConn, World.setReq, hb.nreq, freshReq]
  · intro r hr
    simp only [attachRequest, World.modConn, World.setConn, World.setReq, hb.nreq, if_neg hr]
    exact hv.others r

theorem sim_openNext {w : World} {s : Server} {armed : Bool} {c : Conn} (hb : Base w s)
    (hv : Vacant w armed c) :
    Sim (match httpGetRequestWithConnection 0 w with
      | (w, true) => w
      | (w, false) => httpConnFree 0 w) (openNext armed c s) := by
  have htouch : w.touchConn 0 = w := by simp only [World.touchConn, hv.live, if_true]
  simp only [httpGetRequestWithConnection, htouch, openNext, hb.env]
  cases halloc : s.env.reqAlloc with
  | false =>
    simp only [Bool.not_false, if_true]
    exact sim_close hb hv.live hv.req (by rw [hv.conn]; exact hv.fd) hv.others
  | true =>
    simp only [Bool.not_true, Bool.false_eq_true, if_false]
    have hb' := attachRequest_base hb
    have hl' := attachRequest_link hb hv
    rw [hl'.c]
    cases hready : (nextConn s.env c).read.active || (nextConn s.env c).read.ready with
    | true => exact Sim.opened (hb'.conn _) hl' rfl
    | false => exact sim_drop (hb'.conn _) hl'

theorem sim_sendDone {w : World} {s : Server} {o : Open} (hb : Base w s) (hl : Link w o) :
    Sim (httpSendDone 0 o.id w) (sendDone o s) := by
  have hcfg : w.writeCfg = s.writeCfg := by
    simp only [World.writeCfg, Server.writeCfg, hb.cfg, hb.env]
  have hb' : Base (w.modConn 0 fun hc => { hc with req := none }) s := hb.modConn _
  have hreq : (w.modConn 0 fun hc => { hc with req := none }).reqs o.id = o.req := hl.reqs
  have hfree := hb'.free o.id (by rw [hreq]; exact hl.reqLive)
  set w₁ := httpRequestFree o.id (w.modConn 0 fun hc => { hc with req := none }) with hw₁
  have hconn : w₁.conns 0 = { w.conns 0 with req := none } := by
    rw [hw₁, httpRequestFree_conns]; simp [World.modConn, World.setConn]
  have hothers : ∀ r, (w₁.reqs r).hc = none := by
    intro r
    rw [hw₁]
    simp only [httpRequestFree, hreq, hl.reqLive, if_true, World.emit, World.modReq, World.setReq]
    split
    · rfl
    · rename_i hr; exact hl.others r hr
  have hclose : needClose (w.modConn 0 fun hc => { hc with req := none }).writeCfg o.req =
      needClose s.writeCfg o.req := by rw [← hcfg]; rfl
  simp only [httpSendDone, hl.touchConn, hl.touchReq, hreq, hclose, sendDone, ← hw₁]
  have hv : Vacant w₁ o.armed o.c := by
    refine ⟨?_, ?_, ?_, ?_, ?_, hothers, hl.fd, hl.noReadTimer, hl.noReadTimeout⟩
    all_goals rw [hconn]
    · exact hl.live
    · exact hl.c
    · exact hl.flags
    · exact hl.writeEventHandler
  split
  · exact sim_close hfree hv.live hv.req (by rw [hv.conn]; exact hv.fd) hothers
  · exact sim_openNext hfree hv

theorem noteSent_sim {w : World} {s : Server} {o : Open} (t : Sending) (hb : Base w s)
    (hl : Link w o) :
    Base (noteSent 0 o.id t w) (sentServer t o s) ∧ Link (noteSent 0 o.id t w) (sentOpen t o) ∧
      ((noteSent 0 o.id t w).conns 0).connCb = (w.conns 0).connCb := by
  have hl₁ := hl.modReq (fun q => { q with outBuf := sentOut q.outBuf t.unsent }) rfl rfl rfl
  have hl₂ := hl₁.modConn (fun hc =>
    { hc with c := { hc.c with write := { hc.c.write with ready := hc.c.write.ready && !t.stalled } } })
    (sentOpen t o) rfl rfl (by rw [hl₁.c]; rfl) hl₁.status hl₁.writeEventHandler
    ⟨rfl, rfl, rfl, rfl⟩ ⟨rfl, rfl, rfl, rfl, hl.noReadTimer, rfl⟩
  have hl₃ := hl₂.withEnv { w.env with sends := t.sends }
  have hb₁ := (hb.modReq o.id (fun q => { q with outBuf := sentOut q.outBuf t.unsent }) rfl).modConn
    (fun hc =>
      { hc with c := { hc.c with write := { hc.c.write with ready := hc.c.write.ready && !t.stalled } } })
  have hb₂ := (hb₁.withEnv { w.env with sends := t.sends }).conn (some (sentOpen t o))
  rw [hb.env] at hb₂
  unfold noteSent sentServer
  simp only
  split
  · exact ⟨by rw [← hb.env] at hb₂ ⊢; exact hb₂.emit _, hl₃.emit _, rfl⟩
  · exact ⟨by rw [← hb.env] at hb₂ ⊢; exact hb₂, hl₃, rfl⟩

theorem connSend_link {w : World} {s : Server} {o : Open} (hb : Base w s) (hl : Link w o) :
    connSend o.id w =
      ((sendLoop s.env.sends o.req.outBuf.data 0).ret,
        noteSent 0 o.id (sendLoop s.env.sends o.req.outBuf.data 0) w) := by
  simp only [connSend, hl.touchReq, hl.reqs, hl.reqHc, hb.env]

theorem sim_writeBuffer {w : World} {s : Server} {o : Open} (cb : Callbacks) (hb : Base w s)
    (hl : Link w o) (hcb : (w.conns 0).connCb = some .httpSendDone) :
    Sim (httpWriteBuffer cb 0 w) (writeBuffer o s) := by
  obtain ⟨hb', hl', hcb'⟩ := noteSent_sim (sendLoop s.env.sends o.req.outBuf.data 0) hb hl
  rw [hcb] at hcb'
  simp only [httpWriteBuffer, hl.touchConn, hl.req, connSend_link hb hl, hcb', writeBuffer]
  set t := sendLoop s.env.sends o.req.outBuf.data 0 with ht
  split
  · exact sim_hangUp cb hb' hl' rfl
  · split
    · exact sim_sendDone hb' hl'
    · refine Sim.opened ((hb'.modConn _).conn _) ?_ rfl
      refine hl'.modConn _ (blocked (sentServer t o s).env (sentOpen t o)) rfl rfl ?_ hl'.status rfl
        ⟨rfl, rfl, rfl, rfl⟩ ⟨rfl, rfl, rfl, ?_, hl'.noReadTimer, rfl⟩
      · simp only [hl'.c, hb'.env, blocked]
      · simp only [blocked, eventTimerAdd, eventAdd]
        split <;> rfl

theorem sim_send {w : World} {s : Server} {o : Open} (cb : Callbacks) {make : HttpReq → HttpReq}
    (hm : ∀ q, (make q).links = q.links) (hb : Base w s) (hl : Link w o) :
    Sim (httpSend cb o.id make w) (send make o s) := by
  have hlinks := fun q => hm q
  simp only [HttpReq.links, Prod.mk.injEq] at hlinks
  have hl₁ := hl.modReq make (hlinks _).1 (hlinks _).2.1 (hlinks _).2.2.1
  have hb₁ := hb.modReq o.id make (hlinks _).1
  have hhc : ((w.modReq o.id make).reqs o.id).hc = some 0 := by
    rw [hl₁.reqs]; exact hl₁.reqHc
  simp only [httpSend, hl.touchReq, hhc, hl₁.touchConn, send]
  refine sim_writeBuffer cb (hb₁.modConn _) ?_ ?_
  · exact hl₁.modConn _ _ rfl rfl hl₁.c hl₁.status hl₁.writeEventHandler ⟨rfl, rfl, rfl, rfl⟩
      ⟨rfl, rfl, rfl, rfl, hl₁.noReadTimer, rfl⟩
  · simp [World.modConn, World.setConn]

/-! ## Replies -/

theorem Base.writeCfg {w : World} {s : Server} (hb : Base w s) : w.writeCfg = s.writeCfg := by
  simp only [World.writeCfg, Server.writeCfg, hb.cfg, hb.env]

theorem sim_answer {w : World} {s : Server} {o : Open} (cb : Callbacks) (rep : Reply)
    (hb : Base w s) (hl : Link w o) : Sim (moduleReply cb o.id rep w) (answer rep o s) := by
  have hlinks : ∀ q : HttpReq, (addReplyHeaders q rep.headers).links = q.links :=
    fun q => links_addReplyHeaders q rep.headers
  have hlinks' := fun q => hlinks q
  simp only [HttpReq.links, Prod.mk.injEq] at hlinks'
  have hl₁ := hl.modReq (fun q => addReplyHeaders q rep.headers) (hlinks' _).1 (hlinks' _).2.1
    (hlinks' _).2.2.1
  have hb₁ := hb.modReq o.id (fun q => addReplyHeaders q rep.headers) (hlinks' _).1
  have hhc : ((w.modReq o.id fun q => addReplyHeaders q rep.headers).reqs o.id).hc = some 0 := by
    rw [hl₁.reqs]; exact hl₁.reqHc
  simp only [moduleReply, httpSendReply, hl.touchReq, hl₁.touchReq, hhc, hb₁.writeCfg]
  exact sim_send cb (fun q => links_makeReply _ q rep) hb₁ hl₁

namespace Sim

variable {w : World} {s : Server}

theorem emit (h : Sim w s) (x : Obs) : Sim (w.emit x) (s.emit x) :=
  ⟨h.base.emit x, fun o ho => (h.link o ho).emit x, fun hn => { h.shut hn with }⟩

theorem withEnv (h : Sim w s) (e : Env) : Sim { w with env := e } { s with env := e } :=
  ⟨h.base.withEnv e, fun o ho => (h.link o ho).withEnv e, fun hn => { h.shut hn with }⟩

theorem withPending (h : Sim w s) (p : List Nat) :
    Sim { w with pending := p } { s with pending := p } :=
  ⟨{ h.base with pending := rfl }, fun o ho => { h.link o ho with }, fun hn => { h.shut hn with }⟩

/-- A change to a request that the connection does not hold. -/
theorem setOther (h : Sim w s) {r : Nat} (q : HttpReq) (hid : ∀ o, s.conn = some o → o.id ≠ r)
    (hlive : q.live = (w.reqs r).live) (hhc : q.hc = none) : Sim (w.setReq r q) s := by
  have hothers : ∀ i, ((w.setReq r q).reqs i).hc = if i = r then none else (w.reqs i).hc := by
    intro i
    simp only [World.setReq]
    split
    · exact hhc
    · rfl
  refine ⟨h.base.setReq r q (by rw [hlive, h.base.live]), ?_, ?_⟩
  · intro o ho
    have hl := h.link o ho
    refine { hl with reqs := ?_, others := ?_ }
    · simp only [World.setReq, if_neg (hid o ho)]; exact hl.reqs
    · intro i hi
      rw [hothers]
      split
      · rfl
      · exact hl.others i hi
  · intro hn
    refine { h.shut hn with others := ?_ }
    intro i
    rw [hothers]
    split
    · rfl
    · exact (h.shut hn).others i

theorem freeOther (h : Sim w s) {r : Nat} (hid : ∀ o, s.conn = some o → o.id ≠ r)
    (hr : (w.reqs r).live = true) : Sim (httpRequestFree r w) (freeReq r s) := by
  have hb := h.base.free r hr
  refine ⟨hb, ?_, ?_⟩
  · intro o ho
    have hl := h.link o ho
    have hne := hid o ho
    refine { hl with live := ?_, req := ?_, c := ?_, flags := ?_, status := ?_, readEventHandler := ?_, writeEventHandler := ?_, reqs := ?_, others := ?_ }
    all_goals try rw [httpRequestFree_conns]
    · exact hl.live
    · exact hl.req
    · exact hl.c
    · exact hl.flags
    · exact hl.status
    · exact hl.readEventHandler
    · exact hl.writeEventHandler
    · simp only [httpRequestFree, hr, if_true, World.emit, World.modReq, World.setReq, if_neg hne]
      exact hl.reqs
    · intro i hi
      simp only [httpRequestFree, hr, if_true, World.emit, World.modReq, World.setReq]
      split
      · rfl
      · exact hl.others i hi
  · intro hn
    have hc := h.shut hn
    refine ⟨?_, ?_, ?_, ?_, ?_⟩
    all_goals try rw [httpRequestFree_conns]
    · exact hc.live
    · exact hc.fd
    · exact hc.noReadTimer
    · exact hc.noWriteTimer
    · intro i
      simp only [httpRequestFree, hr, if_true, World.emit, World.modReq, World.setReq]
      split
      · rfl
      · exact hc.others i

end Sim

theorem sim_answerDetached {w : World} {s : Server} (cb : Callbacks) (r : Nat) (rep : Reply)
    (hs : Sim w s) (hr : (w.reqs r).hc = none) (hid : ∀ o, s.conn = some o → o.id ≠ r) :
    Sim (moduleReply cb r rep w) (answerDetached r s) := by
  have hlinks := links_addReplyHeaders (w.reqs r) rep.headers
  simp only [HttpReq.links, Prod.mk.injEq] at hlinks
  have hset : ∀ {w' : World} {s' : Server}, Sim w' s' → w'.reqs = w.reqs → s'.conn = s.conn →
      Sim (w'.setReq r (addReplyHeaders (w.reqs r) rep.headers)) s' := by
    intro w' s' h' hw hc
    exact h'.setOther _ (by rw [hc]; exact hid) (by rw [hw]; exact hlinks.1)
      (by rw [hlinks.2.1]; exact hr)
  have hget : ∀ w' : World, (w'.setReq r (addReplyHeaders (w.reqs r) rep.headers)).reqs r =
      addReplyHeaders (w.reqs r) rep.headers := by
    intro w'; simp [World.setReq]
  unfold moduleReply httpSendReply answerDetached
  rw [← hs.base.live]
  cases hlive : (w.reqs r).live with
  | true =>
    have h₁ := hset hs rfl rfl
    simp only [World.touchReq, hlive, if_true, World.modReq, hget, hlinks.1, hlinks.2.1, hr]
    exact h₁.freeOther hid (by rw [hget, hlinks.1, hlive])
  | false =>
    have h₁ := (hset (hs.emit (.fault (.req r))) rfl rfl).emit (.fault (.req r)) |>.emit
      (.fault (.req r))
    have hdead : ∀ w' : World, ((World.emit (.fault (.req r)) w').reqs r).live = (w'.reqs r).live :=
      fun _ => rfl
    simp only [World.touchReq, hlive, Bool.false_eq_true, if_false, World.modReq,
      show (World.emit (.fault (.req r)) w).reqs = w.reqs from rfl, hget, hlinks.1, hlinks.2.1, hr,
      show ∀ (x : Obs) (w' : World), (World.emit x w').reqs = w'.reqs from fun _ _ => rfl,
      httpRequestFree]
    exact h₁

/-! ## Dispatch -/

theorem sim_callModule {w : World} {s : Server} {o : Open} (cb : Callbacks) (stat : Bool)
    (hb : Base w s) (hl : Link w o) :
    Sim (Http.callModule cb stat o.id w) (callModule stat o s) := by
  have hb' := (hb.conn (some o)).emit (.dispatch stat o.id o.req)
  have hl' := hl.emit (.dispatch stat o.id o.req)
  have hmod : (w.emit (.dispatch stat o.id o.req)).env.module = s.env.module := by
    rw [← hb.env]; rfl
  have hmod' : (Server.emit (.dispatch stat o.id o.req) { s with conn := some o }).env.module =
      s.env.module := rfl
  simp only [Http.callModule, callModule, hl.reqs, hmod, hmod']
  cases s.env.module with
  | none =>
    have := (Sim.opened hb' hl' rfl).withPending (o.id :: w.pending)
    rw [hb.pending] at this
    simp only
    rw [show (w.emit (.dispatch stat o.id o.req)).pending = s.pending from hb.pending]
    exact this
  | some rep => exact sim_answer cb rep hb' hl'

theorem sim_clearUri {w : World} {s : Server} (r : Nat) (hs : Sim w s) :
    Sim ((w.touchReq r).modReq r fun q => { q with uri := [] }) (clearUri r s) := by
  have key : ∀ {w' : World} {s' : Server}, Sim w' s' →
      Sim (w'.modReq r fun q => { q with uri := [] })
        { s' with conn := s'.conn.map fun o =>
            if o.id = r then { o with req := { o.req with uri := [] } } else o } := by
    intro w' s' h'
    cases hc : s'.conn with
    | none =>
      have := h'.setOther (r := r) { w'.reqs r with uri := [] } (by simp [hc]) rfl
        ((h'.shut hc).others r)
      exact Sim.closed (this.base.conn none) (this.shut hc) rfl
    | some o =>
      have hl := h'.link o hc
      by_cases hid : o.id = r
      · subst hid
        have hl' := hl.modReq (fun q => { q with uri := [] }) rfl rfl rfl
        have hb' := (h'.base.modReq o.id (fun q => { q with uri := [] }) rfl).conn
          (some { o with req := { o.req with uri := [] } })
        simp only [Option.map_some, if_true]
        exact Sim.opened hb' hl' rfl
      · have := h'.setOther (r := r) { w'.reqs r with uri := [] }
          (fun o' ho' => by rw [hc, Option.some.injEq] at ho'; rw [← ho']; exact hid) rfl
          (hl.others r (Ne.symm hid))
        simp only [Option.map_some, if_neg hid]
        exact Sim.opened (this.base.conn (some o)) (this.link o hc) rfl
  unfold clearUri World.touchReq
  rw [← hs.base.live]
  cases (w.reqs r).live with
  | true => exact key hs
  | false => exact key (hs.emit _)

theorem sim_handle {w : World} {s : Server} {o : Open} (cb : Callbacks) (hb : Base w s)
    (hl : Link w o) : Sim (httpHandleRequest cb o.id w) (handle o s) := by
  have huri : (w.reqs o.id).uri = o.req.uri := by rw [hl.reqs]
  have hhc : (w.reqs o.id).hc = some 0 := by rw [hl.reqs]; exact hl.reqHc
  unfold httpHandleRequest handle
  simp only [hl.touchReq, huri, hhc, hl.touchConn, hl.status]
  split
  · split
    · exact sim_hangUp cb hb hl rfl
    · rw [httpSendError, hb.writeCfg]
      exact sim_send cb (fun q => links_makeError _ q _ _) hb hl
  · have hl' := hl.modReq (fun q => { q with userdone := false }) rfl rfl rfl
    have hb' := hb.modReq o.id (fun q => { q with userdone := false }) rfl
    have hcfg : (w.modReq o.id fun q => { q with userdone := false }).cfg = s.cfg := hb.cfg
    rw [hcfg]
    split
    · exact sim_callModule cb true hb' hl'
    · split
      · exact sim_clearUri o.id (sim_callModule cb false hb' hl')
      · rw [hb'.writeCfg]
        exact sim_send cb (fun q => links_makeNotFound _ q) hb' hl'

/-! ## Events -/

theorem callCb_link {w : World} {o : Open} (n : Nat) (ec : HttpCode) (hl : Link w o) :
    callCb (callbacks (n + 1)) ec o.id w = httpHandleRequest (callbacks n) o.id w := by
  simp only [callCb, hl.touchReq, hl.reqs, hl.reqCb, callbacks]

theorem sim_done {w : World} {s : Server} {o : Open} (n : Nat) (hb : Base w s) (hl : Link w o) :
    Sim (httpConnDone (callbacks (n + 1)) 0 o.id w) (done o s) := by
  have hflag : ¬ (w.conns 0).flags &&& HTTP_FLAGS_OUTGOING ≠ 0 := by rw [hl.flags]; decide
  simp only [httpConnDone, hl.touchConn, hl.touchReq, hflag, if_false, hl.status, done, doneOpen]
  split
  · have hl' := hl.modConn (fun hc => { hc with status := .writing }) { o with status := .writing }
      rfl rfl hl.c rfl hl.writeEventHandler ⟨rfl, rfl, rfl, rfl⟩
      ⟨rfl, rfl, rfl, rfl, hl.noReadTimer, rfl⟩
    rw [callCb_link (o := { o with status := .writing }) n .ok hl']
    exact sim_handle _ (hb.modConn _) hl'
  · rw [callCb_link n .ok hl]
    exact sim_handle _ hb hl

theorem sim_fail {w : World} {s : Server} {o : Open} (n : Nat) (ec : HttpCode) (hb : Base w s)
    (hl : Link w o) : Sim (httpConnFail (callbacks (n + 1)) 0 ec w) (fail o ec s) := by
  have hflag : (w.conns 0).flags &&& HTTP_FLAGS_INCOMING ≠ 0 := by rw [hl.flags]; decide
  have hl₁ := hl.emit (.connFail 0 ec)
  have hb₁ := hb.emit (.connFail 0 ec)
  have hl₂ := hl₁.modReq (fun q => { q with uri := [] }) rfl rfl rfl
  have hb₂ := hb₁.modReq o.id (fun q => { q with uri := [] }) rfl
  have hsame : ((w.emit (.connFail 0 ec)).conns 0) = w.conns 0 := rfl
  have hinvalid : Sim (callCb (callbacks (n + 1)) ec o.id
      ((w.emit (.connFail 0 ec)).modReq o.id fun q => { q with uri := [] }))
      (handle { o with req := { o.req with uri := [] } } (s.emit (.connFail 0 ec))) := by
    rw [callCb_link (o := { o with req := { o.req with uri := [] } }) n ec hl₂]
    exact sim_handle _ hb₂ hl₂
  have hopen : Sim (w.emit (.connFail 0 ec)) (Server.emit (.connFail 0 ec) { s with conn := some o }) :=
    Sim.opened ((hb.conn (some o)).emit _) hl₁ rfl
  cases ec with
  | readTimeout => exact sim_hangUp _ hb hl rfl
  | readEof => exact sim_hangUp _ hb hl rfl
  | writeTimeout => exact sim_hangUp _ hb hl rfl
  | writeEof => exact sim_hangUp _ hb hl rfl
  | invalidHeader =>
    simp only [httpConnFail, hl.touchConn, hsame, hl.req, if_pos hflag, httpIncomingFail,
      hl₁.touchReq]
    exact hinvalid
  | invalidBody =>
    simp only [httpConnFail, hl.touchConn, hsame, hl.req, if_pos hflag, httpIncomingFail,
      hl₁.touchReq]
    exact hinvalid
  | _ =>
    simp only [httpConnFail, hl.touchConn, hsame, hl.req, if_pos hflag, httpIncomingFail,
      hl₁.touchReq]
    exact hopen

theorem noteRead_sim {w : World} {s : Server} {o : Open} {t : Reader} (hb : Base w s)
    (hl : Link w o) (hk : Kept o.req t.req) :
    Base (noteRead 0 o.id t w) s ∧ Link (noteRead 0 o.id t w) (readOpen t o) := by
  have hl₁ := hl.setReq t.req (hk.live.trans hl.reqLive) (hk.hc.trans hl.reqHc)
    (hk.cb.trans hl.reqCb)
  have hb₁ := hb.setReq o.id t.req (by rw [hk.live, ← hl.reqs, hb.live])
  refine ⟨hb₁.modConn _, ?_⟩
  exact hl₁.modConn _ (readOpen t o) rfl rfl (by rw [hl₁.c]; rfl) rfl hl₁.writeEventHandler
    ⟨rfl, rfl, rfl, rfl⟩ ⟨rfl, rfl, rfl, rfl, hl.noReadTimer, rfl⟩

theorem eventAdd_keeps (ok : Bool) (ev : Event) :
    (eventAdd ok ev).handler = ev.handler ∧ (eventAdd ok ev).timerSet = ev.timerSet ∧
      (eventAdd ok ev).timedout = ev.timedout := by
  unfold eventAdd
  split <;> exact ⟨rfl, rfl, rfl⟩

theorem sim_onVerdict {w : World} {s : Server} {o : Open} (n : Nat) (v : Verdict) (hb : Base w s)
    (hl : Link w o) : Sim (Http.onVerdict (callbacks (n + 1)) 0 o.id v w) (onVerdict v o s) := by
  obtain ⟨e₁, e₂, e₃⟩ := eventAdd_keeps s.env.add o.c.read
  cases v with
  | wait =>
    simp only [Http.onVerdict, onVerdict, World.modC]
    refine Sim.opened ((hb.modConn _).conn _) ?_ rfl
    refine hl.modConn _ { o with c := { o.c with read := eventAdd s.env.add o.c.read } } rfl rfl ?_
      hl.status hl.writeEventHandler ⟨rfl, rfl, rfl, rfl⟩
      ⟨rfl, rfl, e₁, rfl, e₂.trans hl.noReadTimer, e₃⟩
    simp only [hl.c, hb.env]
  | done => exact sim_done n hb hl
  | fail ec => exact sim_fail n ec hb hl
  | readOn => exact Sim.opened (hb.conn _) hl rfl
  | ignore => exact Sim.opened (hb.conn _) hl rfl
  | stuck => exact Sim.opened (hb.conn _) hl rfl

theorem sim_readHandler {w : World} {s : Server} {o : Open} (n : Nat) (hb : Base w s)
    (hl : Link w o) : Sim (connReadHandler (callbacks (n + 1)) 0 w) (readHandler o s) := by
  have hto : (w.conns 0).c.read.timedout = false := by rw [hl.c]; exact hl.noReadTimeout
  have hl₁ := hl.modConn (fun hc => { hc with c := { hc.c with read := eventTimerDel hc.c.read } })
    { o with c := { o.c with read := eventTimerDel o.c.read } } rfl rfl (by rw [hl.c]) hl.status
    hl.writeEventHandler ⟨rfl, rfl, rfl, rfl⟩ ⟨rfl, rfl, rfl, rfl, rfl, rfl⟩
  have hb₁ := hb.modConn
    (fun hc => { hc with c := { hc.c with read := eventTimerDel hc.c.read } })
  set o₁ : Open := { o with c := { o.c with read := eventTimerDel o.c.read } } with ho₁
  set w₁ := w.modConn 0
    (fun hc => { hc with c := { hc.c with read := eventTimerDel hc.c.read } }) with hw₁
  set out := connRead (o₁.c.read.active && o₁.c.read.ready) ⟨o₁.req, o₁.status, o₁.c.rcvq⟩
    with hout
  have hk : Kept o₁.req out.1.req :=
    kept_connRead (o₁.c.read.active && o₁.c.read.ready) ⟨o₁.req, o₁.status, o₁.c.rcvq⟩
  obtain ⟨hb₂, hl₂⟩ := noteRead_sim hb₁ hl₁ hk
  have hworld : connReadHandler (callbacks (n + 1)) 0 w =
      Http.onVerdict (callbacks (n + 1)) 0 o.id out.2 (noteRead 0 o.id out.1 w₁) := by
    simp only [connReadHandler, hl.touchConn, hl.req, hto, Bool.false_eq_true, if_false,
      hl.touchReq, World.modC, ← hw₁]
    rw [hl₁.c, hl₁.status, show w₁.reqs o.id = o₁.req from hl₁.reqs]
  rw [hworld]
  exact sim_onVerdict n out.2 hb₂ hl₂

theorem sim_writeHandler {w : World} {s : Server} {o : Open} (cb : Callbacks) (hb : Base w s)
    (hl : Link w o) : Sim (connWriteHandler cb 0 w) (writeHandler o s) := by
  have hflag : ¬ (w.conns 0).flags &&& HTTP_FLAGS_OUTGOING ≠ 0 := by rw [hl.flags]; decide
  simp only [connWriteHandler, hl.touchConn, hl.c, writeHandler]
  split
  · exact sim_hangUp cb hb hl rfl
  · have hl₁ := hl.modConn
      (fun hc => { hc with c := { hc.c with write := eventTimerDel hc.c.write } })
      { o with c := { o.c with write := eventTimerDel o.c.write } } rfl rfl (by rw [hl.c]) hl.status
      hl.writeEventHandler ⟨rfl, rfl, rfl, rfl⟩ ⟨rfl, rfl, rfl, rfl, hl.noReadTimer, rfl⟩
    refine sim_writeBuffer cb ((hb.modConn _).modConn _) ?_ ?_
    · exact hl₁.modConn _ _ rfl rfl hl₁.c hl₁.status hl₁.writeEventHandler ⟨rfl, rfl, rfl, rfl⟩
        ⟨rfl, rfl, rfl, rfl, hl₁.noReadTimer, rfl⟩
    · have hf : ((w.modC 0 fun c => { c with write := eventTimerDel c.write }).conns 0).flags =
          HTTP_FLAGS_INCOMING := hl₁.flags
      simp only [World.modConn, World.setConn, if_true] at hf ⊢
      rw [hf]
      decide

theorem sim_processRead {w : World} {s : Server} {o : Open} (n : Nat) (hb : Base w s)
    (hl : Link w o) : Sim (processRead (callbacks (n + 1)) 0 w) (readHandler o s) := by
  simp only [processRead, hl.c, hl.connData, hl.touchConn, hl.readEventHandler]
  exact sim_readHandler n hb hl

theorem sim_processWrite {w : World} {s : Server} {o : Open} (cb : Callbacks) (hb : Base w s)
    (hl : Link w o) : Sim (Http.processWrite cb 0 w) (processWrite o s) := by
  simp only [Http.processWrite, hl.c, hl.connData, hl.touchConn, hl.writeEventHandler,
    processWrite]
  cases o.armed with
  | true => exact sim_writeHandler cb hb hl
  | false => exact Sim.opened (hb.conn _) hl rfl

/-! ## Steps and runs -/

/-- Events of other connections reach nothing. -/
theorem sim_stranger {w : World} {s : Server} {h : Nat} (hs : Sim w s) (hh : h ≠ 0)
    (f : Conn → Conn) (hf : ∀ c : Conn, (f c).fd = c.fd ∧ (f c).read.timerSet = c.read.timerSet ∧
      (f c).write.timerSet = c.write.timerSet) : Sim (w.modC h f) s := by
  have hsame : (w.modC h f).conns 0 = w.conns 0 := by
    simp only [World.modC, World.modConn, World.setConn, if_neg (Ne.symm hh)]
  refine ⟨?_, ?_, ?_⟩
  · refine { hs.base with strangers := ?_ }
    intro i hi
    simp only [World.modC, World.modConn, World.setConn]
    split
    · rw [(hf _).1, (hf _).2.1, (hf _).2.2]; exact hs.base.strangers h hh
    · exact hs.base.strangers i hi
  · intro o ho
    have hl := hs.link o ho
    refine { hl with live := ?_, req := ?_, c := ?_, flags := ?_, status := ?_,
                     readEventHandler := ?_, writeEventHandler := ?_ }
    all_goals rw [hsame]
    · exact hl.live
    · exact hl.req
    · exact hl.c
    · exact hl.flags
    · exact hl.status
    · exact hl.readEventHandler
    · exact hl.writeEventHandler
  · intro hn
    have hc := hs.shut hn
    refine ⟨?_, ?_, ?_, ?_, hc.others⟩
    all_goals rw [hsame]
    · exact hc.live
    · exact hc.fd
    · exact hc.noReadTimer
    · exact hc.noWriteTimer

theorem delivered_closed {c : Conn} (h : c.fd = -1) (ev : Event) : delivered c ev = false := by
  simp [delivered, h]

/-- Bytes arrive on a closed socket. -/
theorem Shut.arrive {w : World} (h : Shut w) (rs : List RecvResult) :
    Shut (w.modC 0 fun c => { c with rcvq := c.rcvq ++ rs }) :=
  ⟨h.live, h.fd, h.noReadTimer, h.noWriteTimer, h.others⟩

theorem sim_onReadable {w : World} {s : Server} (h : Nat) (rs : List RecvResult) (hs : Sim w s) :
    Sim (Loop.onReadable h rs w) (onConn h (onReadable rs) s) := by
  unfold Loop.onReadable
  by_cases hh : h = 0
  · subst hh
    cases hc : s.conn with
    | none =>
      have hcl := (hs.shut hc).arrive rs
      simp only [onConn, hc, delivered_closed hcl.fd, Bool.false_eq_true, if_false]
      exact Sim.closed (hs.base.modConn _) hcl hc
    | some o =>
      have hl := hs.link o hc
      have hl₁ := hl.modConn (fun hc => { hc with c := { hc.c with rcvq := hc.c.rcvq ++ rs } })
        { o with c := { o.c with rcvq := o.c.rcvq ++ rs } } rfl rfl (by rw [hl.c]) hl.status
        hl.writeEventHandler ⟨rfl, rfl, rfl, rfl⟩ ⟨rfl, rfl, rfl, rfl, hl.noReadTimer, rfl⟩
      have hb₁ := hs.base.modConn
        (fun hc => { hc with c := { hc.c with rcvq := hc.c.rcvq ++ rs } })
      simp only [onConn, hc, if_true, onReadable, World.modC, hl₁.c]
      split
      · refine sim_processRead _ (hb₁.modConn _) ?_
        exact hl₁.modConn _ _ rfl rfl (by rw [hl₁.c]) hl₁.status hl₁.writeEventHandler
          ⟨rfl, rfl, rfl, rfl⟩ ⟨rfl, rfl, rfl, rfl, hl.noReadTimer, rfl⟩
      · exact Sim.opened (hb₁.conn _) hl₁ rfl
  · have hs' := sim_stranger hs hh (fun c => { c with rcvq := c.rcvq ++ rs })
      (fun _ => ⟨rfl, rfl, rfl⟩)
    have hfd := (hs'.base.strangers h hh).1
    simp only [delivered_closed hfd, Bool.false_eq_true, if_false]
    unfold onConn
    split
    · rw [if_neg hh]; exact hs'
    · exact hs'

theorem sim_onWritable {w : World} {s : Server} (h : Nat) (hs : Sim w s) :
    Sim (Loop.onWritable h w) (onConn h onWritable s) := by
  unfold Loop.onWritable
  by_cases hh : h = 0
  · subst hh
    cases hc : s.conn with
    | none =>
      simp only [onConn, hc, delivered_closed (hs.shut hc).fd, Bool.false_eq_true, if_false]
      exact hs
    | some o =>
      have hl := hs.link o hc
      simp only [onConn, hc, if_true, onWritable, World.modC, hl.c]
      split
      · refine sim_processWrite _ (hs.base.modConn _) ?_
        exact hl.modConn _ _ rfl rfl (by rw [hl.c]) hl.status hl.writeEventHandler
          ⟨rfl, rfl, rfl, rfl⟩ ⟨rfl, rfl, rfl, rfl, hl.noReadTimer, rfl⟩
      · exact hs
  · simp only [delivered_closed (hs.base.strangers h hh).1, Bool.false_eq_true, if_false]
    unfold onConn
    split
    · rw [if_neg hh]; exact hs
    · exact hs

/-- The server sets no read timer. -/
theorem sim_onReadTimeout {w : World} {s : Server} (h : Nat) (hs : Sim w s) :
    Sim (onReadTimeout h w) s := by
  have hset : (w.conns h).c.read.timerSet = false := by
    by_cases hh : h = 0
    · subst hh
      cases hc : s.conn with
      | none => exact (hs.shut hc).noReadTimer
      | some o => rw [(hs.link o hc).c]; exact (hs.link o hc).noReadTimer
    · exact (hs.base.strangers h hh).2.1
  simp only [onReadTimeout, hset, Bool.false_eq_true, if_false]
  exact hs

theorem sim_onWriteTimeout {w : World} {s : Server} (h : Nat) (hs : Sim w s) :
    Sim (Loop.onWriteTimeout h w) (onConn h onWriteTimeout s) := by
  unfold Loop.onWriteTimeout
  by_cases hh : h = 0
  · subst hh
    cases hc : s.conn with
    | none =>
      simp only [onConn, hc, (hs.shut hc).noWriteTimer, Bool.false_eq_true, if_false]
      exact hs
    | some o =>
      have hl := hs.link o hc
      have hl₁ := hl.modConn (fun hc => { hc with c := { hc.c with write := eventExpire hc.c.write } })
        { o with c := { o.c with write := eventExpire o.c.write } } rfl rfl (by rw [hl.c]) hl.status
        hl.writeEventHandler ⟨rfl, rfl, rfl, rfl⟩ ⟨rfl, rfl, rfl, rfl, hl.noReadTimer, rfl⟩
      have hhand : ((w.modC 0 fun c => { c with write := eventExpire c.write }).conns 0).c.write.handler
          = true := by
        rw [show ((w.modC 0 fun c => { c with write := eventExpire c.write }).conns 0).c = _ from hl₁.c]
        exact hl.writeHandler
      simp only [onConn, hc, if_true, onWriteTimeout, hhand, hl.c]
      split
      · exact sim_processWrite _ (hs.base.modConn _) hl₁
      · exact hs
  · simp only [(hs.base.strangers h hh).2.2, Bool.false_eq_true, if_false]
    unfold onConn
    split
    · rw [if_neg hh]; exact hs
    · exact hs

theorem sim_onReply {w : World} {s : Server} (r : Nat) (rep : Reply) (hs : Sim w s) :
    Sim (Loop.onReply r rep w) (onReply r rep s) := by
  have hs' := hs.withPending (s.pending.erase r)
  unfold Loop.onReply onReply
  rw [hs.base.pending]
  split
  · cases hc : s.conn with
    | none =>
      simp only [hc] at hs'
      exact sim_answerDetached _ r rep hs' ((hs'.shut rfl).others r) (by simp)
    | some o =>
      simp only [hc] at hs'
      by_cases hid : o.id = r
      · subst hid
        simp only [if_true]
        exact sim_answer _ rep hs'.base (hs'.link o rfl)
      · simp only [if_neg hid]
        refine sim_answerDetached _ r rep hs' ((hs'.link o rfl).others r (Ne.symm hid)) ?_
        intro o' ho'
        simp only [Option.some.injEq] at ho'
        rw [← ho']; exact hid
  · exact hs

/-- **The server machine takes the steps of the heap.** -/
theorem sim_step {w : World} {s : Server} (a : Act) (hs : Sim w s) :
    Sim (Loop.step w a) (step s a) := by
  have hrun : ¬ w.crashed = true := by rw [hs.base.crashed]; decide
  unfold Loop.step
  rw [if_neg hrun]
  cases a with
  | readable h rs env => exact sim_onReadable h rs (hs.withEnv env)
  | writable h env => exact sim_onWritable h (hs.withEnv env)
  | readTimeout h env => exact sim_onReadTimeout h (hs.withEnv env)
  | writeTimeout h env => exact sim_onWriteTimeout h (hs.withEnv env)
  | reply r rep env => exact sim_onReply r rep (hs.withEnv env)

theorem sim_accepted (cfg : Cfg) (fd : Int) (env : Env) (hfd : 0 < fd) :
    Sim (httpGetRequest cfg fd env) (accepted cfg fd env) := by
  unfold httpGetRequest accepted
  refine sim_openNext ?_ ⟨rfl, rfl, rfl, rfl, rfl, fun _ => rfl, hfd, rfl, rfl⟩
  refine ⟨rfl, rfl, rfl, fun _ => rfl, rfl, rfl, rfl, ?_⟩
  intro h hh
  simp [World.setConn, hh]

end Incoming
end Shs
