import Shs.Incoming.Dispatch

/-!
# Incoming.Lifecycle

The requests and the connection of the server as objects that are allocated and freed. `Ledger`
balances the log against what is live, and says that the requests a module holds are live. Two
things break it: a module that answers `req_cb` before it returns, since `http_handle_request`
writes to the request behind the call, and a request handed out twice (`statEof`).
-/

namespace Shs
namespace Incoming

open Http Loop

/-- The objects are balanced: a request that was allocated is live or has been freed once, the
connection is open or has been freed once. In a run that is to stay `clean`, nothing was used
after it had been freed. -/
structure Ledger (clean : Prop) (s : Server) : Prop where
  reqs : ∀ r, frees (.req r) s.log + (s.live r).toNat = if r < s.nreq then 1 else 0
  conns : frees (.conn 0) s.log + s.conn.isSome.toNat = 1
  others : ∀ h, h ≠ 0 → frees (.conn h) s.log = 0
  ctx : frees .ctx s.log = 0
  nodup : s.pending.Nodup
  held : ∀ r ∈ s.pending, s.live r = true
  noFault : clean → ∀ x, .fault x ∉ s.log

namespace Ledger

variable {clean : Prop} {s : Server}

theorem emit (h : Ledger clean s) {x : Obs} (hx : ∀ y, x ≠ .free y ∧ x ≠ .fault y) :
    Ledger clean (s.emit x) := by
  have hf : ∀ y, frees y (s.emit x).log = frees y s.log := fun y =>
    List.count_cons_of_ne (hx y).1
  refine ⟨fun r => ?_, ?_, fun i hi => ?_, ?_, h.nodup, h.held, fun hcl y hy => ?_⟩
  · rw [hf]; exact h.reqs r
  · rw [hf]; exact h.conns
  · rw [hf]; exact h.others i hi
  · rw [hf]; exact h.ctx
  · rcases List.mem_cons.mp hy with hy | hy
    · exact (hx y).2 hy.symm
    · exact h.noFault hcl y hy

theorem withConn (h : Ledger clean s) (o : Open) (hs : s.conn.isSome = true) :
    Ledger clean { s with conn := some o } :=
  { h with conns := by have := h.conns; rw [hs] at this; exact this }

theorem withEnv (h : Ledger clean s) (e : Env) : Ledger clean { s with env := e } := { h with }

theorem freeReq (h : Ledger clean s) {r : Nat} (hr : s.live r = true) (hp : r ∉ s.pending) :
    Ledger clean (Incoming.freeReq r s) := by
  have hf : ∀ y, frees y (Incoming.freeReq r s).log =
      frees y s.log + if Obj.req r = y then 1 else 0 := fun y => frees_cons _ y s.log
  refine ⟨fun i => ?_, ?_, fun i hi => ?_, ?_, h.nodup, fun i hi => ?_, fun hcl y hy => ?_⟩
  · have hi := h.reqs i
    rw [hf]
    show _ + (if i = r then false else s.live i).toNat = if i < s.nreq then 1 else 0
    by_cases hir : i = r
    · rw [hir, hr] at hi
      simpa [hir] using hi
    · simpa [hir, Ne.symm hir] using hi
  · rw [hf]
    show _ + s.conn.isSome.toNat = 1
    simpa using h.conns
  · rw [hf]; simpa using h.others i hi
  · rw [hf]; simpa using h.ctx
  · have hir : i ≠ r := fun h => hp (h ▸ hi)
    show (if i = r then false else s.live i) = true
    rw [if_neg hir]; exact h.held i hi
  · rcases List.mem_cons.mp hy with hy | hy
    · cases hy
    · exact h.noFault hcl y hy

theorem close (h : Ledger clean s) (hs : s.conn.isSome = true) : Ledger clean (Incoming.close s) := by
  have hf : ∀ y, frees y (Incoming.close s).log =
      frees y s.log + if Obj.conn 0 = y then 1 else 0 := fun y => frees_cons _ y s.log
  have hconns := h.conns
  rw [hs] at hconns
  refine ⟨fun i => ?_, ?_, fun i hi => ?_, ?_, h.nodup, h.held, fun hcl y hy => ?_⟩
  · rw [hf]
    show _ + (s.live i).toNat = if i < s.nreq then 1 else 0
    simpa using h.reqs i
  · rw [hf, if_pos rfl]; exact hconns
  · rw [hf]; simpa [Ne.symm hi] using h.others i hi
  · rw [hf]; simpa using h.ctx
  · rcases List.mem_cons.mp hy with hy | hy
    · cases hy
    · exact h.noFault hcl y hy

/-- A new request is put on the connection. -/
theorem alloc (h : Ledger clean s) (o : Open) (hs : s.conn.isSome = true) :
    Ledger clean { s with
      nreq := s.nreq + 1, live := fun i => if i = s.nreq then true else s.live i,
      conn := some o } := by
  have hnew := h.reqs s.nreq
  simp only [Nat.lt_irrefl, if_false, Nat.add_eq_zero_iff] at hnew
  refine { h.withConn o hs with reqs := fun r => ?_, held := fun r hr => ?_ }
  · have hr := h.reqs r
    by_cases hrn : r = s.nreq
    · simp [hrn, hnew.1]
    · simp only [if_neg hrn, hr]
      by_cases hlt : r < s.nreq
      · simp [hlt, Nat.lt_succ_of_lt hlt]
      · rw [if_neg hlt, if_neg (by omega)]
  · by_cases hrn : r = s.nreq
    · simp [hrn]
    · simp [hrn, h.held r hr]

/-- A request that is not there yet is not held by a module. -/
theorem not_pending_new (h : Ledger clean s) : s.nreq ∉ s.pending := by
  intro hp
  have hnew := h.reqs s.nreq
  rw [h.held _ hp] at hnew
  simp at hnew

theorem hangUp (h : Ledger clean s) {o : Open} (hs : s.conn.isSome = true) (hlive : s.live o.id = true)
    (hp : o.id ∈ s.pending → o.req.userdone = false) (ec : HttpCode) :
    Ledger clean (Incoming.hangUp o ec s) := by
  have h₁ : Ledger clean (s.emit (.connFail 0 ec)) := h.emit fun y => by simp
  unfold Incoming.hangUp
  split
  · rename_i hu
    have hnp : o.id ∉ s.pending := fun hmem => by rw [hp hmem] at hu; cases hu
    exact (h₁.freeReq hlive hnp).close hs
  · exact h₁.close hs

theorem openNext (h : Ledger clean s) (armed : Bool) (c : Conn) (hs : s.conn.isSome = true) :
    Ledger clean (Incoming.openNext armed c s) := by
  unfold Incoming.openNext
  split
  · exact h.close hs
  · simp only
    have h₁ := h.alloc ⟨s.nreq, freshReq, .readingFirstline, armed, nextConn s.env c⟩ hs
    split
    · exact h₁
    · exact (h₁.freeReq (if_pos rfl) h.not_pending_new).close rfl

theorem sendDone (h : Ledger clean s) {o : Open} (hs : s.conn.isSome = true)
    (hlive : s.live o.id = true) (hp : o.id ∉ s.pending) : Ledger clean (Incoming.sendDone o s) := by
  unfold Incoming.sendDone
  split
  · exact (h.freeReq hlive hp).close hs
  · exact (h.freeReq hlive hp).openNext o.armed o.c hs

theorem sentServer (h : Ledger clean s) (t : Sending) (o : Open) (hs : s.conn.isSome = true) :
    Ledger clean (Incoming.sentServer t o s) := by
  have h₁ : Ledger clean { s with env := { s.env with sends := t.sends }, conn := some (sentOpen t o) } :=
    (h.withConn _ hs).withEnv _
  unfold Incoming.sentServer
  simp only
  split
  · exact h₁.emit fun y => by simp
  · exact h₁

/-- A use of a freed object, in a run that need not stay clean. -/
theorem emitFault (h : Ledger clean s) (x : Obj) (hx : ¬ clean) :
    Ledger clean (s.emit (.fault x)) := by
  have hf : ∀ y, frees y (s.emit (.fault x)).log = frees y s.log := fun y =>
    List.count_cons_of_ne (by simp)
  refine ⟨fun r => ?_, ?_, fun i hi => ?_, ?_, h.nodup, h.held, fun hcl => absurd hcl hx⟩
  · rw [hf]; exact h.reqs r
  · rw [hf]; exact h.conns
  · rw [hf]; exact h.others i hi
  · rw [hf]; exact h.ctx

end Ledger

variable {clean : Prop}

theorem sentServer_fields (t : Sending) (o : Open) (s : Server) :
    (sentServer t o s).live = s.live ∧ (sentServer t o s).pending = s.pending ∧
      (sentServer t o s).conn = some (sentOpen t o) := by
  unfold sentServer
  simp only
  split <;> exact ⟨rfl, rfl, rfl⟩

/-- Sending keeps the balance, if a request that a module holds has nothing to send. -/
theorem ledger_writeBuffer {o : Open} {s : Server} (h : Ledger clean s) (hs : s.conn.isSome = true)
    (hlive : s.live o.id = true)
    (hp : o.id ∈ s.pending → o.req.userdone = false ∧ o.req.outBuf.data = []) :
    Ledger clean (writeBuffer o s) := by
  unfold writeBuffer
  simp only
  set t := sendLoop s.env.sends o.req.outBuf.data 0 with ht
  have h₁ := h.sentServer t o hs
  obtain ⟨hl₁, hp₁, hc₁⟩ := sentServer_fields t o s
  have hs₁ : (sentServer t o s).conn.isSome = true := by rw [hc₁]; rfl
  have hlive₁ : (sentServer t o s).live (sentOpen t o).id = true := by rw [hl₁]; exact hlive
  split
  · refine h₁.hangUp hs₁ hlive₁ ?_ _
    rw [hp₁]; exact fun hmem => (hp hmem).1
  · rename_i hret
    split
    · refine h₁.sendDone hs₁ hlive₁ ?_
      rw [hp₁]
      intro hmem
      refine hret (.inl ?_)
      rw [ht, (hp hmem).2, sendLoop_nil_ret]
    · exact h₁.withConn _ hs₁

/-! ## The open connection -/

/-- What holds of the request of an open connection. A request that has been read has property
`P`; one that a module holds has nothing to send; one that is answered while it is still read is
a bad one. -/
structure Held (P : Open → Prop) (s : Server) (o : Open) : Prop where
  id : o.id < s.nreq
  size : 0 < o.req.inBuf.size
  live : s.live o.id = true
  pending : o.id ∈ s.pending →
    o.req.userdone = false ∧ o.req.outBuf.data = [] ∧ o.status.reading = false
  spoiled : o.status.reading = true → o.req.outBuf.data ≠ [] →
    o.req.uri = [] ∧ o.req.kind = .response
  settled : o.status.reading = false → P o

/-- No module gets the request any more, but for an end of file on one of `stat_cb`. -/
def Settled (cfg : Cfg) (o : Open) : Prop :=
  o.req.uri = [] ∨ (isStatUri o.req.uri && cfg.statCb) = true ∨
    cfg.reqCb = false ∧ o.req.userdone = true

theorem Held.same {cfg : Cfg} {s : Server} {o o' : Open} (ho : Held (Settled cfg) s o)
    (hs : Same o o') (e : Env) : Held (Settled cfg) { s with env := e } o' := by
  refine ⟨by rw [hs.id]; exact ho.id, by rw [hs.req]; exact ho.size,
    by rw [hs.id]; exact ho.live, ?_, ?_, ?_⟩
  · rw [hs.id, hs.req, hs.status]; exact ho.pending
  · rw [hs.req, hs.status]; exact ho.spoiled
  · rw [hs.status]
    intro hst
    have := ho.settled hst
    unfold Settled at *
    rw [hs.req]; exact this

structure LifeInv (clean : Prop) (P : Open → Prop) (s : Server) : Prop where
  ledger : Ledger clean s
  held : ∀ o, s.conn = some o → Held P s o

/-- A property that sending on the connection keeps. -/
def Steady (P : Open → Prop) : Prop :=
  ∀ o o' : Open, o'.id = o.id → o'.status = o.status → o'.req.uri = o.req.uri →
    (o.req.userdone = true → o'.req.userdone = true) → P o → P o'

theorem steady_settled (cfg : Cfg) : Steady (Settled cfg) := by
  intro o o' _ _ huri hu h
  unfold Settled at *
  rw [huri]
  exact h.imp id fun h => h.imp id fun h => ⟨h.1, hu h.2⟩

theorem steady_like (o : Open) : Steady (Like o) := fun o₁ o₂ hid hst huri _ =>
  stable_like o o₁ o₂ hid hst huri

theorem LifeInv.shut {P : Open → Prop} {s : Server} (h : Ledger clean s) (hs : s.conn = none) :
    LifeInv clean P s :=
  ⟨h, fun o ho => by rw [hs] at ho; cases ho⟩

theorem LifeInv.opened {P : Open → Prop} {s : Server} {o : Open} (h : Ledger clean s)
    (hs : s.conn = some o) (ho : Held P s o) : LifeInv clean P s :=
  ⟨h, fun o' ho' => by rw [hs, Option.some.injEq] at ho'; rw [← ho']; exact ho⟩

theorem life_writeBuffer {P : Open → Prop} (hP : Steady P) {o : Open} {s : Server} (h : Ledger clean s)
    (hs : s.conn.isSome = true) (ho : Held P s o) : LifeInv clean P (writeBuffer o s) := by
  have h' := ledger_writeBuffer h hs ho.live fun hmem =>
    ⟨(ho.pending hmem).1, (ho.pending hmem).2.1⟩
  obtain ⟨hf, hsent⟩ := sent_writeBuffer o s ho.id
  cases hsent with
  | closed _ hconn _ => exact .shut h' hconn
  | next _ _ _ c hconn hnreq hlive _ =>
    have hsize : 0 < freshReq.inBuf.size := by decide
    refine .opened h' hconn ⟨by rw [hnreq]; exact Nat.lt_succ_self _, hsize, hlive, ?_, ?_, ?_⟩
    · intro hmem
      rw [hf.pending] at hmem
      exact absurd hmem h.not_pending_new
    · intro _ hne; exact absurd rfl hne
    · intro hst; cases hst
  | blocked hret c hconn hlive hnreq =>
    have hout : o.req.outBuf.data ≠ [] := by
      intro hnil
      simp only [sending, hnil, sendLoop_nil_ret] at hret
      exact absurd hret.1 (by decide)
    refine .opened h' hconn ⟨by rw [hnreq]; exact ho.id, ho.size, by rw [hlive]; exact ho.live, ?_,
      fun hst _ => ho.spoiled hst hout, fun hst => ?_⟩
    · intro hmem
      rw [hf.pending] at hmem
      exact absurd (ho.pending hmem).2.1 hout
    · exact hP o _ rfl rfl rfl id (ho.settled hst)

/-- A message is made of the request, which no module holds. -/
theorem life_send {P : Open → Prop} (hP : Steady P) {make : HttpReq → HttpReq} {o : Open}
    {s : Server} (h : Ledger clean s) (hs : s.conn.isSome = true) (hid : o.id < s.nreq)
    (hsize : 0 < o.req.inBuf.size) (hlive : s.live o.id = true) (hnp : o.id ∉ s.pending)
    (hm : (make o.req).links = o.req.links ∧ (make o.req).userdone = true ∧
      (make o.req).kind = .response)
    (huri : o.status.reading = true → o.req.uri = [])
    (hst : o.status.reading = false → P { o with req := make o.req }) :
    LifeInv clean P (send make o s) := by
  have hl := hm.1
  simp only [HttpReq.links, Prod.mk.injEq] at hl
  refine life_writeBuffer hP h hs (o := { o with req := make o.req })
    ⟨hid, by rw [hl.2.2.2.1]; exact hsize, hlive, fun hmem => absurd hmem hnp, ?_, hst⟩
  exact fun hr _ => ⟨by rw [hl.2.2.2.2.1]; exact huri hr, hm.2.2⟩

theorem uri_links {q q' : HttpReq} (h : q'.links = q.links) : q'.uri = q.uri := by
  simp only [HttpReq.links, Prod.mk.injEq] at h
  exact h.2.2.2.2.1

theorem makeAnswer_fields (cfg : WriteCfg) (rep : Reply) (q : HttpReq) :
    (makeReply cfg (addReplyHeaders q rep.headers) rep).links = q.links ∧
      (makeReply cfg (addReplyHeaders q rep.headers) rep).userdone = true ∧
      (makeReply cfg (addReplyHeaders q rep.headers) rep).kind = .response := by
  obtain ⟨-, hu, hk, -⟩ := makeSend_fields cfg
    (httpResponseCode (addReplyHeaders q rep.headers) rep.code rep.reason) rep.data
  exact ⟨links_answer cfg rep q, hu, hk⟩

/-! ## Dispatch -/

/-- What the functions behind a read event get. -/
structure ReadIn (s : Server) (o : Open) : Prop where
  id : o.id < s.nreq
  size : 0 < o.req.inBuf.size
  live : s.live o.id = true
  pending : o.id ∈ s.pending →
    o.req.userdone = false ∧ o.status = .disconnected ∧ o.req.uri = []
  reading : o.status.reading = true → o.req.uri = []
  fresh : o.req.uri ≠ [] →
    (isStatUri o.req.uri && s.cfg.statCb) = true ∨ s.cfg.reqCb = true → o.req.outBuf.data = []

theorem life_callModule (stat : Bool) {o : Open} {s : Server} (h : Ledger clean s)
    (hid : o.id < s.nreq) (hsize : 0 < o.req.inBuf.size) (hlive : s.live o.id = true)
    (hs : s.conn.isSome = true) (hnp : o.id ∉ s.pending) (hu : o.req.userdone = false)
    (hout : o.req.outBuf.data = []) (hst : o.status.reading = false) :
    LifeInv clean (Like o) (callModule stat o s) := by
  have h₁ : Ledger clean ({ s with conn := some o }.emit (.dispatch stat o.id o.req)) :=
    (h.withConn o hs).emit fun y => by simp
  unfold callModule
  simp only
  split
  · refine .opened { h₁ with nodup := List.nodup_cons.mpr ⟨hnp, h.nodup⟩, held := ?_ } rfl
      ⟨hid, hsize, hlive, fun _ => ⟨hu, hout, hst⟩, fun hr => ?_, fun _ => ⟨rfl, rfl, rfl⟩⟩
    · intro r hr
      rcases List.mem_cons.mp hr with hr | hr
      · rw [hr]; exact hlive
      · exact h.held r hr
    · rw [hst] at hr; cases hr
  · refine life_send (steady_like o) h₁ rfl hid hsize hlive hnp (makeAnswer_fields _ _ _) ?_
      fun _ => ⟨rfl, rfl, ?_⟩
    · intro hr; rw [hst] at hr; cases hr
    · exact uri_links (makeAnswer_fields _ _ _).1

/-- A module that answers before it returns leaves the request on the connection only if the
answer has to wait. -/
theorem live_callModule {stat : Bool} {o : Open} {s : Server} (hid : o.id < s.nreq)
    (hlive : s.live o.id = true)
    (hok : ∀ rep, s.env.module = some rep →
      ¬ (0 ≤ (sendLoop s.env.sends (makeReply s.writeCfg
          (addReplyHeaders o.req rep.headers) rep).outBuf.data 0).ret ∨
        (sendLoop s.env.sends (makeReply s.writeCfg
          (addReplyHeaders o.req rep.headers) rep).outBuf.data 0).ret = SHS_ERROR)) :
    (callModule stat o s).live o.id = true := by
  unfold callModule
  simp only
  split
  · exact hlive
  · rename_i rep hrep
    have hno := hok rep hrep
    obtain ⟨-, hsent⟩ := sent_writeBuffer
      { o with req := makeReply s.writeCfg (addReplyHeaders o.req rep.headers) rep }
      ({ s with conn := some o }.emit (.dispatch stat o.id o.req)) hid
    cases hsent with
    | closed hret _ _ => exact absurd hret hno
    | next hret _ _ _ _ _ _ _ => exact absurd (.inl (Int.le_of_lt hret)) hno
    | blocked _ _ _ hl _ =>
      refine Eq.trans ?_ hlive
      exact congrFun hl o.id

theorem life_clearUri {o : Open} {s : Server} (hlive : clean → s.live o.id = true)
    (h : LifeInv clean (Like o) s) : LifeInv clean (Settled s.cfg) (clearUri o.id s) := by
  set s₁ : Server := if s.live o.id then s else s.emit (.fault (.req o.id)) with hs₁
  have h₁ : Ledger clean s₁ ∧ s₁.conn = s.conn ∧ s₁.nreq = s.nreq ∧ s₁.live = s.live ∧
      s₁.pending = s.pending := by
    rw [hs₁]
    split
    · exact ⟨h.ledger, rfl, rfl, rfl, rfl⟩
    · rename_i hdead
      exact ⟨h.ledger.emitFault _ fun hcl => hdead (hlive hcl), rfl, rfl, rfl, rfl⟩
  obtain ⟨hledger, hconn, hnreq, hl, hpend⟩ := h₁
  have hcl : clearUri o.id s = { s₁ with conn := s₁.conn.map fun o' =>
      if o'.id = o.id then { o' with req := { o'.req with uri := [] } } else o' } := rfl
  rw [hcl]
  refine ⟨{ hledger with conns := by simpa using hledger.conns }, fun o' ho' => ?_⟩
  simp only [hconn, Option.map_eq_some_iff] at ho'
  obtain ⟨o₁, ho₁, rfl⟩ := ho'
  have hh := h.held o₁ ho₁
  have hpending : o₁.id ∈ s₁.pending →
      o₁.req.userdone = false ∧ o₁.req.outBuf.data = [] ∧ o₁.status.reading = false := by
    rw [hpend]; exact hh.pending
  by_cases hid : o₁.id = o.id
  · rw [if_pos hid]
    exact ⟨by rw [hnreq]; exact hh.id, hh.size, by rw [hl]; exact hh.live, hpending,
      fun hr hne => ⟨rfl, (hh.spoiled hr hne).2⟩, fun _ => .inl rfl⟩
  · rw [if_neg hid]
    exact ⟨by rw [hnreq]; exact hh.id, hh.size, by rw [hl]; exact hh.live, hpending, hh.spoiled,
      fun hr => absurd (hh.settled hr).1 hid⟩

/-- The module of `req_cb` answers request `q` before it returns, and the answer is sent, or
fails, at once. -/
def answersAtOnce (cfg : Cfg) (env : Env) (q : HttpReq) : Bool :=
  !q.uri.isEmpty && !(isStatUri q.uri && cfg.statCb) && cfg.reqCb &&
    match env.module with
    | none => false
    | some rep =>
      let q := makeReply ⟨cfg.disableHttpKeepalive, env.date⟩
        (addReplyHeaders { q with userdone := false } rep.headers) rep
      let t := sendLoop env.sends q.outBuf.data 0
      decide (0 ≤ t.ret ∨ t.ret = SHS_ERROR)

theorem life_handle {o : Open} {s : Server} (h : Ledger clean s) (hs : s.conn.isSome = true)
    (ho : ReadIn s o) (hok : clean → answersAtOnce s.cfg s.env o.req = false) :
    LifeInv clean (Settled s.cfg) (handle o s) := by
  unfold handle
  split
  · rename_i huri
    have huri : o.req.uri = [] := List.eq_nil_of_length_eq_zero huri
    split
    · exact .shut (h.hangUp hs ho.live (fun hmem => (ho.pending hmem).1) _) (hangUp_conn _ _ _)
    · rename_i hst
      refine life_send (steady_settled s.cfg) h hs ho.id ho.size ho.live ?_
        (makePage_fields _ _ _) (fun _ => huri)
        fun _ => .inl ((uri_links (links_makeError _ _ _ _)).trans huri)
      exact fun hmem => hst (ho.pending hmem).2.1
  · rename_i huri
    have huri : o.req.uri ≠ [] := fun h => huri (by rw [h]; rfl)
    have hnp : o.id ∉ s.pending := fun hmem => huri (ho.pending hmem).2.2
    have hst : o.status.reading = false := by
      cases hr : o.status.reading with
      | false => rfl
      | true => exact absurd (ho.reading hr) huri
    simp only
    split
    · rename_i hstat
      have h₁ := life_callModule true (o := { o with req := { o.req with userdone := false } }) h
        ho.id ho.size ho.live hs hnp rfl (ho.fresh huri (.inl hstat)) hst
      refine ⟨h₁.ledger, fun o' ho' => ?_⟩
      have hh := h₁.held o' ho'
      refine { hh with settled := fun hr => .inr (.inl ?_) }
      rw [(hh.settled hr).2.2]; exact hstat
    · rename_i hstat
      split
      · rename_i hreq
        have h₁ := life_callModule false (o := { o with req := { o.req with userdone := false } }) h
          ho.id ho.size ho.live hs hnp rfl (ho.fresh huri (.inr hreq)) hst
        have hlive : clean →
            (callModule false { o with req := { o.req with userdone := false } } s).live o.id =
              true := by
          intro hcl
          refine live_callModule ho.id ho.live fun rep hrep => ?_
          have hok := hok hcl
          have hne : o.req.uri.isEmpty = false := by simpa using huri
          simp only [answersAtOnce, hne, Bool.eq_false_iff.mpr hstat, hreq, hrep, Bool.not_false,
            Bool.true_and] at hok
          exact of_decide_eq_false hok
        have := life_clearUri hlive h₁
        rwa [cfg_callModule] at this
      · rename_i hreq
        have hsend : ∀ make : HttpReq → HttpReq, send make
            { o with req := { o.req with userdone := false } } s =
            send (fun q => make { q with userdone := false }) o s := fun _ => rfl
        rw [hsend]
        have hpage := makePage_fields s.writeCfg (httpResponseCode
          { o.req with userdone := false } 404 (str "Not Found"))
        refine life_send (steady_settled s.cfg) h hs ho.id ho.size ho.live hnp (hpage _) ?_ ?_
        · intro hr; rw [hst] at hr; cases hr
        · exact fun _ => .inr (.inr ⟨by simpa using hreq, (hpage _).2.1⟩)

/-! ## Steps and runs -/

theorem life_readHandler {o : Open} {s : Server} (h : Ledger clean s) (hs : s.conn.isSome = true)
    (ho : Held (Settled s.cfg) s o)
    (hstat : o.status.reading = false → o.req.inBuf.data = [] → o.c.rcvq.head? = some .eof →
      (isStatUri o.req.uri && s.cfg.statCb) = false)
    (hsync : clean → (connRead (o.c.read.active && o.c.read.ready) o.reader).2 = .done →
      answersAtOnce s.cfg s.env
        (connRead (o.c.read.active && o.c.read.ready) o.reader).1.req = false) :
    LifeInv clean (Settled s.cfg) (readHandler o s) := by
  have hr := reads_connRead (o.c.read.active && o.c.read.ready) o.reader ho.size
  have hk := kept_connRead (o.c.read.active && o.c.read.ready) o.reader
  obtain ⟨o', hread, hmove⟩ := readHandler_cases o s ho.size
  generalize connRead (o.c.read.active && o.c.read.ready) o.reader = out at *
  have hid : o'.id < s.nreq := by rw [hread.id]; exact ho.id
  have hsize : 0 < o'.req.inBuf.size := by rw [hread.req, hr.size]; exact ho.size
  have hlive : s.live o'.id = true := by rw [hread.id]; exact ho.live
  have hud : o'.req.userdone = o.req.userdone := by rw [hread.req]; exact hk.userdone
  have hout : o'.req.outBuf = o.req.outBuf := by rw [hread.req]; exact hk.outBuf
  -- a bad request stays one
  have hbad : o.status.reading = true → o.req.outBuf.data ≠ [] →
      o'.req.uri = [] ∧ o'.req.kind = .response := by
    intro hst hne
    obtain ⟨hu, hkind⟩ := ho.spoiled hst hne
    rw [hread.req]
    exact ⟨(hr.uri (.inr hkind)).trans hu, hk.kind.trans hkind⟩
  cases hmove with
  | quiet hv hq =>
    rw [hq]
    have hst : o'.status.reading = o.status.reading := by rw [hread.status]; exact hr.quiet hv
    refine .opened (h.withConn o' hs) rfl ⟨hid, hsize, hlive, ?_, ?_, ?_⟩
    · intro hmem
      rw [hud, hout, hst]
      exact ho.pending (by rw [← hread.id]; exact hmem)
    · intro hst' hne
      rw [hst] at hst'
      rw [hout] at hne
      exact hbad hst' hne
    · intro hst'
      rw [hst] at hst'
      have hu : o'.req.uri = o.req.uri := by rw [hread.req]; exact (hr.idle hst').2.1
      have hset := ho.settled hst'
      unfold Settled at hset ⊢
      rw [hu, hud]; exact hset
  | broken hv hq =>
    rw [hq]
    refine .shut (h.hangUp hs hlive (fun hmem => ?_) _) (hangUp_conn _ _ _)
    rw [hud]
    exact (ho.pending (by rw [← hread.id]; exact hmem)).1
  | invalid ec hec hv hq =>
    rw [hq]
    obtain ⟨hst, -⟩ := hr.invalid hec hv
    have hst : o.status.reading = true := hst
    refine life_handle (o := { o' with req := { o'.req with uri := [] } })
      (h.emit fun y => by simp) hs
      ⟨hid, hsize, hlive, fun hmem => ?_, fun _ => rfl, fun hne => absurd rfl hne⟩
      fun _ => rfl
    have hp := (ho.pending (by rw [← hread.id]; exact hmem)).2.2
    rw [hst] at hp; cases hp
  | done hv hq =>
    rw [hq]
    obtain ⟨hid', hreq', -, hst', hdis'⟩ := doneOpen_fields o'
    refine life_handle (o := doneOpen o') h hs ?_ fun hcl => (by rw [hreq', hread.req]; exact hsync hcl hv)
    refine ⟨by rw [hid']; exact hid, by rw [hreq']; exact hsize, by rw [hid']; exact hlive, ?_, ?_,
      ?_⟩
    · rw [hid', hread.id, hreq']
      intro hmem
      obtain ⟨hu, -, hst⟩ := ho.pending hmem
      obtain ⟨-, huri, hend⟩ := hr.idle hst
      obtain ⟨hdis, hbuf, hhead⟩ := hend hv
      refine ⟨hud.trans hu, hdis' (by rw [hread.status]; exact hdis), ?_⟩
      rw [hread.req, huri]
      rcases ho.settled hst with h₁ | h₁ | h₁
      · exact h₁
      · rw [hstat hst hbuf hhead] at h₁; cases h₁
      · rw [hu] at h₁; cases h₁.2
    · intro hr'; rw [hst'] at hr'; cases hr'
    · rw [hreq']
      intro hne hcb
      rw [hout]
      cases hst : o.status.reading with
      | true =>
        by_contra hout'
        exact hne (hbad hst hout').1
      | false =>
        obtain ⟨-, huri, hend⟩ := hr.idle hst
        obtain ⟨-, hbuf, hhead⟩ := hend hv
        have huri : o'.req.uri = o.req.uri := by rw [hread.req]; exact huri
        have hno := hstat hst hbuf hhead
        rw [huri] at hne hcb
        rcases ho.settled hst with h₁ | h₁ | h₁
        · exact absurd h₁ hne
        · rw [hno] at h₁; cases h₁
        · rcases hcb with h₂ | h₂
          · rw [hno] at h₂; cases h₂
          · rw [h₁.1] at h₂; cases h₂

theorem life_answerDetached {P : Open → Prop} {r : Nat} {s : Server} (h : LifeInv clean P s)
    (hr : s.live r = true) (hp : r ∉ s.pending) (hne : ∀ o, s.conn = some o → o.id ≠ r) :
    LifeInv clean P (answerDetached r s) := by
  unfold answerDetached
  rw [if_pos hr]
  refine ⟨h.ledger.freeReq hr hp, fun o ho => ?_⟩
  have hh := h.held o ho
  refine { hh with live := ?_ }
  show (if o.id = r then false else s.live o.id) = true
  rw [if_neg (hne o ho)]; exact hh.live

/-- The module answers a request and holds it no more. -/
theorem Ledger.answered {s : Server} (h : Ledger clean s) (e : Env) (r : Nat) :
    Ledger clean { s with env := e, pending := s.pending.erase r } :=
  { h with
    nodup := h.nodup.erase r
    held := fun i hi => h.held i (List.mem_of_mem_erase hi) }

/-- Whether a step makes `http_handle_request` write to a request its module has answered. -/
def Open.syncAnswer (cfg : Cfg) (o : Open) : Act → Bool
  | .readable h rs env =>
    h == 0 && delivered o.c o.c.read &&
      let out := connRead true ⟨o.req, o.status, o.c.rcvq ++ rs⟩
      decide (out.2 = .done) && answersAtOnce cfg env out.1.req
  | _ => false

/-- **One step keeps the balance.** -/
theorem life_step {s : Server} {a : Act} (h : LifeInv clean (Settled s.cfg) s)
    (hstat : ∀ o, s.conn = some o → o.statEof s.cfg a = false)
    (hsync : clean → ∀ o, s.conn = some o → o.syncAnswer s.cfg a = false) :
    LifeInv clean (Settled s.cfg) (step s a) := by
  cases hconn : s.conn with
  | none =>
    rcases step_shut hconn a with ⟨e, he⟩ | ⟨r, rep, e, -, hr, he⟩
    · rw [he]; exact .shut (h.ledger.withEnv e) hconn
    · rw [he]
      refine life_answerDetached (.shut (h.ledger.answered e r) hconn) (h.ledger.held r hr) ?_ ?_
      · exact fun hmem => absurd (h.ledger.nodup.mem_erase_iff.mp hmem).1 (fun h => h rfl)
      · intro o ho
        have ho : s.conn = some o := ho
        rw [hconn] at ho; cases ho
  | some o =>
    have ho := h.held o hconn
    have hs : s.conn.isSome = true := by rw [hconn]; rfl
    cases step_turn hconn a with
    | idle o' e hsame he =>
      rw [he]
      exact .opened ((h.ledger.withConn o' hs).withEnv e) rfl { ho.same hsame e with }
    | read rs e o' ha hd hsame hq hready he =>
      rw [he]
      have hst := hstat o hconn
      rw [ha] at hst
      refine life_readHandler (s := { s with env := e }) (h.ledger.withEnv e) hs (ho.same hsame e) ?_ ?_
      · exact Open.statEof_false hst hd hsame hq
      · rw [hready]
        have hreader : o'.reader = ⟨o.req, o.status, o.c.rcvq ++ rs⟩ := by
          simp only [Open.reader, hsame.req, hsame.status, hq]
        rw [hreader]
        intro hcl hv
        have hsy := hsync hcl o hconn
        rw [ha] at hsy
        simpa only [Open.syncAnswer, beq_self_eq_true, hd, hv, decide_true, Bool.true_and] using hsy
    | write e o' ha hsame harmed he =>
      rw [he]
      have ho' := ho.same hsame e
      unfold writeHandler
      split
      · exact .shut ((h.ledger.withEnv e).hangUp hs ho'.live (fun hmem => (ho'.pending hmem).1) _)
          (hangUp_conn _ _ _)
      · refine life_writeBuffer (steady_settled s.cfg) (h.ledger.withEnv e) hs ?_
        exact ⟨ho'.id, ho'.size, ho'.live, ho'.pending, ho'.spoiled, ho'.settled⟩
    | reply rep e ha hr he =>
      rw [he]
      obtain ⟨hu, -, hst⟩ := ho.pending hr
      refine life_send (steady_settled s.cfg) (h.ledger.answered e o.id) hs ho.id ho.size ho.live
        (fun hmem => absurd (h.ledger.nodup.mem_erase_iff.mp hmem).1 (fun h => h rfl))
        (makeAnswer_fields _ rep _) ?_ ?_
      · intro hr'; rw [hst] at hr'; cases hr'
      · intro _
        refine steady_settled s.cfg o _ rfl rfl (uri_links (makeAnswer_fields _ rep _).1)
          (fun _ => (makeAnswer_fields _ rep _).2.1) (ho.settled hst)
    | detached r rep e ha hr hne he =>
      rw [he]
      refine life_answerDetached (.opened (h.ledger.answered e r) hconn ?_) (h.ledger.held r hr)
        ?_ ?_
      · refine { ho with pending := fun hmem => ho.pending (List.mem_of_mem_erase hmem) }
      · exact fun hmem => absurd (h.ledger.nodup.mem_erase_iff.mp hmem).1 (fun h => h rfl)
      · intro o' ho'
        have ho' : s.conn = some o' := ho'
        rw [hconn, Option.some.injEq] at ho'
        rw [← ho']; exact Ne.symm hne

theorem life_accepted (cfg : Cfg) (fd : Int) (env : Env) :
    LifeInv clean (Settled cfg) (accepted cfg fd env) := by
  set o₀ : Open := ⟨0, freshReq, .readingFirstline, false, connSetDefault fd⟩
  set s₀ : Server :=
    { cfg := cfg, conn := some o₀, nreq := 0, live := fun _ => false, pending := [], env := env,
      log := [] } with hs₀
  have h₀ : Ledger clean s₀ :=
    ⟨fun r => rfl, rfl, fun _ _ => rfl, rfl, List.nodup_nil, by simp [hs₀], by simp [hs₀]⟩
  -- `openNext` does not look at the connection the machine had
  have hacc : accepted cfg fd env = openNext false (connSetDefault fd) s₀ := by
    unfold accepted openNext
    rfl
  have h := h₀.openNext false (connSetDefault fd) rfl
  obtain ⟨-, hpend, -, -, hconn⟩ := openNext_cases false (connSetDefault fd) s₀
  rw [hacc]
  rcases hconn with ⟨hconn, -⟩ | ⟨hconn, hnreq, hlive, -⟩
  · exact .shut h hconn
  · have hsize : 0 < freshReq.inBuf.size := by decide
    refine .opened h hconn ⟨by rw [hnreq]; exact Nat.lt_succ_self _, hsize, hlive, ?_, ?_, ?_⟩
    · intro hmem; rw [hpend] at hmem; cases hmem
    · intro _ hne; exact absurd rfl hne
    · intro hst; cases hst

/-- `syncAnswer` on the heap: a read event completes a request for `req_cb`, and the module
answers it before it returns, and the answer is sent, or fails, at once. -/
def syncAnswer (w : World) : Act → Bool
  | .readable h rs env =>
    h == 0 && delivered (w.conns 0).c (w.conns 0).c.read &&
      match (w.conns 0).req with
      | none => false
      | some r =>
        let out := connRead true ⟨w.reqs r, (w.conns 0).status, (w.conns 0).c.rcvq ++ rs⟩
        decide (out.2 = .done) && answersAtOnce w.cfg env out.1.req
  | _ => false

theorem syncAnswer_link {w : World} {s : Server} {o : Open} (hs : Sim w s) (ho : s.conn = some o)
    (a : Act) : syncAnswer w a = o.syncAnswer s.cfg a := by
  have hl := hs.link o ho
  cases a with
  | readable h rs e =>
    simp only [syncAnswer, Open.syncAnswer, hl.req, hl.c, hl.status, hl.reqs, hs.base.cfg]
  | _ => rfl

/-- No object of the server is freed twice or used after it was freed, as long as no read event
is a `statEof` or a `syncAnswer`. -/
theorem server_lifecycle (cfg : Cfg) (fd : Int) (env : Env) (hfd : 0 < fd) (as : List Act)
    (h : Run.Meets Loop.step (fun w a => statEof w a = false ∧ syncAnswer w a = false)
      (httpGetRequest cfg fd env) as) (x : Obj) :
    frees x (Run.exec Loop.step (httpGetRequest cfg fd env) as).log ≤ 1 ∧
      .fault x ∉ (Run.exec Loop.step (httpGetRequest cfg fd env) as).log := by
  have hinv : ∃ s, Sim (Run.exec Loop.step (httpGetRequest cfg fd env) as) s ∧ s.cfg = cfg ∧
      LifeInv True (Settled cfg) s := by
    refine Run.invariant Loop.step (I := fun w => ∃ s, Sim w s ∧ s.cfg = cfg ∧
      LifeInv True (Settled cfg) s) ?_ ?_ h
    · exact ⟨_, sim_accepted cfg fd env hfd, cfg_accepted cfg fd env, life_accepted cfg fd env⟩
    · rintro w a ⟨s, hs, rfl, ho⟩ ⟨hstat, hsync⟩
      refine ⟨_, sim_step a hs, cfg_step s a, life_step ho (fun o hconn => ?_) fun _ o hconn => ?_⟩
      · rw [← statEof_link hs hconn]; exact hstat
      · rw [← syncAnswer_link hs hconn]; exact hsync
  obtain ⟨s, hs, -, ho⟩ := hinv
  rw [hs.base.log]
  refine ⟨?_, ho.ledger.noFault trivial x⟩
  cases x with
  | req r =>
    have := ho.ledger.reqs r
    split at this <;> omega
  | conn h =>
    by_cases hh : h = 0
    · have := ho.ledger.conns
      rw [hh]; omega
    · rw [ho.ledger.others h hh]; exact Nat.zero_le 1
  | ctx => rw [ho.ledger.ctx]; exact Nat.zero_le 1

end Incoming
end Shs
