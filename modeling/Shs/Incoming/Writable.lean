import Shs.Incoming.Lifecycle

/-!
# Incoming.Writable

Write events of a connection that has nothing to send. `http_write_buffer` arms
`conn_write_handler` when a send has to wait, and `http_send_done` does not disarm it. So the
handler stays armed exactly when a response that had to wait is finished on a connection that is
kept alive, and the next write event finds an empty output and fails the connection.
`writable_harmless` shows that no other write event does harm.
-/

namespace Shs
namespace Incoming

open Http Loop

/-! ## Sends -/

/-- A send that waits or fails leaves bytes behind. -/
theorem sending_unsent {o : Open} {s : Server} (hne : o.req.outBuf.data ≠ [])
    (hlen : o.req.outBuf.data.length < 2 ^ 31) (hret : (sending o s).ret ≤ 0) :
    (sending o s).unsent ≠ [] := by
  intro h
  have hpos := List.length_pos_of_ne_nil hne
  have hall : (sendLoop s.env.sends o.req.outBuf.data 0).ret =
      (0 + o.req.outBuf.data.length : Nat) := sendLoop_complete (by omega) h
  have hret' : (sendLoop s.env.sends o.req.outBuf.data 0).ret ≤ 0 := hret
  rw [hall] at hret'
  omega

/-! ## The log -/

/-- Every `http_conn_fail` with `HTTP_CODE_WRITE_EOF` comes right behind a `send` that failed or
took nothing. -/
def Justified (log : List Obs) : Prop :=
  ∀ h older, .connFail h .writeEof :: older <:+ log → older.head? = some (.sendFail h)

theorem Justified.cons {log : List Obs} (hj : Justified log) {x : Obs}
    (hx : ∀ h, x = .connFail h .writeEof → log.head? = some (.sendFail h)) :
    Justified (x :: log) := by
  intro h older hs
  rcases List.suffix_cons_iff.mp hs with heq | hs
  · simp only [List.cons.injEq] at heq
    rw [heq.2]; exact hx h heq.1.symm
  · exact hj h older hs

theorem justified_hangUp {o : Open} {ec : HttpCode} {s : Server} (hj : Justified s.log)
    (hec : ec = .writeEof → s.log.head? = some (.sendFail 0)) :
    Justified (hangUp o ec s).log := by
  have h₁ : Justified (.connFail 0 ec :: s.log) := hj.cons fun h hx => by
    simp only [Obs.connFail.injEq] at hx
    rw [← hx.1]; exact hec hx.2
  unfold hangUp
  split
  · exact (h₁.cons fun h hx => by cases hx).cons fun h hx => by cases hx
  · exact h₁.cons fun h hx => by cases hx

theorem justified_openNext {armed : Bool} {c : Conn} {s : Server} (hj : Justified s.log) :
    Justified (openNext armed c s).log := by
  unfold openNext
  split
  · exact hj.cons fun h hx => by cases hx
  · simp only
    split
    · exact hj
    · exact (hj.cons fun h hx => by cases hx).cons fun h hx => by cases hx

theorem justified_sendDone {o : Open} {s : Server} (hj : Justified s.log) :
    Justified (sendDone o s).log := by
  have h₁ : Justified (freeReq o.id s).log := hj.cons fun h hx => by cases hx
  unfold sendDone
  split
  · exact h₁.cons fun h hx => by cases hx
  · exact justified_openNext h₁

theorem justified_writeBuffer {o : Open} {s : Server} (hj : Justified s.log)
    (hne : o.req.outBuf.data ≠ []) (hlen : o.req.outBuf.data.length < 2 ^ 31) :
    Justified (writeBuffer o s).log := by
  have hun := sending_unsent (s := s) hne hlen
  unfold writeBuffer
  simp only
  change (sendLoop s.env.sends o.req.outBuf.data 0).ret ≤ 0 →
    (sendLoop s.env.sends o.req.outBuf.data 0).unsent ≠ [] at hun
  generalize sendLoop s.env.sends o.req.outBuf.data 0 = t at hun ⊢
  split
  · rename_i hret
    have hleft : t.unsent ≠ [] := by
      refine hun ?_
      rcases hret with h | h
      · rw [h]
      · rw [h]
        decide
    have hlog : (sentServer t o s).log = .sendFail 0 :: s.log := by
      unfold sentServer
      simp only
      rw [if_pos ⟨hleft, hret⟩]
      rfl
    refine justified_hangUp ?_ fun _ => by rw [hlog]; rfl
    rw [hlog]
    exact hj.cons fun h hx => by cases hx
  · rename_i hret
    have hlog : (sentServer t o s).log = s.log := by
      unfold sentServer
      simp only
      rw [if_neg fun h => hret h.2]
    split
    · exact justified_sendDone (by rw [hlog]; exact hj)
    · show Justified (sentServer t o s).log
      rw [hlog]; exact hj

/-! ## The open connection -/

/-- The table a page is made with: nothing has been put into it, or a page has been. -/
def PageTable (q : HttpReq) : Prop :=
  q.outputHeaders = initHeaders ∧ q.outBuf.data = [] ∨ ClosedTable q.outputHeaders

/-- The write handler of connection `o` is armed only while bytes are left to send. -/
structure Calm (P : Open → Prop) (o : Open) : Prop where
  armed : o.armed = true → o.req.outBuf.data ≠ []
  short : o.req.outBuf.data.length < 2 ^ 31
  table : o.status.reading = true → PageTable o.req
  settled : o.status.reading = false → P o

structure CalmInv (P : Open → Prop) (s : Server) : Prop where
  log : Justified s.log
  conn : ∀ o, s.conn = some o → Calm P o

/-- What a page can still be made of, when a request has been read. -/
def Answered (cfg : Cfg) (o : Open) : Prop :=
  o.req.uri = [] ∨ (isStatUri o.req.uri && cfg.statCb) = true ∨ PageTable o.req

/-- A property that `conn_send` does not change, when there is something to send. -/
def Fixed (P : Open → Prop) : Prop :=
  ∀ o o' : Open, o'.id = o.id → o'.status = o.status → o'.req.uri = o.req.uri →
    o'.req.outputHeaders = o.req.outputHeaders → o.req.outBuf.data ≠ [] → P o → P o'

theorem fixed_answered (cfg : Cfg) : Fixed (Answered cfg) := by
  intro o o' _ _ huri htab hne h
  unfold Answered PageTable at *
  rw [huri, htab]
  exact h.imp id fun h => h.imp id fun h => .inr (h.resolve_left fun h => hne h.2)

theorem fixed_like (o : Open) : Fixed (Like o) := fun o₁ o₂ hid hst huri _ _ =>
  stable_like o o₁ o₂ hid hst huri

theorem CalmInv.shut {P : Open → Prop} {s : Server} (h : Justified s.log) (hs : s.conn = none) :
    CalmInv P s :=
  ⟨h, fun o ho => by rw [hs] at ho; cases ho⟩

theorem CalmInv.opened {P : Open → Prop} {s : Server} {o : Open} (h : Justified s.log)
    (hs : s.conn = some o) (ho : Calm P o) : CalmInv P s :=
  ⟨h, fun o' ho' => by rw [hs, Option.some.injEq] at ho'; rw [← ho']; exact ho⟩

/-- Sending leaves the handler armed only if bytes are left, unless a response that had to wait is
finished and the connection kept. -/
theorem calm_writeBuffer {P : Open → Prop} (hP : Fixed P) {o : Open} {s : Server}
    (hj : Justified s.log) (hid : o.id < s.nreq) (hne : o.req.outBuf.data ≠ [])
    (hlen : o.req.outBuf.data.length < 2 ^ 31)
    (htab : o.status.reading = true → PageTable o.req) (hst : o.status.reading = false → P o)
    (hkeep : o.armed = true → 0 < (sending o s).ret → needClose s.writeCfg o.req = false →
      s.env.reqAlloc = true → False) :
    CalmInv P (writeBuffer o s) := by
  have hj' := justified_writeBuffer hj hne hlen
  obtain ⟨-, hsent⟩ := sent_writeBuffer o s hid
  cases hsent with
  | closed _ hconn _ => exact .shut hj' hconn
  | next hret hnc hal c hconn _ _ _ =>
    refine .opened hj' hconn ⟨fun harm => absurd hal fun hal => hkeep harm hret hnc hal, ?_,
      fun _ => .inl ⟨rfl, rfl⟩, fun h => by cases h⟩
    show (0 : Nat) < 2 ^ 31
    decide
  | blocked hret c hconn _ _ =>
    have hdata := sentOut_data (sendLoop_suffix s.env.sends o.req.outBuf.data 0)
    have hlen' := (sendLoop_suffix s.env.sends o.req.outBuf.data 0).length_le
    refine .opened hj' hconn ⟨fun _ => ?_, ?_, fun hr => ?_, fun hr => ?_⟩
    · show (sentOut o.req.outBuf (sending o s).unsent).data ≠ []
      rw [hdata]
      exact sending_unsent hne hlen (Int.le_of_lt hret.1)
    · show (sentOut o.req.outBuf (sending o s).unsent).data.length < 2 ^ 31
      rw [hdata]; exact Nat.lt_of_le_of_lt hlen' hlen
    · exact .inr ((htab hr).resolve_left fun h => hne h.2)
    · exact hP o _ rfl rfl rfl rfl hne (hst hr)

/-- A page is sent. -/
theorem calm_page {P : Open → Prop} (hP : Fixed P) {make : HttpReq → HttpReq} {o : Open}
    {s : Server} (hj : Justified s.log) (hid : o.id < s.nreq)
    (hne : (make o.req).outBuf.data ≠ []) (hlen : (make o.req).outBuf.data.length < 2 ^ 31)
    (hpage : ClosedTable (make o.req).outputHeaders)
    (hst : o.status.reading = false → P { o with req := make o.req }) :
    CalmInv P (send make o s) := by
  refine calm_writeBuffer hP (o := { o with req := make o.req }) hj hid hne hlen
    (fun _ => .inr hpage) hst fun _ _ hnc _ => ?_
  rw [needClose_of_closed _ hpage] at hnc
  cases hnc

/-- A module answers, on a connection whose handler is not armed. -/
theorem calm_answer {P : Open → Prop} (hP : Fixed P) {rep : Reply} {o : Open} {s : Server}
    (hj : Justified s.log) (hid : o.id < s.nreq) (harm : o.armed = false)
    (hst : o.status.reading = false)
    (hlen : (makeReply s.writeCfg (addReplyHeaders o.req rep.headers) rep).outBuf.data.length <
      2 ^ 31)
    (hp : P { o with req := makeReply s.writeCfg (addReplyHeaders o.req rep.headers) rep }) :
    CalmInv P (answer rep o s) := by
  refine calm_writeBuffer hP (s := s)
    (o := { o with req := makeReply s.writeCfg (addReplyHeaders o.req rep.headers) rep })
    hj hid (makeSend_ne_nil _ _ _) hlen ?_ (fun _ => hp) ?_
  · intro hr
    have hr : o.status.reading = true := hr
    rw [hst] at hr; cases hr
  · intro h
    have h : o.armed = true := h
    rw [harm] at h; cases h

/-! ## Dispatch -/

/-- The messages `http_handle_request` may send for a request `q` that has a uri. -/
def replies (cfg : WriteCfg) (module : Option Reply) (q : HttpReq) : List Bytes :=
  (makeNotFound cfg { q with userdone := false }).outBuf.data ::
    module.toList.map fun rep =>
      (makeReply cfg (addReplyHeaders { q with userdone := false } rep.headers) rep).outBuf.data

/-- The messages that may be sent when request `q` has been read. -/
def messages (cfg : WriteCfg) (module : Option Reply) (q : HttpReq) : List Bytes :=
  (makeError cfg { q with uri := [] } 400 (str "Bad Request")).outBuf.data :: replies cfg module q

theorem calm_callModule (stat : Bool) {o : Open} {s : Server} (hj : Justified s.log)
    (hid : o.id < s.nreq) (harm : o.armed = false) (hst : o.status.reading = false)
    (hlen : o.req.outBuf.data.length < 2 ^ 31)
    (hms : ∀ rep, s.env.module = some rep →
      (makeReply s.writeCfg (addReplyHeaders o.req rep.headers) rep).outBuf.data.length < 2 ^ 31) :
    CalmInv (Like o) (callModule stat o s) := by
  have hj₁ : Justified ({ s with conn := some o }.emit (.dispatch stat o.id o.req)).log :=
    hj.cons fun h hx => by cases hx
  unfold callModule
  simp only
  split
  · refine .opened hj₁ rfl ⟨fun h => ?_, hlen, fun hr => ?_, fun _ => ⟨rfl, rfl, rfl⟩⟩
    · rw [harm] at h; cases h
    · rw [hst] at hr; cases hr
  · rename_i rep hrep
    have hlike : Like o
        { o with req := makeReply s.writeCfg (addReplyHeaders o.req rep.headers) rep } :=
      ⟨rfl, rfl, uri_links (links_answer s.writeCfg rep o.req)⟩
    have hcfg : ({ s with conn := some o }.emit (.dispatch stat o.id o.req)).writeCfg =
        s.writeCfg := rfl
    exact calm_answer (fixed_like o) hj₁ hid harm hst (by rw [hcfg]; exact hms rep hrep)
      (by rw [hcfg]; exact hlike)

theorem calm_clearUri {o : Open} {s : Server} (h : CalmInv (Like o) s) :
    CalmInv (Answered s.cfg) (clearUri o.id s) := by
  set s₁ : Server := if s.live o.id then s else s.emit (.fault (.req o.id)) with hs₁
  have h₁ : Justified s₁.log ∧ s₁.conn = s.conn := by
    rw [hs₁]
    split
    · exact ⟨h.log, rfl⟩
    · exact ⟨h.log.cons (fun h hx => by cases hx), rfl⟩
  refine ⟨h₁.1, fun o' ho' => ?_⟩
  have ho' : s₁.conn.map (fun o' =>
      if o'.id = o.id then { o' with req := { o'.req with uri := [] } } else o') = some o' := ho'
  rw [h₁.2, Option.map_eq_some_iff] at ho'
  obtain ⟨o₁, ho₁, rfl⟩ := ho'
  have hh := h.conn o₁ ho₁
  by_cases hid : o₁.id = o.id
  · rw [if_pos hid]
    exact ⟨hh.armed, hh.short, hh.table, fun _ => .inl rfl⟩
  · rw [if_neg hid]
    exact ⟨hh.armed, hh.short, hh.table, fun hr => absurd (hh.settled hr).1 hid⟩

theorem withUri_nil {q : HttpReq} (h : q.uri = []) : { q with uri := [] } = q := by
  rw [← h]

/-- A request that goes to a module is on a connection whose handler is not armed; a page is made
of one that nothing, or a page, has been put into. -/
theorem calm_handle {o : Open} {s : Server} (hj : Justified s.log) (hid : o.id < s.nreq)
    (hst : o.req.uri ≠ [] → o.status.reading = false)
    (hlen : o.req.outBuf.data.length < 2 ^ 31)
    (harm : o.req.uri ≠ [] →
      (isStatUri o.req.uri && s.cfg.statCb) = true ∨ s.cfg.reqCb = true → o.armed = false)
    (hpage : (o.req.uri = [] → o.status ≠ .disconnected) →
      (isStatUri o.req.uri && s.cfg.statCb) = false → PageTable o.req)
    (hbad : o.req.uri = [] →
      (makeError s.writeCfg o.req 400 (str "Bad Request")).outBuf.data.length < 2 ^ 31)
    (hms : o.req.uri ≠ [] →
      ∀ m ∈ replies s.writeCfg s.env.module o.req, m.length < 2 ^ 31) :
    CalmInv (Answered s.cfg) (handle o s) := by
  have htab : PageTable o.req →
      o.req.outputHeaders = initHeaders ∨ ClosedTable o.req.outputHeaders :=
    fun h => h.imp And.left id
  unfold handle
  split
  · rename_i huri
    have huri : o.req.uri = [] := List.eq_nil_of_length_eq_zero huri
    split
    · exact .shut (justified_hangUp hj fun h => by cases h) (hangUp_conn _ _ _)
    · rename_i hdis
      have hns : (isStatUri o.req.uri && s.cfg.statCb) = false := by
        rw [huri, show isStatUri [] = false by decide]; rfl
      refine calm_page (fixed_answered s.cfg) hj hid (makeSend_ne_nil _ _ _) (hbad huri)
        (closed_makePage _ _ _ (htab (hpage (fun _ => hdis) hns))) fun _ => .inl ?_
      exact (uri_links (links_makeError _ _ _ _)).trans huri
  · rename_i huri
    have huri : o.req.uri ≠ [] := fun h => huri (by rw [h]; rfl)
    have hread := hst huri
    have hmod : ∀ rep, s.env.module = some rep →
        (makeReply s.writeCfg (addReplyHeaders { o.req with userdone := false } rep.headers)
          rep).outBuf.data.length < 2 ^ 31 := fun rep hrep =>
      hms huri _ (by simp [replies, hrep])
    simp only
    split
    · rename_i hstat
      have h₁ := calm_callModule true (o := { o with req := { o.req with userdone := false } }) hj
        hid (harm huri (.inl hstat)) hread hlen hmod
      refine ⟨h₁.log, fun o' ho' => ?_⟩
      have hh := h₁.conn o' ho'
      refine { hh with settled := fun hr => .inr (.inl ?_) }
      rw [(hh.settled hr).2.2]; exact hstat
    · rename_i hstat
      split
      · rename_i hreq
        have h₁ := calm_callModule false (o := { o with req := { o.req with userdone := false } })
          hj hid (harm huri (.inr hreq)) hread hlen hmod
        have := calm_clearUri h₁
        rwa [cfg_callModule] at this
      · have hm := hms huri (makeNotFound s.writeCfg { o.req with userdone := false }).outBuf.data
          (by simp [replies])
        have hclosed : ClosedTable
            (makeNotFound s.writeCfg { o.req with userdone := false }).outputHeaders :=
          closed_makePage _ _ _ (htab (hpage (fun h => absurd h huri) (by simpa using hstat)))
        exact calm_page (fixed_answered s.cfg)
          (o := { o with req := { o.req with userdone := false } }) hj hid
          (makeSend_ne_nil _ _ _) hm hclosed fun _ => .inr (.inr (.inr hclosed))

/-! ## Steps and runs -/

theorem calm_readHandler {o : Open} {s : Server} (hj : Justified s.log)
    (hh : Held (Settled s.cfg) s o) (ho : Calm (Answered s.cfg) o)
    (hstat : o.status.reading = false → o.req.inBuf.data = [] → o.c.rcvq.head? = some .eof →
      (isStatUri o.req.uri && s.cfg.statCb) = false)
    (hms : ∀ m ∈ messages s.writeCfg s.env.module
      (connRead (o.c.read.active && o.c.read.ready) o.reader).1.req, m.length < 2 ^ 31) :
    CalmInv (Answered s.cfg) (readHandler o s) := by
  have hr := reads_connRead (o.c.read.active && o.c.read.ready) o.reader hh.size
  have hk := kept_connRead (o.c.read.active && o.c.read.ready) o.reader
  obtain ⟨o', hread, hmove⟩ := readHandler_cases o s hh.size
  generalize connRead (o.c.read.active && o.c.read.ready) o.reader = out at *
  have hid : o'.id < s.nreq := by rw [hread.id]; exact hh.id
  have hout : o'.req.outBuf = o.req.outBuf := by rw [hread.req]; exact hk.outBuf
  have hlen : o'.req.outBuf.data.length < 2 ^ 31 := by rw [hout]; exact ho.short
  have htab : PageTable o.req → PageTable o'.req := by
    unfold PageTable
    rw [hout, hread.req, hk.outputHeaders]; exact id
  have harmed : o'.armed = true → o.req.outBuf.data ≠ [] := by
    rw [hread.armed]; exact ho.armed
  cases hmove with
  | quiet hv hq =>
    rw [hq]
    have hst : o'.status.reading = o.status.reading := by rw [hread.status]; exact hr.quiet hv
    refine .opened hj rfl ⟨fun h => by rw [hout]; exact harmed h, hlen, ?_, ?_⟩
    · rw [hst]; exact fun h => htab (ho.table h)
    · rw [hst]
      intro h
      have huri : o'.req.uri = o.req.uri := by rw [hread.req]; exact (hr.idle h).2.1
      have hans := ho.settled h
      unfold Answered at hans ⊢
      rw [huri]
      exact hans.imp id fun h => h.imp id htab
  | broken hv hq =>
    rw [hq]
    exact .shut (justified_hangUp hj fun h => by cases h) (hangUp_conn _ _ _)
  | invalid ec hec hv hq =>
    rw [hq]
    have hst : o.status.reading = true := (hr.invalid hec hv).1
    have hj' : Justified (s.emit (.connFail 0 ec)).log := hj.cons fun h hx => by
      rcases hec with rfl | rfl <;> cases hx
    refine calm_handle (o := { o' with req := { o'.req with uri := [] } }) hj' hid
      (fun h => absurd rfl h) hlen (fun h => absurd rfl h) (fun _ _ => htab (ho.table hst))
      (fun _ => ?_) fun h => absurd rfl h
    have hm := hms (makeError s.writeCfg { out.1.req with uri := [] } 400
      (str "Bad Request")).outBuf.data (by simp [messages])
    rw [hread.req]; exact hm
  | done hv hq =>
    rw [hq]
    obtain ⟨hid', hreq', harm', hst', hdis'⟩ := doneOpen_fields o'
    refine calm_handle (o := doneOpen o') hj (by rw [hid']; exact hid) (fun _ => hst')
      (by rw [hreq']; exact hlen) ?_ ?_ ?_ ?_
    · rw [hreq', harm']
      intro huri hcb
      cases harm : o'.armed with
      | false => rfl
      | true =>
        exfalso
        have hne := harmed harm
        cases hst : o.status.reading with
        | true =>
          obtain ⟨hu, hkind⟩ := hh.spoiled hst hne
          refine huri ?_
          rw [hread.req]; exact (hr.uri (.inr hkind)).trans hu
        | false =>
          obtain ⟨-, hu, hend⟩ := hr.idle hst
          obtain ⟨-, hbuf, hhead⟩ := hend hv
          have hu : o'.req.uri = o.req.uri := by rw [hread.req]; exact hu
          have hno := hstat hst hbuf hhead
          rw [hu] at huri hcb
          rcases hh.settled hst with h₁ | h₁ | h₁
          · exact huri h₁
          · rw [hno] at h₁; cases h₁
          · rcases hcb with h₂ | h₂
            · rw [hno] at h₂; cases h₂
            · rw [h₁.1] at h₂; cases h₂
    · rw [hreq']
      intro hdis hns
      cases hst : o.status.reading with
      | true => exact htab (ho.table hst)
      | false =>
        obtain ⟨-, hu, hend⟩ := hr.idle hst
        have hu : o'.req.uri = o.req.uri := by rw [hread.req]; exact hu
        have hd : (doneOpen o').status = .disconnected :=
          hdis' (by rw [hread.status]; exact (hend hv).1)
        rw [hu] at hdis hns
        rcases ho.settled hst with h₁ | h₁ | h₁
        · exact absurd hd (hdis h₁)
        · rw [hns] at h₁; cases h₁
        · exact htab h₁
    · rw [hreq']
      intro huri
      have hm := hms (makeError s.writeCfg { out.1.req with uri := [] } 400
        (str "Bad Request")).outBuf.data (by simp [messages])
      rw [← hread.req, withUri_nil huri] at hm
      exact hm
    · rw [hreq', hread.req]
      intro _ m hm
      exact hms m (by simp only [messages, List.mem_cons]; exact .inr hm)

/-- **One step keeps the handler disarmed while there is nothing to send.** -/
theorem calm_step {s : Server} {a : Act} (hl : LifeInv False (Settled s.cfg) s)
    (h : CalmInv (Answered s.cfg) s)
    (hstat : ∀ o, s.conn = some o → o.statEof s.cfg a = false)
    (hkeep : ∀ o e, s.conn = some o → a = .writable 0 e → o.armed = true →
      0 < (sendLoop e.sends o.req.outBuf.data 0).ret →
      needClose ⟨s.cfg.disableHttpKeepalive, e.date⟩ o.req = false → e.reqAlloc = true → False)
    (hread : ∀ o rs e, s.conn = some o → a = .readable 0 rs e →
      ∀ m ∈ messages ⟨s.cfg.disableHttpKeepalive, e.date⟩ e.module
        (connRead true ⟨o.req, o.status, o.c.rcvq ++ rs⟩).1.req, m.length < 2 ^ 31)
    (hreply : ∀ o rep e, s.conn = some o → a = .reply o.id rep e →
      (makeReply ⟨s.cfg.disableHttpKeepalive, e.date⟩ (addReplyHeaders o.req rep.headers)
        rep).outBuf.data.length < 2 ^ 31) :
    CalmInv (Answered s.cfg) (step s a) := by
  have hdetached : ∀ r e, Justified
      (answerDetached r { s with env := e, pending := s.pending.erase r }).log := by
    intro r e
    unfold answerDetached
    split
    · exact h.log.cons fun h hx => by cases hx
    · exact ((h.log.cons fun h hx => by cases hx).cons fun h hx => by cases hx).cons
        fun h hx => by cases hx
  cases hconn : s.conn with
  | none =>
    rcases step_shut hconn a with ⟨e, he⟩ | ⟨r, rep, e, -, -, he⟩
    · rw [he]; exact .shut h.log hconn
    · rw [he]
      exact .shut (hdetached r e) ((answerDetached_log r _).1.trans hconn)
  | some o =>
    have ho := h.conn o hconn
    have hh := hl.held o hconn
    have same : ∀ {o' : Open}, Same o o' → Calm (Answered s.cfg) o' := fun hs => by
      refine ⟨by rw [hs.armed, hs.req]; exact ho.armed, by rw [hs.req]; exact ho.short,
        by rw [hs.status, hs.req]; exact ho.table, ?_⟩
      rw [hs.status]
      intro hst
      have := ho.settled hst
      unfold Answered at *
      rw [hs.req]; exact this
    cases step_turn hconn a with
    | idle o' e hsame he => rw [he]; exact .opened h.log rfl (same hsame)
    | read rs e o' ha hd hsame hq hready he =>
      rw [he]
      have hst := hstat o hconn
      rw [ha] at hst
      have hreader : o'.reader = ⟨o.req, o.status, o.c.rcvq ++ rs⟩ := by
        simp only [Open.reader, hsame.req, hsame.status, hq]
      refine calm_readHandler (s := { s with env := e }) h.log (hh.same hsame e) (same hsame) ?_ ?_
      · exact Open.statEof_false hst hd hsame hq
      · rw [hready, hreader]
        exact hread o rs e hconn ha
    | write e o' ha hsame harmed he =>
      rw [he]
      have ho' := same hsame
      have harm' : o'.armed = true := by rw [hsame.armed]; exact harmed
      unfold writeHandler
      split
      · exact .shut (justified_hangUp h.log fun h => by cases h) (hangUp_conn _ _ _)
      · rename_i hto
        have ha : a = .writable 0 e := ha.resolve_right fun h => hto h.2
        refine calm_writeBuffer (fixed_answered s.cfg)
          (o := { o' with c := { o'.c with write := eventTimerDel o'.c.write } })
          (s := { s with env := e }) h.log (hh.same hsame e).id (ho'.armed harm') ho'.short
          ho'.table ho'.settled ?_
        intro _ hret hnc hal
        simp only [sending, hsame.req] at hret hnc
        exact hkeep o e hconn ha harmed hret hnc hal
    | reply rep e ha hr he =>
      rw [he]
      obtain ⟨hu, hnil, hst⟩ := hh.pending hr
      have harm : o.armed = false := by
        cases h : o.armed with
        | false => rfl
        | true => exact absurd hnil (ho.armed h)
      refine calm_answer (fixed_answered s.cfg)
        (s := { s with env := e, pending := s.pending.erase o.id }) h.log hh.id harm hst
        (hreply o rep e hconn ha) ?_
      unfold Answered
      rw [show (Open.req _).uri = o.req.uri from uri_links (links_answer _ rep o.req)]
      rcases hh.settled hst with h₁ | h₁ | h₁
      · exact .inl h₁
      · exact .inr (.inl h₁)
      · rw [hu] at h₁; cases h₁.2
    | detached r rep e ha hr hne he =>
      rw [he]
      refine .opened (hdetached r e) ((answerDetached_log r _).1.trans hconn) ho

theorem calm_accepted (cfg : Cfg) (fd : Int) (env : Env) :
    CalmInv (Answered cfg) (accepted cfg fd env) := by
  set s₀ : Server :=
    { cfg := cfg, conn := none, nreq := 0, live := fun _ => false, pending := [], env := env,
      log := [] } with hs₀
  have hj₀ : Justified s₀.log := by
    intro h older hs
    have := hs.length_le
    simp [hs₀] at this
  have hj : Justified (accepted cfg fd env).log := justified_openNext hj₀
  obtain ⟨-, -, -, -, hconn⟩ := openNext_cases false (connSetDefault fd) s₀
  rcases hconn with ⟨hconn, -⟩ | ⟨hconn, -, -, -⟩
  · exact .shut hj hconn
  · refine .opened hj hconn ⟨nofun, ?_, fun _ => .inl ⟨rfl, rfl⟩, nofun⟩
    show (0 : Nat) < 2 ^ 31
    decide

/-- A write event sends the last bytes of a response that had to wait, and the connection is
kept. -/
def finishesArmed (w : World) : Act → Bool
  | .writable h env =>
    h == 0 && decide ((w.conns 0).writeEventHandler = some .connWriteHandler) &&
      match (w.conns 0).req with
      | some r =>
        decide (0 < (sendLoop env.sends (w.reqs r).outBuf.data 0).ret) &&
          !needClose ⟨w.cfg.disableHttpKeepalive, env.date⟩ (w.reqs r) && env.reqAlloc
      | none => false
  | _ => false

/-- The messages a step may hand to `conn_send`. -/
def messagesOf (w : World) : Act → List Bytes
  | .readable _ rs env =>
    match (w.conns 0).req with
    | some r =>
      messages ⟨w.cfg.disableHttpKeepalive, env.date⟩ env.module
        (connRead true ⟨w.reqs r, (w.conns 0).status, (w.conns 0).c.rcvq ++ rs⟩).1.req
    | none => []
  | .reply r rep env =>
    [(makeReply ⟨w.cfg.disableHttpKeepalive, env.date⟩ (addReplyHeaders (w.reqs r) rep.headers)
      rep).outBuf.data]
  | _ => []

/-- No step finishes a response that had to wait on a connection that is kept, reads an end of
file behind a status request, or sends a message whose length is no `int`. -/
def writableOk (w : World) (a : Act) : Prop :=
  finishesArmed w a = false ∧ statEof w a = false ∧ ∀ m ∈ messagesOf w a, m.length < 2 ^ 31

instance (w : World) (a : Act) : Decidable (writableOk w a) := by
  unfold writableOk; infer_instance

/-- A write event changes nothing but the readiness of the socket. -/
def Unmoved (w w' : World) : Prop :=
  ∃ env ready, w' = { w with env := env }.modC 0 fun c =>
    { c with write := { c.write with ready := ready } }

theorem Unmoved.log {w w' : World} (h : Unmoved w w') : w'.log = w.log := by
  obtain ⟨env, ready, rfl⟩ := h
  rfl

theorem unmoved_of_disarmed {w : World} {s : Server} {o : Open} (hs : Sim w s)
    (ho : s.conn = some o) (harm : o.armed = false) (env : Env) :
    Unmoved w (Loop.step w (.writable 0 env)) := by
  have hl := hs.link o ho
  have hrun : ¬ w.crashed = true := by rw [hs.base.crashed]; decide
  have hh : (w.conns 0).writeEventHandler = none := by rw [hl.writeEventHandler, harm]; rfl
  unfold Loop.step
  rw [if_neg hrun]
  show Unmoved w (Loop.onWritable 0 { w with env := env })
  unfold Loop.onWritable
  split
  · refine ⟨env, true, ?_⟩
    have hdata : (w.conns 0).c.connData = some 0 := by rw [hl.c]; exact hl.connData
    simp only [Http.processWrite, World.modC, World.modConn, World.setConn, if_true, hdata,
      World.touchConn, hl.live, hh]
  · refine ⟨env, (w.conns 0).c.write.ready, ?_⟩
    simp only [World.modC, World.modConn, World.setConn]
    congr 1
    funext i
    split
    · rename_i hi; rw [hi]
    · rfl

/-- **Write events with nothing to send.** In a run of an accepted connection whose steps are all
`writableOk`, a write event that finds no unsent bytes changes nothing, and the connection is
failed with `HTTP_CODE_WRITE_EOF` only behind a `send` that failed or took nothing. -/
theorem writable_harmless (cfg : Cfg) (fd : Int) (env : Env) (hfd : 0 < fd) (as : List Act)
    (h : Run.Meets Loop.step writableOk (httpGetRequest cfg fd env) as) :
    (∀ r env', ((Run.exec Loop.step (httpGetRequest cfg fd env) as).conns 0).live = true →
      ((Run.exec Loop.step (httpGetRequest cfg fd env) as).conns 0).req = some r →
      ((Run.exec Loop.step (httpGetRequest cfg fd env) as).reqs r).outBuf.data = [] →
      Unmoved (Run.exec Loop.step (httpGetRequest cfg fd env) as)
        (Loop.step (Run.exec Loop.step (httpGetRequest cfg fd env) as) (.writable 0 env'))) ∧
    Justified (Run.exec Loop.step (httpGetRequest cfg fd env) as).log := by
  have hinv : ∃ s, Sim (Run.exec Loop.step (httpGetRequest cfg fd env) as) s ∧ s.cfg = cfg ∧
      LifeInv False (Settled cfg) s ∧ CalmInv (Answered cfg) s := by
    refine Run.invariant Loop.step (I := fun w => ∃ s, Sim w s ∧ s.cfg = cfg ∧
      LifeInv False (Settled cfg) s ∧ CalmInv (Answered cfg) s) ?_ ?_ h
    · exact ⟨_, sim_accepted cfg fd env hfd, cfg_accepted cfg fd env, life_accepted cfg fd env,
        calm_accepted cfg fd env⟩
    · rintro w a ⟨s, hs, rfl, hlife, hcalm⟩ ⟨hfin, hstat, hms⟩
      have hstat' : ∀ o, s.conn = some o → o.statEof s.cfg a = false := fun o hconn => by
        rw [← statEof_link hs hconn]; exact hstat
      refine ⟨_, sim_step a hs, cfg_step s a, life_step hlife hstat' fun h => h.elim,
        calm_step hlife hcalm hstat' ?_ ?_ ?_⟩
      · rintro o e hconn rfl harm hret hnc hal
        have hl := hs.link o hconn
        simp [finishesArmed, hl.writeEventHandler, harm, hl.req, hl.reqs, hret, hs.base.cfg, hnc,
          hal] at hfin
      · rintro o rs e hconn rfl
        have hl := hs.link o hconn
        simpa only [messagesOf, hl.req, hl.reqs, hl.status, hl.c, hs.base.cfg] using hms
      · rintro o rep e hconn rfl
        have hl := hs.link o hconn
        simpa only [messagesOf, hl.reqs, hs.base.cfg, List.mem_singleton, forall_eq] using hms
  obtain ⟨s, hs, -, -, hcalm⟩ := hinv
  refine ⟨fun r env' hlive hreq hout => ?_, by rw [hs.base.log]; exact hcalm.log⟩
  cases hconn : s.conn with
  | none => rw [(hs.shut hconn).live] at hlive; cases hlive
  | some o =>
    have hl := hs.link o hconn
    rw [hl.req, Option.some.injEq] at hreq
    rw [← hreq, hl.reqs] at hout
    refine unmoved_of_disarmed hs hconn ?_ env'
    cases harm : o.armed with
    | false => rfl
    | true => exact absurd hout ((hcalm.conn o hconn).armed harm)

/-- A response that has to wait on a connection that is not kept, and one that does not have to
wait. -/
def twoResponses : List Act :=
  [.readable 0 (dataOf (str "GET /a HTTP/1.1\r\n\r\n")) {}, .writable 0 {}, .reply 0 {} {},
    .writable 0 {}, .readable 0 (dataOf (str "GET /b HTTP/1.0\r\n\r\n")) {},
    .reply 1 {} { sends := [.sent 3, .again] }, .writable 0 {}]

theorem writable_harmless_twoResponses :
    Run.Meets Loop.step writableOk (httpGetRequest {} 5 {}) twoResponses ∧
      Unmoved (Run.exec Loop.step (httpGetRequest {} 5 {}) (twoResponses.take 3))
        (Loop.step (Run.exec Loop.step (httpGetRequest {} 5 {}) (twoResponses.take 3))
          (.writable 0 {})) ∧
      Justified (Run.exec Loop.step (httpGetRequest {} 5 {}) twoResponses).log := by
  have hkept : Run.Meets Loop.step writableOk (httpGetRequest {} 5 {}) (twoResponses.take 3) :=
    Run.meets_of_check Loop.step (by decide +kernel)
  have hrun : Run.Meets Loop.step writableOk (httpGetRequest {} 5 {}) twoResponses :=
    Run.meets_of_check Loop.step (by decide +kernel)
  exact ⟨hrun, (writable_harmless {} 5 {} (by decide) _ hkept).1 1 {} (by decide +kernel)
    (by decide +kernel) (by decide +kernel),
    (writable_harmless {} 5 {} (by decide) twoResponses hrun).2⟩

/-- The response to `/a` has to wait once. The write event that finishes it leaves the handler
armed, and the next one fails the connection although nothing is left to send. -/
theorem writable_fails_kept :
    ¬ ∀ (cfg : Cfg) (fd : Int) (env : Env) (as : List Act), 0 < fd →
      (∀ r env', ((Run.exec Loop.step (httpGetRequest cfg fd env) as).conns 0).live = true →
        ((Run.exec Loop.step (httpGetRequest cfg fd env) as).conns 0).req = some r →
        ((Run.exec Loop.step (httpGetRequest cfg fd env) as).reqs r).outBuf.data = [] →
        Unmoved (Run.exec Loop.step (httpGetRequest cfg fd env) as)
          (Loop.step (Run.exec Loop.step (httpGetRequest cfg fd env) as) (.writable 0 env'))) ∧
      Justified (Run.exec Loop.step (httpGetRequest cfg fd env) as).log := by
  intro h
  obtain ⟨h₁, -⟩ := h {} 5 {} [.readable 0 (dataOf (str "GET /a HTTP/1.1\r\n\r\n")) {},
    .reply 0 {} { sends := [.sent 3, .again] }, .writable 0 {}] (by decide)
  have hstate : ∃ w, Run.exec Loop.step (httpGetRequest {} 5 {})
      [.readable 0 (dataOf (str "GET /a HTTP/1.1\r\n\r\n")) {},
        .reply 0 {} { sends := [.sent 3, .again] }, .writable 0 {}] = w ∧
      ((w.conns 0).live = true ∧ (w.conns 0).req = some 1 ∧ (w.reqs 1).outBuf.data = []) ∧
        (Loop.step w (.writable 0 {})).log ≠ w.log :=
    ⟨_, rfl, by decide +kernel⟩
  obtain ⟨w, hw, ⟨hlive, hreq, hout⟩, hlog⟩ := hstate
  rw [hw] at h₁
  exact hlog (h₁ 1 {} hlive hreq hout).log

end Incoming
end Shs
