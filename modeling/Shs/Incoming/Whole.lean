import Shs.Http.Complete
import Shs.Incoming.Lifecycle

/-!
# Incoming.Whole

What a module gets is a complete request. A connection that reads is making `Progress` with the
bytes received, and a request that has been read and can still be handed out is complete, as long
as no read event takes something else for the end of a message (`soundRead`).
-/

namespace Shs
namespace Incoming

open Http Loop

/-- A request that is handed out is complete. -/
def WholeDispatch : Obs → Prop
  | .dispatch _ _ q => complete .request q = true
  | _ => True

instance (x : Obs) : Decidable (WholeDispatch x) := by
  cases x <;> (unfold WholeDispatch; infer_instance)

theorem wholeDispatch_inner (x : Obs) (hx : inner x = true) : WholeDispatch x := by
  cases x <;> trivial

/-- What is known of the request of an open connection. -/
structure Sound (o : Open) : Prop where
  progress : o.status.reading = true → o.req.kind = .request →
    Progress o.status o.req ∧ (o.status = .readingFirstline → o.req.uri = [])
  /-- the connection has sent an error page for the request -/
  spoiled : o.status.reading = true → o.req.kind = .response → o.req.uri = []
  whole : o.status.reading = false → o.req.uri ≠ [] → complete .request o.req = true

/-- What has been handed out, and what modules hold. -/
structure Handed (s : Server) : Prop where
  log : ∀ x ∈ s.log, WholeDispatch x
  held : ∀ r ∈ s.pending, r < s.nreq

/-- A connection of the server; a module holds its request only when that has been read. -/
structure Fit (s : Server) (o : Open) : Prop where
  id : o.id < s.nreq
  size : 0 < o.req.inBuf.size
  pending : o.id ∈ s.pending → o.status.reading = false

structure SoundInv (s : Server) : Prop extends Handed s where
  conn : ∀ o, s.conn = some o → Fit s o ∧ Sound o

theorem sound_fresh (id : Nat) (armed : Bool) (c : Conn) :
    Sound ⟨id, freshReq, .readingFirstline, armed, c⟩ :=
  ⟨fun _ _ => ⟨⟨rfl, rfl⟩, fun _ => rfl⟩, fun _ h => (by cases h), fun h => (by cases h)⟩

theorem fresh_size : 0 < freshReq.inBuf.size := by decide

/-- Only the output buffer and the socket have changed. -/
theorem Sound.sent {o : Open} (h : Sound o) (armed : Bool) (c : Conn) (out : Buffer) :
    Sound { o with armed := armed, c := c, req := { o.req with outBuf := out } } :=
  ⟨h.progress, h.spoiled, h.whole⟩

theorem Sound.same {o o' : Open} (h : Sound o) (hs : Same o o') : Sound o' := by
  refine ⟨?_, ?_, ?_⟩ <;> rw [hs.status, hs.req]
  · exact h.progress
  · exact h.spoiled
  · exact h.whole

theorem SoundInv.shut {s : Server} (h : Handed s) (hs : s.conn = none) : SoundInv s :=
  ⟨h, fun o ho => by rw [hs] at ho; cases ho⟩

theorem SoundInv.opened {s : Server} {o : Open} (h : Handed s) (hs : s.conn = some o)
    (hf : Fit s o) (ho : Sound o) : SoundInv s :=
  ⟨h, fun o' ho' => by rw [hs, Option.some.injEq] at ho'; rw [← ho']; exact ⟨hf, ho⟩⟩

theorem Handed.frame {o : Open} {s s' : Server} (h : Handed s) (hf : Frame o s s') :
    Handed s' := by
  obtain ⟨news, hlog, hplain⟩ := hf.log
  refine ⟨fun x hx => ?_, fun r hr => ?_⟩
  · rw [hlog] at hx
    rcases List.mem_append.mp hx with hx | hx
    · have := hplain x hx
      cases x <;> trivial
    · exact h.log x hx
  · rw [hf.pending] at hr
    exact Nat.lt_of_lt_of_le (h.held r hr) hf.nreq

theorem Handed.emit {s : Server} (h : Handed s) {x : Obs} (hx : WholeDispatch x) :
    Handed (s.emit x) := by
  refine ⟨fun y hy => ?_, h.held⟩
  rcases List.mem_cons.mp hy with hy | hy
  · rw [hy]; exact hx
  · exact h.log y hy

/-! ## Sending -/

theorem sound_writeBuffer {o : Open} {s : Server} (h : Handed s) (hf : Fit s o) (ho : Sound o) :
    SoundInv (writeBuffer o s) := by
  obtain ⟨hframe, hsent⟩ := sent_writeBuffer o s hf.id
  have h' := h.frame hframe
  cases hsent with
  | closed _ hconn _ => exact .shut h' hconn
  | next _ _ _ c hconn hnreq _ _ =>
    refine .opened h' hconn ⟨by rw [hnreq]; exact Nat.lt_succ_self _, fresh_size, fun hmem => ?_⟩
      (sound_fresh _ _ _)
    rw [hframe.pending] at hmem
    exact absurd (h.held _ hmem) (Nat.lt_irrefl _)
  | blocked _ c hconn _ hnreq =>
    refine .opened h' hconn ⟨by rw [hnreq]; exact hf.id, hf.size, fun hmem => ?_⟩ (ho.sent _ _ _)
    rw [hframe.pending] at hmem
    exact hf.pending hmem

theorem complete_links {q q' : HttpReq} (h : q'.links = q.links) (hq : complete .request q = true) :
    complete .request q' = true := by
  simp only [HttpReq.links, Prod.mk.injEq] at h
  obtain ⟨-, -, -, -, -, hrx, hh, htype⟩ := h
  exact complete_more hq htype (fun h => by cases h) hh (t := []) (by rw [hrx, List.append_nil])

/-- A message is made of a request that is not read any more, or has no uri. -/
theorem sound_send {make : HttpReq → HttpReq} {o : Open} {s : Server} (h : Handed s)
    (hf : Fit s o) (hm : (make o.req).links = o.req.links ∧ (make o.req).kind = .response)
    (huri : o.status.reading = true → o.req.uri = [])
    (hwhole : o.req.uri ≠ [] → complete .request o.req = true) : SoundInv (send make o s) := by
  have hlinks := hm.1
  simp only [HttpReq.links, Prod.mk.injEq] at hlinks
  refine sound_writeBuffer (o := { o with req := make o.req }) h ⟨hf.id, ?_, hf.pending⟩
    ⟨?_, ?_, ?_⟩
  · rw [hlinks.2.2.2.1]; exact hf.size
  · intro _ hk; rw [hm.2] at hk; cases hk
  · intro hst _; rw [hlinks.2.2.2.2.1]; exact huri hst
  · intro _ hne
    rw [hlinks.2.2.2.2.1] at hne
    exact complete_links hm.1 (hwhole hne)

theorem sound_answer (rep : Reply) {o : Open} {s : Server} (h : Handed s) (hf : Fit s o)
    (hst : o.status.reading = false) (hwhole : o.req.uri ≠ [] → complete .request o.req = true) :
    SoundInv (answer rep o s) := by
  obtain ⟨hlinks, -, hk⟩ := makeAnswer_fields s.writeCfg rep o.req
  refine sound_send h hf ⟨hlinks, hk⟩ (fun h => ?_) hwhole
  rw [hst] at h; cases h

/-! ## Dispatch -/

theorem sound_callModule (stat : Bool) {o : Open} {s : Server} (h : Handed s) (hf : Fit s o)
    (hst : o.status.reading = false) (hwhole : complete .request o.req = true) :
    SoundInv (callModule stat o s) := by
  have h₁ : Handed { s with conn := some o } := ⟨h.log, h.held⟩
  have h₂ := h₁.emit (x := .dispatch stat o.id o.req) hwhole
  unfold callModule
  simp only
  split
  · refine .opened ⟨h₂.log, fun r hr => ?_⟩ rfl ⟨hf.id, hf.size, fun _ => hst⟩ ⟨?_, ?_, ?_⟩
    · rcases List.mem_cons.mp hr with hr | hr
      · rw [hr]; exact hf.id
      · exact h₂.held r hr
    · intro h; rw [hst] at h; cases h
    · intro h; rw [hst] at h; cases h
    · exact fun _ _ => hwhole
  · exact sound_answer _ h₂ ⟨hf.id, hf.size, hf.pending⟩ hst fun _ => hwhole

theorem sound_clearUri (r : Nat) {s : Server} (h : SoundInv s) : SoundInv (clearUri r s) := by
  have hfields : (clearUri r s).nreq = s.nreq ∧ (clearUri r s).pending = s.pending ∧
      (clearUri r s).conn = s.conn.map fun o =>
        if o.id = r then { o with req := { o.req with uri := [] } } else o := by
    unfold clearUri
    simp only
    split <;> exact ⟨rfl, rfl, rfl⟩
  obtain ⟨hnreq, hpend, hconn⟩ := hfields
  refine ⟨⟨(grows_clearUri wholeDispatch_inner r s).all h.log, ?_⟩, fun o ho => ?_⟩
  · rw [hnreq, hpend]; exact h.held
  · rw [hconn, Option.map_eq_some_iff] at ho
    obtain ⟨o₁, ho₁, rfl⟩ := ho
    obtain ⟨hf, hso⟩ := h.conn o₁ ho₁
    have hf' : ∀ q : HttpReq, q.inBuf = o₁.req.inBuf → Fit (clearUri r s) { o₁ with req := q } := by
      intro q hq
      refine ⟨by rw [hnreq]; exact hf.id, by rw [hq]; exact hf.size, ?_⟩
      rw [hpend]; exact hf.pending
    split
    · refine ⟨hf' _ rfl, fun h₁ h₂ => ?_, fun _ _ => rfl, fun _ h => absurd rfl h⟩
      exact ⟨(hso.progress h₁ h₂).1, fun _ => rfl⟩
    · exact ⟨hf' _ rfl, hso⟩

theorem sound_hangUp (o : Open) (ec : HttpCode) {s : Server} (h : Handed s) :
    SoundInv (hangUp o ec s) := .shut (h.frame (Frame.hangUp ec)) (hangUp_conn o ec s)

theorem sound_handle {o : Open} {s : Server} (h : Handed s) (hf : Fit s o)
    (hread : o.status.reading = true → o.req.uri = [])
    (hwhole : o.req.uri ≠ [] → complete .request o.req = true) : SoundInv (handle o s) := by
  unfold handle
  split
  · split
    · exact sound_hangUp o _ h
    · refine sound_send h hf ⟨links_makeError _ _ _ _, ?_⟩ hread hwhole
      exact (makePage_fields _ _ _).2.2
  · rename_i hne
    have hne : o.req.uri ≠ [] := fun h => hne (by rw [h]; rfl)
    have hst : o.status.reading = false := by
      cases h : o.status.reading with
      | false => rfl
      | true => exact absurd (hread h) hne
    have hf' : Fit s { o with req := { o.req with userdone := false } } :=
      ⟨hf.id, hf.size, hf.pending⟩
    have hmod : ∀ stat, SoundInv (callModule stat
        { o with req := { o.req with userdone := false } } s) := fun stat =>
      sound_callModule stat h hf' hst (hwhole hne)
    simp only
    split
    · exact hmod true
    · split
      · exact sound_clearUri _ (hmod false)
      · refine sound_send h hf' ⟨links_makeNotFound _ _, ?_⟩ hread hwhole
        exact (makePage_fields _ _ _).2.2

/-! ## Events -/

theorem sound_readHandler {o : Open} {s : Server} (h : Handed s) (hf : Fit s o) (ho : Sound o)
    (hok : o.status.reading = true → o.req.kind = .request →
      soundRead (o.c.read.active && o.c.read.ready) o.reader = true) :
    SoundInv (readHandler o s) := by
  obtain ⟨o', hread, hmove⟩ := readHandler_cases o s hf.size
  have hr := reads_connRead (o.c.read.active && o.c.read.ready) o.reader hf.size
  have hk := kept_connRead (o.c.read.active && o.c.read.ready) o.reader
  have hidle := connRead_idle (o.c.read.active && o.c.read.ready) o.reader
  have hfirst := connReadN_firstline (o.c.read.active && o.c.read.ready)
    ((rcvqData o.reader.rcvq).length + 2) o.reader
  have hjudged : o.status.reading = true → o.req.kind = .request →
      Judged o.reader (connRead (o.c.read.active && o.c.read.ready) o.reader) := fun h₁ h₂ =>
    judged_connRead _ _ h₁ (ho.progress h₁ h₂).1 (hok h₁ h₂)
  rw [show connReadN (o.c.read.active && o.c.read.ready)
    ((rcvqData o.reader.rcvq).length + 2) o.reader =
      connRead (o.c.read.active && o.c.read.ready) o.reader from rfl] at hfirst
  generalize connRead (o.c.read.active && o.c.read.ready) o.reader = out at *
  have hsize' : 0 < o'.req.inBuf.size := by rw [hread.req, hr.size]; exact hf.size
  have hf' : Fit s o' := by
    refine ⟨by rw [hread.id]; exact hf.id, hsize', fun hmem => ?_⟩
    rw [hread.id] at hmem
    rw [hread.status]
    exact (hr.idle (hf.pending hmem)).1
  -- a request that is not read any more stays complete
  have hstay : o.status.reading = false → o'.req.uri ≠ [] → complete .request o'.req = true := by
    intro hst hne
    obtain ⟨buf, t, hq⟩ := hidle hst
    rw [hread.req, hq] at hne ⊢
    exact complete_more (ho.whole hst hne) rfl (fun _ => rfl) rfl rfl
  cases hmove with
  | quiet hv he =>
    rw [he]
    have hst : o'.status.reading = o.status.reading := by rw [hread.status]; exact hr.quiet hv
    refine .opened ⟨h.log, h.held⟩ rfl ⟨hf'.id, hf'.size, hf'.pending⟩
      ⟨fun h₁ h₂ => ?_, fun h₁ h₂ => ?_, fun h₁ => ?_⟩
    · rw [hst] at h₁
      rw [hread.req, hk.kind] at h₂
      have hp := ho.progress h₁ h₂
      rw [hread.req, hread.status]
      have hw : out.2 = .wait := hv.resolve_right fun hi => by
        rcases hr.verdict with hd | hd
        · rw [hi] at hd
          generalize out.1.status = st at hd
          cases hd with
          | ignore h => rw [show o.reader.status = o.status from rfl, h₁] at h; cases h
        · have := hd.2.1
          rw [hi] at this; cases this
      refine ⟨(hjudged h₁ h₂).waits (.inl hw), fun hf => ?_⟩
      obtain ⟨hs, huri⟩ := hfirst hf
      exact huri.trans (hp.2 hs)
    · rw [hst] at h₁
      rw [hread.req, hk.kind] at h₂
      rw [hread.req, hr.uri (.inr h₂)]
      exact ho.spoiled h₁ h₂
    · exact hstay (hst.symm.trans h₁)
  | done hv he =>
    rw [he]
    obtain ⟨hid₂, hreq₂, -, hst₂, -⟩ := doneOpen_fields o'
    refine sound_handle h ⟨by rw [hid₂]; exact hf'.id, by rw [hreq₂]; exact hsize', fun _ => hst₂⟩
      (fun h => by rw [hst₂] at h; cases h) ?_
    rw [hreq₂]
    intro hne
    cases hst : o.status.reading with
    | false => exact hstay hst hne
    | true =>
      cases hkind : o.req.kind with
      | request =>
        rcases (hjudged hst hkind).hands hv with hc | hc
        · rw [hread.req]
          rw [show o.reader.req.kind = .request from hkind] at hc
          exact hc
        · exfalso
          rw [hread.req, hc.2.2] at hne
          exact hne ((ho.progress hst hkind).2 hc.1)
      | response =>
        exfalso
        rw [hread.req, hr.uri (.inr hkind)] at hne
        exact hne (ho.spoiled hst hkind)
  | broken hv he => rw [he]; exact sound_hangUp _ _ h
  | invalid ec hec hv he =>
    rw [he]
    exact sound_handle (o := { o' with req := { o'.req with uri := [] } })
      (h.emit (x := .connFail 0 ec) trivial) ⟨hf'.id, hsize', hf'.pending⟩ (fun _ => rfl)
      fun h => absurd rfl h

/-- A read event for a request that takes something for its end that is none. -/
def Open.unsoundRequest (o : Open) : Act → Bool
  | .readable h rs _ =>
    h == 0 && delivered o.c o.c.read && o.status.reading && o.req.kind == .request &&
      !soundRead true ⟨o.req, o.status, o.c.rcvq ++ rs⟩
  | _ => false

theorem sound_answerDetached (r : Nat) {s : Server} (h : SoundInv s) :
    SoundInv (answerDetached r s) := by
  have hlog := (grows_answerDetached wholeDispatch_inner r s).all h.log
  have hfields : (answerDetached r s).conn = s.conn ∧ (answerDetached r s).nreq = s.nreq ∧
      (answerDetached r s).pending = s.pending := by
    unfold answerDetached
    split <;> exact ⟨rfl, rfl, rfl⟩
  obtain ⟨hconn, hnreq, hpend⟩ := hfields
  refine ⟨⟨hlog, by rw [hnreq, hpend]; exact h.held⟩, fun o ho => ?_⟩
  obtain ⟨hf, hso⟩ := h.conn o (hconn ▸ ho)
  exact ⟨⟨by rw [hnreq]; exact hf.id, hf.size, by rw [hpend]; exact hf.pending⟩, hso⟩

/-- A module answers a request and holds it no more. -/
theorem Handed.answered {s : Server} (h : Handed s) (e : Env) (r : Nat) :
    Handed { s with env := e, pending := s.pending.erase r } :=
  ⟨h.log, fun i hi => h.held i (List.mem_of_mem_erase hi)⟩

theorem Fit.answered {s : Server} {o : Open} (h : Fit s o) (e : Env) (r : Nat) :
    Fit { s with env := e, pending := s.pending.erase r } o :=
  ⟨h.id, h.size, fun hmem => h.pending (List.mem_of_mem_erase hmem)⟩

theorem Fit.same {s : Server} {o o' : Open} (h : Fit s o) (hs : Same o o') : Fit s o' := by
  refine ⟨by rw [hs.id]; exact h.id, by rw [hs.req]; exact h.size, ?_⟩
  rw [hs.id, hs.status]; exact h.pending

theorem sound_step {s : Server} {a : Act} (h : SoundInv s)
    (hok : ∀ o, s.conn = some o → o.unsoundRequest a = false) : SoundInv (step s a) := by
  have henv : ∀ e : Env, Handed { s with env := e } := fun e => ⟨h.log, h.held⟩
  cases hconn : s.conn with
  | none =>
    rcases step_shut hconn a with ⟨e, he⟩ | ⟨r, rep, e, -, -, he⟩
    · rw [he]; exact .shut (henv e) hconn
    · rw [he]; exact sound_answerDetached r (.shut (h.toHanded.answered e r) hconn)
  | some o =>
    obtain ⟨hf, ho⟩ := h.conn o hconn
    cases step_turn hconn a with
    | idle o' e hsame he =>
      rw [he]
      have hf' := hf.same hsame
      exact .opened ⟨h.log, h.held⟩ rfl ⟨hf'.id, hf'.size, hf'.pending⟩ (ho.same hsame)
    | read rs e o' ha hd hsame hq hready he =>
      rw [he]
      have hf' := hf.same hsame
      refine sound_readHandler (henv e) ⟨hf'.id, hf'.size, hf'.pending⟩ (ho.same hsame)
        fun h₁ h₂ => ?_
      have hreader : o'.reader = ⟨o.req, o.status, o.c.rcvq ++ rs⟩ := by
        simp only [Open.reader, hsame.req, hsame.status, hq]
      rw [hsame.status] at h₁
      rw [hsame.req] at h₂
      rw [hready, hreader]
      have := hok o hconn
      rw [ha] at this
      simpa only [Open.unsoundRequest, beq_self_eq_true, hd, h₁, h₂, Bool.and_self, Bool.true_and,
        Bool.not_eq_false'] using this
    | write e o' ha hsame harmed he =>
      rw [he]
      have hf' := hf.same hsame
      unfold writeHandler
      split
      · exact sound_hangUp _ _ (henv e)
      · exact sound_writeBuffer (henv e) ⟨hf'.id, hf'.size, hf'.pending⟩
          ((ho.same hsame).sent _ _ _)
    | reply rep e ha hr he =>
      rw [he]
      exact sound_answer rep (h.toHanded.answered e o.id) (hf.answered e o.id) (hf.pending hr)
        (ho.whole (hf.pending hr))
    | detached r rep e ha hr hne he =>
      rw [he]
      refine sound_answerDetached r ⟨h.toHanded.answered e r, fun o' ho' => ?_⟩
      obtain ⟨hf', hso'⟩ := h.conn o' ho'
      exact ⟨hf'.answered e r, hso'⟩

theorem sound_accepted (cfg : Cfg) (fd : Int) (env : Env) : SoundInv (accepted cfg fd env) := by
  obtain ⟨-, hpend, ⟨news, hlog, hplain⟩, -, hconn⟩ := openNext_cases false (connSetDefault fd)
    { cfg := cfg, conn := none, nreq := 0, live := fun _ => false, pending := [], env := env,
      log := [] }
  have hpend : (accepted cfg fd env).pending = [] := hpend
  have hlog : (accepted cfg fd env).log = news ++ [] := hlog
  have h : Handed (accepted cfg fd env) := by
    refine ⟨fun x hx => ?_, fun r hr => ?_⟩
    · rw [hlog, List.append_nil] at hx
      have := hplain x hx
      cases x <;> trivial
    · rw [hpend] at hr; cases hr
  rcases hconn with ⟨hconn, -⟩ | ⟨hconn, hnreq, -⟩
  · exact .shut h hconn
  · refine .opened h hconn ⟨?_, fresh_size, fun hmem => ?_⟩ (sound_fresh _ _ _)
    · rw [show (accepted cfg fd env).nreq = 0 + 1 from hnreq]
      exact Nat.lt_succ_self 0
    · rw [hpend] at hmem; cases hmem

/-! ## Runs -/

/-- `unsoundRequest` on the heap. -/
def unsoundRequest (w : World) : Act → Bool
  | .readable h rs _ =>
    h == 0 && delivered (w.conns 0).c (w.conns 0).c.read && (w.conns 0).status.reading &&
      match (w.conns 0).req with
      | none => false
      | some r =>
        (w.reqs r).kind == .request &&
          !soundRead true ⟨w.reqs r, (w.conns 0).status, (w.conns 0).c.rcvq ++ rs⟩
  | _ => false

theorem unsoundRequest_link {w : World} {s : Server} {o : Open} (hs : Sim w s)
    (ho : s.conn = some o) (a : Act) : unsoundRequest w a = o.unsoundRequest a := by
  have hl := hs.link o ho
  cases a with
  | readable h rs e =>
    simp only [unsoundRequest, Open.unsoundRequest, hl.req, hl.c, hl.status, hl.reqs,
      Bool.and_assoc]
  | _ => rfl

/-- A request is handed to a module only when it has been received whole. -/
theorem server_whole (cfg : Cfg) (fd : Int) (env : Env) (hfd : 0 < fd) (as : List Act)
    (h : Run.Meets Loop.step (fun w a => unsoundRequest w a = false) (httpGetRequest cfg fd env)
      as) : ∀ x ∈ (Run.exec Loop.step (httpGetRequest cfg fd env) as).log, WholeDispatch x := by
  have hinv : ∃ s, Sim (Run.exec Loop.step (httpGetRequest cfg fd env) as) s ∧ SoundInv s := by
    refine Run.invariant Loop.step (I := fun w => ∃ s, Sim w s ∧ SoundInv s) ?_ ?_ h
    · exact ⟨_, sim_accepted cfg fd env hfd, sound_accepted cfg fd env⟩
    · rintro w a ⟨s, hs, ho⟩ hok
      refine ⟨_, sim_step a hs, sound_step ho fun o hconn => ?_⟩
      rw [← unsoundRequest_link hs hconn]; exact hok
  obtain ⟨s, hs, ho⟩ := hinv
  rw [hs.base.log]
  exact ho.log

end Incoming
end Shs
