import Shs.Http.Verdict
import Shs.Incoming.Simulation
import Shs.Lib.Run

/-!
# Incoming.Moves

What the functions of the server machine do, as lemmas that the results about runs share: how a
send ends (`Sent`), and what a read event makes of the connection. `sim_exec` carries a run of the
heap to a run of the machine.
-/

namespace Shs
namespace Incoming

open Http Loop

/-- An entry of the log that neither hands out a request nor reports an access to a freed
object. -/
def plain : Obs → Bool
  | .free _ | .connFail _ _ | .sendFail _ => true
  | _ => false

/-- What the reading functions get from the event loop. -/
def Open.reader (o : Open) : Reader := ⟨o.req, o.status, o.c.rcvq⟩

/-! ## The settings and the log -/

/-- An entry of the log that hands out no request. -/
def inner : Obs → Bool
  | .free _ | .connFail _ _ | .sendFail _ | .fault _ => true
  | _ => false

/-- The settings stay, and the log grows by entries with property `Q`. -/
structure Grows (Q : Obs → Prop) (s s' : Server) : Prop where
  cfg : s'.cfg = s.cfg
  log : ∃ news, s'.log = news ++ s.log ∧ ∀ x ∈ news, Q x

namespace Grows

variable {Q : Obs → Prop} {s s' s'' : Server}

theorem quiet (hcfg : s'.cfg = s.cfg) (hlog : s'.log = s.log) : Grows Q s s' :=
  ⟨hcfg, [], hlog, by simp⟩

theorem refl (s : Server) : Grows Q s s := quiet rfl rfl

theorem trans (h : Grows Q s s') (h' : Grows Q s' s'') : Grows Q s s'' := by
  obtain ⟨news, hn, hq⟩ := h.log
  obtain ⟨news', hn', hq'⟩ := h'.log
  refine ⟨h'.cfg.trans h.cfg, news' ++ news, by rw [hn', hn]; simp, fun x hx => ?_⟩
  exact (List.mem_append.mp hx).elim (hq' x) (hq x)

theorem after (h : Grows Q s' s'') (hcfg : s'.cfg = s.cfg) (hlog : s'.log = s.log) :
    Grows Q s s'' := (quiet hcfg hlog).trans h

theorem emit {x : Obs} (hx : Q x) : Grows Q s (s.emit x) := ⟨rfl, [x], rfl, by simpa using hx⟩

/-- What holds of all entries before holds of all entries behind. -/
theorem all (h : Grows Q s s') (hs : ∀ x ∈ s.log, Q x) : ∀ x ∈ s'.log, Q x := by
  obtain ⟨news, hn, hq⟩ := h.log
  intro x hx
  rw [hn] at hx
  exact (List.mem_append.mp hx).elim (hq x) (hs x)

end Grows

section

variable {Q : Obs → Prop} (hQ : ∀ x, inner x = true → Q x)

include hQ

theorem grows_freeReq (r : Nat) (s : Server) : Grows Q s (freeReq r s) :=
  (Grows.emit (hQ _ rfl)).after rfl rfl

theorem grows_close (s : Server) : Grows Q s (close s) :=
  (Grows.emit (hQ _ rfl)).after rfl rfl

theorem grows_drop (o : Open) (s : Server) : Grows Q s (drop o s) :=
  (grows_freeReq hQ _ s).trans (grows_close hQ _)

theorem grows_hangUp (o : Open) (ec : HttpCode) (s : Server) : Grows Q s (hangUp o ec s) := by
  unfold hangUp
  split
  · exact (Grows.emit (hQ _ rfl)).trans (grows_drop hQ _ _)
  · exact (Grows.emit (hQ _ rfl)).trans (grows_close hQ _)

theorem grows_openNext (armed : Bool) (c : Conn) (s : Server) :
    Grows Q s (openNext armed c s) := by
  unfold openNext
  split
  · exact grows_close hQ s
  · simp only
    split
    · exact .quiet rfl rfl
    · exact (grows_drop hQ _ _).after rfl rfl

theorem grows_sentServer (t : Sending) (o : Open) (s : Server) :
    Grows Q s (sentServer t o s) := by
  unfold sentServer
  simp only
  split
  · exact (Grows.emit (hQ _ rfl)).after rfl rfl
  · exact .quiet rfl rfl

theorem grows_writeBuffer (o : Open) (s : Server) : Grows Q s (writeBuffer o s) := by
  unfold writeBuffer
  simp only
  generalize sendLoop s.env.sends o.req.outBuf.data 0 = t
  refine (grows_sentServer hQ t o s).trans ?_
  split
  · exact grows_hangUp hQ _ _ _
  · split
    · unfold sendDone
      split
      · exact (grows_freeReq hQ _ _).trans (grows_close hQ _)
      · exact (grows_freeReq hQ _ _).trans (grows_openNext hQ _ _ _)
    · exact .quiet rfl rfl

theorem grows_callModule {stat : Bool} {o : Open} (hd : Q (.dispatch stat o.id o.req))
    (s : Server) : Grows Q s (callModule stat o s) := by
  unfold callModule
  simp only
  have hnote : Grows Q s ({ s with conn := some o }.emit (.dispatch stat o.id o.req)) :=
    (Grows.emit hd).after rfl rfl
  refine hnote.trans ?_
  split
  · exact .quiet rfl rfl
  · exact grows_writeBuffer hQ _ _

theorem grows_clearUri (r : Nat) (s : Server) : Grows Q s (clearUri r s) := by
  unfold clearUri
  simp only
  split
  · exact .quiet rfl rfl
  · exact .trans (.emit (hQ _ rfl)) (.quiet rfl rfl)

theorem grows_handle {o : Open} (hd : o.req.uri ≠ [] → ∀ stat, Q (.dispatch stat o.id
    { o.req with userdone := false })) (s : Server) : Grows Q s (handle o s) := by
  unfold handle
  split
  · split
    · exact grows_hangUp hQ _ _ _
    · exact grows_writeBuffer hQ _ _
  · rename_i hne
    have hd := hd fun h => hne (by rw [h]; rfl)
    simp only
    split
    · exact grows_callModule hQ (o := { o with req := { o.req with userdone := false } }) (hd _) s
    · split
      · exact (grows_callModule hQ (o := { o with req := { o.req with userdone := false } })
          (hd _) s).trans (grows_clearUri hQ _ _)
      · exact grows_writeBuffer hQ _ _

theorem grows_readHandler {o : Open}
    (hd : (connRead (o.c.read.active && o.c.read.ready) o.reader).2 = .done →
      (connRead (o.c.read.active && o.c.read.ready) o.reader).1.req.uri ≠ [] →
      ∀ stat, Q (.dispatch stat o.id
        { (connRead (o.c.read.active && o.c.read.ready) o.reader).1.req with userdone := false }))
    (s : Server) : Grows Q s (readHandler o s) := by
  unfold readHandler
  simp only [Open.reader, eventTimerDel] at hd ⊢
  generalize connRead (o.c.read.active && o.c.read.ready) ⟨o.req, o.status, o.c.rcvq⟩ = out at *
  obtain ⟨t, v⟩ := out
  cases v with
  | done =>
    refine grows_handle hQ (o := doneOpen _) (fun hne stat => ?_) s
    have hreq : ∀ o : Open, (doneOpen o).req = o.req ∧ (doneOpen o).id = o.id := by
      intro o
      unfold doneOpen
      split <;> exact ⟨rfl, rfl⟩
    rw [(hreq _).1] at hne ⊢
    rw [(hreq _).2]
    exact hd rfl hne stat
  | fail ec =>
    have hbad : ∀ (o : Open) (s : Server), Grows Q s (handle { o with req := { o.req with uri := [] } } s) :=
      fun o s => grows_handle hQ (fun h => absurd rfl h) s
    cases ec with
    | readTimeout | readEof | writeTimeout | writeEof => exact grows_hangUp hQ _ _ _
    | invalidHeader | invalidBody => exact (Grows.emit (hQ _ rfl)).trans (hbad _ _)
    | _ => exact (Grows.emit (hQ _ rfl)).after rfl rfl
  | _ => exact .quiet rfl rfl

theorem grows_processWrite (o : Open) (s : Server) : Grows Q s (processWrite o s) := by
  unfold processWrite
  split
  · unfold writeHandler
    split
    · exact grows_hangUp hQ _ _ _
    · exact grows_writeBuffer hQ _ _
  · exact .quiet rfl rfl

theorem grows_answerDetached (r : Nat) (s : Server) : Grows Q s (answerDetached r s) := by
  unfold answerDetached
  split
  · exact grows_freeReq hQ r s
  · exact ((Grows.emit (hQ _ rfl)).trans (.emit (hQ _ rfl))).trans (.emit (hQ _ rfl))

/-- **What a step adds to the log**: what the read event of the step hands out, and entries that
are `inner`. -/
theorem grows_step (s : Server) (a : Act)
    (hd : ∀ o rs e, s.conn = some o → a = .readable 0 rs e → delivered o.c o.c.read = true →
      (connRead true ⟨o.req, o.status, o.c.rcvq ++ rs⟩).2 = .done →
      (connRead true ⟨o.req, o.status, o.c.rcvq ++ rs⟩).1.req.uri ≠ [] →
      ∀ stat, Q (.dispatch stat o.id
        { (connRead true ⟨o.req, o.status, o.c.rcvq ++ rs⟩).1.req with userdone := false })) :
    Grows Q s (step s a) := by
  have henv : ∀ e, Grows Q s { s with env := e } := fun e => .quiet rfl rfl
  have hconn : ∀ {h : Nat} {f : Open → Server → Server} {e : Env},
      (∀ o, s.conn = some o → h = 0 → Grows Q s (f o { s with env := e })) →
      Grows Q s (onConn h f { s with env := e }) := by
    intro h f e hf
    unfold onConn
    split
    · rename_i o ho
      split
      · rename_i hh; exact hf o ho hh
      · exact henv e
    · exact henv e
  cases a with
  | readable h rs e =>
    refine hconn fun o ho hh => ?_
    subst hh
    unfold onReadable
    simp only
    split
    · rename_i hdel
      have harm : (o.c.read.active && true) = true := by
        simp only [delivered, Bool.and_eq_true] at hdel
        rw [hdel.1.2]; rfl
      refine (henv e).trans (grows_readHandler hQ ?_ _)
      simp only [Open.reader, harm]
      exact hd o rs e ho rfl hdel
    · exact .quiet rfl rfl
  | writable h e =>
    refine hconn fun o _ _ => (henv e).trans ?_
    unfold onWritable
    split
    · exact grows_processWrite hQ _ _
    · exact .refl _
  | readTimeout h e => exact henv e
  | writeTimeout h e =>
    refine hconn fun o _ _ => (henv e).trans ?_
    unfold onWriteTimeout
    split
    · exact grows_processWrite hQ _ _
    · exact .refl _
  | reply r rep e =>
    simp only [step, onReply]
    split
    · split
      · split
        · exact (grows_writeBuffer hQ _ _).after rfl rfl
        · exact (grows_answerDetached hQ _ _).after rfl rfl
      · exact (grows_answerDetached hQ _ _).after rfl rfl
    · exact henv e

end

/-- **What a run adds to the log.** -/
theorem all_run {Q : Obs → Prop} (hQ : ∀ x, inner x = true → Q x)
    (hd : ∀ stat r q, Q (.dispatch stat r q)) (cfg : Cfg) (fd : Int) (env : Env) (as : List Act) :
    ∀ x ∈ (Run.exec step (accepted cfg fd env) as).log, Q x := by
  induction as using List.reverseRecOn with
  | nil => exact (grows_openNext hQ _ _ _).all (by simp)
  | append_singleton as a ih =>
    rw [Run.exec_concat]
    exact (grows_step hQ _ a fun _ _ _ _ _ _ _ _ _ => hd _ _ _).all ih

theorem cfg_callModule (stat : Bool) (o : Open) (s : Server) :
    (callModule stat o s).cfg = s.cfg :=
  (grows_callModule (Q := fun _ => True) (fun _ _ => trivial) trivial s).cfg

theorem cfg_step (s : Server) (a : Act) : (step s a).cfg = s.cfg :=
  (grows_step (Q := fun _ => True) (fun _ _ => trivial) s a fun _ _ _ _ _ _ _ _ _ => trivial).cfg

theorem cfg_accepted (cfg : Cfg) (fd : Int) (env : Env) : (accepted cfg fd env).cfg = cfg :=
  (grows_openNext (Q := fun _ => True) (fun _ _ => trivial) _ _ _).cfg

/-! ## Sending -/

/-- What sending on connection `o` leaves of the rest of the server. -/
structure Frame (o : Open) (s s' : Server) : Prop where
  cfg : s'.cfg = s.cfg
  pending : s'.pending = s.pending
  log : ∃ news, s'.log = news ++ s.log ∧ ∀ x ∈ news, plain x = true
  nreq : s.nreq ≤ s'.nreq
  others : ∀ r, r ≠ o.id → r < s.nreq → s'.live r = s.live r

/-- What `conn_send` does with the bytes of connection `o`. -/
abbrev sending (o : Open) (s : Server) : Sending := sendLoop s.env.sends o.req.outBuf.data 0

/-- How sending on connection `o` ends. -/
inductive Sent (o : Open) (s s' : Server) : Prop
  | closed (hret : 0 ≤ (sending o s).ret ∨ (sending o s).ret = SHS_ERROR) (hconn : s'.conn = none)
      (hid : s'.live o.id = false ∨ o.req.userdone = false ∧ s'.live o.id = s.live o.id)
  | next (hret : 0 < (sending o s).ret) (hkeep : needClose s.writeCfg o.req = false)
      (halloc : s.env.reqAlloc = true) (c : Conn)
      (hconn : s'.conn = some ⟨s.nreq, freshReq, .readingFirstline, o.armed, c⟩)
      (hnreq : s'.nreq = s.nreq + 1) (hlive : s'.live s.nreq = true)
      (hid : o.id < s.nreq → s'.live o.id = false)
  | blocked (hret : (sending o s).ret < 0 ∧ (sending o s).ret ≠ SHS_ERROR) (c : Conn)
      (hconn : s'.conn = some
        { o with
          armed := true, c := c,
          req := { o.req with outBuf := sentOut o.req.outBuf (sending o s).unsent } })
      (hlive : s'.live = s.live) (hnreq : s'.nreq = s.nreq)

namespace Frame

variable {o : Open} {s s' s'' : Server}

theorem refl (o : Open) (s : Server) : Frame o s s :=
  ⟨rfl, rfl, ⟨[], rfl, by simp⟩, Nat.le_refl _, fun _ _ _ => rfl⟩

theorem trans (h : Frame o s s') (h' : Frame o s' s'') : Frame o s s'' := by
  obtain ⟨n, hn, hp⟩ := h.log
  obtain ⟨n', hn', hp'⟩ := h'.log
  refine ⟨h'.cfg.trans h.cfg, h'.pending.trans h.pending, ⟨n' ++ n, by rw [hn', hn]; simp, ?_⟩,
    Nat.le_trans h.nreq h'.nreq, fun r hr hlt => ?_⟩
  · intro x hx
    exact (List.mem_append.mp hx).elim (hp' x) (hp x)
  · rw [h'.others r hr (Nat.lt_of_lt_of_le hlt h.nreq), h.others r hr hlt]

theorem emit (x : Obs) (hx : plain x = true) : Frame o s (s.emit x) :=
  ⟨rfl, rfl, ⟨[x], rfl, by simpa using hx⟩, Nat.le_refl _, fun _ _ _ => rfl⟩

theorem freeReq : Frame o s (Incoming.freeReq o.id s) :=
  ⟨rfl, rfl, ⟨[_], rfl, by simp [plain]⟩, Nat.le_refl _, fun _ hr _ => if_neg hr⟩

theorem close : Frame o s (Incoming.close s) :=
  ⟨rfl, rfl, ⟨[_], rfl, by simp [plain]⟩, Nat.le_refl _, fun _ _ _ => rfl⟩

theorem withConn (c : Option Open) : Frame o s { s with conn := c } := { refl o s with }

theorem hangUp (ec : HttpCode) : Frame o s (Incoming.hangUp o ec s) := by
  unfold Incoming.hangUp
  split
  · exact (emit _ rfl).trans (freeReq.trans close)
  · exact (emit _ rfl).trans close

end Frame

theorem hangUp_conn (o : Open) (ec : HttpCode) (s : Server) : (hangUp o ec s).conn = none := by
  unfold hangUp
  split <;> rfl

theorem hangUp_live (o : Open) (ec : HttpCode) (s : Server) :
    (hangUp o ec s).live o.id = false ∨
      o.req.userdone = false ∧ (hangUp o ec s).live = s.live := by
  unfold hangUp
  split
  · left; exact if_pos rfl
  · rename_i h
    right; exact ⟨by simpa using h, rfl⟩

/-- What becomes of the connection when a new request is put on it. -/
theorem openNext_cases (armed : Bool) (c : Conn) (s : Server) :
    (openNext armed c s).cfg = s.cfg ∧ (openNext armed c s).pending = s.pending ∧
      (∃ news, (openNext armed c s).log = news ++ s.log ∧ ∀ x ∈ news, plain x = true) ∧
      (∀ r, r < s.nreq → (openNext armed c s).live r = s.live r) ∧
      ((openNext armed c s).conn = none ∧ s.nreq ≤ (openNext armed c s).nreq ∨
        (openNext armed c s).conn =
            some ⟨s.nreq, freshReq, .readingFirstline, armed, nextConn s.env c⟩ ∧
          (openNext armed c s).nreq = s.nreq + 1 ∧ (openNext armed c s).live s.nreq = true ∧
          s.env.reqAlloc = true) := by
  unfold openNext
  split
  · exact ⟨rfl, rfl, ⟨[_], rfl, by simp [plain]⟩, fun _ _ => rfl, .inl ⟨rfl, Nat.le_refl _⟩⟩
  · simp only
    split
    · exact ⟨rfl, rfl, ⟨[], rfl, by simp⟩, fun r hr => if_neg (Nat.ne_of_lt hr),
        .inr ⟨rfl, rfl, if_pos rfl, by rename_i h _; simpa using h⟩⟩
    · refine ⟨rfl, rfl, ⟨[_, _], rfl, by simp [plain]⟩, fun r hr => ?_,
        .inl ⟨rfl, Nat.le_succ _⟩⟩
      simp only [drop, close, freeReq, Server.emit, if_neg (Nat.ne_of_lt hr)]

theorem sendDone_cases (o : Open) (s : Server) (hid : o.id < s.nreq) :
    Frame o s (sendDone o s) ∧
      (sendDone o s).live o.id = false ∧
      ((sendDone o s).conn = none ∨
        ∃ c, (sendDone o s).conn = some ⟨s.nreq, freshReq, .readingFirstline, o.armed, c⟩ ∧
          (sendDone o s).nreq = s.nreq + 1 ∧ (sendDone o s).live s.nreq = true ∧
          needClose s.writeCfg o.req = false ∧ s.env.reqAlloc = true) := by
  unfold sendDone
  split
  · exact ⟨Frame.freeReq.trans Frame.close, if_pos rfl, .inl rfl⟩
  · obtain ⟨hcfg, hpend, ⟨news, hlog, hplain⟩, hlive, hconn⟩ :=
      openNext_cases o.armed o.c (freeReq o.id s)
    refine ⟨⟨hcfg, hpend, ⟨news ++ [.free (.req o.id)], by rw [hlog]; simp [freeReq, Server.emit], ?_⟩, ?_, ?_⟩,
      ?_, ?_⟩
    · intro x hx
      rcases List.mem_append.mp hx with hx | hx
      · exact hplain x hx
      · rw [List.mem_singleton.mp hx]; rfl
    · rcases hconn with h | h
      · exact h.2
      · rw [h.2.1]; exact Nat.le_succ _
    · intro r hr hlt
      rw [hlive r hlt]; exact if_neg hr
    · rw [hlive o.id hid]; exact if_pos rfl
    · refine hconn.elim (fun h => .inl h.1) fun h => .inr ⟨_, h.1, h.2.1, h.2.2.1, ?_, h.2.2.2⟩
      rename_i hclose
      simpa using hclose

/-- **How sending ends.** -/
theorem sent_writeBuffer (o : Open) (s : Server) (hid : o.id < s.nreq) :
    Frame o s (writeBuffer o s) ∧ Sent o s (writeBuffer o s) := by
  unfold writeBuffer
  simp only
  set t := sendLoop s.env.sends o.req.outBuf.data 0 with ht
  have hf : Frame o s (sentServer t o s) ∧ (sentServer t o s).live = s.live ∧
      (sentServer t o s).nreq = s.nreq ∧ (sentServer t o s).writeCfg = s.writeCfg ∧
      (sentServer t o s).env.reqAlloc = s.env.reqAlloc := by
    unfold sentServer
    simp only
    split
    · exact ⟨⟨rfl, rfl, ⟨[_], rfl, by simp [plain]⟩, Nat.le_refl _, fun _ _ _ => rfl⟩, rfl, rfl,
        rfl, rfl⟩
    · exact ⟨⟨rfl, rfl, ⟨[], rfl, by simp⟩, Nat.le_refl _, fun _ _ _ => rfl⟩, rfl, rfl, rfl, rfl⟩
  generalize sentServer t o s = s₁ at hf ⊢
  obtain ⟨hframe, hlive, hnreq, hcfg, halloc⟩ := hf
  split
  · rename_i hret
    have hg : Frame o s₁ (hangUp (sentOpen t o) .writeEof s₁) :=
      { Frame.hangUp (o := sentOpen t o) .writeEof with }
    refine ⟨hframe.trans hg, .closed ?_ (hangUp_conn _ _ _) ?_⟩
    · exact hret.imp (fun h => by rw [show (sending o s).ret = t.ret from rfl]; omega) id
    · refine (hangUp_live (sentOpen t o) .writeEof s₁).imp id fun h => ⟨h.1, ?_⟩
      rw [h.2, hlive]
  · rename_i hret
    split
    · rename_i hpos
      obtain ⟨hg, hdead, hconn⟩ := sendDone_cases (sentOpen t o) s₁ (by rw [hnreq]; exact hid)
      refine ⟨hframe.trans { hg with }, ?_⟩
      rcases hconn with hconn | ⟨c, hconn, hn, hl, hkeep, hal⟩
      · exact .closed (.inl (Int.le_of_lt hpos)) hconn (.inl hdead)
      · rw [hnreq] at hconn hn hl
        rw [hcfg] at hkeep
        rw [halloc] at hal
        exact .next hpos hkeep hal c hconn hn hl fun _ => hdead
    · rename_i hpos
      refine ⟨hframe.trans (Frame.withConn _), .blocked ⟨?_, fun h => hret (.inr h)⟩ _ rfl hlive hnreq⟩
      have h0 : t.ret ≠ 0 := fun h => hret (.inl h)
      have hneg : ¬ t.ret > 0 := hpos
      show t.ret < 0
      omega

/-! ## Events -/

/-- Only the socket of the connection has changed. -/
structure Same (o o' : Open) : Prop where
  id : o'.id = o.id
  req : o'.req = o.req
  status : o'.status = o.status
  armed : o'.armed = o.armed

/-- What a read event makes of the connection: the request and the status the reading functions
leave. -/
structure Read (o o' : Open) (t : Reader) : Prop where
  id : o'.id = o.id
  req : o'.req = t.req
  status : o'.status = t.status
  armed : o'.armed = o.armed

/-- How a read event goes on behind the reading functions, with their result `out`. -/
inductive ReadMove (o' : Open) (s : Server) (out : Reader × Verdict) (s' : Server) : Prop
  | quiet (hv : out.2 = .wait ∨ out.2 = .ignore) (h : s' = { s with conn := some o' })
  | done (hv : out.2 = .done) (h : s' = done o' s)
  | broken (hv : out.2 = .fail .readEof) (h : s' = hangUp o' .readEof s)
  | invalid (ec : HttpCode) (hec : ec = .invalidHeader ∨ ec = .invalidBody)
      (hv : out.2 = .fail ec)
      (h : s' = handle { o' with req := { o'.req with uri := [] } } (s.emit (.connFail 0 ec)))

theorem readHandler_cases (o : Open) (s : Server) (hsize : 0 < o.req.inBuf.size) :
    ∃ o', Read o o' (connRead (o.c.read.active && o.c.read.ready) o.reader).1 ∧
      ReadMove o' s (connRead (o.c.read.active && o.c.read.ready) o.reader) (readHandler o s) := by
  have hr := reads_connRead (o.c.read.active && o.c.read.ready) o.reader hsize
  unfold readHandler
  simp only [Open.reader, eventTimerDel] at hr ⊢
  generalize connRead (o.c.read.active && o.c.read.ready) ⟨o.req, o.status, o.c.rcvq⟩ = out at *
  obtain ⟨t, v⟩ := out
  have hv := hr.verdicts
  simp only at hv
  rcases hv with rfl | rfl | rfl | rfl | rfl | rfl
  · refine ⟨_, ?_, .quiet (.inl rfl) rfl⟩; exact ⟨rfl, rfl, rfl, rfl⟩
  · refine ⟨_, ?_, .quiet (.inr rfl) rfl⟩; exact ⟨rfl, rfl, rfl, rfl⟩
  · refine ⟨_, ?_, .done rfl rfl⟩; exact ⟨rfl, rfl, rfl, rfl⟩
  · refine ⟨_, ?_, .broken rfl rfl⟩; exact ⟨rfl, rfl, rfl, rfl⟩
  · refine ⟨_, ?_, .invalid _ (.inl rfl) rfl rfl⟩; exact ⟨rfl, rfl, rfl, rfl⟩
  · refine ⟨_, ?_, .invalid _ (.inr rfl) rfl rfl⟩; exact ⟨rfl, rfl, rfl, rfl⟩

theorem doneOpen_fields (o : Open) :
    (doneOpen o).id = o.id ∧ (doneOpen o).req = o.req ∧ (doneOpen o).armed = o.armed ∧
      (doneOpen o).status.reading = false ∧
      (o.status = .disconnected → (doneOpen o).status = .disconnected) := by
  unfold doneOpen
  split
  · rename_i h
    exact ⟨rfl, rfl, rfl, rfl, fun h' => absurd h' h⟩
  · rename_i h
    simp only [ne_eq, Decidable.not_not] at h
    exact ⟨rfl, rfl, rfl, by rw [h]; rfl, id⟩

/-- What a step does while connection `o` is open. -/
inductive Turn (o : Open) (s : Server) (a : Act) (s' : Server) : Prop
  | idle (o' : Open) (e : Env) (ho : Same o o') (h : s' = { s with env := e, conn := some o' })
  | read (rs : List RecvResult) (e : Env) (o' : Open) (ha : a = .readable 0 rs e)
      (hd : delivered o.c o.c.read = true) (ho : Same o o') (hq : o'.c.rcvq = o.c.rcvq ++ rs)
      (hready : (o'.c.read.active && o'.c.read.ready) = true)
      (h : s' = readHandler o' { s with env := e })
  | write (e : Env) (o' : Open)
      (ha : a = .writable 0 e ∨ a = .writeTimeout 0 e ∧ o'.c.write.timedout = true)
      (ho : Same o o') (harmed : o.armed = true) (h : s' = writeHandler o' { s with env := e })
  | reply (rep : Reply) (e : Env) (ha : a = .reply o.id rep e) (hr : o.id ∈ s.pending)
      (h : s' = answer rep o { s with env := e, pending := s.pending.erase o.id })
  | detached (r : Nat) (rep : Reply) (e : Env) (ha : a = .reply r rep e) (hr : r ∈ s.pending)
      (hne : r ≠ o.id)
      (h : s' = answerDetached r { s with env := e, pending := s.pending.erase r })

theorem step_turn {s : Server} {o : Open} (ho : s.conn = some o) (a : Act) :
    Turn o s a (step s a) := by
  obtain ⟨cfg, conn, nreq, live, pending, env, log⟩ := s
  simp only at ho
  subst ho
  have hidle : ∀ e, Turn o ⟨cfg, some o, nreq, live, pending, env, log⟩ a
      ⟨cfg, some o, nreq, live, pending, e, log⟩ := fun e => .idle o e ⟨rfl, rfl, rfl, rfl⟩ rfl
  cases a with
  | readable h rs e =>
    simp only [step, onConn]
    split
    · rename_i hh
      subst hh
      unfold onReadable
      simp only
      split
      · rename_i hd
        refine .read rs e _ rfl hd ?_ ?_ ?_ rfl
        · exact ⟨rfl, rfl, rfl, rfl⟩
        · rfl
        · simp only [delivered, Bool.and_eq_true] at hd
          simp only [hd.1.2, Bool.and_self]
      · refine .idle _ e ?_ rfl
        exact ⟨rfl, rfl, rfl, rfl⟩
    · exact hidle e
  | writable h e =>
    simp only [step, onConn]
    split
    · rename_i hh
      subst hh
      unfold onWritable
      split
      · unfold processWrite
        split
        · rename_i harmed
          refine .write e _ (.inl rfl) ?_ harmed rfl
          exact ⟨rfl, rfl, rfl, rfl⟩
        · refine .idle _ e ?_ rfl
          exact ⟨rfl, rfl, rfl, rfl⟩
      · exact hidle e
    · exact hidle e
  | readTimeout h e => exact hidle e
  | writeTimeout h e =>
    simp only [step, onConn]
    split
    · rename_i hh
      subst hh
      unfold onWriteTimeout
      split
      · unfold processWrite
        split
        · rename_i harmed
          refine .write e _ (.inr ⟨rfl, rfl⟩) ?_ harmed rfl
          exact ⟨rfl, rfl, rfl, rfl⟩
        · refine .idle _ e ?_ rfl
          exact ⟨rfl, rfl, rfl, rfl⟩
      · exact hidle e
    · exact hidle e
  | reply r rep e =>
    simp only [step, onReply]
    split
    · rename_i hr
      split
      · rename_i hid
        subst hid
        exact .reply rep e rfl hr rfl
      · rename_i hid
        exact .detached r rep e rfl hr (fun h => hid h.symm) rfl
    · exact hidle e

/-- What a step does when the connection is gone. -/
theorem step_shut {s : Server} (hs : s.conn = none) (a : Act) :
    (∃ e, step s a = { s with env := e }) ∨
      ∃ r rep e, a = .reply r rep e ∧ r ∈ s.pending ∧
        step s a = answerDetached r { s with env := e, pending := s.pending.erase r } := by
  cases a with
  | readable h rs e => left; exact ⟨e, by simp only [step, onConn, hs]⟩
  | writable h e => left; exact ⟨e, by simp only [step, onConn, hs]⟩
  | readTimeout h e => left; exact ⟨e, rfl⟩
  | writeTimeout h e => left; exact ⟨e, by simp only [step, onConn, hs]⟩
  | reply r rep e =>
    simp only [step, onReply]
    split
    · rename_i hr
      right
      exact ⟨r, rep, e, rfl, hr, by simp only [hs]⟩
    · left; exact ⟨e, rfl⟩

/-! ## Runs -/

theorem sim_exec {w : World} {s : Server} (as : List Act) (hs : Sim w s) :
    Sim (Run.exec Loop.step w as) (Run.exec step s as) := by
  induction as using List.reverseRecOn with
  | nil => exact hs
  | append_singleton as a ih =>
    rw [Run.exec_concat, Run.exec_concat]; exact sim_step a ih

end Incoming
end Shs
