import Shs.Downstream.RoundTrip
import Shs.Http.Framing

/-!
# Downstream.Framing

The request that `http_make_request` makes of a request with an arbitrary list of output headers,
read by the parser of the server side: a GET or HEAD always comes through, and a POST when its head
tells the length of its body.
-/

namespace Shs
namespace Downstream

open Http LineStream

/-- The bytes that `http_make_request` has in `req->out` for the request `q`. -/
def madeBytes (w : WriteCfg) (cfg : Cfg) (q : HttpReq) : Bytes :=
  (httpMakeHeader w (prepareRequest cfg q)).outBuf.data

/-- A request with the output headers `us`, and a uri, before `http_make_request`. -/
structure RequestOk (cfg : Cfg) (us : List Header) (q : HttpReq) : Prop where
  table   : q.outputHeaders = tableOf us
  headers : ∀ h ∈ us, FieldOk h
  fits    : us.length ≤ HEADER_NUM
  fresh   : q.outputBody = []
  uri     : ∀ b ∈ cfg.uri, b ≠ SP ∧ b ≠ CR ∧ b ≠ LF ∧ b ≠ NUL
  body    : cfg.body.length < 2 ^ 63

/-- The server side has the request: its method, its uri, its headers in front of the one that was
added, and its body, which is empty for GET and HEAD. -/
structure Received (cfg : Cfg) (us : List Header) (out : Reader × Verdict) : Prop where
  done    : out.2 = .done
  type    : out.1.req.type = cfg.type
  uri     : out.1.req.uri = cfg.uri
  version : out.1.req.major = 1 ∧ out.1.req.minor = 0
  fields  : ∃ es, out.1.req.inputHeaders = tableOf (us ++ es)
  body    : out.1.req.inputBody = sentBody cfg

/-- However the network cuts the request outside its line ends, the server side has all of it. -/
def RequestComesThrough (w : WriteCfg) (cfg : Cfg) (us : List Header) (q : HttpReq) : Prop :=
  ∀ (p : HttpReq) (cs : List Bytes), Listening p → cs.flatten = madeBytes w cfg q →
    CutsOk isEol headAct ⟨.readingFirstline, p.fresh⟩ cs → Received cfg us (readRun p cs)

/-- What the server side knows when it has read the head. -/
def known (cfg : Cfg) (us : List Header) (p : HttpReq) : HttpReq :=
  { p.fresh with
    type := cfg.type, major := 1, minor := 0, uri := cfg.uri
    inputHeaders := tableOf (addFields us (ownEntry cfg us)) }

section Made

variable {w : WriteCfg} {cfg : Cfg} {us : List Header} {q p : HttpReq}

theorem ownFields_ok (h : RequestOk cfg us q) :
    ∀ e ∈ addFields us (ownEntry cfg us), FieldOk e := by
  intro e he
  rcases mem_addFields he with he | he
  · exact h.headers e he
  · exact fieldOk_bodyEntry (mem_ownEntry he)

theorem madeBytes_eq (h : RequestOk cfg us q) :
    madeBytes w cfg q = requestHead cfg (addFields us (ownEntry cfg us)) ++ sentBody cfg :=
  requestBytes_eq (sentHeaders_own h.table h.headers h.fresh) (ownFields_ok h) h.fresh h.uri

theorem made_accepted (h : RequestOk cfg us q) (hp : Listening p) (rest : Bytes) :
    feedHead .readingFirstline p.fresh (requestHead cfg (addFields us (ownEntry cfg us)) ++ rest) =
      .stop (.accepted (known cfg us p)) rest :=
  requestHead_accepted hp (ownFields_ok h) (addFields_length h.fits _) h.uri rest

theorem needsBody_known (hp : Listening p) :
    needsBody (known cfg us p).kind (known cfg us p) = (cfg.type == .post) := by
  rw [show (known cfg us p).kind = .request from hp.kind]
  rfl

/-- What was read of the head, with the body, is the request. -/
theorem received_of_known (h : RequestOk cfg us q) {out : Reader × Verdict} (hdone : out.2 = .done)
    (hsaid : out.1.req.said = (known cfg us p).said) (hbody : out.1.req.inputBody = sentBody cfg) :
    Received cfg us out := by
  have hfields : ∃ es, tableOf (addFields us (ownEntry cfg us)) = tableOf (us ++ es) := by
    rw [addFields_eq h.fits]
    exact ⟨_, rfl⟩
  simp only [HttpReq.said, known, Prod.mk.injEq] at hsaid
  obtain ⟨htype, huri, hmajor, hminor, -, -, hheaders⟩ := hsaid
  exact ⟨hdone, htype, huri, ⟨hmajor, hminor⟩, hheaders ▸ hfields, hbody⟩

/-- The Content-Length that the server side finds when none of the given fields passes for one. -/
theorem find_known_length (h : RequestOk cfg us q) (htype : cfg.type = .post)
    (hnone : ∀ e ∈ us, e.named (str "Content-Length") = false) :
    httpFindHeader (known cfg us p).inputHeaders (str "Content-Length") =
      if hasRoom q.outputHeaders 0 = true then some (decimal cfg.body.length) else none := by
  have hentry := @find_length us [] [] ⟨str "Content-Length", decimal cfg.body.length⟩ h.fits hnone
    (fun e he => by cases he) rfl
  rw [cstr_eq_self fun b hb => (mem_decimal (v := cfg.body.length) hb).1] at hentry
  rw [hasRoom_tableOf ⟨h.table, fun x hx => (h.headers x hx).free, h.fits⟩ 0]
  show httpFindHeader (tableOf (addFields us (ownEntry cfg us))) _ = _
  rw [ownEntry_plain hnone, bodyEntry, if_pos htype]
  simpa using hentry

theorem known_framed_iff (h : RequestOk cfg us q) (htype : cfg.type = .post) :
    httpIsChunked (known cfg us p) = false ∧
        httpGetBodyLength (known cfg us p) = some cfg.body.length ↔
      Framed q.outputHeaders (hasRoom q.outputHeaders 0) cfg.body := by
  have hframed := @framed_iff (known cfg us p) us _ _ cfg.body h.fits h.body rfl
    (fun e he => bodyEntry_coding (mem_ownEntry he)) (find_known_length h htype)
  rwa [← h.table] at hframed

end Made

/-- **A request comes through if and only if it is a GET or HEAD, or its head tells the length of
its body.** -/
theorem requestComesThrough_iff (w : WriteCfg) (cfg : Cfg) (us : List Header) (q : HttpReq)
    (h : RequestOk cfg us q)
    (hfits : (madeBytes w cfg q).length ≤ HEADER_SZ + (sentBody cfg).length) :
    RequestComesThrough w cfg us q ↔
      (cfg.type = .post → Framed q.outputHeaders (hasRoom q.outputHeaders 0) cfg.body) := by
  have hbytes := madeBytes_eq (w := w) h
  have hcap := head_fits hbytes hfits
  have hneeds : ∀ p : HttpReq, Listening p → cfg.type = .post →
      needsBody (known cfg us p).kind (known cfg us p) = true := by
    intro p hp htype
    rw [needsBody_known hp, htype]
    rfl
  constructor
  · intro hthrough htype
    have hp : Listening {} := ⟨rfl, rfl, rfl, rfl⟩
    have hsent : sentBody cfg = cfg.body := if_pos htype
    refine (known_framed_iff h htype).1 (told_of_delivered (made_accepted h hp) hcap
      (hneeds _ hp htype) hp.body hp.readDone fun cs hcs hcuts => ?_)
    have hread := hthrough _ cs hp (by rw [hcs, hbytes, hsent]) hcuts
    exact ⟨hread.done, hread.body.trans hsent⟩
  · intro hframed p cs hp hcs hcuts
    have hhead := made_accepted h hp
    have hwhole := hcs.trans hbytes
    by_cases htype : cfg.type = .post
    · obtain ⟨hchunked, hlength⟩ := (known_framed_iff (p := p) h htype).2 (hframed htype)
      have hsent : sentBody cfg = cfg.body := if_pos htype
      obtain ⟨hdone, hsaid, hbody⟩ := readRun_told hhead hcap (hneeds p hp htype) hp.body
        hp.readDone (sentBody cfg) cs hchunked (by rw [hlength, hsent]) hwhole hcuts
      exact received_of_known h hdone hsaid hbody
    · have hnone : needsBody (known cfg us p).kind (known cfg us p) = false := by
        rw [needsBody_known hp]
        simpa using htype
      obtain ⟨hdone, hsaid, hbody⟩ := readRun_bodyless (hwhole ▸ hhead (sentBody cfg))
        (hwhole ▸ headFits_accepted hhead hcap (sentBody cfg)) hcuts hnone
      have hempty : (known cfg us p).inputBody = [] := hp.body
      have hsent : sentBody cfg = [] := if_neg htype
      exact received_of_known h hdone hsaid (by rw [hbody, hempty, hsent])

/-- A POST with one header of the caller. -/
theorem requestComesThrough_post :
    RequestComesThrough {} { type := .post, uri := str "/a/b?c=d", body := str "x\r\n\r\ny" }
      [⟨str "X-Kind", str "a: b"⟩] { outputHeaders := tableOf [⟨str "X-Kind", str "a: b"⟩] } := by
  have hfield : FieldOk ⟨str "X-Kind", str "a: b"⟩ := fieldOk_of_readable (by decide)
  have hsend : RequestOk { type := .post, uri := str "/a/b?c=d", body := str "x\r\n\r\ny" }
      [⟨str "X-Kind", str "a: b"⟩] { outputHeaders := tableOf [⟨str "X-Kind", str "a: b"⟩] } :=
    ⟨rfl, fun h hh => by rwa [List.mem_singleton.1 hh], by decide, rfl,
      forall_mem_of_all (by decide), by decide⟩
  have hnone : httpFindHeader (tableOf [⟨str "X-Kind", str "a: b"⟩]) (str "Content-Length") =
      none := by
    decide +kernel
  refine (requestComesThrough_iff {} _ _ _ hsend (by decide +kernel)).2 fun _ =>
    ⟨by decide, by decide +kernel, fun v hv => ?_, fun _ => by decide +kernel⟩
  cases hnone.symm.trans hv

/-- A POST with an empty body goes out with `Content-Length: 0`, which `http_get_body_length`
refuses. -/
theorem empty_post_refused :
    let cfg : Cfg := { type := .post, uri := str "/a", body := [] }
    RequestOk cfg [] {} ∧ (madeBytes {} cfg {}).length ≤ HEADER_SZ ∧
      ¬ RequestComesThrough {} cfg [] {} := by
  intro cfg
  refine ⟨⟨rfl, fun h hh => absurd hh List.not_mem_nil, by decide, rfl,
    forall_mem_of_all (by decide), by decide⟩, by decide +kernel, fun hthrough => ?_⟩
  have hdone := (hthrough {} [madeBytes {} cfg {}] ⟨rfl, rfl, rfl, rfl⟩ (by simp)
    (cutsOk_single _ _)).done
  have hfail : (readRun {} [madeBytes {} cfg {}]).2 = .fail .invalidBody := by decide +kernel
  rw [hdone] at hfail
  cases hfail

end Downstream
end Shs
