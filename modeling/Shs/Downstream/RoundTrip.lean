import Shs.Downstream.Request
import Shs.Http.RoundTrip

/-!
# Downstream.RoundTrip

The request that `Request::Execute` sends, read by the parser of the server side: which calls come
through with their method, uri, headers and body, however the network cuts them.
-/

namespace Shs
namespace Downstream

open Http LineStream

/-- The bytes that `http_make_request` has in `req->out` for the attempt `ctx` of the call `cfg`. -/
def requestBytes (w : WriteCfg) (cfg : Cfg) (ctx : Ctx) (q : HttpReq) : Bytes :=
  (httpMakeHeader w (prepareRequest cfg (requestHeaders cfg ctx q))).outBuf.data

/-- A call whose uri and fields can stand in a head; `host` is the address of the host that was
selected. -/
structure CallOk (cfg : Cfg) (ctx : Ctx) : Prop where
  uri     : ∀ b ∈ cfg.uri, b ≠ SP ∧ b ≠ CR ∧ b ≠ LF ∧ b ≠ NUL
  headers : ∀ h ∈ cfg.headers, PlainField h
  fits    : cfg.headers.length ≤ HEADER_NUM
  host    : FieldOk ⟨str "host", ctx.host.getD []⟩
  expires : FieldOk ⟨str "SHS-DS-Expiration", cfg.expiration⟩
  body    : cfg.body.length < 2 ^ 63

/-- A request of the server side that has read nothing yet. -/
structure Listening (p : HttpReq) : Prop where
  kind     : p.kind = .request
  headers  : p.inputHeaders = initHeaders
  body     : p.inputBody = []
  readDone : p.readDone = 0

/-- The server side has the call: its method, its uri, its headers in front of those that were
generated, and its body. -/
structure Arrived (cfg : Cfg) (out : Reader × Verdict) : Prop where
  done    : out.2 = .done
  type    : out.1.req.type = cfg.type
  uri     : out.1.req.uri = cfg.uri
  version : out.1.req.major = 1 ∧ out.1.req.minor = 0
  fields  : ∃ us, out.1.req.inputHeaders = tableOf (cfg.headers ++ us)
  body    : out.1.req.inputBody = cfg.body

/-! ## The table -/

/-- A table of plain fields, the first of them those of the caller. -/
structure Carries (cfg : Cfg) (us : List Header) (q : HttpReq) : Prop where
  table : q.outputHeaders = tableOf us
  plain : ∀ h ∈ us, PlainField h
  front : cfg.headers <+: us
  fits  : us.length ≤ HEADER_NUM

theorem Carries.addIfMissing {cfg : Cfg} {us : List Header} {q : HttpReq} (h : Carries cfg us q)
    {e : Header} (he : PlainField e) : ∃ us', Carries cfg us' (addIfMissing e.key e.value q) := by
  unfold Downstream.addIfMissing
  split
  · exact ⟨us, h⟩
  · refine ⟨addField e us, ?_, ?_, h.front.trans (prefix_addField e us), addField_length h.fits⟩
    · rw [httpAddOutputHeader_tableOf he.ok (fun x hx => (h.plain x hx).ok) h.table]
    · intro x hx
      rcases addField_mem hx with hx | rfl
      · exact h.plain x hx
      · exact he

theorem outputBody_requestHeaders (cfg : Cfg) (ctx : Ctx) (q : HttpReq) :
    (requestHeaders cfg ctx q).outputBody = q.outputBody := by
  have hadd : ∀ (key value : Bytes) (q : HttpReq),
      (addIfMissing key value q).outputBody = q.outputBody := by
    intro key value q
    unfold addIfMissing
    split <;> rfl
  obtain ⟨buf, hs, hw⟩ := writes_addReplyHeaders q cfg.headers
  unfold requestHeaders
  rw [hadd, hadd, hadd]
  show (addReplyHeaders q cfg.headers).outputBody = _
  rw [hw]

/-- The fields with which `Request::Execute` fills the table. -/
theorem carries_requestHeaders {cfg : Cfg} {ctx : Ctx} {q : HttpReq} (h : CallOk cfg ctx)
    (hq : q.outputHeaders = initHeaders) : ∃ us, Carries cfg us (requestHeaders cfg ctx q) := by
  have hgiven : Carries cfg cfg.headers (addReplyHeaders q cfg.headers) := by
    rw [@addReplyHeaders_tableOf q [] cfg.headers (fun x hx => by cases hx)
      (fun x hx => (h.headers x hx).ok) (by simpa using h.fits) (hq.trans tableOf_nil.symm)]
    exact ⟨rfl, h.headers, List.prefix_rfl, h.fits⟩
  obtain ⟨us₁, h₁⟩ := hgiven.addIfMissing (e := ⟨str "host", ctx.host.getD []⟩)
    ⟨h.host, rfl, rfl⟩
  obtain ⟨us₂, h₂⟩ := h₁.addIfMissing (e := ⟨str "SHS-DS-Retry", decimal ctx.retryNum⟩)
    ⟨fieldOk_decimal ctx.retryNum (by decide), rfl, rfl⟩
  exact h₂.addIfMissing (e := ⟨str "SHS-DS-Expiration", cfg.expiration⟩) ⟨h.expires, rfl, rfl⟩

/-! ## The head -/

/-- The request line without its line end. -/
def requestText (type : ReqType) (uri : Bytes) : Bytes :=
  httpMethod type ++ SP :: (uri ++ SP :: str "HTTP/1.0")

theorem mem_httpMethod {type : ReqType} {b : Byte} (hb : b ∈ httpMethod type) :
    b ≠ SP ∧ b ≠ CR ∧ b ≠ LF ∧ b ≠ NUL := by
  have hall : ∀ c ∈ str "GET" ++ str "POST" ++ str "HEAD", c ≠ SP ∧ c ≠ CR ∧ c ≠ LF ∧ c ≠ NUL :=
    forall_mem_of_all (by decide)
  refine hall b ?_
  cases type with
  | get => exact List.mem_append_left _ (List.mem_append_left _ hb)
  | post => exact List.mem_append_left _ (List.mem_append_right _ hb)
  | head => exact List.mem_append_right _ hb

theorem mem_requestText {type : ReqType} {uri : Bytes}
    (huri : ∀ b ∈ uri, b ≠ SP ∧ b ≠ CR ∧ b ≠ LF ∧ b ≠ NUL) {b : Byte}
    (hb : b ∈ requestText type uri) : b ≠ CR ∧ b ≠ LF ∧ b ≠ NUL := by
  have hversion : ∀ c ∈ str "HTTP/1.0", c ≠ CR ∧ c ≠ LF ∧ c ≠ NUL :=
    forall_mem_of_all (by decide)
  simp only [requestText, List.mem_append, List.mem_cons] at hb
  rcases hb with hb | rfl | hb | rfl | hb
  · exact (mem_httpMethod hb).2
  · decide
  · exact (huri b hb).2
  · decide
  · exact hversion b hb

theorem httpParseRequestLine_requestText (p : HttpReq) (type : ReqType) {uri : Bytes}
    (huri : ∀ b ∈ uri, b ≠ SP ∧ b ≠ CR ∧ b ≠ LF ∧ b ≠ NUL) :
    httpParseRequestLine p (requestText type uri) =
      ({ p with type := type, major := 1, minor := 0, uri := uri }, true) := by
  have hline := cstr_eq_self fun b (hb : b ∈ requestText type uri) => (mem_requestText huri hb).2.2
  have hmethod := strsep_token (fun b (hb : b ∈ httpMethod type) => (mem_httpMethod hb).1)
    (uri ++ SP :: str "HTTP/1.0")
  have hpath := strsep_token (fun b hb => (huri b hb).1) (str "HTTP/1.0")
  have hlast : strsep SP (str "HTTP/1.0") = (str "HTTP/1.0", none) := by decide
  have htype : (if httpMethod type = str "GET" then some ReqType.get
      else if httpMethod type = str "POST" then some ReqType.post
      else if httpMethod type = str "HEAD" then some ReqType.head else none) = some type := by
    cases type <;> decide
  rw [httpParseRequestLine, hline, requestText, hmethod]
  simp only [hpath, hlast, htype, if_true]

/-! ## The call -/

/-- The entry that `http_make_request_header` adds to a POST request. -/
def bodyEntry (cfg : Cfg) : List Header :=
  if cfg.type = .post then [⟨str "Content-Length", decimal cfg.body.length⟩] else []

theorem fieldOk_bodyEntry {cfg : Cfg} {e : Header} (he : e ∈ bodyEntry cfg) : FieldOk e := by
  unfold bodyEntry at he
  split at he
  · rw [List.mem_singleton.1 he]
    exact fieldOk_decimal cfg.body.length (by decide)
  · cases he

/-- The entry that it adds to a table with the fields `us`. -/
def ownEntry (cfg : Cfg) (us : List Header) : List Header :=
  if httpExistHeader us (str "Content-Length") = true then [] else bodyEntry cfg

theorem mem_ownEntry {cfg : Cfg} {us : List Header} {e : Header} (he : e ∈ ownEntry cfg us) :
    e ∈ bodyEntry cfg := by
  unfold ownEntry at he
  split at he
  · cases he
  · exact he

theorem ownEntry_plain {cfg : Cfg} {us : List Header}
    (h : ∀ x ∈ us, x.named (str "Content-Length") = false) : ownEntry cfg us = bodyEntry cfg := by
  rw [ownEntry, if_neg]
  rw [Bool.not_eq_true, httpExistHeader, List.any_eq_false]
  intro x hx
  simp [h x hx]

theorem bodyEntry_coding {cfg : Cfg} {e : Header} (he : e ∈ bodyEntry cfg) :
    e.named (str "Transfer-Encoding") = false := by
  unfold bodyEntry at he
  split at he
  · rw [List.mem_singleton.1 he]
    rfl
  · cases he

/-- What `http_make_request` sends as the body. -/
def sentBody (cfg : Cfg) : Bytes := if cfg.type = .post then cfg.body else []

/-- The fields of the head, in their order. -/
def requestFields (cfg : Cfg) (us : List Header) : List Header := addFields us (bodyEntry cfg)

section Call

variable {w : WriteCfg} {cfg : Cfg} {us fs : List Header} {q : HttpReq}

theorem prepareRequest_body (hbody : q.outputBody = []) :
    (prepareRequest cfg q).outputBody = sentBody cfg := by
  show (if cfg.type = .post ∧ cfg.body ≠ [] then cfg.body else q.outputBody) = _
  rw [hbody, sentBody]
  by_cases htype : cfg.type = .post
  · by_cases hnil : cfg.body = []
    · rw [if_neg fun h => h.2 hnil, if_pos htype, hnil]
    · rw [if_pos ⟨htype, hnil⟩, if_pos htype]
  · rw [if_neg fun h => htype h.1, if_neg htype]

/-- The table that goes out, whatever its fields are called. -/
theorem sentHeaders_own (htable : q.outputHeaders = tableOf us) (hus : ∀ x ∈ us, FieldOk x)
    (hbody : q.outputBody = []) :
    sentHeaders w (prepareRequest cfg q) = tableOf (addFields us (ownEntry cfg us)) := by
  have hsent := @prepareRequest_body cfg q hbody
  rw [sentHeaders, show (prepareRequest cfg q).kind = .request from rfl]
  show (httpMakeRequestHeader (prepareRequest cfg q)).outputHeaders = _
  unfold httpMakeRequestHeader
  by_cases hadds : cfg.type = .post ∧ httpExistHeader us (str "Content-Length") = false
  · obtain ⟨htype, hexist⟩ := hadds
    have hlen : (prepareRequest cfg q).outputBody.length = cfg.body.length := by
      rw [hsent, sentBody, if_pos htype]
    have hadd := congrArg HttpReq.outputHeaders (httpAddOutputHeader_tableOf
      (@fieldOk_decimal (str "Content-Length") cfg.body.length (by decide)) hus htable)
    rw [if_pos ⟨htype, by
      show (!httpExistHeader q.outputHeaders _) = true
      rw [htable, httpExistHeader_tableOf, hexist]
      rfl⟩, ownEntry, if_neg (Bool.eq_false_iff.1 hexist), bodyEntry, if_pos htype]
    show (httpAddOutputHeader q (str "Content-Length")
      (decimal (prepareRequest cfg q).outputBody.length)).outputHeaders = _
    rw [hlen]
    exact hadd
  · have hnone : ownEntry cfg us = [] := by
      unfold ownEntry bodyEntry
      split
      · rfl
      · rename_i hexist
        exact if_neg fun htype => hadds ⟨htype, Bool.eq_false_iff.2 hexist⟩
    rw [if_neg, hnone]
    · exact htable
    · rintro ⟨htype, hexist⟩
      refine hadds ⟨htype, ?_⟩
      have hexist : (!httpExistHeader q.outputHeaders (str "Content-Length")) = true := hexist
      rw [htable, httpExistHeader_tableOf] at hexist
      simpa using hexist

theorem sentHeaders_request (h : Carries cfg us q) (hbody : q.outputBody = []) :
    sentHeaders w (prepareRequest cfg q) = tableOf (requestFields cfg us) := by
  rw [sentHeaders_own h.table (fun x hx => (h.plain x hx).ok) hbody,
    ownEntry_plain fun x hx => (h.plain x hx).length]
  rfl

theorem requestFields_ok (h : Carries cfg us q) : ∀ e ∈ requestFields cfg us, FieldOk e := by
  intro e he
  rcases mem_addFields he with he | he
  · exact (h.plain e he).ok
  · exact fieldOk_bodyEntry he

/-- The request line, the fields and an empty line. -/
def requestHead (cfg : Cfg) (fs : List Header) : Bytes :=
  requestText cfg.type cfg.uri ++ (CRLF ++
    ((fs.map fun h => fieldLine h ++ CRLF).flatten ++ CRLF))

/-- The bytes of the request: its head and its body. -/
theorem requestBytes_eq (hsent : sentHeaders w (prepareRequest cfg q) = tableOf fs)
    (hfs : ∀ e ∈ fs, FieldOk e) (hbody : q.outputBody = [])
    (huri : ∀ b ∈ cfg.uri, b ≠ SP ∧ b ≠ CR ∧ b ≠ LF ∧ b ≠ NUL) :
    (httpMakeHeader w (prepareRequest cfg q)).outBuf.data =
      requestHead cfg fs ++ sentBody cfg := by
  have hline : firstLine w (prepareRequest cfg q) = requestText cfg.type cfg.uri ++ CRLF := by
    have hversion : str " HTTP/" ++ decimal (1 : Nat) ++ str "." ++ decimal (0 : Nat) =
        SP :: str "HTTP/1.0" := by decide
    show httpMethod cfg.type ++ [SP] ++ cstr cfg.uri ++ str " HTTP/" ++ decimal (1 : Nat) ++
      str "." ++ decimal (0 : Nat) ++ CRLF = _
    rw [cstr_eq_self fun b hb => (huri b hb).2.2.2, requestText, ← hversion]
    simp
  have hout : (prepareRequest cfg q).outBuf.data = [] := rfl
  rw [httpMakeHeader_message w hout, head, hline, hsent, headerLine_tableOf hfs,
    prepareRequest_body hbody]
  simp [requestHead]

/-- What the server side knows when it has read the head. -/
def heard (cfg : Cfg) (us : List Header) (p : HttpReq) : HttpReq :=
  { p.fresh with
    type := cfg.type, major := 1, minor := 0, uri := cfg.uri
    inputHeaders := tableOf (requestFields cfg us) }

theorem requestHead_accepted {p : HttpReq} (hp : Listening p) (hfs : ∀ e ∈ fs, FieldOk e)
    (hl : fs.length ≤ HEADER_NUM) (huri : ∀ b ∈ cfg.uri, b ≠ SP ∧ b ≠ CR ∧ b ≠ LF ∧ b ≠ NUL)
    (rest : Bytes) :
    feedHead .readingFirstline p.fresh (requestHead cfg fs ++ rest) =
      .stop (.accepted { p.fresh with
        type := cfg.type, major := 1, minor := 0, uri := cfg.uri, inputHeaders := tableOf fs })
        rest := by
  have hparse : parseFirstline p.fresh (requestText cfg.type cfg.uri) =
      ({ p.fresh with type := cfg.type, major := 1, minor := 0, uri := cfg.uri }, true) := by
    rw [parseFirstline, show p.fresh.kind = .request from hp.kind]
    exact httpParseRequestLine_requestText p.fresh cfg.type huri
  have hline : ∀ b ∈ requestText cfg.type cfg.uri, b ≠ CR ∧ b ≠ LF :=
    fun b hb => ⟨(mem_requestText huri hb).1, (mem_requestText huri hb).2.1⟩
  rw [requestHead, List.append_assoc, List.append_assoc, List.append_assoc,
    feedHead_head hline hparse hp.headers hfs hl]

theorem request_accepted {p : HttpReq} (h : Carries cfg us q) (hp : Listening p)
    (huri : ∀ b ∈ cfg.uri, b ≠ SP ∧ b ≠ CR ∧ b ≠ LF ∧ b ≠ NUL) (rest : Bytes) :
    feedHead .readingFirstline p.fresh (requestHead cfg (requestFields cfg us) ++ rest) =
      .stop (.accepted (heard cfg us p)) rest :=
  requestHead_accepted hp (requestFields_ok h) (addFields_length h.fits _) huri rest

/-- The body length that the server side takes from the head. -/
theorem heard_length {p : HttpReq} (h : Carries cfg us q) (htype : cfg.type = .post)
    (hlen : cfg.body.length < 2 ^ 63) :
    httpGetBodyLength (heard cfg us p) =
      if cfg.body ≠ [] ∧ us.length < HEADER_NUM then some cfg.body.length else none := by
  have hfind : httpFindHeader (heard cfg us p).inputHeaders (str "Content-Length") =
      if us.length < HEADER_NUM then some (decimal cfg.body.length) else none := by
    show httpFindHeader (tableOf (requestFields cfg us)) _ = _
    have hentry := @find_length us [] [] ⟨str "Content-Length", decimal cfg.body.length⟩ h.fits
      (fun e he => (h.plain e he).length) (fun e he => by cases he) rfl
    rw [cstr_eq_self fun b hb => (mem_decimal (v := cfg.body.length) hb).1] at hentry
    rw [requestFields, bodyEntry, if_pos htype]
    exact hentry
  by_cases hroom : us.length < HEADER_NUM
  · rw [if_pos hroom] at hfind
    rw [httpGetBodyLength_decimal hlen hfind]
    simp [hroom]
  · rw [if_neg hroom] at hfind
    rw [httpGetBodyLength, hfind, if_neg fun hc => hroom hc.2]

theorem heard_not_chunked {p : HttpReq} (h : Carries cfg us q) :
    httpIsChunked (heard cfg us p) = false := by
  refine not_chunked rfl fun e he => ?_
  rcases mem_addFields he with he | he
  · exact (h.plain e he).coding
  · exact bodyEntry_coding he

end Call

/-- **A call arrives if and only if it has a body and is a POST with a slot for its length, or has
none and is a GET or HEAD.** -/
theorem request_read_iff (w : WriteCfg) (cfg : Cfg) (ctx : Ctx) (q p : HttpReq) (cs : List Bytes)
    (hcfg : CallOk cfg ctx) (hq : q.outputHeaders = initHeaders) (hbody : q.outputBody = [])
    (hp : Listening p)
    (hfits : (requestBytes w cfg ctx q).length ≤ HEADER_SZ + (sentBody cfg).length)
    (hcs : cs.flatten = requestBytes w cfg ctx q)
    (hcuts : CutsOk isEol headAct ⟨.readingFirstline, p.fresh⟩ cs) :
    Arrived cfg (readRun p cs) ↔
      if cfg.type = .post then
        cfg.body ≠ [] ∧ hasRoom (requestHeaders cfg ctx q).outputHeaders 0 = true
      else cfg.body = [] := by
  obtain ⟨us, h⟩ := carries_requestHeaders hcfg hq
  have hbody := (outputBody_requestHeaders cfg ctx q).trans hbody
  have hbytes : requestBytes w cfg ctx q = requestHead cfg (requestFields cfg us) ++ sentBody cfg :=
    requestBytes_eq (sentHeaders_request h hbody) (requestFields_ok h) hbody hcfg.uri
  have hhead : feedHead .readingFirstline p.fresh cs.flatten =
      .stop (.accepted (heard cfg us p)) (sentBody cfg) := by
    rw [hcs, hbytes]
    exact request_accepted h hp hcfg.uri (sentBody cfg)
  have hfit : HeadFits p cs.flatten := by
    rw [hcs, hbytes]
    exact headFits_accepted (request_accepted h hp hcfg.uri) (head_fits hbytes hfits) (sentBody cfg)
  have hroom : hasRoom (requestHeaders cfg ctx q).outputHeaders 0 = decide (us.length < HEADER_NUM) :=
    hasRoom_tableOf ⟨h.table, fun x hx => (h.plain x hx).ok.free, h.fits⟩ 0
  have hkind : (heard cfg us p).kind = .request := hp.kind
  have hfields : ∃ es, tableOf (requestFields cfg us) = tableOf (cfg.headers ++ es) := by
    obtain ⟨es, hes⟩ := h.front
    rw [requestFields, addFields_eq h.fits, ← hes, List.append_assoc]
    exact ⟨_, rfl⟩
  have harrived : ∀ out : Reader × Verdict, out.2 = .done → out.1.req.said = (heard cfg us p).said →
      out.1.req.inputBody = cfg.body → Arrived cfg out := by
    intro out hdone hsaid hread
    simp only [HttpReq.said, heard, Prod.mk.injEq] at hsaid
    obtain ⟨htype, huri, hmajor, hminor, -, -, hheaders⟩ := hsaid
    exact ⟨hdone, htype, huri, ⟨hmajor, hminor⟩, hheaders ▸ hfields, hread⟩
  rw [hroom, decide_eq_true_iff]
  by_cases htype : cfg.type = .post
  · have hneeds : needsBody (heard cfg us p).kind (heard cfg us p) = true := by
      rw [hkind]
      simpa [needsBody, heard] using htype
    have hlength := @heard_length cfg us _ p h htype hcfg.body
    rw [if_pos htype]
    by_cases hcond : cfg.body ≠ [] ∧ us.length < HEADER_NUM
    · rw [if_pos hcond] at hlength
      have hsent : sentBody cfg = cfg.body := if_pos htype
      obtain ⟨hdone, hsaid, hread⟩ := readRun_body hhead hfit hcuts hneeds (heard_not_chunked h)
        (by rw [hlength, hsent]) hp.body hp.readDone
      exact iff_of_true (harrived _ hdone hsaid (hread.trans hsent)) hcond
    · rw [if_neg hcond] at hlength
      have hfail := readRun_refused hhead hfit hcuts hneeds (.inr hlength)
      refine iff_of_false (fun ha => ?_) hcond
      rw [ha.done] at hfail
      cases hfail
  · have hnone : needsBody (heard cfg us p).kind (heard cfg us p) = false := by
      rw [hkind]
      simpa [needsBody, heard] using htype
    obtain ⟨hdone, hsaid, hread⟩ := readRun_bodyless hhead hfit hcuts hnone
    have hempty : (heard cfg us p).inputBody = [] := hp.body
    rw [if_neg htype]
    constructor
    · intro ha
      rw [← ha.body, hread, hempty]
    · intro hnil
      exact harrived _ hdone hsaid (by rw [hread, hempty, hnil])

/-- A POST with one header of its own, cut inside the body. -/
theorem request_read_post :
    let cfg : Cfg :=
      { type := .post, uri := str "/a/b?c=d", body := str "x\r\n\r\ny"
        headers := [⟨str "X-Kind", str "a: b"⟩], expiration := str "1700000000000000" }
    let ctx : Ctx := { host := some (str "10.0.0.1"), retryNum := 3 }
    let bytes := requestBytes {} cfg ctx {}
    Arrived cfg (readRun {} [bytes.take (bytes.length - 1), bytes.drop (bytes.length - 1)]) := by
  intro cfg ctx bytes
  have hfield : PlainField ⟨str "X-Kind", str "a: b"⟩ :=
    ⟨fieldOk_of_readable (by decide), by decide, by decide⟩
  have hcfg : CallOk cfg ctx :=
    ⟨forall_mem_of_all (by decide), fun h hh => by rwa [List.mem_singleton.1 hh], by decide,
      fieldOk_of_readable (by decide), fieldOk_of_readable (by decide),
      by decide⟩
  have hwhole : [bytes.take (bytes.length - 1), bytes.drop (bytes.length - 1)].flatten = bytes := by
    simp
  have hcut : CutOk isEol (bytes.take (bytes.length - 1)) (bytes.drop (bytes.length - 1)) :=
    cutOk_of_badCut (by decide +kernel)
  exact (request_read_iff {} cfg ctx {} {} _ hcfg rfl rfl ⟨rfl, rfl, rfl, rfl⟩ (by decide +kernel)
    hwhole (cutsOk_pair fun _ => hcut)).2 (by decide)

end Downstream
end Shs
