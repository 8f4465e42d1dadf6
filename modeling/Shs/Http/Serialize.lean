import Shs.Http.Request

/-!
# Http.Serialize

The writing side of `http.cc` that touches a request only: the response code, the generated
headers, the message in `req->out`, and the pages the server sends by itself.
-/

namespace Shs
namespace Http

/-- The flag and the clock that the writing functions read: `FLAGS_disable_http_keepalive` and
the text `strftime` gives for the Date header. -/
structure WriteCfg where
  disableHttpKeepalive : Bool := false
  date : Bytes := []
  deriving DecidableEq, Repr

def CRLF : Bytes := [CR, LF]

def httpMethod : ReqType → Bytes
  | .get => str "GET"
  | .post => str "POST"
  | .head => str "HEAD"

/-! ## The head of a message -/

/-- Text written at `req->out->last`. -/
def putOut (q : HttpReq) (bs : Bytes) : HttpReq := { q with outBuf := bufferUsed q.outBuf bs }

def httpMakeRequestHeader (q : HttpReq) : HttpReq :=
  let q := putOut q (httpMethod q.type ++ [SP] ++ cstr q.uri ++ str " HTTP/" ++ decimal q.major ++
    str "." ++ decimal q.minor ++ CRLF)
  if q.type = .post ∧ !httpExistHeader q.outputHeaders (str "Content-Length") then
    httpAddOutputHeader q (str "Content-Length") (decimal q.outputBody.length)
  else q

def httpAddDateHeader (cfg : WriteCfg) (q : HttpReq) : HttpReq :=
  if httpExistHeader q.outputHeaders (str "Date") then q
  else httpAddOutputHeader q (str "Date") cfg.date

def httpAddContentLengthHeader (q : HttpReq) (contentLength : Nat) : HttpReq :=
  if httpExistHeader q.outputHeaders (str "Transfer-Encoding") ||
      httpExistHeader q.outputHeaders (str "Content-Length") then q
  else httpAddOutputHeader q (str "Content-Length") (decimal contentLength)

def httpMakeResponseHeader (cfg : WriteCfg) (q : HttpReq) : HttpReq :=
  let isKeepalive := httpIsConnectionKeepalive q.inputHeaders && !cfg.disableHttpKeepalive
  let minor := if cfg.disableHttpKeepalive then 0 else q.minor
  let q := putOut q (str "HTTP/" ++ decimal q.major ++ str "." ++ decimal minor ++ [SP] ++
    decimal q.responseCode ++ [SP] ++ cstr q.responseCodeLine ++ CRLF)
  let q :=
    if q.major = 1 then
      let q := if minor = 1 then httpAddDateHeader cfg q else q
      let q :=
        if minor = 0 && isKeepalive then
          httpAddOutputHeader q (str "Connection") (str "keep-alive")
        else q
      httpAddContentLengthHeader q q.outputBody.length
    else q
  let q :=
    if q.outputBody.length ≠ 0 ∧ !httpExistHeader q.outputHeaders (str "Content-Type") then
      httpAddOutputHeader q (str "Content-Type") (str "text/html; charset=ISO-8859-1")
    else q
  if cfg.disableHttpKeepalive || httpIsConnectionClose q.inputHeaders then
    httpAddOutputHeader q (str "Connection") (str "close")
  else q

/-- The line of one slot of the output table, empty for a slot without name or value. -/
def headerLine (h : Header) : Bytes :=
  if h.key.length ≠ 0 ∧ h.value.length ≠ 0 then cstr h.key ++ str ": " ++ cstr h.value ++ CRLF
  else []

/-- The end of `http_make_header`: with a body, `req->out` becomes a new buffer of exactly the size
of the message. -/
def joinBody (q : HttpReq) : HttpReq :=
  if q.outputBody.length ≠ 0 then
    let bytes := q.outBuf.data ++ q.outputBody
    { q with outBuf := ⟨bytes.length, 0, bytes⟩ }
  else q

/-- `http_make_header`: the message in `req->out`. -/
def httpMakeHeader (cfg : WriteCfg) (q : HttpReq) : HttpReq :=
  let q :=
    match q.kind with
    | .request => httpMakeRequestHeader q
    | .response => httpMakeResponseHeader cfg q
  joinBody (putOut q ((q.outputHeaders.map headerLine).flatten ++ CRLF))

/-! ## Replies -/

def httpResponseCode (q : HttpReq) (code : Int) (reason : Bytes) : HttpReq :=
  { q with kind := .response, responseCode := code, responseCodeLine := reason }

/-- `http_send` up to `http_make_header`. -/
def makeSend (cfg : WriteCfg) (q : HttpReq) (data : Bytes) : HttpReq :=
  let q := { q with userdone := true }
  let q := if data = [] then q else { q with outputBody := data }
  httpMakeHeader cfg q

/-- `http_send_page` up to `http_write_buffer`. -/
def makePage (cfg : WriteCfg) (q : HttpReq) (data : Bytes) : HttpReq :=
  let q := if q.major = 0 ∨ q.minor = 0 then { q with major := 1, minor := 1 } else q
  let q := if q.kind ≠ .response then httpResponseCode q 200 (str "OK") else q
  let q := httpAddOutputHeader q (str "Content-Type") (str "text/html")
  let q := httpAddOutputHeader q (str "Connection") (str "close")
  makeSend cfg q data

/-- `http_send_error` up to `http_write_buffer`. -/
def makeError (cfg : WriteCfg) (q : HttpReq) (error : Int) (reason : Bytes) : HttpReq :=
  makePage cfg (httpResponseCode q error reason)
    (str "<HTML><HEAD>\n<TITLE>" ++ decimal error ++ [SP] ++ cstr reason ++
      str "</TITLE>\n</HEAD><BODY>\n<H1>Method Not Implemented</H1>\nInvalid method in request<P>\n</BODY></HTML>\n")

def htmlReplace (ch : Byte) : Bytes :=
  if ch = 60 then str "&lt;"
  else if ch = 62 then str "&gt;"
  else if ch = 34 then str "&quot;"
  else if ch = 39 then str "&#039;"
  else if ch = 38 then str "&amp;"
  else [ch]

def httpHtmlescape (html : Bytes) : Bytes := (html.map htmlReplace).flatten

/-- The 404 page of `http_handle_request` up to `http_write_buffer`. -/
def makeNotFound (cfg : WriteCfg) (q : HttpReq) : HttpReq :=
  makePage cfg (httpResponseCode q 404 (str "Not Found"))
    (str "<html><head><title>404 Not Found</title></head><body><h1>Not Found</h1><p>The requested URL "
      ++ httpHtmlescape (cstr q.uri) ++ str " was not found on this server.</p></body></html>\n")

/-- What a module answers with: the headers it adds and the arguments of `http_send_reply`. -/
structure Reply where
  headers : List Header := []
  code : Int := 200
  reason : Bytes := str "OK"
  data : Bytes := []
  deriving DecidableEq, Repr

def addReplyHeaders (q : HttpReq) (hs : List Header) : HttpReq :=
  hs.foldl (fun q h => httpAddOutputHeader q h.key h.value) q

/-- `http_send_reply` up to `http_write_buffer`, for a request that still has its connection. -/
def makeReply (cfg : WriteCfg) (q : HttpReq) (rep : Reply) : HttpReq :=
  makeSend cfg (httpResponseCode q rep.code rep.reason) rep.data

/-- Whether `http_send_done` closes the connection. -/
def needClose (cfg : WriteCfg) (q : HttpReq) : Bool :=
  (q.minor == 0 && !httpIsConnectionKeepalive q.inputHeaders)
    || httpIsConnectionClose q.inputHeaders
    || httpIsConnectionClose q.outputHeaders
    || (q.minor == 1 && cfg.disableHttpKeepalive)

example : (httpMakeHeader {} { kind := .request, type := .get, uri := str "/a", major := 1 }).outBuf.data
    = str "GET /a HTTP/1.0\r\n\r\n" := by decide +kernel

/-! ## What writing leaves alone -/

/-- Only the output buffer and the output headers have changed. -/
def Writes (q q' : HttpReq) : Prop :=
  ∃ buf hs, q' = { q with outBuf := buf, outputHeaders := hs }

theorem Writes.refl (q : HttpReq) : Writes q q := ⟨q.outBuf, q.outputHeaders, rfl⟩

theorem Writes.trans {q q' q'' : HttpReq} (h : Writes q q') (h' : Writes q' q'') :
    Writes q q'' := by
  obtain ⟨b, hs, rfl⟩ := h
  obtain ⟨b', hs', rfl⟩ := h'
  exact ⟨b', hs', rfl⟩

theorem writes_addOutputHeader (q : HttpReq) (key value : Bytes) :
    Writes q (httpAddOutputHeader q key value) := ⟨q.outBuf, _, rfl⟩

theorem writes_putOut (q : HttpReq) (bs : Bytes) : Writes q (putOut q bs) :=
  ⟨_, q.outputHeaders, rfl⟩

theorem Writes.ite {c : Prop} [Decidable c] {q q₁ q₂ : HttpReq} (h₁ : Writes q q₁)
    (h₂ : Writes q q₂) : Writes q (if c then q₁ else q₂) := by
  split
  · exact h₁
  · exact h₂

theorem Writes.addIf {c : Prop} [Decidable c] {q q₁ : HttpReq} {key value : Bytes}
    (h : Writes q q₁) : Writes q (if c then httpAddOutputHeader q₁ key value else q₁) :=
  .ite (h.trans (writes_addOutputHeader _ _ _)) h

theorem writes_joinBody (q : HttpReq) : Writes q (joinBody q) :=
  .ite ⟨_, q.outputHeaders, rfl⟩ (.refl q)

theorem writes_httpMakeRequestHeader (q : HttpReq) : Writes q (httpMakeRequestHeader q) :=
  .addIf (writes_putOut q _)

theorem writes_httpAddDateHeader (cfg : WriteCfg) (q : HttpReq) :
    Writes q (httpAddDateHeader cfg q) := .ite (.refl q) (writes_addOutputHeader q _ _)

theorem writes_httpAddContentLengthHeader (q : HttpReq) (n : Nat) :
    Writes q (httpAddContentLengthHeader q n) := .ite (.refl q) (writes_addOutputHeader q _ _)

theorem writes_httpMakeResponseHeader (cfg : WriteCfg) (q : HttpReq) :
    Writes q (httpMakeResponseHeader cfg q) := by
  unfold httpMakeResponseHeader
  simp only
  refine .addIf (.addIf (.ite (Writes.trans (.addIf (.ite ?_ ?_))
    (writes_httpAddContentLengthHeader _ _)) ?_))
  · exact (writes_putOut q _).trans (writes_httpAddDateHeader cfg _)
  · exact writes_putOut q _
  · exact writes_putOut q _

theorem writes_httpMakeHeader (cfg : WriteCfg) (q : HttpReq) : Writes q (httpMakeHeader cfg q) := by
  unfold httpMakeHeader
  refine Writes.trans ?_ ((writes_putOut _ _).trans (writes_joinBody _))
  split
  · exact writes_httpMakeRequestHeader q
  · exact writes_httpMakeResponseHeader cfg q

theorem writes_addReplyHeaders (q : HttpReq) (hs : List Header) :
    Writes q (addReplyHeaders q hs) := by
  induction hs generalizing q with
  | nil => exact .refl q
  | cons h hs ih => exact (writes_addOutputHeader q h.key h.value).trans (ih _)

/-- The fields that tie a request to its connection and its caller, and what was read of it. -/
def HttpReq.links (q : HttpReq) :
    Bool × Option Nat × Option ReqCb × Buffer × Bytes × Bytes × List Header × ReqType :=
  (q.live, q.hc, q.cb, q.inBuf, q.uri, q.rx, q.inputHeaders, q.type)

theorem Writes.links {q q' : HttpReq} (h : Writes q q') : q'.links = q.links := by
  obtain ⟨b, hs, rfl⟩ := h
  rfl

/-- `http_send` makes a message of a request, and the request is no longer the module's. -/
theorem makeSend_fields (cfg : WriteCfg) (q : HttpReq) (data : Bytes) :
    (makeSend cfg q data).links = q.links ∧ (makeSend cfg q data).userdone = true ∧
      (makeSend cfg q data).kind = q.kind ∧ (makeSend cfg q data).minor = q.minor := by
  unfold makeSend
  simp only
  generalize hq : (if data = [] then { q with userdone := true }
    else { q with userdone := true, outputBody := data }) = q₁
  have hq₁ : q₁.links = q.links ∧ q₁.userdone = true ∧ q₁.kind = q.kind ∧ q₁.minor = q.minor := by
    rw [← hq]
    split <;> exact ⟨rfl, rfl, rfl, rfl⟩
  obtain ⟨b, hs, h⟩ := writes_httpMakeHeader cfg q₁
  have hl := (writes_httpMakeHeader cfg q₁).links
  rw [h] at hl ⊢
  exact ⟨hl.trans hq₁.1, hq₁.2⟩

theorem makePage_fields (cfg : WriteCfg) (q : HttpReq) (data : Bytes) :
    (makePage cfg q data).links = q.links ∧ (makePage cfg q data).userdone = true ∧
      (makePage cfg q data).kind = .response := by
  unfold makePage
  simp only
  generalize h₁ : (if q.major = 0 ∨ q.minor = 0 then { q with major := 1, minor := 1 } else q) = q₁
  generalize h₂ : (if q₁.kind ≠ .response then httpResponseCode q₁ 200 (str "OK") else q₁) = q₂
  have hq₁ : q₁.links = q.links := by
    rw [← h₁]; split <;> rfl
  have hq₂ : q₂.links = q₁.links ∧ q₂.kind = .response := by
    rw [← h₂]
    split
    · exact ⟨rfl, rfl⟩
    · rename_i h
      exact ⟨rfl, by simpa using h⟩
  obtain ⟨hl, hu, hk, -⟩ := makeSend_fields cfg (httpAddOutputHeader (httpAddOutputHeader q₂
    (str "Content-Type") (str "text/html")) (str "Connection") (str "close")) data
  exact ⟨hl.trans (hq₂.1.trans hq₁), hu, hk.trans hq₂.2⟩

theorem links_makeError (cfg : WriteCfg) (q : HttpReq) (error : Int) (reason : Bytes) :
    (makeError cfg q error reason).links = q.links := (makePage_fields cfg _ _).1

theorem links_makeNotFound (cfg : WriteCfg) (q : HttpReq) :
    (makeNotFound cfg q).links = q.links := (makePage_fields cfg _ _).1

theorem links_addReplyHeaders (q : HttpReq) (hs : List Header) :
    (addReplyHeaders q hs).links = q.links := (writes_addReplyHeaders q hs).links

theorem links_makeReply (cfg : WriteCfg) (q : HttpReq) (rep : Reply) :
    (makeReply cfg q rep).links = q.links := (makeSend_fields cfg _ _).1

/-! ## Pages close the connection -/

/-- The first Connection header of a table says `close`, and no free slot is before it. -/
def ClosedTable (hs : List Header) : Prop :=
  ∃ pre h post, hs = pre ++ h :: post ∧
    (∀ x ∈ pre, x.free = false ∧ x.named (str "Connection") = false) ∧
    h.named (str "Connection") = true ∧ strncasecmpEq 5 (cstr h.value) (str "close") = true

theorem ClosedTable.isClose {hs : List Header} (h : ClosedTable hs) :
    httpIsConnectionClose hs = true := by
  obtain ⟨pre, x, post, rfl, hpre, hx, hv⟩ := h
  have hfind : (pre ++ x :: post).find? (Header.named (str "Connection")) = some x := by
    rw [List.find?_append, List.find?_cons_of_pos hx]
    have : pre.find? (Header.named (str "Connection")) = none := by
      rw [List.find?_eq_none]
      intro y hy
      rw [(hpre y hy).2]; decide
    rw [this]; rfl
  simp only [httpIsConnectionClose, httpFindHeader, hfind, Option.map_some, hv]

theorem fillSlot_append (e : Header) {pre : List Header} (h : ∀ x ∈ pre, x.free = false)
    (post : List Header) : fillSlot e (pre ++ post) = pre ++ fillSlot e post := by
  induction pre with
  | nil => rfl
  | cons x pre ih =>
    have hx := h x (by simp)
    simp only [List.cons_append, fillSlot, hx, Bool.false_eq_true, if_false,
      ih fun y hy => h y (by simp [hy])]

theorem ClosedTable.fillSlot {hs : List Header} (h : ClosedTable hs) (e : Header) :
    ClosedTable (Http.fillSlot e hs) := by
  obtain ⟨pre, x, post, rfl, hpre, hx, hv⟩ := h
  have hfree : x.free = false := by
    simp only [Header.named, Bool.and_eq_true, Bool.not_eq_true'] at hx
    simp only [Header.free, hx.1, Bool.false_and]
  refine ⟨pre, x, Http.fillSlot e post, ?_, hpre, hx, hv⟩
  rw [fillSlot_append e fun y hy => (hpre y hy).1]
  simp only [Http.fillSlot, hfree, Bool.false_eq_true, if_false]

theorem ClosedTable.add {q : HttpReq} (h : ClosedTable q.outputHeaders) (key value : Bytes) :
    ClosedTable (httpAddOutputHeader q key value).outputHeaders := by
  simp only [httpAddOutputHeader, addHeader]
  split
  · exact h
  · exact h.fillSlot _

theorem ClosedTable.ite {c : Prop} [Decidable c] {q q' : HttpReq}
    (h : ClosedTable q.outputHeaders) (h' : ClosedTable q'.outputHeaders) :
    ClosedTable (if c then q else q').outputHeaders := by
  split
  · exact h
  · exact h'

theorem ClosedTable.addIf {c : Prop} [Decidable c] {q : HttpReq} {key value : Bytes}
    (h : ClosedTable q.outputHeaders) :
    ClosedTable (if c then httpAddOutputHeader q key value else q).outputHeaders :=
  .ite (h.add key value) h

theorem ClosedTable.httpMakeHeader (cfg : WriteCfg) {q : HttpReq}
    (h : ClosedTable q.outputHeaders) : ClosedTable (Http.httpMakeHeader cfg q).outputHeaders := by
  have hjoin : ∀ q : HttpReq, (joinBody q).outputHeaders = q.outputHeaders := by
    intro q; unfold joinBody; split <;> rfl
  have hlen : ∀ (q : HttpReq) (n : Nat), ClosedTable q.outputHeaders →
      ClosedTable (httpAddContentLengthHeader q n).outputHeaders := fun q n h =>
    .ite h (h.add _ _)
  have hdate : ∀ q : HttpReq, ClosedTable q.outputHeaders →
      ClosedTable (httpAddDateHeader cfg q).outputHeaders := fun q h => .ite h (h.add _ _)
  have hput : ∀ (q : HttpReq) (bs : Bytes), ClosedTable q.outputHeaders →
      ClosedTable (putOut q bs).outputHeaders := fun _ _ h => h
  unfold Http.httpMakeHeader
  simp only [hjoin]
  refine hput _ _ ?_
  split
  · exact .addIf (hput q _ h)
  · unfold httpMakeResponseHeader
    simp only
    exact .addIf (.addIf (.ite (hlen _ _ (.addIf (.ite (hdate _ (hput q _ h)) (hput q _ h))))
      (hput q _ h)))

/-- `http_send_page` adds its Connection header to a table that is empty, or has one already. -/
theorem closed_makePage (cfg : WriteCfg) (q : HttpReq) (data : Bytes)
    (h : q.outputHeaders = initHeaders ∨ ClosedTable q.outputHeaders) :
    ClosedTable (makePage cfg q data).outputHeaders := by
  unfold makePage
  simp only
  generalize h₁ : (if q.major = 0 ∨ q.minor = 0 then { q with major := 1, minor := 1 } else q) = q₁
  generalize h₂ : (if q₁.kind ≠ .response then httpResponseCode q₁ 200 (str "OK") else q₁) = q₂
  have hq₂ : q₂.outputHeaders = q.outputHeaders := by
    rw [← h₂, ← h₁]
    split <;> split <;> rfl
  have hpage : ClosedTable (httpAddOutputHeader (httpAddOutputHeader q₂ (str "Content-Type")
      (str "text/html")) (str "Connection") (str "close")).outputHeaders := by
    rcases h with h | h
    · have hinit : (httpAddOutputHeader (httpAddOutputHeader q₂ (str "Content-Type")
          (str "text/html")) (str "Connection") (str "close")).outputHeaders =
          ⟨str "Content-Type", str "text/html"⟩ :: ⟨str "Connection", str "close"⟩ ::
            List.replicate 33 Header.null := by
        simp only [httpAddOutputHeader, hq₂, h]
        decide +kernel
      rw [hinit]
      exact ⟨[_], _, _, rfl, by simp only [List.mem_singleton, forall_eq]; decide, by decide,
        by decide⟩
    · exact ((hq₂.symm ▸ h).add _ _).add _ _
  unfold makeSend
  simp only
  refine .httpMakeHeader cfg ?_
  split <;> exact hpage

theorem needClose_of_closed (cfg : WriteCfg) {q : HttpReq} (h : ClosedTable q.outputHeaders) :
    needClose cfg q = true := by
  simp only [needClose, h.isClose, Bool.or_true, Bool.true_or]

/-- Every message has bytes. -/
theorem httpMakeHeader_ne_nil (cfg : WriteCfg) (q : HttpReq) :
    (httpMakeHeader cfg q).outBuf.data ≠ [] := by
  have hjoin : ∀ q : HttpReq, q.outBuf.data ≠ [] → (joinBody q).outBuf.data ≠ [] := by
    intro q h
    unfold joinBody
    split
    · simp [h]
    · exact h
  unfold httpMakeHeader
  refine hjoin _ ?_
  simp [putOut, CRLF]

theorem makeSend_ne_nil (cfg : WriteCfg) (q : HttpReq) (data : Bytes) :
    (makeSend cfg q data).outBuf.data ≠ [] := httpMakeHeader_ne_nil cfg _

end Http
end Shs
