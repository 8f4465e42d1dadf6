import Shs.Http.Serialize

/-!
# Http.Message

What `http_make_header` puts into `req->out`, taken apart: the first line, the lines of the output
table with the generated entries in it, the empty line and the body.
-/

namespace Shs
namespace Http

def requestLine (q : HttpReq) : Bytes :=
  httpMethod q.type ++ [SP] ++ cstr q.uri ++ str " HTTP/" ++ decimal q.major ++ str "." ++
    decimal q.minor ++ CRLF

/-- The minor version that `http_make_response_header` uses. -/
def sentMinor (cfg : WriteCfg) (q : HttpReq) : Nat :=
  if cfg.disableHttpKeepalive then 0 else q.minor

def statusLine (cfg : WriteCfg) (q : HttpReq) : Bytes :=
  str "HTTP/" ++ decimal q.major ++ str "." ++ decimal (sentMinor cfg q) ++ [SP] ++
    decimal q.responseCode ++ [SP] ++ cstr q.responseCodeLine ++ CRLF

def firstLine (cfg : WriteCfg) (q : HttpReq) : Bytes :=
  match q.kind with
  | .request => requestLine q
  | .response => statusLine cfg q

/-- The output table with what `http_make_request_header` or `http_make_response_header` adds. -/
def sentHeaders (cfg : WriteCfg) (q : HttpReq) : List Header :=
  match q.kind with
  | .request => (httpMakeRequestHeader q).outputHeaders
  | .response => (httpMakeResponseHeader cfg q).outputHeaders

/-- The head of the message. -/
def head (cfg : WriteCfg) (q : HttpReq) : Bytes :=
  firstLine cfg q ++ ((sentHeaders cfg q).map headerLine).flatten ++ CRLF

@[simp] theorem httpAddOutputHeader_outBuf (q : HttpReq) (key value : Bytes) :
    (httpAddOutputHeader q key value).outBuf = q.outBuf := rfl

@[simp] theorem httpAddDateHeader_outBuf (cfg : WriteCfg) (q : HttpReq) :
    (httpAddDateHeader cfg q).outBuf = q.outBuf := by
  unfold httpAddDateHeader
  split <;> rfl

@[simp] theorem httpAddContentLengthHeader_outBuf (q : HttpReq) (n : Nat) :
    (httpAddContentLengthHeader q n).outBuf = q.outBuf := by
  unfold httpAddContentLengthHeader
  split <;> rfl

theorem httpMakeRequestHeader_outBuf (q : HttpReq) :
    (httpMakeRequestHeader q).outBuf = bufferUsed q.outBuf (requestLine q) := by
  unfold httpMakeRequestHeader
  simp only
  split <;> rfl

theorem httpMakeResponseHeader_outBuf (cfg : WriteCfg) (q : HttpReq) :
    (httpMakeResponseHeader cfg q).outBuf = bufferUsed q.outBuf (statusLine cfg q) := by
  simp only [httpMakeResponseHeader, apply_ite HttpReq.outBuf, httpAddOutputHeader_outBuf,
    httpAddContentLengthHeader_outBuf, httpAddDateHeader_outBuf, ite_self]
  rfl

/-- `http_make_header` puts the head behind what `req->out` holds, and the body behind the head. -/
theorem httpMakeHeader_eq (cfg : WriteCfg) (q : HttpReq) :
    httpMakeHeader cfg q =
      joinBody (putOut { q with outputHeaders := sentHeaders cfg q } (head cfg q)) := by
  unfold httpMakeHeader head firstLine sentHeaders
  cases hk : q.kind with
  | request =>
    obtain ⟨buf, hs, hw⟩ := writes_httpMakeRequestHeader q
    have hbuf := httpMakeRequestHeader_outBuf q
    simp only [hw] at hbuf ⊢
    simp only [hbuf, hk, putOut, bufferUsed, List.append_assoc]
  | response =>
    obtain ⟨buf, hs, hw⟩ := writes_httpMakeResponseHeader cfg q
    have hbuf := httpMakeResponseHeader_outBuf cfg q
    simp only [hw] at hbuf ⊢
    simp only [hbuf, hk, putOut, bufferUsed, List.append_assoc]

/-- The message on a fresh output buffer. -/
theorem httpMakeHeader_message (cfg : WriteCfg) {q : HttpReq} (h : q.outBuf.data = []) :
    (httpMakeHeader cfg q).outBuf.data = head cfg q ++ q.outputBody := by
  rw [httpMakeHeader_eq, joinBody]
  split
  · simp [putOut, bufferUsed, h]
  · rename_i hbody
    have hnil : q.outputBody = [] := by simpa [putOut] using hbody
    simp [putOut, bufferUsed, h, hnil]

end Http
end Shs
