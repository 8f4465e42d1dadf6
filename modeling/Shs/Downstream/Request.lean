import Shs.Http.Handlers

/-!
# Downstream.Request

`http_make_request`, and `Request::Execute`, `HandlerResponse` and `RequestContext` of the
downstream client, for one call of `Request::Execute(server, handler)`.
-/

namespace Shs
namespace Downstream

open Http

def E_OK : Nat := 0
def E_BAD_REQUEST : Nat := 1
def E_BAD_RESPONSE : Nat := 5
def E_SELECT_HOST_FAIL : Nat := 10
def E_HTTP_CONNECT_FAIL : Nat := 1008

/-- The number of an `HTTP_CODE`. -/
def codeNumber : HttpCode → Nat
  | .ok => 0
  | .invalidHeader => 1
  | .invalidBody => 2
  | .readTimeout => 3
  | .readEof => 4
  | .writeTimeout => 5
  | .writeEof => 6
  | .connectTimeout => 7
  | .connectFail => 8
  | .invalidSocket => 9
  | .callerError => 10

def modCtx (f : Ctx → Ctx) (w : World) : World := { w with ctx := f w.ctx }

/-- The message `http_make_request` prepares, before the connection is opened. -/
def prepareRequest (cfg : Cfg) (q : HttpReq) : HttpReq :=
  { q with
    inBuf := bufferCreate CONN_DEFAULT_RCVBUF, outBuf := bufferCreate HEADER_SZ, kind := .request,
    type := cfg.type, major := 1, minor := 0, userdone := false, uri := cfg.uri,
    outputBody := if cfg.type = .post ∧ cfg.body ≠ [] then cfg.body else q.outputBody }

/-- `http_make_request`, with true for `SHS_OK`. -/
def httpMakeRequest (cb : Callbacks) (r : Nat) (w : World) : World × Bool :=
  let w := (w.touchReq r).modReq r (prepareRequest w.cfg)
  match (w.reqs r).hc with
  | none => (w.crash, false)
  | some h =>
    match httpConnConnect h w with
    | (w, .error) => (w, false)
    | (w, .ok) => (httpSendRequest cb h w, true)
    | (w, .again) => (waitConnect h w, true)

/-- `delete ctx`. -/
def deleteCtx (w : World) : World :=
  if w.ctx.live then
    let w :=
      match w.ctx.hc with
      | none => w
      | some h => httpConnFree h w
    (modCtx (fun x => { x with live := false, hc := none }) w).emit (.free .ctx)
  else w.emit (.fault .ctx)

/-- The end of `HandlerResponse` and of the label `failed`: the caller's handler, `delete ctx`. -/
def finish (ec : Nat) (w : World) : World := deleteCtx (w.emit (.completion ec))

def addIfMissing (key value : Bytes) (q : HttpReq) : HttpReq :=
  if httpExistHeader q.outputHeaders key then q else httpAddOutputHeader q key value

/-- The headers `Request::Execute` sends. -/
def requestHeaders (cfg : Cfg) (ctx : Ctx) (q : HttpReq) : HttpReq :=
  let q := cfg.headers.foldl (fun q h => httpAddOutputHeader q h.key h.value) q
  let q := addIfMissing (str "host") (ctx.host.getD []) q
  let q := addIfMissing (str "SHS-DS-Retry") (decimal ctx.retryNum) q
  addIfMissing (str "SHS-DS-Expiration") cfg.expiration q

def nextAttempt (env : Env) : Attempt × Env :=
  match env.attempts with
  | [] => ({}, env)
  | a :: as => (a, { env with attempts := as })

/-- The connection and the request of one attempt, up to `http_make_request`. -/
def newConn (w : World) : World :=
  modCtx (fun x => { x with hc := some w.nconn })
    ({ w with nconn := w.nconn + 1 }.setConn w.nconn
      { live := true, retryMax := w.cfg.maxRetryCon })

def newRequest (h : Nat) (w : World) : World :=
  ({ w with nreq := w.nreq + 1 }.setReq w.nreq
      (requestHeaders w.cfg w.ctx
        { live := true, cb := some .handlerResponse, hc := some h })).modConn h
    fun hc => { hc with req := some w.nreq }

/-- `Request::Execute(ctx)`. -/
def execute (cb : Callbacks) (w : World) : World :=
  let (a, env) := nextAttempt w.env
  let w := { w.touchCtx.emit .attempt with env := env }
  let w := modCtx (fun x => { x with host := a.host }) w
  if a.host = none then
    finish E_BAD_REQUEST (modCtx (fun x => { x with errCode := E_SELECT_HOST_FAIL }) w)
  else
    let w :=
      match w.ctx.hc with
      | none => w
      | some h => modCtx (fun x => { x with hc := none }) (httpConnFree h w)
    if !a.connAlloc then finish E_BAD_REQUEST w
    else
      let h := w.nconn
      let w := newConn w
      if !a.reqAlloc then finish E_BAD_REQUEST w
      else
        let r := w.nreq
        match httpMakeRequest cb r (newRequest h w) with
        | (w, false) =>
          cb .handlerResponse .callerError none
            (modCtx (fun x => { x with errCode := E_HTTP_CONNECT_FAIL }) w.touchCtx)
        | (w, true) => modCtx (fun x => { x with errCode := E_OK }) w.touchCtx

/-- `ConvertToErrCode`, without the store into the context. -/
def convertToErrCode (qec : HttpCode) (rsp : Option HttpReq) (ctx : Ctx) : Nat :=
  match qec, rsp with
  | .ok, some q => if q.responseCode = 200 then E_OK else E_BAD_RESPONSE
  | _, _ =>
    if ctx.errCode ≠ E_OK then ctx.errCode
    else if qec = .ok then E_OK
    else codeNumber qec + 1000

def handlerResponse (cb : Callbacks) (qec : HttpCode) (rsp : Option Nat) (w : World) : World :=
  let w := w.touchCtx
  let w :=
    match rsp with
    | none => w
    | some r => w.touchReq r
  let w := w.emit (.response qec (rsp.map w.reqs))
  let ec := convertToErrCode qec (rsp.map w.reqs) w.ctx
  let w := if ec ≠ E_OK then modCtx (fun x => { x with errCode := ec }) w else w
  if ec = E_OK then finish ec w
  else if w.ctx.retryNum < w.cfg.maxRetryNum then
    execute cb (modCtx (fun x => { x with retryNum := x.retryNum + 1 }) w)
  else finish ec w

end Downstream
end Shs
