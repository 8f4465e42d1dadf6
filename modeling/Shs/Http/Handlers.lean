import Shs.Http.World

/-!
# Http.Handlers

The functions of `http.cc` that work on connections: freeing, failing, sending, the dispatch of
a request, connecting, and the handlers of the read and write events.

`req->cb` is called through a table of callbacks, since `http_handle_request` and
`HandlerResponse` run these functions again; `Loop` ties the knot. Each function notes
one access per object it uses, and another behind every call that may have freed the object.
-/

namespace Shs
namespace Http

/-- What the function `req->cb` points to does, by code and request (NULL is `none`). -/
abbrev Callbacks := ReqCb → HttpCode → Option Nat → World → World

/-! ## Freeing -/

/-- The fields `http_request_free` clears before it destroys the pool of the request. -/
def HttpReq.cleared (q : HttpReq) : HttpReq :=
  { q with
    live := false, cb := none, hc := none, inBuf := bufferCreate 0, outBuf := bufferCreate 0,
    inputBody := [], outputBody := [], uri := [], responseCodeLine := [],
    inputHeaders := initHeaders, outputHeaders := initHeaders }

def httpRequestFree (r : Nat) (w : World) : World :=
  if (w.reqs r).live then (w.modReq r HttpReq.cleared).emit (.free (.req r))
  else w.emit (.fault (.req r))

def httpConnFree (h : Nat) (w : World) : World :=
  if (w.conns h).live then
    let w :=
      match (w.conns h).req with
      | none => w
      | some r => (httpRequestFree r w).modConn h fun hc => { hc with req := none }
    ((w.modConn h fun hc =>
      { hc with
        live := false, c := connClose hc.c, readEventHandler := none, writeEventHandler := none,
        connCb := none }).noteTimers h).emit (.free (.conn h))
  else w.emit (.fault (.conn h))

/-! ## Failing -/

/-- `if (req->cb) req->cb(ec, req, req->data)`. -/
def callCb (cb : Callbacks) (ec : HttpCode) (r : Nat) (w : World) : World :=
  let w := w.touchReq r
  match (w.reqs r).cb with
  | none => w
  | some f => cb f ec (some r) w

/-- `http_incoming_fail`, with true for the return value -1. -/
def httpIncomingFail (cb : Callbacks) (ec : HttpCode) (r : Nat) (w : World) : World × Bool :=
  let w := w.touchReq r
  match ec with
  | .readTimeout | .readEof | .writeTimeout | .writeEof =>
    if (w.reqs r).userdone then (w, true)
    else
      match (w.reqs r).hc with
      | none => (w.crash, true)
      | some h =>
        ((w.modConn h fun hc => { hc with req := none }).modReq r fun q => { q with hc := none },
          true)
  | .invalidHeader | .invalidBody =>
    (callCb cb ec r (w.modReq r fun q => { q with uri := [] }), false)
  | _ => (w, false)

def httpConnFail (cb : Callbacks) (h : Nat) (ec : HttpCode) (w : World) : World :=
  let w := (w.touchConn h).emit (.connFail h ec)
  match (w.conns h).req with
  | none => w.crash
  | some r =>
    if (w.conns h).flags &&& HTTP_FLAGS_INCOMING ≠ 0 then
      match httpIncomingFail cb ec r w with
      | (w, true) => httpConnFree h w
      | (w, false) => w
    else
      httpRequestFree r (callCb cb ec r (w.modConn h fun hc => { hc with req := none }))

def httpConnReset (h : Nat) (w : World) : World :=
  w.modConn h fun hc => { hc with status := .disconnected }

def httpConnStartDetectclose (h : Nat) (w : World) : World :=
  w.modConn h fun hc =>
    { hc with
      flags := hc.flags ||| HTTP_FLAGS_CLOSEDETECT, readEventHandler := some .connCloseHandler }

def httpConnStopDetectclose (h : Nat) (w : World) : World :=
  w.modConn h fun hc => { hc with flags := hc.flags &&& ~~~HTTP_FLAGS_CLOSEDETECT }

def httpConnDone (cb : Callbacks) (h r : Nat) (w : World) : World :=
  let w := (w.touchConn h).touchReq r
  let conOutgoing := (w.conns h).flags &&& HTTP_FLAGS_OUTGOING ≠ 0
  let w :=
    if conOutgoing then
      let w := w.modConn h fun hc => { hc with req := none, status := .idle }
      let w := w.modReq r fun q => { q with hc := none }
      if httpIsConnectionClose (w.reqs r).inputHeaders ||
          httpIsConnectionClose (w.reqs r).outputHeaders then httpConnReset h w
      else httpConnStartDetectclose h w
    else if (w.conns h).status ≠ .disconnected then
      w.modConn h fun hc => { hc with status := .writing }
    else w
  let w := callCb cb .ok r w
  if conOutgoing then httpRequestFree r w else w

/-! ## Sending -/

/-- A new request on connection `h`, which goes back to reading. -/
def attachRequest (h : Nat) (w : World) : World :=
  let r := w.nreq
  let q : HttpReq :=
    { live := true, hc := some h, cb := some .httpHandleRequest, kind := .request,
      userdone := true }
  ({ w with nreq := r + 1 }.setReq r q).modConn h fun hc =>
    { hc with
      status := .readingFirstline, req := some r, readEventHandler := some .connReadHandler
      c := { hc.c with
        connData := some h
        read := eventAdd w.env.add { hc.c.read with handler := true }
        write := { hc.c.write with handler := true } } }

/-- `http_get_request_with_connection`, with false for the return value -1. Memory for the request
and its buffers is there or not as a whole. -/
def httpGetRequestWithConnection (h : Nat) (w : World) : World × Bool :=
  let w := w.touchConn h
  if !w.env.reqAlloc then (w, false)
  else
    let w := attachRequest h w
    (w, (w.conns h).c.read.active || (w.conns h).c.read.ready)

def httpSendDone (h r : Nat) (w : World) : World :=
  let w := (w.touchConn h).touchReq r
  let w := w.modConn h fun hc => { hc with req := none }
  let close := needClose w.writeCfg (w.reqs r)
  let w := httpRequestFree r w
  if close then httpConnFree h w
  else
    match httpGetRequestWithConnection h w with
    | (w, true) => w
    | (w, false) => httpConnFree h w

def requestBlockWriting (h : Nat) (w : World) : World :=
  w.modC h fun c => { c with write := { c.write with active := false } }

def httpSendRequestDone (h r : Nat) (w : World) : World :=
  let w := (w.touchConn h).touchReq r
  if (w.conns h).status ≠ .writing then w.crash
  else
    let w := w.modReq r fun q => { q with kind := .response }
    let w := requestBlockWriting h w
    let w := w.modConn h fun hc =>
      { hc with
        writeEventHandler := none, readEventHandler := some .connReadHandler,
        status := .readingFirstline }
    w.modC h fun c => { c with read := eventTimerAdd (eventAdd w.env.add c.read) }

/-- `req->out` behind `conn_send`. -/
def sentOut (out : Buffer) (unsent : Bytes) : Buffer :=
  if unsent = [] then bufferReset out
  else bufferPull (bufferShrink out) (out.data.length - unsent.length)

theorem sentOut_data {out : Buffer} {unsent : Bytes} (h : unsent <:+ out.data) :
    (sentOut out unsent).data = unsent := by
  unfold sentOut
  split
  · rename_i hnil; rw [hnil]; rfl
  · exact (List.suffix_iff_eq_drop.mp h).symm

/-- The heap behind the loop of `conn_send`. -/
def noteSent (h r : Nat) (t : Sending) (w : World) : World :=
  let w := w.modReq r fun q => { q with outBuf := sentOut q.outBuf t.unsent }
  let w := w.modC h fun c =>
    { c with write := { c.write with ready := c.write.ready && !t.stalled } }
  let w := { w with env := { w.env with sends := t.sends } }
  if t.unsent ≠ [] ∧ (t.ret = 0 ∨ t.ret = SHS_ERROR) then w.emit (.sendFail h) else w

def connSend (r : Nat) (w : World) : Int × World :=
  let w := w.touchReq r
  match (w.reqs r).hc with
  | none => (SHS_ERROR, w.crash)
  | some h =>
    let t := sendLoop w.env.sends (w.reqs r).outBuf.data 0
    (t.ret, noteSent h r t w)

def httpWriteBuffer (cb : Callbacks) (h : Nat) (w : World) : World :=
  let w := w.touchConn h
  match (w.conns h).req with
  | none => w.crash
  | some r =>
    let (n, w) := connSend r w
    if n = 0 ∨ n = SHS_ERROR then httpConnFail cb h .writeEof w
    else if n > 0 then
      match (w.conns h).connCb with
      | none => w
      | some .httpSendDone => httpSendDone h r w
      | some .httpSendRequestDone => httpSendRequestDone h r w
    else
      w.modConn h fun hc =>
        { hc with
          writeEventHandler := some .connWriteHandler
          c := { hc.c with write := eventTimerAdd (eventAdd w.env.add hc.c.write) } }

/-- `http_send` and its callers, from the request to the message `make` gives. -/
def httpSend (cb : Callbacks) (r : Nat) (make : HttpReq → HttpReq) (w : World) : World :=
  let w := (w.touchReq r).modReq r make
  match (w.reqs r).hc with
  | none => w.crash
  | some h =>
    httpWriteBuffer cb h ((w.touchConn h).modConn h fun hc => { hc with connCb := some .httpSendDone })

def httpSendReply (cb : Callbacks) (r : Nat) (rep : Reply) (w : World) : World :=
  let w := w.touchReq r
  match (w.reqs r).hc with
  | none => httpRequestFree r w
  | some _ => httpSend cb r (fun q => makeReply w.writeCfg q rep) w

def httpSendError (cb : Callbacks) (r : Nat) (error : Int) (reason : Bytes) (w : World) : World :=
  httpSend cb r (fun q => makeError w.writeCfg q error reason) w

/-! ## Dispatch -/

/-- A module answers: it adds its headers and calls `http_send_reply`. -/
def moduleReply (cb : Callbacks) (r : Nat) (rep : Reply) (w : World) : World :=
  httpSendReply cb r rep ((w.touchReq r).modReq r fun q => addReplyHeaders q rep.headers)

/-- The call of `http->stat_cb` or `http->req_cb`: the module answers before it returns, or keeps
the request. -/
def callModule (cb : Callbacks) (stat : Bool) (r : Nat) (w : World) : World :=
  let w := w.emit (.dispatch stat r (w.reqs r))
  match w.env.module with
  | none => { w with pending := r :: w.pending }
  | some rep => moduleReply cb r rep w

/-- The test of `http_handle_request` for the status pages. -/
def isStatUri (uri : Bytes) : Bool :=
  strncmpEq 7 (str "/status") (cstr uri) || strncmpEq 6 (str "/stats") (cstr uri)

def httpHandleRequest (cb : Callbacks) (r : Nat) (w : World) : World :=
  let w := w.touchReq r
  let uri := (w.reqs r).uri
  if uri.length = 0 then
    match (w.reqs r).hc with
    | none => w.crash
    | some h =>
      let w := w.touchConn h
      if (w.conns h).status = .disconnected then httpConnFail cb h .readEof w
      else httpSendError cb r 400 (str "Bad Request") w
  else
    let w := w.modReq r fun q => { q with userdone := false }
    if isStatUri uri && w.cfg.statCb then callModule cb true r w
    else if w.cfg.reqCb then
      ((callModule cb false r w).touchReq r).modReq r fun q => { q with uri := [] }
    else httpSend cb r (fun q => makeNotFound w.writeCfg q) w

/-! ## Connecting -/

/-- The return values of `http_conn_connect`. -/
inductive Connected where
  | ok | again | error
  deriving DecidableEq, Repr

/-- The next result of `connect` and its kind; the connection is in progress when the list is at
its end. -/
def nextConnect (env : Env) : ConnectResult × Env :=
  match env.connects with
  | [] => (.inProgress 3, env)
  | x :: xs => (x, { env with connects := xs })

/-- A socket behind `conn_set_default` and `event_add_conn`. -/
def connOpened (fd : Int) : Conn :=
  { connSetDefault fd with read := { active := true }, write := { active := true } }

def httpConnConnect (h : Nat) (w : World) : World × Connected :=
  let w := w.touchConn h
  let (res, env) := nextConnect w.env
  let w := { w with env := env }.modConn h fun hc =>
    { hc with
      c := { hc.c with fd := -1 }, flags := hc.flags ||| HTTP_FLAGS_OUTGOING,
      status := .connecting }
  match res with
  | .socketFail | .nonblockFail => (w, .error)
  | .addFail fd => ((w.noteTimers h).modC h fun _ => { connSetDefault fd with fd := -1 }, .error)
  | .refused fd => ((w.noteTimers h).modC h fun _ => { connOpened fd with fd := -1 }, .error)
  | .inProgress fd => ((w.noteTimers h).modC h fun _ => connOpened fd, .again)
  | .done fd =>
    ((w.noteTimers h).modConn h fun hc =>
      { hc with
        c := { connOpened fd with write := { active := true, ready := true } }, status := .idle },
      .ok)

def httpSendRequest (cb : Callbacks) (h : Nat) (w : World) : World :=
  let w := w.touchConn h
  match (w.conns h).req with
  | none => w
  | some r =>
    let w := httpConnStopDetectclose h w
    if (w.conns h).status ≠ .idle then w.crash
    else
      let w := w.modConn h fun hc => { hc with status := .writing }
      let w := (w.touchReq r).modReq r fun q => httpMakeHeader w.writeCfg q
      httpWriteBuffer cb h (w.modConn h fun hc => { hc with connCb := some .httpSendRequestDone })

/-- The end of `http_retry_connect` and of `http_make_request`: wait for the connection. -/
def waitConnect (h : Nat) (w : World) : World :=
  w.modConn h fun hc =>
    { hc with
      writeEventHandler := some .connWaitConnectHandler
      c := { hc.c with
        connData := some h
        read := { hc.c.read with handler := true }
        write := eventTimerAdd { hc.c.write with handler := true } } }

/-- `http_retry_connect` with `n` retries left. -/
def httpRetryConnectN (cb : Callbacks) : Nat → HttpCode → Nat → World → World
  | 0, ec, h, w =>
    let w := httpConnReset h (w.touchConn h)
    let req := (w.conns h).req
    let w := w.modConn h fun hc => { hc with req := none }
    match req with
    | none => w
    | some r => httpRequestFree r (callCb cb ec r w)
  | n + 1, _, h, w =>
    let w := (w.touchConn h).modConn h fun hc => { hc with retryCnt := hc.retryCnt + 1 }
    match httpConnConnect h w with
    | (w, .error) => httpRetryConnectN cb n .connectFail h w
    | (w, .ok) => httpSendRequest cb h w
    | (w, .again) => waitConnect h w

def httpRetryConnect (cb : Callbacks) (ec : HttpCode) (h : Nat) (w : World) : World :=
  httpRetryConnectN cb ((w.conns h).retryMax - (w.conns h).retryCnt) ec h w

/-! ## Event handlers -/

def connWaitConnectHandler (cb : Callbacks) (h : Nat) (w : World) : World :=
  let w := w.touchConn h
  if (w.conns h).c.write.timedout then httpRetryConnect cb .connectTimeout h w
  else
    let w := w.modC h fun c => { c with write := eventTimerDel c.write }
    match w.env.sockError with
    | .failed => httpRetryConnect cb .invalidSocket h w
    | .pending => httpRetryConnect cb .connectFail h w
    | .none =>
      httpSendRequest cb h (w.modConn h fun hc => { hc with retryCnt := 0, status := .idle })

def connWriteHandler (cb : Callbacks) (h : Nat) (w : World) : World :=
  let w := w.touchConn h
  if (w.conns h).c.write.timedout then httpConnFail cb h .writeTimeout w
  else
    let w := w.modC h fun c => { c with write := eventTimerDel c.write }
    httpWriteBuffer cb h (w.modConn h fun hc =>
      { hc with
        connCb := some
          (if hc.flags &&& HTTP_FLAGS_OUTGOING ≠ 0 then .httpSendRequestDone else .httpSendDone) })

/-- The heap behind the reading functions. -/
def noteRead (h r : Nat) (t : Reader) (w : World) : World :=
  (w.setReq r t.req).modConn h fun hc =>
    { hc with status := t.status, c := { hc.c with rcvq := t.rcvq } }

/-- What the reading functions do last. -/
def onVerdict (cb : Callbacks) (h r : Nat) (verdict : Verdict) (w : World) : World :=
  match verdict with
  | .wait => w.modC h fun c => { c with read := eventAdd w.env.add c.read }
  | .done => httpConnDone cb h r w
  | .fail ec => httpConnFail cb h ec w
  | .readOn | .ignore | .stuck => w

def connReadHandler (cb : Callbacks) (h : Nat) (w : World) : World :=
  let w := w.touchConn h
  match (w.conns h).req with
  | none => w.crash
  | some r =>
    if (w.conns h).c.read.timedout then httpConnFail cb h .readTimeout w
    else
      let w := (w.touchReq r).modC h fun c => { c with read := eventTimerDel c.read }
      let hc := w.conns h
      let out := connRead (hc.c.read.active && hc.c.read.ready) ⟨w.reqs r, hc.status, hc.c.rcvq⟩
      onVerdict cb h r out.2 (noteRead h r out.1 w)

def connCloseHandler (h : Nat) (w : World) : World := httpConnReset h (w.touchConn h)

/-- `event_process_handler` on a read event of the socket of connection `h`. -/
def processRead (cb : Callbacks) (h : Nat) (w : World) : World :=
  match (w.conns h).c.connData with
  | none => w.crash
  | some h =>
    let w := w.touchConn h
    match (w.conns h).readEventHandler with
    | none => w
    | some .connReadHandler => connReadHandler cb h w
    | some .connCloseHandler => connCloseHandler h w

/-- `event_process_handler` on a write event of the socket of connection `h`. -/
def processWrite (cb : Callbacks) (h : Nat) (w : World) : World :=
  match (w.conns h).c.connData with
  | none => w.crash
  | some h =>
    let w := w.touchConn h
    match (w.conns h).writeEventHandler with
    | none => w
    | some .connWriteHandler => connWriteHandler cb h w
    | some .connWaitConnectHandler => connWaitConnectHandler cb h w

/-! ## Accepting -/

/-- `http_get_request` behind `http_accept_handler`, on a server that has no connection yet. -/
def httpGetRequest (cfg : Cfg) (fd : Int) (env : Env) : World :=
  let w : World := { cfg := cfg, env := env, nconn := 1 }
  let w := w.setConn 0
    { live := true, c := connSetDefault fd, flags := HTTP_FLAGS_INCOMING,
      status := .readingFirstline }
  match httpGetRequestWithConnection 0 w with
  | (w, true) => w
  | (w, false) => httpConnFree 0 w

end Http
end Shs
