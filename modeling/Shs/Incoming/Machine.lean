import Shs.Loop

/-!
# Incoming.Machine

One incoming connection without the heap: the connection holds its request by value, freed
objects are gone, and what is left of detached requests is whether they are live. `Sim` relates
this machine to the heap, and `sim_step` shows that it takes the same steps with the same log.
The server results are proved on the machine and carried back.
-/

namespace Shs
namespace Incoming

open Http Loop

/-- An open connection and the request it holds. `armed` says that `write_event_handler` is
`conn_write_handler`. -/
structure Open where
  id : Nat
  req : HttpReq
  status : ConnStatus
  armed : Bool
  c : Conn

structure Server where
  cfg : Cfg
  conn : Option Open
  nreq : Nat
  live : Nat → Bool
  pending : List Nat
  env : Env
  log : List Obs

def Server.writeCfg (s : Server) : WriteCfg := ⟨s.cfg.disableHttpKeepalive, s.env.date⟩

def Server.emit (o : Obs) (s : Server) : Server := { s with log := o :: s.log }

/-- The request numbered `r` is freed. -/
def freeReq (r : Nat) (s : Server) : Server :=
  { s with live := fun i => if i = r then false else s.live i }.emit (.free (.req r))

/-- The connection is freed, and holds no request. -/
def close (s : Server) : Server := { s with conn := none }.emit (.free (.conn 0))

/-- The connection is freed with its request. -/
def drop (o : Open) (s : Server) : Server := close (freeReq o.id s)

/-- `http_conn_fail` with a code that ends the connection: a request that a module holds lives
on. -/
def hangUp (o : Open) (ec : HttpCode) (s : Server) : Server :=
  if o.req.userdone then drop o (s.emit (.connFail 0 ec)) else close (s.emit (.connFail 0 ec))

/-! ## Sending -/

/-- The socket when the next request is read from it. -/
def nextConn (env : Env) (c : Conn) : Conn :=
  { c with
    connData := some 0
    read := eventAdd env.add { c.read with handler := true }
    write := { c.write with handler := true } }

def freshReq : HttpReq :=
  { live := true, hc := some 0, cb := some .httpHandleRequest, kind := .request, userdone := true }

/-- `http_get_request_with_connection`, and `http_conn_free` where it fails. -/
def openNext (armed : Bool) (c : Conn) (s : Server) : Server :=
  if !s.env.reqAlloc then close s
  else
    let o : Open := ⟨s.nreq, freshReq, .readingFirstline, armed, nextConn s.env c⟩
    let s := { s with
      nreq := s.nreq + 1, live := fun i => if i = s.nreq then true else s.live i, conn := some o }
    if o.c.read.active || o.c.read.ready then s else drop o s

def sendDone (o : Open) (s : Server) : Server :=
  if needClose s.writeCfg o.req then close (freeReq o.id s)
  else openNext o.armed o.c (freeReq o.id s)

/-- The connection behind `conn_send`. -/
def sentOpen (t : Sending) (o : Open) : Open :=
  { o with
    req := { o.req with outBuf := sentOut o.req.outBuf t.unsent }
    c := { o.c with write := { o.c.write with ready := o.c.write.ready && !t.stalled } } }

/-- The machine behind `conn_send`. -/
def sentServer (t : Sending) (o : Open) (s : Server) : Server :=
  let s := { s with env := { s.env with sends := t.sends }, conn := some (sentOpen t o) }
  if t.unsent ≠ [] ∧ (t.ret = 0 ∨ t.ret = SHS_ERROR) then s.emit (.sendFail 0) else s

/-- The connection that waits to send the rest. -/
def blocked (env : Env) (o : Open) : Open :=
  { o with armed := true, c := { o.c with write := eventTimerAdd (eventAdd env.add o.c.write) } }

/-- `http_write_buffer` with `http_send_done` as `conn_cb`. -/
def writeBuffer (o : Open) (s : Server) : Server :=
  let t := sendLoop s.env.sends o.req.outBuf.data 0
  let s := sentServer t o s
  let o := sentOpen t o
  if t.ret = 0 ∨ t.ret = SHS_ERROR then hangUp o .writeEof s
  else if t.ret > 0 then sendDone o s
  else { s with conn := some (blocked s.env o) }

def send (make : HttpReq → HttpReq) (o : Open) (s : Server) : Server :=
  writeBuffer { o with req := make o.req } s

/-- A module answers the request of the connection. -/
def answer (rep : Reply) (o : Open) (s : Server) : Server :=
  send (fun q => makeReply s.writeCfg (addReplyHeaders q rep.headers) rep) o s

/-- A module answers a request that has lost its connection. -/
def answerDetached (r : Nat) (s : Server) : Server :=
  if s.live r then freeReq r s
  else ((s.emit (.fault (.req r))).emit (.fault (.req r))).emit (.fault (.req r))

/-! ## Dispatch -/

def callModule (stat : Bool) (o : Open) (s : Server) : Server :=
  let s := { s with conn := some o }.emit (.dispatch stat o.id o.req)
  match s.env.module with
  | none => { s with pending := o.id :: s.pending }
  | some rep => answer rep o s

/-- `req->uri = string_null` behind the call of `req_cb`. -/
def clearUri (r : Nat) (s : Server) : Server :=
  let s := if s.live r then s else s.emit (.fault (.req r))
  { s with conn := s.conn.map fun o =>
      if o.id = r then { o with req := { o.req with uri := [] } } else o }

def handle (o : Open) (s : Server) : Server :=
  if o.req.uri.length = 0 then
    if o.status = .disconnected then hangUp o .readEof s
    else send (fun q => makeError s.writeCfg q 400 (str "Bad Request")) o s
  else
    let o' := { o with req := { o.req with userdone := false } }
    if isStatUri o.req.uri && s.cfg.statCb then callModule true o' s
    else if s.cfg.reqCb then clearUri o.id (callModule false o' s)
    else send (fun q => makeNotFound s.writeCfg q) o' s

/-! ## Events -/

/-- The connection of a request that has been read. -/
def doneOpen (o : Open) : Open :=
  if o.status ≠ .disconnected then { o with status := .writing } else o

/-- `http_conn_done`. -/
def done (o : Open) (s : Server) : Server := handle (doneOpen o) s

/-- `http_conn_fail`. -/
def fail (o : Open) (ec : HttpCode) (s : Server) : Server :=
  match ec with
  | .readTimeout | .readEof | .writeTimeout | .writeEof => hangUp o ec s
  | .invalidHeader | .invalidBody =>
    handle { o with req := { o.req with uri := [] } } (s.emit (.connFail 0 ec))
  | _ => { s with conn := some o }.emit (.connFail 0 ec)

/-- The connection behind the reading functions. -/
def readOpen (t : Reader) (o : Open) : Open :=
  { o with req := t.req, status := t.status, c := { o.c with rcvq := t.rcvq } }

def onVerdict (verdict : Verdict) (o : Open) (s : Server) : Server :=
  match verdict with
  | .wait => { s with conn := some { o with c := { o.c with read := eventAdd s.env.add o.c.read } } }
  | .done => done o s
  | .fail ec => fail o ec s
  | .readOn | .ignore | .stuck => { s with conn := some o }

def readHandler (o : Open) (s : Server) : Server :=
  let o := { o with c := { o.c with read := eventTimerDel o.c.read } }
  let out := connRead (o.c.read.active && o.c.read.ready) ⟨o.req, o.status, o.c.rcvq⟩
  onVerdict out.2 (readOpen out.1 o) s

def writeHandler (o : Open) (s : Server) : Server :=
  if o.c.write.timedout then hangUp o .writeTimeout s
  else writeBuffer { o with c := { o.c with write := eventTimerDel o.c.write } } s

/-- `event_process_handler` on a write event. -/
def processWrite (o : Open) (s : Server) : Server :=
  if o.armed then writeHandler o s else { s with conn := some o }

def onReadable (rs : List RecvResult) (o : Open) (s : Server) : Server :=
  let o := { o with c := { o.c with rcvq := o.c.rcvq ++ rs } }
  if delivered o.c o.c.read then
    readHandler { o with c := { o.c with read := { o.c.read with ready := true } } } s
  else { s with conn := some o }

def onWritable (o : Open) (s : Server) : Server :=
  if delivered o.c o.c.write then
    processWrite { o with c := { o.c with write := { o.c.write with ready := true } } } s
  else s

def onWriteTimeout (o : Open) (s : Server) : Server :=
  if o.c.write.timerSet then
    processWrite { o with c := { o.c with write := eventExpire o.c.write } } s
  else s

def onReply (r : Nat) (rep : Reply) (s : Server) : Server :=
  if r ∈ s.pending then
    let s := { s with pending := s.pending.erase r }
    match s.conn with
    | some o => if o.id = r then answer rep o s else answerDetached r s
    | none => answerDetached r s
  else s

/-- What an event of connection `h` does; the server has only connection 0. -/
def onConn (h : Nat) (f : Open → Server → Server) (s : Server) : Server :=
  match s.conn with
  | some o => if h = 0 then f o s else s
  | none => s

def step (s : Server) (a : Act) : Server :=
  match a with
  | .readable h rs env => onConn h (onReadable rs) { s with env := env }
  | .writable h env => onConn h onWritable { s with env := env }
  | .readTimeout _ env => { s with env := env }
  | .writeTimeout h env => onConn h onWriteTimeout { s with env := env }
  | .reply r rep env => onReply r rep { s with env := env }

/-- The server when a connection has been accepted. -/
def accepted (cfg : Cfg) (fd : Int) (env : Env) : Server :=
  openNext false (connSetDefault fd)
    { cfg := cfg, conn := none, nreq := 0, live := fun _ => false, pending := [], env := env,
      log := [] }

end Incoming
end Shs
