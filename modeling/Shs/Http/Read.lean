import Shs.Http.Request

/-!
# Http.Read

The receiving side of `http.cc`: `conn_recv`, the reading functions and the part of
`conn_read_handler` that they form. They touch the request, `hc->status` and the socket only, and
each of their calls to `http_conn_done`, `http_conn_fail` and `event_handle_read` is the last
thing the C function does. So they return it as a `Verdict` for `connReadHandler` to act on.

The socket is the list of results `recv` will give. A call that asks for fewer bytes than a
result has takes as many as it asked for and leaves the rest; the end of the stream and an error
stay; the end of the list is EAGAIN.
-/

namespace Shs
namespace Http

/-- `enum HTTP_CONN_STATUS`. -/
inductive ConnStatus where
  | disconnected | connecting | idle | readingFirstline | readingHeaders | readingBody
  | readingTrailer | writing
  deriving DecidableEq, Repr

inductive RecvResult where
  | data (b : Byte) (bs : Bytes)
  | again
  | eof
  | error
  deriving DecidableEq, Repr

def SHS_ERROR : Int := -1
def SHS_AGAIN : Int := -2

/-- What a reading function does last. -/
inductive Verdict where
  /-- `event_handle_read`, then back to the event loop -/
  | wait
  /-- `http_conn_done(hc, req)` -/
  | done
  /-- `http_conn_fail(hc, ec)` -/
  | fail (ec : HttpCode)
  /-- `conn_read_handler(hc)` if the read event is active and ready, else `wait` -/
  | readOn
  /-- the `default: break` of `conn_read_handler` -/
  | ignore
  /-- no fuel left, see `connRead_fuel` -/
  | stuck
  deriving DecidableEq, Repr

structure Reader where
  req : HttpReq
  status : ConnStatus
  rcvq : List RecvResult
  deriving DecidableEq, Repr

/-! ## Receiving -/

/-- The bytes a result still has behind the first `n`, as a result of their own. -/
def putBack (bs : Bytes) (rs : List RecvResult) : List RecvResult :=
  match bs with
  | [] => rs
  | c :: cs => .data c cs :: rs

/-- The loop of `conn_recv` on the input buffer. -/
def recvLoop : List RecvResult → Buffer → Int × Buffer × List RecvResult
  | [], buf =>
    let buf := bufferShrink buf
    if bufferFreeSize buf = 0 then (bufferSize buf, buf, []) else (SHS_AGAIN, buf, [])
  | r :: rs, buf =>
    let buf := bufferShrink buf
    let blen := bufferFreeSize buf
    if blen = 0 then (bufferSize buf, buf, r :: rs)
    else
      match r with
      | .again => (SHS_AGAIN, buf, rs)
      | .eof => (0, buf, r :: rs)
      | .error => (SHS_ERROR, buf, r :: rs)
      | .data b bs =>
        if (b :: bs).length ≤ blen then recvLoop rs (bufferUsed buf (b :: bs))
        else
          -- a short read fills the buffer, and the next round returns
          let buf := bufferUsed buf ((b :: bs).take blen)
          (bufferSize buf, buf, putBack ((b :: bs).drop blen) rs)

def connRecv (q : HttpReq) (rcvq : List RecvResult) : Int × HttpReq × List RecvResult :=
  let (n, buf, rcvq) := recvLoop rcvq q.inBuf
  (n, { q with inBuf := buf, rx := q.rx ++ buf.data.drop q.inBuf.data.length }, rcvq)

/-! ## Reading -/

/-- `http_read_body` up to its call of `http_conn_done` (true) or the test on the read event. In
the first branch `input_body` points into the input buffer; the callbacks copy it before anything
is received again. -/
def readBody (q : HttpReq) : HttpReq × Bool :=
  let blen := bufferSize q.inBuf
  let q := { q with readDone := q.readDone + blen }
  if q.readDone ≥ q.ntoread then
    let body :=
      if q.inputBody.length = 0 then q.inBuf.data.take q.ntoread else q.inputBody ++ q.inBuf.data
    ({ q with inputBody := body, inBuf := bufferPull q.inBuf blen, ntoread := 0, readDone := 0 },
      true)
  else if blen > 0 then
    ({ q with inputBody := q.inputBody ++ q.inBuf.data, inBuf := bufferPull q.inBuf blen }, false)
  else (q, false)

def httpReadBody (s : Reader) : Reader × Verdict :=
  match readBody s.req with
  | (q, true) => ({ s with req := q }, .done)
  | (q, false) => ({ s with req := q }, .readOn)

def httpGetBody (s : Reader) : Reader × Verdict :=
  if s.req.kind = .request ∧ s.req.type ≠ .post then (s, .done)
  else
    let s := { s with status := .readingBody }
    if httpIsChunked s.req then (s, .fail .invalidBody)
    else
      match httpGetBodyLength s.req with
      | none => (s, .fail .invalidBody)
      | some n => httpReadBody { s with req := { s.req with ntoread := n } }

/-- A response code whose message has no body. -/
def bodyless (code : Int) : Bool := code == 204 || code == 304 || (100 ≤ code && code < 200)

/-- The switch at the end of `http_read_header`. -/
def headRead (s : Reader) : Reader × Verdict :=
  match s.req.kind with
  | .request => httpGetBody s
  | .response => if bodyless s.req.responseCode then (s, .done) else httpGetBody s

def httpReadHeader (s : Reader) : Reader × Verdict :=
  match httpParseHeaders s.req with
  | (q, .dataCorrupted) => ({ s with req := q }, .fail .invalidHeader)
  | (q, .moreDataExpected) => ({ s with req := q }, .wait)
  | (q, .allDataRead) => headRead { s with req := q }

def httpReadFirstline (s : Reader) : Reader × Verdict :=
  match httpParseFirstline s.req with
  | (q, .dataCorrupted) => ({ s with req := q }, .fail .invalidHeader)
  | (q, .moreDataExpected) => ({ s with req := q }, .wait)
  | (q, .allDataRead) => httpReadHeader { s with req := q, status := .readingHeaders }

/-- The code of `conn_read_handler` behind the label `recv_done`. -/
def recvDone (s : Reader) : Reader × Verdict :=
  match s.status with
  | .readingFirstline => httpReadFirstline s
  | .readingHeaders => httpReadHeader s
  | .readingBody => httpReadBody s
  | _ => (s, .ignore)

/-- `conn_read_handler` behind its timer code, with the recursion through `http_read_body` at
most `n` deep. `armed` is `rev->active && rev->ready`. -/
def connReadN (armed : Bool) : Nat → Reader → Reader × Verdict
  | 0, s => (s, .stuck)
  | n + 1, s =>
    let (ret, q, rcvq) := connRecv s.req s.rcvq
    let s := { s with req := q, rcvq := rcvq }
    if ret = SHS_AGAIN ∧ bufferSize s.req.inBuf = 0 then (s, .wait)
    else if ret = SHS_ERROR then (s, .fail .readEof)
    else if ret = 0 ∧ bufferSize s.req.inBuf = 0 then ({ s with status := .disconnected }, .done)
    else
      match recvDone s with
      | (s, .readOn) => if armed then connReadN armed n s else (s, .wait)
      | out => out

/-- The bytes that wait in the socket. -/
def rcvqData : List RecvResult → Bytes
  | [] => []
  | .data b bs :: rs => b :: bs ++ rcvqData rs
  | _ :: rs => rcvqData rs

/-- Every round but the first receives at least one byte. -/
def connRead (armed : Bool) (s : Reader) : Reader × Verdict :=
  connReadN armed ((rcvqData s.rcvq).length + 2) s

end Http
end Shs
