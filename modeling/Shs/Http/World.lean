import Shs.Http.Read
import Shs.Http.Serialize

/-!
# Http.World

The heap `http.cc` and `downstream/request.cc` work on: the connections and requests by number,
the context of a downstream call, what the kernel and the modules answer next, and a log of what
happened. Objects keep their number after they are freed, so a later access is seen: it puts a
`fault` into the log. A dereferenced NULL stops the process (`crashed`).
-/

namespace Shs
namespace Http

def HTTP_FLAGS_INCOMING : BitVec 32 := 0x0001
def HTTP_FLAGS_OUTGOING : BitVec 32 := 0x0002
def HTTP_FLAGS_CLOSEDETECT : BitVec 32 := 0x0003

/-! ## Events and sockets -/

/-- The fields of `event_t` that are used; `handler` is set when it is not NULL (it can only be
`event_process_handler`). -/
structure Event where
  active : Bool := false
  ready : Bool := false
  timedout : Bool := false
  timerSet : Bool := false
  handler : Bool := false
  deriving DecidableEq, Repr

/-- `event_add` behind the test of `event_handle_read` and `event_handle_write`; `ok` says
whether `epoll_ctl` works. -/
def eventAdd (ok : Bool) (ev : Event) : Event :=
  if !ev.active && !ev.ready then { ev with active := ok } else ev

def eventTimerAdd (ev : Event) : Event := { ev with timerSet := true }

def eventTimerDel (ev : Event) : Event := { ev with timerSet := false }

/-- `event_timers_expire` on one event, before its handler is called. -/
def eventExpire (ev : Event) : Event := { ev with timerSet := false, timedout := true }

/-- `conn_t` with its two events; `rcvq` is what `recv` will give. -/
structure Conn where
  fd : Int := -1
  connData : Option Nat := none
  read : Event := {}
  write : Event := {}
  rcvq : List RecvResult := []
  deriving DecidableEq, Repr

/-- `conn_set_default`, for a socket that has just been opened. -/
def connSetDefault (fd : Int) : Conn := { fd := fd }

/-- `conn_close`. Descriptor 0 is taken for no descriptor. -/
def connClose (c : Conn) : Conn :=
  if c.fd > 0 then
    { c with
      fd := -1
      read := { c.read with timerSet := false, active := false }
      write := { c.write with timerSet := false, active := false } }
  else c

/-- A result of `send`; `sent 0` is the return value 0. -/
inductive SendResult where
  | sent (n : Nat)
  | again
  | error
  deriving DecidableEq, Repr

/-- The most bytes Linux takes in one call. -/
def MAX_RW_COUNT : Nat := 0x7ffff000

/-- What the loop of `conn_send` leaves behind. -/
structure Sending where
  /-- the return value -/
  ret : Int
  /-- the bytes behind `req->out->pos` -/
  unsent : Bytes
  /-- `wev->ready` was cleared -/
  stalled : Bool
  /-- what `send` will give next -/
  sends : List SendResult
  deriving DecidableEq, Repr

/-- The loop of `conn_send` on the bytes `bs`, with `done` sent before. The kernel takes all
bytes when the list is at its end. The count returns through an `int`. -/
def sendLoop : List SendResult → Bytes → Nat → Sending
  | rs, [], done => ⟨toInt32 done, [], false, rs⟩
  | [], bs, done => ⟨toInt32 (done + bs.length : Nat), [], false, []⟩
  | .again :: rs, bs, _ => ⟨SHS_AGAIN, bs, true, rs⟩
  | .error :: rs, bs, _ => ⟨SHS_ERROR, bs, false, rs⟩
  | .sent k :: rs, bs, done =>
    if k = 0 then ⟨0, bs, true, rs⟩
    else
      let n := min (min k bs.length) MAX_RW_COUNT
      let s := sendLoop rs (bs.drop n) (done + n)
      { s with stalled := s.stalled || decide (n < bs.length) }

section SendLoop

variable (rs : List SendResult) (b : Byte) (bs : Bytes) (done : Nat)

theorem sendLoop_nil : sendLoop rs [] done = ⟨toInt32 done, [], false, rs⟩ := by
  cases rs <;> rfl

theorem sendLoop_all :
    sendLoop [] (b :: bs) done = ⟨toInt32 (done + (b :: bs).length : Nat), [], false, []⟩ := rfl

theorem sendLoop_again :
    sendLoop (.again :: rs) (b :: bs) done = ⟨SHS_AGAIN, b :: bs, true, rs⟩ := rfl

theorem sendLoop_error :
    sendLoop (.error :: rs) (b :: bs) done = ⟨SHS_ERROR, b :: bs, false, rs⟩ := rfl

theorem sendLoop_sent (k : Nat) :
    sendLoop (.sent k :: rs) (b :: bs) done =
      if k = 0 then ⟨0, b :: bs, true, rs⟩
      else
        let n := min (min k (b :: bs).length) MAX_RW_COUNT
        let s := sendLoop rs ((b :: bs).drop n) (done + n)
        { s with stalled := s.stalled || decide (n < (b :: bs).length) } := rfl

theorem sendLoop_nil_ret : (sendLoop rs [] 0).ret = 0 := by
  rw [sendLoop_nil]; rfl

end SendLoop

theorem toInt32_small {n : Nat} (h : n < 2 ^ 31) : toInt32 n = n := by
  unfold toInt32
  apply Int.bmod_eq_of_le <;> omega

theorem sendLoop_suffix (rs : List SendResult) (bs : Bytes) (done : Nat) :
    (sendLoop rs bs done).unsent <:+ bs := by
  induction rs generalizing bs done with
  | nil =>
    cases bs with
    | nil => simp only [sendLoop_nil]; exact List.nil_suffix
    | cons b bs => simp only [sendLoop_all]; exact List.nil_suffix
  | cons r rs ih =>
    cases bs with
    | nil => simp only [sendLoop_nil]; exact List.nil_suffix
    | cons b bs =>
      cases r with
      | again => exact List.suffix_refl _
      | error => exact List.suffix_refl _
      | sent k =>
        rw [sendLoop_sent]
        split
        · exact List.suffix_refl _
        · exact (ih _ _).trans (List.drop_suffix _ _)

/-- When nothing is left over, the count of the bytes is returned. -/
theorem sendLoop_complete {rs : List SendResult} {bs : Bytes} {done : Nat}
    (hlen : done + bs.length < 2 ^ 31) (h : (sendLoop rs bs done).unsent = []) :
    (sendLoop rs bs done).ret = (done + bs.length : Nat) := by
  induction rs generalizing bs done with
  | nil =>
    cases bs with
    | nil => simp only [sendLoop_nil, List.length_nil, Nat.add_zero] at hlen ⊢; rw [toInt32_small hlen]
    | cons b bs => simp only [sendLoop_all]; rw [toInt32_small hlen]
  | cons r rs ih =>
    cases bs with
    | nil => simp only [sendLoop_nil, List.length_nil, Nat.add_zero] at hlen ⊢; rw [toInt32_small hlen]
    | cons b bs =>
      cases r with
      | again => rw [sendLoop_again] at h; cases h
      | error => rw [sendLoop_error] at h; cases h
      | sent k =>
        rw [sendLoop_sent] at h ⊢
        by_cases hk : k = 0
        · rw [if_pos hk] at h; cases h
        · rw [if_neg hk] at h ⊢
          generalize hn : min (min k (b :: bs).length) MAX_RW_COUNT = n at h ⊢
          have hle : n ≤ (b :: bs).length := by
            rw [← hn]
            exact Nat.le_trans (Nat.min_le_left _ _) (Nat.min_le_right _ _)
          refine (ih (by rw [List.length_drop]; omega) h).trans ?_
          rw [List.length_drop]
          congr 1
          omega

theorem sendLoop_sends (rs : List SendResult) (bs : Bytes) (done : Nat) :
    (sendLoop rs bs done).sends <:+ rs := by
  induction rs generalizing bs done with
  | nil =>
    cases bs with
    | nil => simp only [sendLoop_nil]; exact List.suffix_refl _
    | cons b bs => simp only [sendLoop_all]; exact List.suffix_refl _
  | cons r rs ih =>
    cases bs with
    | nil => simp only [sendLoop_nil]; exact List.suffix_refl _
    | cons b bs =>
      cases r with
      | again => rw [sendLoop_again]; exact List.suffix_cons _ _
      | error => rw [sendLoop_error]; exact List.suffix_cons _ _
      | sent k =>
        rw [sendLoop_sent]
        split
        · exact List.suffix_cons _ _
        · exact (ih _ _).trans (List.suffix_cons _ _)

/-- A result of `socket`, `fcntl`, `epoll_ctl` and `connect`, in the order of
`http_conn_connect`. -/
inductive ConnectResult where
  | socketFail
  | nonblockFail
  | addFail (fd : Int)
  | refused (fd : Int)
  | inProgress (fd : Int)
  | done (fd : Int)
  deriving DecidableEq, Repr

/-- A result of `getsockopt(SO_ERROR)`. -/
inductive SockError where
  | none
  | pending
  | failed
  deriving DecidableEq, Repr

/-- What one attempt of `Request::Execute` finds before it connects: the host that
`Server::Create` gives, and whether memory for the connection and for the request is there. -/
structure Attempt where
  host : Option Bytes := some []
  connAlloc : Bool := true
  reqAlloc : Bool := true
  deriving DecidableEq, Repr

/-- What the code around `http.cc` answers during one step of the event loop. `module` is what a
module does when a request is handed to it: answer at once, or later. -/
structure Env where
  sends : List SendResult := []
  connects : List ConnectResult := []
  sockError : SockError := .none
  attempts : List Attempt := []
  module : Option Reply := none
  reqAlloc : Bool := true
  add : Bool := true
  date : Bytes := []
  deriving DecidableEq, Repr

/-! ## Connections and contexts -/

inductive ReadHandler where
  | connReadHandler | connCloseHandler
  deriving DecidableEq, Repr

inductive WriteHandler where
  | connWriteHandler | connWaitConnectHandler
  deriving DecidableEq, Repr

inductive ConnCb where
  | httpSendDone | httpSendRequestDone
  deriving DecidableEq, Repr

structure HttpConn where
  live : Bool := false
  req : Option Nat := none
  c : Conn := {}
  flags : BitVec 32 := 0
  status : ConnStatus := .disconnected
  readEventHandler : Option ReadHandler := none
  writeEventHandler : Option WriteHandler := none
  connCb : Option ConnCb := none
  retryCnt : Nat := 0
  retryMax : Nat := 0
  deriving DecidableEq, Repr

/-- `RequestContext`, with the number of an `ErrCode`. -/
structure Ctx where
  live : Bool := false
  hc : Option Nat := none
  host : Option Bytes := none
  retryNum : Nat := 0
  errCode : Nat := 0
  deriving DecidableEq, Repr

inductive Obj where
  | req (r : Nat)
  | conn (h : Nat)
  | ctx
  deriving DecidableEq, Repr

/-- What the log records. -/
inductive Obs where
  /-- `http->stat_cb` or `http->req_cb` is called with request `r`, which is `q` -/
  | dispatch (stat : Bool) (r : Nat) (q : HttpReq)
  /-- `HandlerResponse` is called with the response `q` -/
  | response (ec : HttpCode) (q : Option HttpReq)
  /-- `ctx->response_handler` is called -/
  | completion (ec : Nat)
  /-- `Request::Execute(ctx)` starts -/
  | attempt
  | free (o : Obj)
  /-- `http_conn_fail` is called -/
  | connFail (h : Nat) (ec : HttpCode)
  /-- `send` reported an error, or took nothing -/
  | sendFail (h : Nat)
  /-- a field of a freed object is accessed, or it is freed again -/
  | fault (o : Obj)
  /-- an event of connection `h` is in the timer tree when `conn_set_default` wipes it, or when the
  connection goes back to its pool -/
  | orphan (h : Nat)
  deriving DecidableEq, Repr

/-- How often an object has been freed. -/
def frees (x : Obj) (log : List Obs) : Nat := log.count (.free x)

theorem frees_cons (x y : Obj) (log : List Obs) :
    frees y (.free x :: log) = frees y log + if x = y then 1 else 0 := by
  simp [frees, List.count_cons]

/-- The settings of the server and of the downstream request. -/
structure Cfg where
  disableHttpKeepalive : Bool := false
  statCb : Bool := true
  reqCb : Bool := true
  type : ReqType := .get
  uri : Bytes := []
  body : Bytes := []
  headers : List Header := []
  expiration : Bytes := []
  maxRetryNum : Nat := 0
  maxRetryCon : Nat := 0
  deriving DecidableEq, Repr

structure World where
  cfg : Cfg
  conns : Nat → HttpConn := fun _ => {}
  nconn : Nat := 0
  reqs : Nat → HttpReq := fun _ => {}
  nreq : Nat := 0
  ctx : Ctx := {}
  /-- the requests that modules hold and have not answered yet -/
  pending : List Nat := []
  env : Env := {}
  log : List Obs := []
  crashed : Bool := false

namespace World

def writeCfg (w : World) : WriteCfg := ⟨w.cfg.disableHttpKeepalive, w.env.date⟩

def emit (o : Obs) (w : World) : World := { w with log := o :: w.log }

def crash (w : World) : World := { w with crashed := true }

def setReq (r : Nat) (q : HttpReq) (w : World) : World :=
  { w with reqs := fun i => if i = r then q else w.reqs i }

def modReq (r : Nat) (f : HttpReq → HttpReq) (w : World) : World := w.setReq r (f (w.reqs r))

def setConn (h : Nat) (hc : HttpConn) (w : World) : World :=
  { w with conns := fun i => if i = h then hc else w.conns i }

def modConn (h : Nat) (f : HttpConn → HttpConn) (w : World) : World := w.setConn h (f (w.conns h))

def modC (h : Nat) (f : Conn → Conn) (w : World) : World :=
  w.modConn h fun hc => { hc with c := f hc.c }

/-- An access to fields of request `r`. -/
def touchReq (r : Nat) (w : World) : World :=
  if (w.reqs r).live then w else w.emit (.fault (.req r))

def touchConn (h : Nat) (w : World) : World :=
  if (w.conns h).live then w else w.emit (.fault (.conn h))

/-- The events of connection `h` are about to be wiped or given away. -/
def noteTimers (h : Nat) (w : World) : World :=
  if (w.conns h).c.read.timerSet || (w.conns h).c.write.timerSet then w.emit (.orphan h) else w

theorem noteTimers_unset {h : Nat} {w : World} (hr : (w.conns h).c.read.timerSet = false)
    (hw : (w.conns h).c.write.timerSet = false) : w.noteTimers h = w := by
  unfold noteTimers
  rw [hr, hw]
  exact if_neg (by decide)

def touchCtx (w : World) : World := if w.ctx.live then w else w.emit (.fault .ctx)

end World
end Http
end Shs
