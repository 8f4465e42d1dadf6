import Shs.Downstream.Request

/-!
# Loop

The event loop: which events are delivered, and what a step does. A run starts with an accepted
connection (`httpGetRequest`) or a downstream call (`startRequest`).
-/

namespace Shs
namespace Loop

open Http Downstream

/-- The functions behind `req->cb`, with calls of each other at most `n` deep. -/
def callbacks : Nat → Callbacks
  | 0, _, _, _, w => w.crash
  | n + 1, .httpHandleRequest, _, some r, w => httpHandleRequest (callbacks n) r w
  | _ + 1, .httpHandleRequest, _, none, w => w.crash
  | n + 1, .handlerResponse, ec, r, w => handlerResponse (callbacks n) ec r w

/-- Every nested `HandlerResponse` has used up a retry. -/
def loopCallbacks (w : World) : Callbacks := callbacks (w.cfg.maxRetryNum + 2)

/-- One turn of the event loop. `h` is the connection whose socket or timer is concerned. -/
inductive Act where
  /-- `recv` will go on with `rs`, and `epoll_wait` reports EPOLLIN -/
  | readable (h : Nat) (rs : List RecvResult) (env : Env)
  /-- `epoll_wait` reports EPOLLOUT -/
  | writable (h : Nat) (env : Env)
  | readTimeout (h : Nat) (env : Env)
  | writeTimeout (h : Nat) (env : Env)
  /-- a module answers a request it holds -/
  | reply (r : Nat) (rep : Reply) (env : Env)
  deriving DecidableEq, Repr

/-- The test of `epoll_process_events` and `event_process_posted` before a handler is called. -/
def delivered (c : Conn) (ev : Event) : Bool := c.fd != -1 && ev.active && ev.handler

def onReadable (h : Nat) (rs : List RecvResult) (w : World) : World :=
  let w := w.modC h fun c => { c with rcvq := c.rcvq ++ rs }
  if delivered (w.conns h).c (w.conns h).c.read then
    processRead (loopCallbacks w) h
      (w.modC h fun c => { c with read := { c.read with ready := true } })
  else w

def onWritable (h : Nat) (w : World) : World :=
  if delivered (w.conns h).c (w.conns h).c.write then
    processWrite (loopCallbacks w) h
      (w.modC h fun c => { c with write := { c.write with ready := true } })
  else w

/-- `event_timers_expire`, which calls the handler without a test. -/
def onReadTimeout (h : Nat) (w : World) : World :=
  if (w.conns h).c.read.timerSet then
    let w := w.modC h fun c => { c with read := eventExpire c.read }
    if (w.conns h).c.read.handler then processRead (loopCallbacks w) h w else w.crash
  else w

def onWriteTimeout (h : Nat) (w : World) : World :=
  if (w.conns h).c.write.timerSet then
    let w := w.modC h fun c => { c with write := eventExpire c.write }
    if (w.conns h).c.write.handler then processWrite (loopCallbacks w) h w else w.crash
  else w

def onReply (r : Nat) (rep : Reply) (w : World) : World :=
  if r ∈ w.pending then
    moduleReply (loopCallbacks w) r rep { w with pending := w.pending.erase r }
  else w

def step (w : World) (a : Act) : World :=
  if w.crashed then w
  else
    match a with
    | .readable h rs env => onReadable h rs { w with env := env }
    | .writable h env => onWritable h { w with env := env }
    | .readTimeout h env => onReadTimeout h { w with env := env }
    | .writeTimeout h env => onWriteTimeout h { w with env := env }
    | .reply r rep env => onReply r rep { w with env := env }

/-- `Request::Execute(server, handler)`. -/
def startRequest (cfg : Cfg) (env : Env) : World :=
  let w : World := { cfg := cfg, env := env, ctx := { live := true } }
  execute (loopCallbacks w) w

end Loop
end Shs
