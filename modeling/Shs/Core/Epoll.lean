import Mathlib.Algebra.Group.Nat.Even
import Mathlib.Algebra.Order.Ring.Int
import Shs.Core.Queue
import Shs.Lib.Run

/-!
# Core.Epoll

The event loop of one thread: `epoll_process_events` with the handlers that it calls or posts,
`event_process_posted`, and what handlers do to connections. The steps are small, so that the
handlers of a batch can close and reuse connections while events of the batch are still to come.

The kernel keeps a registration for every descriptor that was added. It forgets it when the
descriptor is closed, and reports events for registrations only, at most one for each. A
registration carries the pointer that `epoll_ctl` was given, that is the connection and the
instance bit.

`inits` and what is named after it are ghosts: the calls of `conn_set_default` so far. Each of
them gives the connection a new descriptor or none, so they count its incarnations.
-/

namespace Shs
namespace Epoll

open Queue

/-- `event_t`. -/
structure Event where
  instanceBit : Bool := false
  lastInstance : Bool := false
  active : Bool := false
  ready : Bool := false
  accepted : Bool := false
  /-- `handler` is not null -/
  handler : Bool := false
  deriving DecidableEq

/-- `conn_t` with its two events. -/
structure Conn where
  fd : Int := -1
  read : Event := {}
  write : Event := {}
  /-- `ev_base` is not null -/
  evBase : Bool := false
  inits : Nat := 0
  deriving DecidableEq

/-- The queue heads of `event_base_t` and the `post_queue` of every event. -/
inductive Cell where
  | acceptHead
  | postedHead
  | read (c : Nat)
  | write (c : Nat)
  deriving DecidableEq

/-- What the kernel keeps for a descriptor. -/
structure Registration where
  conn : Nat
  bit : Bool
  inits : Nat
  deriving DecidableEq

/-- `struct epoll_event`. -/
structure Reported where
  of : Registration
  epollin : Bool := false
  epollout : Bool := false
  epollerr : Bool := false
  epollhup : Bool := false
  deriving DecidableEq

/-- A call of an event handler: the incarnation that the event was reported or posted for, and
the descriptor and the incarnation of the connection at the call. -/
structure Call where
  event : Cell
  posted : Bool
  reportedFor : Nat
  fd : Int
  inits : Nat
  deriving DecidableEq

inductive Pc where
  | idle
  /-- at the head of the loop over the events of a batch -/
  | batch (post : Bool) (rest : List Reported)
  /-- in `rev->handler(rev)` -/
  | inRead (e : Reported) (rest : List Reported)
  /-- in `wev->handler(wev)` -/
  | inWrite (rest : List Reported)
  /-- at the head of the loop of `event_process_posted` -/
  | drain (q : Cell)
  /-- in `ev->handler(ev)` -/
  | inPosted (q : Cell)
  /-- a null pointer or a queue head was used as an event -/
  | crashed
  deriving DecidableEq

structure State where
  conns : Nat → Conn
  /-- the free connections of the pool -/
  free : List Nat
  registered : List Registration := []
  links : Links Cell
  pc : Pc := .idle
  calls : List Call := []
  /-- how often an event was posted, and the incarnation at the last time -/
  posts : Cell → Nat := fun _ => 0
  postedFor : Cell → Nat := fun _ => 0

namespace State

def setConn (c : Nat) (v : Conn) (s : State) : State :=
  { s with conns := Function.update s.conns c v }

def goto (pc : Pc) (s : State) : State := { s with pc := pc }

def isRegistered (s : State) (c : Nat) : Bool :=
  s.registered.any fun r => r.conn == c && r.inits == (s.conns c).inits

/-- The kernel forgets the descriptor of connection `c`. -/
def unregister (c : Nat) (s : State) : State :=
  { s with registered :=
      s.registered.filter fun r => !(r.conn == c && r.inits == (s.conns c).inits) }

def register (c : Nat) (bit : Bool) (s : State) : State :=
  let t := s.unregister c
  { t with registered := ⟨c, bit, (s.conns c).inits⟩ :: t.registered }

end State

namespace Conn

def event (c : Conn) : Bool → Event
  | true => c.write
  | false => c.read

def setEvent (c : Conn) (w : Bool) (e : Event) : Conn :=
  match w with
  | true => { c with write := e }
  | false => { c with read := e }

/-- `ev->ready = SHS_TRUE`. -/
def ready (c : Conn) (w : Bool) : Conn := c.setEvent w { c.event w with ready := true }

/-- `rev->last_instance = instance`. -/
def last (c : Conn) (bit : Bool) : Conn := { c with read := { c.read with lastInstance := bit } }

section

variable (c : Conn) (w : Bool)

@[simp] theorem ready_fd : (c.ready w).fd = c.fd := by cases w <;> rfl
@[simp] theorem ready_inits : (c.ready w).inits = c.inits := by cases w <;> rfl
@[simp] theorem ready_read_handler : (c.ready w).read.handler = c.read.handler := by
  cases w <;> rfl
@[simp] theorem ready_write_handler : (c.ready w).write.handler = c.write.handler := by
  cases w <;> rfl
@[simp] theorem ready_write_active : (c.ready w).write.active = c.write.active := by
  cases w <;> rfl
@[simp] theorem last_write (bit : Bool) : (c.last bit).write = c.write := rfl

end

end Conn

/-- `conn_set_default`. -/
def connSetDefault (c : Nat) (fd : Int) (s : State) : State :=
  let v := s.conns c
  let links := ((s.links.setNext (.read c) none).setPrev (.read c) none)
  { s.setConn c
      { v with fd := fd, inits := v.inits + 1,
               read := { instanceBit := !v.read.instanceBit,
                         lastInstance := v.read.lastInstance },
               write := { instanceBit := !v.read.instanceBit } } with
    links := (links.setNext (.write c) none).setPrev (.write c) none }

/-- `epoll_add_event`; `ok` says whether `epoll_ctl` finds memory for it. -/
def epollAddEvent (c : Nat) (w ok : Bool) (s : State) : State :=
  let v := s.conns c
  let ev := v.event w
  let done := ok && v.fd != -1 && (s.isRegistered c == (v.event !w).active)
  let t := if done then s.register c ev.instanceBit else s
  t.setConn c (v.setEvent w { ev with active := done })

/-- `epoll_del_event`. -/
def epollDelEvent (c : Nat) (w closing ok : Bool) (s : State) : State :=
  let v := s.conns c
  let ev := v.event w
  let off (t : State) := t.setConn c (v.setEvent w { ev with active := false })
  if closing then off s
  else if ok && v.fd != -1 && s.isRegistered c then
    off (if (v.event !w).active then s.register c ev.instanceBit else s.unregister c)
  else s

/-- `epoll_add_connection`. -/
def epollAddConnection (c : Nat) (ok : Bool) (s : State) : State :=
  let v := s.conns c
  if ok && v.fd != -1 && !s.isRegistered c then
    (s.register c v.read.instanceBit).setConn c
      { v with read := { v.read with active := true }, write := { v.write with active := true } }
  else s

/-- `epoll_del_connection`. -/
def epollDelConnection (c : Nat) (closing ok : Bool) (s : State) : State :=
  let v := s.conns c
  let off (t : State) := t.setConn c
    { v with read := { v.read with active := false }, write := { v.write with active := false } }
  if closing then off s
  else if ok && v.fd != -1 && s.isRegistered c then off (s.unregister c)
  else s

/-- `close(c->fd); c->fd = -1`, as `http_conn_connect` does it. -/
def closeFd (c : Nat) (s : State) : State :=
  if (s.conns c).fd = -1 then s
  else (s.unregister c).setConn c { s.conns c with fd := -1 }

/-- `conn_close`, without its timers. -/
def connClose (c : Nat) (s : State) : State :=
  if (s.conns c).fd > 0 then
    let s := closeFd c s
    if (s.conns c).evBase then epollDelConnection c true true s else s
  else s

/-- What a handler does, one call at a time. -/
inductive Op where
  | getConnection
  | freeConnection (c : Nat)
  | setDefault (c : Nat) (fd : Int)
  | setEvBase (c : Nat)
  | setHandler (c : Nat) (w : Bool)
  | setAccepted (c : Nat)
  | addEvent (c : Nat) (w ok : Bool)
  | delEvent (c : Nat) (w closing ok : Bool)
  | addConnection (c : Nat) (ok : Bool)
  | delConnection (c : Nat) (closing ok : Bool)
  | close (c : Nat)
  | closeFd (c : Nat)

/-- The connection that an operation works on; it is not in the pool then. -/
def Op.conn? : Op → Option Nat
  | .getConnection => none
  | .freeConnection c | .setDefault c _ | .setEvBase c | .setHandler c _ | .setAccepted c
  | .addEvent c _ _ | .delEvent c _ _ _ | .addConnection c _ | .delConnection c _ _ | .close c
  | .closeFd c => some c

def Op.run (s : State) : Op → State
  | .getConnection => { s with free := s.free.tail }
  | .freeConnection c => { s with free := c :: s.free }
  | .setDefault c fd => connSetDefault c fd s
  | .setEvBase c => s.setConn c { s.conns c with evBase := true }
  | .setHandler c w =>
    let v := s.conns c
    s.setConn c (v.setEvent w { v.event w with handler := true })
  | .setAccepted c =>
    let v := s.conns c
    s.setConn c { v with read := { v.read with accepted := true } }
  | .addEvent c w ok => epollAddEvent c w ok s
  | .delEvent c w closing ok => epollDelEvent c w closing ok s
  | .addConnection c ok => epollAddConnection c ok s
  | .delConnection c closing ok => epollDelConnection c closing ok s
  | .close c => connClose c s
  | .closeFd c => Epoll.closeFd c s

/-- The handler of event `x` of connection `c` is called. -/
def State.call (x : Cell) (c : Nat) (posted : Bool) (reportedFor : Nat) (s : State) : State :=
  { s with calls := ⟨x, posted, reportedFor, (s.conns c).fd, (s.conns c).inits⟩ :: s.calls }

/-- Event `x` of connection `c` has been linked. -/
def State.posted (x : Cell) (c : Nat) (links : Links Cell) (s : State) : State :=
  { s with links := links,
           posts := Function.update s.posts x (s.posts x + 1),
           postedFor := Function.update s.postedFor x (s.conns c).inits }

/-- `queue_insert_tail((queue_t *)queue, &ev->post_queue)`, and where the loop goes on. -/
def post (q x : Cell) (c : Nat) (s : State) (cont : State → State) : State :=
  match queueInsertTail q x s.links with
  | none => s.goto .crashed
  | some links => cont (s.posted x c links)

/-- The second half of the loop body of `epoll_process_events`. -/
def processWrite (posting : Bool) (e : Reported) (rest : List Reported) (s : State) : State :=
  let c := e.of.conn
  let v := s.conns c
  if e.epollout && v.write.active then
    let v := v.ready true
    if !v.write.handler then (s.setConn c v).goto (.batch posting rest)
    else if posting then
      post .postedHead (.write c) c (s.setConn c (v.last e.of.bit))
        (State.goto (.batch posting rest))
    else ((s.setConn c v).call (.write c) c false e.of.inits).goto (.inWrite rest)
  else s.goto (.batch posting rest)

/-- `events |= EPOLLIN | EPOLLOUT` where only errors are reported. -/
def Reported.masked (e : Reported) : Reported :=
  if (e.epollerr || e.epollhup) && !(e.epollin || e.epollout) then
    { e with epollin := true, epollout := true }
  else e

/-- The loop body of `epoll_process_events`. -/
def processEvent (posting : Bool) (e : Reported) (rest : List Reported) (s : State) : State :=
  let c := e.of.conn
  let v := s.conns c
  if v.fd = -1 ∨ v.read.instanceBit ≠ e.of.bit then s.goto (.batch posting rest)
  else
    let e := e.masked
    if e.epollin && v.read.active then
      let v := v.ready false
      if !v.read.handler then (s.setConn c v).goto (.batch posting rest)
      else if posting then
        post (if v.read.accepted then .acceptHead else .postedHead) (.read c) c
          (s.setConn c (v.last e.of.bit)) (processWrite posting e rest)
      else ((s.setConn c v).call (.read c) c false e.of.inits).goto (.inRead e rest)
    else processWrite posting e rest s

/-- The event behind a queue cell: its connection, and whether it is the write event. -/
def Cell.event? : Cell → Option (Nat × Bool)
  | .read c => some (c, false)
  | .write c => some (c, true)
  | _ => none

/-- The loop body of `event_process_posted`. -/
def processPosted (q : Cell) (s : State) : State :=
  if queueEmpty s.links q then s.goto .idle
  else
    match queueHead s.links q with
    | none => s.goto .crashed
    | some eq =>
      match queueRemove eq s.links, eq.event? with
      | some links, some (c, w) =>
        let s := { s with links := links }
        if (s.conns c).fd = -1 then s.goto (.drain q)
        else if !((s.conns c).event w).handler then s.goto .crashed
        else (s.call eq c true (s.postedFor eq)).goto (.inPosted q)
      | _, _ => s.goto .crashed

inductive Act where
  /-- `epoll_wait` returns events to `epoll_process_events` with or without
  `EVENT_POST_EVENTS` -/
  | wait (posting : Bool) (events : List Reported)
  /-- `event_process_posted(q)` is called -/
  | drain (q : Cell)
  /-- the loop of one of the two goes on -/
  | next
  | op (o : Op)
  /-- the running handler returns -/
  | ret

/-- A handler is running, or the loop of the program outside the two functions. -/
def Pc.handling : Pc → Bool
  | .idle | .inRead _ _ | .inWrite _ | .inPosted _ => true
  | _ => false

def step (s : State) : Act → State
  | .wait posting events =>
    if s.pc = .idle ∧ (∀ e ∈ events, e.of ∈ s.registered) ∧ (events.map (·.of)).Nodup then
      s.goto (.batch posting events)
    else s
  | .drain q =>
    if s.pc = .idle ∧ (q = .acceptHead ∨ q = .postedHead) then s.goto (.drain q) else s
  | .next =>
    match s.pc with
    | .batch _ [] => s.goto .idle
    | .batch posting (e :: rest) => processEvent posting e rest s
    | .drain q => processPosted q s
    | _ => s
  | .op o =>
    if s.pc.handling && o.conn?.all (fun c => c ∉ s.free) then o.run s else s
  | .ret =>
    match s.pc with
    | .inRead e rest => processWrite false e rest s
    | .inWrite rest => s.goto (.batch false rest)
    | .inPosted q => s.goto (.drain q)
    | _ => s

/-- `epoll_init`, with connections that have no descriptor yet: those of the pool, whose read
event `conn_pool_init` gives the bit 1, and others from `conn_get_from_mem`. -/
def start (bit : Nat → Bool) (free : List Nat) : State where
  conns c := { read := { instanceBit := bit c } }
  free := free
  links := queueInit .postedHead (queueInit .acceptHead ⟨fun _ => none, fun _ => none⟩)

/-! ## What a step can do to a connection -/

/-- The connection keeps its incarnation. -/
structure Kept (v v' : Conn) : Prop where
  inits : v'.inits = v.inits
  readBit : v'.read.instanceBit = v.read.instanceBit
  writeBit : v'.write.instanceBit = v.write.instanceBit
  fd : v'.fd = v.fd ∨ v'.fd = -1
  handler : ∀ w, (v.event w).handler → (v'.event w).handler

/-- The connection begins its next incarnation. -/
structure Renewed (v v' : Conn) : Prop where
  inits : v'.inits = v.inits + 1
  readBit : v'.read.instanceBit = !v.read.instanceBit
  writeBit : v'.write.instanceBit = !v.read.instanceBit

theorem Kept.refl (v : Conn) : Kept v v := ⟨rfl, rfl, rfl, .inl rfl, fun _ h => h⟩

theorem Kept.trans {u v w : Conn} (h : Kept u v) (h' : Kept v w) : Kept u w where
  inits := h'.inits.trans h.inits
  readBit := h'.readBit.trans h.readBit
  writeBit := h'.writeBit.trans h.writeBit
  fd := by
    rcases h'.fd with h1 | h1
    · rw [h1]
      exact h.fd
    · exact .inr h1
  handler b hb := h'.handler b (h.handler b hb)

/-- A registration of `t` is one of `s`, or one that `epoll_ctl` has just made for an open
connection. -/
def Registered (s t : State) (r : Registration) : Prop :=
  r ∈ s.registered ∨
    (s.conns r.conn).fd ≠ -1 ∧ r.inits = (s.conns r.conn).inits ∧
      (∃ w, r.bit = ((s.conns r.conn).event w).instanceBit) ∧
      Kept (s.conns r.conn) (t.conns r.conn)

structure Moved (s t : State) : Prop where
  conns : ∀ c, Kept (s.conns c) (t.conns c) ∨ Renewed (s.conns c) (t.conns c)
  registered : ∀ r ∈ t.registered, Registered s t r

section Moves

variable {s t : State} {c : Nat} {v : Conn}

theorem moved_setConn {regs : List Registration} (hv : Kept (s.conns c) v)
    (hregs : ∀ r ∈ regs, r ∈ s.registered ∨
      (s.conns c).fd ≠ -1 ∧ ∃ w, r = ⟨c, ((s.conns c).event w).instanceBit, (s.conns c).inits⟩) :
    Moved s { s with conns := Function.update s.conns c v, registered := regs } := by
  have hself : Function.update s.conns c v c = v := Function.update_self ..
  refine ⟨fun d => .inl ?_, fun r hr => ?_⟩
  · by_cases hd : d = c
    · subst hd
      simpa [hself] using hv
    · simpa [Function.update_of_ne hd] using Kept.refl (s.conns d)
  · rcases hregs r hr with hold | ⟨hfd, w, rfl⟩
    · exact .inl hold
    · refine .inr ⟨hfd, rfl, ⟨w, rfl⟩, ?_⟩
      simpa [hself] using hv

theorem kept_setConn (hv : Kept (s.conns c) v) (d : Nat) :
    Kept (s.conns d) ((s.setConn c v).conns d) := by
  by_cases hd : d = c
  · subst hd
    simpa [State.setConn] using hv
  · simpa [State.setConn, Function.update_of_ne hd] using Kept.refl (s.conns d)

/-- A move behind one that kept every connection. -/
theorem Moved.after {u : State} (h : Moved t u) (hk : ∀ d, Kept (s.conns d) (t.conns d))
    (hr : t.registered = s.registered) : Moved s u := by
  refine ⟨fun d => ?_, fun r hu => ?_⟩
  · rcases h.conns d with h1 | h1
    · exact .inl ((hk d).trans h1)
    · exact .inr ⟨by rw [h1.inits, (hk d).inits], by rw [h1.readBit, (hk d).readBit],
        by rw [h1.writeBit, (hk d).readBit]⟩
  · rcases h.registered r hu with hold | ⟨hfd, hinits, ⟨w, hbit⟩, h1⟩
    · exact .inl (hr ▸ hold)
    · have hkr := hk r.conn
      have hopen : (s.conns r.conn).fd ≠ -1 := by
        rcases hkr.fd with hf | hf
        · rwa [hf] at hfd
        · exact absurd hf hfd
      refine .inr ⟨hopen, hinits.trans hkr.inits, ⟨w, hbit.trans ?_⟩, hkr.trans h1⟩
      cases w with
      | false => exact hkr.readBit
      | true => exact hkr.writeBit

/-- A connection that a move has kept or renewed is kept once more. -/
theorem Moved.keep (h : Moved s t) (hv : Kept (t.conns c) v) : Moved s (t.setConn c v) := by
  have hkept := kept_setConn hv
  refine ⟨fun d => ?_, fun r hr => ?_⟩
  · rcases h.conns d with hk | hr
    · exact .inl (hk.trans (hkept d))
    · exact .inr ⟨(hkept d).inits.trans hr.inits, (hkept d).readBit.trans hr.readBit,
        (hkept d).writeBit.trans hr.writeBit⟩
  · rcases h.registered r hr with hold | ⟨hfd, hinits, hbit, hk⟩
    · exact .inl hold
    · exact .inr ⟨hfd, hinits, hbit, hk.trans (hkept r.conn)⟩

theorem moved_keep (hv : Kept (s.conns c) v) : Moved s (s.setConn c v) :=
  moved_setConn hv fun _ hr => .inl hr

theorem Moved.congr {t' : State} (h : Moved s t) (hc : t'.conns = t.conns)
    (hr : t'.registered = t.registered) : Moved s t' := by
  refine ⟨fun c => ?_, fun r hr' => ?_⟩
  · rw [hc]
    exact h.conns c
  · rw [hr] at hr'
    rw [Registered, hc]
    exact h.registered r hr'

theorem moved_same (hc : t.conns = s.conns) (hr : t.registered = s.registered) : Moved s t :=
  ⟨fun _ => .inl (hc ▸ Kept.refl _), fun _ h => .inl (hr ▸ h)⟩

theorem mem_unregister {r : Registration} (hr : r ∈ (s.unregister c).registered) :
    r ∈ s.registered := (List.mem_filter.1 hr).1

theorem mem_register {r : Registration} {bit : Bool} (hr : r ∈ (s.register c bit).registered) :
    r = ⟨c, bit, (s.conns c).inits⟩ ∨ r ∈ s.registered := by
  rcases List.mem_cons.1 hr with h | h
  · exact .inl h
  · exact .inr (mem_unregister h)

theorem moved_connSetDefault (c : Nat) (fd : Int) (s : State) :
    Moved s (connSetDefault c fd s) := by
  refine ⟨fun d => ?_, fun r hr => .inl hr⟩
  by_cases hd : d = c
  · subst hd
    exact .inr ⟨by simp [connSetDefault, State.setConn], by simp [connSetDefault, State.setConn],
      by simp [connSetDefault, State.setConn]⟩
  · left
    simpa [connSetDefault, State.setConn, Function.update_of_ne hd] using Kept.refl (s.conns d)

theorem kept_setEvent {w : Bool} {e : Event}
    (hbit : e.instanceBit = (v.event w).instanceBit)
    (hh : (v.event w).handler → e.handler) : Kept v (v.setEvent w e) := by
  cases w with
  | false =>
    refine ⟨rfl, hbit, rfl, .inl rfl, fun w' h => ?_⟩
    cases w' with
    | false => exact hh h
    | true => exact h
  | true =>
    refine ⟨rfl, rfl, hbit, .inl rfl, fun w' h => ?_⟩
    cases w' with
    | false => exact h
    | true => exact hh h

/-- Only other flags of the events are written. -/
theorem kept_flags {v' : Conn} (hinits : v'.inits = v.inits) (hfd : v'.fd = v.fd)
    (hread : v'.read.instanceBit = v.read.instanceBit ∧ v'.read.handler = v.read.handler)
    (hwrite : v'.write.instanceBit = v.write.instanceBit ∧ v'.write.handler = v.write.handler) :
    Kept v v' := by
  refine ⟨hinits, hread.1, hwrite.1, .inl hfd, fun w h => ?_⟩
  cases w with
  | false => exact hread.2.trans h
  | true => exact hwrite.2.trans h

theorem kept_ready (v : Conn) (w : Bool) : Kept v (v.ready w) := kept_setEvent rfl id

theorem kept_last (v : Conn) (bit : Bool) : Kept v (v.last bit) :=
  kept_flags rfl rfl ⟨rfl, rfl⟩ ⟨rfl, rfl⟩

theorem kept_active (v : Conn) (a b : Bool) :
    Kept v { v with read := { v.read with active := a }, write := { v.write with active := b } } :=
  kept_flags rfl rfl ⟨rfl, rfl⟩ ⟨rfl, rfl⟩

theorem moved_epollAddEvent (c : Nat) (w ok : Bool) (s : State) :
    Moved s (epollAddEvent c w ok s) := by
  have hkept (a : Bool) : Kept (s.conns c)
      ((s.conns c).setEvent w { (s.conns c).event w with active := a }) :=
    kept_setEvent rfl id
  simp only [epollAddEvent]
  split
  · rename_i hdone
    simp only [Bool.and_eq_true, bne_iff_ne] at hdone
    refine moved_setConn (hkept _) fun r hr => ?_
    rcases mem_register hr with rfl | hr
    · exact .inr ⟨hdone.1.2, w, rfl⟩
    · exact .inl hr
  · exact moved_keep (hkept _)

theorem moved_epollDelEvent (c : Nat) (w closing ok : Bool) (s : State) :
    Moved s (epollDelEvent c w closing ok s) := by
  have hkept : Kept (s.conns c)
      ((s.conns c).setEvent w { (s.conns c).event w with active := false }) :=
    kept_setEvent rfl id
  simp only [epollDelEvent]
  split
  · exact moved_keep hkept
  · split
    · rename_i hdone
      simp only [Bool.and_eq_true, bne_iff_ne] at hdone
      split
      · refine moved_setConn hkept fun r hr => ?_
        rcases mem_register hr with rfl | hr
        · exact .inr ⟨hdone.1.2, w, rfl⟩
        · exact .inl hr
      · exact moved_setConn hkept fun r hr => .inl (mem_unregister hr)
    · exact moved_same rfl rfl

theorem moved_epollAddConnection (c : Nat) (ok : Bool) (s : State) :
    Moved s (epollAddConnection c ok s) := by
  simp only [epollAddConnection]
  split
  · rename_i hdone
    simp only [Bool.and_eq_true, bne_iff_ne] at hdone
    refine moved_setConn (kept_active _ _ _) fun r hr => ?_
    rcases mem_register hr with rfl | hr
    · exact .inr ⟨hdone.1.2, false, rfl⟩
    · exact .inl hr
  · exact moved_same rfl rfl

theorem moved_epollDelConnection (c : Nat) (closing ok : Bool) (s : State) :
    Moved s (epollDelConnection c closing ok s) := by
  simp only [epollDelConnection]
  split
  · exact moved_keep (kept_active _ _ _)
  · split
    · exact moved_setConn (kept_active _ _ _) fun r hr => .inl (mem_unregister hr)
    · exact moved_same rfl rfl

theorem moved_closeFd (c : Nat) (s : State) : Moved s (closeFd c s) := by
  simp only [closeFd]
  split
  · exact moved_same rfl rfl
  · exact moved_setConn ⟨rfl, rfl, rfl, .inr rfl, fun w h => by cases w <;> exact h⟩
      fun r hr => .inl (mem_unregister hr)

theorem moved_connClose (c : Nat) (s : State) : Moved s (connClose c s) := by
  simp only [connClose]
  split
  · split
    · exact (moved_closeFd c s).keep (kept_active _ _ _)
    · exact moved_closeFd c s
  · exact moved_same rfl rfl

/-- Every operation keeps the incarnation of a connection or begins the next one. -/
theorem moved_run (o : Op) (s : State) : Moved s (o.run s) := by
  cases o with
  | getConnection => exact moved_same rfl rfl
  | freeConnection c => exact moved_same rfl rfl
  | setDefault c fd => exact moved_connSetDefault c fd s
  | setEvBase c => exact moved_keep (kept_flags rfl rfl ⟨rfl, rfl⟩ ⟨rfl, rfl⟩)
  | setHandler c w => exact moved_keep (kept_setEvent rfl fun _ => rfl)
  | setAccepted c => exact moved_keep (kept_flags rfl rfl ⟨rfl, rfl⟩ ⟨rfl, rfl⟩)
  | addEvent c w ok => exact moved_epollAddEvent c w ok s
  | delEvent c w closing ok => exact moved_epollDelEvent c w closing ok s
  | addConnection c ok => exact moved_epollAddConnection c ok s
  | delConnection c closing ok => exact moved_epollDelConnection c closing ok s
  | close c => exact moved_connClose c s
  | closeFd c => exact moved_closeFd c s

end Moves

/-! ## Events and the incarnations they were reported for -/

/-- The instance bit of a registration tells whether its connection has begun an even number of
incarnations since. -/
structure Tells (s : State) (r : Registration) : Prop where
  le : r.inits ≤ (s.conns r.conn).inits
  bit : r.bit = (s.conns r.conn).read.instanceBit ↔ Even ((s.conns r.conn).inits - r.inits)

/-- The events of the batch that are still to be looked at, or being handled. -/
def Pc.pending : Pc → List Reported
  | .batch _ rest => rest
  | .inRead e rest => e :: rest
  | .inWrite rest => rest
  | _ => []

/-- A call of `epoll_process_events` is for the incarnation that the connection has. -/
def Call.Current (k : Call) : Prop := k.fd ≠ -1 ∧ k.inits = k.reportedFor

/-- `wev->handler` is to be called next for event `e`. -/
def WriteHandled (s : State) (e : Reported) : Prop :=
  let v := s.conns e.of.conn
  e.epollout ∧ v.write.active ∧ v.write.handler

/-- Event `e` of a batch leads to the call of a handler, if it is not found to be stale. -/
def Handled (s : State) (e : Reported) : Prop :=
  let v := s.conns e.of.conn
  let e := e.masked
  if e.epollin ∧ v.read.active then v.read.handler = true else WriteHandled s e

/-- The connection of event `e` is open, and was re-initialised a positive even number of times
since the descriptor of `e` was registered. -/
def Recycled (s : State) (e : Reported) : Prop :=
  let v := s.conns e.of.conn
  v.fd ≠ -1 ∧ e.of.inits < v.inits ∧ Even (v.inits - e.of.inits)

/-- No event that would be handled is one of a connection recycled so; and no read handler returns
with its connection closed or re-initialised while the write handler is called next. -/
def Distinguishable (s : State) (a : Act) : Prop :=
  match a, s.pc with
  | .next, .batch false (e :: _) => Handled s e → ¬ Recycled s e
  | .ret, .inRead e _ =>
    WriteHandled s e → (s.conns e.of.conn).fd ≠ -1 ∧ (s.conns e.of.conn).inits = e.of.inits
  | _, _ => True

instance (s : State) (e : Reported) : Decidable (WriteHandled s e) :=
  inferInstanceAs (Decidable (_ ∧ _ ∧ _))

instance (s : State) (e : Reported) : Decidable (Handled s e) :=
  inferInstanceAs (Decidable (ite _ _ _))

instance (s : State) (e : Reported) : Decidable (Recycled s e) :=
  inferInstanceAs (Decidable (_ ∧ _ ∧ _))

instance (s : State) (a : Act) : Decidable (Distinguishable s a) := by
  unfold Distinguishable
  split <;> infer_instance

structure Inv (s : State) : Prop where
  registered : ∀ r ∈ s.registered, Tells s r
  pending : ∀ e ∈ s.pc.pending, Tells s e.of
  write : ∀ c, (s.conns c).fd ≠ -1 → (s.conns c).write.instanceBit = (s.conns c).read.instanceBit
  calls : ∀ k ∈ s.calls, k.posted = false → k.Current

theorem Tells.moved {s t : State} {r : Registration} (h : Tells s r) (hm : Moved s t) :
    Tells t r := by
  obtain ⟨hle, hbit⟩ := h
  rcases hm.conns r.conn with hk | hn
  · rw [← hk.inits] at hle
    rw [← hk.readBit, ← hk.inits] at hbit
    exact ⟨hle, hbit⟩
  · refine ⟨by rw [hn.inits]; omega, ?_⟩
    have heven : Even ((t.conns r.conn).inits - r.inits) ↔
        ¬ Even ((s.conns r.conn).inits - r.inits) := by
      rw [hn.inits, Nat.sub_add_comm hle, Nat.even_add_one]
    rw [heven, ← hbit, hn.readBit]
    cases r.bit <;> cases (s.conns r.conn).read.instanceBit <;> simp

namespace Inv

variable {s t : State}

theorem tells_new (h : Inv s) {r : Registration} (hm : Moved s t) (hr : Registered s t r) :
    Tells t r := by
  rcases hr with hold | ⟨hfd, hinits, ⟨w, hbit⟩, hk⟩
  · exact (h.registered r hold).moved hm
  · refine ⟨by rw [hk.inits, hinits], ?_⟩
    have hread : r.bit = (s.conns r.conn).read.instanceBit := by
      cases w with
      | false => exact hbit
      | true => exact hbit.trans (h.write _ hfd)
    simp [hk.inits, hinits, hk.readBit, hread]

/-- What a move of the connections keeps, with where the thread goes on and the calls. -/
theorem moved (h : Inv s) (hm : Moved s t) (hpc : ∀ e ∈ t.pc.pending, Tells s e.of)
    (hcalls : ∀ k ∈ t.calls, k.posted = false → k ∉ s.calls → k.Current) : Inv t := by
  refine ⟨fun r hr => h.tells_new hm (hm.registered r hr), fun e he => (hpc e he).moved hm, ?_, ?_⟩
  · intro c hfd
    rcases hm.conns c with hk | hn
    · have hopen : (s.conns c).fd ≠ -1 := by
        rcases hk.fd with hf | hf
        · rwa [hf] at hfd
        · exact absurd hf hfd
      rw [hk.writeBit, hk.readBit]
      exact h.write c hopen
    · rw [hn.writeBit, hn.readBit]
  · intro k hk hp
    by_cases hold : k ∈ s.calls
    · exact h.calls k hold hp
    · exact hcalls k hk hp hold

end Inv

/-- What the second half of the loop body does. -/
structure Wrote (posting : Bool) (e : Reported) (rest : List Reported) (s t : State) : Prop where
  moved : Moved s t
  pending : ∀ e' ∈ t.pc.pending, e' ∈ rest
  calls : t.calls = s.calls ∨ posting = false ∧ WriteHandled s e ∧
    t.calls = ⟨.write e.of.conn, false, e.of.inits, (s.conns e.of.conn).fd,
      (s.conns e.of.conn).inits⟩ :: s.calls

theorem post_cases (q x : Cell) (c : Nat) (s : State) (cont : State → State) :
    post q x c s cont = s.goto .crashed ∨
      ∃ links, queueInsertTail q x s.links = some links ∧
        post q x c s cont = cont (s.posted x c links) := by
  unfold post
  cases queueInsertTail q x s.links with
  | none => exact .inl rfl
  | some links => exact .inr ⟨links, rfl, rfl⟩

theorem processWrite_wrote (posting : Bool) (e : Reported) (rest : List Reported) (s : State) :
    Wrote posting e rest s (processWrite posting e rest s) := by
  simp only [processWrite]
  have hready := moved_keep (s := s) (c := e.of.conn) (kept_ready _ true)
  split
  · rename_i hw
    rw [Bool.and_eq_true] at hw
    split
    · exact ⟨hready.congr rfl rfl, fun _ h => h, .inl rfl⟩
    · rename_i hh
      split
      · have hlast := moved_keep (s := s) (c := e.of.conn)
          ((kept_ready _ true).trans (kept_last _ e.of.bit))
        rcases post_cases .postedHead (.write e.of.conn) e.of.conn _ _ with h | ⟨links, -, h⟩
        · rw [h]
          exact ⟨hlast.congr rfl rfl, by simp [State.goto, Pc.pending], .inl rfl⟩
        · rw [h]
          exact ⟨hlast.congr rfl rfl, fun _ h => h, .inl rfl⟩
      · rename_i hp
        refine ⟨hready.congr rfl rfl, fun _ h => h,
          .inr ⟨by simpa using hp, ⟨hw.1, hw.2, by simpa using hh⟩, ?_⟩⟩
        simp [State.goto, State.call, State.setConn]
  · exact ⟨moved_same rfl rfl, fun _ h => h, .inl rfl⟩

/-- What the loop body does. -/
structure Looked (posting : Bool) (e : Reported) (rest : List Reported) (s t : State) : Prop where
  moved : Moved s t
  pending : ∀ e' ∈ t.pc.pending, e' = e.masked ∨ e' ∈ rest
  calls : t.calls = s.calls ∨ posting = false ∧ Handled s e ∧ (s.conns e.of.conn).fd ≠ -1 ∧
    (s.conns e.of.conn).read.instanceBit = e.of.bit ∧
    ∃ x, t.calls = ⟨x, false, e.of.inits, (s.conns e.of.conn).fd,
      (s.conns e.of.conn).inits⟩ :: s.calls

@[simp] theorem masked_of (e : Reported) : e.masked.of = e.of := by
  unfold Reported.masked
  split <;> rfl

theorem processEvent_looked (posting : Bool) (e : Reported) (rest : List Reported) (s : State) :
    Looked posting e rest s (processEvent posting e rest s) := by
  simp only [processEvent, masked_of]
  split
  · exact ⟨moved_same rfl rfl, fun _ h => .inr h, .inl rfl⟩
  rename_i hfresh
  push Not at hfresh
  have hready := moved_keep (s := s) (c := e.of.conn) (kept_ready _ false)
  split
  · rename_i hr
    rw [Bool.and_eq_true] at hr
    split
    · exact ⟨hready.congr rfl rfl, fun _ h => .inr h, .inl rfl⟩
    · rename_i hh
      have hhandled : Handled s e := by simpa [Handled, hr] using hh
      split
      · rename_i hp
        have hlast := moved_keep (s := s) (c := e.of.conn)
          ((kept_ready _ false).trans (kept_last _ e.of.bit))
        rcases post_cases (if ((s.conns e.of.conn).ready false).read.accepted then .acceptHead
          else .postedHead) (.read e.of.conn) e.of.conn _ _ with h | ⟨links, -, h⟩
        · rw [h]
          exact ⟨hlast.congr rfl rfl, by simp [State.goto, Pc.pending], .inl rfl⟩
        · rw [h]
          obtain ⟨hm, hpend, hcalls⟩ := processWrite_wrote posting e.masked rest
            ((s.setConn e.of.conn (((s.conns e.of.conn).ready false).last e.of.bit)).posted
              (.read e.of.conn) e.of.conn links)
          refine ⟨hm.after (kept_setConn ((kept_ready _ false).trans (kept_last _ e.of.bit))) rfl,
            fun e' he' => .inr (hpend e' he'), ?_⟩
          rcases hcalls with h1 | ⟨h1, -⟩
          · exact .inl h1
          · simp [h1] at hp
      · rename_i hp
        refine ⟨hready.congr rfl rfl, ?_,
          .inr ⟨by simpa using hp, hhandled, hfresh.1, hfresh.2, .read e.of.conn, ?_⟩⟩
        · intro e' he'
          simpa [State.goto, Pc.pending] using he'
        · simp [State.goto, State.call, State.setConn]
  · rename_i hr
    obtain ⟨hm, hpend, hcalls⟩ := processWrite_wrote posting e.masked rest s
    refine ⟨hm, fun e' he' => .inr (hpend e' he'), ?_⟩
    rcases hcalls with h | ⟨hp, hw, h⟩
    · exact .inl h
    · right
      refine ⟨hp, ?_, hfresh.1, hfresh.2, _, by simpa using h⟩
      have hr' : ¬ (e.masked.epollin = true ∧ (s.conns e.of.conn).read.active = true) := by
        simpa using hr
      simp only [Handled]
      rw [if_neg hr']
      simpa [WriteHandled] using hw

/-- What the loop body of `event_process_posted` does to the connections and the calls. -/
theorem processPosted_moved (q : Cell) (s : State) :
    Moved s (processPosted q s) ∧ (processPosted q s).pc.pending = [] ∧
      ∀ k ∈ (processPosted q s).calls, k.posted = false → k ∈ s.calls := by
  simp only [processPosted]
  split
  · exact ⟨moved_same rfl rfl, rfl, fun _ h _ => h⟩
  split
  · exact ⟨moved_same rfl rfl, rfl, fun _ h _ => h⟩
  split
  · split
    · exact ⟨moved_same rfl rfl, rfl, fun _ h _ => h⟩
    split
    · exact ⟨moved_same rfl rfl, rfl, fun _ h _ => h⟩
    · refine ⟨moved_same rfl rfl, rfl, fun k hk hp => ?_⟩
      rcases List.mem_cons.1 hk with rfl | hk
      · cases hp
      · exact hk
  · exact ⟨moved_same rfl rfl, rfl, fun _ h _ => h⟩

/-- Operations on connections happen inside a handler, which goes on behind them. -/
theorem run_pc_calls (o : Op) (s : State) : (o.run s).pc = s.pc ∧ (o.run s).calls = s.calls := by
  have hclose (c : Nat) (s : State) : (closeFd c s).pc = s.pc ∧ (closeFd c s).calls = s.calls := by
    simp only [closeFd]
    split <;> exact ⟨rfl, rfl⟩
  cases o with
  | getConnection => exact ⟨rfl, rfl⟩
  | freeConnection c => exact ⟨rfl, rfl⟩
  | setDefault c fd => exact ⟨rfl, rfl⟩
  | setEvBase c => exact ⟨rfl, rfl⟩
  | setHandler c w => exact ⟨rfl, rfl⟩
  | setAccepted c => exact ⟨rfl, rfl⟩
  | addEvent c w ok =>
    simp only [Op.run, epollAddEvent]
    split <;> exact ⟨rfl, rfl⟩
  | delEvent c w closing ok =>
    simp only [Op.run, epollDelEvent]
    split
    · exact ⟨rfl, rfl⟩
    · split
      · split <;> exact ⟨rfl, rfl⟩
      · exact ⟨rfl, rfl⟩
  | addConnection c ok =>
    simp only [Op.run, epollAddConnection]
    split <;> exact ⟨rfl, rfl⟩
  | delConnection c closing ok =>
    simp only [Op.run, epollDelConnection]
    split
    · exact ⟨rfl, rfl⟩
    · split <;> exact ⟨rfl, rfl⟩
  | close c =>
    simp only [Op.run, connClose]
    split
    · split
      · exact hclose c s
      · exact hclose c s
    · exact ⟨rfl, rfl⟩
  | closeFd c => exact hclose c s

namespace Inv

variable {s : State}

theorem goto (h : Inv s) {pc : Pc} (hpc : ∀ e ∈ pc.pending, Tells s e.of) : Inv (s.goto pc) :=
  h.moved (moved_same rfl rfl) hpc fun _ hk _ hnew => absurd hk hnew

theorem processEvent {posting : Bool} {e : Reported} {rest : List Reported} (h : Inv s)
    (hpc : s.pc = .batch posting (e :: rest))
    (hok : posting = false → Handled s e → ¬ Recycled s e) :
    Inv (processEvent posting e rest s) := by
  have hpend : ∀ e' ∈ e :: rest, Tells s e'.of := by
    have hp := h.pending
    rwa [hpc] at hp
  obtain ⟨hm, hrest, hcalls⟩ := processEvent_looked posting e rest s
  refine h.moved hm (fun e' he' => ?_) fun k hk _ hnew => ?_
  · rcases hrest e' he' with rfl | hin
    · simpa using hpend e (by simp)
    · exact hpend e' (by simp [hin])
  · rcases hcalls with hsame | ⟨hp, hhandled, hfd, hbit, x, hcons⟩
    · exact absurd (hsame ▸ hk) hnew
    · rw [hcons] at hk
      rcases List.mem_cons.1 hk with rfl | hold
      · refine ⟨hfd, ?_⟩
        obtain ⟨hle, htells⟩ := hpend e (by simp)
        have heven := htells.1 hbit.symm
        have hnot := hok hp hhandled
        simp only [Recycled, not_and] at hnot
        by_contra hne
        exact hnot hfd (by simp only at hne; omega) heven
      · exact absurd hold hnew

theorem processWrite {e : Reported} {rest : List Reported} (h : Inv s)
    (hpc : s.pc = .inRead e rest)
    (hok : WriteHandled s e →
      (s.conns e.of.conn).fd ≠ -1 ∧ (s.conns e.of.conn).inits = e.of.inits) :
    Inv (processWrite false e rest s) := by
  obtain ⟨hm, hrest, hcalls⟩ := processWrite_wrote false e rest s
  refine h.moved hm (fun e' he' => ?_) fun k hk _ hnew => ?_
  · have hp := h.pending
    rw [hpc] at hp
    exact hp e' (List.mem_cons_of_mem _ (hrest e' he'))
  · rcases hcalls with hsame | ⟨-, hw, hcons⟩
    · exact absurd (hsame ▸ hk) hnew
    · rw [hcons] at hk
      rcases List.mem_cons.1 hk with rfl | hold
      · exact hok hw
      · exact absurd hold hnew

theorem step {a : Act} (h : Inv s) (hok : Distinguishable s a) : Inv (step s a) := by
  cases a with
  | wait posting events =>
    simp only [Epoll.step]
    split
    · rename_i hg
      exact h.goto fun e he => h.registered _ (hg.2.1 e he)
    · exact h
  | drain q =>
    simp only [Epoll.step]
    split
    · exact h.goto (by simp [Pc.pending])
    · exact h
  | next =>
    simp only [Epoll.step]
    split
    · exact h.goto (by simp [Pc.pending])
    · rename_i posting e rest hpc
      refine h.processEvent hpc fun hp => ?_
      subst hp
      simpa [Distinguishable, hpc] using hok
    · obtain ⟨hm, hpend, hcalls⟩ := processPosted_moved ‹_› s
      exact h.moved hm (by simp [hpend]) fun k hk hp hnew => absurd (hcalls k hk hp) hnew
    · exact h
  | op o =>
    simp only [Epoll.step]
    split
    · obtain ⟨hpc, hcalls⟩ := run_pc_calls o s
      refine h.moved (moved_run o s) (by rw [hpc]; exact h.pending) fun k hk _ hnew => ?_
      exact absurd (hcalls ▸ hk) hnew
    · exact h
  | ret =>
    simp only [Epoll.step]
    split
    · rename_i e rest hpc
      exact h.processWrite hpc (by simpa [Distinguishable, hpc] using hok)
    · rename_i rest hpc
      refine h.goto fun e he => h.pending e ?_
      rwa [hpc]
    · exact h.goto (by simp [Pc.pending])
    · exact h

end Inv

theorem inv_start (bit : Nat → Bool) (free : List Nat) : Inv (start bit free) where
  registered := by simp [start]
  pending := by simp [start, Pc.pending]
  write := by simp [start]
  calls := by simp [start]

/-- In every run whose events can be told apart by the instance bit, and whose read handlers leave
the connection alone where its write handler is called next, `epoll_process_events` calls handlers
only for the incarnation that the event was reported for. -/
theorem stale_events_skipped (bit : Nat → Bool) (free : List Nat) (acts : List Act)
    (hmeets : Run.Meets step Distinguishable (start bit free) acts) :
    ∀ k ∈ (Run.exec step (start bit free) acts).calls, k.posted = false → k.Current :=
  (Run.invariant step (inv_start bit free) (fun _ _ h hok => h.step hok) hmeets).calls

/-- A connection of the pool gets descriptor `fd`, a read handler, and is added. -/
def opened (c : Nat) (fd : Int) : List Act :=
  [.op .getConnection, .op (.setDefault c fd), .op (.setEvBase c), .op (.setHandler c false),
    .op (.addConnection c true)]

def closed (c : Nat) : List Act := [.op (.close c), .op (.freeConnection c)]

/-- Connections 1 and 2 are reported together, and the handler of 2 closes 1 and reuses it once. -/
def reusedOnce : List Act :=
  opened 1 5 ++ opened 2 6 ++
    [.wait false [{ of := ⟨2, false, 1⟩, epollin := true },
      { of := ⟨1, false, 1⟩, epollin := true }], .next] ++
    closed 1 ++ opened 1 5 ++ [.ret, .next]

/-- The old event of 1 is skipped: the handler of 2 is the only one that is called. -/
theorem stale_events_skipped_once :
    (Run.exec step (start (fun _ => true) [1, 2]) reusedOnce).calls.length = 1 ∧
    ∀ k ∈ (Run.exec step (start (fun _ => true) [1, 2]) reusedOnce).calls,
      k.posted = false → k.Current := by
  refine ⟨by decide +kernel, stale_events_skipped _ _ _ (Run.meets_of_check _ ?_)⟩
  decide +kernel

/-- The handler of 2 reuses 1 twice: the old event of 1 is handled. -/
theorem recycled_twice_handled :
    ¬ ∀ (bit : Nat → Bool) (free : List Nat) (acts : List Act),
      ∀ k ∈ (Run.exec step (start bit free) acts).calls, k.posted = false → k.Current := by
  intro h
  have hcall := h (fun _ => true) [1, 2]
    (opened 1 5 ++ opened 2 6 ++
      [.wait false [{ of := ⟨2, false, 1⟩, epollin := true },
        { of := ⟨1, false, 1⟩, epollin := true }], .next] ++
      closed 1 ++ opened 1 5 ++ closed 1 ++ opened 1 5 ++ [.ret, .next])
    ⟨.read 1, false, 1, 5, 3⟩ (by decide +kernel) rfl
  exact absurd hcall.2 (by decide)

end Epoll
end Shs
