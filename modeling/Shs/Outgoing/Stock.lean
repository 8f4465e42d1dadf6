import Shs.Http.Complete
import Shs.Loop

/-!
# Outgoing.Stock

The objects of a downstream call. `Stock` says which of them are live: the connection of the
context, the request on it, and the requests that functions further up the stack have in hand
and free when the callback returns. `Book` balances the log against that. Both are kept by the
small operations of the heap, one lemma for each.

What a run is asked to keep is collected in `Aims`, so that one induction over the calls serves
all results about the client.
-/

namespace Shs
namespace Outgoing

open Http Downstream Loop

/-- What a run is to keep. -/
structure Aims where
  /-- nothing is used after it was freed -/
  clean : Prop := False
  /-- the last request is not lost -/
  kept : Prop := False
  /-- the connection is marked as an outgoing one -/
  marked : Prop := False
  /-- a connection that waits for a response has a read timer -/
  timed : Prop := False
  /-- a timer that expires finds its handler -/
  wired : Prop := False
  /-- a response that is handed on is complete -/
  whole : Prop := False

/-! ## The environment -/

/-- The descriptors are above 0: the event loop was opened before. -/
def fdOk : ConnectResult → Bool
  | .addFail fd | .refused fd | .inProgress fd | .done fd => 0 < fd
  | .socketFail | .nonblockFail => true

/-- `connect` succeeds at once. -/
def instant : ConnectResult → Bool
  | .done _ => true
  | _ => false

/-- `send` reports an error or takes nothing. -/
def fails : SendResult → Bool
  | .error => true
  | .sent n => n == 0
  | .again => false

/-- The message of an attempt. -/
def requestMessage (cfg : Cfg) (date host : Bytes) (retry : Nat) : Bytes :=
  (httpMakeHeader ⟨cfg.disableHttpKeepalive, date⟩ (prepareRequest cfg
    (requestHeaders cfg { host := some host, retryNum := retry } {}))).outBuf.data

/-- The hosts the attempts of a step may get. -/
def hosts (env : Env) : List Bytes := [] :: env.attempts.filterMap Attempt.host

/-- In one step a `connect` succeeds at once, and a `send` fails or has to send 2 GiB. -/
def instantFail (cfg : Cfg) (env : Env) : Bool :=
  env.connects.any instant &&
    (env.sends.any fails ||
      (hosts env).any fun host => (List.range (cfg.maxRetryNum + 1)).any fun retry =>
        2 ^ 31 ≤ (requestMessage cfg env.date host retry).length)

/-- What the code around the client may answer. -/
structure EnvOk (A : Aims) (cfg : Cfg) (env : Env) : Prop where
  fds : ∀ x ∈ env.connects, fdOk x = true
  wired : A.wired ∨ A.marked → ∀ x ∈ env.connects, instant x = false
  clean : A.clean → ∀ x ∈ env.connects, instant x = true →
    (∀ y ∈ env.sends, fails y = false) ∧ ∀ host ∈ hosts env, ∀ retry ≤ cfg.maxRetryNum,
      (requestMessage cfg env.date host retry).length < 2 ^ 31

/-- Answers that have been used up do not matter. -/
theorem EnvOk.sub {A : Aims} {cfg : Cfg} {env env' : Env} (h : EnvOk A cfg env)
    (hc : env'.connects ⊆ env.connects) (hs : env'.sends ⊆ env.sends)
    (ha : env'.attempts ⊆ env.attempts) (hd : env'.date = env.date) : EnvOk A cfg env' := by
  refine ⟨fun x hx => h.fds x (hc hx), fun hw x hx => h.wired hw x (hc hx), fun hcl x hx hi => ?_⟩
  obtain ⟨h₁, h₂⟩ := h.clean hcl x (hc hx) hi
  refine ⟨fun y hy => h₁ y (hs hy), fun host hhost retry hr => ?_⟩
  rw [hd]
  refine h₂ host ?_ retry hr
  rcases List.mem_cons.mp hhost with rfl | hmem
  · exact List.mem_cons_self
  · obtain ⟨a, hmem, hah⟩ := List.mem_filterMap.mp hmem
    exact List.mem_cons_of_mem _ (List.mem_filterMap.mpr ⟨a, ha hmem, hah⟩)

theorem instantFail_false {cfg : Cfg} {env : Env} (h : instantFail cfg env = false) :
    ∀ x ∈ env.connects, instant x = true →
      (∀ y ∈ env.sends, fails y = false) ∧ ∀ host ∈ hosts env, ∀ retry ≤ cfg.maxRetryNum,
        (requestMessage cfg env.date host retry).length < 2 ^ 31 := by
  intro x hx hi
  have hany : env.connects.any instant = true := List.any_eq_true.mpr ⟨x, hx, hi⟩
  simp only [instantFail, hany, Bool.true_and, Bool.or_eq_false_iff, List.any_eq_false,
    List.mem_range, decide_eq_true_eq, Bool.not_eq_true] at h
  refine ⟨h.1, fun host hhost retry hr => ?_⟩
  exact Nat.lt_of_not_le fun hle =>
    h.2 host hhost retry (Nat.lt_succ_of_le hr) hle

/-! ## The log -/

def isCompletion : Obs → Bool
  | .completion _ => true
  | _ => false

/-- How often the caller's handler has been called. -/
def completions (log : List Obs) : Nat := log.countP isCompletion

/-- The context is freed behind the call of the caller's handler. -/
def FreedAfter (log : List Obs) : Prop :=
  ∀ newer older, log = newer ++ .free .ctx :: older → 0 < completions older

theorem FreedAfter.cons {log : List Obs} (h : FreedAfter log) {x : Obs}
    (hx : x = .free .ctx → 0 < completions log) : FreedAfter (x :: log) := by
  intro newer older heq
  cases newer with
  | nil =>
    simp only [List.nil_append, List.cons.injEq] at heq
    rw [← heq.2]; exact hx heq.1
  | cons y newer =>
    simp only [List.cons_append, List.cons.injEq] at heq
    exact h newer older heq.2

/-- A response that `HandlerResponse` gets with `HTTP_CODE_OK`. -/
def WholeResponse : Obs → Prop
  | .response .ok q => ∃ q', q = some q' ∧ complete .response q' = true
  | _ => True

/-- The log against the objects; `called` is how often the caller's handler was called. -/
structure Book (A : Aims) (called : Nat) (w : World) : Prop where
  reqs : ∀ r, frees (.req r) w.log + (w.reqs r).live.toNat = if r < w.nreq then 1 else 0
  conns : ∀ h, frees (.conn h) w.log + (w.conns h).live.toNat = if h < w.nconn then 1 else 0
  ctx : frees .ctx w.log + w.ctx.live.toNat = 1
  calls : completions w.log = called
  order : FreedAfter w.log
  clean : A.clean → ∀ x, .fault x ∉ w.log
  whole : A.whole → ∀ x ∈ w.log, WholeResponse x
  tree : ∀ i, .orphan i ∉ w.log

/-- An entry of the log that says nothing about objects. -/
def neutral : Obs → Bool
  | .free _ | .fault _ | .completion _ | .response _ _ | .orphan _ => false
  | _ => true

namespace Book

variable {A : Aims} {called : Nat} {w : World}

/-- A new entry that frees nothing. -/
theorem note (h : Book A called w) (x : Obs) {n : Nat} (hfree : ∀ y, x ≠ .free y)
    (hcalls : completions (x :: w.log) = n) (hclean : A.clean → ∀ y, x ≠ .fault y)
    (hwhole : A.whole → WholeResponse x) (htree : ∀ i, x ≠ .orphan i) : Book A n (w.emit x) := by
  have hf : ∀ y, frees y (w.emit x).log = frees y w.log := fun y =>
    List.count_cons_of_ne (hfree y)
  refine ⟨fun r => ?_, fun i => ?_, ?_, hcalls, h.order.cons fun hx => absurd hx (hfree _),
    fun hcl y hy => ?_, fun hw y hy => ?_, fun i hi => ?_⟩
  · rw [hf]; exact h.reqs r
  · rw [hf]; exact h.conns i
  · rw [hf]; exact h.ctx
  · rcases List.mem_cons.mp hy with hy | hy
    · exact hclean hcl y hy.symm
    · exact h.clean hcl y hy
  · rcases List.mem_cons.mp hy with hy | hy
    · rw [hy]; exact hwhole hw
    · exact h.whole hw y hy
  · rcases List.mem_cons.mp hi with hi | hi
    · exact htree i hi.symm
    · exact h.tree i hi

theorem emit (h : Book A called w) {x : Obs} (hx : neutral x = true) :
    Book A called (w.emit x) := by
  refine h.note x (fun y hy => ?_) ?_ (fun _ y hy => ?_) (fun _ => ?_) fun i hi => ?_
  · rw [hy] at hx; cases hx
  · have hc : isCompletion x = false := by cases x <;> first | rfl | cases hx
    simp only [completions, List.countP_cons, hc, Bool.false_eq_true, if_false, Nat.add_zero]
    exact h.calls
  · rw [hy] at hx; cases hx
  · cases x with
    | response => cases hx
    | _ => trivial
  · rw [hi] at hx; cases hx

/-- A use of a freed object, in a run that need not stay clean. -/
theorem emitFault (h : Book A called w) (x : Obj) (hx : ¬ A.clean) :
    Book A called (w.emit (.fault x)) :=
  h.note _ (fun y hy => by cases hy) h.calls (fun hcl => absurd hcl hx) (fun _ => trivial)
    fun i hi => by cases hi

/-- The caller's handler is called. -/
theorem complete (h : Book A called w) (ec : Nat) :
    Book A (called + 1) (w.emit (.completion ec)) := by
  refine h.note _ (fun y hy => by cases hy) ?_ (fun _ y hy => by cases hy) (fun _ => trivial)
    fun i hi => by cases hi
  simp only [completions, List.countP_cons, isCompletion, if_true]
  exact congrArg (· + 1) h.calls

/-- The objects stay as live as they are. -/
theorem congr (h : Book A called w) {w' : World} (hreqs : ∀ r, (w'.reqs r).live = (w.reqs r).live)
    (hconns : ∀ i, (w'.conns i).live = (w.conns i).live) (hctx : w'.ctx.live = w.ctx.live)
    (hnreq : w'.nreq = w.nreq) (hnconn : w'.nconn = w.nconn) (hlog : w'.log = w.log) :
    Book A called w' := by
  refine ⟨fun r => ?_, fun i => ?_, ?_, by rw [hlog]; exact h.calls, by rw [hlog]; exact h.order,
    by rw [hlog]; exact h.clean, by rw [hlog]; exact h.whole, by rw [hlog]; exact h.tree⟩
  · rw [hlog, hreqs, hnreq]; exact h.reqs r
  · rw [hlog, hconns, hnconn]; exact h.conns i
  · rw [hlog, hctx]; exact h.ctx

/-- One live object is freed: `w'` is the heap without it. -/
theorem free (h : Book A called w) {w' : World} (x : Obj) (hlog : w'.log = .free x :: w.log)
    (hreqs : ∀ r, (w'.reqs r).live.toNat + (if x = .req r then 1 else 0) = (w.reqs r).live.toNat)
    (hconns : ∀ i, (w'.conns i).live.toNat + (if x = .conn i then 1 else 0) =
      (w.conns i).live.toNat)
    (hctx : w'.ctx.live.toNat + (if x = .ctx then 1 else 0) = w.ctx.live.toNat)
    (hnreq : w'.nreq = w.nreq) (hnconn : w'.nconn = w.nconn)
    (hcalled : x = .ctx → 0 < called) : Book A called w' := by
  have hf : ∀ y, frees y w'.log = frees y w.log + if x = y then 1 else 0 := fun y => by
    rw [hlog]; exact frees_cons x y w.log
  refine ⟨fun r => ?_, fun i => ?_, ?_, ?_, ?_, fun hcl y hy => ?_, fun hw y hy => ?_,
    fun i hi => ?_⟩
  · have := h.reqs r
    rw [hf, hnreq, ← this, ← hreqs r]; omega
  · have := h.conns i
    rw [hf, hnconn, ← this, ← hconns i]; omega
  · have := h.ctx
    rw [hf]; omega
  · rw [hlog]; exact h.calls
  · rw [hlog]
    refine h.order.cons fun hx => ?_
    cases hx
    rw [h.calls]; exact hcalled rfl
  · rw [hlog] at hy
    rcases List.mem_cons.mp hy with hy | hy
    · cases hy
    · exact h.clean hcl y hy
  · rw [hlog] at hy
    rcases List.mem_cons.mp hy with hy | hy
    · rw [hy]; trivial
    · exact h.whole hw y hy
  · rw [hlog] at hi
    rcases List.mem_cons.mp hi with hi | hi
    · cases hi
    · exact h.tree i hi

end Book

/-! ## The heap -/

section Heap

variable (w : World) (r h : Nat) (q : HttpReq) (hc : HttpConn) (f : HttpReq → HttpReq)
  (g : HttpConn → HttpConn) (k : Conn → Conn) (i : Nat)

@[simp] theorem setReq_reqs : (w.setReq r q).reqs i = if i = r then q else w.reqs i := rfl
@[simp] theorem modReq_reqs : (w.modReq r f).reqs i = if i = r then f (w.reqs r) else w.reqs i :=
  rfl
@[simp] theorem modConn_conns :
    (w.modConn h g).conns i = if i = h then g (w.conns h) else w.conns i := rfl
theorem modConn_self : (w.modConn h g).conns h = g (w.conns h) := if_pos rfl
theorem modReq_self : (w.modReq r f).reqs r = f (w.reqs r) := if_pos rfl
@[simp] theorem modC_conns : (w.modC h k).conns i =
    if i = h then { w.conns h with c := k (w.conns h).c } else w.conns i := rfl

theorem modConn_modConn (g' : HttpConn → HttpConn) :
    (w.modConn h g).modConn h g' = w.modConn h fun hc => g' (g hc) := by
  show { w with conns := _ } = { w with conns := _ }
  congr 1
  funext j
  show (if j = h then g' ((w.modConn h g).conns h) else (w.modConn h g).conns j) = _
  rw [modConn_self, modConn_conns]
  split <;> rfl

theorem modReq_modConn : (w.modReq r f).modConn h g = (w.modConn h g).modReq r f := rfl

end Heap

theorem touchReq_live {w : World} {r : Nat} (h : (w.reqs r).live = true) : w.touchReq r = w :=
  if_pos h

theorem touchConn_live {w : World} {h : Nat} (hl : (w.conns h).live = true) : w.touchConn h = w :=
  if_pos hl

theorem touchCtx_live {w : World} (h : w.ctx.live = true) : w.touchCtx = w := if_pos h

/-- A connection that was freed, or never opened: no event of it is delivered. -/
structure Dead (hc : HttpConn) : Prop where
  live : hc.live = false
  fd : hc.c.fd = -1
  read : hc.c.read.timerSet = false
  write : hc.c.write.timerSet = false

/-- `conn_close` leaves nothing of the socket behind. -/
def Closable (c : Conn) : Prop :=
  0 < c.fd ∨ c.fd = -1 ∧ c.read.timerSet = false ∧ c.write.timerSet = false

theorem Closable.dead {c : Conn} (h : Closable c) {hc : HttpConn} (hlive : hc.live = false)
    (hc' : hc.c = connClose c) : Dead hc := by
  rcases h with h | h
  · have hcl : connClose c = { c with
        fd := -1
        read := { c.read with timerSet := false, active := false }
        write := { c.write with timerSet := false, active := false } } := if_pos h
    rw [hcl] at hc'
    exact ⟨hlive, by rw [hc'], by rw [hc'], by rw [hc']⟩
  · have hcl : connClose c = c := if_neg (by omega)
    rw [hcl] at hc'
    exact ⟨hlive, by rw [hc']; exact h.1, by rw [hc']; exact h.2.1, by rw [hc']; exact h.2.2⟩

/-- The live objects: connection `H` with its request, and the requests `E` in hand. -/
structure Stock (A : Aims) (called : Nat) (E : List Nat) (H : Option Nat) (w : World) : Prop where
  book : Book A called w
  env : EnvOk A w.cfg w.env
  dead : ∀ i, H ≠ some i → Dead (w.conns i)
  conn : ∀ h, H = some h → (w.conns h).live = true ∧ Closable (w.conns h).c
  reqs : ∀ r, (w.reqs r).live = true ↔ r ∈ E ∨ ∃ h, H = some h ∧ (w.conns h).req = some r
  apart : ∀ h r, H = some h → (w.conns h).req = some r → r ∉ E
  retry : w.ctx.retryNum ≤ w.cfg.maxRetryNum
  pending : w.pending = []

namespace Stock

variable {A : Aims} {called : Nat} {E : List Nat} {H : Option Nat} {w : World}

theorem emit (h : Stock A called E H w) {x : Obs} (hx : neutral x = true) :
    Stock A called E H (w.emit x) := { h with book := h.book.emit hx }

theorem emitFault (h : Stock A called E H w) (x : Obj) (hx : ¬ A.clean) :
    Stock A called E H (w.emit (.fault x)) := { h with book := h.book.emitFault x hx }

theorem withEnv (h : Stock A called E H w) {e : Env} (he : EnvOk A w.cfg e) :
    Stock A called E H { w with env := e } :=
  { h with book := h.book.congr (fun _ => rfl) (fun _ => rfl) rfl rfl rfl rfl, env := he }

theorem crash (h : Stock A called E H w) : Stock A called E H w.crash :=
  { h with book := h.book.congr (fun _ => rfl) (fun _ => rfl) rfl rfl rfl rfl }

theorem modCtx (h : Stock A called E H w) {f : Ctx → Ctx} (hlive : (f w.ctx).live = w.ctx.live)
    (hretry : (f w.ctx).retryNum ≤ w.cfg.maxRetryNum) :
    Stock A called E H (Downstream.modCtx f w) :=
  { h with
    book := h.book.congr (fun _ => rfl) (fun _ => rfl) hlive rfl rfl rfl
    retry := hretry }

theorem modReq (h : Stock A called E H w) (r : Nat) {f : HttpReq → HttpReq}
    (hf : (f (w.reqs r)).live = (w.reqs r).live) : Stock A called E H (w.modReq r f) := by
  have hlive : ∀ i, ((w.modReq r f).reqs i).live = (w.reqs i).live := by
    intro i
    rw [modReq_reqs]
    split
    · rename_i hi; rw [hf, hi]
    · rfl
  refine { h with
    book := h.book.congr hlive (fun _ => rfl) rfl rfl rfl rfl
    reqs := fun i => ?_ }
  rw [hlive i]; exact h.reqs i

/-- The live connection changes. -/
theorem modConn {i : Nat} (h : Stock A called E (some i) w) {g : HttpConn → HttpConn}
    (hlive : (g (w.conns i)).live = true) (hreq : (g (w.conns i)).req = (w.conns i).req)
    (hc : Closable (g (w.conns i)).c) : Stock A called E (some i) (w.modConn i g) := by
  have hsame : ∀ j, some i = some j → (w.modConn i g).conns j = g (w.conns i) := by
    intro j hj
    rw [modConn_conns, if_pos (Option.some.inj hj).symm]
  have hr : ∀ r, (∃ j, some i = some j ∧ ((w.modConn i g).conns j).req = some r) ↔
      ∃ j, some i = some j ∧ (w.conns j).req = some r := by
    intro r
    constructor <;> rintro ⟨j, hj, hjr⟩ <;> refine ⟨j, hj, ?_⟩
    · rw [hsame j hj, hreq] at hjr
      rw [← Option.some.inj hj]; exact hjr
    · rw [hsame j hj, hreq, Option.some.inj hj]; exact hjr
  refine { h with book := ?_, dead := fun j hj => ?_, conn := fun j hj => ?_, reqs := fun r => ?_,
                  apart := fun j r hj hjr => ?_ }
  · refine h.book.congr (fun _ => rfl) (fun j => ?_) rfl rfl rfl rfl
    rw [modConn_conns]
    split
    · rename_i hj; rw [hj, hlive, (h.conn i rfl).1]
    · rfl
  · have hne : j ≠ i := fun h => hj (by rw [h])
    rw [modConn_conns, if_neg hne]; exact h.dead j hj
  · rw [hsame j hj]; exact ⟨hlive, hc⟩
  · rw [hr r]; exact h.reqs r
  · rw [hsame j hj, hreq] at hjr
    exact h.apart i r rfl hjr

/-- A dead connection changes, and is still dead. -/
theorem modDead (h : Stock A called E H w) {i : Nat} (hi : H ≠ some i) {g : HttpConn → HttpConn}
    (hd : Dead (g (w.conns i))) : Stock A called E H (w.modConn i g) := by
  have hother : ∀ j, H = some j → (w.modConn i g).conns j = w.conns j := by
    intro j hj
    have hne : j ≠ i := fun h => hi (by rw [← h]; exact hj)
    rw [modConn_conns, if_neg hne]
  refine { h with book := ?_, dead := fun j hj => ?_, conn := fun j hj => ?_, reqs := fun r => ?_,
                  apart := fun j r hj hjr => ?_ }
  · refine h.book.congr (fun _ => rfl) (fun j => ?_) rfl rfl rfl rfl
    rw [modConn_conns]
    split
    · rename_i hj; rw [hj, hd.live, (h.dead i hi).live]
    · rfl
  · rw [modConn_conns]
    split
    · exact hd
    · exact h.dead j hj
  · rw [hother j hj]; exact h.conn j hj
  · show (w.reqs r).live = true ↔ _
    rw [h.reqs r]
    refine or_congr_right ⟨?_, ?_⟩ <;> rintro ⟨j, hj, hjr⟩ <;> refine ⟨j, hj, ?_⟩
    · rw [hother j hj]; exact hjr
    · rw [hother j hj] at hjr; exact hjr
  · rw [hother j hj] at hjr; exact h.apart j r hj hjr

/-- The request is taken off the connection. -/
theorem detach {i r : Nat} (h : Stock A called E (some i) w) (hr : (w.conns i).req = some r) :
    Stock A called (r :: E) (some i) (w.modConn i fun hc => { hc with req := none }) := by
  have hnone : ∀ j, some i = some j →
      ((w.modConn i fun hc => { hc with req := none }).conns j).req = none := by
    intro j hj
    rw [modConn_conns, if_pos (Option.some.inj hj).symm]
  refine { h with book := ?_, dead := fun j hj => ?_, conn := fun j hj => ?_, reqs := fun r' => ?_,
                  apart := fun j r' hj hjr => ?_ }
  · refine h.book.congr (fun _ => rfl) (fun j => ?_) rfl rfl rfl rfl
    rw [modConn_conns]
    split
    · rename_i hj; rw [hj]
    · rfl
  · have hne : j ≠ i := fun h => hj (by rw [h])
    rw [modConn_conns, if_neg hne]; exact h.dead j hj
  · have hc := h.conn j hj
    rw [← Option.some.inj hj] at hc ⊢
    rw [modConn_conns, if_pos rfl]; exact hc
  · show (w.reqs r').live = true ↔ _
    rw [h.reqs r', List.mem_cons]
    constructor
    · rintro (hmem | ⟨j, hj, hjr⟩)
      · exact .inl (.inr hmem)
      · rw [← Option.some.inj hj, hr] at hjr
        exact .inl (.inl (Option.some.inj hjr).symm)
    · rintro ((rfl | hmem) | ⟨j, hj, hjr⟩)
      · exact .inr ⟨i, rfl, hr⟩
      · exact .inl hmem
      · rw [hnone j hj] at hjr; cases hjr
  · rw [hnone j hj] at hjr; cases hjr

/-- A request in hand is freed. -/
theorem freeReq {r : Nat} (h : Stock A called (r :: E) H w) (hr : r ∉ E) :
    Stock A called E H (httpRequestFree r w) := by
  have hlive : (w.reqs r).live = true := (h.reqs r).mpr (.inl List.mem_cons_self)
  have hfree : httpRequestFree r w = (w.modReq r HttpReq.cleared).emit (.free (.req r)) :=
    if_pos hlive
  rw [hfree]
  refine { h with book := ?_, reqs := fun r' => ?_, apart := fun j r' hj hjr hmem => ?_ }
  · refine h.book.free (.req r) rfl (fun r' => ?_) (fun j => ?_) ?_ rfl rfl fun hx => by cases hx
    · show ((w.modReq r HttpReq.cleared).reqs r').live.toNat + _ = _
      rw [modReq_reqs]
      by_cases hrr : r' = r
      · rw [if_pos hrr, if_pos (by rw [hrr]), hrr, hlive]; rfl
      · rw [if_neg hrr, if_neg fun h => hrr (Obj.req.inj h).symm, Nat.add_zero]
    · rw [if_neg (by simp)]; rfl
    · rw [if_neg (by simp)]; rfl
  · show ((w.modReq r HttpReq.cleared).reqs r').live = true ↔
      r' ∈ E ∨ ∃ j, H = some j ∧ (w.conns j).req = some r'
    rw [modReq_reqs]
    by_cases hrr : r' = r
    · rw [if_pos hrr, hrr]
      refine ⟨fun h => absurd h (by simp [HttpReq.cleared]), ?_⟩
      rintro (hmem | ⟨j, hj, hjr⟩)
      · exact absurd hmem hr
      · exact absurd List.mem_cons_self (h.apart j r hj hjr)
    · rw [if_neg hrr, h.reqs r', List.mem_cons, or_iff_right hrr]
  · exact h.apart j r' hj hjr (List.mem_cons_of_mem _ hmem)

/-- The connection is freed, after its request. -/
theorem closeConn {i : Nat} (h : Stock A called E (some i) w) (hr : (w.conns i).req = none)
    {g : HttpConn → HttpConn} (hlive : (g (w.conns i)).live = false)
    (hc : (g (w.conns i)).c = connClose (w.conns i).c) :
    Stock A called E none (((w.modConn i g).noteTimers i).emit (.free (.conn i))) := by
  have hdead : Dead ((w.modConn i g).conns i) := by
    rw [modConn_self]; exact (h.conn i rfl).2.dead hlive hc
  rw [World.noteTimers_unset hdead.read hdead.write]
  refine { h with book := ?_, dead := fun j _ => ?_, conn := fun j hj => (nomatch hj),
                  reqs := fun r => ?_, apart := fun j r hj => (nomatch hj) }
  · refine h.book.free (.conn i) rfl (fun r' => ?_) (fun j => ?_) ?_ rfl rfl fun hx => by cases hx
    · rw [if_neg (by simp)]; rfl
    · show ((w.modConn i g).conns j).live.toNat + _ = _
      rw [modConn_conns]
      by_cases hj : j = i
      · rw [if_pos hj, if_pos (by rw [hj]), hj, hlive, (h.conn i rfl).1]; rfl
      · rw [if_neg hj, if_neg fun h => hj (Obj.conn.inj h).symm]; rfl
    · rw [if_neg (by simp)]; rfl
  · show Dead ((w.modConn i g).conns j)
    rw [modConn_conns]
    split
    · exact (h.conn i rfl).2.dead hlive hc
    · rename_i hj
      exact h.dead j fun h => hj (Option.some.inj h).symm
  · show (w.reqs r).live = true ↔ _
    rw [h.reqs r]
    refine or_congr_right ⟨?_, ?_⟩
    · rintro ⟨j, hj, hjr⟩
      rw [← Option.some.inj hj, hr] at hjr; cases hjr
    · rintro ⟨j, hj, -⟩; cases hj

/-- `http_conn_free` on the live connection. -/
theorem freeConn {i : Nat} (h : Stock A called E (some i) w) :
    Stock A called E none (httpConnFree i w) := by
  unfold httpConnFree
  rw [if_pos (h.conn i rfl).1]
  cases hr : (w.conns i).req with
  | none => exact h.closeConn hr rfl rfl
  | some r =>
    have hmem := h.apart i r rfl hr
    have hlive : (w.reqs r).live = true := (h.reqs r).mpr (.inr ⟨i, rfl, hr⟩)
    -- taking the request off first gives the same heap
    have hswap : (httpRequestFree r w).modConn i (fun hc => { hc with req := none }) =
        httpRequestFree r (w.modConn i fun hc => { hc with req := none }) := by
      have h₁ : httpRequestFree r w = (w.modReq r HttpReq.cleared).emit (.free (.req r)) :=
        if_pos hlive
      have h₂ : httpRequestFree r (w.modConn i fun hc => { hc with req := none }) =
          ((w.modConn i fun hc => { hc with req := none }).modReq r HttpReq.cleared).emit
            (.free (.req r)) := if_pos hlive
      rw [h₁, h₂]; rfl
    have hd := (h.detach hr).freeReq hmem
    simp only [hswap]
    refine hd.closeConn ?_ rfl rfl
    have hconns : (httpRequestFree r (w.modConn i fun hc => { hc with req := none })).conns i =
        { w.conns i with req := none } := by
      unfold httpRequestFree
      split <;> exact if_pos rfl
    rw [hconns]

theorem not_mem_new (h : Stock A called E H w) : w.nreq ∉ E := by
  intro hmem
  have hnew := h.book.reqs w.nreq
  rw [(h.reqs w.nreq).mpr (.inl hmem)] at hnew
  simp at hnew

/-- `http_conn_create`. -/
theorem newConn (h : Stock A called E none w) :
    Stock A called E (some w.nconn) (Downstream.newConn w) := by
  have hconns : ∀ j, (Downstream.newConn w).conns j =
      if j = w.nconn then { live := true, retryMax := w.cfg.maxRetryCon } else w.conns j :=
    fun _ => rfl
  have hnone : ∀ j, some w.nconn = some j → ((Downstream.newConn w).conns j).req = none := by
    intro j hj
    rw [hconns, if_pos (Option.some.inj hj).symm]
  refine { h with book := ?_, dead := fun j hj => ?_, conn := fun j hj => ?_, reqs := fun r => ?_,
                  apart := fun j r hj hjr => ?_ }
  · refine { h.book with conns := fun j => ?_ }
    have hj := h.book.conns j
    show frees (.conn j) w.log + _ = if j < w.nconn + 1 then 1 else 0
    rw [hconns]
    by_cases hjn : j = w.nconn
    · rw [hjn, if_neg (Nat.lt_irrefl _)] at hj
      rw [hjn, if_pos rfl, if_pos (Nat.lt_succ_self _), (Nat.add_eq_zero_iff.mp hj).1]; rfl
    · rw [if_neg hjn, hj]
      by_cases hlt : j < w.nconn
      · rw [if_pos hlt, if_pos (Nat.lt_succ_of_lt hlt)]
      · rw [if_neg hlt, if_neg (by omega)]
  · rw [hconns, if_neg fun h => hj (by rw [h])]
    exact h.dead j (by simp)
  · rw [hconns, if_pos (Option.some.inj hj).symm]
    exact ⟨rfl, .inr ⟨rfl, rfl, rfl⟩⟩
  · show (w.reqs r).live = true ↔ _
    rw [h.reqs r]
    refine or_congr_right ⟨?_, ?_⟩
    · rintro ⟨j, hj, -⟩; cases hj
    · rintro ⟨j, hj, hjr⟩
      rw [hnone j hj] at hjr; cases hjr
  · rw [hnone j hj] at hjr; cases hjr

end Stock

theorem writes_requestHeaders (cfg : Cfg) (ctx : Ctx) (q : HttpReq) :
    Writes q (requestHeaders cfg ctx q) := by
  have hadd : ∀ (key value : Bytes) (q : HttpReq), Writes q (addIfMissing key value q) :=
    fun _ _ q => .ite (.refl q) (writes_addOutputHeader q _ _)
  exact ((writes_addReplyHeaders q cfg.headers).trans (hadd _ _ _)).trans
    ((hadd _ _ _).trans (hadd _ _ _))

/-- `http_request_create` puts a request on the connection. -/
theorem Stock.newRequest {A : Aims} {called : Nat} {E : List Nat} {w : World} {i : Nat}
    (h : Stock A called E (some i) w) (hr : (w.conns i).req = none) :
    Stock A called E (some i) (Downstream.newRequest i w) := by
  obtain ⟨buf, hs, hq⟩ := writes_requestHeaders w.cfg w.ctx
    { live := true, cb := some .handlerResponse, hc := some i }
  have hreqs : ∀ r, (Downstream.newRequest i w).reqs r =
      if r = w.nreq then requestHeaders w.cfg w.ctx
        { live := true, cb := some .handlerResponse, hc := some i } else w.reqs r := fun _ => rfl
  have hconns : ∀ j, (Downstream.newRequest i w).conns j =
      if j = i then { w.conns i with req := some w.nreq } else w.conns j := fun _ => rfl
  have hnew := h.book.reqs w.nreq
  rw [if_neg (Nat.lt_irrefl _)] at hnew
  refine { h with book := ?_, dead := fun j hj => ?_, conn := fun j hj => ?_, reqs := fun r => ?_,
                  apart := fun j r hj hjr => ?_ }
  · refine { h.book with reqs := fun r => ?_, conns := fun j => ?_ }
    · have hr' := h.book.reqs r
      show frees (.req r) w.log + _ = if r < w.nreq + 1 then 1 else 0
      rw [hreqs]
      by_cases hrn : r = w.nreq
      · rw [hrn, if_pos rfl, hq, if_pos (Nat.lt_succ_self _), (Nat.add_eq_zero_iff.mp hnew).1]; rfl
      · rw [if_neg hrn, hr']
        by_cases hlt : r < w.nreq
        · rw [if_pos hlt, if_pos (Nat.lt_succ_of_lt hlt)]
        · rw [if_neg hlt, if_neg (by omega)]
    · show frees (.conn j) w.log + _ = if j < w.nconn then 1 else 0
      rw [hconns, ← h.book.conns j]
      split
      · rename_i hj; rw [hj]
      · rfl
  · rw [hconns, if_neg fun h => hj (by rw [h])]; exact h.dead j hj
  · have hc := h.conn j hj
    rw [hconns, if_pos (Option.some.inj hj).symm]
    rw [← Option.some.inj hj] at hc; exact hc
  · have hr' := h.reqs r
    rw [hreqs]
    by_cases hrn : r = w.nreq
    · rw [if_pos hrn, hq]
      refine iff_of_true rfl (.inr ⟨i, rfl, ?_⟩)
      rw [hconns, if_pos rfl, hrn]
    · rw [if_neg hrn, hr']
      refine or_congr_right ⟨?_, ?_⟩
      · rintro ⟨j, hj, hjr⟩
        rw [← Option.some.inj hj, hr] at hjr; cases hjr
      · rintro ⟨j, hj, hjr⟩
        rw [hconns, if_pos (Option.some.inj hj).symm] at hjr
        exact absurd (Option.some.inj hjr).symm hrn
  · rw [hconns, if_pos (Option.some.inj hj).symm] at hjr
    rw [← Option.some.inj hjr]; exact h.not_mem_new

end Outgoing
end Shs
