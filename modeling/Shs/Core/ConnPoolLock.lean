import Shs.Core.ConnPool
import Shs.Lib.SpinLock

/-!
# Core.ConnPoolLock

`comm_conn_lock` at work. `Core.ConnPool` takes each call of `put_comm_conn` and `get_comm_conn` for
one step. Here the threads take the lock with `shs_atomic_lock_on`, make the accesses to the common
pool and to `next` one at a time, and release the lock with `shs_atomic_lock_off`, while the other
threads work on their own pools or spin. Every run of this kind is a run of `Core.ConnPool`.
-/

namespace Shs
namespace ConnPool

open Run (exec)
open Chain (Linked follow)

/-- `SHS_LOCK_OFF`. -/
def shsLockOff : UInt64 := 1

/-- `SHS_LOCK_ON`. -/
def shsLockOn : UInt64 := 2

/-- The accesses of `get_comm_conn` and `put_comm_conn`, with the local variables that are alive. -/
inductive Access where
  /-- `if (!comm_conn_pool.free_connection_n)` -/
  | check (n : UInt32)
  /-- `if (n >= comm_conn_pool.free_connection_n)` -/
  | compare (n : UInt32)
  /-- `c = comm_conn_pool.free_connections` -/
  | allHead
  /-- `*num = comm_conn_pool.free_connection_n` -/
  | allCount (c : Option Conn)
  /-- `comm_conn_pool.free_connections = NULL` -/
  | clearHead (c : Option Conn) (num : Int32)
  /-- `comm_conn_pool.free_connection_n = 0` -/
  | clearCount (c : Option Conn) (num : Int32)
  /-- `p = comm_conn_pool.free_connections` -/
  | first (n : UInt32)
  /-- a turn of the loop, which reads `p->next` -/
  | walk (n i : UInt32) (plast p : Option Conn)
  /-- `c = comm_conn_pool.free_connections` -/
  | batch (n : UInt32) (plast p : Option Conn)
  /-- `comm_conn_pool.free_connections = p` -/
  | rest (n : UInt32) (plast p c : Option Conn)
  /-- the read of `comm_conn_pool.free_connection_n -= n` -/
  | loadRest (n : UInt32) (plast c : Option Conn)
  /-- the write of it -/
  | storeRest (n : UInt32) (plast c : Option Conn) (old : UInt32)
  /-- `plast->next = NULL` -/
  | cut (n : UInt32) (plast c : Option Conn)
  /-- the read of `comm_conn_pool.free_connection_n++` -/
  | loadCount (c : Conn)
  /-- the write of it -/
  | storeCount (c : Conn) (old : UInt32)
  /-- the read of `c->next = comm_conn_pool.free_connections` -/
  | loadHead (c : Conn)
  /-- the write of it -/
  | link (c : Conn) (head : Option Conn)
  /-- `comm_conn_pool.free_connections = c` -/
  | storeHead (c : Conn)
  /-- a null pointer was followed -/
  | fault
  /-- the thread has nothing to do in the lock -/
  | skip
  deriving DecidableEq

def enter (i : Nat) (s : State) : Access :=
  match s.pc i with
  | .fetching n => .check n
  | .giving c => .loadCount c
  | _ => .skip

/-- An access of the thread of pool `i`. The last one sets where the thread goes on behind the
lock. -/
def access (i : Nat) (m : Access) (s : State) : State × Option Access :=
  match m with
  | .check n =>
    if s.comm.freeConnectionN = 0 then (s.setPc i (.fetched none 0), none) else (s, some (.compare n))
  | .compare n =>
    if n ≥ s.comm.freeConnectionN then (s, some .allHead) else (s, some (.first n))
  | .allHead => (s, some (.allCount s.comm.freeConnections))
  | .allCount c => (s, some (.clearHead c s.comm.freeConnectionN.toInt32))
  | .clearHead c num =>
    ({ s with comm := { s.comm with freeConnections := none } }, some (.clearCount c num))
  | .clearCount c num =>
    ({ s with comm := { s.comm with freeConnectionN := 0 } }.setPc i (.fetched c num), none)
  | .first n => (s, some (.walk n n s.comm.freeConnections s.comm.freeConnections))
  | .walk n k plast p =>
    match p with
    | none => (s, some (.batch n plast p))
    | some a =>
      if k > 0 then (s, some (.walk n (k - 1) (some a) (s.next a))) else (s, some (.batch n plast p))
  | .batch n plast p => (s, some (.rest n plast p s.comm.freeConnections))
  | .rest n plast p c =>
    ({ s with comm := { s.comm with freeConnections := p } }, some (.loadRest n plast c))
  | .loadRest n plast c => (s, some (.storeRest n plast c s.comm.freeConnectionN))
  | .storeRest n plast c old =>
    ({ s with comm := { s.comm with freeConnectionN := old - n } }, some (.cut n plast c))
  | .cut n plast c =>
    match plast with
    | none => (s, some .fault)
    | some a => ((s.setNext a none).setPc i (.fetched c n.toInt32), none)
  | .loadCount c => (s, some (.storeCount c s.comm.freeConnectionN))
  | .storeCount c old =>
    ({ s with comm := { s.comm with freeConnectionN := old + 1 } }, some (.loadHead c))
  | .loadHead c => (s, some (.link c s.comm.freeConnections))
  | .link c head => (s.setNext c head, some (.storeHead c))
  | .storeHead c =>
    ({ s with comm := { s.comm with freeConnections := some c } }.setPc i .given, none)
  | .fault => (s, none)
  | .skip => (s, none)

/-- The thread of pool `i` calls `get_comm_conn` or `put_comm_conn` next. -/
def Pc.calls : Pc → Bool
  | .fetching _ | .giving _ => true
  | _ => false

/-- What a thread does outside of the lock. -/
def act (a : Act) (s : State) : State :=
  match a with
  | .advance i => if (s.pc i).calls then s else step s (.advance i)
  | a => step s a

/-- The thread whose action it is. Any of them may have the connection that it writes. -/
def actor : Act → Option Nat
  | .init i _ | .get i | .free i _ | .out i _ | .inn i _ | .advance i => some i
  | .write _ _ => none

/-- The threads of the pools with `comm_conn_lock`. -/
def locked : SpinLock.System Nat State Access Act UInt64 where
  on := shsLockOn
  off := shsLockOff
  ready i s := (s.pc i).calls
  enter := enter
  access := access
  act := act
  actor := actor

/-- A call of `get_comm_conn` or `put_comm_conn` as one step. -/
def call (i : Nat) (s : State) : State := if (s.pc i).calls then advance i s else s

/-! ## What the others do meanwhile -/

section Frame

variable {s : State} {free : Nat → List Conn} {comm : List Conn} {place : Conn → Option Place}
  {i : Nat} {a : Act}

/-- What the thread of pool `i` does behind a call or between calls, where it stands at `pc`. -/
def behind (i : Nat) (pc : Pc) (s : State) : State :=
  match pc with
  | .fetched (some c) num =>
    outConn i c
      ((s.setPool i { s.pools i with freeConnections := some c,
                                     freeConnectionN := (s.pools i).freeConnectionN + num.toUInt32,
                                     changeN := (s.pools i).changeN + num }).setPc i .idle)
  | .fetched none _ => s.setPc i .idle
  | .given => (s.setPool i { s.pools i with changeN := (s.pools i).changeN - 1 }).setPc i .idle
  | _ => s

theorem act_advance (i : Nat) (s : State) : act (.advance i) s = behind i (s.pc i) s := by
  show (if (s.pc i).calls then s else advance i s) = _
  unfold advance
  cases s.pc i with
  | idle => rfl
  | fetching n => rfl
  | fetched c num => cases c <;> rfl
  | giving c => rfl
  | given => rfl

theorem behind_comm (i : Nat) (pc : Pc) (s : State) : (behind i pc s).comm = s.comm := by
  cases pc with
  | fetched c num => cases c <;> rfl
  | _ => rfl

theorem behind_pc {i j : Nat} (hij : i ≠ j) (pc : Pc) (s : State) :
    (behind j pc s).pc i = s.pc i := by
  cases pc with
  | idle => rfl
  | fetching n => rfl
  | fetched c num => cases c <;> exact Function.update_of_ne hij _ _
  | giving c => rfl
  | given => exact Function.update_of_ne hij _ _

theorem behind_next (i : Nat) (pc : Pc) (s : State) : (behind i pc s).next = s.next := by
  cases pc with
  | fetched c num => cases c <;> rfl
  | _ => rfl

theorem behind_with_comm (i : Nat) (pc : Pc) (s : State) (k : Comm) :
    behind i pc { s with comm := k } = { behind i pc s with comm := k } := by
  cases pc with
  | fetched c num => cases c <;> rfl
  | _ => rfl

theorem act_comm (a : Act) (s : State) : (act a s).comm = s.comm := by
  cases a with
  | init i cs => simp only [act, step]; split <;> rfl
  | get i =>
    simp only [act, step, connPoolGetConnection]
    split
    · split
      · rfl
      · split <;> rfl
    · rfl
  | free i c =>
    simp only [act, step, connPoolFreeConnection]
    split
    · split <;> rfl
    · rfl
  | out i n => simp only [act, step]; split <;> rfl
  | inn i n => simp only [act, step]; split <;> rfl
  | write c p => simp only [act, step]; split <;> rfl
  | advance i => rw [act_advance, behind_comm]

theorem act_pc (ha : actor a ≠ some i) : (act a s).pc i = s.pc i := by
  have hne : ∀ {j}, actor a = some j → i ≠ j := fun hj hij => ha (hij ▸ hj)
  cases a with
  | init j cs => simp only [act, step]; split <;> rfl
  | get j =>
    have hij := hne rfl
    simp only [act, step, connPoolGetConnection]
    split
    · split
      · rfl
      · split
        · rfl
        · exact Function.update_of_ne hij _ _
    · rfl
  | free j c =>
    have hij := hne rfl
    simp only [act, step, connPoolFreeConnection]
    split
    · split
      · exact Function.update_of_ne hij _ _
      · rfl
    · rfl
  | out j n => simp only [act, step]; split <;> rfl
  | inn j n => simp only [act, step]; split <;> rfl
  | write c p => simp only [act, step]; split <;> rfl
  | advance j =>
    rw [act_advance]
    exact behind_pc (hne rfl) _ _

theorem act_with_comm (a : Act) (s : State) (k : Comm) :
    act a { s with comm := k } = { act a s with comm := k } := by
  cases a with
  | init i cs => simp only [act, step]; split <;> rfl
  | get i =>
    simp only [act, step, connPoolGetConnection]
    split
    · split
      · rfl
      · split <;> rfl
    · rfl
  | free i c =>
    simp only [act, step, connPoolFreeConnection]
    split
    · split <;> rfl
    · rfl
  | out i n => simp only [act, step]; split <;> rfl
  | inn i n => simp only [act, step]; split <;> rfl
  | write c p => simp only [act, step]; split <;> rfl
  | advance i =>
    rw [act_advance, act_advance]
    exact behind_with_comm i (s.pc i) s k

/-- Connections of the common list, and those that are given to it, are not written by others. -/
def Apart (place : Conn → Option Place) (c : Conn) : Prop :=
  place c = some .common ∨ ∃ i, place c = some (.leaving i)

theorem Inv.not_used (h : Inv s free comm place) {c : Conn} (hc : Apart place c) : c ∉ s.used := by
  intro hu
  have hcaller := (h.mem_used c).1 hu
  rcases hc with hc | ⟨j, hc⟩ <;> rw [hcaller] at hc <;> cases hc

theorem Inv.apart_allocated (h : Inv s free comm place) {c : Conn} (hc : Apart place c) :
    c ∈ s.allocated := by
  rw [h.mem_allocated]
  rcases hc with hc | ⟨j, hc⟩ <;> rw [hc] <;> simp

theorem act_next (h : Inv s free comm place) {c : Conn} (hc : Apart place c) :
    (act a s).next c = s.next c := by
  have hused : ∀ d ∈ s.used, c ≠ d := fun d hd hcd => h.not_used hc (hcd ▸ hd)
  cases a with
  | init i cs =>
    simp only [act, step]
    split
    case isTrue hg =>
      exact chainUp_of_notMem fun hcs => hg.2.2.2.2 c hcs (h.apart_allocated hc)
    case isFalse => rfl
  | get i =>
    simp only [act, step, connPoolGetConnection]
    split
    · split
      · rfl
      · split <;> rfl
    · rfl
  | free i d =>
    simp only [act, step, connPoolFreeConnection]
    split
    case isTrue hg =>
      split
      · rfl
      · exact Function.update_of_ne (hused d hg.2) _ _
    case isFalse => rfl
  | out i n => simp only [act, step]; split <;> rfl
  | inn i n => simp only [act, step]; split <;> rfl
  | write d p =>
    simp only [act, step]
    split
    case isTrue hg => exact Function.update_of_ne (hused d hg) _ _
    case isFalse => rfl
  | advance i => rw [act_advance, behind_next]

theorem chainUp_update {cs : List Conn} {next : Conn → Option Conn} {c : Conn} (hc : c ∉ cs)
    (p : Option Conn) :
    chainUp cs (Function.update next c p) = Function.update (chainUp cs next) c p := by
  induction cs generalizing next with
  | nil => rfl
  | cons d cs ih =>
    rw [List.mem_cons, not_or] at hc
    rw [chainUp, chainUp, Function.update_comm hc.1, ih hc.2]

section SetNext

variable {c d : Conn} {p : Option Conn}

@[simp] theorem setNext_pc : (s.setNext c p).pc = s.pc := rfl

@[simp] theorem setNext_pools : (s.setNext c p).pools = s.pools := rfl

@[simp] theorem setNext_used : (s.setNext c p).used = s.used := rfl

@[simp] theorem setNext_allocated : (s.setNext c p).allocated = s.allocated := rfl

theorem setNext_comm (hcd : c ≠ d) (q : Option Conn) :
    (s.setNext c p).setNext d q = (s.setNext d q).setNext c p := by
  simp only [State.setNext, Function.update_comm hcd.symm]

theorem ite_setNext {P : Prop} {inst inst' : Decidable P} {x y x' y' : State}
    (hx : P → x' = x.setNext c p) (hy : ¬ P → y' = y.setNext c p) :
    @ite _ P inst x' y' = (@ite _ P inst' x y).setNext c p := by
  by_cases h : P
  · rw [if_pos h, if_pos h, hx h]
  · rw [if_neg h, if_neg h, hy h]

theorem outConn_setNext (hcd : d ≠ c) (j : Nat) :
    outConn j d (s.setNext c p) = (outConn j d s).setNext c p := by
  simp only [outConn, State.setNext, State.setPool, Function.update_of_ne hcd]

end SetNext

/-- The head of the list of a pool, or of a batch, is not given away. -/
theorem Inv.head_ne (h : Inv s free comm place) {c d : Conn} (hc : place c = some (.leaving i))
    {j : Nat} (hd : s.freeHead j = some d) : d ≠ c := by
  have hl := h.pools j
  rw [hd] at hl
  obtain ⟨r, hr, -⟩ := hl.pop
  have hplace := (h.mem_free j d).1 (hr ▸ List.mem_cons_self)
  rintro rfl
  rw [hc] at hplace
  cases hplace

/-- What is written to a connection that is given away does not matter to the others. -/
theorem act_setNext (h : Inv s free comm place) {c : Conn} (hc : place c = some (.leaving i))
    (p : Option Conn) : act a (s.setNext c p) = (act a s).setNext c p := by
  have hapart : Apart place c := Or.inr ⟨i, hc⟩
  have hused : ∀ d ∈ s.used, c ≠ d := fun d hd hcd => h.not_used hapart (hcd ▸ hd)
  cases a with
  | init j cs =>
    refine ite_setNext (fun hg => ?_) fun _ => rfl
    have hcs : c ∉ cs := fun hcs => hg.2.2.2.2 c hcs (h.apart_allocated hapart)
    simp only [connPoolInit, State.setNext, State.setPool, chainUp_update hcs]
  | get j =>
    refine ite_setNext (fun hpc => ?_) fun _ => rfl
    unfold connPoolGetConnection
    cases hhead : (s.pools j).freeConnections with
    | none =>
      rw [show ((s.setNext c p).pools j).freeConnections = none from hhead]
      exact ite_setNext (fun _ => rfl) fun _ => rfl
    | some d =>
      rw [show ((s.setNext c p).pools j).freeConnections = some d from hhead]
      refine outConn_setNext (h.head_ne hc (j := j) ?_) j
      rw [State.freeHead, show s.pc j = .idle from hpc]
      exact hhead
  | free j d =>
    refine ite_setNext (fun hg => ?_) fun _ => rfl
    refine ite_setNext (fun _ => rfl) fun _ => ?_
    exact congrArg (State.setPool j _)
      (setNext_comm (s := { s with used := s.used.erase d }) (hused d hg.2) _)
  | out j n => exact ite_setNext (fun _ => rfl) fun _ => rfl
  | inn j n => exact ite_setNext (fun _ => rfl) fun _ => rfl
  | write d q => exact ite_setNext (fun hg => setNext_comm (hused d hg) q) fun _ => rfl
  | advance j =>
    rw [act_advance, act_advance, setNext_pc]
    cases hpc : s.pc j with
    | fetched d num =>
      cases d with
      | none => rfl
      | some d =>
        refine outConn_setNext (s := State.setPc j .idle (s.setPool j _)) (h.head_ne hc (j := j) ?_) j
        simp only [State.freeHead, hpc]
    | idle => rfl
    | fetching n => rfl
    | giving d => rfl
    | given => rfl

end Frame

/-! ## What the accesses have done so far -/

/-- The first `n` connections of the common list end with `plast`, and `p` is behind it. -/
def Path (s : State) (n : Nat) (plast p : Option Conn) : Prop :=
  ∃ front a post, Linked s.next s.comm.freeConnections (front ++ a :: post) ∧
    front.length + 1 = n ∧ plast = some a ∧ p = s.next a

/-- The thread of pool `i` takes the whole common list. -/
def TakesAll (i : Nat) (s : State) : Prop :=
  ∃ n, s.pc i = .fetching n ∧ s.comm.freeConnectionN ≠ 0 ∧ n ≥ s.comm.freeConnectionN

/-- The thread of pool `i` takes `n` connections of more. -/
def TakesPart (i : Nat) (n : UInt32) (s : State) : Prop :=
  s.pc i = .fetching n ∧ s.comm.freeConnectionN ≠ 0 ∧ ¬ n ≥ s.comm.freeConnectionN

/-- What the local variables of the thread of pool `i` have to do with the state in which none of
its accesses was made. -/
def Locals (i : Nat) : Access → State → Prop
  | .check n, s => s.pc i = .fetching n
  | .compare n, s => s.pc i = .fetching n ∧ s.comm.freeConnectionN ≠ 0
  | .allHead, s => TakesAll i s
  | .allCount c, s => TakesAll i s ∧ c = s.comm.freeConnections
  | .clearHead c num, s | .clearCount c num, s =>
    TakesAll i s ∧ c = s.comm.freeConnections ∧ num = s.comm.freeConnectionN.toInt32
  | .first n, s => TakesPart i n s
  | .walk n k plast p, s =>
    TakesPart i n s ∧
      ((k = n ∧ plast = s.comm.freeConnections ∧ p = s.comm.freeConnections) ∨
        (k.toNat < n.toNat ∧ Path s (n.toNat - k.toNat) plast p))
  | .batch n plast p, s => TakesPart i n s ∧ Path s n.toNat plast p
  | .rest n plast p c, s => TakesPart i n s ∧ Path s n.toNat plast p ∧ c = s.comm.freeConnections
  | .loadRest n plast c, s | .cut n plast c, s =>
    TakesPart i n s ∧ (∃ p, Path s n.toNat plast p) ∧ c = s.comm.freeConnections
  | .storeRest n plast c old, s =>
    TakesPart i n s ∧ (∃ p, Path s n.toNat plast p) ∧ c = s.comm.freeConnections ∧
      old = s.comm.freeConnectionN
  | .loadCount c, s | .loadHead c, s | .storeHead c, s => s.pc i = .giving c
  | .storeCount c old, s => s.pc i = .giving c ∧ old = s.comm.freeConnectionN
  | .link c head, s => s.pc i = .giving c ∧ head = s.comm.freeConnections
  | .fault, _ => False
  | .skip, s => (s.pc i).calls = false

/-- The state with the accesses in front of `m`. -/
def sofar (m : Access) (s : State) : State :=
  match m with
  | .clearCount _ _ => { s with comm := { s.comm with freeConnections := none } }
  | .loadRest _ plast _ | .storeRest _ plast _ _ =>
    { s with comm := { s.comm with freeConnections := plast.bind s.next } }
  | .cut n plast _ => { s with comm := ⟨plast.bind s.next, s.comm.freeConnectionN - n⟩ }
  | .loadHead _ | .link _ _ =>
    { s with comm := { s.comm with freeConnectionN := s.comm.freeConnectionN + 1 } }
  | .storeHead c =>
    { s with comm := { s.comm with freeConnectionN := s.comm.freeConnectionN + 1 } }.setNext c
      s.comm.freeConnections
  | _ => s

/-- The common pool and `next` are what the accesses in front of `m` have made of those of `s₀`. -/
def Rel (i : Nat) (m : Access) (s s₀ : State) : Prop := Locals i m s₀ ∧ s = sofar m s₀

section Rel

variable {s : State} {free : Nat → List Conn} {comm : List Conn} {place : Conn → Option Place}
  {i : Nat} {m m' : Access}

theorem rel_enter (i : Nat) (s : State) : Rel i (enter i s) s s := by
  unfold enter
  cases hpc : s.pc i with
  | idle => exact ⟨by simp [Locals, hpc, Pc.calls], rfl⟩
  | fetching n => exact ⟨hpc, rfl⟩
  | fetched c num => exact ⟨by simp [Locals, hpc, Pc.calls], rfl⟩
  | giving c => exact ⟨hpc, rfl⟩
  | given => exact ⟨by simp [Locals, hpc, Pc.calls], rfl⟩

/-! ### The loop -/

theorem Inv.takes_pos (h : Inv s free comm place) {n : UInt32} (ht : TakesPart i n s) :
    0 < n.toNat ∧ n.toNat < comm.length := by
  obtain ⟨hn, -, -⟩ := h.fetching i n ht.1
  refine ⟨hn, ?_⟩
  have hlt : n.toNat < s.comm.freeConnectionN.toNat := by
    have := ht.2.2
    rwa [ge_iff_le, UInt32.not_le] at this
  have hle : s.comm.freeConnectionN.toNat ≤ comm.length := by
    rw [h.common.2.1, UInt32.toNat_ofNat']
    exact Nat.mod_le _ _
  omega

/-- The walk is still inside of the list while it has connections to go. -/
theorem Inv.path_some (h : Inv s free comm place) {k : Nat} (hk : k < comm.length)
    {plast p : Option Conn} (hp : Path s k plast p) : ∃ b, p = some b ∧ Path s (k + 1) p (s.next b) := by
  obtain ⟨front, a, post, hl, hlen, -, rfl⟩ := hp
  have hcomm := h.common.1.unique hl
  subst hcomm
  cases post with
  | nil =>
    rw [List.length_append, List.length_singleton] at hk
    omega
  | cons b post =>
    have hrest := (Chain.follow_linked (b := a) hl).2
    refine ⟨b, hrest.1, front ++ [a], b, post, by simpa using hl, ?_, hrest.1, rfl⟩
    rw [List.length_append, List.length_singleton, hlen]

theorem Inv.path_first (h : Inv s free comm place) (hpos : 0 < comm.length) :
    ∃ b, s.comm.freeConnections = some b ∧ Path s 1 s.comm.freeConnections (s.next b) := by
  have hl := h.common.1
  cases comm with
  | nil => cases hpos
  | cons b r => exact ⟨b, hl.1, [], b, r, hl, rfl, hl.1, rfl⟩

theorem toNat_pred {k : UInt32} (hk : k > 0) : (k - 1).toNat + 1 = k.toNat := by
  have hle : (1 : UInt32) ≤ k := by
    rw [UInt32.le_iff_toNat_le]
    exact UInt32.lt_iff_toNat_lt.1 hk
  rw [UInt32.toNat_sub_of_le _ _ hle]
  have := UInt32.lt_iff_toNat_lt.1 hk
  change 0 < k.toNat at this
  change k.toNat - 1 + 1 = k.toNat
  omega

/-- A turn of the loop goes one connection on, or finds that it has passed `n` of them. -/
theorem Inv.rel_walk (h : Inv s free comm place) {n k : UInt32} {plast p : Option Conn} {x : State}
    (hl : Locals i (.walk n k plast p) s) (hacc : access i (.walk n k plast p) s = (x, some m')) :
    Rel i m' x s := by
  obtain ⟨ht, hwhere⟩ := hl
  obtain ⟨hpos, hlt⟩ := h.takes_pos ht
  have hturn : k > 0 → k.toNat ≤ n.toNat → ∀ b, p = some b →
      Path s (n.toNat - k.toNat + 1) p (s.next b) → Rel i m' x s := by
    rintro hk hkn b rfl hp
    have hpred := toNat_pred hk
    simp only [access, if_pos hk, Prod.mk.injEq, Option.some.injEq] at hacc
    obtain ⟨rfl, rfl⟩ := hacc
    refine ⟨⟨ht, Or.inr ⟨by omega, ?_⟩⟩, rfl⟩
    rwa [show n.toNat - (k - 1).toNat = n.toNat - k.toNat + 1 by omega]
  rcases hwhere with ⟨rfl, rfl, rfl⟩ | ⟨hkn, hp⟩
  · obtain ⟨b, hb, hp⟩ := h.path_first (by omega)
    refine hturn (UInt32.lt_iff_toNat_lt.2 hpos) (Nat.le_refl _) b hb ?_
    rwa [Nat.sub_self]
  · by_cases hk : k > 0
    · have hk' : 0 < k.toNat := UInt32.lt_iff_toNat_lt.1 hk
      obtain ⟨b, hb, hp'⟩ := h.path_some (by omega) hp
      exact hturn hk (Nat.le_of_lt hkn) b hb hp'
    · have hk' : k.toNat = 0 := by
        have := UInt32.not_lt.1 hk
        rw [UInt32.le_iff_toNat_le] at this
        exact Nat.le_zero.1 this
      rw [hk', Nat.sub_zero] at hp
      have hbatch : access i (.walk n k plast p) s = (s, some (.batch n plast p)) := by
        cases p with
        | none => rfl
        | some b => simp only [access, if_neg hk]
      rw [hbatch] at hacc
      cases hacc
      exact ⟨⟨ht, hp⟩, rfl⟩

/-- An access that is not the last one. -/
theorem Inv.rel_next (h : Inv s free comm place) {x x' : State} (hr : Rel i m x s)
    (hacc : access i m x = (x', some m')) : Rel i m' x' s := by
  obtain ⟨hl, rfl⟩ := hr
  cases m with
  | check n =>
    change (if s.comm.freeConnectionN = 0 then _ else _) = _ at hacc
    split at hacc
    case isTrue => cases hacc
    case isFalse hne =>
      cases hacc
      exact ⟨⟨hl, hne⟩, rfl⟩
  | compare n =>
    change (if n ≥ s.comm.freeConnectionN then _ else _) = _ at hacc
    split at hacc
    case isTrue hge =>
      cases hacc
      exact ⟨⟨n, hl.1, hl.2, hge⟩, rfl⟩
    case isFalse hlt =>
      cases hacc
      exact ⟨⟨hl.1, hl.2, hlt⟩, rfl⟩
  | allHead =>
    cases hacc
    exact ⟨⟨hl, rfl⟩, rfl⟩
  | allCount c =>
    cases hacc
    exact ⟨⟨hl.1, hl.2, rfl⟩, rfl⟩
  | clearHead c num =>
    cases hacc
    exact ⟨hl, rfl⟩
  | clearCount c num => cases hacc
  | first n =>
    cases hacc
    exact ⟨⟨hl, Or.inl ⟨rfl, rfl, rfl⟩⟩, rfl⟩
  | walk n k plast p => exact h.rel_walk hl hacc
  | batch n plast p =>
    cases hacc
    exact ⟨⟨hl.1, hl.2, rfl⟩, rfl⟩
  | rest n plast p c =>
    cases hacc
    obtain ⟨ht, hp, hc⟩ := hl
    refine ⟨⟨ht, ⟨p, hp⟩, hc⟩, ?_⟩
    obtain ⟨front, a, post, -, -, rfl, rfl⟩ := hp
    rfl
  | loadRest n plast c =>
    cases hacc
    exact ⟨⟨hl.1, hl.2.1, hl.2.2, rfl⟩, rfl⟩
  | storeRest n plast c old =>
    cases hacc
    obtain ⟨ht, hp, hc, rfl⟩ := hl
    exact ⟨⟨ht, hp, hc⟩, rfl⟩
  | cut n plast c =>
    obtain ⟨-, ⟨p, front, a, post, -, -, rfl, -⟩, -⟩ := hl
    cases hacc
  | loadCount c =>
    cases hacc
    exact ⟨⟨hl, rfl⟩, rfl⟩
  | storeCount c old =>
    cases hacc
    obtain ⟨hpc, rfl⟩ := hl
    exact ⟨hpc, rfl⟩
  | loadHead c =>
    cases hacc
    exact ⟨⟨hl, rfl⟩, rfl⟩
  | link c head =>
    cases hacc
    obtain ⟨hpc, rfl⟩ := hl
    exact ⟨hpc, rfl⟩
  | storeHead c => cases hacc
  | fault => exact absurd hl id
  | skip => cases hacc

theorem call_fetching {n : UInt32} (hpc : s.pc i = .fetching n) :
    call i s =
      (getCommConn n s).2.2.setPc i (.fetched (getCommConn n s).1 (getCommConn n s).2.1) := by
  simp only [call, hpc, Pc.calls, if_true, advance]

theorem call_giving {c : Conn} (hpc : s.pc i = .giving c) :
    call i s = (putCommConn c s).setPc i .given := by
  simp only [call, hpc, Pc.calls, if_true, advance]

theorem getCommConn_all {n : UInt32} (hne : s.comm.freeConnectionN ≠ 0)
    (hge : n ≥ s.comm.freeConnectionN) :
    getCommConn n s =
      (s.comm.freeConnections, s.comm.freeConnectionN.toInt32, { s with comm := {} }) := by
  simp only [getCommConn, if_neg hne, if_pos hge]

/-- The connections in front of `plast` and `plast` itself are cut off. -/
theorem getCommConn_part {n : UInt32} {plast p : Option Conn} (ht : TakesPart i n s)
    (hp : Path s n.toNat plast p) :
    ∃ a, plast = some a ∧
      getCommConn n s =
        (s.comm.freeConnections, n.toInt32,
          { s with comm := ⟨s.next a, s.comm.freeConnectionN - n⟩ }.setNext a none) := by
  obtain ⟨-, hne, hlt⟩ := ht
  obtain ⟨front, a, post, hl, hlen, rfl, -⟩ := hp
  refine ⟨a, rfl, ?_⟩
  simp only [getCommConn, if_neg hne, if_neg hlt]
  cases hhead : s.comm.freeConnections with
  | none =>
    rw [hhead] at hl
    exact absurd (hl.eq_none_iff.1 rfl) (by simp)
  | some b =>
    rw [hhead] at hl
    simp only [← hlen, (Chain.follow_linked (b := b) hl).1]

/-- The last access: all of them together are one call. -/
theorem rel_last {x x' : State} (hr : Rel i m x s)
    (hacc : access i m x = (x', none)) : x' = call i s := by
  obtain ⟨hl, rfl⟩ := hr
  cases m with
  | check n =>
    have hpc : s.pc i = .fetching n := hl
    change (if s.comm.freeConnectionN = 0 then _ else _) = _ at hacc
    split at hacc
    case isTrue hzero =>
      cases hacc
      rw [call_fetching hpc, getCommConn, if_pos hzero]
      rfl
    case isFalse => cases hacc
  | compare n =>
    change (if n ≥ s.comm.freeConnectionN then _ else _) = _ at hacc
    split at hacc <;> cases hacc
  | clearCount c num =>
    cases hacc
    obtain ⟨⟨n, hpc, hne, hge⟩, rfl, rfl⟩ := hl
    rw [call_fetching hpc, getCommConn_all hne hge]
    rfl
  | walk n k plast p =>
    cases p with
    | none => cases hacc
    | some a =>
      change (if k > 0 then _ else _) = _ at hacc
      split at hacc <;> cases hacc
  | cut n plast c =>
    obtain ⟨ht, ⟨p, hp⟩, rfl⟩ := hl
    obtain ⟨a, rfl, hpart⟩ := getCommConn_part ht hp
    cases hacc
    rw [call_fetching ht.1, hpart]
    rfl
  | storeHead c =>
    have hpc : s.pc i = .giving c := hl
    cases hacc
    rw [call_giving hpc]
    rfl
  | fault => exact absurd hl id
  | skip =>
    cases hacc
    have hnot : ¬ (s.pc i).calls = true := by rw [show (s.pc i).calls = false from hl]; simp
    exact (if_neg hnot).symm
  | allHead => cases hacc
  | allCount c => cases hacc
  | clearHead c num => cases hacc
  | first n => cases hacc
  | batch n plast p => cases hacc
  | rest n plast p c => cases hacc
  | loadRest n plast c => cases hacc
  | storeRest n plast c old => cases hacc
  | loadCount c => cases hacc
  | storeCount c old => cases hacc
  | loadHead c => cases hacc
  | link c head => cases hacc

/-! ### Steps of the others -/

theorem Inv.apart_comm (h : Inv s free comm place) {c : Conn} (hc : c ∈ comm) : Apart place c :=
  Or.inl ((h.mem_comm c).1 hc)

theorem Inv.path_act (h : Inv s free comm place) (a : Act) {k : Nat} {plast p : Option Conn}
    (hp : Path s k plast p) : Path (act a s) k plast p ∧ plast.bind (act a s).next = plast.bind s.next := by
  obtain ⟨front, b, post, hl, hlen, rfl, rfl⟩ := hp
  have hcomm := h.common.1.unique hl
  subst hcomm
  have hnext : ∀ c ∈ front ++ b :: post, (act a s).next c = s.next c := fun c hc =>
    act_next h (h.apart_comm hc)
  have hb := hnext b (by simp)
  refine ⟨⟨front, b, post, ?_, hlen, rfl, hb.symm⟩, hb⟩
  rw [act_comm]
  exact hl.congr hnext

theorem Inv.locals_act (h : Inv s free comm place) {a : Act} (ha : actor a ≠ some i)
    (hl : Locals i m s) : Locals i m (act a s) := by
  have hpc : (act a s).pc i = s.pc i := act_pc ha
  have hcomm := act_comm a s
  have hall : TakesAll i s → TakesAll i (act a s) := by
    rintro ⟨n, hn⟩
    exact ⟨n, by rwa [hpc, hcomm]⟩
  have hpart : ∀ {n}, TakesPart i n s → TakesPart i n (act a s) := by
    intro n hn
    rwa [TakesPart, hpc, hcomm]
  cases m with
  | check n => exact hpc.trans hl
  | compare n => exact ⟨hpc.trans hl.1, by rw [hcomm]; exact hl.2⟩
  | allHead => exact hall hl
  | allCount c => exact ⟨hall hl.1, by rw [hcomm]; exact hl.2⟩
  | clearHead c num => exact ⟨hall hl.1, by rw [hcomm]; exact hl.2⟩
  | clearCount c num => exact ⟨hall hl.1, by rw [hcomm]; exact hl.2⟩
  | first n => exact hpart hl
  | walk n k plast p =>
    refine ⟨hpart hl.1, ?_⟩
    rw [hcomm]
    exact hl.2.imp_right fun hp => ⟨hp.1, (h.path_act a hp.2).1⟩
  | batch n plast p => exact ⟨hpart hl.1, (h.path_act a hl.2).1⟩
  | rest n plast p c => exact ⟨hpart hl.1, (h.path_act a hl.2.1).1, by rw [hcomm]; exact hl.2.2⟩
  | loadRest n plast c =>
    obtain ⟨ht, ⟨p, hp⟩, hc⟩ := hl
    exact ⟨hpart ht, ⟨p, (h.path_act a hp).1⟩, by rw [hcomm]; exact hc⟩
  | storeRest n plast c old =>
    obtain ⟨ht, ⟨p, hp⟩, hc⟩ := hl
    exact ⟨hpart ht, ⟨p, (h.path_act a hp).1⟩, by rw [hcomm]; exact hc⟩
  | cut n plast c =>
    obtain ⟨ht, ⟨p, hp⟩, hc⟩ := hl
    exact ⟨hpart ht, ⟨p, (h.path_act a hp).1⟩, by rw [hcomm]; exact hc⟩
  | loadCount c => exact hpc.trans hl
  | storeCount c old => exact ⟨hpc.trans hl.1, by rw [hcomm]; exact hl.2⟩
  | loadHead c => exact hpc.trans hl
  | link c head => exact ⟨hpc.trans hl.1, by rw [hcomm]; exact hl.2⟩
  | storeHead c => exact hpc.trans hl
  | fault => exact hl
  | skip => exact (congrArg Pc.calls hpc).trans hl

/-- The steps of the others do not care for the accesses that are made. -/
theorem Inv.act_sofar (h : Inv s free comm place) (a : Act) (hl : Locals i m s) :
    act a (sofar m s) = sofar m (act a s) := by
  have hcomm := act_comm a s
  cases m with
  | clearCount c num =>
    simp only [sofar, hcomm]
    exact act_with_comm a s _
  | loadRest n plast c =>
    obtain ⟨-, ⟨p, hp⟩, -⟩ := hl
    simp only [sofar, hcomm, (h.path_act a hp).2]
    exact act_with_comm a s _
  | storeRest n plast c old =>
    obtain ⟨-, ⟨p, hp⟩, -⟩ := hl
    simp only [sofar, hcomm, (h.path_act a hp).2]
    exact act_with_comm a s _
  | cut n plast c =>
    obtain ⟨-, ⟨p, hp⟩, -⟩ := hl
    simp only [sofar, hcomm, (h.path_act a hp).2]
    exact act_with_comm a s _
  | loadHead c =>
    simp only [sofar, hcomm]
    exact act_with_comm a s _
  | link c head =>
    simp only [sofar, hcomm]
    exact act_with_comm a s _
  | storeHead c =>
    have hleaving := (h.giving i c).1 hl
    have hset := act_setNext (a := a) h hleaving s.comm.freeConnections
    have hkeep := act_with_comm a (s.setNext c s.comm.freeConnections)
      { s.comm with freeConnectionN := s.comm.freeConnectionN + 1 }
    rw [hset] at hkeep
    simp only [sofar, hcomm]
    exact hkeep
  | check n => rfl
  | compare n => rfl
  | allHead => rfl
  | allCount c => rfl
  | clearHead c num => rfl
  | first n => rfl
  | walk n k plast p => rfl
  | batch n plast p => rfl
  | rest n plast p c => rfl
  | loadCount c => rfl
  | storeCount c old => rfl
  | fault => rfl
  | skip => rfl

end Rel

/-! ## Every run under the lock -/

/-- A state that runs of whole calls reach. -/
def Reached (s : State) : Prop := ∃ as, s = exec step {} as

theorem reached_step {s : State} (h : Reached s) (a : Act) : Reached (step s a) := by
  obtain ⟨as, rfl⟩ := h
  exact ⟨as ++ [a], (Run.exec_concat ..).symm⟩

theorem reached_call {s : State} (h : Reached s) (i : Nat) : Reached (call i s) := by
  unfold call
  split
  · exact reached_step h (.advance i)
  · exact h

theorem reached_act {s : State} (h : Reached s) (a : Act) : Reached (act a s) := by
  cases a with
  | advance i =>
    simp only [act]
    split
    · exact h
    · exact reached_step h _
  | init i cs => exact reached_step h (.init i cs)
  | get i => exact reached_step h (.get i)
  | free i c => exact reached_step h (.free i c)
  | out i n => exact reached_step h (.out i n)
  | inn i n => exact reached_step h (.inn i n)
  | write c p => exact reached_step h (.write c p)

theorem Reached.inv {s : State} (h : Reached s) :
    ∃ free comm place, Inv s free comm place := by
  obtain ⟨as, rfl⟩ := h
  exact inv_exec as

/-- The accesses under the lock amount to the calls. -/
theorem locked_lawful : SpinLock.Lawful locked call Reached Rel where
  enter i x _ := rel_enter i x
  next i m m' x x' x₀ h hr hacc := by
    obtain ⟨free, comm, place, hi⟩ := h.inv
    exact hi.rel_next hr hacc
  last i m x x' x₀ _ hr hacc := rel_last hr hacc
  other i m a x x₀ h ha hr := by
    obtain ⟨free, comm, place, hi⟩ := h.inv
    obtain ⟨hl, rfl⟩ := hr
    exact ⟨hi.locals_act ha hl, hi.act_sofar a hl⟩
  op_inv i x h := reached_call h i
  act_inv a x h := reached_act h a

/-- How many accesses are left at most. -/
def left : Access → Nat
  | .check n => n.toNat + 9
  | .compare n => n.toNat + 8
  | .first n => n.toNat + 7
  | .walk _ k _ _ => k.toNat + 6
  | .batch .. => 5
  | .rest .. => 4
  | .loadRest .. => 3
  | .storeRest .. => 2
  | .cut .. => 1
  | .allHead => 3
  | .allCount _ => 2
  | .clearHead .. => 1
  | .loadCount _ => 4
  | .storeCount .. => 3
  | .loadHead _ => 2
  | .link .. => 1
  | .clearCount .. | .storeHead _ | .fault | .skip => 0

theorem left_access (i : Nat) (m : Access) (x x' : State) (m' : Access)
    (hacc : access i m x = (x', some m')) : left m' < left m := by
  cases m with
  | check n =>
    simp only [access] at hacc
    split at hacc <;> cases hacc
    simp [left]
  | compare n =>
    simp only [access] at hacc
    split at hacc <;> cases hacc <;> simp only [left] <;> omega
  | walk n k plast p =>
    cases p with
    | none =>
      cases hacc
      simp only [left]
      omega
    | some a =>
      simp only [access] at hacc
      split at hacc
      case isTrue hk =>
        cases hacc
        have := toNat_pred hk
        simp only [left]
        omega
      case isFalse =>
        cases hacc
        simp only [left]
        omega
  | cut n plast c =>
    cases plast with
    | none =>
      cases hacc
      simp [left]
    | some a => cases hacc
  | allHead => cases hacc; simp [left]
  | allCount c => cases hacc; simp [left]
  | clearHead c num => cases hacc; simp [left]
  | clearCount c num => cases hacc
  | first n => cases hacc; simp [left]
  | batch n plast p => cases hacc; simp [left]
  | rest n plast p c => cases hacc; simp [left]
  | loadRest n plast c => cases hacc; simp [left]
  | storeRest n plast c old => cases hacc; simp [left]
  | loadCount c => cases hacc; simp [left]
  | storeCount c old => cases hacc; simp [left]
  | loadHead c => cases hacc; simp [left]
  | link c head => cases hacc; simp [left]
  | storeHead c => cases hacc
  | fault => cases hacc
  | skip => cases hacc

theorem on_ne_off : locked.on ≠ locked.off := by decide

/-- What the accesses made so far differ in from the state without them. -/
theorem sofar_differs {i : Nat} {m : Access} {s : State} (hl : Locals i m s) :
    sofar m s = { s with comm := (sofar m s).comm, next := (sofar m s).next } ∧
    ∀ c, (sofar m s).next c ≠ s.next c → s.pc i = .giving c := by
  cases m with
  | storeHead c =>
    refine ⟨rfl, fun d hd => ?_⟩
    by_cases hdc : d = c
    · exact hdc ▸ hl
    · exact absurd (Function.update_of_ne hdc _ _) hd
  | _ => exact ⟨rfl, fun d hd => absurd rfl hd⟩

/-- **The lock keeps its promise.** In every run, whatever the order of the accesses: at most one
thread is in the lock, none follows a null pointer, and the lock can be released; and there is a
state that whole calls reach, in which every connection is at one place, that the memory is equal to
whenever the lock is off, and that it differs from otherwise only in the common pool and in `next` of
a connection that is given to it. -/
theorem lock_makes_calls_whole (as : List (SpinLock.Act Nat Act)) :
    let s := exec (SpinLock.step locked) (SpinLock.start locked {}) as
    SpinLock.Exclusive locked s ∧
    (∀ i, s.loc i ≠ .inside .fault) ∧
    (s.word = shsLockOn →
      ∃ i n, (exec (SpinLock.step locked) s (List.replicate n (.go i))).word = shsLockOff) ∧
    ∃ bs free comm place, Inv (exec step {} bs) free comm place ∧
      (s.word = shsLockOff → s.shared = exec step {} bs) ∧
      s.shared = { exec step {} bs with comm := s.shared.comm, next := s.shared.next } ∧
      ∀ c, s.shared.next c ≠ (exec step {} bs).next c → ∃ i, place c = some (.leaving i) := by
  intro s
  have he : SpinLock.Exclusive locked s := SpinLock.exclusive_exec on_ne_off {} as
  obtain ⟨x₀, hx⟩ := SpinLock.refines locked_lawful on_ne_off (x := {}) ⟨[], rfl⟩ as
  refine ⟨he, fun i hi => (hx.inside i _ hi).1,
    fun hon => SpinLock.releases on_ne_off left_access he hon, ?_⟩
  obtain ⟨bs, rfl⟩ := hx.inv
  obtain ⟨free, comm, place, hinv⟩ := inv_exec bs
  refine ⟨bs, free, comm, place, hinv, fun hoff => hx.at_rest he on_ne_off hoff, ?_⟩
  by_cases hin : ∃ i m, s.loc i = .inside m
  · obtain ⟨i, m, hi⟩ := hin
    obtain ⟨hl, hs⟩ := hx.inside i m hi
    obtain ⟨heq, hnext⟩ := sofar_differs hl
    rw [show s.shared = sofar m (exec step {} bs) from hs]
    exact ⟨heq, fun c hc => ⟨i, (hinv.giving i c).1 (hnext c hc)⟩⟩
  · have hs : s.shared = exec step {} bs := hx.quiet fun i m hi => hin ⟨i, m, hi⟩
    rw [hs]
    exact ⟨rfl, fun c hc => absurd rfl hc⟩

end ConnPool
end Shs
