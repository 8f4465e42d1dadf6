import Mathlib.Algebra.Order.Ring.Int
import Mathlib.Data.List.Perm.Subperm
import Shs.Lib.Chain
import Shs.Lib.Run

/-!
# Core.ConnPool

The connection pools of the threads and the common pool that they share. Each pool belongs to one
thread. `put_comm_conn` and `get_comm_conn` run under `comm_conn_lock`, so each is one step; the
parts of `conn_pool_get_connection` and `conn_pool_free_connection` before and behind them are
steps of their own, and `Pc` says where the thread of a pool stands.

A `conn_t` is its address, and `next` is the memory of the `next` fields. The counters have the
widths of the source.
-/

namespace Shs
namespace ConnPool

open Run (exec)
open Chain (Linked follow)

abbrev Conn := Nat

/-- `conn_pool_t` of a thread. -/
structure Pool where
  changeN : Int32 := 0
  freeConnections : Option Conn := none
  freeConnectionN : UInt32 := 0
  usedN : UInt32 := 0
  deriving DecidableEq

/-- `comm_conn_pool`. -/
structure Comm where
  freeConnections : Option Conn := none
  freeConnectionN : UInt32 := 0
  deriving DecidableEq

/-- Where the thread of a pool stands. -/
inductive Pc where
  /-- in no call -/
  | idle
  /-- in `conn_pool_get_connection`, about to call `get_comm_conn(n, &num)` -/
  | fetching (n : UInt32)
  /-- `get_comm_conn` has returned `c` and set `num` -/
  | fetched (c : Option Conn) (num : Int32)
  /-- in `conn_pool_free_connection`, about to call `put_comm_conn(c)` -/
  | giving (c : Conn)
  /-- `put_comm_conn` has returned -/
  | given
  deriving DecidableEq

structure State where
  next : Conn → Option Conn := fun _ => none
  pools : Nat → Pool := fun _ => {}
  pc : Nat → Pc := fun _ => .idle
  comm : Comm := {}
  /-- all connections of the pools initialised so far -/
  allocated : List Conn := []
  /-- connections that callers have and have not given to `conn_pool_free_connection` -/
  used : List Conn := []

namespace State

def setPool (i : Nat) (p : Pool) (s : State) : State :=
  { s with pools := Function.update s.pools i p }

def setPc (i : Nat) (pc : Pc) (s : State) : State := { s with pc := Function.update s.pc i pc }

def setNext (c : Conn) (p : Option Conn) (s : State) : State :=
  { s with next := Function.update s.next c p }

end State

/-- The loop of `conn_pool_init`: each connection leads to the one behind it. -/
def chainUp : List Conn → (Conn → Option Conn) → (Conn → Option Conn)
  | [], next => next
  | c :: cs, next => chainUp cs (Function.update next c cs.head?)

/-- `conn_pool_init` with `connection_n` connections, which `memory_calloc` put at `cs`. -/
def connPoolInit (i : Nat) (cs : List Conn) (s : State) : State :=
  { s with next := chainUp cs s.next,
           allocated := cs ++ s.allocated }.setPool i
    { s.pools i with freeConnections := cs.head?,
                     freeConnectionN := UInt32.ofNat cs.length }

/-- `out_conn:` of `conn_pool_get_connection`. -/
def outConn (i : Nat) (c : Conn) (s : State) : State :=
  { s with used := c :: s.used }.setPool i
    { s.pools i with freeConnections := s.next c,
                     freeConnectionN := (s.pools i).freeConnectionN - 1,
                     usedN := (s.pools i).usedN + 1 }

/-- `conn_pool_get_connection` up to its call of `get_comm_conn`. -/
def connPoolGetConnection (i : Nat) (s : State) : State :=
  match (s.pools i).freeConnections with
  | some c => outConn i c s
  | none =>
    if (s.pools i).changeN ≥ 0 then s
    else s.setPc i (.fetching (-(s.pools i).changeN).toUInt32)

def getCommConn (n : UInt32) (s : State) : Option Conn × Int32 × State :=
  if s.comm.freeConnectionN = 0 then (none, 0, s)
  else if n ≥ s.comm.freeConnectionN then
    (s.comm.freeConnections, s.comm.freeConnectionN.toInt32, { s with comm := {} })
  else
    match s.comm.freeConnections with
    | none => (none, 0, s)
    | some p =>
      let (plast, q) := follow s.next n.toNat p (some p)
      (some p, n.toInt32,
        { s with comm := ⟨q, s.comm.freeConnectionN - n⟩ }.setNext plast none)

def putCommConn (c : Conn) (s : State) : State :=
  { s with comm := ⟨some c, s.comm.freeConnectionN + 1⟩ }.setNext c s.comm.freeConnections

/-- The thread of pool `i` goes on in the call that it is in. -/
def advance (i : Nat) (s : State) : State :=
  let p := s.pools i
  match s.pc i with
  | .idle => s
  | .fetching n =>
    let (c, num, s) := getCommConn n s
    s.setPc i (.fetched c num)
  | .fetched (some c) num =>
    outConn i c
      ((s.setPool i { p with freeConnections := some c,
                             freeConnectionN := p.freeConnectionN + num.toUInt32,
                             changeN := p.changeN + num }).setPc i .idle)
  | .fetched none _ => s.setPc i .idle
  | .giving c => (putCommConn c s).setPc i .given
  | .given => (s.setPool i { p with changeN := p.changeN - 1 }).setPc i .idle

/-- `conn_pool_free_connection` up to its call of `put_comm_conn`. -/
def connPoolFreeConnection (i : Nat) (c : Conn) (s : State) : State :=
  let p := s.pools i
  let s := { s with used := s.used.erase c }
  if p.changeN > 0 then (s.setPool i { p with usedN := p.usedN - 1 }).setPc i (.giving c)
  else
    (s.setNext c p.freeConnections).setPool i
      { p with freeConnections := some c, freeConnectionN := p.freeConnectionN + 1,
               usedN := p.usedN - 1 }

def connPoolOut (i : Nat) (n : Int32) (s : State) : State :=
  let p := s.pools i
  s.setPool i { p with changeN := p.changeN - n, usedN := p.usedN - n.toUInt32 }

def connPoolIn (i : Nat) (n : Int32) (s : State) : State :=
  let p := s.pools i
  s.setPool i { p with changeN := p.changeN + n, usedN := p.usedN + n.toUInt32 }

inductive Act where
  /-- a pool that has no connections yet is initialised with those at `cs` -/
  | init (i : Nat) (cs : List Conn)
  | get (i : Nat)
  | free (i : Nat) (c : Conn)
  | out (i : Nat) (n : Int32)
  | inn (i : Nat) (n : Int32)
  /-- the caller that has `c` writes its `next`, as `conn_set_default` does -/
  | write (c : Conn) (p : Option Conn)
  | advance (i : Nat)

/-- Calls are made by threads that are in none, and only connections in use are freed or written.
Fresh memory holds no connection that exists. -/
def step (s : State) : Act → State
  | .init i cs =>
    if s.pc i = .idle ∧ (s.pools i).freeConnections = none ∧ (s.pools i).freeConnectionN = 0 ∧
        cs.Nodup ∧ (∀ c ∈ cs, c ∉ s.allocated) then connPoolInit i cs s
    else s
  | .get i => if s.pc i = .idle then connPoolGetConnection i s else s
  | .free i c => if s.pc i = .idle ∧ c ∈ s.used then connPoolFreeConnection i c s else s
  | .out i n => if s.pc i = .idle then connPoolOut i n s else s
  | .inn i n => if s.pc i = .idle then connPoolIn i n s else s
  | .write c p => if c ∈ s.used then s.setNext c p else s
  | .advance i => advance i s

/-! ## Where the connections are -/

namespace State

/-- The list of pool `i`. A batch that `get_comm_conn` has just returned is the pool's: its own
list is empty then. -/
def freeHead (s : State) (i : Nat) : Option Conn :=
  match s.pc i with
  | .fetched c _ => c
  | _ => (s.pools i).freeConnections

def freeCount (s : State) (i : Nat) : UInt32 :=
  match s.pc i with
  | .fetched _ num => (s.pools i).freeConnectionN + num.toUInt32
  | _ => (s.pools i).freeConnectionN

end State

/-- Where a connection is: in the list of a pool, in the common list, with a caller, or with the
thread of pool `i` in the middle of `conn_pool_free_connection`. -/
inductive Place where
  | pool (i : Nat)
  | common
  | caller
  | leaving (i : Nat)
  deriving DecidableEq

/-- `head` leads over the connections of `l`, and `n` counts them. -/
def Holds (next : Conn → Option Conn) (head : Option Conn) (n : UInt32) (l : List Conn) : Prop :=
  Linked next head l ∧ n = UInt32.ofNat l.length ∧ l.Nodup

section Holds

variable {next : Conn → Option Conn} {p q : Option Conn} {n : UInt32} {l : List Conn} {c : Conn}

theorem holds_nil : Holds next none 0 [] := ⟨rfl, rfl, List.nodup_nil⟩

theorem Holds.pop (h : Holds next (some c) n l) :
    ∃ r, l = c :: r ∧ c ∉ r ∧ Holds next (next c) (n - 1) r := by
  obtain ⟨hl, hn, hnd⟩ := h
  obtain ⟨r, rfl, hr⟩ := hl.head
  rw [List.nodup_cons] at hnd
  refine ⟨r, rfl, hnd.1, hr, ?_, hnd.2⟩
  rw [hn, List.length_cons, UInt32.ofNat_add]
  simp

theorem Holds.push (h : Holds next p n l) (hc : c ∉ l) :
    Holds (Function.update next c p) (some c) (n + 1) (c :: l) := by
  refine ⟨h.1.push hc, ?_, List.nodup_cons.2 ⟨hc, h.2.2⟩⟩
  rw [h.2.1, List.length_cons, UInt32.ofNat_add]
  rfl

theorem Holds.frame (h : Holds next p n l) (hc : c ∉ l) :
    Holds (Function.update next c q) p n l := ⟨h.1.update hc, h.2⟩

theorem Holds.nil_of_none (h : Holds next none n l) : l = [] ∧ n = 0 := by
  obtain ⟨hl, hn, -⟩ := h
  cases l with
  | nil => exact ⟨rfl, hn⟩
  | cons a l => exact absurd hl.1 (by simp)

/-- The first `n` connections are cut off, for `0 < n` below their counted number. -/
theorem Holds.split {m : UInt32} (h : Holds next (some c) n l) (hm : 0 < m.toNat) (hlt : m < n) :
    ∃ batch a r, l = batch ++ r ∧ follow next m.toNat c (some c) = (a, next a) ∧ a ∈ batch ∧
      Holds (Function.update next a none) (some c) m batch ∧
      Holds (Function.update next a none) (next a) (n - m) r := by
  obtain ⟨hl, hn, hnd⟩ := h
  have hlen : m.toNat < l.length := by
    have h1 : m.toNat < n.toNat := hlt
    have h2 : n.toNat ≤ l.length := by
      rw [hn, UInt32.toNat_ofNat']
      exact Nat.mod_le _ _
    omega
  obtain ⟨k, hk⟩ : ∃ k, m.toNat = k + 1 := ⟨m.toNat - 1, by omega⟩
  have hcut : l = l.take k ++ l[k] :: l.drop (k + 1) := by simp
  generalize l[k] = a at hcut
  generalize hfront : l.take k = front at hcut
  generalize l.drop (k + 1) = r at hcut
  have hfl : front.length = k := by rw [← hfront, List.length_take]; omega
  subst hcut
  obtain ⟨hfollow, hrest⟩ := Chain.follow_linked (b := c) hl
  rw [show front ++ a :: r = front ++ [a] ++ r by simp, List.nodup_append'] at hnd
  obtain ⟨hnd1, hnd2, hdisj⟩ := hnd
  have har : a ∉ r := hdisj (by simp)
  have hmk : m = UInt32.ofNat (k + 1) := by rw [← hk, UInt32.ofNat_toNat]
  refine ⟨front ++ [a], a, r, by simp, ?_, by simp, ⟨hl.cut hnd1, ?_, hnd1⟩,
    hrest.update har, ?_, hnd2⟩
  · rw [hk, ← hfl]
    exact hfollow
  · rw [hmk, List.length_append, hfl]
    rfl
  · rw [hn, hmk, List.length_append, List.length_cons, hfl, ← Nat.add_assoc,
      Nat.add_right_comm, UInt32.ofNat_add]
    grind

end Holds

/-- What the steps keep, with the lists of the pools, the common list and the place of each
connection. -/
structure Inv (s : State) (free : Nat → List Conn) (comm : List Conn)
    (place : Conn → Option Place) : Prop where
  pools : ∀ i, Holds s.next (s.freeHead i) (s.freeCount i) (free i)
  common : Holds s.next s.comm.freeConnections s.comm.freeConnectionN comm
  nodup : s.used.Nodup
  mem_free : ∀ i c, c ∈ free i ↔ place c = some (.pool i)
  mem_comm : ∀ c, c ∈ comm ↔ place c = some .common
  mem_used : ∀ c, c ∈ s.used ↔ place c = some .caller
  giving : ∀ i c, s.pc i = .giving c ↔ place c = some (.leaving i)
  mem_allocated : ∀ c, c ∈ s.allocated ↔ place c ≠ none
  fetching : ∀ i n, s.pc i = .fetching n →
    0 < n.toNat ∧ (s.pools i).freeConnections = none ∧ (s.pools i).freeConnectionN = 0
  fetched : ∀ i c num, s.pc i = .fetched c num →
    (s.pools i).freeConnections = none ∧ (s.pools i).freeConnectionN = 0

section Steps

variable {s : State} {free : Nat → List Conn} {comm : List Conn} {place : Conn → Option Place}
  {i : Nat} {c : Conn}

theorem inv_start : Inv {} (fun _ => []) [] (fun _ => none) where
  pools := fun _ => holds_nil
  common := holds_nil
  nodup := List.nodup_nil
  mem_free := by simp
  mem_comm := by simp
  mem_used := by simp
  giving := by simp
  mem_allocated := by simp
  fetching := by simp
  fetched := by simp

/-- The head of the list of pool `i` goes to a caller. -/
theorem Inv.outConn (h : Inv s free comm place) (hpc : s.pc i = .idle)
    (hc : (s.pools i).freeConnections = some c) :
    ∃ r, Inv (outConn i c s) (Function.update free i r) comm
      (Function.update place c (some .caller)) := by
  have hp := h.pools i
  simp only [State.freeHead, State.freeCount, hpc, hc] at hp
  obtain ⟨r, hr, hcr, hlr⟩ := hp.pop
  have hplace : place c = some (.pool i) := (h.mem_free i c).1 (by simp [hr])
  refine ⟨r, ?_, h.common, ?_, ?_, ?_, ?_, ?_, ?_, ?_, ?_⟩
  · intro j
    by_cases hj : j = i
    · subst hj
      simpa [ConnPool.outConn, State.setPool, State.freeHead, State.freeCount, hpc] using hlr
    · simpa [ConnPool.outConn, State.setPool, State.freeHead, State.freeCount, hj] using h.pools j
  · exact List.nodup_cons.2 ⟨fun hu => by simp [(h.mem_used c).1 hu] at hplace, h.nodup⟩
  · have := h.mem_free
    grind [Function.update_apply]
  · have := h.mem_comm
    grind [Function.update_apply]
  · have := h.mem_used
    simp only [ConnPool.outConn, State.setPool]
    grind [Function.update_apply]
  · have := h.giving
    simp only [ConnPool.outConn, State.setPool]
    grind [Function.update_apply]
  · have := h.mem_allocated
    simp only [ConnPool.outConn, State.setPool]
    grind [Function.update_apply]
  · have := h.fetching
    simp only [ConnPool.outConn, State.setPool]
    grind [Function.update_apply]
  · have := h.fetched
    simp only [ConnPool.outConn, State.setPool]
    grind [Function.update_apply]

/-- A connection in use goes to the list of pool `i`. -/
theorem Inv.give_back (h : Inv s free comm place) (hpc : s.pc i = .idle) (hc : c ∈ s.used)
    (hn : ¬ (s.pools i).changeN > 0) :
    Inv (connPoolFreeConnection i c s) (Function.update free i (c :: free i)) comm
      (Function.update place c (some (.pool i))) := by
  have hplace := (h.mem_used c).1 hc
  have hp := h.pools i
  simp only [State.freeHead, State.freeCount, hpc] at hp
  have hout : ∀ j, c ∉ free j := by
    intro j hj
    simp [(h.mem_free j c).1 hj] at hplace
  have hcomm : c ∉ comm := by
    intro hm
    simp [(h.mem_comm c).1 hm] at hplace
  simp only [connPoolFreeConnection, if_neg hn]
  refine ⟨?_, h.common.frame hcomm, h.nodup.erase c, ?_, ?_, ?_, ?_, ?_, ?_, ?_⟩
  · intro j
    by_cases hj : j = i
    · subst hj
      simpa [State.setPool, State.setNext, State.freeHead, State.freeCount, hpc] using
        hp.push (hout j)
    · have hfr := (h.pools j).frame (q := (s.pools i).freeConnections) (hout j)
      simpa [State.setPool, State.setNext, State.freeHead, State.freeCount, hj] using hfr
  · have := h.mem_free
    grind [Function.update_apply]
  · have := h.mem_comm
    grind [Function.update_apply]
  · intro d
    simp only [State.setPool, State.setNext, h.nodup.mem_erase_iff, h.mem_used]
    grind [Function.update_apply]
  · have := h.giving
    simp only [State.setPool, State.setNext]
    grind [Function.update_apply]
  · have := h.mem_allocated
    simp only [State.setPool, State.setNext]
    grind [Function.update_apply]
  · have := h.fetching
    simp only [State.setPool, State.setNext]
    grind [Function.update_apply]
  · have := h.fetched
    simp only [State.setPool, State.setNext]
    grind [Function.update_apply]

/-- A connection in use is on its way to the common list. -/
theorem Inv.leave (h : Inv s free comm place) (hpc : s.pc i = .idle) (hc : c ∈ s.used)
    (hn : (s.pools i).changeN > 0) :
    Inv (connPoolFreeConnection i c s) free comm
      (Function.update place c (some (.leaving i))) := by
  have hplace := (h.mem_used c).1 hc
  have hp := h.pools i
  simp only [State.freeHead, State.freeCount, hpc] at hp
  simp only [connPoolFreeConnection, if_pos hn]
  refine ⟨?_, h.common, h.nodup.erase c, ?_, ?_, ?_, ?_, ?_, ?_, ?_⟩
  · intro j
    by_cases hj : j = i
    · subst hj
      simpa [State.setPool, State.setPc, State.freeHead, State.freeCount] using hp
    · simpa [State.setPool, State.setPc, State.freeHead, State.freeCount, hj] using h.pools j
  · have := h.mem_free
    grind [Function.update_apply]
  · have := h.mem_comm
    grind [Function.update_apply]
  · intro d
    simp only [State.setPool, State.setPc, h.nodup.mem_erase_iff, h.mem_used]
    grind [Function.update_apply]
  · have := h.giving
    simp only [State.setPool, State.setPc]
    grind [Function.update_apply]
  · have := h.mem_allocated
    simp only [State.setPool, State.setPc]
    grind [Function.update_apply]
  · have := h.fetching
    simp only [State.setPool, State.setPc]
    grind [Function.update_apply]
  · have := h.fetched
    simp only [State.setPool, State.setPc]
    grind [Function.update_apply]

/-- `put_comm_conn`, and the thread goes on behind it. -/
theorem Inv.put (h : Inv s free comm place) (hpc : s.pc i = .giving c) :
    Inv ((putCommConn c s).setPc i .given) free (c :: comm)
      (Function.update place c (some .common)) := by
  have hplace := (h.giving i c).1 hpc
  have hp := h.pools i
  simp only [State.freeHead, State.freeCount, hpc] at hp
  have hout : ∀ j, c ∉ free j := by
    intro j hj
    simp [(h.mem_free j c).1 hj] at hplace
  have hcomm : c ∉ comm := by
    intro hm
    simp [(h.mem_comm c).1 hm] at hplace
  refine ⟨?_, h.common.push hcomm, h.nodup, ?_, ?_, ?_, ?_, ?_, ?_, ?_⟩
  · intro j
    by_cases hj : j = i
    · subst hj
      simpa [putCommConn, State.setPc, State.setNext, State.freeHead, State.freeCount] using
        hp.frame (q := s.comm.freeConnections) (hout j)
    · have hfr := (h.pools j).frame (q := s.comm.freeConnections) (hout j)
      simpa [putCommConn, State.setPc, State.setNext, State.freeHead, State.freeCount, hj]
        using hfr
  · have := h.mem_free
    grind [Function.update_apply]
  · have := h.mem_comm
    grind [Function.update_apply]
  · have := h.mem_used
    simp only [putCommConn, State.setPc, State.setNext]
    grind [Function.update_apply]
  · have := h.giving
    simp only [putCommConn, State.setPc, State.setNext]
    grind [Function.update_apply]
  · have := h.mem_allocated
    simp only [putCommConn, State.setPc, State.setNext]
    grind [Function.update_apply]
  · have := h.fetching
    simp only [putCommConn, State.setPc, State.setNext]
    grind [Function.update_apply]
  · have := h.fetched
    simp only [putCommConn, State.setPc, State.setNext]
    grind [Function.update_apply]

/-- What `get_comm_conn` returns and leaves: a list, which `num` counts, and the rest. -/
theorem getCommConn_spec {n : UInt32} (h : Holds s.next s.comm.freeConnections s.comm.freeConnectionN comm)
    (hn : 0 < n.toNat) {p : Option Conn} {num : Int32} {t : State}
    (hg : getCommConn n s = (p, num, t)) :
    ∃ batch r next, comm = batch ++ r ∧ t = { s with next := next, comm := t.comm } ∧
      Holds next p num.toUInt32 batch ∧
      Holds next t.comm.freeConnections t.comm.freeConnectionN r ∧
      ∀ d, d ∉ batch → next d = s.next d := by
  unfold getCommConn at hg
  split at hg
  · cases hg
    exact ⟨[], comm, s.next, rfl, rfl, holds_nil, h, fun _ _ => rfl⟩
  · split at hg
    · cases hg
      refine ⟨comm, [], s.next, by simp, rfl, ?_, holds_nil, fun _ _ => rfl⟩
      simpa using h
    · split at hg
      · cases hg
        exact ⟨[], comm, s.next, rfl, rfl, holds_nil, h, fun _ _ => rfl⟩
      · rename_i hlt _ c hc
        rw [hc] at h
        obtain ⟨batch, a, r, hl, hf, ha, hb, hr⟩ := h.split hn (by simpa using hlt)
        rw [hf] at hg
        cases hg
        refine ⟨batch, r, Function.update s.next a none, hl, rfl, by simpa using hb, hr, ?_⟩
        intro d hd
        exact Function.update_of_ne (by rintro rfl; exact hd ha) _ _

/-- `get_comm_conn`, and the thread goes on behind it. -/
theorem Inv.fetch {n : UInt32} (h : Inv s free comm place) (hpc : s.pc i = .fetching n) :
    ∃ free' comm' place', Inv (advance i s) free' comm' place' := by
  obtain ⟨hn, hhead, hcount⟩ := h.fetching i n hpc
  have hp := h.pools i
  simp only [State.freeHead, State.freeCount, hpc, hhead] at hp
  obtain ⟨hnil, -⟩ := hp.nil_of_none
  simp only [advance, hpc]
  generalize hg : getCommConn n s = g
  obtain ⟨p, num, t⟩ := g
  obtain ⟨batch, r, next, rfl, ht, hb, hr, hframe⟩ := getCommConn_spec h.common hn hg
  generalize t.comm = left at ht hr
  subst ht
  have hnd := h.common.2.2
  rw [List.nodup_append'] at hnd
  have hout : ∀ j, ∀ d ∈ free j, d ∉ batch := by
    intro j d hd hdb
    have h1 := (h.mem_free j d).1 hd
    have h2 := (h.mem_comm d).1 (by simp [hdb])
    simp [h1] at h2
  refine ⟨Function.update free i batch, r,
    fun d => if d ∈ batch then some (.pool i) else place d, ?_, hr, h.nodup, ?_, ?_, ?_, ?_, ?_,
    ?_, ?_⟩
  · intro j
    by_cases hj : j = i
    · subst hj
      simpa [State.setPc, State.freeHead, State.freeCount, hcount] using hb
    · obtain ⟨hl, hn, hnd⟩ := h.pools j
      have hfr : Holds next (s.freeHead j) (s.freeCount j) (free j) :=
        ⟨hl.congr fun d hd => hframe d (hout j d hd), hn, hnd⟩
      simpa [State.setPc, State.freeHead, State.freeCount, hj] using hfr
  · have := h.mem_free
    grind [Function.update_apply]
  · have := h.mem_comm
    have := hnd.2.2
    grind [List.Disjoint]
  · have := h.mem_used
    have := h.mem_comm
    simp only [State.setPc]
    grind [Function.update_apply]
  · have := h.giving
    have := h.mem_comm
    simp only [State.setPc]
    grind [Function.update_apply]
  · have := h.mem_allocated
    have := h.mem_comm
    simp only [State.setPc]
    grind [Function.update_apply]
  · have := h.fetching
    simp only [State.setPc]
    grind [Function.update_apply]
  · have := h.fetched
    simp only [State.setPc]
    grind [Function.update_apply]

/-- Steps that leave the lists and the connections where they are. -/
theorem Inv.turn {p : Pool} {k : Pc} (h : Inv s free comm place)
    (hhead : ((s.setPool i p).setPc i k).freeHead i = s.freeHead i)
    (hcount : ((s.setPool i p).setPc i k).freeCount i = s.freeCount i)
    (hold : ∀ c, s.pc i ≠ .giving c) (hnew : ∀ c, k ≠ .giving c)
    (hfetching : ∀ n, k = .fetching n →
      0 < n.toNat ∧ p.freeConnections = none ∧ p.freeConnectionN = 0)
    (hfetched : ∀ c num, k = .fetched c num →
      p.freeConnections = none ∧ p.freeConnectionN = 0) :
    Inv ((s.setPool i p).setPc i k) free comm place := by
  refine ⟨?_, h.common, h.nodup, h.mem_free, h.mem_comm, h.mem_used, ?_, h.mem_allocated, ?_, ?_⟩
  · intro j
    by_cases hj : j = i
    · subst hj
      rw [hhead, hcount]
      exact h.pools j
    · simpa [State.setPool, State.setPc, State.freeHead, State.freeCount, hj] using h.pools j
  · have := h.giving
    simp only [State.setPool, State.setPc]
    grind [Function.update_apply]
  · have := h.fetching
    simp only [State.setPool, State.setPc]
    grind [Function.update_apply]
  · have := h.fetched
    simp only [State.setPool, State.setPc]
    grind [Function.update_apply]

theorem State.setPool_self (s : State) (i : Nat) : s.setPool i (s.pools i) = s := by
  simp [State.setPool]

theorem State.setPc_self (s : State) (i : Nat) : s.setPc i (s.pc i) = s := by
  simp [State.setPc]

/-- Between calls, what a pool counts beside its list may change. -/
theorem Inv.counters {p : Pool} (h : Inv s free comm place) (hpc : s.pc i = .idle)
    (hhead : p.freeConnections = (s.pools i).freeConnections)
    (hcount : p.freeConnectionN = (s.pools i).freeConnectionN) :
    Inv (s.setPool i p) free comm place := by
  have hturn := h.turn (i := i) (p := p) (k := .idle)
    (by simpa [State.setPool, State.setPc, State.freeHead, hpc] using hhead)
    (by simpa [State.setPool, State.setPc, State.freeCount, hpc] using hcount)
    (by simp [hpc]) (by simp) (by simp) (by simp)
  rwa [← hpc, show s.pc i = (s.setPool i p).pc i from rfl, State.setPc_self] at hturn

/-- What a caller does to the `next` of a connection that it has. -/
theorem Inv.write {p : Option Conn} (h : Inv s free comm place) (hc : c ∈ s.used) :
    Inv (s.setNext c p) free comm place := by
  have hplace := (h.mem_used c).1 hc
  have hcomm : c ∉ comm := by
    intro hm
    simp [(h.mem_comm c).1 hm] at hplace
  refine ⟨?_, h.common.frame hcomm, h.nodup, h.mem_free, h.mem_comm, h.mem_used, h.giving,
    h.mem_allocated, h.fetching, h.fetched⟩
  intro j
  refine (h.pools j).frame fun hj => ?_
  simp [(h.mem_free j c).1 hj] at hplace

theorem chainUp_of_notMem {cs : List Conn} {next : Conn → Option Conn} {d : Conn} (hd : d ∉ cs) :
    chainUp cs next d = next d := by
  induction cs generalizing next with
  | nil => rfl
  | cons a cs ih =>
    simp only [List.mem_cons, not_or] at hd
    rw [chainUp, ih hd.2, Function.update_of_ne hd.1]

theorem chainUp_linked {cs : List Conn} {next : Conn → Option Conn} (hnd : cs.Nodup) :
    Linked (chainUp cs next) cs.head? cs := by
  induction cs generalizing next with
  | nil => rfl
  | cons a cs ih =>
    rw [List.nodup_cons] at hnd
    refine ⟨rfl, ?_⟩
    have ha : chainUp (a :: cs) next a = cs.head? := by
      rw [chainUp, chainUp_of_notMem hnd.1, Function.update_self]
    rw [ha]
    exact ih hnd.2

/-- `conn_pool_init` of a pool without connections. -/
theorem Inv.init {cs : List Conn} (h : Inv s free comm place) (hpc : s.pc i = .idle)
    (hhead : (s.pools i).freeConnections = none) (hnd : cs.Nodup)
    (hfresh : ∀ c ∈ cs, c ∉ s.allocated) :
    Inv (connPoolInit i cs s) (Function.update free i cs) comm
      (fun d => if d ∈ cs then some (.pool i) else place d) := by
  have hp := h.pools i
  simp only [State.freeHead, State.freeCount, hpc, hhead] at hp
  obtain ⟨hnil, -⟩ := hp.nil_of_none
  have hout : ∀ d, place d ≠ none → d ∉ cs := by
    intro d hd hdc
    exact hfresh d hdc ((h.mem_allocated d).2 hd)
  have hframe : ∀ {p n l}, Holds s.next p n l → (∀ d ∈ l, place d ≠ none) →
      Holds (chainUp cs s.next) p n l := by
    intro p n l hl hpl
    exact ⟨hl.1.congr fun d hd => chainUp_of_notMem (hout d (hpl d hd)), hl.2⟩
  refine ⟨?_, hframe h.common fun d hd => by simp [(h.mem_comm d).1 hd], h.nodup, ?_, ?_, ?_, ?_,
    ?_, ?_, ?_⟩
  · intro j
    by_cases hj : j = i
    · subst hj
      have hl : Holds (chainUp cs s.next) cs.head? (UInt32.ofNat cs.length) cs :=
        ⟨chainUp_linked hnd, rfl, hnd⟩
      simpa [connPoolInit, State.setPool, State.freeHead, State.freeCount, hpc] using hl
    · have hl := hframe (h.pools j) fun d hd => by simp [(h.mem_free j d).1 hd]
      simpa [connPoolInit, State.setPool, State.freeHead, State.freeCount, hj] using hl
  · intro j d
    by_cases hj : j = i
    · subst hj
      have hd : place d ≠ some (.pool j) := fun hd => by
        exact absurd ((h.mem_free j d).2 hd) (by simp [hnil])
      by_cases hdc : d ∈ cs <;> simp [hdc, hd]
    · have hij : i ≠ j := fun hij => hj hij.symm
      by_cases hdc : d ∈ cs
      · have hdj : d ∉ free j := fun hdj => hout d (by simp [(h.mem_free j d).1 hdj]) hdc
        simp [hj, hdc, hdj, hij]
      · simp [hj, hdc, h.mem_free j d]
  · have := h.mem_comm
    grind
  · have := h.mem_used
    simp only [connPoolInit, State.setPool]
    grind
  · have := h.giving
    simp only [connPoolInit, State.setPool]
    grind
  · have := h.mem_allocated
    simp only [connPoolInit, State.setPool]
    grind
  · have := h.fetching
    simp only [connPoolInit, State.setPool]
    grind [Function.update_apply]
  · have := h.fetched
    simp only [connPoolInit, State.setPool]
    grind [Function.update_apply]

/-- The thread of pool `i` goes on. -/
theorem Inv.advance (h : Inv s free comm place) :
    ∃ free' comm' place', Inv (advance i s) free' comm' place' := by
  cases hpc : s.pc i with
  | idle =>
    simp only [ConnPool.advance, hpc]
    exact ⟨_, _, _, h⟩
  | fetching n => exact h.fetch hpc
  | giving c =>
    simp only [ConnPool.advance, hpc]
    exact ⟨_, _, _, h.put hpc⟩
  | given =>
    simp only [ConnPool.advance, hpc]
    refine ⟨_, _, _, h.turn ?_ ?_ (by simp [hpc]) (by simp) (by simp) (by simp)⟩ <;>
      simp [State.setPool, State.setPc, State.freeHead, State.freeCount, hpc]
  | fetched p num =>
    obtain ⟨hhead, hcount⟩ := h.fetched i p num hpc
    cases p with
    | none =>
      have hp := h.pools i
      simp only [State.freeHead, State.freeCount, hpc] at hp
      obtain ⟨hnil, hnum⟩ := hp.nil_of_none
      simp only [ConnPool.advance, hpc]
      rw [← State.setPool_self s i]
      refine ⟨_, _, _, h.turn ?_ ?_ (by simp [hpc]) (by simp) (by simp) (by simp)⟩
      · simp [State.setPool, State.setPc, State.freeHead, hpc, hhead]
      · have hnum0 : num.toUInt32 = 0 := by simpa [hcount] using hnum
        simp [State.setPool, State.setPc, State.freeCount, hpc, hcount, hnum0]
    | some c =>
      simp only [ConnPool.advance, hpc]
      have hstored := h.turn (i := i)
        (p := { s.pools i with freeConnections := some c,
                               freeConnectionN := (s.pools i).freeConnectionN + num.toUInt32,
                               changeN := (s.pools i).changeN + num }) (k := .idle)
        (by simp [State.setPool, State.setPc, State.freeHead, hpc])
        (by simp [State.setPool, State.setPc, State.freeCount, hpc])
        (by simp [hpc]) (by simp) (by simp) (by simp)
      obtain ⟨r, hr⟩ := hstored.outConn (i := i) (c := c)
        (by simp [State.setPc]) (by simp [State.setPool, State.setPc])
      exact ⟨_, _, _, hr⟩

theorem neg_toUInt32_pos {n : Int32} (h : ¬ n ≥ 0) : 0 < (-n).toUInt32.toNat := by
  rw [Nat.pos_iff_ne_zero]
  intro hz
  apply h
  have hbits : (-n).toUInt32 = 0 := UInt32.toNat_inj.1 hz
  have hneg : -n = 0 := by
    rw [← Int32.toInt32_toUInt32 (-n), hbits]
    rfl
  have hzero : n = 0 := by grind
  rw [hzero]
  decide

theorem Inv.step (h : Inv s free comm place) (a : Act) :
    ∃ free' comm' place', Inv (step s a) free' comm' place' := by
  cases a with
  | init i cs =>
    simp only [ConnPool.step]
    split
    · rename_i hg
      obtain ⟨hpc, hhead, -, hnd, hfresh⟩ := hg
      exact ⟨_, _, _, h.init hpc hhead hnd hfresh⟩
    · exact ⟨_, _, _, h⟩
  | get i =>
    simp only [ConnPool.step]
    split
    · rename_i hpc
      unfold connPoolGetConnection
      split
      · rename_i c hc
        obtain ⟨r, hr⟩ := h.outConn hpc hc
        exact ⟨_, _, _, hr⟩
      · rename_i hhead
        have hp := h.pools i
        simp only [State.freeHead, State.freeCount, hpc, hhead] at hp
        obtain ⟨hnil, hcount⟩ := hp.nil_of_none
        split
        · exact ⟨_, _, _, h⟩
        · rename_i hneg
          rw [← State.setPool_self s i]
          refine ⟨_, _, _, h.turn ?_ ?_ (by simp [hpc]) (by simp) ?_ (by simp)⟩
          · simp [State.setPool, State.setPc, State.freeHead, hpc]
          · simp [State.setPool, State.setPc, State.freeCount, hpc]
          · rintro n ⟨⟩
            exact ⟨by simpa [State.setPool] using neg_toUInt32_pos hneg, hhead, hcount⟩
    · exact ⟨_, _, _, h⟩
  | free i c =>
    simp only [ConnPool.step]
    split
    · rename_i hg
      by_cases hn : (s.pools i).changeN > 0
      · exact ⟨_, _, _, h.leave hg.1 hg.2 hn⟩
      · exact ⟨_, _, _, h.give_back hg.1 hg.2 hn⟩
    · exact ⟨_, _, _, h⟩
  | out i n =>
    simp only [ConnPool.step]
    split
    · rename_i hpc
      exact ⟨_, _, _, h.counters hpc rfl rfl⟩
    · exact ⟨_, _, _, h⟩
  | inn i n =>
    simp only [ConnPool.step]
    split
    · rename_i hpc
      exact ⟨_, _, _, h.counters hpc rfl rfl⟩
    · exact ⟨_, _, _, h⟩
  | write c p =>
    simp only [ConnPool.step]
    split
    · rename_i hc
      exact ⟨_, _, _, h.write hc⟩
    · exact ⟨_, _, _, h⟩
  | advance i => exact h.advance

end Steps

/-! ## Every run -/

theorem inv_exec (as : List Act) :
    ∃ free comm place, Inv (exec step {} as) free comm place := by
  induction as using List.reverseRecOn with
  | nil => exact ⟨_, _, _, inv_start⟩
  | append_singleton as a ih =>
    obtain ⟨free, comm, place, h⟩ := ih
    rw [Run.exec_concat]
    exact h.step a

/-- `c` is at `x`, where `free` and `comm` are the lists of the pools and the common list. -/
def At (s : State) (free : Nat → List Conn) (comm : List Conn) (c : Conn) : Place → Prop
  | .pool i => c ∈ free i
  | .common => c ∈ comm
  | .caller => c ∈ s.used
  | .leaving i => s.pc i = .giving c

theorem Inv.at_iff {s : State} {free : Nat → List Conn} {comm : List Conn}
    {place : Conn → Option Place} (h : Inv s free comm place) (c : Conn) (x : Place) :
    At s free comm c x ↔ place c = some x := by
  cases x with
  | pool i => exact h.mem_free i c
  | common => exact h.mem_comm c
  | caller => exact h.mem_used c
  | leaving i => exact h.giving i c

/-- Every connection ever allocated is at one place. The lists are what the pointers lead over, no
list has a connection twice, and the counters are their lengths, as `uint32_t` has them: with
fewer than `2^32` connections in all, the lengths themselves. -/
structure Conserved (s : State) (free : Nat → List Conn) (comm : List Conn) : Prop where
  pools : ∀ i, Holds s.next (s.freeHead i) (s.freeCount i) (free i)
  common : Holds s.next s.comm.freeConnections s.comm.freeConnectionN comm
  place : ∀ c ∈ s.allocated, ∃! x, At s free comm c x
  once : s.used.Nodup
  poolCount : s.allocated.length < 2 ^ 32 → ∀ i, (s.freeCount i).toNat = (free i).length
  commonCount : s.allocated.length < 2 ^ 32 → s.comm.freeConnectionN.toNat = comm.length

theorem Holds.toNat {next : Conn → Option Conn} {p : Option Conn} {n : UInt32} {l l' : List Conn}
    (h : Holds next p n l) (hsub : ∀ c ∈ l, c ∈ l') (hlen : l'.length < 2 ^ 32) :
    n.toNat = l.length := by
  have hle : l.length ≤ l'.length := (List.Nodup.subperm h.2.2 hsub).length_le
  rw [h.2.1, UInt32.toNat_ofNat', Nat.mod_eq_of_lt (by omega)]

theorem connections_conserved (as : List Act) :
    ∃ free comm, Conserved (exec step {} as) free comm := by
  obtain ⟨free, comm, place, h⟩ := inv_exec as
  refine ⟨free, comm, h.pools, h.common, ?_, h.nodup, ?_, ?_⟩
  · intro c hc
    obtain ⟨x, hx⟩ := Option.ne_none_iff_exists'.1 ((h.mem_allocated c).1 hc)
    refine ⟨x, (h.at_iff c x).2 hx, fun y hy => ?_⟩
    have hplace := (h.at_iff c y).1 hy
    rw [hx] at hplace
    exact (Option.some.inj hplace).symm
  · intro hlen i
    exact (h.pools i).toNat (fun c hc => by simp [h.mem_allocated, (h.mem_free i c).1 hc]) hlen
  · intro hlen
    exact h.common.toNat (fun c hc => by simp [h.mem_allocated, (h.mem_comm c).1 hc]) hlen

/-- Two pools, the first lends its connections to the second over the common pool. -/
example :
    let s := exec step {} [.init 0 [10, 11, 12], .get 0, .get 0, .out 1 2, .inn 0 2, .free 0 10,
      .advance 0, .advance 0, .free 0 11, .advance 0, .advance 0, .get 1, .advance 1, .advance 1]
    s.used = [11] ∧ s.freeHead 0 = some 12 ∧ s.freeHead 1 = some 10 ∧ s.freeCount 1 = 1 ∧
      s.comm.freeConnections = none := by decide

end ConnPool
end Shs
