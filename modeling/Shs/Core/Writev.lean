import Mathlib.Data.List.TakeWhile
import Shs.Core.Chains

/-!
# Core.Writev

`sysio_writev_chain`: memory buffers at the front of a chain are packed into the vector of one
`writev` call, and the chain is moved on by what the call took. A byte is known by its place, so
that what is said of places holds for every contents of the memory and of the file.

Packing puts a buffer behind the one before it when both start at one address, where it should look
at the end of the one before it; and a chain whose memory buffers are all empty is given up, file
buffers included. A turn of the loop that does neither is right.
-/

namespace Shs
namespace Writev

open Chains

/-- Where a byte to be written stands. -/
inductive Loc where
  | mem (a : Nat)
  | file (offset : Nat)
  deriving DecidableEq, Repr

/-- `n` bytes from `a` on. -/
def span (f : Nat → Loc) (a n : Nat) : List Loc := (List.range' a n).map f

def locs (b : BufferT) : List Loc :=
  if b.memory then span .mem b.pos (b.size) else span .file b.filePos (b.size)

/-- The bytes pending in a chain. -/
def pending (ch : List BufferT) : List Loc := ch.flatMap locs

theorem advance_mapped {b : BufferT} {n : Nat} (h : b.pos + n < b.last) : b.pos < b.last := by
  omega

theorem advance_ordered {b : BufferT} {n : Nat} (hm : b.memory = true) (h : n < b.size) :
    b.pos + n ≤ b.last := by
  rw [BufferT.size, if_pos hm] at h
  omega

theorem advance_fileOrdered {b : BufferT} {n : Nat} (hm : ¬ b.memory = true)
    (h : n < b.size) : b.filePos + n ≤ b.fileLast := by
  rw [BufferT.size, if_neg hm] at h
  omega

/-- `pos += n`, or `file_pos += n`. -/
def advance (b : BufferT) (n : Nat) (h : n < b.size) : BufferT :=
  if hm : b.memory = true then
    { b with
      pos := b.pos + n
      ordered := advance_ordered hm h
      mapped := fun h₁ h₂ => Nat.add_pos_left (b.mapped h₁ (advance_mapped h₂)) n }
  else { b with filePos := b.filePos + n, fileOrdered := advance_fileOrdered hm h }

/-- `chain_write_update`. The links that it leaves behind are emptied; they are not part of the
result. -/
def chainWriteUpdate : List BufferT → Nat → List BufferT
  | [], _ => []
  | b :: bs, size =>
    if size > 0 then
      if h : size < b.size then advance b size h :: bs
      else chainWriteUpdate bs (size - b.size)
    else b :: bs

def SHS_MAX_LIMIT : Nat := 2147479552

/-- `SHS_IOV_MAX` is not above 64. -/
def SHS_IOVS_MAX : Nat := 32

/-- `sysio_vec`. -/
structure Iov where
  base : Nat
  len  : Nat
  deriving DecidableEq, Repr

/-- The loop of `sysio_pack_chain_to_iovs`. The vector is kept with its last entry first; there is
no result when the entry in front of the first one would be written. -/
def packLoop (limit : Nat) : List BufferT → List Iov → Nat → Nat → Option (List Iov × Nat)
  | [], iovs, lastSize, _ => some (iovs, lastSize)
  | b :: bs, iovs, lastSize, lastPos =>
    if iovs.length < SHS_IOVS_MAX ∧ lastSize < limit then
      if b.memory = false then some (iovs, lastSize)
      else if b.size = 0 then packLoop limit bs iovs lastSize lastPos
      else
        let bsize := if lastSize + b.size > limit then limit - lastSize else b.size
        if lastPos ≠ b.pos then
          packLoop limit bs (⟨b.pos, bsize⟩ :: iovs) (lastSize + bsize) b.pos
        else
          match iovs with
          | [] => none
          | v :: vs => packLoop limit bs (⟨v.base, v.len + bsize⟩ :: vs) (lastSize + bsize) b.pos
    else some (iovs, lastSize)

/-- `sysio_pack_chain_to_iovs`: the vector and the new `*last_size`. -/
def sysioPackChainToIovs (ch : List BufferT) (lastSize limit : Nat) : Option (List Iov × Nat) :=
  (packLoop limit ch [] lastSize 0).map fun r => (r.1.reverse, r.2)

/-- What a call of `writev` does. It takes no more than it is given. -/
inductive Outcome where
  | takes (n : Nat)
  | eintr
  | eagain
  | fails
  deriving DecidableEq, Repr

/-- `sysio_writev_iovs`: a number of bytes, `SHS_AGAIN` or `SHS_ERROR`. -/
inductive Sent where
  | bytes (n : Nat)
  | again
  | error
  deriving DecidableEq, Repr

def iovLocs (iovs : List Iov) : List Loc := iovs.flatMap fun v => span .mem v.base v.len

/-- `sysio_writev_iovs`, with the outcomes that are left; none when there are too few. -/
def sysioWritevIovs (iovs : List Iov) : List Outcome → Option (Sent × List Outcome)
  | [] => none
  | .takes n :: os =>
    let rc := min n (iovLocs iovs).length
    if rc > 0 then some (.bytes rc, os) else some (.error, os)
  | .eintr :: os => sysioWritevIovs iovs os
  | .eagain :: os => some (.again, os)
  | .fails :: os => some (.error, os)

/-- The pointer that `sysio_writev_chain` returns; the empty chain is `NULL`. -/
inductive Ret where
  | chain (ch : List BufferT)
  | chainError

/-- A turn of the loop: the chain in front of it, and how many bytes `writev` takes. -/
structure Turn where
  chain : List BufferT
  sent  : Nat

/-- What a call returns, the bytes that `writev` took, `wev->ready`, and the turns of the loop. -/
structure Result where
  ret      : Ret
  accepted : List Loc := []
  ready    : Bool := true
  turns    : List Turn := []

/-- The loop of `sysio_writev_chain`; none when fuel or outcomes run out. -/
def writevLoop (limit : Nat) : Nat → List BufferT → Nat → List Outcome → Option Result
  | 0, _, _, _ => none
  | _ + 1, [], _, _ => some { ret := .chain [] }
  | fuel + 1, b :: bs, packallSize, os =>
    if packallSize < limit then
      if b.memory = false then some { ret := .chain (b :: bs) }
      else do
        let (iovs, packallSize) ← sysioPackChainToIovs (b :: bs) packallSize limit
        -- `0 == pack_count`
        if iovs = [] then pure { ret := .chain [], turns := [⟨b :: bs, 0⟩] }
        else
          match ← sysioWritevIovs iovs os with
          | (.bytes n, os) =>
            let cl := chainWriteUpdate (b :: bs) n
            let accepted := (iovLocs iovs).take n
            if packallSize ≥ limit then
              pure { ret := .chain cl, accepted := accepted, turns := [⟨b :: bs, n⟩] }
            else do
              let r ← writevLoop limit fuel cl packallSize os
              pure { r with accepted := accepted ++ r.accepted, turns := ⟨b :: bs, n⟩ :: r.turns }
          | (.again, _) => pure { ret := .chain (b :: bs), ready := false, turns := [⟨b :: bs, 0⟩] }
          | (.error, _) => pure { ret := .chainError, turns := [⟨b :: bs, 0⟩] }
    else some { ret := .chain (b :: bs) }

/-- A limit of zero, or one that is too large, stands for the largest one. -/
def limitOf (limit : Nat) : Nat :=
  if limit = 0 ∨ limit > SHS_MAX_LIMIT then SHS_MAX_LIMIT else limit

/-- `c->write` and `wev->ready`. -/
structure Event where
  ready : Bool

structure Conn where
  write : Option Event

def sysioWritevChain (fuel : Nat) (c : Option Conn) (ch : List BufferT) (limit : Nat)
    (os : List Outcome) : Option Result :=
  if ch = [] then some { ret := .chain [] }
  else
    match c with
    | none => some { ret := .chainError }
    | some c =>
      match c.write with
      | none => some { ret := .chainError }
      | some wev =>
        if wev.ready = false then some { ret := .chain ch, ready := false }
        else writevLoop (limitOf limit) fuel ch 0 os

/-! ## Places -/

section Places

variable {f : Nat → Loc} {b : BufferT} {ch : List BufferT} {n : Nat}

@[simp] theorem span_length (f : Nat → Loc) (a n : Nat) : (span f a n).length = n := by
  rw [span, List.length_map, List.length_range']

theorem span_add (f : Nat → Loc) (a m n : Nat) : span f a (m + n) = span f a m ++ span f (a + m) n := by
  rw [span, span, span, ← List.map_append, List.range'_append_1]

theorem take_span (f : Nat → Loc) (a : Nat) {k n : Nat} (h : k ≤ n) :
    (span f a n).take k = span f a k := by
  obtain ⟨d, rfl⟩ := Nat.exists_eq_add_of_le h
  rw [span_add, List.take_left' (span_length f a k)]

@[simp] theorem locs_length (b : BufferT) : (locs b).length = b.size := by
  unfold locs
  split
  · exact span_length _ _ _
  · exact span_length _ _ _

@[simp] theorem pending_nil : pending [] = [] := rfl

@[simp] theorem pending_cons (b : BufferT) (bs : List BufferT) :
    pending (b :: bs) = locs b ++ pending bs := List.flatMap_cons

theorem locs_memory (h : b.memory = true) : locs b = span .mem b.pos (b.size) := if_pos h

theorem advance_memory (h : n < b.size) : (advance b n h).memory = b.memory := by
  unfold advance
  split
  · rfl
  · rfl

theorem locs_advance (h : n < b.size) : locs b = (locs b).take n ++ locs (advance b n h) := by
  obtain ⟨d, hd⟩ := Nat.exists_eq_add_of_le (Nat.le_of_lt h)
  by_cases hm : b.memory = true
  · have hsize : (advance b n h).size = d := by
      rw [BufferT.size, if_pos hm] at hd
      rw [BufferT.size, advance, dif_pos hm, if_pos hm]
      show b.last - (b.pos + n) = d
      omega
    have hpos : (advance b n h).pos = b.pos + n := by rw [advance, dif_pos hm]
    rw [locs_memory hm, locs_memory (by rw [advance_memory, hm]), hsize, hpos,
      take_span _ _ (Nat.le_of_lt h), hd, span_add]
  · have hsize : (advance b n h).size = d := by
      rw [BufferT.size, if_neg hm] at hd
      rw [BufferT.size, advance, dif_neg hm, if_neg hm]
      show b.fileLast - (b.filePos + n) = d
      omega
    have hpos : (advance b n h).filePos = b.filePos + n := by rw [advance, dif_neg hm]
    rw [locs, if_neg hm, locs, if_neg (by rw [advance_memory]; exact hm), hsize, hpos,
      take_span _ _ (Nat.le_of_lt h), hd, span_add]

/-- The update moves the chain on by the number of bytes. -/
theorem pending_update (ch : List BufferT) (n : Nat) :
    pending ch = (pending ch).take n ++ pending (chainWriteUpdate ch n) := by
  induction ch generalizing n with
  | nil => simp [chainWriteUpdate]
  | cons b bs ih =>
    rw [chainWriteUpdate]
    by_cases h0 : n > 0
    · rw [if_pos h0]
      split
      · rename_i h
        rw [pending_cons, pending_cons, List.take_append_of_le_length (by rw [locs_length]; omega),
          ← List.append_assoc, ← locs_advance h]
      · rename_i h
        have hle : (locs b).length ≤ n := by rw [locs_length]; omega
        rw [pending_cons, List.take_append, List.take_of_length_le hle, locs_length,
          List.append_assoc, ← ih]
    · rw [if_neg h0, Nat.eq_zero_of_not_pos h0, List.take_zero, List.nil_append]

def files (ch : List BufferT) : List BufferT := ch.filter fun b => !b.memory

/-- The memory buffers in front of the first file buffer. -/
def front (ch : List BufferT) : List BufferT := ch.takeWhile fun b => b.memory

theorem front_memory {b : BufferT} (h : b.memory = true) (bs : List BufferT) :
    front (b :: bs) = b :: front bs := by
  rw [front, List.takeWhile_cons_of_pos h, front]

theorem front_file {b : BufferT} (h : b.memory = false) (bs : List BufferT) :
    front (b :: bs) = [] := by
  rw [front, List.takeWhile_cons_of_neg (by rw [h]; decide)]

/-- An update by no more bytes than stand in memory at the front passes no file buffer. -/
theorem files_update (h : n ≤ (pending (front ch)).length) :
    files (chainWriteUpdate ch n) = files ch := by
  induction ch generalizing n with
  | nil => rfl
  | cons b bs ih =>
    rw [chainWriteUpdate]
    by_cases h0 : n > 0
    · rw [if_pos h0]
      cases hm : b.memory with
      | false =>
        rw [front_file hm, pending_nil, List.length_nil] at h
        omega
      | true =>
        rw [front_memory hm, pending_cons, List.length_append, locs_length] at h
        have hfiles : files (b :: bs) = files bs := List.filter_cons_of_neg (by rw [hm]; decide)
        rw [hfiles]
        split
        · rename_i hlt
          exact List.filter_cons_of_neg (by rw [advance_memory, hm]; decide)
        · exact ih (by omega)
    · rw [if_neg h0]

end Places

/-! ## Packing -/

/-- The bytes at the front of a chain up to the first buffer that starts where the one before it
starts. Empty buffers do not count; `lastPos` is where the last buffer starts. -/
def cleanBytes : Nat → List BufferT → Nat
  | _, [] => 0
  | lastPos, b :: bs =>
    if b.memory = false then 0
    else if b.size = 0 then cleanBytes lastPos bs
    else if b.pos = lastPos then 0
    else b.size + cleanBytes b.pos bs

/-- The last entry of the vector is the buffer that starts at `lastPos`. -/
def Joined : List Iov → Nat → Prop
  | [], lastPos => lastPos = 0
  | v :: _, lastPos => v.base = lastPos ∧ 0 < v.len

/-- What packing a chain adds to a vector: the places `d`. -/
structure Packs (limit : Nat) (ch : List BufferT) (iovs : List Iov) (lastSize lastPos : Nat)
    (iovs' : List Iov) (lastSize' : Nat) (d : List Loc) : Prop where
  locs  : iovLocs iovs'.reverse = iovLocs iovs.reverse ++ d
  size  : lastSize' = lastSize + d.length
  le    : lastSize' ≤ limit
  front : d.length ≤ (pending (front ch)).length
  right : ∀ k ≤ d.length, d.take k = (pending ch).take k ↔ k ≤ cleanBytes lastPos ch
  empty : iovs' = [] → iovs = [] ∧ (lastSize < limit → ∀ b ∈ Writev.front ch, b.size = 0)
  grown : iovs = [] → iovs' ≠ [] → d ≠ []

section Pack

variable {limit : Nat} {ch : List BufferT} {b : BufferT} {iovs iovs' : List Iov}
variable {lastSize lastPos lastSize' : Nat} {d : List Loc}

@[simp] theorem iovLocs_append (vs ws : List Iov) : iovLocs (vs ++ ws) = iovLocs vs ++ iovLocs ws :=
  List.flatMap_append

@[simp] theorem iovLocs_single (v : Iov) : iovLocs [v] = span .mem v.base v.len :=
  List.flatMap_singleton _ v

/-- Nothing more is packed. -/
theorem Packs.stop (hle : lastSize ≤ limit)
    (h : iovs = [] → lastSize < limit → ∀ b ∈ Writev.front ch, b.size = 0) :
    Packs limit ch iovs lastSize lastPos iovs lastSize [] := by
  refine ⟨by simp, by simp, hle, by simp, fun k hk => ?_, fun hnil => ⟨hnil, h hnil⟩,
    fun hnil hne => absurd hnil hne⟩
  have hk0 : k = 0 := Nat.le_zero.1 hk
  simp [hk0]

theorem Packs.skip (hm : b.memory = true) (h0 : b.size = 0)
    (h : Packs limit ch iovs lastSize lastPos iovs' lastSize' d) :
    Packs limit (b :: ch) iovs lastSize lastPos iovs' lastSize' d := by
  have hlocs : Writev.locs b = [] := List.eq_nil_of_length_eq_zero (by rw [locs_length, h0])
  have hclean : cleanBytes lastPos (b :: ch) = cleanBytes lastPos ch := by
    rw [cleanBytes, if_neg (by rw [hm]; decide), if_pos h0]
  refine ⟨h.locs, h.size, h.le, ?_, ?_, fun hnil => ⟨(h.empty hnil).1, fun hlt => ?_⟩, h.grown⟩
  · rw [front_memory hm, pending_cons, hlocs, List.nil_append]
    exact h.front
  · rw [pending_cons, hlocs, List.nil_append, hclean]
    exact h.right
  · rw [front_memory hm]
    exact List.forall_mem_cons.2 ⟨h0, (h.empty hnil).2 hlt⟩

/-- What fits of a buffer below the limit. -/
theorem fitting {size bsize : Nat} (hlt : lastSize < limit) (h0 : size ≠ 0)
    (hb : bsize = if lastSize + size > limit then limit - lastSize else size) :
    0 < bsize ∧ bsize ≤ size ∧ lastSize + bsize ≤ limit ∧
      (bsize = size ∨ lastSize + bsize = limit) := by
  split at hb
  · omega
  · omega

theorem Packs.fresh {bsize : Nat} (hm : b.memory = true) (h0 : b.size ≠ 0)
    (hlt : lastSize < limit)
    (hb : bsize = if lastSize + b.size > limit then limit - lastSize else b.size)
    (hpos : b.pos ≠ lastPos)
    (h : Packs limit ch (⟨b.pos, bsize⟩ :: iovs) (lastSize + bsize) b.pos iovs' lastSize' d) :
    Packs limit (b :: ch) iovs lastSize lastPos iovs' lastSize' (span .mem b.pos bsize ++ d) := by
  obtain ⟨hpos', hle, -, hfit⟩ := fitting hlt h0 hb
  have hsize := h.size
  have hlimit := h.le
  have hclean : cleanBytes lastPos (b :: ch) = b.size + cleanBytes b.pos ch := by
    rw [cleanBytes, if_neg (by rw [hm]; decide), if_neg h0, if_neg hpos]
  refine ⟨?_, ?_, h.le, ?_, fun k hk => ?_, fun hnil => ?_, fun _ _ hd => ?_⟩
  · rw [h.locs, List.reverse_cons, iovLocs_append, iovLocs_single, List.append_assoc]
  · rw [List.length_append, span_length, hsize, Nat.add_assoc]
  · rw [front_memory hm, pending_cons, List.length_append, List.length_append, span_length,
      locs_length]
    exact Nat.add_le_add hle h.front
  · rw [List.length_append, span_length] at hk
    rw [pending_cons, locs_memory hm, hclean]
    rcases Nat.lt_or_ge bsize k with hgt | hfew
    · -- the buffer is packed whole
      have hwhole : bsize = b.size := by omega
      rw [hwhole] at hk hgt ⊢
      rw [List.take_append, List.take_append, List.take_of_length_le (by rw [span_length]; omega),
        span_length, List.append_right_inj, h.right _ (by omega)]
      omega
    · rw [List.take_append_of_le_length (by rw [span_length]; exact hfew),
        List.take_append_of_le_length (by rw [span_length]; omega), take_span _ _ hfew,
        take_span _ _ (by omega)]
      exact iff_of_true rfl (by omega)
  · exact absurd (h.empty hnil).1 (List.cons_ne_nil _ _)
  · have hlength := congrArg List.length hd
    rw [List.length_append, span_length, List.length_nil] at hlength
    omega

theorem Packs.merge {bsize : Nat} {v : Iov} {vs : List Iov} (hm : b.memory = true)
    (h0 : b.size ≠ 0) (hlt : lastSize < limit)
    (hb : bsize = if lastSize + b.size > limit then limit - lastSize else b.size)
    (hbase : v.base = b.pos) (hlen : 0 < v.len)
    (h : Packs limit ch (⟨v.base, v.len + bsize⟩ :: vs) (lastSize + bsize) b.pos iovs' lastSize' d) :
    Packs limit (b :: ch) (v :: vs) lastSize b.pos iovs' lastSize'
      (span .mem (v.base + v.len) bsize ++ d) := by
  obtain ⟨hpos', hle, -, -⟩ := fitting hlt h0 hb
  have hclean : cleanBytes b.pos (b :: ch) = 0 := by
    rw [cleanBytes, if_neg (by rw [hm]; decide), if_neg h0, if_pos rfl]
  refine ⟨?_, ?_, h.le, ?_, fun k hk => ?_, fun hnil => ?_,
    fun hnil => absurd hnil (List.cons_ne_nil v vs)⟩
  · rw [h.locs, List.reverse_cons, List.reverse_cons, iovLocs_append, iovLocs_append,
      iovLocs_single, iovLocs_single, span_add, List.append_assoc, List.append_assoc,
      List.append_assoc]
  · rw [List.length_append, span_length, h.size, Nat.add_assoc]
  · rw [front_memory hm, pending_cons, List.length_append, List.length_append, span_length,
      locs_length]
    exact Nat.add_le_add hle h.front
  · rw [hclean, Nat.le_zero]
    cases k with
    | zero => simp
    | succ k =>
      -- the first byte comes from behind the last entry, not from the start of the buffer
      obtain ⟨n, rfl⟩ := Nat.exists_eq_succ_of_ne_zero (Nat.ne_of_gt hpos')
      obtain ⟨m, hsize⟩ := Nat.exists_eq_succ_of_ne_zero h0
      refine iff_of_false (fun heq => ?_) (Nat.succ_ne_zero k)
      rw [pending_cons, locs_memory hm, hsize] at heq
      have hhead : Loc.mem (v.base + v.len) = Loc.mem b.pos := List.head_eq_of_cons_eq heq
      rw [Loc.mem.injEq] at hhead
      omega
  · exact absurd (h.empty hnil).1 (List.cons_ne_nil _ _)

theorem packLoop_spec (hjoined : Joined iovs lastPos) (hle : lastSize ≤ limit) :
    ∃ iovs' lastSize' d, packLoop limit ch iovs lastSize lastPos = some (iovs', lastSize') ∧
      Packs limit ch iovs lastSize lastPos iovs' lastSize' d := by
  induction ch generalizing iovs lastSize lastPos with
  | nil => exact ⟨iovs, lastSize, [], rfl, Packs.stop hle fun _ _ b hb => by cases hb⟩
  | cons b bs ih =>
    rw [packLoop]
    by_cases hroom : iovs.length < SHS_IOVS_MAX ∧ lastSize < limit
    · rw [if_pos hroom]
      obtain ⟨-, hlt⟩ := hroom
      cases hm : b.memory with
      | false =>
        refine ⟨iovs, lastSize, [], if_pos rfl, Packs.stop hle fun _ _ c hc => ?_⟩
        rw [front_file hm] at hc
        cases hc
      | true =>
        rw [if_neg (by decide)]
        by_cases h0 : b.size = 0
        · rw [if_pos h0]
          obtain ⟨iovs', lastSize', d, hrun, hpacks⟩ := ih hjoined hle
          exact ⟨iovs', lastSize', d, hrun, hpacks.skip hm h0⟩
        · rw [if_neg h0]
          have hfit := fitting hlt h0 rfl
          by_cases hpos : lastPos ≠ b.pos
          · obtain ⟨iovs', lastSize', d, hrun, hpacks⟩ := @ih
              (⟨b.pos, _⟩ :: iovs) _ _ ⟨rfl, hfit.1⟩ hfit.2.2.1
            exact ⟨iovs', lastSize', _, by simp only [if_pos hpos]; exact hrun,
              hpacks.fresh hm h0 hlt rfl (Ne.symm hpos)⟩
          · obtain rfl : lastPos = b.pos := not_not.1 hpos
            cases iovs with
            | nil =>
              -- a buffer with bytes does not start at the null pointer
              have hlast : b.pos < b.last := by
                rw [BufferT.size, if_pos hm] at h0
                omega
              exact absurd hjoined (Nat.ne_of_gt (b.mapped hm hlast))
            | cons v vs =>
              obtain ⟨hbase, hlen⟩ := hjoined
              obtain ⟨iovs', lastSize', d, hrun, hpacks⟩ := @ih
                (⟨v.base, v.len + _⟩ :: vs) _ _ ⟨hbase, Nat.add_pos_left hlen _⟩ hfit.2.2.1
              exact ⟨iovs', lastSize', _, by simp only [if_neg hpos]; exact hrun,
                hpacks.merge hm h0 hlt rfl hbase hlen⟩
    · rw [if_neg hroom]
      refine ⟨iovs, lastSize, [], rfl, Packs.stop hle fun hnil hlt => absurd ⟨?_, hlt⟩ hroom⟩
      rw [hnil]
      decide

/-- What one packing puts into the vector. -/
theorem sysioPackChainToIovs_spec (hle : lastSize ≤ limit) :
    ∃ iovs' lastSize', sysioPackChainToIovs ch lastSize limit = some (iovs', lastSize') ∧
      lastSize' = lastSize + (iovLocs iovs').length ∧ lastSize' ≤ limit ∧
      (iovLocs iovs').length ≤ (pending (front ch)).length ∧
      (∀ k ≤ (iovLocs iovs').length,
        (iovLocs iovs').take k = (pending ch).take k ↔ k ≤ cleanBytes 0 ch) ∧
      (lastSize < limit → (iovs' = [] ↔ ∀ b ∈ front ch, b.size = 0)) := by
  obtain ⟨iovs', lastSize', d, hrun, h⟩ := @packLoop_spec limit ch [] lastSize 0 rfl hle
  have hlocs : iovLocs iovs'.reverse = d := by rw [h.locs]; rfl
  refine ⟨iovs'.reverse, lastSize', by rw [sysioPackChainToIovs, hrun]; rfl, ?_⟩
  rw [hlocs]
  refine ⟨h.size, h.le, h.front, h.right, fun hlt => ?_⟩
  rw [List.reverse_eq_nil_iff]
  constructor
  · exact fun hnil => (h.empty hnil).2 hlt
  · intro hempty
    by_contra hne
    refine h.grown rfl hne (List.eq_nil_of_length_eq_zero (Nat.le_zero.1 ?_))
    have hnone : pending (front ch) = [] :=
      List.flatMap_eq_nil_iff.2 fun b hb =>
        List.eq_nil_of_length_eq_zero (by rw [locs_length, hempty b hb])
    have hfront := h.front
    rwa [hnone] at hfront

end Pack

/-! ## Gathered writes -/

theorem limitOf_le {limit : Nat} (h : limit ≠ 0) : limitOf limit ≤ limit := by
  unfold limitOf
  split
  · rename_i hbig
    exact Nat.le_of_lt (hbig.resolve_left h)
  · exact Nat.le_refl limit

/-- What was accepted, in front of what is still pending, is what was pending; no more than the
limit was accepted, and the file buffers are all there. -/
structure Gathers (limit : Nat) (ch : List BufferT) (accepted : List Loc)
    (rest : List BufferT) : Prop where
  bytes   : accepted ++ pending rest = pending ch
  largest : accepted.length ≤ SHS_MAX_LIMIT
  atMost  : limit ≠ 0 → accepted.length ≤ limit
  files   : files rest = files ch

/-- `writev` takes no bytes behind the start of a buffer that starts where the one before it starts,
and memory buffers without bytes are not followed by a file buffer. -/
structure Turn.Ok (t : Turn) : Prop where
  clean : t.sent ≤ cleanBytes 0 t.chain
  live  : (∀ b ∈ front t.chain, b.size = 0) → files t.chain = []

instance (t : Turn) : Decidable t.Ok :=
  decidable_of_iff (t.sent ≤ cleanBytes 0 t.chain ∧
    ((∀ b ∈ front t.chain, b.size = 0) → files t.chain = []))
    ⟨fun h => ⟨h.1, h.2⟩, fun h => ⟨h.clean, h.live⟩⟩

section Loop

variable {limit : Nat} {ch rest : List BufferT} {packed : Nat} {os : List Outcome} {r : Result}

theorem sysioWritevIovs_bytes {iovs : List Iov} {n : Nat} {os' : List Outcome}
    (h : sysioWritevIovs iovs os = some (.bytes n, os')) :
    0 < n ∧ n ≤ (iovLocs iovs).length := by
  induction os with
  | nil => cases h
  | cons o os ih =>
    cases o with
    | takes k =>
      simp only [sysioWritevIovs] at h
      split at h
      · rename_i hpos
        cases h
        exact ⟨hpos, Nat.min_le_right _ _⟩
      · cases h
    | eintr => exact ih h
    | eagain => cases h
    | fails => cases h

/-- A chain in front of which there is nothing to write. -/
theorem gathers_nil (h : ∀ b ∈ front ch, b.size = 0) :
    ([] ++ pending [] = pending ch ∧ files [] = files ch) ↔ files ch = [] := by
  refine ⟨fun hg => hg.2.symm, fun hfiles => ⟨?_, hfiles.symm⟩⟩
  have hall : front ch = ch := by
    refine List.takeWhile_eq_self_iff.2 fun b hb => ?_
    by_contra hm
    exact List.filter_eq_nil_iff.1 hfiles b hb (by simpa using hm)
  rw [hall] at h
  exact (List.flatMap_eq_nil_iff.2 fun b hb =>
    List.eq_nil_of_length_eq_zero (by rw [locs_length, h b hb])).symm

/-- A turn that takes `n` bytes, and what follows it. -/
theorem gathers_sent {l acc : List Loc} {n clean : Nat} (hn : n ≤ l.length)
    (hright : l.take n = (pending ch).take n ↔ n ≤ clean) (hfront : n ≤ (pending (front ch)).length) :
    (l.take n ++ acc ++ pending rest = pending ch ∧ files rest = files ch) ↔
      n ≤ clean ∧ (acc ++ pending rest = pending (chainWriteUpdate ch n) ∧
        files rest = files (chainWriteUpdate ch n)) := by
  have hpending := pending_update ch n
  rw [files_update hfront, ← hright, List.append_assoc, ← and_assoc]
  refine and_congr_left fun _ => ?_
  constructor
  · intro heq
    have hlen : (pending ch).length = n + (acc ++ pending rest).length := by
      rw [← heq, List.length_append, List.length_take_of_le hn]
    have htake : (l.take n).length = ((pending ch).take n).length := by
      rw [List.length_take_of_le hn, List.length_take_of_le (by omega)]
    exact List.append_inj (heq.trans hpending) htake
  · rintro ⟨htake, hrest⟩
    rw [htake, hrest, ← hpending]

theorem writevLoop_spec {fuel : Nat} (hle : packed ≤ limit)
    (hrun : writevLoop limit fuel ch packed os = some r) (hret : r.ret = .chain rest) :
    packed + r.accepted.length ≤ limit ∧
      ((r.accepted ++ pending rest = pending ch ∧ files rest = files ch) ↔ ∀ t ∈ r.turns, t.Ok) := by
  induction fuel generalizing ch packed os r with
  | zero => cases hrun
  | succ fuel ih =>
    cases ch with
    | nil =>
      cases hrun
      cases hret
      exact ⟨by simpa using hle, iff_of_true ⟨rfl, rfl⟩ (by simp)⟩
    | cons b bs =>
      rw [writevLoop] at hrun
      by_cases hlt : packed < limit
      · rw [if_pos hlt] at hrun
        cases hm : b.memory with
        | false =>
          rw [hm, if_pos rfl] at hrun
          cases hrun
          cases hret
          exact ⟨by simpa using hle, iff_of_true ⟨rfl, rfl⟩ (by simp)⟩
        | true =>
          rw [hm, if_neg (by decide)] at hrun
          obtain ⟨iovs, packed', hpack, hsize, hle', hfront, hright, hempty⟩ :=
            @sysioPackChainToIovs_spec limit (b :: bs) packed hle
          simp only [hpack, Option.bind_eq_bind, Option.bind_some, Option.pure_def] at hrun
          by_cases hnil : iovs = []
          · rw [if_pos hnil] at hrun
            cases hrun
            cases hret
            have hfront0 := (hempty hlt).1 hnil
            refine ⟨by simpa using hle, (gathers_nil hfront0).trans ?_⟩
            rw [List.forall_mem_singleton]
            exact ⟨fun hf => ⟨Nat.zero_le _, fun _ => hf⟩, fun hok => hok.live hfront0⟩
          · rw [if_neg hnil] at hrun
            have hlive : ¬ ∀ c ∈ front (b :: bs), c.size = 0 :=
              fun h => hnil ((hempty hlt).2 h)
            cases hsent : sysioWritevIovs iovs os with
            | none =>
              rw [hsent] at hrun
              cases hrun
            | some p =>
              obtain ⟨sent, os'⟩ := p
              simp only [hsent, Option.bind_some] at hrun
              cases sent with
              | bytes n =>
                obtain ⟨-, hn⟩ := sysioWritevIovs_bytes hsent
                have hok : ∀ t : Turn, t = ⟨b :: bs, n⟩ → (t.Ok ↔ n ≤ cleanBytes 0 (b :: bs)) := by
                  rintro t rfl
                  exact ⟨fun h => h.clean, fun h => ⟨h, fun h0 => absurd h0 hlive⟩⟩
                simp only at hrun
                split at hrun
                · cases hrun
                  cases hret
                  have hgather := @gathers_sent _ (chainWriteUpdate (b :: bs) n) _ [] _ _
                    hn (hright n hn) (hn.trans hfront)
                  rw [List.append_nil] at hgather
                  refine ⟨?_, hgather.trans ?_⟩
                  · show packed + ((iovLocs iovs).take n).length ≤ limit
                    rw [List.length_take_of_le hn]
                    omega
                  · rw [List.forall_mem_singleton, hok _ rfl]
                    exact ⟨fun h => h.1, fun h => ⟨h, rfl, rfl⟩⟩
                · cases hrest : writevLoop limit fuel (chainWriteUpdate (b :: bs) n) packed' os' with
                  | none =>
                    rw [hrest] at hrun
                    cases hrun
                  | some r' =>
                    rw [hrest] at hrun
                    cases hrun
                    obtain ⟨hmost, hiff⟩ := ih hle' hrest hret
                    refine ⟨?_, ?_⟩
                    · show packed + ((iovLocs iovs).take n ++ r'.accepted).length ≤ limit
                      rw [List.length_append, List.length_take_of_le hn]
                      omega
                    · rw [List.forall_mem_cons, hok _ rfl, ← hiff]
                      exact gathers_sent hn (hright n hn) (hn.trans hfront)
              | again =>
                cases hrun
                cases hret
                refine ⟨by simpa using hle, iff_of_true ⟨rfl, rfl⟩ ?_⟩
                rw [List.forall_mem_singleton]
                exact ⟨Nat.zero_le _, fun h0 => absurd h0 hlive⟩
              | error =>
                cases hrun
                cases hret
      · rw [if_neg hlt] at hrun
        cases hrun
        cases hret
        exact ⟨by simpa using hle, iff_of_true ⟨rfl, rfl⟩ (by simp)⟩

theorem limitOf_le_max (limit : Nat) : limitOf limit ≤ SHS_MAX_LIMIT := by
  unfold limitOf
  split
  · exact Nat.le_refl _
  · omega

/-- A gathered write that returns a chain is right exactly when all its turns are. -/
theorem writev_chain_gathers_iff {fuel : Nat} {c : Option Conn}
    (hrun : sysioWritevChain fuel c ch limit os = some r) (hret : r.ret = .chain rest) :
    Gathers limit ch r.accepted rest ↔ ∀ t ∈ r.turns, t.Ok := by
  have hmain : r.accepted.length ≤ limitOf limit ∧
      ((r.accepted ++ pending rest = pending ch ∧ files rest = files ch) ↔
        ∀ t ∈ r.turns, t.Ok) := by
    unfold sysioWritevChain at hrun
    split at hrun
    · rename_i hnil
      cases hrun
      cases hret
      rw [hnil]
      exact ⟨Nat.zero_le _, iff_of_true ⟨rfl, rfl⟩ (by simp)⟩
    · split at hrun
      · cases hrun
        cases hret
      · split at hrun
        · cases hrun
          cases hret
        · split at hrun
          · cases hrun
            cases hret
            exact ⟨Nat.zero_le _, iff_of_true ⟨rfl, rfl⟩ (by simp)⟩
          · have hloop := writevLoop_spec (Nat.zero_le _) hrun hret
            rwa [Nat.zero_add] at hloop
  obtain ⟨hmost, hiff⟩ := hmain
  rw [← hiff]
  exact ⟨fun h => ⟨h.bytes, h.files⟩, fun h => ⟨h.1, hmost.trans (limitOf_le_max limit),
    fun h0 => hmost.trans (limitOf_le h0), h.2⟩⟩

end Loop

theorem none_ordered : 0 ≤ 0 := Nat.le_refl 0

theorem none_bounded : 0 < 2 ^ 63 := Nat.two_pow_pos 63

theorem null_bounded : 0 < 2 ^ 64 := Nat.two_pow_pos 64

theorem memoryBuffer_mapped (pos len : Nat) (hpos : 0 < pos) :
    true = true → pos < pos + len → 0 < pos := fun _ _ => hpos

theorem fileBuffer_mapped : false = true → 0 < 0 → 0 < 0 := fun _ h => h

def memoryBuffer (pos len : Nat) (hpos : 0 < pos) (h : pos + len < 2 ^ 64) : BufferT where
  memory := true
  pos := pos
  last := pos + len
  filePos := 0
  fileLast := 0
  ordered := Nat.le_add_right pos len
  mapped := memoryBuffer_mapped pos len hpos
  bounded := h
  fileOrdered := none_ordered
  fileBounded := none_bounded

def fileBuffer (len : Nat) (h : len < 2 ^ 63) : BufferT where
  memory := false
  pos := 0
  last := 0
  filePos := 0
  fileLast := len
  ordered := none_ordered
  mapped := fileBuffer_mapped
  bounded := null_bounded
  fileOrdered := Nat.zero_le len
  fileBounded := h

def writable : Conn := ⟨some ⟨true⟩⟩

/-- Two buffers and a file, of which one call of `writev` takes a part. -/
theorem writev_chain_gathers_three :
    ∃ r rest, sysioWritevChain 2 (some writable)
        [memoryBuffer 4096 4 (by decide) (by decide), memoryBuffer 8192 4 (by decide) (by decide),
          fileBuffer 4 (by decide)] 0 [.takes 6, .eagain] = some r ∧ r.ret = .chain rest ∧
      Gathers 0 [memoryBuffer 4096 4 (by decide) (by decide),
        memoryBuffer 8192 4 (by decide) (by decide), fileBuffer 4 (by decide)] r.accepted rest := by
  have hmade : ∃ r rest, sysioWritevChain 2 (some writable)
        [memoryBuffer 4096 4 (by decide) (by decide), memoryBuffer 8192 4 (by decide) (by decide),
          fileBuffer 4 (by decide)] 0 [.takes 6, .eagain] = some r ∧ r.ret = .chain rest ∧
      ∀ t ∈ r.turns, t.Ok := ⟨_, _, rfl, rfl, by decide⟩
  obtain ⟨r, rest, hrun, hret, hturns⟩ := hmade
  exact ⟨r, rest, hrun, hret, (writev_chain_gathers_iff hrun hret).2 hturns⟩

/-- The second buffer starts where the first one does: it is not written, and five bytes behind the
first one are. Behind an empty buffer, a file is forgotten. -/
theorem writev_chain_loses :
    (∃ r rest, sysioWritevChain 2 (some writable)
        [memoryBuffer 4096 10 (by decide) (by decide), memoryBuffer 4096 5 (by decide) (by decide)]
        0 [.takes 15] = some r ∧ r.ret = .chain rest ∧
      ¬ Gathers 0 [memoryBuffer 4096 10 (by decide) (by decide),
        memoryBuffer 4096 5 (by decide) (by decide)] r.accepted rest) ∧
    ∃ r rest, sysioWritevChain 2 (some writable)
        [memoryBuffer 4096 0 (by decide) (by decide), fileBuffer 5 (by decide)] 0 [] = some r ∧
      r.ret = .chain rest ∧ ¬ Gathers 0
        [memoryBuffer 4096 0 (by decide) (by decide), fileBuffer 5 (by decide)] r.accepted rest := by
  constructor
  · refine ⟨_, _, rfl, rfl, fun h => ?_⟩
    exact absurd h.bytes (by decide)
  · refine ⟨_, _, rfl, rfl, fun h => ?_⟩
    exact absurd h.bytes (by decide)

end Writev
end Shs
