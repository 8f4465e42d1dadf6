import Shs.Core.Bytes
import Shs.Lib.Chain
import Shs.Lib.Run

/-!
# Core.HashTable

The hash table of `shs_hashtable.cc`: buckets of links that carry their own keys. A link is its
address. A key is the memory at its pointer, of which the link owns the first `len` bytes; the
comparison is `memcmp` and reads as many bytes as the caller of the lookup asks for. Pointers to
the table and to links are not null.

The table is compared with the list of the links that are present, the last joined one first
(`Holds`). The chain of a bucket is the part of that list with the hash value of the bucket.
-/

namespace Shs
namespace HashTable

open Chain

/-- The fields of `shs_hashtable_link_t` that the table reads: the memory at `key`, `none` for
null, and `len`. -/
structure LinkKey where
  key : Option (Nat → Byte) := none
  len : Nat := 0

/-- The first `n` bytes of a memory. -/
def readKey (m : Nat → Byte) (n : Nat) : Bytes := (List.range n).map m

def LinkKey.bytes (k : LinkKey) : Bytes :=
  match k.key with
  | none => []
  | some m => readKey m k.len

/-- `shs_hashtable_t`, with the `next` field of every link. -/
structure Table where
  next : Nat → Option Nat := fun _ => none
  buckets : Nat → Option Nat := fun _ => none
  size : Nat
  count : Int := 0

/-- `memcmp(key, m, len) == 0`. -/
def memcmpEq (key : Bytes) (m : Nat → Byte) : Bool := readKey m key.length == key

section Operations

variable (hash : Bytes → Nat → Nat) (keys : Nat → LinkKey)

def shsHashtableJoin (t : Table) (hl : Nat) : Table :=
  let i := hash (keys hl).bytes t.size
  { t with
    next := Function.update t.next hl (t.buckets i)
    buckets := Function.update t.buckets i (some hl)
    count := toInt32 (t.count + 1) }

/-- The loop of `shs_hashtable_lookup`, for at most `n` links; `none` when it does not end or its
assertion fails. -/
def lookupWalk (next : Nat → Option Nat) (key : Bytes) : Nat → Option Nat → Option (Option Nat)
  | _, none => some none
  | 0, some _ => none
  | n + 1, some walker =>
    match (keys walker).key with
    | none => some none
    | some m =>
      if memcmpEq key m then some (some walker)
      else if next walker = some walker then none
      else lookupWalk next key n (next walker)

def shsHashtableLookup (n : Nat) (t : Table) (key : Bytes) : Option (Option Nat) :=
  lookupWalk keys t.next key n (t.buckets (hash key t.size))

/-- What the variable `link` of `shs_hashtable_remove_link` points to. -/
inductive Slot where
  | bucket (i : Nat)
  | next (walker : Nat)

def Table.read (t : Table) : Slot → Option Nat
  | .bucket i => t.buckets i
  | .next walker => t.next walker

def Table.write (t : Table) (p : Option Nat) : Slot → Table
  | .bucket i => { t with buckets := Function.update t.buckets i p }
  | .next walker => { t with next := Function.update t.next walker p }

/-- The loop of `shs_hashtable_remove_link`: where the link `hl` is found, if at all; `none` when
the loop does not end. -/
def removeWalk (t : Table) (hl : Nat) : Nat → Slot → Option (Option Slot)
  | 0, link => if t.read link = none then some none else none
  | n + 1, link =>
    match t.read link with
    | none => some none
    | some walker => if walker = hl then some (some link) else removeWalk t hl n (.next walker)

/-- A hash value kept in an `int`; `none` when the `int` is negative. -/
def intIndex (i : Nat) : Option Nat := if i % 2 ^ 32 < 2 ^ 31 then some (i % 2 ^ 32) else none

/-- `shs_hashtable_remove_link`; `none` also stands for an access in front of the buckets. -/
def shsHashtableRemoveLink (n : Nat) (t : Table) (hl : Nat) : Option Table :=
  match intIndex (hash (keys hl).bytes t.size) with
  | none => none
  | some i =>
    match removeWalk t hl n (.bucket i) with
    | none => none
    | some none => some t
    | some (some link) => some { t.write (t.next hl) link with count := toInt32 (t.count - 1) }

/-- The links of a chain of at most `n` links. -/
def chainLinks (next : Nat → Option Nat) : Nat → Option Nat → Option (List Nat)
  | _, none => some []
  | 0, some _ => none
  | n + 1, some walker => (chainLinks next n (next walker)).map (walker :: ·)

/-- The links of the buckets `is`, in the order of the loops of `shs_hashtable_free_items`. -/
def bucketsLinks (n : Nat) (t : Table) : List Nat → Option (List Nat)
  | [] => some []
  | i :: is =>
    match chainLinks t.next n (t.buckets i), bucketsLinks n t is with
    | some l, some r => some (l ++ r)
    | _, _ => none

/-- `shs_hashtable_free_items`: the table, and the links that were freed. The buckets keep them. -/
def shsHashtableFreeItems (n : Nat) (t : Table) (freeObjectFunc : Bool) :
    Option (Table × List Nat) :=
  if !freeObjectFunc then some (t, [])
  else
    (bucketsLinks n t (List.range t.size)).map fun l =>
      ({ t with count := toInt32 (t.count - l.length) }, l)

/-! ## Runs -/

inductive Act where
  | join (hl : Nat)
  | remove (hl : Nat)
  | freeItems (freeObjectFunc : Bool)

/-- The table, the links freed by `shs_hashtable_free_items`, the number of joins, which bounds
the loops, and whether a call went wrong. -/
structure State where
  table : Table
  freed : List Nat := []
  joins : Nat := 0
  failed : Bool := false

/-- `shs_hashtable_init` with `size` buckets. -/
def init (size : Nat) : State := { table := { size := size } }

def step (s : State) : Act → State
  | .join hl => { s with table := shsHashtableJoin hash keys s.table hl, joins := s.joins + 1 }
  | .remove hl =>
    match shsHashtableRemoveLink hash keys s.joins s.table hl with
    | some t => { s with table := t }
    | none => { s with failed := true }
  | .freeItems func =>
    match shsHashtableFreeItems s.joins s.table func with
    | some (t, l) => { s with table := t, freed := s.freed ++ l }
    | none => { s with failed := true }

def State.lookup (s : State) (key : Bytes) : Option (Option Nat) :=
  shsHashtableLookup hash keys s.joins s.table key

/-- The links that can be reached from the buckets. -/
def State.reachable (s : State) : List Nat :=
  (bucketsLinks s.joins s.table (List.range s.table.size)).getD []

/-- The links that are present after a call, the last joined one first. -/
def presentStep (p : List Nat) : Act → List Nat
  | .join hl => hl :: p
  | .remove hl => p.erase hl
  | .freeItems func => if func then [] else p

def present (as : List Act) : List Nat := as.foldl presentStep []

/-- The link carries the key. -/
def carries (key : Bytes) (hl : Nat) : Bool :=
  decide ((keys hl).len = key.length) && (keys hl).key.any (memcmpEq key)

/-- The link is in the bucket of the key and agrees with it in as many bytes as the key has. -/
def begins (size : Nat) (key : Bytes) (hl : Nat) : Bool :=
  decide (hash (keys hl).bytes size = hash key size) && (keys hl).key.any (memcmpEq key)

/-- What a caller has to keep to: a link joined has a key and is not in the table. -/
def callOk (s : State) : Act → Prop
  | .join hl => (keys hl).key ≠ none ∧ hl ∉ s.reachable
  | .remove hl => (keys hl).key ≠ none
  | .freeItems _ => True

/-- The calls that leave table and counter in order: the counter and the bucket index fit into an
`int`, and the items are freed when there are none. -/
def actOk (s : State) : Act → Prop
  | .join hl => callOk keys s (.join hl) ∧ s.table.count < 2 ^ 31 - 1
  | .remove hl =>
    callOk keys s (.remove hl) ∧ hash (keys hl).bytes s.table.size < 2 ^ 31
  | .freeItems func => func = true → s.table.count = 0

/-! ## Chains -/

theorem chainLinks_linked {next : Nat → Option Nat} {p : Option Nat} {l : List Nat} {n : Nat}
    (h : Linked next p l) (hn : l.length ≤ n) : chainLinks next n p = some l := by
  induction l generalizing p n with
  | nil =>
    rw [linked_nil] at h
    subst h
    cases n <;> rfl
  | cons a l ih =>
    obtain ⟨rfl, hl⟩ := h
    rw [List.length_cons] at hn
    obtain ⟨n, rfl⟩ : ∃ m, n = m + 1 := ⟨n - 1, by omega⟩
    rw [chainLinks, ih hl (by omega)]
    rfl

theorem lookupWalk_linked {next : Nat → Option Nat} {p : Option Nat} {l : List Nat} {n : Nat}
    (key : Bytes) (h : Linked next p l) (hn : l.length ≤ n) (hnd : l.Nodup)
    (hk : ∀ a ∈ l, (keys a).key ≠ none) :
    lookupWalk keys next key n p = some (l.find? fun a => (keys a).key.any (memcmpEq key)) := by
  induction l generalizing p n with
  | nil =>
    rw [linked_nil] at h
    subst h
    cases n <;> rfl
  | cons a l ih =>
    obtain ⟨rfl, hl⟩ := h
    rw [List.length_cons] at hn
    obtain ⟨n, rfl⟩ : ∃ m, n = m + 1 := ⟨n - 1, by omega⟩
    obtain ⟨m, hm⟩ := Option.ne_none_iff_exists'.1 (hk a List.mem_cons_self)
    rw [List.nodup_cons] at hnd
    -- no cell of the chain points to itself, so the assertion holds
    have hself : next a ≠ some a := by
      intro hc
      rw [hc] at hl
      obtain ⟨r, rfl, _⟩ := hl.head
      exact hnd.1 List.mem_cons_self
    rw [lookupWalk, hm, List.find?_cons, hm]
    simp only [Option.any_some, if_neg hself]
    rw [ih hl (by omega) hnd.2 fun b hb => hk b (List.mem_cons_of_mem a hb)]
    cases memcmpEq key m <;> rfl

theorem removeWalk_absent {t : Table} {hl : Nat} {l : List Nat} {n : Nat} {link : Slot}
    (h : Linked t.next (t.read link) l) (hn : l.length ≤ n) (ha : hl ∉ l) :
    removeWalk t hl n link = some none := by
  induction l generalizing link n with
  | nil =>
    rw [linked_nil] at h
    cases n with
    | zero => rw [removeWalk, if_pos h]
    | succ n => rw [removeWalk, h]
  | cons a l ih =>
    obtain ⟨hp, hnext⟩ := h
    rw [List.length_cons] at hn
    obtain ⟨n, rfl⟩ : ∃ m, n = m + 1 := ⟨n - 1, by omega⟩
    have hne : a ≠ hl := fun hc => ha (hc ▸ List.mem_cons_self)
    rw [removeWalk, hp]
    simp only [if_neg hne]
    exact @ih _ (.next a) hnext (by omega) fun hc => ha (List.mem_cons_of_mem a hc)

theorem intIndex_of_lt {i : Nat} (h : i < 2 ^ 31) : intIndex i = some i := by
  have hmod : i % 2 ^ 32 = i := Nat.mod_eq_of_lt (by omega)
  rw [intIndex, hmod, if_pos h]

/-- The slot that points to the cell behind `pre`, when `link` points to the first one. -/
def slotBehind (link : Slot) (pre : List Nat) : Slot :=
  match pre.getLast? with
  | none => link
  | some b => .next b

theorem slotBehind_cons (link : Slot) (a : Nat) (pre : List Nat) :
    slotBehind link (a :: pre) = slotBehind (.next a) pre := by
  cases pre with
  | nil => rfl
  | cons b pre => rfl

theorem removeWalk_present {t : Table} {hl : Nat} {pre post : List Nat} {n : Nat} {link : Slot}
    (h : Linked t.next (t.read link) (pre ++ hl :: post)) (hn : pre.length < n)
    (ha : hl ∉ pre) : removeWalk t hl n link = some (some (slotBehind link pre)) := by
  induction pre generalizing link n with
  | nil =>
    obtain ⟨n, rfl⟩ : ∃ m, n = m + 1 := ⟨n - 1, by omega⟩
    rw [List.nil_append] at h
    rw [removeWalk, h.1]
    simp [slotBehind]
  | cons a pre ih =>
    obtain ⟨hp, hnext⟩ := h
    rw [List.length_cons] at hn
    obtain ⟨n, rfl⟩ : ∃ m, n = m + 1 := ⟨n - 1, by omega⟩
    have hne : a ≠ hl := fun hc => ha (hc ▸ List.mem_cons_self)
    rw [removeWalk, hp, slotBehind_cons]
    simp only [if_neg hne]
    exact @ih _ (.next a) hnext (by omega) fun hc => ha (List.mem_cons_of_mem a hc)

/-! ## The table and the list of the links present -/

/-- The links of `p` with hash value `i`. -/
def inBucket (size i : Nat) (p : List Nat) : List Nat :=
  p.filter fun a => decide (hash (keys a).bytes size = i)

structure Holds (size : Nat) (p : List Nat) (s : State) : Prop where
  nodup : p.Nodup
  keyed : ∀ a ∈ p, (keys a).key ≠ none
  chain : ∀ i, Linked s.table.next (s.table.buckets i) (inBucket hash keys size i p)
  count : s.table.count = p.length
  small : p.length < 2 ^ 31
  joins : p.length ≤ s.joins
  fine  : s.failed = false
  freed : s.freed = []
  size  : s.table.size = size

variable {hash keys}
variable {size : Nat} {p : List Nat} {s : State}

theorem holds_init (size : Nat) : Holds hash keys size [] (init size) := by
  refine ⟨.nil, ?_, ?_, rfl, by decide, Nat.zero_le _, rfl, rfl, rfl⟩
  · intro a ha
    cases ha
  · intro i
    rfl

theorem inBucket_cons_self (a : Nat) (p : List Nat) :
    inBucket hash keys size (hash (keys a).bytes size) (a :: p) =
      a :: inBucket hash keys size (hash (keys a).bytes size) p := by
  simp [inBucket]

theorem inBucket_cons_ne {a i : Nat} (h : hash (keys a).bytes size ≠ i) (p : List Nat) :
    inBucket hash keys size i (a :: p) = inBucket hash keys size i p := by
  simp [inBucket, h]

theorem inBucket_erase (hnd : p.Nodup) (i a : Nat) :
    inBucket hash keys size i (p.erase a) = (inBucket hash keys size i p).erase a := by
  rw [inBucket, inBucket, hnd.erase_eq_filter, (hnd.filter _).erase_eq_filter, List.filter_filter,
    List.filter_filter]
  refine List.filter_congr fun b _ => ?_
  rw [Bool.and_comm]

theorem mem_inBucket {i a : Nat} :
    a ∈ inBucket hash keys size i p ↔ a ∈ p ∧ hash (keys a).bytes size = i := by
  simp [inBucket]

theorem inBucket_length (i : Nat) (p : List Nat) :
    (inBucket hash keys size i p).length ≤ p.length := List.length_filter_le _ _

theorem countP_lt_succ (f : Nat → Nat) (n : Nat) (l : List Nat) :
    l.countP (fun a => decide (f a < n + 1)) =
      l.countP (fun a => decide (f a < n)) + l.countP (fun a => decide (f a = n)) := by
  induction l with
  | nil => rfl
  | cons a l ih =>
    simp only [List.countP_cons, ih, decide_eq_true_eq]
    split <;> split <;> split <;> omega

namespace Holds

variable (h : Holds hash keys size p s)

include h

theorem inBucket_nodup (i : Nat) : (inBucket hash keys size i p).Nodup := h.nodup.filter _

theorem fuel (i : Nat) : (inBucket hash keys size i p).length ≤ s.joins :=
  Nat.le_trans (inBucket_length i p) h.joins

theorem bucketsLinks_eq (is : List Nat) :
    bucketsLinks s.joins s.table is = some (is.flatMap fun i => inBucket hash keys size i p) := by
  induction is with
  | nil => rfl
  | cons i is ih => rw [bucketsLinks, chainLinks_linked (h.chain i) (h.fuel i), ih]; rfl

theorem reachable_eq :
    s.reachable = (List.range size).flatMap fun i => inBucket hash keys size i p := by
  rw [State.reachable, h.bucketsLinks_eq, h.size]
  rfl

theorem mem_reachable (hsize : 0 < size) (hhash : ∀ k n, 0 < n → hash k n < n) (a : Nat) :
    a ∈ s.reachable ↔ a ∈ p := by
  rw [h.reachable_eq, List.mem_flatMap]
  constructor
  · rintro ⟨i, _, hi⟩
    exact (mem_inBucket.1 hi).1
  · intro ha
    exact ⟨_, List.mem_range.2 (hhash _ _ hsize), mem_inBucket.2 ⟨ha, rfl⟩⟩

theorem join {a : Nat} (ha : a ∉ p) (hk : (keys a).key ≠ none) (hc : s.table.count < 2 ^ 31 - 1) :
    Holds hash keys size (a :: p) (step hash keys s (.join a)) := by
  have hlen : p.length + 1 < 2 ^ 31 := by
    have := h.count
    omega
  refine ⟨List.nodup_cons.2 ⟨ha, h.nodup⟩, ?_, ?_, ?_, hlen, ?_, h.fine, h.freed, h.size⟩
  · intro b hb
    rcases List.mem_cons.1 hb with rfl | hb
    · exact hk
    · exact h.keyed b hb
  · intro i
    have hmem : ∀ j, a ∉ inBucket hash keys size j p := fun j hj => ha (mem_inBucket.1 hj).1
    show Linked (Function.update s.table.next a
        (s.table.buckets (hash (keys a).bytes s.table.size)))
      (Function.update s.table.buckets (hash (keys a).bytes s.table.size) (some a) i) _
    rw [h.size]
    by_cases hi : hash (keys a).bytes size = i
    · subst hi
      rw [Function.update_self, inBucket_cons_self]
      exact (h.chain _).push (hmem _)
    · rw [Function.update_of_ne (Ne.symm hi), inBucket_cons_ne hi]
      exact (h.chain i).update (hmem i)
  · have hcount := h.count
    show toInt32 (s.table.count + 1) = _
    rw [toInt32_of_range (by omega) (by omega), List.length_cons]
    omega
  · exact Nat.succ_le_succ h.joins

/-- Writing behind the cells `pre` of bucket `i` takes `a` out of its chain and leaves the other
chains alone. -/
theorem write_chain {a : Nat} {pre post : List Nat}
    (hl : inBucket hash keys size (hash (keys a).bytes size) p = pre ++ a :: post) (j : Nat) :
    Linked (s.table.write (s.table.next a)
        (slotBehind (.bucket (hash (keys a).bytes size)) pre)).next
      ((s.table.write (s.table.next a)
        (slotBehind (.bucket (hash (keys a).bytes size)) pre)).buckets j)
      ((inBucket hash keys size j p).erase a) := by
  have hnd : (pre ++ a :: post).Nodup := hl ▸ h.inBucket_nodup _
  have hpre : a ∉ pre := fun hc =>
    (List.nodup_append.1 hnd).2.2 a hc a List.mem_cons_self rfl
  have herase : (pre ++ a :: post).erase a = pre ++ post := by
    rw [List.erase_append_right _ hpre, List.erase_cons_head]
  have hother : ∀ j, hash (keys a).bytes size ≠ j →
      (inBucket hash keys size j p).erase a = inBucket hash keys size j p :=
    fun j hj => List.erase_of_not_mem fun hc => hj (mem_inBucket.1 hc).2
  rcases List.eq_nil_or_concat pre with rfl | ⟨pre, b, rfl⟩
  · show Linked s.table.next (Function.update s.table.buckets (hash (keys a).bytes size)
      (s.table.next a) j) _
    by_cases hj : hash (keys a).bytes size = j
    · subst hj
      have hchain := h.chain (hash (keys a).bytes size)
      rw [hl] at hchain
      rw [Function.update_self, hl, herase]
      exact hchain.2
    · rw [Function.update_of_ne (Ne.symm hj), hother j hj]
      exact h.chain j
  · rw [List.concat_eq_append] at *
    rw [List.append_assoc, List.singleton_append] at hl hnd
    have hslot : slotBehind (.bucket (hash (keys a).bytes size)) (pre ++ [b]) = .next b := by
      simp [slotBehind]
    rw [hslot]
    show Linked (Function.update s.table.next b (s.table.next a)) (s.table.buckets j) _
    have hbmem : b ∈ inBucket hash keys size (hash (keys a).bytes size) p := by simp [hl]
    by_cases hj : hash (keys a).bytes size = j
    · subst hj
      have hchain := h.chain (hash (keys a).bytes size)
      rw [hl] at hchain
      have hb : b ∉ pre := fun hc =>
        (List.nodup_append.1 hnd).2.2 b hc b List.mem_cons_self rfl
      have hpost : b ∉ post := fun hc => by simp [List.nodup_append, hc] at hnd
      have hsame : inBucket hash keys size (hash (keys a).bytes size) p =
          (pre ++ [b]) ++ a :: post := by simp [hl]
      rw [hsame, herase, List.append_assoc, List.singleton_append]
      exact hchain.unlink hb hpost
    · rw [hother j hj]
      refine (h.chain j).update fun hc => hj ?_
      rw [← (mem_inBucket.1 hbmem).2]
      exact (mem_inBucket.1 hc).2

theorem remove {a : Nat} (hlt : hash (keys a).bytes size < 2 ^ 31) :
    Holds hash keys size (p.erase a) (step hash keys s (.remove a)) := by
  have hint : intIndex (hash (keys a).bytes s.table.size) = some (hash (keys a).bytes size) := by
    rw [h.size, intIndex_of_lt hlt]
  have hchain := h.chain (hash (keys a).bytes size)
  have hfuel := h.fuel (hash (keys a).bytes size)
  by_cases ha : a ∈ p
  · obtain ⟨pre, post, hl, hpre⟩ := List.eq_append_cons_of_mem
      (mem_inBucket.2 ⟨ha, rfl⟩ : a ∈ inBucket hash keys size (hash (keys a).bytes size) p)
    have hwalk : removeWalk s.table a s.joins (.bucket (hash (keys a).bytes size)) =
        some (some (slotBehind (.bucket (hash (keys a).bytes size)) pre)) := by
      rw [hl] at hchain hfuel
      rw [List.length_append, List.length_cons] at hfuel
      exact removeWalk_present hchain (by omega) hpre
    have hstep : step hash keys s (.remove a) =
        { s with table := { s.table.write (s.table.next a)
            (slotBehind (.bucket (hash (keys a).bytes size)) pre) with
              count := toInt32 (s.table.count - 1) } } := by
      simp only [step, shsHashtableRemoveLink, hint, hwalk]
    have hlen : (p.erase a).length = p.length - 1 := List.length_erase_of_mem ha
    have hpos : 0 < p.length := List.length_pos_of_mem ha
    have hsmall := h.small
    have hsize : (s.table.write (s.table.next a)
        (slotBehind (.bucket (hash (keys a).bytes size)) pre)).size = s.table.size := by
      cases slotBehind (.bucket (hash (keys a).bytes size)) pre <;> rfl
    rw [hstep]
    refine ⟨h.nodup.erase a, ?_, ?_, ?_, by omega, ?_, h.fine, h.freed, hsize.trans h.size⟩
    · intro b hb
      exact h.keyed b (List.mem_of_mem_erase hb)
    · intro j
      rw [inBucket_erase h.nodup]
      exact h.write_chain hl j
    · have hcount := h.count
      show toInt32 (s.table.count - 1) = _
      rw [toInt32_of_range (by omega) (by omega), hlen]
      omega
    · have hjoins := h.joins
      show (p.erase a).length ≤ s.joins
      omega
  · have habsent : a ∉ inBucket hash keys size (hash (keys a).bytes size) p :=
      fun hc => ha (mem_inBucket.1 hc).1
    have hwalk : removeWalk s.table a s.joins (.bucket (hash (keys a).bytes size)) = some none :=
      removeWalk_absent hchain hfuel habsent
    have hstep : step hash keys s (.remove a) = s := by
      simp only [step, shsHashtableRemoveLink, hint, hwalk]
    rw [hstep, List.erase_of_not_mem ha]
    exact h

/-- Freeing the items of a table without items changes nothing. -/
theorem freeItems {func : Bool} (hc : func = true → s.table.count = 0) :
    step hash keys s (.freeItems func) = s ∧ presentStep p (.freeItems func) = p := by
  cases func with
  | false => exact ⟨by simp [step, shsHashtableFreeItems], rfl⟩
  | true =>
    have hcount := hc rfl
    have hp : p = [] := by
      have := h.count
      exact List.eq_nil_of_length_eq_zero (by omega)
    subst hp
    have hnone : (List.range s.table.size).flatMap (fun i => inBucket hash keys size i []) = [] := by
      simp [inBucket]
    have hz : toInt32 (s.table.count - ([] : List Nat).length) = s.table.count := by
      rw [hcount, List.length_nil, Int.natCast_zero, Int.sub_zero]
      exact toInt32_of_range (by omega) (by omega)
    have hfree : shsHashtableFreeItems s.joins s.table true = some (s.table, []) := by
      unfold shsHashtableFreeItems
      rw [h.bucketsLinks_eq, hnone, Option.map_some, hz]
      rfl
    refine ⟨?_, rfl⟩
    simp only [step, hfree, List.append_nil]

theorem lookup_eq (key : Bytes) :
    s.lookup hash keys key = some (p.find? (begins hash keys size key)) := by
  have hwalk := lookupWalk_linked keys key (h.chain (hash key size))
    (h.fuel (hash key size)) (h.inBucket_nodup (hash key size))
    fun a ha => h.keyed a (mem_inBucket.1 ha).1
  rw [inBucket, List.find?_filter] at hwalk
  have hbegins : begins hash keys size key = fun a =>
      decide (decide (hash (keys a).bytes size = hash key size) = true ∧
        (keys a).key.any (memcmpEq key) = true) := by
    funext a
    simp [begins, Bool.decide_and]
  rw [State.lookup, shsHashtableLookup, h.size, hwalk, hbegins]

theorem reachable_length (hsize : 0 < size) (hhash : ∀ k n, 0 < n → hash k n < n) :
    s.reachable.length = p.length := by
  have hcut : ∀ n, ((List.range n).flatMap fun i => inBucket hash keys size i p).length =
      p.countP fun a => decide (hash (keys a).bytes size < n) := by
    intro n
    induction n with
    | zero => simp
    | succ n ih =>
      rw [List.range_succ, List.flatMap_append, List.length_append, ih, List.flatMap_singleton,
        inBucket, ← List.countP_eq_length_filter]
      exact (countP_lt_succ (fun a => hash (keys a).bytes size) n p).symm
  rw [h.reachable_eq, hcut, List.countP_eq_length.2]
  intro a _
  exact decide_eq_true (hhash _ _ hsize)

end Holds

theorem carries_begins {key : Bytes} {a : Nat} (hc : carries keys key a = true) :
    begins hash keys size key a = true := by
  rw [carries, Bool.and_eq_true, decide_eq_true_eq] at hc
  obtain ⟨hlen, hany⟩ := hc
  obtain ⟨m, hm, hcmp⟩ := (Option.any_eq_true _ _).1 hany
  have hbytes : (keys a).bytes = key := by
    rw [LinkKey.bytes, hm, hlen]
    exact eq_of_beq hcmp
  rw [begins, hbytes, hany]
  simp

/-- The lookup is right exactly when the last joined link that agrees with the key in the bytes
compared has a key of its length. -/
theorem lookup_right_iff (h : Holds hash keys size p s) (key : Bytes) :
    s.lookup hash keys key = some (p.find? (carries keys key)) ↔
      ∀ a, p.find? (begins hash keys size key) = some a → (keys a).len = key.length := by
  rw [h.lookup_eq, Option.some.injEq]
  constructor
  · intro heq a ha
    rw [heq] at ha
    have hc := List.find?_some ha
    rw [carries, Bool.and_eq_true, decide_eq_true_eq] at hc
    exact hc.1
  · intro hlen
    cases hb : p.find? (begins hash keys size key) with
    | none =>
      refine (List.find?_eq_none.2 fun a ha hc => ?_).symm
      exact List.find?_eq_none.1 hb a ha (carries_begins hc)
    | some a =>
      obtain ⟨hba, pre, post, rfl, hpre⟩ := List.find?_eq_some_iff_append.1 hb
      have hany : (keys a).key.any (memcmpEq key) = true := (Bool.and_eq_true_iff.1 hba).2
      have hca : carries keys key a = true := by
        rw [carries, hany, decide_eq_true (hlen a hb)]
        rfl
      refine (List.find?_eq_some_iff_append.2 ⟨hca, pre, post, rfl, fun b hbp => ?_⟩).symm
      have hnb := hpre b hbp
      cases hcb : carries keys key b with
      | false => rfl
      | true => simp [carries_begins hcb] at hnb

/-- What one call does to the list of the links present. -/
theorem Holds.step (h : Holds hash keys size p s) (hsize : 0 < size)
    (hhash : ∀ k n, 0 < n → hash k n < n) {act : Act} (hok : actOk hash keys s act) :
    Holds hash keys size (presentStep p act) (step hash keys s act) := by
  cases act with
  | join a =>
    obtain ⟨⟨hk, ha⟩, hc⟩ := hok
    exact h.join (fun hp => ha ((h.mem_reachable hsize hhash a).2 hp)) hk hc
  | remove a =>
    have hlt := hok.2
    rw [h.size] at hlt
    exact h.remove hlt
  | freeItems func =>
    obtain ⟨hstep, hp⟩ := h.freeItems hok
    rw [hstep, hp]
    exact h

theorem holds_run (hsize : 0 < size) (hhash : ∀ k n, 0 < n → hash k n < n) {as : List Act}
    (hok : Run.Meets (step hash keys) (actOk hash keys) (init size) as) :
    Holds hash keys size (present as) (Run.exec (step hash keys) (init size) as) := by
  induction as using List.reverseRecOn with
  | nil => exact holds_init size
  | append_singleton as a ih =>
    rw [Run.exec_concat, present, List.foldl_append]
    exact (ih (hok.pre _)).step hsize hhash (hok.last _)

end Operations

/-- In a run of calls that keep the counter and the index in an `int` and free the items of an
empty table only, the links present are the links reachable and the counter counts them, no link
is freed, and a lookup finds the last joined link with just its key exactly when the last joined
link of the bucket that agrees with the key in the bytes compared has a key of that length. -/
theorem hashtable_runs (hash : Bytes → Nat → Nat) (keys : Nat → LinkKey) (size : Nat)
    (hsize : 0 < size) (hhash : ∀ k n, 0 < n → hash k n < n) (as : List Act)
    (hok : Run.Meets (step hash keys) (actOk hash keys) (init size) as) :
    let s := Run.exec (step hash keys) (init size) as
    s.failed = false ∧ (∀ a, a ∈ s.reachable ↔ a ∈ present as) ∧
      s.table.count = s.reachable.length ∧
      ∀ key, (s.lookup hash keys key = some ((present as).find? (carries keys key)) ↔
          ∀ a, (present as).find? (begins hash keys size key) = some a →
            (keys a).len = key.length) ∧
        ∀ a, s.lookup hash keys key = some (some a) → a ∉ s.freed := by
  have h := holds_run hsize hhash hok
  refine ⟨h.fine, h.mem_reachable hsize hhash, ?_, fun key => ⟨lookup_right_iff h key, ?_⟩⟩
  · rw [h.count, h.reachable_length hsize hhash]
  · intro a _
    rw [h.freed]
    exact List.not_mem_nil

/-- Link 1 has the key `ab`, every other link the key `abc`. -/
def twoKeys (a : Nat) : LinkKey :=
  if a = 1 then { key := some fun i => (str "ab").getD i 0, len := 2 }
  else { key := some fun i => (str "abc").getD i 0, len := 3 }

instance (keys : Nat → LinkKey) (s : State) (act : Act) : Decidable (callOk keys s act) := by
  have hkey : ∀ a, Decidable ((keys a).key ≠ none) := fun a =>
    decidable_of_iff ((keys a).key.isSome = true) (by simp [Option.isSome_iff_ne_none])
  cases act <;> unfold callOk <;> infer_instance

instance (hash : Bytes → Nat → Nat) (keys : Nat → LinkKey) (s : State) (act : Act) :
    Decidable (actOk hash keys s act) := by
  cases act <;> unfold actOk <;> infer_instance

theorem hashtable_runs_two :
    (Run.exec (step (fun _ _ => 0) twoKeys) (init 7) [.join 2, .join 1, .remove 2]).table.count =
      (Run.exec (step (fun _ _ => 0) twoKeys) (init 7)
        [.join 2, .join 1, .remove 2]).reachable.length :=
  (hashtable_runs (fun _ _ => 0) twoKeys 7 (by decide) (fun _ _ hn => hn)
    [.join 2, .join 1, .remove 2] (Run.meets_of_check _ (by decide +kernel))).2.2.1

/-- The lookup of `ab` returns the link with the key `abc`, and after the items are freed a lookup
returns a freed link that the counter does not count. -/
theorem longer_key_found :
    ¬ (∀ (hash : Bytes → Nat → Nat) (keys : Nat → LinkKey) (size : Nat), 0 < size →
      (∀ k n, 0 < n → hash k n < n) → ∀ as,
      Run.Meets (step hash keys) (callOk keys) (init size) as → ∀ key,
      (Run.exec (step hash keys) (init size) as).lookup hash keys key =
        some ((present as).find? (carries keys key))) ∧
    (let s := Run.exec (step (fun _ _ => 0) twoKeys) (init 7) [.join 2, .freeItems true]
     s.lookup (fun _ _ => 0) twoKeys (str "abc") = some (some 2) ∧ s.freed = [2] ∧
       s.table.count = 0 ∧ s.reachable = [2]) := by
  refine ⟨fun h => ?_, by decide +kernel⟩
  have hfind := h (fun _ _ => 0) twoKeys 7 (by decide) (fun _ _ hn => hn) [.join 2]
    (Run.meets_of_check _ (by decide +kernel)) (str "ab")
  revert hfind
  decide +kernel

end HashTable
end Shs
