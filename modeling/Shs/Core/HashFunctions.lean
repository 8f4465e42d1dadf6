import Shs.Core.HashTable
import Mathlib.Tactic.IntervalCases
import Mathlib.Tactic.NormNum.Prime

/-!
# Core.HashFunctions

The hash functions of `shs_hashtable.cc`, on the memory behind the pointer they are given. A
`size_t` is a `UInt64`, a `char` is signed, and the machine is little endian.

Two callers that look up equal keys pass memories that agree in the bytes of the key and may
differ behind them. `KeyOnly` says that the difference does not matter.
-/

namespace Shs
namespace HashTable

/-- A `char` that was converted to `size_t`. -/
def charToSize (c : Byte) : UInt64 := if c < 128 then c.toUInt64 else c.toUInt64 - 256

/-- `SHS_HASH4`. -/
def hash4 (x : UInt64) (c : Byte) : UInt64 := (x <<< 5) + x + charToSize c

/-- How many bytes `shs_hashtable_hash_hash4` reads: one, if the length is not a multiple of
eight, and eight for each turn of the loop. -/
def hash4Reads (dataSize : Nat) : Nat :=
  (if dataSize % 8 ≠ 0 then 1 else 0) + 8 * (dataSize >>> 3)

def shsHashtableHashHash4 (data : Nat → Byte) (dataSize hashtableSize : Nat) : Nat :=
  ((readKey data (hash4Reads dataSize)).foldl hash4 0).toNat % hashtableSize

/-- `*((uint64_t *)s)` with `s` at `p`, as a number. -/
def wordAt (data : Nat → Byte) (p : Nat) : Nat :=
  (List.range 8).foldr (fun k r => (data (p + k)).toNat + 256 * r) 0

/-- How often the loop of `shs_hashtable_hash_key8` runs. -/
def key8Loop (dataSize : Nat) : Nat :=
  if dataSize % 8 ≠ 0 then (dataSize >>> 3) + 1 else dataSize >>> 3

/-- The word that turn `i` of the loop takes. -/
def key8One (data : Nat → Byte) (dataSize i : Nat) : UInt64 :=
  let one := UInt64.ofNat (wordAt data (8 * i))
  if dataSize % 8 ≠ 0 ∧ i = key8Loop dataSize - 1 then one >>> UInt64.ofNat (dataSize % 8 * 8)
  else one

def shsHashtableHashKey8 (data : Nat → Byte) (dataSize hashtableSize : Nat) : Nat :=
  let loop := key8Loop dataSize
  let n := (List.range loop).foldl (fun n i => n ^^^ 271 * key8One data dataSize i) 0
  (n ^^^ UInt64.ofNat loop * 271).toNat % hashtableSize

/-- The loop of `shs_hashtable_hash_low` from `s` on, with `left` bytes of the key to go. -/
def hashLowLoop (data : Nat → Byte) : (left s : Nat) → UInt64 → UInt64
  | 0, _, n => n
  | left + 1, s, n =>
    if data s = 0 then n else hashLowLoop data left (s + 1) (n * 31 + (tolower (data s)).toUInt64)

def shsHashtableHashLow (data : Nat → Byte) (dataSize hashtableSize : Nat) : Nat :=
  (hashLowLoop data dataSize 0 0).toNat % hashtableSize

/-- The hash functions a table can be created with. -/
inductive HashFunction where
  | hash4
  | key8
  | low
  deriving DecidableEq

def HashFunction.run : HashFunction → (Nat → Byte) → Nat → Nat → Nat
  | .hash4 => shsHashtableHashHash4
  | .key8 => shsHashtableHashKey8
  | .low => shsHashtableHashLow

/-- `shs_hashtable_lookup` of the key of `len` bytes at `key`, with one of the hash functions. -/
def lookupAt (f : HashFunction) (keys : Nat → LinkKey) (n : Nat) (t : Table) (key : Nat → Byte)
    (len : Nat) : Option (Option Nat) :=
  lookupWalk keys t.next (readKey key len) n (t.buckets (f.run key len t.size))

/-- Memories that agree in the `len` bytes of the key have the same hash value, which is one of the
table, and a lookup starts at the same bucket and finds the same link. -/
def KeyOnly (f : HashFunction) (len size : Nat) : Prop :=
  ∀ m m' : Nat → Byte, (∀ i < len, m i = m' i) →
    f.run m len size = f.run m' len size ∧ f.run m len size < size ∧
      ∀ (keys : Nat → LinkKey) (n : Nat) (t : Table), t.size = size →
        t.buckets (f.run m len t.size) = t.buckets (f.run m' len t.size) ∧
          lookupAt f keys n t m len = lookupAt f keys n t m' len

/-! ## What the functions read -/

theorem readKey_congr {m m' : Nat → Byte} {n : Nat} (h : ∀ i < n, m i = m' i) :
    readKey m n = readKey m' n :=
  List.map_congr_left fun i hi => h i (List.mem_range.1 hi)

theorem hash4Reads_le (len : Nat) : hash4Reads len ≤ len := by
  rw [hash4Reads, Nat.shiftRight_eq_div_pow]
  split <;> omega

theorem hash4_congr {m m' : Nat → Byte} {len : Nat} (h : ∀ i < len, m i = m' i) (size : Nat) :
    shsHashtableHashHash4 m len size = shsHashtableHashHash4 m' len size := by
  have hread := readKey_congr fun i (hi : i < hash4Reads len) =>
    h i (Nat.lt_of_lt_of_le hi (hash4Reads_le len))
  rw [shsHashtableHashHash4, shsHashtableHashHash4, hread]

theorem hashLowLoop_congr {m m' : Nat → Byte} {left s : Nat} (n : UInt64)
    (h : ∀ i < s + left, m i = m' i) : hashLowLoop m left s n = hashLowLoop m' left s n := by
  induction left generalizing s n with
  | zero => rfl
  | succ left ih =>
    rw [hashLowLoop, hashLowLoop, h s (by omega)]
    split
    · rfl
    · exact ih _ fun i hi => h i (by omega)

theorem hashLow_congr {m m' : Nat → Byte} {len : Nat} (h : ∀ i < len, m i = m' i) (size : Nat) :
    shsHashtableHashLow m len size = shsHashtableHashLow m' len size := by
  rw [shsHashtableHashLow, shsHashtableHashLow,
    hashLowLoop_congr 0 fun i hi => h i (by omega)]

theorem wordAt_eq (m : Nat → Byte) (p : Nat) :
    wordAt m p = (m p).toNat + 256 * ((m (p + 1)).toNat + 256 * ((m (p + 2)).toNat +
      256 * ((m (p + 3)).toNat + 256 * ((m (p + 4)).toNat + 256 * ((m (p + 5)).toNat +
        256 * ((m (p + 6)).toNat + 256 * (m (p + 7)).toNat)))))) := rfl

theorem wordAt_congr {m m' : Nat → Byte} {p : Nat} (h : ∀ i < p + 8, m i = m' i) :
    wordAt m p = wordAt m' p := by
  rw [wordAt_eq, wordAt_eq, h p (by omega), h (p + 1) (by omega), h (p + 2) (by omega),
    h (p + 3) (by omega), h (p + 4) (by omega), h (p + 5) (by omega), h (p + 6) (by omega),
    h (p + 7) (by omega)]

/-- Without a tail all words lie inside the key. -/
theorem key8_congr {m m' : Nat → Byte} {len : Nat} (h : ∀ i < len, m i = m' i)
    (hlen : len % 8 = 0) (size : Nat) :
    shsHashtableHashKey8 m len size = shsHashtableHashKey8 m' len size := by
  have hloop : key8Loop len = len / 8 := by
    rw [key8Loop, if_neg (by omega), Nat.shiftRight_eq_div_pow]
  have hone : ∀ i ∈ List.range (key8Loop len), key8One m len i = key8One m' len i := by
    intro i hi
    rw [List.mem_range, hloop] at hi
    simp only [key8One]
    rw [if_neg (by omega), if_neg (by omega), wordAt_congr fun j hj => h j (by omega)]
  simp only [shsHashtableHashKey8]
  rw [List.foldl_ext _ _ _ fun n i hi => by rw [hone i hi]]

theorem run_lt {size : Nat} (hsize : 0 < size) (f : HashFunction) (m : Nat → Byte) (len : Nat) :
    f.run m len size < size := by
  cases f <;> exact Nat.mod_lt _ hsize

theorem keyOnly_of_eq {f : HashFunction} {len size : Nat} (hsize : 0 < size)
    (h : ∀ m m' : Nat → Byte, (∀ i < len, m i = m' i) → f.run m len size = f.run m' len size) :
    KeyOnly f len size := by
  intro m m' hm
  have hrun := h m m' hm
  refine ⟨hrun, run_lt hsize f m len, ?_⟩
  intro keys n t ht
  subst ht
  refine ⟨by rw [hrun], ?_⟩
  rw [lookupAt, lookupAt, hrun, readKey_congr hm]

/-! ## The tail of `shs_hashtable_hash_key8`

The shift takes the bytes of the key out of the last word and keeps the bytes behind them. -/

/-- The multiplicative inverse of 271. -/
def inverse271 : UInt64 := 15383631589145234927

/-- A first word for the hash value 271, when the last one counts for nothing. -/
def firstWord (len : Nat) : UInt64 := inverse271 * (271 ^^^ UInt64.ofNat (key8Loop len) * 271)

/-- A key of `len` bytes with `o` behind it; its first word is `firstWord`. -/
def tailMem (len : Nat) (o : Byte) (i : Nat) : Byte :=
  if i = len then o
  else if i < 8 ∧ 8 ≤ len then UInt8.ofNat ((firstWord len).toNat / 256 ^ i % 256)
  else 0

theorem tailMem_agree (len : Nat) (o o' : Byte) :
    ∀ i < len, tailMem len o i = tailMem len o' i := by
  intro i hi
  have hne : i ≠ len := Nat.ne_of_lt hi
  simp only [tailMem, if_neg hne]

section Tail

variable {len : Nat} (o : Byte)

theorem tailMem_first (hlen : 8 ≤ len) {i : Nat} (hi : i < 8) (hne : i ≠ len) :
    (tailMem len o i).toNat = (firstWord len).toNat / 256 ^ i % 256 := by
  rw [tailMem, if_neg hne, if_pos ⟨hi, hlen⟩, UInt8.toNat_ofNat']
  omega

theorem wordAt_first (hlen : 8 < len) :
    UInt64.ofNat (wordAt (tailMem len o) 0) = firstWord len := by
  have hbyte := fun i (hi : i < 8) => tailMem_first (o := o) (by omega : 8 ≤ len) hi (by omega)
  have hlt := (firstWord len).toNat_lt
  rw [wordAt_eq, hbyte _ (by omega), hbyte _ (by omega), hbyte _ (by omega), hbyte _ (by omega),
    hbyte _ (by omega), hbyte _ (by omega), hbyte _ (by omega), hbyte _ (by omega)]
  rw [← UInt64.toNat_inj, UInt64.toNat_ofNat']
  norm_num
  omega

theorem key8Loop_tail (h : len % 8 ≠ 0) : key8Loop len = len / 8 + 1 := by
  rw [key8Loop, if_pos h, Nat.shiftRight_eq_div_pow]

theorem key8One_zero (h : len % 8 ≠ 0) {i : Nat} (hpos : 0 < i) (hi : i < len / 8) :
    key8One (tailMem len o) len i = 0 := by
  have hz : ∀ k < 8, tailMem len o (8 * i + k) = 0 := by
    intro k hk
    rw [tailMem, if_neg (by omega), if_neg (by omega)]
  simp only [key8One]
  rw [if_neg (by rw [key8Loop_tail h]; omega), wordAt_eq, hz 1 (by omega), hz 2 (by omega),
    hz 3 (by omega), hz 4 (by omega), hz 5 (by omega), hz 6 (by omega), hz 7 (by omega)]
  have h0 := hz 0 (by omega)
  rw [Nat.add_zero] at h0
  rw [h0]
  rfl

theorem key8One_first (h : len % 8 ≠ 0) (hlen : 8 < len) :
    key8One (tailMem len o) len 0 = firstWord len := by
  simp only [key8One]
  rw [if_neg (by rw [key8Loop_tail h]; omega), Nat.mul_zero, wordAt_first o hlen]

/-- A word with a single byte at `r`, shifted as far as that byte. -/
theorem shift_to_byte {r : Nat} (hpos : 0 < r) (hr : r < 8) :
    UInt64.ofNat (o.toNat * 256 ^ r) >>> UInt64.ofNat (r * 8) = o.toUInt64 := by
  have ho := o.toNat_lt
  rw [← UInt64.toNat_inj, UInt64.toNat_shiftRight, UInt64.toNat_ofNat', UInt64.toNat_ofNat',
    Nat.shiftRight_eq_div_pow, UInt8.toNat_toUInt64]
  interval_cases r <;> norm_num <;> omega

theorem key8One_last (h : len % 8 ≠ 0) :
    key8One (tailMem len o) len (len / 8) = o.toUInt64 := by
  have hm : ∀ k < 8, tailMem len o (8 * (len / 8) + k) = if k = len % 8 then o else 0 := by
    intro k hk
    rw [tailMem]
    by_cases hkr : k = len % 8
    · rw [if_pos (by omega), if_pos hkr]
    · rw [if_neg (by omega), if_neg (by omega), if_neg hkr]
  have hword : wordAt (tailMem len o) (8 * (len / 8)) = o.toNat * 256 ^ (len % 8) := by
    have h0 := hm 0 (by omega)
    rw [Nat.add_zero, if_neg (by omega)] at h0
    rw [wordAt_eq, h0, hm 1 (by omega), hm 2 (by omega), hm 3 (by omega), hm 4 (by omega),
      hm 5 (by omega), hm 6 (by omega), hm 7 (by omega)]
    have hr := Nat.mod_lt len (by omega : 8 > 0)
    generalize len % 8 = r at *
    interval_cases r <;> simp <;> omega
  simp only [key8One]
  rw [if_pos ⟨h, by rw [key8Loop_tail h]; rfl⟩, hword,
    shift_to_byte o (by omega) (Nat.mod_lt _ (by omega))]

/-- The words between the first one and the last one add nothing. -/
theorem key8_front (h : len % 8 ≠ 0) (hlen : 8 < len) {k : Nat} (hk : k < len / 8) :
    (List.range (k + 1)).foldl (fun n i => n ^^^ 271 * key8One (tailMem len o) len i) 0 =
      271 ^^^ UInt64.ofNat (key8Loop len) * 271 := by
  induction k with
  | zero =>
    have hinv : (271 : UInt64) * inverse271 = 1 := by decide
    rw [List.range_one, List.foldl_cons, List.foldl_nil, key8One_first o h hlen, firstWord,
      ← UInt64.mul_assoc, hinv, UInt64.one_mul, UInt64.zero_xor]
  | succ k ih =>
    rw [List.range_succ, List.foldl_append, ih (by omega), List.foldl_cons, List.foldl_nil,
      key8One_zero o h (by omega) hk, UInt64.mul_zero, UInt64.xor_zero]

theorem xor_cancel (a x b : UInt64) : a ^^^ x ^^^ b ^^^ x = b ^^^ a := by
  rw [UInt64.xor_assoc (a ^^^ x), UInt64.xor_comm b x, UInt64.xor_assoc a x,
    ← UInt64.xor_assoc x x b, UInt64.xor_self, UInt64.zero_xor, UInt64.xor_comm]

theorem key8_tail (h : len % 8 ≠ 0) (size : Nat) :
    shsHashtableHashKey8 (tailMem len o) len size =
      (271 * o.toUInt64 ^^^ 271).toNat % size := by
  simp only [shsHashtableHashKey8]
  rw [key8Loop_tail h, List.range_succ, List.foldl_append, List.foldl_cons, List.foldl_nil,
    key8One_last o h]
  by_cases hlen : 8 < len
  · obtain ⟨k, hk⟩ : ∃ k, len / 8 = k + 1 := ⟨len / 8 - 1, by omega⟩
    have hfront := key8_front o h hlen (k := k) (by omega)
    rw [key8Loop_tail h, hk] at hfront
    rw [hk, hfront]
    rw [xor_cancel]
  · have hz : len / 8 = 0 := by omega
    rw [hz, List.range_zero, List.foldl_nil, UInt64.zero_xor]
    rfl

end Tail

/-- `shs_hashtable_hash_hash4` and `shs_hashtable_hash_low` depend on the key only;
`shs_hashtable_hash_key8` does when the key consists of whole words, or where there is one bucket
only. -/
theorem keyOnly_iff {f : HashFunction} {len size : Nat} (hsize : 0 < size) :
    KeyOnly f len size ↔ (f = .key8 → len % 8 = 0 ∨ size = 1) := by
  constructor
  · rintro hk rfl
    by_contra hc
    obtain ⟨htail, hone⟩ := not_or.1 hc
    have hrun := fun o : Byte =>
      (hk (tailMem len 0) (tailMem len o) (tailMem_agree len 0 o)).1
    simp only [HashFunction.run, key8_tail _ htail] at hrun
    have h1 : 271 % size = 0 % size := hrun 1
    have h2 : 271 % size = 785 % size := hrun 2
    have hdvd : size ∣ 271 := Nat.dvd_of_mod_eq_zero (by rw [h1, Nat.zero_mod])
    rcases (Nat.dvd_prime (by norm_num)).1 hdvd with h | h
    · exact hone h
    · rw [h] at h2
      omega
  · intro h
    refine keyOnly_of_eq hsize fun m m' hm => ?_
    cases f with
    | hash4 => exact hash4_congr hm size
    | low => exact hashLow_congr hm size
    | key8 =>
      rcases h rfl with h | h
      · exact key8_congr hm h size
      · subst h
        exact (Nat.mod_one _).trans (Nat.mod_one _).symm

theorem keyOnly_iff_hash4 : KeyOnly .hash4 5 1024 :=
  (keyOnly_iff (by decide)).2 fun h => nomatch h

/-- The key "a" with two different bytes behind it. -/
theorem key8_reads_behind : ¬ KeyOnly .key8 1 1024 := by
  intro h
  have hrun := (h (fun i => if i = 0 then 97 else 0) (fun i => if i = 0 then 97 else 1)
    (by decide)).1
  exact absurd hrun (by decide)

end HashTable
end Shs
