import Mathlib.NumberTheory.LucasLehmer
import Mathlib.NumberTheory.LucasPrimality
import Mathlib.Tactic.NormNum.Prime
import Mathlib.Tactic.ReduceModChar
import Shs.Core.HashTable
import Shs.Core.Math
import Shs.Lib.Region
import Shs.Lib.Run
import Shs.Lib.TrialDivision

/-!
# Core.FindPrime

`shs_math_is_prime`, `shs_math_find_prime` and the number of buckets that `shs_hashtable_init`
takes from them. The loops count in `size_t`; as long as the square root of the number tested is
below the largest `uint32_t`, the squares do not wrap. That the search for the next prime does not
leave these numbers rests on a prime between 2^63 and their end.
-/

namespace Shs
namespace FindPrime

open HashTable

/-- A turn of the loop of `shs_math_is_prime`: the result, or the next `i`. -/
def isPrimeTurn (x i : Nat) : Bool ⊕ Nat :=
  if sizeT (i * i) ≤ x then
    if x % i = 0 then .inl false else .inr (sizeT (i + 1))
  else .inl true

/-- The loop, for at most `n` turns. -/
def isPrimeLoop (x : Nat) : Nat → Nat → Option Bool
  | 0, _ => none
  | n + 1, i =>
    match isPrimeTurn x i with
    | .inl b => some b
    | .inr i => isPrimeLoop x n i

def shsMathIsPrime (n x : Nat) : Option Bool :=
  if x ≤ 1 then some false else isPrimeLoop x n 2

/-- The loop of `shs_math_find_prime`, for at most `m` turns with at most `n` turns of the inner
loop in each. -/
def findPrimeLoop (n : Nat) : Nat → Nat → Option Nat
  | 0, _ => none
  | m + 1, x =>
    match shsMathIsPrime n x with
    | none => none
    | some true => some x
    | some false => findPrimeLoop n m (sizeT (x + 1))

/-- `shs_math_find_prime`, with at most `n` turns of each loop. -/
def shsMathFindPrime (n x : Nat) : Option Nat := findPrimeLoop n n x

def SHS_HASHTABLE_DEFAULT_SIZE : Nat := 7951

/-- `sizeof(shs_hashtable_link_t *)`. -/
def linkPtrSize : Nat := 8

/-- `ht->size`. -/
def tableSize (n hashSz : Nat) : Option Nat :=
  if hashSz = 0 then some SHS_HASHTABLE_DEFAULT_SIZE else shsMathFindPrime n hashSz

/-- An initialised table and the memory that `ht->buckets` points to. -/
structure Initialised where
  table   : Table
  buckets : Region

/-- `shs_hashtable_init`, with `calloc` for `memory_calloc` or the one of the allocator; the inner
`none` is `SHS_HASHTABLE_ERROR`. -/
def shsHashtableInit (n : Nat) (calloc : Nat → Option Nat) (hashSz : Nat) :
    Option (Option Initialised) :=
  (tableSize n hashSz).map fun size =>
    let bytes := sizeT (size * linkPtrSize)
    (calloc bytes).map fun p => ⟨{ size := size }, ⟨p, bytes⟩⟩

/-! ## What is asked of the size -/

/-- The least prime from `x` on is `p`, and the search ends with it without a wrapped square. -/
structure Finds (x p : Nat) : Prop where
  least  : IsLeast {q | q.Prime ∧ x ≤ q} p
  ends   : ∃ n₀, ∀ n ≥ n₀, shsMathFindPrime n x = some p
  nowrap : ∀ y, x ≤ y → y ≤ p → ∀ k i,
    Run.Steps (fun i => (isPrimeTurn y i).getRight?) k 2 i → i * i < 2 ^ 64

/-- The size of every table made for `x` buckets. -/
def Sized (x : Nat) : Prop :=
  ∀ n calloc t, shsHashtableInit n calloc x = some (some t) →
    t.table.size.Prime ∧ t.table.size ≠ 0 ∧ x ≤ t.table.size

/-- There is memory for as many buckets. -/
def Housed (x : Nat) : Prop :=
  ∀ n calloc t, shsHashtableInit n calloc x = some (some t) →
    t.table.size * linkPtrSize ≤ t.buckets.size

/-- A request for `x` buckets: the search is right and every table has the buckets found. -/
structure Selected (x : Nat) : Prop where
  found  : ∃ p, Finds x p
  sized  : Sized x
  housed : Housed x

/-! ## Trial division -/

/-- The largest `i` with a square in `size_t`. -/
def bound : Nat := 2 ^ 32 - 1

section Loop

variable {x i : Nat}

theorem square_lt (hi : i ≤ bound) : i * i < 2 ^ 64 := by
  have hsq : i * i ≤ bound * bound := Nat.mul_le_mul hi hi
  unfold bound at hsq
  omega

theorem isPrimeTurn_spec (hx : x < bound * bound) (h : TrialDivision x i) :
    isPrimeTurn x i = .inl (decide x.Prime) ∨
      (isPrimeTurn x i = .inr (i + 1) ∧ TrialDivision x (i + 1)) := by
  have hi := h.le_of_lt_sq hx
  have hnext : sizeT (i + 1) = i + 1 := sizeT_of_lt (by unfold bound at hi; omega)
  rw [isPrimeTurn, sizeT_of_lt (square_lt hi), hnext]
  by_cases hle : i * i ≤ x
  · rw [if_pos hle]
    by_cases hd : x % i = 0
    · rw [if_pos hd, decide_eq_false (h.not_prime hle (Nat.dvd_of_mod_eq_zero hd))]
      exact .inl rfl
    · rw [if_neg hd]
      exact .inr ⟨rfl, h.next hle fun hdvd => hd (Nat.mod_eq_zero_of_dvd hdvd)⟩
  · rw [if_neg hle, decide_eq_true (h.prime (Nat.lt_of_not_le hle))]
    exact .inl rfl

/-- The loop decides primality, or has had too few turns. -/
theorem isPrimeLoop_spec (hx : x < bound * bound) (n : Nat) (h : TrialDivision x i) :
    isPrimeLoop x n i = some (decide x.Prime) ∨
      (isPrimeLoop x n i = none ∧ n + i ≤ bound) := by
  induction n generalizing i with
  | zero =>
    have hi := h.le_of_lt_sq hx
    exact .inr ⟨rfl, by omega⟩
  | succ n ih =>
    rw [isPrimeLoop]
    rcases isPrimeTurn_spec hx h with hturn | ⟨hturn, hnext⟩
    · rw [hturn]
      exact .inl rfl
    · rw [hturn]
      rcases ih hnext with hres | ⟨hres, hle⟩
      · exact .inl hres
      · exact .inr ⟨hres, by omega⟩

theorem shsMathIsPrime_spec (hx : x < bound * bound) (n : Nat) :
    shsMathIsPrime n x = some (decide x.Prime) ∨ (shsMathIsPrime n x = none ∧ n ≤ bound) := by
  rw [shsMathIsPrime]
  by_cases h1 : x ≤ 1
  · have hnot : ¬ x.Prime := fun hp => absurd hp.two_le (by omega)
    rw [if_pos h1, decide_eq_false hnot]
    exact .inl rfl
  · rw [if_neg h1]
    rcases isPrimeLoop_spec hx n (.start (by omega)) with hres | ⟨hres, hle⟩
    · exact .inl hres
    · exact .inr ⟨hres, by omega⟩

/-- Every `i` that the loop reaches has a square in `size_t`. -/
theorem square_of_steps (hx : x < bound * bound) (h : TrialDivision x i) {k j : Nat}
    (hs : Run.Steps (fun i => (isPrimeTurn x i).getRight?) k i j) : j * j < 2 ^ 64 := by
  induction hs with
  | start i => exact square_lt (h.le_of_lt_sq hx)
  | step hnext hs ih =>
    rcases isPrimeTurn_spec hx h with hturn | ⟨hturn, htrial⟩
    · rw [hturn] at hnext
      cases hnext
    · rw [hturn] at hnext
      cases hnext
      exact ih htrial

end Loop

/-! ## Two primes -/

/-- `27 * 2 ^ 59 + 1`, a prime from 2^63 on whose square root is below `bound`. -/
def farPrime : Nat := 15564440312192434177

/-- 5 generates the units: its order divides `27 * 2 ^ 59`, but neither half nor a third of it. -/
theorem farPrime_prime : farPrime.Prime := by
  refine lucas_primality farPrime 5 (by unfold farPrime; reduce_mod_char) fun q hq hd => ?_
  have hfactors : farPrime - 1 = 2 ^ 59 * 3 ^ 3 := by norm_num [farPrime]
  have hhalf : (farPrime - 1) / 2 = 7782220156096217088 := by norm_num [farPrime]
  have hthird : (farPrime - 1) / 3 = 5188146770730811392 := by norm_num [farPrime]
  rw [hfactors] at hd
  rcases (Nat.Prime.dvd_mul hq).1 hd with h2 | h3
  · obtain rfl := (Nat.prime_dvd_prime_iff_eq hq Nat.prime_two).1 (hq.dvd_of_dvd_pow h2)
    rw [hhalf]
    unfold farPrime
    reduce_mod_char
    decide
  · obtain rfl := (Nat.prime_dvd_prime_iff_eq hq Nat.prime_three).1 (hq.dvd_of_dvd_pow h3)
    rw [hthird]
    unfold farPrime
    reduce_mod_char
    decide

theorem farPrime_bounds : 2 ^ 63 ≤ farPrime ∧ farPrime < bound * bound := by
  unfold farPrime bound
  omega

/-- The number of pointers that fit into `size_t` is a prime. -/
theorem lastPrime_prime : (2 ^ 61 - 1 : Nat).Prime :=
  lucas_lehmer_sufficiency 61 (by norm_num) (by norm_num)

/-! ## The search -/

theorem isLeast_next {x p : Nat} (hx : ¬ x.Prime) (h : IsLeast {q | q.Prime ∧ x ≤ q} p) :
    x < p ∧ IsLeast {q | q.Prime ∧ x + 1 ≤ q} p := by
  obtain ⟨⟨hprime, hle⟩, hleast⟩ := h
  have hlt : x < p := by
    rcases Nat.lt_or_eq_of_le hle with hlt | rfl
    · exact hlt
    · exact absurd hprime hx
  refine ⟨hlt, ⟨hprime, hlt⟩, ?_⟩
  rintro q ⟨hq, hxq⟩
  exact hleast ⟨hq, by omega⟩

/-- The search gives the least prime, or has had too few turns. -/
theorem findPrimeLoop_spec {p : Nat} (hp : p < bound * bound) (n m : Nat) {x : Nat}
    (h : IsLeast {q | q.Prime ∧ x ≤ q} p) :
    findPrimeLoop n m x = some p ∨
      (findPrimeLoop n m x = none ∧ (n ≤ bound ∨ m ≤ p - x)) := by
  induction m generalizing x with
  | zero => exact .inr ⟨rfl, .inr (Nat.zero_le _)⟩
  | succ m ih =>
    have hle : x ≤ p := h.1.2
    rw [findPrimeLoop]
    rcases shsMathIsPrime_spec (Nat.lt_of_le_of_lt hle hp) n with hres | ⟨hres, hn⟩
    · rw [hres]
      by_cases hx : x.Prime
      · rw [decide_eq_true hx, Nat.le_antisymm (h.2 ⟨hx, Nat.le_refl x⟩) hle]
        exact .inl rfl
      · obtain ⟨hlt, hnext⟩ := isLeast_next hx h
        have hsize : sizeT (x + 1) = x + 1 := sizeT_of_lt (by unfold bound at hp; omega)
        rw [decide_eq_false hx]
        simp only [hsize]
        rcases ih hnext with hfound | ⟨hnone, hfuel⟩
        · exact .inl hfound
        · refine .inr ⟨hnone, hfuel.imp_right fun hm => ?_⟩
          omega
    · rw [hres]
      exact .inr ⟨rfl, .inl hn⟩

/-- The least prime from `x` on is not behind a prime `b` behind `x`. -/
theorem exists_least {x b : Nat} (hb : b.Prime) (hx : x ≤ b) :
    ∃ p ≤ b, IsLeast {q | q.Prime ∧ x ≤ q} p := by
  have hex : ∃ q, q.Prime ∧ x ≤ q := ⟨b, hb, hx⟩
  refine ⟨Nat.find hex, Nat.find_min' hex ⟨hb, hx⟩, Nat.find_spec hex, ?_⟩
  intro q hq
  exact Nat.find_min' hex hq

theorem finds {x p : Nat} (hp : p < bound * bound) (h : IsLeast {q | q.Prime ∧ x ≤ q} p) :
    Finds x p where
  least := h
  ends := by
    refine ⟨2 ^ 64, fun n hn => ?_⟩
    rcases findPrimeLoop_spec hp n n h with hfound | ⟨-, hfuel⟩
    · exact hfound
    · unfold bound at hp hfuel
      omega
  nowrap := by
    intro y _ hyp k i hs
    have hy : y < bound * bound := Nat.lt_of_le_of_lt hyp hp
    by_cases h2 : 2 ≤ y
    · exact square_of_steps hy (.start h2) hs
    · -- the loop ends at once, with 4 above the number
      cases hs with
      | start => decide
      | step hnext =>
        have hfour : sizeT (2 * 2) = 4 := rfl
        have hstop : isPrimeTurn y 2 = .inl true := if_neg (by omega)
        rw [hstop] at hnext
        cases hnext

/-! ## The table -/

theorem defaultSize_prime : SHS_HASHTABLE_DEFAULT_SIZE.Prime := by
  norm_num [SHS_HASHTABLE_DEFAULT_SIZE]

/-- The size for a request, and a bound for it that is a prime. -/
theorem tableSize_spec {x b n size : Nat} (hb : b.Prime) (hlt : b < bound * bound) (hx : x ≤ b)
    (hdefault : SHS_HASHTABLE_DEFAULT_SIZE ≤ b) (h : tableSize n x = some size) :
    size.Prime ∧ x ≤ size ∧ size ≤ b := by
  unfold tableSize at h
  split at h
  · rename_i hzero
    cases h
    exact ⟨defaultSize_prime, by omega, hdefault⟩
  · obtain ⟨p, hpb, hleast⟩ := exists_least hb hx
    rcases findPrimeLoop_spec (Nat.lt_of_le_of_lt hpb hlt) n n hleast with hfound | ⟨hnone, -⟩
    · rw [shsMathFindPrime, hfound] at h
      cases h
      exact ⟨hleast.1.1, hleast.1.2, hpb⟩
    · rw [shsMathFindPrime, hnone] at h
      cases h

/-- What an initialisation that succeeds has made. -/
theorem init_some {n x : Nat} {calloc : Nat → Option Nat} {t : Initialised}
    (h : shsHashtableInit n calloc x = some (some t)) :
    tableSize n x = some t.table.size ∧ t.buckets.size = sizeT (t.table.size * linkPtrSize) := by
  obtain ⟨size, hsize, hcalloc⟩ := Option.map_eq_some_iff.1 h
  obtain ⟨p, -, rfl⟩ := Option.map_eq_some_iff.1 hcalloc
  exact ⟨hsize, rfl⟩

theorem sized {x : Nat} (hx : x ≤ 2 ^ 63) : Sized x := by
  intro n calloc t ht
  have hbounds := farPrime_bounds
  obtain ⟨hprime, hle, -⟩ := tableSize_spec farPrime_prime hbounds.2 (by omega) (by decide)
    (init_some ht).1
  exact ⟨hprime, hprime.ne_zero, hle⟩

theorem housed {x : Nat} (hx : x < 2 ^ 61) : Housed x := by
  intro n calloc t ht
  obtain ⟨hsize, hbytes⟩ := init_some ht
  obtain ⟨-, -, hle⟩ := tableSize_spec lastPrime_prime (by decide) (by omega) (by decide) hsize
  rw [hbytes, sizeT_of_lt (by unfold linkPtrSize; omega)]

/-- From 2^61 on, the number of bytes wraps: a `calloc` that succeeds gives too few of them. -/
theorem not_housed {x : Nat} (hlo : 2 ^ 61 ≤ x) (hx : x ≤ 2 ^ 63) : ¬ Housed x := by
  intro h
  have hbounds := farPrime_bounds
  obtain ⟨p, hpb, hleast⟩ := exists_least farPrime_prime (show x ≤ farPrime by omega)
  obtain ⟨n, hn⟩ := (finds (Nat.lt_of_le_of_lt hpb hbounds.2) hleast).ends
  have hsize : tableSize n x = some p := by
    rw [tableSize, if_neg (by omega), hn n (Nat.le_refl n)]
  have hinit : shsHashtableInit n (fun _ => some 4096) x =
      some (some ⟨{ size := p }, ⟨4096, sizeT (p * linkPtrSize)⟩⟩) := by
    rw [shsHashtableInit, hsize]
    rfl
  have hroom : p * linkPtrSize ≤ sizeT (p * linkPtrSize) := h n _ _ hinit
  have hle : x ≤ p := hleast.1.2
  have hwrap := sizeT_lt (p * linkPtrSize)
  unfold linkPtrSize at hroom hwrap
  omega

/-- For every request up to 2^63 the search ends with the least prime from there on, no square in
it wraps, and the size of the table is a prime that is not smaller. The table has memory for so
many buckets just for the requests below 2^61. -/
theorem table_selected_iff {x : Nat} (hx : x ≤ 2 ^ 63) :
    (∃ p, Finds x p) ∧ Sized x ∧ (Selected x ↔ x < 2 ^ 61) := by
  have hbounds := farPrime_bounds
  obtain ⟨p, hpb, hleast⟩ := exists_least farPrime_prime (show x ≤ farPrime by omega)
  have hfinds : ∃ p, Finds x p := ⟨p, finds (Nat.lt_of_le_of_lt hpb hbounds.2) hleast⟩
  refine ⟨hfinds, sized hx, fun h => ?_, fun hlt => ⟨hfinds, sized hx, housed hlt⟩⟩
  by_contra hge
  exact not_housed (Nat.le_of_not_lt hge) hx h.housed

/-- A request for 100 buckets. -/
theorem table_selected_hundred : Selected 100 :=
  (table_selected_iff (by decide)).2.2.2 (by decide)

/-- A request for 2^61 buckets is given a few bytes. -/
theorem table_not_housed : ¬ Selected (2 ^ 61) := by
  intro h
  exact not_housed (Nat.le_refl _) (by decide) h.housed

end FindPrime
end Shs
