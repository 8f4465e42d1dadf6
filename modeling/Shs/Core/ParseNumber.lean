import Shs.Core.Bytes

/-!
# Core.ParseNumber

The number parsers of `shs_string.cc` that read a field of `n` bytes. They are one function of the
digits, the base and the width of the result. Signed arithmetic wraps.

A minus sign is stepped over without being counted, so a field that is a sign and digits to its end
is read one byte too far.
-/

namespace Shs
namespace ParseNumber

/-- The memory from `line` on. -/
abbrev Memory := Nat → Byte

/-- What the three functions differ in. -/
structure Kind where
  digit : Byte → Option Nat
  base  : Nat
  width : Nat

/-- A value of the result type. -/
def Kind.wrap (k : Kind) (v : Int) : Int := Int.bmod v (2 ^ k.width)

/-- `for (value = 0; n--; line++)`. -/
def digitLoop (k : Kind) (m : Memory) : Nat → Nat → Int → Int
  | 0, _, value => value
  | n + 1, line, value =>
    match k.digit (m line) with
    | none => value
    | some d => digitLoop k m n (line + 1) (k.wrap (value * k.base + d))

def parse (k : Kind) (m : Memory) (n : Nat) : Int :=
  if n = 0 then 0
  else if m 0 = 45 then k.wrap (-digitLoop k m n 1 0)
  else digitLoop k m n 0 0

def decDigit (c : Byte) : Option Nat := if c < 48 ∨ c > 57 then none else some (c.toNat - 48)

def hexDigit (ch : Byte) : Option Nat :=
  if 48 ≤ ch ∧ ch ≤ 57 then some (ch.toNat - 48)
  else
    let c := ch ||| 0x20
    if 97 ≤ c ∧ c ≤ 102 then some (c.toNat - 97 + 10) else none

def decInt : Kind := ⟨decDigit, 10, 32⟩
def hexInt : Kind := ⟨hexDigit, 16, 32⟩
def decSsize : Kind := ⟨decDigit, 10, 64⟩

def stringXxstrtoi (m : Memory) (n : Nat) : Int := parse decInt m n
def stringXxstrhextoi (m : Memory) (n : Nat) : Int := parse hexInt m n
def stringXxstrtossize (m : Memory) (n : Nat) : Int := parse decSsize m n

/-! ## The value of a field -/

/-- The digits at the start of a text. -/
def leading (digit : Byte → Option Nat) : Bytes → List Nat
  | [] => []
  | c :: cs =>
    match digit c with
    | none => []
    | some d => d :: leading digit cs

def magnitude (base : Nat) (ds : List Nat) : Int := ds.foldl (fun (v : Int) (d : Nat) => v * base + d) 0

/-- The value of the longest prefix that is an optional minus sign and digits. -/
def prefixValue (k : Kind) : Bytes → Int
  | 45 :: cs => -magnitude k.base (leading k.digit cs)
  | cs => magnitude k.base (leading k.digit cs)

/-- The bytes `m[s..s+n)`. -/
def field (m : Memory) (s n : Nat) : Bytes := (List.range' s n).map m

def Kind.Fits (k : Kind) (v : Int) : Prop := -2 ^ (k.width - 1) ≤ v ∧ v < 2 ^ (k.width - 1)

/-- The result depends on the bytes of the field only, and is the value of the number at its start
when that fits. -/
structure Bounded (k : Kind) (f : Memory → Nat → Int) (xs : Bytes) : Prop where
  same  : ∀ m m', field m 0 xs.length = xs → field m' 0 xs.length = xs →
    f m xs.length = f m' xs.length
  value : ∀ m, field m 0 xs.length = xs → k.Fits (prefixValue k xs) →
    f m xs.length = prefixValue k xs

/-- A minus sign, and digits to the end. -/
def SignedRun (digit : Byte → Option Nat) (xs : Bytes) : Prop :=
  ∃ cs, xs = 45 :: cs ∧ ∀ c ∈ cs, (digit c).isSome = true

section Field

variable {k : Kind} {m : Memory} {digit : Byte → Option Nat}

theorem field_succ (m : Memory) (s n : Nat) : field m s (n + 1) = m s :: field m (s + 1) n := by
  rw [field, List.range'_succ, List.map_cons, field]

theorem field_concat (m : Memory) (s n : Nat) : field m s (n + 1) = field m s n ++ [m (s + n)] := by
  rw [field, List.range'_1_concat, List.map_append, field, List.map_singleton]

/-- The digits of a text in which a byte is none do not depend on what follows. -/
theorem leading_append {xs : Bytes} (h : ¬ ∀ c ∈ xs, (digit c).isSome = true) (ys : Bytes) :
    leading digit (xs ++ ys) = leading digit xs := by
  induction xs with
  | nil => exact absurd (by simp) h
  | cons c cs ih =>
    rw [List.cons_append, leading, leading]
    cases hd : digit c with
    | none => rfl
    | some d =>
      have hcs : ¬ ∀ c ∈ cs, (digit c).isSome = true := by
        intro hall
        exact h (List.forall_mem_cons.2 ⟨by rw [hd]; rfl, hall⟩)
      rw [ih hcs]

theorem leading_append_of_all {xs : Bytes} (h : ∀ c ∈ xs, (digit c).isSome = true) (ys : Bytes) :
    leading digit (xs ++ ys) = leading digit xs ++ leading digit ys := by
  induction xs with
  | nil => rfl
  | cons c cs ih =>
    obtain ⟨hc, hcs⟩ := List.forall_mem_cons.1 h
    obtain ⟨d, hd⟩ := Option.isSome_iff_exists.1 hc
    rw [List.cons_append, leading, leading, hd, ih hcs]
    rfl

theorem magnitude_concat (base : Nat) (ds : List Nat) (d : Nat) :
    magnitude base (ds ++ [d]) = magnitude base ds * base + d := by
  rw [magnitude, List.foldl_append, magnitude]
  rfl

/-! ## The loop -/

theorem wrap_step (k : Kind) (v d : Int) :
    k.wrap (k.wrap v * k.base + d) = k.wrap (v * k.base + d) := by
  rw [Kind.wrap, Kind.wrap, ← Int.bmod_add_bmod, Int.bmod_mul_bmod, Int.bmod_add_bmod, ← Kind.wrap]

/-- The loop computes the value of the digits, wrapped. -/
theorem digitLoop_eq (n line : Nat) (v : Int) :
    digitLoop k m n line (k.wrap v) =
      k.wrap ((leading k.digit (field m line n)).foldl
        (fun (v : Int) (d : Nat) => v * k.base + d) v) := by
  induction n generalizing line v with
  | zero => rfl
  | succ n ih =>
    rw [digitLoop, field_succ, leading]
    cases hd : k.digit (m line) with
    | none => rfl
    | some d =>
      simp only
      rw [wrap_step, ih]
      rfl

theorem digitLoop_zero (n line : Nat) :
    digitLoop k m n line 0 = k.wrap (magnitude k.base (leading k.digit (field m line n))) := by
  have h0 : k.wrap 0 = 0 := Int.zero_bmod
  have h := digitLoop_eq (k := k) (m := m) n line 0
  rwa [h0] at h

theorem wrap_neg (k : Kind) (v : Int) : k.wrap (-k.wrap v) = k.wrap (-v) := Int.bmod_neg_bmod

/-- A field that is not a signed run gives the value of its prefix, wrapped. -/
theorem parse_eq {xs : Bytes} (hm : field m 0 xs.length = xs) (h : ¬ SignedRun k.digit xs) :
    parse k m xs.length = k.wrap (prefixValue k xs) := by
  cases xs with
  | nil => exact Int.zero_bmod.symm
  | cons c cs =>
    rw [List.length_cons, field_succ, List.cons.injEq] at hm
    obtain ⟨rfl, hcs⟩ := hm
    rw [List.length_cons, parse, if_neg (Nat.succ_ne_zero _)]
    by_cases hminus : m 0 = 45
    · have hrun : ¬ ∀ c ∈ cs, (k.digit c).isSome = true := fun hall => h ⟨cs, by rw [hminus], hall⟩
      rw [if_pos hminus, digitLoop_zero, field_concat, hcs, leading_append hrun, wrap_neg, hminus,
        prefixValue]
    · have hplain : prefixValue k (m 0 :: cs) = magnitude k.base (leading k.digit (m 0 :: cs)) := by
        unfold prefixValue
        split
        · rename_i heq
          exact absurd (List.head_eq_of_cons_eq heq) hminus
        · rfl
      rw [if_neg hminus, digitLoop_zero, field_succ, hcs, hplain]

/-- A signed run takes the byte behind the field for a digit. -/
theorem parse_signedRun {cs : Bytes} {d : Nat} (hm : field m 0 (cs.length + 1) = 45 :: cs)
    (hcs : ∀ c ∈ cs, (k.digit c).isSome = true) (hd : k.digit (m (cs.length + 1)) = some d) :
    parse k m (cs.length + 1) =
      k.wrap (-(magnitude k.base (leading k.digit cs) * k.base + d)) := by
  rw [field_succ, List.cons.injEq] at hm
  obtain ⟨hminus, hfield⟩ := hm
  have hlast : leading k.digit [m (1 + cs.length)] = [d] := by
    rw [Nat.add_comm, leading, hd]
    rfl
  rw [parse, if_neg (Nat.succ_ne_zero _), if_pos hminus, digitLoop_zero, field_concat, hfield,
    leading_append_of_all hcs, hlast, wrap_neg, magnitude_concat]

theorem wrap_fits {v : Int} (hw : 0 < k.width) (h : k.Fits v) : k.wrap v = v := by
  obtain ⟨w, hw⟩ := Nat.exists_eq_succ_of_ne_zero (Nat.ne_of_gt hw)
  obtain ⟨hlo, hhi⟩ := h
  rw [hw, Nat.succ_sub_one] at hlo hhi
  have hpow : ((2 ^ k.width : Nat) : Int) = 2 ^ w * 2 := by
    rw [hw, Nat.cast_pow, Nat.cast_ofNat, pow_succ]
  rw [Kind.wrap]
  apply Int.bmod_eq_of_le <;> omega

/-- Two results that are one apart are different. -/
theorem wrap_ne (hw : 0 < k.width) (v : Int) :
    k.wrap (-(v + (0 : Nat))) ≠ k.wrap (-(v + (1 : Nat))) := by
  intro h
  rw [Kind.wrap, Kind.wrap, Int.bmod_eq_bmod_iff_bmod_sub_eq_zero] at h
  have hdvd : ((2 ^ k.width : Nat) : Int) ∣ 1 := by
    have hone : -(v + (0 : Nat)) - -(v + (1 : Nat)) = 1 := by omega
    rw [hone] at h
    exact Int.dvd_of_bmod_eq_zero h
  have hle := Nat.le_of_dvd Nat.one_pos (Int.natCast_dvd_natCast.1 hdvd)
  have hlt := Nat.one_lt_two_pow (Nat.ne_of_gt hw)
  omega

/-- The bytes `xs` and `c` behind them. -/
def behind (xs : Bytes) (c : Byte) : Memory := fun i => xs.getD i c

theorem field_behind (xs : Bytes) (c : Byte) : field (behind xs c) 0 xs.length = xs := by
  refine List.ext_getElem (by simp [field]) fun i hi hi' => ?_
  simp [field, behind, hi']

theorem behind_length (xs : Bytes) (c : Byte) : behind xs c xs.length = c := by
  simp [behind]

/-- A parser keeps to its field exactly when the field is not a minus sign with digits to the end. -/
theorem bounded_iff (hw : 0 < k.width) (h0 : k.digit 48 = some 0) (h1 : k.digit 49 = some 1)
    (xs : Bytes) : Bounded k (parse k) xs ↔ ¬ SignedRun k.digit xs := by
  constructor
  · rintro ⟨hsame, -⟩ ⟨cs, rfl, hcs⟩
    have hzero := parse_signedRun (field_behind (45 :: cs) 48) hcs
      ((congrArg k.digit (behind_length (45 :: cs) 48)).trans h0)
    have hone := parse_signedRun (field_behind (45 :: cs) 49) hcs
      ((congrArg k.digit (behind_length (45 :: cs) 49)).trans h1)
    have heq := hsame _ _ (field_behind (45 :: cs) 48) (field_behind (45 :: cs) 49)
    exact wrap_ne hw _ (hzero.symm.trans (heq.trans hone))
  · intro h
    refine ⟨fun m m' hm hm' => ?_, fun m hm hfits => ?_⟩
    · rw [parse_eq hm h, parse_eq hm' h]
    · rw [parse_eq hm h, wrap_fits hw hfits]

end Field

/-- The three parsers keep to their fields exactly when no minus sign is followed by digits only. -/
theorem parsers_bounded_iff (xs : Bytes) :
    (Bounded decInt stringXxstrtoi xs ↔ ¬ SignedRun decDigit xs) ∧
      (Bounded hexInt stringXxstrhextoi xs ↔ ¬ SignedRun hexDigit xs) ∧
      (Bounded decSsize stringXxstrtossize xs ↔ ¬ SignedRun decDigit xs) :=
  ⟨bounded_iff (by decide) (by decide) (by decide) xs,
    bounded_iff (by decide) (by decide) (by decide) xs,
    bounded_iff (by decide) (by decide) (by decide) xs⟩

/-- The field "-1" in front of a "2" is read as -12, and not in front of a blank. -/
theorem parsers_not_bounded :
    ¬ Bounded decInt stringXxstrtoi (str "-1") ∧ ¬ Bounded hexInt stringXxstrhextoi (str "-1") ∧
      ¬ Bounded decSsize stringXxstrtossize (str "-1") := by
  refine ⟨fun h => ?_, fun h => ?_, fun h => ?_⟩
  · exact absurd (h.same (behind (str "-1") 50) (behind (str "-1") 32) (by decide) (by decide))
      (by decide)
  · exact absurd (h.same (behind (str "-1") 50) (behind (str "-1") 32) (by decide) (by decide))
      (by decide)
  · exact absurd (h.same (behind (str "-1") 50) (behind (str "-1") 32) (by decide) (by decide))
      (by decide)

end ParseNumber
end Shs
