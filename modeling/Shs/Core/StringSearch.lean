import Shs.Core.Bytes
import Shs.Core.Math
import Shs.Lib.Scan

/-!
# Core.StringSearch

The five substring searches of `shs_string.cc`. Each looks for the first byte of the needle, `x`, and
compares the rest of it, `ys`, with what follows; positions are counted from `s1`. They differ in
where the text ends, in the case of letters, and in how many bytes are compared.

`string_xxstrcasestrn` compares one byte too few and takes the first byte of the needle for a signed
one, and `string_xxstrlstrn` ignores the case of the first byte and of no other.
-/

namespace Shs
namespace StringSearch

open Scan

abbrev Memory := Nat → Byte

/-- `(c >= 'A' && c <= 'Z') ? (c | 0x20) : c`. -/
def lower (c : Byte) : Byte := if 65 ≤ c ∧ c ≤ 90 then c ||| 0x20 else c

/-- The same on the `uint32_t` of `string_xxstrcasestrn`. -/
def lower32 (c : UInt32) : UInt32 := if 65 ≤ c ∧ c ≤ 90 then c ||| 0x20 else c

/-- `(uint32_t) *s2` for a `char *s2`: a `char` is signed. -/
def charUInt32 (c : Byte) : UInt32 := c.toInt8.toInt32.toUInt32

/-- `strncmp(s1, s2, n) == 0`, and with `lower` `string_xxstrncasecmp(s1, s2, n) == 0`, for the text
at `s` and the C string `ys`: whether it holds, and what is read of the text. -/
def compare (fold : Byte → Byte) (m : Memory) : Bytes → Nat → Nat → Bool × List Nat
  | _, 0, _ => (true, [])
  | ys, n + 1, s =>
    let c1 := fold (m s)
    let c2 := fold (ys.headD NUL)
    if c1 = c2 then
      if c1 ≠ NUL then
        let r := compare fold m ys.tail n (s + 1)
        (r.1, s :: r.2)
      else (true, [s])
    else (false, [s])

/-- The text ends at a NUL. -/
def atNul (m : Memory) (s : Nat) : Bool × List Nat := (m s == NUL, [s])

/-- The text ends at `last`, from which `n` is taken before; a byte in front of that is read. -/
def atLast (last n s : Nat) : Bool × List Nat :=
  if (s : Int) ≥ last - n then (true, []) else (false, [s])

/-- The byte at `s`, of which `first` is to be `c2`, and the bytes that follow it, of which `n` are
compared. -/
def testAt {γ : Type} [DecidableEq γ] (first : Byte → γ) (c2 : γ) (rest : Byte → Byte) (m : Memory)
    (ys : Bytes) (n s : Nat) : Option Bool × List Nat :=
  if first (m s) ≠ c2 then (some false, [])
  else
    let r := compare rest m ys n (s + 1)
    (some r.1, r.2)

/-- `len` is the number of bytes of the text that may be looked at. -/
def stringXxstrnstr (m : Memory) (x : Byte) (ys : Bytes) (len fuel : Nat) :
    Option (Option Nat × List Nat) :=
  let n := ys.length
  Loop.run
    { stop := fun s => if s = len then (true, []) else atNul m s
      test := fun s =>
        if m s ≠ x then (some false, [])
        else if n > len - (s + 1) then (none, [])
        else testAt id x id m ys n s }
    fuel 0

def stringXxstrstrn (m : Memory) (x : Byte) (ys : Bytes) (n fuel : Nat) :
    Option (Option Nat × List Nat) :=
  Loop.run { stop := atNul m, test := testAt id x id m ys n } fuel 0

/-- It compares `n - 1` bytes, and the needle is a `char *`. -/
def stringXxstrcasestrn (m : Memory) (x : Byte) (ys : Bytes) (n fuel : Nat) :
    Option (Option Nat × List Nat) :=
  Loop.run
    { stop := atNul m
      test := testAt (fun c => lower32 c.toUInt32) (lower32 (charUInt32 x)) lower m ys
        (subSizeT n 1) }
    fuel 0

def stringXxstrlcasestrn (m : Memory) (last : Nat) (x : Byte) (ys : Bytes) (n fuel : Nat) :
    Option (Option Nat × List Nat) :=
  Loop.run { stop := atLast last n, test := testAt lower (lower x) lower m ys n } fuel 0

/-- The first byte is folded, the others are not. -/
def stringXxstrlstrn (m : Memory) (last : Nat) (x : Byte) (ys : Bytes) (n fuel : Nat) :
    Option (Option Nat × List Nat) :=
  Loop.run { stop := atLast last n, test := testAt lower (lower x) id m ys n } fuel 0

/-! ## Occurrences -/

/-- The needle stands at `i` in the first `r` bytes of the text, with the first byte and the others
compared by their folds. -/
def OccursBy (first rest : Byte → Byte) (m : Memory) (r : Nat) (x : Byte) (ys : Bytes) (i : Nat) :
    Prop :=
  i + 1 + ys.length ≤ r ∧ first (m i) = first x ∧
    ∀ j, (h : j < ys.length) → rest (m (i + 1 + j)) = rest ys[j]

/-- An occurrence, and one up to the case of letters. -/
def Occurs (m : Memory) (r : Nat) (x : Byte) (ys : Bytes) : Nat → Prop := OccursBy id id m r x ys

def OccursCase (m : Memory) (r : Nat) (x : Byte) (ys : Bytes) : Nat → Prop :=
  OccursBy lower lower m r x ys

/-- The text has `r` bytes in front of its NUL. -/
def Terminated (m : Memory) (r : Nat) : Prop := m r = NUL ∧ ∀ i < r, m i ≠ NUL

/-- Of at most `len` bytes, `r` are in front of a NUL. -/
def Within (m : Memory) (len r : Nat) : Prop :=
  r ≤ len ∧ (∀ i < r, m i ≠ NUL) ∧ (r < len → m r = NUL)

theorem lower32_byte : ∀ c : Byte, lower32 c.toUInt32 = (lower c).toUInt32 :=
  byte_forall (by decide +kernel)

theorem lower32_char : ∀ c : Byte, c < 128 → lower32 (charUInt32 c) = (lower c).toUInt32 :=
  byte_forall (by decide +kernel)

/-- The sign goes into the upper bytes. -/
theorem lower32_char_high : ∀ c : Byte, 128 ≤ c → 256 ≤ lower32 (charUInt32 c) :=
  byte_forall (by decide +kernel)

/-- A plain first byte of the needle is compared as it should be. -/
theorem first_plain {x : Byte} (hx : x < 128) (c : Byte) :
    lower32 c.toUInt32 = lower32 (charUInt32 x) ↔ lower c = lower x := by
  rw [lower32_byte, lower32_char x hx, UInt8.toUInt32_inj]

/-- Any other one is like no byte of the text. -/
theorem first_high {x : Byte} (hx : 128 ≤ x) (c : Byte) :
    lower32 c.toUInt32 ≠ lower32 (charUInt32 x) := by
  have hhigh := UInt32.le_iff_toNat_le.1 (lower32_char_high x hx)
  have hlow := (lower c).toNat_lt
  rw [lower32_byte]
  intro heq
  rw [← heq, UInt8.toNat_toUInt32] at hhigh
  exact absurd hhigh (Nat.not_le.2 hlow)

section Compare

variable {fold : Byte → Byte} {m : Memory} {ys : Bytes} {n s : Nat}

/-- Only the NUL is folded to NUL. -/
def Folds (fold : Byte → Byte) : Prop := ∀ c, fold c = NUL ↔ c = NUL

theorem folds_id : Folds id := fun _ => Iff.rfl

theorem folds_lower : Folds lower := byte_forall (by decide +kernel)

theorem compare_iff (hf : Folds fold) (hys : NUL ∉ ys) (hn : n ≤ ys.length) :
    (compare fold m ys n s).1 = true ↔
      ∀ j, (h : j < n) → fold (m (s + j)) = fold (ys.get ⟨j, Nat.lt_of_lt_of_le h hn⟩) := by
  induction n generalizing ys s with
  | zero => exact iff_of_true rfl fun j h => absurd h (Nat.not_lt_zero j)
  | succ n ih =>
    cases ys with
    | nil => exact absurd hn (Nat.not_succ_le_zero n)
    | cons y ys =>
      have hy : fold y ≠ NUL := by
        rw [Ne, hf y]
        exact (List.ne_of_not_mem_cons hys).symm
      rw [compare, List.headD_cons, List.tail_cons]
      by_cases heq : fold (m s) = fold y
      · have hrest := @ih ys (s + 1) (List.not_mem_of_not_mem_cons hys)
          (Nat.le_of_succ_le_succ hn)
        rw [if_pos heq, if_pos (by rw [heq]; exact hy)]
        refine hrest.trans ⟨fun h j hj => ?_, fun h j hj => ?_⟩
        · cases j with
          | zero => exact heq
          | succ j =>
            have hj' := h j (Nat.lt_of_succ_lt_succ hj)
            rwa [Nat.add_assoc, Nat.add_comm 1 j] at hj'
        · have hj' := h (j + 1) (Nat.succ_lt_succ hj)
          rwa [Nat.add_assoc, Nat.add_comm 1 j]
      · rw [if_neg heq]
        exact iff_of_false Bool.false_ne_true fun h => heq (h 0 (Nat.succ_pos n))

/-- A byte is read only if the ones before it are no NUL. -/
theorem compare_reads (hf : Folds fold) {a : Nat} (ha : a ∈ (compare fold m ys n s).2) :
    s ≤ a ∧ a < s + n ∧ ∀ b, s ≤ b → b < a → m b ≠ NUL := by
  induction n generalizing ys s with
  | zero => cases ha
  | succ n ih =>
    have hhead : a = s → s ≤ a ∧ a < s + (n + 1) ∧ ∀ b, s ≤ b → b < a → m b ≠ NUL := by
      rintro rfl
      exact ⟨Nat.le_refl a, by omega, fun b hb hba => absurd hb (by omega)⟩
    rw [compare] at ha
    split at ha
    · split at ha
      · rename_i hne
        rcases List.mem_cons.1 ha with ha | ha
        · exact hhead ha
        · obtain ⟨hsa, has, hall⟩ := ih ha
          refine ⟨by omega, by omega, fun b hsb hba => ?_⟩
          rcases Nat.eq_or_lt_of_le hsb with rfl | hlt
          · exact fun h => hne ((hf _).2 h)
          · exact hall b hlt hba
      · exact hhead (List.mem_singleton.1 ha)
    · exact hhead (List.mem_singleton.1 ha)

/-- A comparison with the end of the needle, for any positive number of bytes. -/
theorem compare_nil (hf : Folds fold) : (compare fold m [] (n + 1) s).1 = true ↔ m s = NUL := by
  have hnul : fold NUL = NUL := (hf NUL).2 rfl
  rw [compare, List.headD_nil, hnul]
  by_cases h : m s = NUL
  · rw [if_pos ((hf _).2 h), if_neg (not_not.2 ((hf _).2 h))]
    exact iff_of_true rfl h
  · rw [if_neg fun h' => h ((hf _).1 h')]
    exact iff_of_false Bool.false_ne_true h

end Compare

/-! ## The loops -/

section Loops

variable {first rest : Byte → Byte} {m : Memory} {x : Byte} {ys : Bytes} {k n r len s : Nat}

theorem testAt_ne_none {γ : Type} [DecidableEq γ] {first : Byte → γ} {c2 : γ} :
    (testAt first c2 rest m ys n s).1 ≠ none := by
  unfold testAt
  split
  · exact Option.some_ne_none _
  · exact Option.some_ne_none _

/-- A test of a position, when what is compared lies in the text. -/
theorem testAt_iff (hf : Folds rest) (hys : NUL ∉ ys) (hk : k ≤ ys.length)
    (hin : first (m s) = first x → (compare rest m ys k (s + 1)).1 = true → s + 1 + k ≤ r) :
    ((testAt first (first x) rest m ys k s).1 = some true → OccursBy first rest m r x (ys.take k) s) ∧
      ((testAt first (first x) rest m ys k s).1 = some false → ¬ OccursBy first rest m r x (ys.take k) s) := by
  have hlength : (ys.take k).length = k := List.length_take_of_le hk
  unfold testAt
  by_cases hx : first (m s) = first x
  · rw [if_neg (not_not.2 hx)]
    simp only [Option.some.injEq]
    have hcompare := compare_iff (m := m) (s := s + 1) hf hys hk
    constructor
    · intro h
      refine ⟨by rw [hlength]; exact hin hx h, hx, fun j hj => ?_⟩
      rw [List.getElem_take]
      exact hcompare.1 h j (by omega)
    · rintro h ⟨-, -, hall⟩
      have htrue := hcompare.2 fun j hj => by
        have hj' := hall j (by omega)
        rwa [List.getElem_take] at hj'
      rw [h] at htrue
      cases htrue
  · rw [if_pos hx]
    exact ⟨fun h => absurd (Option.some.inj h) Bool.false_ne_true, fun _ hocc => hx hocc.2.1⟩

theorem testAt_reads (hf : Folds rest) {a : Nat} (ha : a ∈ (testAt first (first x) rest m ys n s).2) :
    s + 1 ≤ a ∧ a < s + 1 + n ∧ ∀ b, s + 1 ≤ b → b < a → m b ≠ NUL := by
  unfold testAt at ha
  split at ha
  · cases ha
  · exact compare_reads hf ha

/-- Bytes that agree with a part of the needle are in front of the NUL. -/
theorem compare_inside (hf : Folds rest) (hys : NUL ∉ ys) (hk : k ≤ ys.length) (hr : m r = NUL)
    (hs : s < r) (h : (compare rest m ys k (s + 1)).1 = true) : s + 1 + k ≤ r := by
  by_contra hlt
  obtain ⟨j, hj⟩ := Nat.exists_eq_add_of_le hs
  have hj' : j < k := by omega
  have heq := (compare_iff hf hys hk).1 h j hj'
  rw [← hj, hr, (hf NUL).2 rfl] at heq
  exact hys ((hf _).1 heq.symm ▸ List.getElem_mem _)

/-- The searches up to a NUL. -/
theorem nul_sound (hf : Folds rest) (hys : NUL ∉ ys) (hk : k ≤ ys.length) (hr : Terminated m r) :
    Sound { stop := atNul m, test := testAt first (first x) rest m ys k }
      (OccursBy first rest m r x (ys.take k)) (fun a => a ≤ r) r where
  inside s hs := beq_eq_false_iff_ne.2 (hr.2 s hs)
  ends := beq_iff_eq.2 hr.1
  beyond j hj h := by
    have := h.1
    omega
  gives s _ h := absurd h testAt_ne_none
  yes s hs := (testAt_iff hf hys hk fun _ h => compare_inside hf hys hk hr.1 hs h).1
  no s hs := (testAt_iff hf hys hk fun _ h => compare_inside hf hys hk hr.1 hs h).2
  stopped s hs a ha := by
    rw [List.mem_singleton.1 ha]
    exact hs
  tested s hs a ha := by
    obtain ⟨hsa, -, hall⟩ := testAt_reads hf ha
    by_contra hlt
    exact hall r hs (by omega) hr.1

theorem atLast_inside (h : s < r - n) : atLast r n s = (false, [s]) := by
  rw [atLast, if_neg (by omega)]

theorem atLast_end (h : r - n ≤ s) : atLast r n s = (true, []) := by
  rw [atLast, if_pos (by omega)]

/-- The searches up to `last`. -/
theorem last_sound (hf : Folds rest) (hys : NUL ∉ ys) :
    Sound { stop := atLast r ys.length, test := testAt first (first x) rest m ys ys.length }
      (OccursBy first rest m r x ys) (fun a => a < r) (r - ys.length) where
  inside s hs := congrArg Prod.fst (atLast_inside hs)
  ends := congrArg Prod.fst (atLast_end (Nat.le_refl _))
  beyond j hj h := by
    have := h.1
    omega
  gives s _ h := absurd h testAt_ne_none
  yes s hs h := by
    have hocc := (testAt_iff (r := r) hf hys (Nat.le_refl _) fun _ _ => by omega).1 h
    rwa [List.take_length] at hocc
  no s hs h := by
    have hocc := (testAt_iff (r := r) hf hys (Nat.le_refl _) fun _ _ => by omega).2 h
    rwa [List.take_length] at hocc
  stopped s hs a ha := by
    have ha' : a ∈ (atLast r ys.length s).2 := ha
    rcases Nat.lt_or_ge s (r - ys.length) with hlt | hge
    · rw [atLast_inside hlt] at ha'
      rw [List.mem_singleton.1 ha']
      omega
    · rw [atLast_end hge] at ha'
      cases ha'
  tested s hs a ha := by
    have := (testAt_reads hf ha).2.1
    omega

/-- The search in the first `len` bytes. -/
theorem within_sound (hys : NUL ∉ ys) (hr : Within m len r) :
    Sound
      { stop := fun s => if s = len then (true, []) else atNul m s
        test := fun s =>
          if m s ≠ x then (some false, [])
          else if ys.length > len - (s + 1) then (none, [])
          else testAt id x id m ys ys.length s }
      (Occurs m r x ys) (fun a => a ≤ r ∧ a < len) r where
  inside s hs := by
    have hle := hr.1
    show (if s = len then (true, []) else atNul m s).1 = false
    rw [if_neg (by omega)]
    exact beq_eq_false_iff_ne.2 (hr.2.1 s hs)
  ends := by
    show (if r = len then (true, []) else atNul m r).1 = true
    split
    · rfl
    · have hle := hr.1
      exact beq_iff_eq.2 (hr.2.2 (by omega))
  beyond j hj h := by
    have := h.1
    omega
  gives s hs h j hj hocc := by
    have hle := hr.1
    have hin := hocc.1
    dsimp only at h
    split at h
    · cases h
    · split at h
      · omega
      · exact testAt_ne_none h
  yes s hs h := by
    dsimp only at h
    split at h
    · cases h
    · split at h
      · cases h
      · rename_i hroom
        have hocc := (testAt_iff (r := r) folds_id hys (Nat.le_refl _) fun _ htrue => ?_).1 h
        · rwa [List.take_length] at hocc
        · rcases Nat.lt_or_ge r len with hlt | hge
          · exact compare_inside folds_id hys (Nat.le_refl _) (hr.2.2 hlt) hs htrue
          · omega
  no s hs h := by
    dsimp only at h
    split at h
    · rename_i hx
      exact fun hocc => hx hocc.2.1
    · split at h
      · cases h
      · rename_i hroom
        have hocc := (testAt_iff (r := r) folds_id hys (Nat.le_refl _) fun _ htrue => ?_).2 h
        · rwa [List.take_length] at hocc
        · rcases Nat.lt_or_ge r len with hlt | hge
          · exact compare_inside folds_id hys (Nat.le_refl _) (hr.2.2 hlt) hs htrue
          · omega
  stopped s hs a ha := by
    have hle := hr.1
    dsimp only at ha
    split at ha
    · cases ha
    · rw [List.mem_singleton.1 ha]
      omega
  tested s hs a ha := by
    have hle := hr.1
    dsimp only at ha
    split at ha
    · cases ha
    · split at ha
      · cases ha
      · obtain ⟨hsa, hend, hall⟩ := testAt_reads folds_id ha
        have hlen : a < len := by omega
        refine ⟨?_, hlen⟩
        by_contra hlt
        exact hall r (by omega) (by omega) (hr.2.2 (by omega))

theorem single_test (hr : Terminated m r) (hs : s < r) :
    (testAt lower (lower x) lower m [] (subSizeT 0 1) s).1 = some true ↔
      OccursCase m r x [] s ∧ s + 1 = r := by
  have hend : m (s + 1) = NUL ↔ s + 1 = r := by
    refine ⟨fun h => ?_, fun h => h ▸ hr.1⟩
    by_contra hne
    exact hr.2 (s + 1) (by omega) h
  have hsize : subSizeT 0 1 = 18446744073709551614 + 1 := rfl
  unfold testAt
  by_cases hx : lower (m s) = lower x
  · rw [if_neg (not_not.2 hx), hsize]
    simp only [Option.some.injEq]
    rw [compare_nil folds_lower, hend]
    refine ⟨fun h => ⟨⟨?_, hx, fun j hj => absurd hj (Nat.not_lt_zero j)⟩, h⟩, fun h => h.2⟩
    rw [List.length_nil]
    omega
  · rw [if_pos hx]
    exact iff_of_false (fun h => absurd (Option.some.inj h) Bool.false_ne_true) fun h => hx h.1.2.1

/-- `string_xxstrcasestrn` with a needle of one byte compares the rest of the text with the end of the
needle. -/
theorem single_sound (hr : Terminated m r) :
    Sound { stop := atNul m, test := testAt lower (lower x) lower m [] (subSizeT 0 1) }
      (fun i => OccursCase m r x [] i ∧ i + 1 = r) (fun a => a ≤ r) r where
  inside s hs := beq_eq_false_iff_ne.2 (hr.2 s hs)
  ends := beq_iff_eq.2 hr.1
  beyond j hj h := by
    have := h.2
    omega
  gives s _ h := absurd h testAt_ne_none
  yes s hs h := (single_test hr hs).1 h
  no s hs h hocc := by
    have htrue := (single_test hr hs).2 hocc
    rw [show (testAt lower (lower x) lower m [] (subSizeT 0 1) s).1 = some false from h] at htrue
    cases htrue
  stopped s hs a ha := by
    rw [List.mem_singleton.1 ha]
    exact hs
  tested s hs a ha := by
    obtain ⟨hsa, -, hall⟩ := testAt_reads folds_lower ha
    by_contra hlt
    exact hall r hs (by omega) hr.1

theorem testAt_char (hx : x < 128) :
    testAt (fun c => lower32 c.toUInt32) (lower32 (charUInt32 x)) lower m ys n =
      testAt lower (lower x) lower m ys n := by
  funext s
  unfold testAt
  simp only [Ne, first_plain hx]

/-- With a byte from `0x80` on the search goes to the end of the text. -/
theorem high_sound (hx : 128 ≤ x) (hr : Terminated m r) :
    Sound
      { stop := atNul m
        test := testAt (fun c => lower32 c.toUInt32) (lower32 (charUInt32 x)) lower m ys n }
      (fun _ => False) (fun a => a ≤ r) r := by
  have hnone : ∀ s, testAt (fun c => lower32 c.toUInt32) (lower32 (charUInt32 x)) lower m ys n s =
      (some false, []) := fun s => if_pos (first_high hx (m s))
  refine
    { inside := fun s hs => beq_eq_false_iff_ne.2 (hr.2 s hs)
      ends := beq_iff_eq.2 hr.1
      beyond := fun _ _ h => h
      gives := fun s _ h => absurd h testAt_ne_none
      yes := fun s _ h => ?_
      no := fun _ _ _ h => h
      stopped := fun s hs a ha => by
        rw [List.mem_singleton.1 ha]
        exact hs
      tested := fun s _ a ha => ?_ }
  · rw [show (testAt _ _ lower m ys n s).1 = some false from congrArg Prod.fst (hnone s)] at h
    cases h
  · rw [show (testAt _ _ lower m ys n s).2 = [] from congrArg Prod.snd (hnone s)] at ha
    cases ha

end Loops

/-- When the two faulty searches are right. A needle that begins with a byte from `0x80` on is never
found, one of a single other byte is found at the end of the text only, and a longer one is found
where it stands without its last byte; and a needle is found where only its first byte is in the
other case. -/
def CaseRight (m : Memory) (r : Nat) (x : Byte) (ys : Bytes) : Prop :=
  if 128 ≤ x then ∀ i, ¬ OccursCase m r x ys i
  else if ys = [] then ∀ i, OccursCase m r x ys i → i + 1 = r
  else ∀ i, OccursCase m r x ys.dropLast i → ∃ j ≤ i, OccursCase m r x ys j

def FirstCaseRight (m : Memory) (r : Nat) (x : Byte) (ys : Bytes) : Prop :=
  ∀ i, OccursBy lower id m r x ys i → ∃ j ≤ i, Occurs m r x ys j

section Searches

variable {m : Memory} {x : Byte} {ys : Bytes} {r : Nat}

theorem occursCase_dropLast (i : Nat) (h : OccursCase m r x ys i) :
    OccursCase m r x ys.dropLast i := by
  obtain ⟨hr, hx, hall⟩ := h
  have hlen : ys.dropLast.length = ys.length - 1 := List.length_dropLast
  refine ⟨by omega, hx, fun j hj => ?_⟩
  rw [List.getElem_dropLast]
  exact hall j (by omega)

theorem strcasestrn_iff (hys : NUL ∉ ys) (hsize : ys.length < 2 ^ 64) (hr : Terminated m r) :
    Finds (stringXxstrcasestrn m x ys ys.length) (OccursCase m r x ys) (fun a => a ≤ r) ↔
      CaseRight m r x ys := by
  unfold CaseRight
  by_cases hhigh : 128 ≤ x
  · rw [if_pos hhigh]
    exact (high_sound hhigh hr).run.iff_of_imp' (fun _ h => h.elim) fun _ _ h => h.elim
  rw [if_neg hhigh]
  unfold stringXxstrcasestrn
  simp only [testAt_char (UInt8.not_le.1 hhigh)]
  by_cases hnil : ys = []
  · subst hnil
    rw [if_pos rfl]
    refine ((single_sound hr).run.iff_of_imp' (fun i h => h.1) fun i j hi hj => ?_).trans
      ⟨fun h i hi => (h i hi).2, fun h i hi => ⟨hi, h i hi⟩⟩
    have hlt := hj.1
    have hend := hi.2
    omega
  · have hpos := List.length_pos_of_ne_nil hnil
    have hcount : subSizeT ys.length 1 = ys.length - 1 := subSizeT_of_le hsize hpos
    have hsound := @nul_sound lower lower m x ys _ r folds_lower hys
      (Nat.sub_le ys.length 1) hr
    rw [← List.dropLast_eq_take, ← hcount] at hsound
    rw [if_neg hnil]
    exact hsound.run.iff_of_imp occursCase_dropLast

theorem strlstrn_iff (hys : NUL ∉ ys) :
    Finds (stringXxstrlstrn m r x ys ys.length) (Occurs m r x ys) (fun a => a < r) ↔
      FirstCaseRight m r x ys :=
  (last_sound folds_id hys).run.iff_of_imp fun _ h => ⟨h.1, congrArg lower h.2.1, h.2.2⟩

/-- Three of the searches are right, and the two others under a condition on the text. -/
theorem searches_iff (hneedle : NUL ∉ x :: ys) (hsize : ys.length < 2 ^ 64) :
    (∀ len r, Within m len r →
      Finds (stringXxstrnstr m x ys len) (Occurs m r x ys) fun a => a ≤ r ∧ a < len) ∧
    (∀ r, Terminated m r →
      Finds (stringXxstrstrn m x ys ys.length) (Occurs m r x ys) fun a => a ≤ r) ∧
    (∀ r, Terminated m r →
      (Finds (stringXxstrcasestrn m x ys ys.length) (OccursCase m r x ys) (fun a => a ≤ r) ↔
        CaseRight m r x ys)) ∧
    (∀ r, Finds (stringXxstrlcasestrn m r x ys ys.length) (OccursCase m r x ys) fun a => a < r) ∧
    ∀ r, Finds (stringXxstrlstrn m r x ys ys.length) (Occurs m r x ys) (fun a => a < r) ↔
      FirstCaseRight m r x ys := by
  have hys := List.not_mem_of_not_mem_cons hneedle
  refine ⟨fun len r hr => (within_sound hys hr).run, fun r hr => ?_,
    fun r hr => strcasestrn_iff hys hsize hr, fun r => (last_sound folds_lower hys).run,
    fun r => strlstrn_iff hys⟩
  have hsound := @nul_sound id id m x ys _ r folds_id hys (Nat.le_refl _) hr
  rw [List.take_length] at hsound
  exact hsound.run

end Searches

/-- A text in memory. -/
def text (s : String) : Memory := fun i => (str s).getD i NUL

theorem ab_found : Finds (stringXxstrnstr (text "xab") 97 (str "b") 1)
    (Occurs (text "xab") 1 97 (str "b")) fun a => a ≤ 1 ∧ a < 1 :=
  (searches_iff (by decide) (by decide)).1 1 1 ⟨by decide, by decide, by decide⟩

/-- The bytes C3 84 and a NUL. -/
def twoBytes : Memory := fun i => ([0xC3, 0x84] : Bytes).getD i NUL

/-- "aby" is found in "abx", the bytes C3 84 are not found in themselves, and "abc" is found in
"Abc" by a search that knows the case of letters. -/
theorem needles_misfound :
    ¬ Finds (stringXxstrcasestrn (text "abx") 97 (str "by") 2)
        (OccursCase (text "abx") 3 97 (str "by")) (fun a => a ≤ 3) ∧
      ¬ Finds (stringXxstrcasestrn twoBytes 0xC3 [0x84] 1) (OccursCase twoBytes 2 0xC3 [0x84])
        (fun a => a ≤ 2) ∧
      ¬ Finds (stringXxstrlstrn (text "Abc") 3 97 (str "bc") 2)
        (Occurs (text "Abc") 3 97 (str "bc")) (fun a => a < 3) := by
  refine ⟨?_, ?_, ?_⟩
  · intro h
    have hterm : Terminated (text "abx") 3 := ⟨by decide, by decide⟩
    have hright := (@strcasestrn_iff _ _ (str "by") _ (by decide) (by decide) hterm).1 h
    obtain ⟨j, hj, -, -, hall⟩ := hright 0 ⟨by decide, by decide, by decide⟩
    obtain rfl : j = 0 := Nat.le_zero.1 hj
    exact absurd (hall 1 (by decide)) (by decide)
  · intro h
    have hterm : Terminated twoBytes 2 := ⟨by decide, by decide⟩
    have hright := (@strcasestrn_iff _ _ [0x84] _ (by decide) (by decide) hterm).1 h
    exact hright 0 ⟨by decide, by decide, by decide⟩
  · intro h
    have hright := (@strlstrn_iff _ _ (str "bc") _ (by decide)).1 h
    obtain ⟨j, hj, -, hx, -⟩ := hright 0 ⟨by decide, by decide, by decide⟩
    obtain rfl : j = 0 := Nat.le_zero.1 hj
    exact absurd hx (by decide)

end StringSearch
end Shs
