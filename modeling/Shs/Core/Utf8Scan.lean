import Shs.Core.Utf8
import Shs.Lib.Run

/-!
# Core.Utf8Scan

Which addresses `string_utf8_length` reads, and which ones `string_utf8_cpystrn` reads and writes.

`string_utf8_length` tells the decoder of all the bytes of the text, not of those that are left, and
`string_utf8_cpystrn` counts a character of several bytes as one turn of its loop.
`utf8_scan_iff` says when this leads out of range.
-/

namespace Shs
namespace Utf8

/-- The variables of the loop of `string_utf8_cpystrn`. -/
structure Cursor where
  dst : Nat
  src : Nat
  len : Nat

/-- Where the bytes `*++dst = *++src` go, and where they come from. -/
structure Moved where
  cursor : Cursor
  writes : List (Nat × Byte)
  reads  : List Nat

/-- `while (src < next)`, for so many bytes. -/
def copyBytes (m : Memory) : Nat → Cursor → Moved
  | 0, c => ⟨c, [], []⟩
  | k + 1, c =>
    let r := copyBytes m k ⟨c.dst + 1, c.src + 1, subSizeT c.len 1⟩
    ⟨r.cursor, (c.dst + 1, m (c.src + 1)) :: r.writes, (c.src + 1) :: r.reads⟩

/-- The value of `dst` that is returned, what is written, and the addresses that are read. -/
structure Copied where
  dst    : Nat
  writes : List (Nat × Byte)
  reads  : List Nat

/-- `while (--n)`, by the value of `n` behind it. -/
def cpystrnLoop (m : Memory) : Nat → Cursor → Copied
  | 0, c => ⟨c.dst, [(c.dst, NUL)], []⟩
  | n + 1, c =>
    let b := m c.src
    if b.toNat < 0x80 then
      if b ≠ NUL then
        let r := cpystrnLoop m n ⟨c.dst + 1, c.src + 1, subSizeT c.len 1⟩
        ⟨r.dst, (c.dst, b) :: r.writes, c.src :: r.reads⟩
      else ⟨c.dst, [(c.dst, b)], [c.src]⟩
    else
      let d := stringUtf8Decode m c.src c.len
      if d.value > 0x10ffff then ⟨c.dst, [(c.dst, b), (c.dst, NUL)], c.src :: d.reads⟩
      else
        let t := copyBytes m (d.next - c.src) ⟨c.dst, c.src, subSizeT c.len 1⟩
        let r := cpystrnLoop m n t.cursor
        ⟨r.dst, (c.dst, b) :: (t.writes ++ r.writes), c.src :: (d.reads ++ (t.reads ++ r.reads))⟩

def stringUtf8Cpystrn (m : Memory) (dst src n len : Nat) : Copied :=
  if n = 0 then ⟨dst, [], []⟩ else cpystrnLoop m (n - 1) ⟨dst, src, len⟩

/-! ## What is promised -/

def LengthReads (m : Memory) (p n : Nat) : Prop :=
  ∀ a ∈ (stringUtf8Length m p n).2, p ≤ a ∧ a < p + n

def CopyWrites (m : Memory) (dst src n len : Nat) : Prop :=
  ∀ w ∈ (stringUtf8Cpystrn m dst src n len).writes, dst ≤ w.1 ∧ w.1 < dst + n

def CopyReads (m : Memory) (dst src n len : Nat) : Prop :=
  ∀ a ∈ (stringUtf8Cpystrn m dst src n len).reads, src ≤ a ∧ a < src + len

/-! ## Conditions on the text -/

/-- The first byte at `p` asks for more bytes than there are up to `e`, the decoder is told of enough
bytes, and no byte in front of `e` stops it. -/
def Overruns (m : Memory) (e n p : Nat) : Prop :=
  ∃ l, lead (m p).toNat = some l ∧ l.len ≤ subSizeT n 1 ∧ e ≤ p + l.len ∧
    ∀ a, p < a → a < e → 0x80 ≤ (m a).toNat

/-- The place behind the character at `p`, when `n` bytes are announced. -/
def behind (m : Memory) (n p : Nat) : Option Nat :=
  if (m p).toNat < 0x80 then some (p + 1)
  else if (stringUtf8Decode m p n).value > 0x10ffff then none
  else some (stringUtf8Decode m p n).next

/-- The characters that `string_utf8_length` steps over. -/
def nextCounted (m : Memory) (n last p : Nat) : Option Nat :=
  if p < last then behind m n p else none

/-- The characters that `string_utf8_cpystrn` steps over: a place and the value of `len`. -/
def nextCopied (m : Memory) (s : Nat × Nat) : Option (Nat × Nat) :=
  if m s.1 = NUL then none
  else (behind m s.2 s.1).map fun q =>
    (q, (fun l => subSizeT l 1)^[if (m s.1).toNat < 0x80 then 1 else q - s.1 + 1] s.2)

/-- A turn of `string_utf8_cpystrn` stays in front of `e`: it starts there, the decoder does not run
over it, and neither does the byte behind a character of several bytes, which is copied too. -/
def TurnWithin (m : Memory) (e : Nat) (s : Nat × Nat) : Prop :=
  s.1 < e ∧ ¬ Overruns m e s.2 s.1 ∧
    ∀ q, behind m s.2 s.1 = some q → 0x80 ≤ (m s.1).toNat → q < e

/-! ## The decoder -/

section Decoder

variable {m : Memory} {p n e u valid len a : Nat}

theorem lead_len_pos {l : Lead} (h : lead u = some l) : 0 < l.len := by
  rw [lead] at h
  split at h
  · exact Option.some.inj h ▸ Nat.succ_pos 2
  · split at h
    · exact Option.some.inj h ▸ Nat.succ_pos 1
    · split at h
      · exact Option.some.inj h ▸ Nat.succ_pos 0
      · cases h

theorem decodeTail_reads_ge (h : a ∈ (decodeTail m valid len u p).reads) : p ≤ a := by
  induction len generalizing u p with
  | zero => exact absurd h List.not_mem_nil
  | succ len ih =>
    rw [decodeTail] at h
    simp only at h
    split at h
    · exact (List.mem_singleton.1 h).ge
    · rcases List.mem_cons.1 h with rfl | h
      · exact Nat.le_refl a
      · exact Nat.le_of_succ_le (ih h)

theorem decodeTail_reads_lt_iff (hp : p ≤ e) :
    (∀ a ∈ (decodeTail m valid len u p).reads, a < e) ↔
      ¬ (e < p + len ∧ ∀ a, p ≤ a → a < e → 0x80 ≤ (m a).toNat) := by
  induction len generalizing u p with
  | zero =>
    refine ⟨fun _ h => ?_, fun _ a h => absurd h List.not_mem_nil⟩
    omega
  | succ len ih =>
    rw [decodeTail]
    simp only
    by_cases hend : p = e
    · -- the byte at `e` is read
      subst hend
      refine iff_of_false (fun h => ?_) (fun h => h ⟨by omega, fun a ha hae => by omega⟩)
      split at h
      · exact Nat.lt_irrefl p (h p (List.mem_singleton.2 rfl))
      · exact Nat.lt_irrefl p (h p List.mem_cons_self)
    · split
      next hlow =>
        refine iff_of_true (fun a ha => ?_) (fun h => ?_)
        · rw [List.mem_singleton.1 ha]
          omega
        · have hcont := h.2 p (Nat.le_refl p) (by omega)
          omega
      next hhigh =>
        rw [List.forall_mem_cons, ih (by omega)]
        refine ⟨fun h hall => h.2 ⟨by omega, fun a ha hae => hall.2 a (by omega) hae⟩,
          fun h => ⟨by omega, fun hall => h ⟨by omega, fun a ha hae => ?_⟩⟩⟩
        by_cases heq : a = p
        · rw [heq]
          omega
        · exact hall.2 a (by omega) hae

/-- What the tail of an accepted character is. -/
theorem decodeTail_accepted (h : (decodeTail m valid len u p).value ≤ 0x10ffff) :
    (decodeTail m valid len u p).next = p + len ∧
      ∀ a, p ≤ a → a < p + len → 0x80 ≤ (m a).toNat := by
  induction len generalizing u p with
  | zero => exact ⟨rfl, fun a ha hlt => by omega⟩
  | succ len ih =>
    rw [decodeTail] at h ⊢
    simp only at h ⊢
    split at h
    · exact absurd (show utf8Error ≤ 0x10ffff from h) (by decide)
    next hhigh =>
      rw [if_neg hhigh]
      obtain ⟨hnext, hall⟩ := ih h
      refine ⟨by rw [hnext]; omega, fun a ha hlt => ?_⟩
      by_cases heq : a = p
      · rw [heq]
        omega
      · exact hall a (by omega) (by omega)

theorem decode_reads_ge (h : a ∈ (stringUtf8Decode m p n).reads) : p ≤ a := by
  rw [stringUtf8Decode] at h
  split at h
  · exact (List.mem_singleton.1 h).ge
  · split at h
    · exact (List.mem_singleton.1 h).ge
    · rcases List.mem_cons.1 h with rfl | h
      · exact Nat.le_refl a
      · exact Nat.le_of_succ_le (decodeTail_reads_ge h)

theorem decode_reads_lt_iff (hp : p < e) :
    (∀ a ∈ (stringUtf8Decode m p n).reads, a < e) ↔ ¬ Overruns m e n p := by
  have hone : ∀ a ∈ [p], a < e := fun a ha => List.mem_singleton.1 ha ▸ hp
  rw [stringUtf8Decode, Overruns]
  split
  next hl =>
    refine iff_of_true hone ?_
    rintro ⟨l, hl', -⟩
    exact absurd (hl.symm.trans hl') (by simp)
  next l hl =>
    split
    next hfew =>
      refine iff_of_true hone ?_
      rintro ⟨l', hl', hlen, -⟩
      obtain rfl := Option.some.inj (hl.symm.trans hl')
      omega
    next hmany =>
      rw [List.forall_mem_cons, decodeTail_reads_lt_iff hp]
      constructor
      · rintro ⟨-, h⟩ ⟨l', hl', -, hend, hall⟩
        obtain rfl := Option.some.inj (hl.symm.trans hl')
        exact h ⟨by omega, fun a ha => hall a ha⟩
      · exact fun h => ⟨hp, fun hall => h ⟨l, hl, by omega, by omega, fun a ha => hall.2 a ha⟩⟩

/-- An accepted character has the length that its first byte says, and no byte below 0x80. -/
theorem decode_accepted (h : (stringUtf8Decode m p n).value ≤ 0x10ffff) :
    p + 1 < (stringUtf8Decode m p n).next ∧
      ∀ a, p < a → a < (stringUtf8Decode m p n).next → 0x80 ≤ (m a).toNat := by
  rw [stringUtf8Decode] at h ⊢
  split at h
  · exact absurd (show utf8Error ≤ 0x10ffff from h) (by decide)
  next l hl =>
    split at h
    · exact absurd (show utf8Incomplete ≤ 0x10ffff from h) (by decide)
    next hmany =>
      rw [if_neg hmany]
      obtain ⟨hnext, hall⟩ := decodeTail_accepted h
      refine ⟨?_, fun a ha hlt => hall a ha (by rw [← hnext]; exact hlt)⟩
      have hpos : 0 < l.len := lead_len_pos hl
      show p + 1 < (decodeTail m l.valid l.len l.u (p + 1)).next
      rw [hnext]
      omega

/-- A byte below 0x80 is read alone. -/
theorem not_overruns_ascii (h : (m p).toNat < 0x80) : ¬ Overruns m e n p := by
  rintro ⟨l, hl, -⟩
  rw [lead_none (by omega)] at hl
  cases hl

theorem behind_ascii (h : (m p).toNat < 0x80) : behind m n p = some (p + 1) := if_pos h

theorem behind_invalid (h : ¬ (m p).toNat < 0x80) (hd : (stringUtf8Decode m p n).value > 0x10ffff) :
    behind m n p = none := by
  rw [behind, if_neg h, if_pos hd]

theorem behind_accepted (h : ¬ (m p).toNat < 0x80)
    (hd : ¬ (stringUtf8Decode m p n).value > 0x10ffff) :
    behind m n p = some (stringUtf8Decode m p n).next := by
  rw [behind, if_neg h, if_neg hd]

end Decoder

/-! ## `string_utf8_length` -/

section Length

variable {m : Memory} {p n last fuel len a : Nat}

theorem lengthLoop_reads_ge (h : a ∈ (lengthLoop m n last fuel p len).2) : p ≤ a := by
  induction fuel generalizing p len with
  | zero => exact absurd h List.not_mem_nil
  | succ fuel ih =>
    rw [lengthLoop] at h
    simp only at h
    split at h
    · split at h
      · rcases List.mem_cons.1 h with rfl | h
        · exact Nat.le_refl a
        · exact Nat.le_of_succ_le (ih h)
      · split at h
        · rcases List.mem_cons.1 h with rfl | h
          · exact Nat.le_refl a
          · exact decode_reads_ge h
        next hvalue =>
          have hnext := (decode_accepted (Nat.le_of_not_gt hvalue)).1
          rcases List.mem_cons.1 h with rfl | h
          · exact Nat.le_refl a
          · rcases List.mem_append.1 h with h | h
            · exact decode_reads_ge h
            · have hle := ih h
              omega
    · exact absurd h List.not_mem_nil

/-- Each turn reads its character, and the loop goes on behind it. -/
theorem lengthLoop_reads_iff (hfuel : last ≤ p + fuel) :
    (∀ a ∈ (lengthLoop m n last fuel p len).2, a < last) ↔
      ∀ k q, Run.Steps (nextCounted m n last) k p q → q < last → ¬ Overruns m last n q := by
  induction fuel generalizing p len with
  | zero =>
    have hstop : nextCounted m n last p = none := if_neg (by omega)
    rw [Run.Steps.forall_of_none (P := fun _ q => q < last → ¬ Overruns m last n q) hstop]
    exact iff_of_true (fun a ha => absurd ha List.not_mem_nil) fun h => by omega
  | succ fuel ih =>
    rw [lengthLoop]
    simp only
    by_cases hp : p < last
    · have hnext : nextCounted m n last p = behind m n p := if_pos hp
      rw [if_pos hp]
      split
      next hlow =>
        rw [Run.Steps.forall_of_some (P := fun _ q => q < last → ¬ Overruns m last n q)
            (hnext.trans (behind_ascii hlow)), List.forall_mem_cons, ih (by omega)]
        exact and_congr_left' (iff_of_true hp fun _ => not_overruns_ascii hlow)
      next hhigh =>
        have hhere : p < last → ¬ Overruns m last n p ↔
            ∀ a ∈ (stringUtf8Decode m p n).reads, a < last := by
          rw [decode_reads_lt_iff hp]
          exact forall_prop_of_true hp
        split
        next hvalue =>
          rw [Run.Steps.forall_of_none (P := fun _ q => q < last → ¬ Overruns m last n q)
              (hnext.trans (behind_invalid hhigh hvalue)), List.forall_mem_cons, hhere]
          exact and_iff_right hp
        next hvalue =>
          have hlt := (decode_accepted (Nat.le_of_not_gt hvalue)).1
          rw [Run.Steps.forall_of_some (P := fun _ q => q < last → ¬ Overruns m last n q)
              (hnext.trans (behind_accepted hhigh hvalue)), List.cons_append, List.forall_mem_cons,
            List.forall_mem_append, ih (by omega), hhere]
          exact and_iff_right hp
    · have hstop : nextCounted m n last p = none := if_neg hp
      rw [Run.Steps.forall_of_none (P := fun _ q => q < last → ¬ Overruns m last n q) hstop,
        if_neg hp]
      exact iff_of_true (fun a ha => absurd ha List.not_mem_nil) fun h => absurd h hp

theorem length_reads_iff : LengthReads m p n ↔
    ∀ k q, Run.Steps (nextCounted m n (p + n)) k p q → q < p + n → ¬ Overruns m (p + n) n q := by
  have hloop := @lengthLoop_reads_iff m p n (p + n) n 0 (Nat.le_refl _)
  exact ⟨fun h => hloop.1 fun a ha => (h a ha).2,
    fun h a ha => ⟨lengthLoop_reads_ge ha, hloop.2 h a ha⟩⟩

end Length

/-! ## `string_utf8_cpystrn` -/

section Copy

variable {m : Memory} {n d p l k dst src x e z : Nat}

theorem copyBytes_cursor :
    (copyBytes m k ⟨d, p, l⟩).cursor = ⟨d + k, p + k, (fun l => subSizeT l 1)^[k] l⟩ := by
  induction k generalizing d p l with
  | zero => rfl
  | succ k ih =>
    rw [copyBytes, ih, Function.iterate_succ_apply, Nat.add_right_comm, Nat.add_right_comm p,
      Nat.add_assoc, Nat.add_assoc p]

theorem copyBytes_writes_iff {P : Nat → Prop} :
    (∀ w ∈ (copyBytes m k ⟨d, p, l⟩).writes, P w.1) ↔ ∀ i, d < i → i ≤ d + k → P i := by
  induction k generalizing d p l with
  | zero => exact iff_of_true (fun w hw => absurd hw List.not_mem_nil) fun i hlt hle => by omega
  | succ k ih =>
    rw [copyBytes]
    simp only
    rw [List.forall_mem_cons, ih]
    refine ⟨fun h i hlt hle => ?_,
      fun h => ⟨h _ (by omega) (by omega), fun i hlt hle => h i (by omega) (by omega)⟩⟩
    by_cases heq : i = d + 1
    · exact heq ▸ h.1
    · exact h.2 i (by omega) (by omega)

theorem copyBytes_reads_iff {P : Nat → Prop} :
    (∀ a ∈ (copyBytes m k ⟨d, p, l⟩).reads, P a) ↔ ∀ i, p < i → i ≤ p + k → P i := by
  induction k generalizing d p l with
  | zero => exact iff_of_true (fun w hw => absurd hw List.not_mem_nil) fun i hlt hle => by omega
  | succ k ih =>
    rw [copyBytes]
    simp only
    rw [List.forall_mem_cons, ih]
    refine ⟨fun h i hlt hle => ?_,
      fun h => ⟨h _ (by omega) (by omega), fun i hlt hle => h i (by omega) (by omega)⟩⟩
    by_cases heq : i = p + 1
    · exact heq ▸ h.1
    · exact h.2 i (by omega) (by omega)

theorem nextCopied_nul (h : m p = NUL) : nextCopied m (p, l) = none := if_pos h

theorem nextCopied_ascii (h : m p ≠ NUL) (hlow : (m p).toNat < 0x80) :
    nextCopied m (p, l) = some (p + 1, subSizeT l 1) := by
  rw [nextCopied, if_neg h, behind_ascii hlow, Option.map_some, if_pos hlow, Function.iterate_one]

theorem ne_nul_of_high (h : ¬ (m p).toNat < 0x80) : m p ≠ NUL := fun hnul => by
  rw [hnul] at h
  exact h (by decide)

theorem nextCopied_invalid (h : ¬ (m p).toNat < 0x80)
    (hd : (stringUtf8Decode m p l).value > 0x10ffff) : nextCopied m (p, l) = none := by
  rw [nextCopied, if_neg (ne_nul_of_high h), behind_invalid h hd, Option.map_none]

theorem nextCopied_accepted (h : ¬ (m p).toNat < 0x80)
    (hd : ¬ (stringUtf8Decode m p l).value > 0x10ffff) :
    nextCopied m (p, l) = some ((stringUtf8Decode m p l).next,
      (fun l => subSizeT l 1)^[(stringUtf8Decode m p l).next - p] (subSizeT l 1)) := by
  rw [nextCopied, if_neg (ne_nul_of_high h), behind_accepted h hd, Option.map_some, if_neg h,
    Function.iterate_succ_apply]

/-- Where the two pointers are behind an accepted character. -/
theorem cursor_accepted (hd : ¬ (stringUtf8Decode m (src + x) l).value > 0x10ffff) :
    ∃ y, x < y ∧ (stringUtf8Decode m (src + x) l).next = src + y ∧
      (copyBytes m ((stringUtf8Decode m (src + x) l).next - (src + x))
        ⟨dst + x, src + x, subSizeT l 1⟩).cursor = ⟨dst + y, src + y,
          (fun l => subSizeT l 1)^[(stringUtf8Decode m (src + x) l).next - (src + x)]
            (subSizeT l 1)⟩ := by
  have hlt := (decode_accepted (Nat.le_of_not_gt hd)).1
  refine ⟨(stringUtf8Decode m (src + x) l).next - src, by omega, by omega, ?_⟩
  rw [copyBytes_cursor]
  congr 1 <;> omega

/-- The bytes written are those up to the place that the last turn reaches. -/
theorem cpystrnLoop_writes_iff :
    (∀ w ∈ (cpystrnLoop m n ⟨dst + x, src + x, l⟩).writes, w.1 < dst + e) ↔
      ∀ k s, Run.Steps (nextCopied m) k (src + x, l) s → k ≤ n → s.1 < src + e := by
  induction n generalizing x l with
  | zero =>
    have hplace : dst + x < dst + e ↔ src + x < src + e := by omega
    rw [cpystrnLoop, List.forall_mem_singleton, hplace]
    refine ⟨fun h k s hs hk => ?_, fun h => h 0 _ (.start _) (Nat.le_refl 0)⟩
    cases hs with
    | start => exact h
    | step => exact absurd hk (Nat.not_succ_le_zero _)
  | succ n ih =>
    have hplace : dst + x < dst + e ↔ src + x < src + e := by omega
    rw [cpystrnLoop]
    simp only
    by_cases hlow : (m (src + x)).toNat < 0x80
    · rw [if_pos hlow]
      by_cases hnul : m (src + x) = NUL
      · rw [if_neg (not_not.2 hnul), List.forall_mem_singleton, hplace,
          Run.Steps.forall_of_none (P := fun k s => k ≤ n + 1 → s.1 < src + e)
            (nextCopied_nul hnul)]
        exact ⟨fun h _ => h, fun h => h (Nat.zero_le _)⟩
      · rw [if_pos hnul, List.forall_mem_cons, hplace,
          Run.Steps.forall_of_some (P := fun k s => k ≤ n + 1 → s.1 < src + e)
            (nextCopied_ascii hnul hlow)]
        simp only [Nat.add_le_add_iff_right, Nat.zero_le, forall_true_left]
        exact and_congr_right fun _ => ih (x := x + 1)
    · rw [if_neg hlow]
      split
      next hvalue =>
        rw [Run.Steps.forall_of_none (P := fun k s => k ≤ n + 1 → s.1 < src + e)
          (nextCopied_invalid hlow hvalue)]
        simp only [List.forall_mem_cons, Nat.zero_le, forall_true_left, hplace]
        exact ⟨fun h => h.1, fun h => ⟨h, h, fun w hw => absurd hw List.not_mem_nil⟩⟩
      next hvalue =>
        obtain ⟨y, hxy, hnext, hcursor⟩ := @cursor_accepted m l dst src x hvalue
        rw [Run.Steps.forall_of_some (P := fun k s => k ≤ n + 1 → s.1 < src + e)
            (nextCopied_accepted hlow hvalue), List.forall_mem_cons, List.forall_mem_append,
          copyBytes_writes_iff (P := fun i => i < dst + e), hcursor, ih, hplace, hnext]
        simp only [Nat.add_le_add_iff_right, Nat.zero_le, forall_true_left]
        refine and_congr_right fun _ => ⟨fun h => h.2, fun h => ⟨fun i hlt hle => ?_, h⟩⟩
        have hreach := h 0 _ (.start _) (Nat.zero_le n)
        simp only at hreach
        omega

theorem cpystrnLoop_writes_ge :
    ∀ w ∈ (cpystrnLoop m n ⟨d, p, l⟩).writes, d ≤ w.1 := by
  induction n generalizing d p l with
  | zero => exact List.forall_mem_singleton.2 (Nat.le_refl d)
  | succ n ih =>
    have hhere : ∀ w ∈ [(d, m p), (d, NUL)], d ≤ w.1 :=
      List.forall_mem_cons.2 ⟨Nat.le_refl d, List.forall_mem_singleton.2 (Nat.le_refl d)⟩
    rw [cpystrnLoop]
    simp only
    split
    · split
      · exact List.forall_mem_cons.2 ⟨Nat.le_refl d, fun w hw => Nat.le_of_succ_le (ih w hw)⟩
      · exact List.forall_mem_singleton.2 (Nat.le_refl d)
    · split
      · exact hhere
      · rw [copyBytes_cursor, List.forall_mem_cons, List.forall_mem_append]
        exact ⟨Nat.le_refl d, copyBytes_writes_iff.2 fun i hlt _ => Nat.le_of_lt hlt,
          fun w hw => Nat.le_trans (Nat.le_add_right _ _) (ih w hw)⟩

theorem cpystrnLoop_reads_ge : ∀ a ∈ (cpystrnLoop m n ⟨d, p, l⟩).reads, p ≤ a := by
  induction n generalizing d p l with
  | zero => exact fun a ha => absurd ha List.not_mem_nil
  | succ n ih =>
    rw [cpystrnLoop]
    simp only
    split
    · split
      · exact List.forall_mem_cons.2 ⟨Nat.le_refl p, fun a ha => Nat.le_of_succ_le (ih a ha)⟩
      · exact List.forall_mem_singleton.2 (Nat.le_refl p)
    · split
      · exact List.forall_mem_cons.2 ⟨Nat.le_refl p, fun a ha => decode_reads_ge ha⟩
      · rw [copyBytes_cursor, List.forall_mem_cons, List.forall_mem_append, List.forall_mem_append]
        exact ⟨Nat.le_refl p, fun a ha => decode_reads_ge ha,
          copyBytes_reads_iff.2 fun i hlt _ => Nat.le_of_lt hlt,
          fun a ha => Nat.le_trans (Nat.le_add_right _ _) (ih a ha)⟩

theorem turnWithin_ascii (h : (m p).toNat < 0x80) : TurnWithin m e (p, l) ↔ p < e :=
  ⟨fun ht => ht.1, fun hp => ⟨hp, not_overruns_ascii h, fun _ _ hhigh =>
    absurd h (Nat.not_lt.2 hhigh)⟩⟩

theorem turnWithin_invalid (h : ¬ (m p).toNat < 0x80)
    (hd : (stringUtf8Decode m p l).value > 0x10ffff) :
    TurnWithin m e (p, l) ↔ p < e ∧ ∀ a ∈ (stringUtf8Decode m p l).reads, a < e := by
  constructor
  · exact fun ht => ⟨ht.1, (decode_reads_lt_iff ht.1).2 ht.2.1⟩
  · rintro ⟨hp, hreads⟩
    refine ⟨hp, (decode_reads_lt_iff hp).1 hreads, fun q hq _ => ?_⟩
    rw [behind_invalid h hd] at hq
    cases hq

theorem turnWithin_accepted (h : ¬ (m p).toNat < 0x80)
    (hd : ¬ (stringUtf8Decode m p l).value > 0x10ffff) :
    TurnWithin m e (p, l) ↔ p < e ∧ (∀ a ∈ (stringUtf8Decode m p l).reads, a < e) ∧
      (stringUtf8Decode m p l).next < e := by
  have hbehind := behind_accepted h hd
  constructor
  · exact fun ht =>
      ⟨ht.1, (decode_reads_lt_iff ht.1).2 ht.2.1, ht.2.2 _ hbehind (Nat.le_of_not_gt h)⟩
  · rintro ⟨hp, hreads, hnext⟩
    refine ⟨hp, (decode_reads_lt_iff hp).1 hreads, fun q hq _ => ?_⟩
    obtain rfl := Option.some.inj (hbehind.symm.trans hq)
    exact hnext

/-- The loop reads in front of `e` exactly when each of its turns does. -/
theorem cpystrnLoop_reads_iff :
    (∀ a ∈ (cpystrnLoop m n ⟨d, p, l⟩).reads, a < e) ↔
      ∀ k s, Run.Steps (nextCopied m) k (p, l) s → k < n → TurnWithin m e s := by
  induction n generalizing d p l with
  | zero =>
    exact iff_of_true (fun a ha => absurd ha List.not_mem_nil) fun k s _ hk => by omega
  | succ n ih =>
    rw [cpystrnLoop]
    simp only
    by_cases hlow : (m p).toNat < 0x80
    · rw [if_pos hlow]
      by_cases hnul : m p = NUL
      · rw [if_neg (not_not.2 hnul), List.forall_mem_singleton,
          Run.Steps.forall_of_none (P := fun k s => k < n + 1 → TurnWithin m e s)
            (nextCopied_nul hnul), turnWithin_ascii hlow]
        exact ⟨fun h _ => h, fun h => h (Nat.succ_pos n)⟩
      · rw [if_pos hnul, List.forall_mem_cons, ih,
          Run.Steps.forall_of_some (P := fun k s => k < n + 1 → TurnWithin m e s)
            (nextCopied_ascii hnul hlow), turnWithin_ascii hlow]
        simp only [Nat.add_lt_add_iff_right, Nat.succ_pos, forall_true_left]
    · rw [if_neg hlow]
      split
      next hvalue =>
        rw [Run.Steps.forall_of_none (P := fun k s => k < n + 1 → TurnWithin m e s)
          (nextCopied_invalid hlow hvalue), turnWithin_invalid hlow hvalue, List.forall_mem_cons]
        exact ⟨fun h _ => h, fun h => h (Nat.succ_pos n)⟩
      next hvalue =>
        have hlt := (decode_accepted (Nat.le_of_not_gt hvalue)).1
        have hcopied : (∀ i, p < i → i ≤ p + ((stringUtf8Decode m p l).next - p) → i < e) ↔
            (stringUtf8Decode m p l).next < e :=
          ⟨fun h => h _ (by omega) (by omega), fun h i _ hle => by omega⟩
        rw [Run.Steps.forall_of_some (P := fun k s => k < n + 1 → TurnWithin m e s)
            (nextCopied_accepted hlow hvalue), turnWithin_accepted hlow hvalue,
          List.forall_mem_cons, List.forall_mem_append, List.forall_mem_append, copyBytes_cursor,
          ih, copyBytes_reads_iff, hcopied, Nat.add_sub_cancel' (Nat.le_of_lt (by omega))]
        simp only [Nat.add_lt_add_iff_right, Nat.succ_pos, forall_true_left, and_assoc]

/-- No turn passes a NUL. -/
theorem turnWithin_of_nul (hz : m z = NUL) (hp : p ≤ z) : TurnWithin m (z + 1) (p, l) := by
  have hlow : (m z).toNat < 0x80 := by rw [hz]; decide
  refine ⟨Nat.lt_succ_of_le hp, ?_, fun q hq hhigh => ?_⟩
  · rintro ⟨t, ht, -, -, hall⟩
    by_cases heq : p = z
    · have hnone : lead (m p).toNat = none := lead_none (by rw [heq]; omega)
      exact absurd (hnone.symm.trans ht) (by simp)
    · have hhigh := hall z (by simp only; omega) (Nat.lt_succ_self z)
      omega
  · simp only at hq hhigh
    rw [behind, if_neg (by omega)] at hq
    split at hq
    · cases hq
    next hvalue =>
      obtain rfl := Option.some.inj hq
      by_contra hpast
      have hne : p ≠ z := fun heq => by rw [heq] at hhigh; omega
      have hcont := (decode_accepted (Nat.le_of_not_gt hvalue)).2 z (by omega) (by omega)
      omega

theorem nextCopied_le_of_nul (hz : m z = NUL) {s t : Nat × Nat} (hp : s.1 ≤ z)
    (h : nextCopied m s = some t) : t.1 ≤ z := by
  obtain ⟨p, l⟩ := s
  by_cases hlow : (m p).toNat < 0x80
  · by_cases hnul : m p = NUL
    · rw [nextCopied_nul hnul] at h
      cases h
    · rw [nextCopied_ascii hnul hlow] at h
      obtain rfl := Option.some.inj h
      have hne : p ≠ z := fun heq => hnul (heq ▸ hz)
      simp only at hp ⊢
      omega
  · obtain ⟨-, -, hwithin⟩ := @turnWithin_of_nul m p l z hz hp
    by_cases hvalue : (stringUtf8Decode m p l).value > 0x10ffff
    · rw [nextCopied_invalid hlow hvalue] at h
      cases h
    · rw [nextCopied_accepted hlow hvalue] at h
      obtain rfl := Option.some.inj h
      exact Nat.le_of_lt_succ (hwithin _ (behind_accepted hlow hvalue) (Nat.le_of_not_gt hlow))

theorem steps_le_of_nul (hz : m z = NUL) {s t : Nat × Nat}
    (h : Run.Steps (nextCopied m) k s t) (hp : s.1 ≤ z) : t.1 ≤ z := by
  induction h with
  | start => exact hp
  | step ht _ ih => exact ih (nextCopied_le_of_nul hz hp ht)

theorem cpystrnLoop_reads_nul (hz : m z = NUL) (hp : p ≤ z) :
    ∀ a ∈ (cpystrnLoop m n ⟨d, p, l⟩).reads, a ≤ z := fun a ha =>
  Nat.le_of_lt_succ (cpystrnLoop_reads_iff.2
    (fun _ _ hs _ => turnWithin_of_nul hz (steps_le_of_nul hz hs hp)) a ha)

end Copy

section Cpystrn

variable {m : Memory} {dst src n len : Nat}

theorem copy_writes_iff : CopyWrites m dst src n len ↔
    ∀ k s, Run.Steps (nextCopied m) k (src, len) s → k < n → s.1 < src + n := by
  rw [CopyWrites, stringUtf8Cpystrn]
  cases n with
  | zero =>
    exact iff_of_true (fun w hw => absurd hw List.not_mem_nil) fun k s _ hk => by omega
  | succ n =>
    rw [if_neg (Nat.succ_ne_zero n), Nat.add_sub_cancel]
    have hloop := @cpystrnLoop_writes_iff m n len dst src 0 (n + 1)
    simp only [Nat.add_zero] at hloop
    simp only [Nat.lt_succ_iff]
    exact ⟨fun h => hloop.1 fun w hw => (h w hw).2,
      fun h w hw => ⟨cpystrnLoop_writes_ge w hw, hloop.2 h w hw⟩⟩

theorem copy_reads_iff : CopyReads m dst src n len ↔
    ∀ k s, Run.Steps (nextCopied m) k (src, len) s → k + 1 < n → TurnWithin m (src + len) s := by
  rw [CopyReads, stringUtf8Cpystrn]
  cases n with
  | zero =>
    exact iff_of_true (fun w hw => absurd hw List.not_mem_nil) fun k s _ hk => by omega
  | succ n =>
    rw [if_neg (Nat.succ_ne_zero n), Nat.add_sub_cancel]
    simp only [Nat.add_lt_add_iff_right]
    exact ⟨fun h => cpystrnLoop_reads_iff.1 fun a ha => (h a ha).2,
      fun h a ha => ⟨cpystrnLoop_reads_ge a ha, cpystrnLoop_reads_iff.2 h a ha⟩⟩

theorem copy_reads_nul {t : Nat} (ht : m (src + t) = NUL) :
    ∀ a ∈ (stringUtf8Cpystrn m dst src n len).reads, a ≤ src + t := by
  rw [stringUtf8Cpystrn]
  split
  · exact fun a ha => absurd ha List.not_mem_nil
  · exact cpystrnLoop_reads_nul ht (Nat.le_add_right src t)

/-- When the two functions stay in range: no character that is stepped over is cut off by the end of
the text, and the first `n - 1` characters, or fewer, take less than `n` bytes. A NUL stops the
reading in any case. -/
theorem utf8_scan_iff (m : Memory) (p dst src n len : Nat) :
    (LengthReads m p n ↔
      ∀ k q, Run.Steps (nextCounted m n (p + n)) k p q → q < p + n → ¬ Overruns m (p + n) n q) ∧
    (CopyWrites m dst src n len ↔
      ∀ k s, Run.Steps (nextCopied m) k (src, len) s → k < n → s.1 < src + n) ∧
    (CopyReads m dst src n len ↔
      ∀ k s, Run.Steps (nextCopied m) k (src, len) s → k + 1 < n → TurnWithin m (src + len) s) ∧
    ∀ t, m (src + t) = NUL → ∀ a ∈ (stringUtf8Cpystrn m dst src n len).reads, a ≤ src + t :=
  ⟨length_reads_iff, copy_writes_iff, copy_reads_iff, fun _ => copy_reads_nul⟩

/-- "A" and the first byte of two, and two characters of two bytes copied into two bytes. -/
theorem scan_out_of_range : ¬ LengthReads (memoryOf [0x41, 0xc3]) 0 2 ∧
    ¬ CopyWrites (memoryOf [0xc3, 0x84, 0xc3, 0x84, NUL]) 0 0 2 5 := by
  constructor
  · intro h
    exact absurd (h 2 (by decide)).2 (Nat.lt_irrefl 2)
  · intro h
    exact absurd (h (2, 0xc3) (by decide)).2 (Nat.lt_irrefl 2)

end Cpystrn

end Utf8
end Shs
