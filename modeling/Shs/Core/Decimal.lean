import Mathlib.Data.List.TakeWhile
import Shs.Core.Bytes

/-!
# Core.Decimal

What `%d` and `std::to_string` write, `strtoll` and `atoi` read back.
-/

namespace Shs

/-- The bytes of a run of decimal digits. -/
def digits (n : Nat) : Bytes := (Nat.toDigits 10 n).map fun c => UInt8.ofNat c.toNat

theorem decimal_cases (v : Int) :
    (0 ≤ v ∧ decimal v = digits v.natAbs) ∨ (v < 0 ∧ decimal v = 45 :: digits v.natAbs) := by
  by_cases h : v < 0
  · exact .inr ⟨h, by simp [decimal, digits, h]⟩
  · exact .inl ⟨Int.not_lt.mp h, by simp [decimal, digits, h]⟩

theorem digits_ne_nil (n : Nat) : digits n ≠ [] := by
  simp [digits, Nat.toDigits_ne_nil]

theorem digits_length_le {n k : Nat} (hk : 0 < k) (h : n < 10 ^ k) : (digits n).length ≤ k := by
  rw [digits, List.length_map]
  exact (Nat.length_toDigits_le_iff (by decide) hk).2 h

theorem toNat_digit {c : Char} (h : c.isDigit = true) :
    (UInt8.ofNat c.toNat).toNat = c.toNat ∧ 48 ≤ c.toNat ∧ c.toNat ≤ 57 := by
  have hb : 48 ≤ c.toNat ∧ c.toNat ≤ 57 := by
    simp only [Char.isDigit, Bool.and_eq_true, decide_eq_true_eq] at h
    exact ⟨h.1, h.2⟩
  refine ⟨?_, hb⟩
  rw [UInt8.toNat_ofNat']
  omega

theorem isdigit_digits {n : Nat} {b : Byte} (h : b ∈ digits n) : isdigit b = true := by
  obtain ⟨c, hc, rfl⟩ := List.mem_map.mp h
  obtain ⟨heq, hlo, hhi⟩ := toNat_digit (Nat.isDigit_of_mem_toDigits (by decide) (by decide) hc)
  simp only [isdigit, Bool.and_eq_true, decide_eq_true_eq, UInt8.le_iff_toNat_le, heq]
  exact ⟨hlo, hhi⟩

theorem digitsValue_digits (n : Nat) : digitsValue (digits n) = n := by
  have key : ∀ (cs : List Char) (a : Nat), (∀ c ∈ cs, c.isDigit = true) →
      (cs.map fun c => UInt8.ofNat c.toNat).foldl (fun a d => 10 * a + (d.toNat - 48)) a =
        Nat.ofDigitChars 10 cs a := by
    intro cs
    induction cs with
    | nil => intro a _; rfl
    | cons c cs ih =>
      intro a hc
      have hd := toNat_digit (hc c List.mem_cons_self)
      rw [List.map_cons, List.foldl_cons, ih _ fun d hd => hc d (List.mem_cons_of_mem c hd),
        Nat.ofDigitChars_cons, hd.1]
      rfl
  rw [digitsValue, digits, key _ 0 fun c hc => Nat.isDigit_of_mem_toDigits (by decide) (by decide) hc]
  exact Nat.ofDigitChars_ten_toDigits

theorem isdigit_not_isspace {b : Byte} (h : isdigit b = true) :
    isspace b = false ∧ b ≠ 45 ∧ b ≠ 43 := by
  simp only [isdigit, Bool.and_eq_true, decide_eq_true_eq, UInt8.le_iff_toNat_le] at h
  have hlo : 48 ≤ b.toNat := h.1
  refine ⟨?_, ?_, ?_⟩
  · simp only [isspace, SP, Bool.or_eq_false_iff, Bool.and_eq_false_iff, decide_eq_false_iff_not,
      beq_eq_false_iff_ne, ne_eq, UInt8.le_iff_toNat_le, ← UInt8.toNat_inj]
    refine ⟨?_, .inr ?_⟩
    · show b.toNat ≠ 32
      omega
    · show ¬ b.toNat ≤ 13
      omega
  · rintro rfl
    exact absurd hlo (by decide)
  · rintro rfl
    exact absurd hlo (by decide)

/-- Digits are scanned up to the first byte that is none. -/
theorem scanNumber_digits_append (n : Nat) {rest : Bytes}
    (h : ∀ c ∈ rest.head?, isdigit c = false) :
    scanNumber (digits n ++ rest) = (false, digits n, rest) := by
  obtain ⟨b, bs, hd⟩ := List.exists_cons_of_ne_nil (digits_ne_nil n)
  have hall : ∀ c ∈ b :: bs, isdigit c = true := fun c hc => isdigit_digits (n := n) (hd ▸ hc)
  obtain ⟨hsp, hneg, hpos⟩ := isdigit_not_isspace (hall b List.mem_cons_self)
  rw [hd]
  simp only [scanNumber, List.cons_append, List.dropWhile_cons, hsp, Bool.false_eq_true, if_false,
    List.head?_cons]
  have hne : (some b == some (45 : Byte)) = false ∧ (some b == some (43 : Byte)) = false := by
    simp [hneg, hpos]
  simp only [hne, Bool.or_self, Bool.false_eq_true, if_false]
  rw [← List.cons_append, List.takeWhile_append_of_pos hall, List.dropWhile_append_of_pos hall]
  cases rest with
  | nil => simp
  | cons c rest =>
    have hc := h c rfl
    simp [hc]

/-- A text of digits alone, with or without a minus sign, is scanned as a whole. -/
theorem scanNumber_digits (n : Nat) : scanNumber (digits n) = (false, digits n, []) := by
  have h := scanNumber_digits_append n (show ∀ c ∈ ([] : Bytes).head?, isdigit c = false by simp)
  rwa [List.append_nil] at h

theorem scanNumber_minus (n : Nat) : scanNumber (45 :: digits n) = (true, digits n, []) := by
  have hall : ∀ c ∈ digits n, isdigit c = true := fun c hc => isdigit_digits hc
  have hsp : isspace 45 = false := by decide
  simp only [scanNumber, List.dropWhile_cons, hsp, Bool.false_eq_true, if_false, List.head?_cons,
    beq_self_eq_true, Bool.true_or, if_true, List.tail_cons]
  rw [List.takeWhile_eq_self_iff.mpr hall, List.dropWhile_eq_nil_iff.mpr hall]

theorem strtoll_decimal {v : Int} (hlo : -2 ^ 63 ≤ v) (hhi : v < 2 ^ 63) :
    strtoll (decimal v) = (v, []) := by
  rcases decimal_cases v with ⟨hv, hd⟩ | ⟨hv, hd⟩
  · rw [hd]
    simp only [strtoll, scanNumber_digits, digits_ne_nil, if_false, digitsValue_digits,
      Bool.false_eq_true]
    congr 1
    omega
  · rw [hd]
    simp only [strtoll, scanNumber_minus, digits_ne_nil, if_false, digitsValue_digits, if_true]
    congr 1
    omega

theorem atoi_decimal {v : Int} (hlo : -2 ^ 31 ≤ v) (hhi : v < 2 ^ 31) : atoi (decimal v) = v := by
  rw [atoi, strtoll_decimal (by omega) (by omega)]
  exact Int.bmod_eq_of_le (by omega) (by omega)

/-- A number text has nothing that ends a token, a line or a string. -/
theorem mem_decimal {v : Int} {b : Byte} (h : b ∈ decimal v) :
    b ≠ NUL ∧ b ≠ CR ∧ b ≠ LF ∧ b ≠ SP ∧ b ≠ TAB ∧ b ≠ 58 := by
  have hdigit : ∀ c : Byte, isdigit c = true →
      c ≠ NUL ∧ c ≠ CR ∧ c ≠ LF ∧ c ≠ SP ∧ c ≠ TAB ∧ c ≠ 58 := by
    intro c hc
    refine ⟨?_, ?_, ?_, ?_, ?_, ?_⟩ <;> (rintro rfl; exact absurd hc (by decide))
  rcases decimal_cases v with ⟨-, hd⟩ | ⟨-, hd⟩
  · rw [hd] at h
    exact hdigit b (isdigit_digits h)
  · rw [hd] at h
    rcases List.mem_cons.mp h with rfl | h
    · decide
    · exact hdigit b (isdigit_digits h)

theorem decimal_ne_nil (v : Int) : decimal v ≠ [] := by
  rcases decimal_cases v with ⟨-, hd⟩ | ⟨-, hd⟩
  · rw [hd]; exact digits_ne_nil _
  · rw [hd]; exact List.cons_ne_nil _ _

end Shs
