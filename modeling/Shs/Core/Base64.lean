import Mathlib.Data.List.TakeWhile
import Shs.Core.Bytes

/-!
# Core.Base64

`string_base64_encode` and `string_base64_decode`. The decoder reads up to the first `'='`; what it
reads there it regroups without looking at the padding.
-/

namespace Shs
namespace Base64

def PAD : Byte := 61

/-- The table `basis64` of the encoder. -/
def basis64 : Bytes := str "ABCDEFGHIJKLMNOPQRSTUVWXYZabcdefghijklmnopqrstuvwxyz0123456789+/"

/-- An element of the table. -/
def digit (n : Byte) : Byte := basis64.getD n.toNat 0

/-- The table `basis64` of the decoder; 77 stands for a byte outside the alphabet. -/
def decodeBasis64 : List Byte :=
  [77, 77, 77, 77, 77, 77, 77, 77, 77, 77, 77, 77, 77, 77, 77, 77,
   77, 77, 77, 77, 77, 77, 77, 77, 77, 77, 77, 77, 77, 77, 77, 77,
   77, 77, 77, 77, 77, 77, 77, 77, 77, 77, 77, 62, 77, 77, 77, 63,
   52, 53, 54, 55, 56, 57, 58, 59, 60, 61, 77, 77, 77, 77, 77, 77,
   77,  0,  1,  2,  3,  4,  5,  6,  7,  8,  9, 10, 11, 12, 13, 14,
   15, 16, 17, 18, 19, 20, 21, 22, 23, 24, 25, 77, 77, 77, 77, 77,
   77, 26, 27, 28, 29, 30, 31, 32, 33, 34, 35, 36, 37, 38, 39, 40,
   41, 42, 43, 44, 45, 46, 47, 48, 49, 50, 51, 77, 77, 77, 77, 77]
  -- 128 and above
  ++ List.replicate 128 77

def value (c : Byte) : Byte := decodeBasis64.getD c.toNat 0

/-- `string_base64_encode`. -/
def stringBase64Encode : Bytes → Bytes
  | a :: b :: c :: rest =>
    digit ((a >>> 2) &&& 0x3f) :: digit (((a &&& 3) <<< 4) ||| (b >>> 4)) ::
      digit (((b &&& 0x0f) <<< 2) ||| (c >>> 6)) :: digit (c &&& 0x3f) :: stringBase64Encode rest
  | [a, b] =>
    [digit ((a >>> 2) &&& 0x3f), digit (((a &&& 3) <<< 4) ||| (b >>> 4)),
      digit ((b &&& 0x0f) <<< 2), PAD]
  | [a] => [digit ((a >>> 2) &&& 0x3f), digit ((a &&& 3) <<< 4), PAD, PAD]
  | [] => []

/-- The first loop of `string_base64_decode`: how many bytes there are to decode. -/
def decodeLen : Bytes → Option Nat
  | [] => some 0
  | c :: rest =>
    if c = PAD then some 0
    else if value c = 77 then none
    else (decodeLen rest).map (· + 1)

/-- Its second loop, with the two writes behind it. -/
def decodeGroups : Bytes → Bytes
  | a :: b :: c :: d :: rest =>
    ((value a <<< 2) ||| (value b >>> 4)) :: ((value b <<< 4) ||| (value c >>> 2)) ::
      ((value c <<< 6) ||| value d) :: decodeGroups rest
  | [a, b, c] => [(value a <<< 2) ||| (value b >>> 4), (value b <<< 4) ||| (value c >>> 2)]
  | [a, b] => [(value a <<< 2) ||| (value b >>> 4)]
  | _ => []

/-- `string_base64_decode`; `none` is `SHS_ERROR`. -/
def stringBase64Decode (src : Bytes) : Option Bytes := do
  let len ← decodeLen src
  if len % 4 = 1 then none else some (decodeGroups (src.take len))

/-! ## The alphabet -/

/-- A byte of the alphabet. -/
def InAlphabet (c : Byte) : Prop := c ∈ basis64

instance (c : Byte) : Decidable (InAlphabet c) := inferInstanceAs (Decidable (c ∈ basis64))

/-- The bytes of the alphabet, in the order of the table. -/
def alphabet : List Nat := List.range' 65 26 ++ List.range' 97 26 ++ List.range' 48 10 ++ [43, 47]

theorem basis64_eq : basis64 = alphabet.map UInt8.ofNat := by decide +kernel

theorem alphabet_lt {n : Nat} (hn : n ∈ alphabet) : n < 256 := by
  simp only [alphabet, List.mem_append, List.mem_range'_1, List.mem_cons, List.not_mem_nil,
    or_false] at hn
  omega

theorem inAlphabet_iff (c : Byte) : InAlphabet c ↔
    65 ≤ c.toNat ∧ c.toNat < 91 ∨ 97 ≤ c.toNat ∧ c.toNat < 123 ∨ 48 ≤ c.toNat ∧ c.toNat < 58 ∨
      c.toNat = 43 ∨ c.toNat = 47 := by
  have hmem : InAlphabet c ↔ c.toNat ∈ alphabet := by
    rw [InAlphabet, basis64_eq, List.mem_map]
    constructor
    · rintro ⟨n, hn, rfl⟩
      rwa [UInt8.toNat_ofNat_of_lt' (alphabet_lt hn)]
    · intro hc
      exact ⟨c.toNat, hc, UInt8.ofNat_toNat⟩
  simp [hmem, alphabet]

/-- The two tables belong together. -/
theorem value_eq_iff (c : Byte) : value c = 77 ↔ ¬InAlphabet c := by
  rw [inAlphabet_iff]
  have htable : ∀ p ∈ decodeBasis64.zipIdx, p.1 = 77 ↔
      ¬(65 ≤ p.2 ∧ p.2 < 91 ∨ 97 ≤ p.2 ∧ p.2 < 123 ∨ 48 ≤ p.2 ∧ p.2 < 58 ∨
        p.2 = 43 ∨ p.2 = 47) := by
    decide +kernel
  exact htable _ (mem_table (by decide +kernel) 0 c)

theorem digit_mem {n : Byte} (hn : n < 64) : InAlphabet (digit n) := by
  have hlen : basis64.length = 64 := by rw [basis64_eq]; rfl
  have hlt : n.toNat < basis64.length := hlen ▸ hn
  rw [digit, List.getD_eq_getElem?_getD, List.getElem?_eq_getElem hlt]
  exact List.getElem_mem hlt

theorem value_digit {n : Byte} (hn : n < 64) : value (digit n) = n := by
  rw [digit, basis64_eq]
  exact byte_forall (P := fun n => n < 64 → value ((alphabet.map UInt8.ofNat).getD n.toNat 0) = n)
    (by decide +kernel) n hn

theorem pad_notMem : ¬InAlphabet PAD := by
  rw [inAlphabet_iff]
  decide

/-! ## Bits -/

section Bits

/-- Each part of a byte is below 64. -/
theorem parts_lt : ∀ c : Byte, (c >>> 2) &&& 0x3f < 64 ∧ (c &&& 3) <<< 4 < 64 ∧ c >>> 4 < 64 ∧
    (c &&& 0x0f) <<< 2 < 64 ∧ c >>> 6 < 64 ∧ c &&& 0x3f < 64 :=
  byte_forall (by decide +kernel)

/-- The part of the other byte is shifted out. -/
theorem parts_out : ∀ c : Byte, c >>> 4 >>> 4 = 0 ∧ c >>> 6 >>> 2 = 0 ∧
    (c &&& 3) <<< 4 <<< 4 = 0 ∧ (c &&& 0x0f) <<< 2 <<< 6 = 0 :=
  byte_forall (by decide +kernel)

/-- The two parts of a byte make the byte. -/
theorem parts_join : ∀ c : Byte,
    (((c >>> 2) &&& 0x3f) <<< 2) ||| ((c &&& 3) <<< 4 >>> 4) = c ∧
      (c >>> 4 <<< 4) ||| ((c &&& 0x0f) <<< 2 >>> 2) = c ∧
      (c >>> 6 <<< 6) ||| (c &&& 0x3f) = c :=
  byte_forall (by decide +kernel)

variable (a b c : Byte)

theorem or_lt {x y : Byte} (hx : x < 64) (hy : y < 64) : x ||| y < 64 := by
  rw [UInt8.lt_iff_toNat_lt] at hx hy ⊢
  rw [UInt8.toNat_or]
  exact Nat.or_lt_two_pow (n := 6) hx hy

/-- The index of each of the four characters is below 64. -/
theorem first_lt : (a >>> 2) &&& 0x3f < 64 := (parts_lt a).1

theorem second_lt : ((a &&& 3) <<< 4) ||| (b >>> 4) < 64 :=
  or_lt (parts_lt a).2.1 (parts_lt b).2.2.1

theorem third_lt : ((b &&& 0x0f) <<< 2) ||| (c >>> 6) < 64 :=
  or_lt (parts_lt b).2.2.2.1 (parts_lt c).2.2.2.2.1

theorem fourth_lt : c &&& 0x3f < 64 := (parts_lt c).2.2.2.2.2

/-- The bits of each byte come back together. -/
theorem first_byte :
    (((a >>> 2) &&& 0x3f) <<< 2) ||| ((((a &&& 3) <<< 4) ||| (b >>> 4)) >>> 4) = a := by
  rw [UInt8.shiftRight_or, (parts_out b).1, UInt8.or_zero]
  exact (parts_join a).1

theorem second_byte :
    ((((a &&& 3) <<< 4) ||| (b >>> 4)) <<< 4) |||
      ((((b &&& 0x0f) <<< 2) ||| (c >>> 6)) >>> 2) = b := by
  obtain ⟨-, -, hbefore, -⟩ := parts_out a
  obtain ⟨-, hrest, -, -⟩ := parts_out c
  rw [UInt8.shiftLeft_or, UInt8.shiftRight_or, hbefore, hrest, UInt8.zero_or, UInt8.or_zero]
  exact (parts_join b).2.1

theorem third_byte : ((((b &&& 0x0f) <<< 2) ||| (c >>> 6)) <<< 6) ||| (c &&& 0x3f) = c := by
  obtain ⟨-, -, -, hbefore⟩ := parts_out b
  rw [UInt8.shiftLeft_or, hbefore, UInt8.zero_or]
  exact (parts_join c).2.2

end Bits

/-! ## Encoding -/

/-- What the encoder writes: characters of the alphabet that regroup to the text, and padding. -/
structure Encoded (s : Bytes) (t : Bytes) : Prop where
  parts : ∃ l pads, t = l ++ pads ∧ (∀ c ∈ l, InAlphabet c) ∧ (∀ c ∈ pads, c = PAD) ∧
    l.length % 4 ≠ 1 ∧ decodeGroups l = s
  length : t.length = 4 * ((s.length + 2) / 3)

theorem encoded (s : Bytes) : Encoded s (stringBase64Encode s) := by
  induction s using stringBase64Encode.induct with
  | case1 a b c rest ih =>
    obtain ⟨⟨l, pads, ht, hmem, hpads, hlen, hgroups⟩, hlength⟩ := ih
    refine ⟨⟨digit ((a >>> 2) &&& 0x3f) :: digit (((a &&& 3) <<< 4) ||| (b >>> 4)) ::
      digit (((b &&& 0x0f) <<< 2) ||| (c >>> 6)) :: digit (c &&& 0x3f) :: l, pads, ?_, ?_, hpads,
      ?_, ?_⟩, ?_⟩
    · simp [stringBase64Encode, ht]
    · simpa only [List.forall_mem_cons] using ⟨digit_mem (first_lt a), digit_mem (second_lt a b),
        digit_mem (third_lt b c), digit_mem (fourth_lt c), hmem⟩
    · simp only [List.length_cons]
      omega
    · rw [decodeGroups, value_digit (first_lt a), value_digit (second_lt a b),
        value_digit (third_lt b c), value_digit (fourth_lt c), first_byte, second_byte, third_byte,
        hgroups]
    · simp only [stringBase64Encode, List.length_cons, hlength]
      omega
  | case2 a b =>
    have hthird := third_lt b 0
    have hbyte := second_byte a b 0
    simp only [UInt8.zero_shiftRight, UInt8.or_zero] at hthird hbyte
    refine ⟨⟨[digit ((a >>> 2) &&& 0x3f), digit (((a &&& 3) <<< 4) ||| (b >>> 4)),
      digit ((b &&& 0x0f) <<< 2)], [PAD], rfl, ?_, by simp, by simp, ?_⟩,
      by simp [stringBase64Encode]⟩
    · simpa using ⟨digit_mem (first_lt a), digit_mem (second_lt a b), digit_mem hthird⟩
    · rw [decodeGroups, value_digit (first_lt a), value_digit (second_lt a b), value_digit hthird,
        first_byte, hbyte]
  | case3 a =>
    have hsecond := second_lt a 0
    have hbyte := first_byte a 0
    simp only [UInt8.zero_shiftRight, UInt8.or_zero] at hsecond hbyte
    refine ⟨⟨[digit ((a >>> 2) &&& 0x3f), digit ((a &&& 3) <<< 4)], [PAD, PAD], rfl, ?_, by simp,
      by simp, ?_⟩, by simp [stringBase64Encode]⟩
    · simpa using ⟨digit_mem (first_lt a), digit_mem hsecond⟩
    · rw [decodeGroups, value_digit (first_lt a), value_digit hsecond, hbyte]
  | case4 => exact ⟨⟨[], [], rfl, by simp, by simp, by simp, rfl⟩, rfl⟩

/-! ## Decoding -/

/-- The bytes before the first `'='`. -/
def beforePad (t : Bytes) : Bytes := t.takeWhile (· ≠ PAD)

theorem decodeLen_some {t : Bytes} (h : ∀ c ∈ beforePad t, InAlphabet c) :
    decodeLen t = some (beforePad t).length := by
  induction t with
  | nil => rfl
  | cons c t ih =>
    rw [decodeLen]
    by_cases hpad : c = PAD
    · simp [beforePad, hpad]
    · have hbefore : beforePad (c :: t) = c :: beforePad t := by simp [beforePad, hpad]
      rw [hbefore, List.forall_mem_cons] at h
      rw [if_neg hpad, if_neg (mt (value_eq_iff c).1 (not_not.2 h.1)), ih h.2, hbefore]
      rfl

theorem decodeLen_none {t : Bytes} (h : ¬∀ c ∈ beforePad t, InAlphabet c) :
    decodeLen t = none := by
  induction t with
  | nil => exact absurd (fun c hc => absurd hc List.not_mem_nil) h
  | cons c t ih =>
    rw [decodeLen]
    by_cases hpad : c = PAD
    · simp [beforePad, hpad] at h
    · have hbefore : beforePad (c :: t) = c :: beforePad t := by simp [beforePad, hpad]
      rw [hbefore, List.forall_mem_cons, not_and] at h
      rw [if_neg hpad]
      by_cases hc : InAlphabet c
      · rw [if_neg (mt (value_eq_iff c).1 (not_not.2 hc)), ih (h hc)]
        rfl
      · rw [if_pos ((value_eq_iff c).2 hc)]

theorem beforePad_append {l pads : Bytes} (hl : ∀ c ∈ l, InAlphabet c) (hp : ∀ c ∈ pads, c = PAD) :
    beforePad (l ++ pads) = l := by
  have hkeep : ∀ c ∈ l, (c ≠ PAD : Bool) = true := by
    intro c hc
    have hne : c ≠ PAD := by
      rintro rfl
      exact pad_notMem (hl _ hc)
    simpa using hne
  rw [beforePad, List.takeWhile_append_of_pos hkeep]
  cases pads with
  | nil => simp
  | cons c pads => simp [hp c List.mem_cons_self]

theorem decode_encode (s : Bytes) : stringBase64Decode (stringBase64Encode s) = some s := by
  obtain ⟨l, pads, ht, hmem, hpads, hlen, hgroups⟩ := (encoded s).parts
  have hbefore := beforePad_append hmem hpads
  rw [ht, stringBase64Decode, decodeLen_some (by rwa [hbefore]), hbefore]
  simp [hlen, hgroups]

theorem decode_eq_none_iff (t : Bytes) : stringBase64Decode t = none ↔
    (∃ c ∈ beforePad t, ¬InAlphabet c) ∨ (beforePad t).countP InAlphabet % 4 = 1 := by
  rw [stringBase64Decode]
  by_cases hall : ∀ c ∈ beforePad t, InAlphabet c
  · have hcount : (beforePad t).countP InAlphabet = (beforePad t).length :=
      List.countP_eq_length.2 fun c hc => by simpa using hall c hc
    rw [decodeLen_some hall, hcount]
    have hno : ¬∃ c ∈ beforePad t, ¬InAlphabet c := fun ⟨c, hc, hnot⟩ => hnot (hall c hc)
    simp [hno]
  · rw [decodeLen_none hall]
    push Not at hall
    simp [hall]

/-- The round trip, the length of the code, and which texts the decoder refuses. -/
theorem base64_codec (s t : Bytes) :
    stringBase64Decode (stringBase64Encode s) = some s ∧
      (stringBase64Encode s).length = 4 * ((s.length + 2) / 3) ∧
      (stringBase64Decode t = none ↔
        (∃ c ∈ beforePad t, ¬InAlphabet c) ∨ (beforePad t).countP InAlphabet % 4 = 1) :=
  ⟨decode_encode s, (encoded s).length, decode_eq_none_iff t⟩

example : stringBase64Encode (str "shs!") = str "c2hzIQ==" := by decide +kernel

end Base64
end Shs
