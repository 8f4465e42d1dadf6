import Shs.Core.Bytes
import Shs.Core.Math

/-!
# Core.Utf8

`string_utf8_decode` and `string_utf8_length`. They read the memory byte by byte, and the addresses
that they read are part of what they give.

The first byte of a sequence is compared with 0xf0, 0xe0 and 0xc0 by `>`, so the first of each range
falls into the range below it: 0xe0 is taken for the start of two bytes, and 0xf0 of three.
`utf8_decode_iff` says for which characters this matters.
-/

namespace Shs
namespace Utf8

abbrev Memory := Nat → Byte

/-- The bits of the first byte, the largest invalid value and the number of bytes that follow. -/
structure Lead where
  u     : Nat
  valid : Nat
  len   : Nat

def lead (u : Nat) : Option Lead :=
  if u > 0xf0 then some ⟨u &&& 0x07, 0xffff, 3⟩
  else if u > 0xe0 then some ⟨u &&& 0x0f, 0x7ff, 2⟩
  else if u > 0xc0 then some ⟨u &&& 0x1f, 0x7f, 1⟩
  else none

/-- The result, the new value of `*p`, and the addresses that were read. -/
structure Decoded where
  value : Nat
  next  : Nat
  reads : List Nat

def utf8Error : Nat := 0xffffffff
def utf8Incomplete : Nat := 0xfffffffe

/-- `while (len)`. -/
def decodeTail (m : Memory) (valid : Nat) : Nat → Nat → Nat → Decoded
  | 0, u, p => ⟨if u > valid then u else utf8Error, p, []⟩
  | len + 1, u, p =>
    let i := (m p).toNat
    if i < 0x80 then ⟨utf8Error, p + 1, [p]⟩
    else
      let r := decodeTail m valid len ((u <<< 6) ||| (i &&& 0x3f)) (p + 1)
      { r with reads := p :: r.reads }

def stringUtf8Decode (m : Memory) (p n : Nat) : Decoded :=
  match lead (m p).toNat with
  | none => ⟨utf8Error, p + 1, [p]⟩
  | some l =>
    if subSizeT n 1 < l.len then ⟨utf8Incomplete, p, [p]⟩
    else
      let r := decodeTail m l.valid l.len l.u (p + 1)
      { r with reads := p :: r.reads }

/-- The loop of `string_utf8_length`, up to `last`. Each turn that goes on moves `p`, so `last - p`
turns are enough. -/
def lengthLoop (m : Memory) (n last : Nat) : Nat → Nat → Nat → Nat × List Nat
  | 0, _, len => (len, [])
  | fuel + 1, p, len =>
    if p < last then
      if (m p).toNat < 0x80 then
        let r := lengthLoop m n last fuel (p + 1) (len + 1)
        (r.1, p :: r.2)
      else
        let d := stringUtf8Decode m p n
        if d.value > 0x10ffff then (n, p :: d.reads)
        else
          let r := lengthLoop m n last fuel d.next (len + 1)
          (r.1, p :: d.reads ++ r.2)
    else (len, [])

def stringUtf8Length (m : Memory) (p n : Nat) : Nat × List Nat := lengthLoop m n (p + n) n p 0

/-! ## Sequences -/

/-- The memory has the bytes `xs` at `p`. -/
def Holds (m : Memory) (p : Nat) (xs : Bytes) : Prop := ∀ i, (h : i < xs.length) → m (p + i) = xs[i]

/-- The decoder gives the character and steps over its bytes, whatever follows. -/
def Decodes (c : Char) : Prop :=
  ∀ m p n, Holds m p (String.utf8EncodeChar c) → (String.utf8EncodeChar c).length ≤ n → n < 2 ^ 64 →
    (stringUtf8Decode m p n).value = c.toNat ∧
      (stringUtf8Decode m p n).next = p + (String.utf8EncodeChar c).length

/-- The characters whose first byte is 0xe0 or 0xf0. -/
def Misread (c : Char) : Prop :=
  0x800 ≤ c.toNat ∧ c.toNat ≤ 0xfff ∨ 0x10000 ≤ c.toNat ∧ c.toNat ≤ 0x3ffff

instance (c : Char) : Decidable (Misread c) := inferInstanceAs (Decidable (_ ∨ _))

section Holds

variable {m : Memory} {p : Nat} {x : Byte} {xs ys : Bytes}

theorem Holds.head (h : Holds m p (x :: xs)) : m p = x := h 0 (Nat.succ_pos _)

theorem Holds.tail (h : Holds m p (x :: xs)) : Holds m (p + 1) xs := by
  intro i hi
  have hnext := h (i + 1) (Nat.succ_lt_succ hi)
  rw [Nat.add_assoc, Nat.add_comm 1 i]
  exact hnext

theorem Holds.left (h : Holds m p (xs ++ ys)) : Holds m p xs := by
  intro i hi
  rw [h i (by rw [List.length_append]; omega), List.getElem_append_left hi]

theorem Holds.right (h : Holds m p (xs ++ ys)) : Holds m (p + xs.length) ys := by
  intro i hi
  rw [Nat.add_assoc, h (xs.length + i) (by rw [List.length_append]; omega),
    List.getElem_append_right (Nat.le_add_right _ _)]
  congr 1
  omega

end Holds

theorem low_bits (u i : Nat) : (u <<< 6) ||| (i &&& 0x3f) = u * 64 + i % 64 := by
  have hand : i &&& 0x3f = i % 64 := Nat.and_two_pow_sub_one_eq_mod i 6
  rw [hand, ← Nat.shiftLeft_add_eq_or_of_lt (Nat.mod_lt i (by decide)), Nat.shiftLeft_eq]

/-! ## The decoder on sequences of each length -/

section Decode

variable {m : Memory} {p n u valid len : Nat}

theorem lead_three (h : 0xf0 < u) : lead u = some ⟨u % 8, 0xffff, 3⟩ := by
  rw [lead, if_pos h, show u &&& 0x07 = u % 8 from Nat.and_two_pow_sub_one_eq_mod u 3]

theorem lead_two (h : 0xe0 < u) (h' : u ≤ 0xf0) : lead u = some ⟨u % 16, 0x7ff, 2⟩ := by
  rw [lead, if_neg (by omega), if_pos h,
    show u &&& 0x0f = u % 16 from Nat.and_two_pow_sub_one_eq_mod u 4]

theorem lead_one (h : 0xc0 < u) (h' : u ≤ 0xe0) : lead u = some ⟨u % 32, 0x7f, 1⟩ := by
  rw [lead, if_neg (by omega), if_neg (by omega), if_pos h,
    show u &&& 0x1f = u % 32 from Nat.and_two_pow_sub_one_eq_mod u 5]

theorem lead_none (h : u ≤ 0xc0) : lead u = none := by
  rw [lead, if_neg (by omega), if_neg (by omega), if_neg (by omega)]

theorem decode_lead {l : Lead} (hl : lead (m p).toNat = some l) (hn : l.len < n) (hn' : n < 2 ^ 64) :
    stringUtf8Decode m p n =
      { decodeTail m l.valid l.len l.u (p + 1) with
        reads := p :: (decodeTail m l.valid l.len l.u (p + 1)).reads } := by
  rw [stringUtf8Decode, hl]
  exact if_neg (by rw [subSizeT_of_le hn' (by omega)]; omega)

theorem decodeTail_succ (h : 0x80 ≤ (m p).toNat) :
    decodeTail m valid (len + 1) u p =
      { decodeTail m valid len (u * 64 + (m p).toNat % 64) (p + 1) with
        reads := p :: (decodeTail m valid len (u * 64 + (m p).toNat % 64) (p + 1)).reads } := by
  rw [decodeTail, if_neg (by omega), low_bits]

/-- The first byte and one that follows. -/
theorem decode_one {b₀ b₁ : Nat} (h₀ : (m p).toNat = b₀) (h₁ : (m (p + 1)).toNat = b₁)
    (hb₀ : 0xc0 < b₀ ∧ b₀ ≤ 0xe0) (hb₁ : 0x80 ≤ b₁) (hn : 2 ≤ n) (hn' : n < 2 ^ 64) :
    (stringUtf8Decode m p n).value =
        (if b₀ % 32 * 64 + b₁ % 64 > 0x7f then b₀ % 32 * 64 + b₁ % 64 else utf8Error) ∧
      (stringUtf8Decode m p n).next = p + 2 := by
  subst h₀ h₁
  rw [decode_lead (lead_one hb₀.1 hb₀.2) hn hn', decodeTail_succ hb₁]
  exact ⟨rfl, rfl⟩

/-- The first byte and two that follow. -/
theorem decode_two {b₀ b₁ b₂ : Nat} (h₀ : (m p).toNat = b₀) (h₁ : (m (p + 1)).toNat = b₁)
    (h₂ : (m (p + 1 + 1)).toNat = b₂) (hb₀ : 0xe0 < b₀ ∧ b₀ ≤ 0xf0) (hb₁ : 0x80 ≤ b₁)
    (hb₂ : 0x80 ≤ b₂) (hn : 3 ≤ n) (hn' : n < 2 ^ 64) :
    (stringUtf8Decode m p n).value =
        (if (b₀ % 16 * 64 + b₁ % 64) * 64 + b₂ % 64 > 0x7ff then
          (b₀ % 16 * 64 + b₁ % 64) * 64 + b₂ % 64 else utf8Error) ∧
      (stringUtf8Decode m p n).next = p + 3 := by
  subst h₀ h₁ h₂
  rw [decode_lead (lead_two hb₀.1 hb₀.2) hn hn', decodeTail_succ hb₁, decodeTail_succ hb₂]
  exact ⟨rfl, rfl⟩

/-- The first byte and three that follow. -/
theorem decode_three {b₀ b₁ b₂ b₃ : Nat} (h₀ : (m p).toNat = b₀) (h₁ : (m (p + 1)).toNat = b₁)
    (h₂ : (m (p + 1 + 1)).toNat = b₂) (h₃ : (m (p + 1 + 1 + 1)).toNat = b₃) (hb₀ : 0xf0 < b₀)
    (hb₁ : 0x80 ≤ b₁) (hb₂ : 0x80 ≤ b₂) (hb₃ : 0x80 ≤ b₃) (hn : 4 ≤ n) (hn' : n < 2 ^ 64) :
    (stringUtf8Decode m p n).value =
        (if ((b₀ % 8 * 64 + b₁ % 64) * 64 + b₂ % 64) * 64 + b₃ % 64 > 0xffff then
          ((b₀ % 8 * 64 + b₁ % 64) * 64 + b₂ % 64) * 64 + b₃ % 64 else utf8Error) ∧
      (stringUtf8Decode m p n).next = p + 4 := by
  subst h₀ h₁ h₂ h₃
  rw [decode_lead (lead_three hb₀) hn hn', decodeTail_succ hb₁, decodeTail_succ hb₂,
    decodeTail_succ hb₃]
  exact ⟨rfl, rfl⟩

end Decode

/-! ## Characters -/

section Characters

variable {c : Char} {m : Memory} {p n : Nat}

theorem toNat_ofNat {k : Nat} (h : k < 256) : (UInt8.ofNat k).toNat = k := by
  rw [UInt8.toNat_ofNat']
  exact Nat.mod_eq_of_lt h

theorem encode_eq (c : Char) : String.utf8EncodeChar c =
    if c.toNat ≤ 0x7f then [UInt8.ofNat c.toNat]
    else if c.toNat ≤ 0x7ff then
      [UInt8.ofNat (c.toNat / 64 % 32 + 0xc0), UInt8.ofNat (c.toNat % 64 + 0x80)]
    else if c.toNat ≤ 0xffff then
      [UInt8.ofNat (c.toNat / 4096 % 16 + 0xe0), UInt8.ofNat (c.toNat / 64 % 64 + 0x80),
        UInt8.ofNat (c.toNat % 64 + 0x80)]
    else
      [UInt8.ofNat (c.toNat / 262144 % 8 + 0xf0), UInt8.ofNat (c.toNat / 4096 % 64 + 0x80),
        UInt8.ofNat (c.toNat / 64 % 64 + 0x80), UInt8.ofNat (c.toNat % 64 + 0x80)] := rfl

theorem toNat_lt (c : Char) : c.toNat < 0x110000 := by
  have h := c.valid
  simp only [UInt32.isValidChar, Nat.isValidChar] at h
  show c.val.toNat < 0x110000
  omega

/-- Two bytes. -/
theorem decode_short (hlo : 0x80 ≤ c.toNat) (hhi : c.toNat ≤ 0x7ff)
    (h : Holds m p (String.utf8EncodeChar c)) (hn : 2 ≤ n) (hn' : n < 2 ^ 64) :
    (stringUtf8Decode m p n).value = c.toNat ∧ (stringUtf8Decode m p n).next = p + 2 := by
  rw [encode_eq, if_neg (by omega), if_pos hhi] at h
  have h₀ := congrArg UInt8.toNat h.head
  have h₁ := congrArg UInt8.toNat h.tail.head
  rw [toNat_ofNat (by omega)] at h₀ h₁
  obtain ⟨hvalue, hnext⟩ := decode_one h₀ h₁ (by omega) (by omega) hn hn'
  refine ⟨?_, hnext⟩
  rw [hvalue, if_pos (by omega)]
  omega

/-- The bytes of a character of three bytes. -/
theorem middle_bytes (hlo : 0x800 ≤ c.toNat) (hhi : c.toNat ≤ 0xffff)
    (h : Holds m p (String.utf8EncodeChar c)) :
    (m p).toNat = c.toNat / 4096 % 16 + 0xe0 ∧ (m (p + 1)).toNat = c.toNat / 64 % 64 + 0x80 ∧
      (m (p + 1 + 1)).toNat = c.toNat % 64 + 0x80 := by
  rw [encode_eq, if_neg (by omega), if_neg (by omega), if_pos hhi] at h
  have h₀ := congrArg UInt8.toNat h.head
  have h₁ := congrArg UInt8.toNat h.tail.head
  have h₂ := congrArg UInt8.toNat h.tail.tail.head
  rw [toNat_ofNat (by omega)] at h₀ h₁ h₂
  exact ⟨h₀, h₁, h₂⟩

/-- The bytes of a character of four bytes. -/
theorem long_bytes (hlo : 0x10000 ≤ c.toNat) (h : Holds m p (String.utf8EncodeChar c)) :
    (m p).toNat = c.toNat / 262144 + 0xf0 ∧ (m (p + 1)).toNat = c.toNat / 4096 % 64 + 0x80 ∧
      (m (p + 1 + 1)).toNat = c.toNat / 64 % 64 + 0x80 ∧
      (m (p + 1 + 1 + 1)).toNat = c.toNat % 64 + 0x80 := by
  have hc := toNat_lt c
  rw [encode_eq, if_neg (by omega), if_neg (by omega), if_neg (by omega)] at h
  have h₀ := congrArg UInt8.toNat h.head
  have h₁ := congrArg UInt8.toNat h.tail.head
  have h₂ := congrArg UInt8.toNat h.tail.tail.head
  have h₃ := congrArg UInt8.toNat h.tail.tail.tail.head
  rw [toNat_ofNat (by omega)] at h₀ h₁ h₂ h₃
  exact ⟨by omega, h₁, h₂, h₃⟩

theorem decode_middle (hlo : 0x1000 ≤ c.toNat) (hhi : c.toNat ≤ 0xffff)
    (h : Holds m p (String.utf8EncodeChar c)) (hn : 3 ≤ n) (hn' : n < 2 ^ 64) :
    (stringUtf8Decode m p n).value = c.toNat ∧ (stringUtf8Decode m p n).next = p + 3 := by
  obtain ⟨h₀, h₁, h₂⟩ := middle_bytes (by omega) hhi h
  obtain ⟨hvalue, hnext⟩ := decode_two h₀ h₁ h₂ (by omega) (by omega) (by omega) hn hn'
  refine ⟨?_, hnext⟩
  rw [hvalue, if_pos (by omega)]
  omega

theorem decode_long (hlo : 0x40000 ≤ c.toNat) (h : Holds m p (String.utf8EncodeChar c))
    (hn : 4 ≤ n) (hn' : n < 2 ^ 64) :
    (stringUtf8Decode m p n).value = c.toNat ∧ (stringUtf8Decode m p n).next = p + 4 := by
  have hc := toNat_lt c
  obtain ⟨h₀, h₁, h₂, h₃⟩ := long_bytes (by omega) h
  obtain ⟨hvalue, hnext⟩ :=
    decode_three h₀ h₁ h₂ h₃ (by omega) (by omega) (by omega) (by omega) hn hn'
  refine ⟨?_, hnext⟩
  rw [hvalue, if_pos (by omega)]
  omega

/-- The first byte is 0xe0: two bytes are read, and their value is too small. -/
theorem misread_middle (hlo : 0x800 ≤ c.toNat) (hhi : c.toNat ≤ 0xfff)
    (h : Holds m p (String.utf8EncodeChar c)) (hn : 3 ≤ n) (hn' : n < 2 ^ 64) :
    (stringUtf8Decode m p n).value = utf8Error := by
  obtain ⟨h₀, h₁, -⟩ := middle_bytes hlo (by omega) h
  obtain ⟨hvalue, -⟩ := decode_one h₀ h₁ (by omega) (by omega) (by omega) hn'
  rw [hvalue, if_neg (by omega)]

/-- The first byte is 0xf0: three bytes are read, and the fourth one is left. -/
theorem misread_long (hlo : 0x10000 ≤ c.toNat) (hhi : c.toNat ≤ 0x3ffff)
    (h : Holds m p (String.utf8EncodeChar c)) (hn : 4 ≤ n) (hn' : n < 2 ^ 64) :
    ((stringUtf8Decode m p n).value ≤ 0xfff ∨ (stringUtf8Decode m p n).value = utf8Error) ∧
      (stringUtf8Decode m p n).next = p + 3 := by
  obtain ⟨h₀, h₁, h₂, -⟩ := long_bytes hlo h
  obtain ⟨hvalue, hnext⟩ := decode_two h₀ h₁ h₂ (by omega) (by omega) (by omega) (by omega) hn'
  refine ⟨?_, hnext⟩
  rw [hvalue]
  split
  · left
    omega
  · exact .inr rfl

theorem length_encode (c : Char) : (String.utf8EncodeChar c).length =
    if c.toNat ≤ 0x7f then 1 else if c.toNat ≤ 0x7ff then 2 else if c.toNat ≤ 0xffff then 3 else 4 := by
  rw [encode_eq]
  split
  · rfl
  · split
    · rfl
    · split
      · rfl
      · rfl

theorem decode_encoded (hlo : 0x80 ≤ c.toNat) (hc : ¬ Misread c) : Decodes c := by
  intro m p n h hn hn'
  rw [length_encode, if_neg (by omega)] at hn ⊢
  unfold Misread at hc
  by_cases hshort : c.toNat ≤ 0x7ff
  · rw [if_pos hshort] at hn ⊢
    exact decode_short hlo hshort h hn hn'
  · rw [if_neg hshort] at hn ⊢
    by_cases hmiddle : c.toNat ≤ 0xffff
    · rw [if_pos hmiddle] at hn ⊢
      exact decode_middle (by omega) hmiddle h hn hn'
    · rw [if_neg hmiddle] at hn ⊢
      exact decode_long (by omega) h hn hn'

/-- A memory with the bytes `xs` at 0. -/
def memoryOf (xs : Bytes) : Memory := fun i => xs.getD i 0

theorem holds_memoryOf (xs : Bytes) : Holds (memoryOf xs) 0 xs := by
  intro i hi
  rw [Nat.zero_add, memoryOf, List.getD_eq_getElem?_getD, List.getElem?_eq_getElem hi,
    Option.getD_some]

/-- A character of at least two bytes is decoded exactly when its first byte is not at the start of a
range. -/
theorem decodes_iff (hlo : 0x80 ≤ c.toNat) : Decodes c ↔ ¬ Misread c := by
  refine ⟨fun h hc => ?_, decode_encoded hlo⟩
  have hholds := holds_memoryOf (String.utf8EncodeChar c)
  have hlen := length_encode c
  have hvalue := (h _ 0 4 hholds (by rw [hlen]; split <;> (try split) <;> (try split) <;> omega)
    (by decide)).1
  have hmax := toNat_lt c
  rcases hc with ⟨hmin, hhi⟩ | ⟨hmin, hhi⟩
  · rw [misread_middle hmin hhi hholds (by decide) (by decide), utf8Error] at hvalue
    omega
  · obtain ⟨hwrong, -⟩ := misread_long hmin hhi hholds (Nat.le_refl 4) (by decide)
    rw [hvalue, utf8Error] at hwrong
    omega

end Characters

/-! ## Texts -/

/-- The standard encoding of a text. -/
def encode (cs : List Char) : Bytes := cs.flatMap String.utf8EncodeChar

/-- The length of a text is the number of its characters, whatever follows it in memory. -/
def Counts (cs : List Char) : Prop :=
  ∀ m p, Holds m p (encode cs) → (stringUtf8Length m p (encode cs).length).1 = cs.length

section Texts

variable {c : Char} {cs : List Char} {m : Memory} {p n last fuel len : Nat}

theorem length_encode_pos (c : Char) : 0 < (String.utf8EncodeChar c).length := by
  rw [length_encode]
  split
  · decide
  · split
    · decide
    · split
      · decide
      · decide

theorem first_multi (hc : 0x80 ≤ c.toNat) (h : Holds m p (String.utf8EncodeChar c)) :
    0x80 ≤ (m p).toNat := by
  by_cases hshort : c.toNat ≤ 0x7ff
  · rw [encode_eq, if_neg (by omega), if_pos hshort] at h
    have h₀ := congrArg UInt8.toNat h.head
    rw [toNat_ofNat (by omega)] at h₀
    omega
  · by_cases hmiddle : c.toNat ≤ 0xffff
    · have h₀ := (middle_bytes (by omega) hmiddle h).1
      omega
    · have h₀ := (long_bytes (by omega) h).1
      omega

/-- A byte that continues a sequence does not start one. -/
theorem decode_none (h : (m p).toNat ≤ 0xc0) : (stringUtf8Decode m p n).value = utf8Error := by
  rw [stringUtf8Decode, lead_none h]

/-- One character that is not misread is one turn. -/
theorem lengthLoop_char (hc : ¬ Misread c) (h : Holds m p (String.utf8EncodeChar c)) (hp : p < last)
    (hn : (String.utf8EncodeChar c).length ≤ n) (hn' : n < 2 ^ 64) :
    (lengthLoop m n last (fuel + 1) p len).1 =
      (lengthLoop m n last fuel (p + (String.utf8EncodeChar c).length) (len + 1)).1 := by
  rw [lengthLoop, if_pos hp]
  by_cases hascii : c.toNat ≤ 0x7f
  · rw [encode_eq, if_pos hascii] at h
    have h₀ := congrArg UInt8.toNat h.head
    rw [toNat_ofNat (by omega)] at h₀
    rw [if_pos (by omega), length_encode, if_pos hascii]
  · have hmulti := first_multi (by omega) h
    obtain ⟨hvalue, hnext⟩ := decode_encoded (by omega) hc m p n h hn hn'
    have hmax := toNat_lt c
    rw [if_neg (by omega)]
    simp only
    rw [if_neg (by omega), hnext]

/-- At a character that is misread the loop gives up, in this turn or in the next one. -/
theorem lengthLoop_misread (hc : Misread c) (h : Holds m p (String.utf8EncodeChar c))
    (hp : p + (String.utf8EncodeChar c).length ≤ last)
    (hn : (String.utf8EncodeChar c).length ≤ n) (hn' : n < 2 ^ 64) :
    (lengthLoop m n last (fuel + 2) p len).1 = n := by
  have hlength := length_encode c
  rcases hc with ⟨hlo, hhi⟩ | ⟨hlo, hhi⟩
  · rw [if_neg (by omega), if_neg (by omega), if_pos (by omega)] at hlength
    have hmulti := first_multi (by omega) h
    rw [lengthLoop, if_pos (by omega), if_neg (by omega)]
    simp only
    rw [misread_middle hlo hhi h (by omega) hn', if_pos (by decide)]
  · rw [if_neg (by omega), if_neg (by omega), if_neg (by omega)] at hlength
    have hmulti := first_multi (by omega) h
    obtain ⟨hvalue, hnext⟩ := misread_long hlo hhi h (by omega) hn'
    have hfourth : (m (p + 3)).toNat = c.toNat % 64 + 0x80 := (long_bytes hlo h).2.2.2
    rw [lengthLoop, if_pos (by omega), if_neg (by omega)]
    simp only
    split
    · rfl
    · -- the fourth byte
      rw [hnext, lengthLoop, if_pos (by omega), if_neg (by omega)]
      simp only
      rw [decode_none (by omega), if_pos (by decide)]

theorem encode_cons (c : Char) (cs : List Char) :
    encode (c :: cs) = String.utf8EncodeChar c ++ encode cs := List.flatMap_cons

/-- A text without misread characters is counted. -/
theorem lengthLoop_counted (hcs : ∀ c ∈ cs, ¬ Misread c) (h : Holds m p (encode cs))
    (hp : p + (encode cs).length = last) (hn : (encode cs).length ≤ n) (hn' : n < 2 ^ 64)
    (hfuel : last ≤ p + fuel) : (lengthLoop m n last fuel p len).1 = len + cs.length := by
  induction cs generalizing p fuel len with
  | nil =>
    have hend : ¬ p < last := by
      have hzero : (encode []).length = 0 := rfl
      omega
    cases fuel with
    | zero => rfl
    | succ fuel =>
      rw [lengthLoop, if_neg hend]
      rfl
  | cons c cs ih =>
    rw [encode_cons] at h
    rw [encode_cons, List.length_append] at hp hn
    have hpos := length_encode_pos c
    obtain ⟨fuel, rfl⟩ := Nat.exists_eq_succ_of_ne_zero (n := fuel) (by omega)
    rw [Nat.succ_eq_add_one, lengthLoop_char (hcs c List.mem_cons_self) h.left (by omega)
        (by omega) hn',
      ih (fun d hd => hcs d (List.mem_cons_of_mem c hd)) h.right (by omega) (by omega) (by omega),
      List.length_cons]
    omega

/-- At its first misread character a text is given up. -/
theorem lengthLoop_rejected (hcs : ∃ c ∈ cs, Misread c) (h : Holds m p (encode cs))
    (hp : p + (encode cs).length = last) (hn : (encode cs).length ≤ n) (hn' : n < 2 ^ 64)
    (hfuel : last ≤ p + fuel) : (lengthLoop m n last fuel p len).1 = n := by
  induction cs generalizing p fuel len with
  | nil =>
    obtain ⟨c, hc, -⟩ := hcs
    exact absurd hc List.not_mem_nil
  | cons c cs ih =>
    rw [encode_cons] at h
    rw [encode_cons, List.length_append] at hp hn
    have hpos := length_encode_pos c
    by_cases hc : Misread c
    · have htwo : 2 ≤ (String.utf8EncodeChar c).length := by
        have hlength := length_encode c
        rcases hc with hc | hc
        · rw [if_neg (by omega), if_neg (by omega), if_pos (by omega)] at hlength
          omega
        · rw [if_neg (by omega), if_neg (by omega), if_neg (by omega)] at hlength
          omega
      obtain ⟨fuel, rfl⟩ := Nat.exists_eq_add_of_le' (n := fuel) (m := 2) (by omega)
      exact lengthLoop_misread hc h.left (by omega) (by omega) hn'
    · obtain ⟨fuel, rfl⟩ := Nat.exists_eq_succ_of_ne_zero (n := fuel) (by omega)
      rw [Nat.succ_eq_add_one, lengthLoop_char hc h.left (by omega) (by omega) hn']
      refine ih ?_ h.right (by omega) (by omega) (by omega)
      obtain ⟨d, hd, hmis⟩ := hcs
      rcases List.mem_cons.1 hd with rfl | hd
      · exact absurd hmis hc
      · exact ⟨d, hd, hmis⟩

/-- The number of bytes is not below the number of characters, and above it when a character has more
than one byte. -/
theorem length_le_encode (cs : List Char) : cs.length ≤ (encode cs).length := by
  induction cs with
  | nil => exact Nat.le_refl 0
  | cons c cs ih =>
    have hpos := length_encode_pos c
    rw [encode_cons, List.length_append, List.length_cons]
    omega

theorem length_lt_encode (h : ∃ c ∈ cs, Misread c) : cs.length < (encode cs).length := by
  obtain ⟨c, hc, hmis⟩ := h
  obtain ⟨xs, ys, rfl⟩ := List.append_of_mem hc
  have hsplit : encode (xs ++ c :: ys) = encode xs ++ (String.utf8EncodeChar c ++ encode ys) := by
    rw [encode, List.flatMap_append, List.flatMap_cons, encode, encode]
  have hlength := length_encode c
  have hxs := length_le_encode xs
  have hys := length_le_encode ys
  rw [hsplit, List.length_append, List.length_append, List.length_append, List.length_cons]
  rcases hmis with hmis | hmis
  · rw [if_neg (by omega), if_neg (by omega), if_pos (by omega)] at hlength
    omega
  · rw [if_neg (by omega), if_neg (by omega), if_neg (by omega)] at hlength
    omega

theorem counts_iff (hsize : (encode cs).length < 2 ^ 64) : Counts cs ↔ ¬ ∃ c ∈ cs, Misread c := by
  constructor
  · intro h hmis
    have hholds := holds_memoryOf (encode cs)
    have heq := h _ 0 hholds
    have hrejected : (stringUtf8Length (memoryOf (encode cs)) 0 (encode cs).length).1 =
        (encode cs).length :=
      lengthLoop_rejected hmis hholds rfl (Nat.le_refl _) hsize (Nat.le_refl _)
    exact Nat.ne_of_gt (length_lt_encode hmis) (hrejected.symm.trans heq)
  · intro h m p hholds
    have hcounted : (stringUtf8Length m p (encode cs).length).1 = 0 + cs.length :=
      lengthLoop_counted (fun c hc hmis => h ⟨c, hc, hmis⟩) hholds rfl (Nat.le_refl _) hsize
        (Nat.le_refl _)
    rw [hcounted, Nat.zero_add]

/-- The decoder is right on a character, and the length on a text, exactly when no character is in
the ranges that start with the bytes 0xe0 and 0xf0. -/
theorem utf8_decode_iff (c : Char) (cs : List Char) :
    (0x80 ≤ c.toNat → (Decodes c ↔ ¬ Misread c)) ∧
      ((encode cs).length < 2 ^ 64 → (Counts cs ↔ ¬ ∃ c ∈ cs, Misread c)) :=
  ⟨decodes_iff, counts_iff⟩

/-- U+20AC, the euro sign, and its text. -/
theorem euro_decoded :
    Decodes (Char.ofNat 0x20ac) ∧ Counts [Char.ofNat 0x20ac, Char.ofNat 0x41] := by
  have hiff := utf8_decode_iff (Char.ofNat 0x20ac) [Char.ofNat 0x20ac, Char.ofNat 0x41]
  refine ⟨(hiff.1 (by decide)).2 (by decide), (hiff.2 (by decide)).2 ?_⟩
  rintro ⟨c, hc, hmis⟩
  rcases List.mem_cons.1 hc with rfl | hc
  · exact absurd hmis (by decide)
  · obtain rfl := List.mem_singleton.1 hc
    exact absurd hmis (by decide)

/-- U+0800 and U+10000, the first characters of three and of four bytes. -/
theorem firsts_not_decoded : ¬ Decodes (Char.ofNat 0x800) ∧ ¬ Decodes (Char.ofNat 0x10000) ∧
    ¬ Counts [Char.ofNat 0x800] ∧ ¬ Counts [Char.ofNat 0x10000] := by
  refine ⟨fun h => ?_, fun h => ?_, fun h => ?_, fun h => ?_⟩
  · have hvalue := (h _ 0 3 (holds_memoryOf _) (by decide) (by decide)).1
    exact absurd hvalue (by decide)
  · have hvalue := (h _ 0 4 (holds_memoryOf _) (by decide) (by decide)).1
    exact absurd hvalue (by decide)
  · exact absurd (h _ 0 (holds_memoryOf _)) (by decide)
  · exact absurd (h _ 0 (holds_memoryOf _)) (by decide)

end Texts

end Utf8
end Shs
