import Shs.Core.Bytes
import Shs.Lib.Rewrite

/-!
# Core.EscapeUri

`string_escape_uri` and `string_unescape_uri`. The loops of the first count with an `uint32_t` up to
a `size_t`, so they run past the end of the source when it has `2^32` bytes. The map of the type
`refresh` does not have the percent sign, which the other five escape.
-/

namespace Shs
namespace EscapeUri

def PERCENT : Byte := 37
def QUESTION : Byte := 63

/-- The six values of `type`. -/
inductive EscapeType where
  | uri
  | args
  | html
  | refresh
  | memcached
  | mailAuth
  deriving DecidableEq

/-- The tables of `string_escape_uri`, one bit for each byte. -/
def uri : List UInt32 :=
  [0xffffffff, 0x80000029, 0x00000000, 0x80000000, 0xffffffff, 0xffffffff, 0xffffffff, 0xffffffff]

def args : List UInt32 :=
  [0xffffffff, 0x80000829, 0x00000000, 0x80000000, 0xffffffff, 0xffffffff, 0xffffffff, 0xffffffff]

def html : List UInt32 :=
  [0xffffffff, 0x000000ad, 0x00000000, 0x80000000, 0xffffffff, 0xffffffff, 0xffffffff, 0xffffffff]

def refresh : List UInt32 :=
  [0xffffffff, 0x00000085, 0x00000000, 0x80000000, 0xffffffff, 0xffffffff, 0xffffffff, 0xffffffff]

def memcached : List UInt32 :=
  [0xffffffff, 0x00000021, 0x00000000, 0x00000000, 0x00000000, 0x00000000, 0x00000000, 0x00000000]

def map : EscapeType → List UInt32
  | .uri => uri
  | .args => args
  | .html => html
  | .refresh => refresh
  | .memcached | .mailAuth => memcached

/-- `escape[c >> 5] & (1 << (c & 0x1f))`. -/
def escaped (type : EscapeType) (c : Byte) : Bool :=
  (map type).getD (c >>> 5).toNat 0 &&& ((1 : UInt32) <<< (c &&& 0x1f).toUInt32) ≠ 0

/-- The table `hex`. -/
def hex (n : Byte) : Byte := (str "0123456789abcdef").getD n.toNat 0

/-- What one round of the second loop writes. -/
def escapeByte (type : EscapeType) (c : Byte) : Bytes :=
  if escaped type c then [PERCENT, hex (c >>> 4), hex (c &&& 0xf)] else [c]

/-- The loop that counts, where `i` is the 32-bit counter; there is no result where it reads behind
the source. -/
def countLoop (type : EscapeType) (size : Nat) : UInt32 → UInt32 → Bytes → Option UInt32
  | i, n, [] => if i.toNat < size then none else some n
  | i, n, c :: src =>
    if i.toNat < size then countLoop type size (i + 1) (if escaped type c then n + 1 else n) src
    else some n

/-- The loop that writes. -/
def escapeLoop (type : EscapeType) (size : Nat) : UInt32 → Bytes → Option Bytes
  | i, [] => if i.toNat < size then none else some []
  | i, c :: src =>
    if i.toNat < size then (escapeLoop type size (i + 1) src).map (escapeByte type c ++ ·)
    else some []

/-- `string_escape_uri` with a null destination. -/
def escapeCount (type : EscapeType) (src : Bytes) : Option UInt32 :=
  countLoop type src.length 0 0 src

/-- `string_escape_uri`; what it writes. -/
def stringEscapeUri (type : EscapeType) (src : Bytes) : Option Bytes :=
  escapeLoop type src.length 0 src

def SHS_UNESCAPE_URI : UInt32 := 1
def SHS_UNESCAPE_REDIRECT : UInt32 := 2

/-- The states of `string_unescape_uri`. The last holds `decoded`, and the digit it comes from, which
is at `s - 2` when the second digit is read. -/
inductive Mode where
  | usual
  | quoted
  | quotedSecond (decoded first : Byte)

/-- The value of a hexadecimal digit. -/
def digitValue (ch : Byte) : Option Byte :=
  if 48 ≤ ch ∧ ch ≤ 57 then some (ch - 48)
  else
    let c := ch ||| 0x20
    if 97 ≤ c ∧ c ≤ 102 then some (c - 97 + 10) else none

/-- The loop of `string_unescape_uri`: what it writes, and what is left of the source. -/
def unescapeLoop (type : UInt32) : Mode → Bytes → Bytes × Bytes
  | _, [] => ([], [])
  | .usual, ch :: s =>
    if ch = QUESTION ∧ type &&& (SHS_UNESCAPE_URI ||| SHS_UNESCAPE_REDIRECT) ≠ 0 then ([ch], s)
    else if ch = PERCENT then unescapeLoop type .quoted s
    else
      let (d, r) := unescapeLoop type .usual s
      (ch :: d, r)
  | .quoted, ch :: s =>
    match digitValue ch with
    | some decoded => unescapeLoop type (.quotedSecond decoded ch) s
    | none =>
      let (d, r) := unescapeLoop type .usual s
      (ch :: d, r)
  | .quotedSecond decoded first, ch :: s =>
    match digitValue ch with
    | none => unescapeLoop type .usual s
    | some low =>
      let letter := ¬(48 ≤ ch ∧ ch ≤ 57)
      let c := (decoded <<< 4) + low
      -- a decoded question mark ends the loop only if its second digit is a letter
      if letter ∧ type &&& (SHS_UNESCAPE_URI ||| SHS_UNESCAPE_REDIRECT) ≠ 0 ∧ c = QUESTION then
        ([c], s)
      else
        let plain := (letter ∧ type &&& SHS_UNESCAPE_URI ≠ 0) ∨ type &&& SHS_UNESCAPE_REDIRECT = 0 ∨
          (PERCENT < c ∧ c < 0x7f)
        let (d, r) := unescapeLoop type .usual s
        (if plain then c :: d else PERCENT :: first :: ch :: d, r)

/-- `string_unescape_uri`. -/
def stringUnescapeUri (type : UInt32) (src : Bytes) : Bytes × Bytes := unescapeLoop type .usual src

/-! ## The tables -/

theorem escaped_percent (type : EscapeType) : escaped type PERCENT = true ↔ type ≠ .refresh := by
  cases type <;> decide

theorem hex_eq : ∀ n : Byte, n < 16 → digitValue (hex n) = some n ∧ hex n ≠ PERCENT := by
  have hdigits : str "0123456789abcdef" =
      [48, 49, 50, 51, 52, 53, 54, 55, 56, 57, 97, 98, 99, 100, 101, 102] := by decide +kernel
  simp only [hex, hdigits]
  exact byte_forall (by decide +kernel)

theorem halves : ∀ c : Byte, c >>> 4 < 16 ∧ c &&& 0xf < 16 ∧ (c >>> 4) <<< 4 + (c &&& 0xf) = c :=
  byte_forall (by decide +kernel)

theorem hex_value (c : Byte) : digitValue (hex (c >>> 4)) = some (c >>> 4) ∧
    digitValue (hex (c &&& 0xf)) = some (c &&& 0xf) ∧ (c >>> 4) <<< 4 + (c &&& 0xf) = c := by
  obtain ⟨hhigh, hlow, hsum⟩ := halves c
  exact ⟨(hex_eq _ hhigh).1, (hex_eq _ hlow).1, hsum⟩

theorem hex_ne_percent (c : Byte) : hex (c >>> 4) ≠ PERCENT ∧ hex (c &&& 0xf) ≠ PERCENT :=
  ⟨(hex_eq _ (halves c).1).2, (hex_eq _ (halves c).2.1).2⟩

/-- No table has a hexadecimal digit. -/
theorem not_escaped_digit (type : EscapeType) {c d : Byte} (h : digitValue c = some d) :
    escaped type c = false := by
  have htable : ∀ c : Byte, (digitValue c).isSome = true →
      ∀ type ∈ [EscapeType.uri, .args, .html, .refresh, .memcached, .mailAuth],
        escaped type c = false :=
    byte_forall (by decide +kernel)
  refine htable c (by rw [h]; rfl) type ?_
  cases type <;> simp

theorem percent_not_digit : digitValue PERCENT = none := by decide

/-! ## The loops of `string_escape_uri` -/

section Escape

variable {type : EscapeType} {size : Nat} {i n : UInt32} {src : Bytes}

theorem toNat_succ (h : i.toNat + 1 < 2 ^ 32) : (i + 1).toNat = i.toNat + 1 := by
  rw [UInt32.toNat_add]
  exact Nat.mod_eq_of_lt h

theorem escapeLoop_eq (h : i.toNat + src.length = size) (hs : size < 2 ^ 32) :
    escapeLoop type size i src = some (src.flatMap (escapeByte type)) := by
  induction src generalizing i with
  | nil =>
    rw [escapeLoop, if_neg (by simpa using h.ge)]
    rfl
  | cons c src ih =>
    rw [List.length_cons] at h
    have hsucc := toNat_succ (i := i) (by omega)
    rw [escapeLoop, if_pos (by omega), ih (by omega)]
    rfl

theorem countLoop_eq (type : EscapeType) (h : i.toNat + src.length = size) (hs : size < 2 ^ 32)
    (hn : n.toNat ≤ i.toNat) :
    ∃ m, countLoop type size i n src = some m ∧
      m.toNat = n.toNat + src.countP (escaped type) := by
  induction src generalizing i n with
  | nil => exact ⟨n, by rw [countLoop, if_neg (by simpa using h.ge)], by simp⟩
  | cons c src ih =>
    rw [List.length_cons] at h
    have hsucc := toNat_succ (i := i) (by omega)
    have hsuccn := toNat_succ (i := n) (by omega)
    rw [countLoop, if_pos (by omega)]
    by_cases hc : escaped type c = true
    · rw [if_pos hc]
      obtain ⟨m, hm, heq⟩ := ih (i := i + 1) (n := n + 1) (by omega) (by omega)
      exact ⟨m, hm, by rw [List.countP_cons_of_pos hc]; omega⟩
    · rw [if_neg hc]
      obtain ⟨m, hm, heq⟩ := ih (i := i + 1) (n := n) (by omega) (by omega)
      exact ⟨m, hm, by rw [List.countP_cons_of_neg hc]; omega⟩

/-- A counter of 32 bits never reaches the end. -/
theorem escapeLoop_none (hs : 2 ^ 32 ≤ size) : escapeLoop type size i src = none := by
  have hlt := i.toNat_lt
  induction src generalizing i with
  | nil => rw [escapeLoop, if_pos (by omega)]
  | cons c src ih =>
    rw [escapeLoop, if_pos (by omega), ih (i + 1).toNat_lt]
    rfl

theorem length_escapeByte (c : Byte) :
    (escapeByte type c).length = 1 + 2 * if escaped type c = true then 1 else 0 := by
  unfold escapeByte
  split <;> rfl

theorem length_escape :
    (src.flatMap (escapeByte type)).length = src.length + 2 * src.countP (escaped type) := by
  induction src with
  | nil => rfl
  | cons c src ih =>
    rw [List.flatMap_cons, List.length_append, length_escapeByte, ih, List.length_cons,
      List.countP_cons]
    omega

end Escape

/-! ## The loop of `string_unescape_uri` for type 0 -/

/-- What is written for type 0. -/
def decoded (mode : Mode) (s : Bytes) : Bytes := (unescapeLoop 0 mode s).1

section Decoded

variable {c d : Byte} {s : Bytes} {decoded₀ first : Byte}

@[simp] theorem decoded_nil (mode : Mode) : decoded mode [] = [] := by
  cases mode <;> rfl

theorem decoded_cons (mode : Mode) : decoded mode (c :: s) =
    match mode with
    | .usual => if c = PERCENT then decoded .quoted s else c :: decoded .usual s
    | .quoted => (digitValue c).elim (c :: decoded .usual s) fun d => decoded (.quotedSecond d c) s
    | .quotedSecond decoded₀ _ => (digitValue c).elim (decoded .usual s) fun d =>
      (decoded₀ <<< 4 + d) :: decoded .usual s := by
  cases mode with
  | usual => by_cases hc : c = PERCENT <;> simp [decoded, unescapeLoop, hc]
  | quoted => cases hc : digitValue c <;> simp [decoded, unescapeLoop, hc]
  | quotedSecond decoded₀ first => cases hc : digitValue c <;> simp [decoded, unescapeLoop, hc]

theorem decoded_usual (hc : c ≠ PERCENT) :
    decoded .usual (c :: s) = c :: decoded .usual s := by
  rw [decoded_cons, if_neg hc]

theorem decoded_percent : decoded .usual (PERCENT :: s) = decoded .quoted s := by
  rw [decoded_cons, if_pos rfl]

theorem decoded_quoted (hc : digitValue c = some d) :
    decoded .quoted (c :: s) = decoded (.quotedSecond d c) s := by
  simp only [decoded_cons, hc, Option.elim_some]

theorem decoded_quoted_none (hc : digitValue c = none) :
    decoded .quoted (c :: s) = c :: decoded .usual s := by
  simp only [decoded_cons, hc, Option.elim_none]

theorem decoded_second (hc : digitValue c = some d) :
    decoded (.quotedSecond decoded₀ first) (c :: s) = (decoded₀ <<< 4 + d) :: decoded .usual s := by
  simp only [decoded_cons, hc, Option.elim_some]

theorem decoded_second_none (hc : digitValue c = none) :
    decoded (.quotedSecond decoded₀ first) (c :: s) = decoded .usual s := by
  simp only [decoded_cons, hc, Option.elim_none]

/-- An escaped byte, or one that is not a percent sign, is read back. -/
theorem decoded_escapeByte {type : EscapeType} (hc : c ≠ PERCENT ∨ escaped type c = true) :
    decoded .usual (escapeByte type c ++ s) = c :: decoded .usual s := by
  unfold escapeByte
  by_cases he : escaped type c = true
  · obtain ⟨hhigh, hlow, hsum⟩ := hex_value c
    rw [if_pos he, List.cons_append, List.cons_append, List.cons_append, List.nil_append,
      decoded_percent, decoded_quoted hhigh, decoded_second hlow, hsum]
  · rw [if_neg he]
    exact decoded_usual (hc.resolve_right he)

/-- The two digits of an escaped byte behind an abandoned escape. -/
theorem decoded_digits :
    decoded .usual (hex (c >>> 4) :: hex (c &&& 0xf) :: s)
      = hex (c >>> 4) :: hex (c &&& 0xf) :: decoded .usual s := by
  rw [decoded_usual (hex_ne_percent c).1, decoded_usual (hex_ne_percent c).2]

theorem decoded_escape {type : EscapeType} {src : Bytes}
    (h : type = .refresh → PERCENT ∉ src) :
    decoded .usual (src.flatMap (escapeByte type)) = src := by
  induction src with
  | nil => rfl
  | cons c src ih =>
    rw [List.flatMap_cons, decoded_escapeByte, ih]
    · exact fun ht hm => h ht (List.mem_cons_of_mem c hm)
    · by_cases ht : type = .refresh
      · refine .inl ?_
        rintro rfl
        exact h ht List.mem_cons_self
      · by_cases hc : c = PERCENT
        · rw [hc]
          exact .inr ((escaped_percent type).2 ht)
        · exact .inl hc

end Decoded

/-! ## The type `refresh` -/

open Rewrite

/-- What comes back of a text that is escaped for the type `refresh`. -/
def refreshed (s : Bytes) : Bytes := decoded .usual (s.flatMap (escapeByte .refresh))

section Refresh

variable {c x y d e : Byte} {s : Bytes}

theorem escapeByte_digit {type : EscapeType} (hx : digitValue x = some d) :
    escapeByte type x = [x] := by
  rw [escapeByte, if_neg (by simp [not_escaped_digit type hx])]

theorem refreshed_percent :
    refreshed (PERCENT :: s) = decoded .quoted (s.flatMap (escapeByte .refresh)) := by
  rw [refreshed, List.flatMap_cons]
  exact decoded_percent

theorem piece_byte (hc : c ≠ PERCENT) : Piece refreshed [c] [c] s :=
  ⟨by simp, decoded_escapeByte (.inl hc), by simp⟩

/-- A percent sign in front of an escaped byte: the sign of the escape is taken for the byte behind
it, and the two digits are copied. -/
theorem piece_escaped (hx : escaped .refresh x = true) :
    Piece refreshed [PERCENT, x] [PERCENT, hex (x >>> 4), hex (x &&& 0xf)] s := by
  refine ⟨by simp, ?_, ?_⟩
  · show refreshed (PERCENT :: x :: s) = _
    rw [refreshed_percent, List.flatMap_cons, escapeByte, if_pos hx]
    show decoded .quoted (PERCENT :: hex (x >>> 4) :: hex (x &&& 0xf) :: _) = _
    rw [decoded_quoted_none percent_not_digit, decoded_digits]
    rfl
  · simpa using ⟨Ne.symm (hex_ne_percent x).1, Ne.symm (hex_ne_percent x).2⟩

theorem piece_copied (hx : escaped .refresh x = false) (hd : digitValue x = none) :
    Piece refreshed [PERCENT, x] [x] s := by
  refine ⟨by simp, ?_, by simp⟩
  show refreshed (PERCENT :: x :: s) = _
  rw [refreshed_percent, List.flatMap_cons, escapeByte, if_neg (by simp [hx])]
  exact decoded_quoted_none hd

/-- A percent sign at the end, alone or with one digit, is dropped. -/
theorem piece_end : Piece refreshed [PERCENT] [] [] := ⟨by simp, by decide, by simp⟩

theorem piece_digit_end (hx : digitValue x = some d) : Piece refreshed [PERCENT, x] [] [] := by
  refine ⟨by simp, ?_, by simp⟩
  show refreshed [PERCENT, x] = _
  rw [refreshed_percent, List.flatMap_cons, escapeByte_digit hx]
  show decoded .quoted [x] = _
  rw [decoded_quoted hx]
  rfl

theorem refreshed_digit (hx : digitValue x = some d) : refreshed (PERCENT :: x :: y :: s)
    = decoded (.quotedSecond d x) (escapeByte .refresh y ++ s.flatMap (escapeByte .refresh)) := by
  rw [refreshed_percent, List.flatMap_cons, escapeByte_digit hx, List.flatMap_cons]
  exact decoded_quoted hx

/-- The sign of an escape in the place of the second digit is dropped with the first. -/
theorem piece_digit_escaped (hx : digitValue x = some d) (hy : escaped .refresh y = true) :
    Piece refreshed [PERCENT, x, y] [hex (y >>> 4), hex (y &&& 0xf)] s := by
  refine ⟨by simp, ?_, ?_⟩
  · show refreshed (PERCENT :: x :: y :: s) = _
    rw [refreshed_digit hx, escapeByte, if_pos hy]
    show decoded _ (PERCENT :: hex (y >>> 4) :: hex (y &&& 0xf) :: _) = _
    rw [decoded_second_none percent_not_digit, decoded_digits]
    rfl
  · simpa using Ne.symm (hex_ne_percent y).2

theorem piece_digits (hx : digitValue x = some d) (hy : digitValue y = some e) :
    Piece refreshed [PERCENT, x, y] [d <<< 4 + e] s := by
  refine ⟨by simp, ?_, by simp⟩
  show refreshed (PERCENT :: x :: y :: s) = _
  rw [refreshed_digit hx, escapeByte_digit hy]
  exact decoded_second hy

theorem piece_digit_dropped (hx : digitValue x = some d) (hy : escaped .refresh y = false)
    (he : digitValue y = none) : Piece refreshed [PERCENT, x, y] [] s := by
  refine ⟨by simp, ?_, by simp⟩
  show refreshed (PERCENT :: x :: y :: s) = _
  rw [refreshed_digit hx, escapeByte, if_neg (by simp [hy])]
  exact decoded_second_none he

/-- The piece at a percent sign does not come back. -/
theorem percent_piece (s : Bytes) : ∃ k o r, PERCENT :: s = k ++ r ∧ Piece refreshed k o r ∧
    ¬k <+: o := by
  rcases s with _ | ⟨x, s⟩
  · exact ⟨_, _, _, rfl, piece_end, by simp⟩
  cases hx : digitValue x with
  | none =>
    by_cases he : escaped .refresh x = true
    · refine ⟨_, _, s, rfl, piece_escaped he, fun hp => ?_⟩
      -- the digits are not escaped themselves
      have hxe : x = hex (x >>> 4) := by simpa using hp
      rw [hxe, (hex_value x).1] at hx
      cases hx
    · exact ⟨_, _, s, rfl, piece_copied (by simpa using he) hx, by simp⟩
  | some d =>
    rcases s with _ | ⟨y, s⟩
    · exact ⟨_, _, _, rfl, piece_digit_end hx, by simp⟩
    cases hy : digitValue y with
    | some e => exact ⟨_, _, s, rfl, piece_digits hx hy, by simp⟩
    | none =>
      by_cases he : escaped .refresh y = true
      · exact ⟨_, _, s, rfl, piece_digit_escaped hx he, fun hp => by
          have hle := hp.length_le
          simp at hle⟩
      · exact ⟨_, _, s, rfl, piece_digit_dropped hx (by simpa using he) hy, by simp⟩

theorem pieces_refreshed : Pieces refreshed := by
  refine ⟨rfl, fun r hr => ?_⟩
  obtain ⟨c, s, rfl⟩ := List.exists_cons_of_ne_nil hr
  by_cases hc : c = PERCENT
  · subst hc
    obtain ⟨k, o, r, heq, hpiece, -⟩ := percent_piece s
    exact ⟨k, o, r, heq, hpiece⟩
  · exact ⟨[c], [c], s, rfl, piece_byte hc⟩

theorem refreshed_ne (h : PERCENT ∈ s) : refreshed s ≠ s := by
  induction s with
  | nil => cases h
  | cons c s ih =>
    by_cases hc : c = PERCENT
    · subst hc
      obtain ⟨k, o, r, heq, hpiece, hk⟩ := percent_piece s
      rw [heq]
      exact not_fixed pieces_refreshed hpiece hk
    · intro heq
      rw [← List.singleton_append, (piece_byte hc).out] at heq
      exact ih ((List.mem_cons.1 h).resolve_left (Ne.symm hc)) (List.append_cancel_left heq)

end Refresh

/-! ## The round trip -/

/-- The text comes back, and the length is the one that the call without a destination foretells. -/
def RoundTrip (type : EscapeType) (s : Bytes) : Prop :=
  ∃ e n, stringEscapeUri type s = some e ∧ (stringUnescapeUri 0 e).1 = s ∧
    escapeCount type s = some n ∧ e.length = s.length + 2 * n.toNat

/-- Which texts come back. -/
theorem roundTrip_iff (type : EscapeType) (s : Bytes) :
    RoundTrip type s ↔ s.length < 2 ^ 32 ∧ (type = .refresh → PERCENT ∉ s) := by
  constructor
  · rintro ⟨e, n, he, hback, -, -⟩
    have hlen : s.length < 2 ^ 32 := by
      by_contra hlong
      rw [stringEscapeUri, escapeLoop_none (Nat.not_lt.1 hlong)] at he
      cases he
    refine ⟨hlen, ?_⟩
    rintro rfl hmem
    rw [stringEscapeUri, escapeLoop_eq (Nat.zero_add _) hlen] at he
    cases he
    exact refreshed_ne hmem hback
  · rintro ⟨hlen, hno⟩
    obtain ⟨n, hn, hcount⟩ := countLoop_eq type (i := 0) (n := 0) (Nat.zero_add s.length) hlen
      (Nat.le_refl _)
    refine ⟨_, n, escapeLoop_eq (Nat.zero_add _) hlen, decoded_escape hno, hn, ?_⟩
    rw [length_escape, hcount]
    simp

/-- A percent sign in a text for `refresh` is taken for the start of an escape. -/
theorem refresh_percent_lost : ¬RoundTrip .refresh (str "100%25") := by
  rintro ⟨e, n, he, hback, -⟩
  have hwritten : stringEscapeUri .refresh (str "100%25") = some (str "100%25") := by decide
  rw [hwritten] at he
  cases he
  exact absurd hback (by decide)

end EscapeUri
end Shs
