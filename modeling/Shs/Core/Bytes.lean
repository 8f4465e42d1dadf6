import Mathlib.Algebra.Order.Ring.Int
import Mathlib.Data.List.Basic
import Mathlib.Data.List.TakeWhile

/-!
# Core.Bytes

Bytes and the C library string functions the program calls. A `string_t` is the list of its
`len` bytes; `cstr` is how a C function reads it, up to the first NUL.
-/

namespace Shs

abbrev Byte := UInt8

abbrev Bytes := List UInt8

/-- A fact about all bytes, from the table of its 256 cases. -/
theorem byte_forall {P : Byte → Prop} (h : ∀ n < 256, P (UInt8.ofNat n)) (b : Byte) : P b := by
  have hb := h b.toNat b.toNat_lt
  rwa [UInt8.ofNat_toNat] at hb

/-- The entry of a byte in a table of 256 entries. -/
theorem mem_table {α : Type} {t : List α} (ht : t.length = 256) (d : α) (c : Byte) :
    (t.getD c.toNat d, c.toNat) ∈ t.zipIdx := by
  have hc : c.toNat < t.length := ht ▸ c.toNat_lt
  rw [List.mk_mem_zipIdx_iff_getElem?, List.getD_eq_getElem?_getD, List.getElem?_eq_getElem hc,
    Option.getD_some]

/-- The bytes of an ASCII literal. -/
def str (s : String) : Bytes := s.toList.map fun c => UInt8.ofNat c.toNat

theorem str_eq_nil_iff (s : String) : str s = [] ↔ s = "" := by
  rw [str, List.map_eq_nil_iff, String.toList_eq_nil_iff]

def NUL : Byte := 0
def TAB : Byte := 9
def LF : Byte := 10
def CR : Byte := 13
def SP : Byte := 32

/-- `'\r'` or `'\n'`. -/
def isEol (b : Byte) : Bool := b == CR || b == LF

def cstr (s : Bytes) : Bytes := s.takeWhile (· != NUL)

theorem nul_not_mem_cstr (s : Bytes) : NUL ∉ cstr s := by
  intro h
  simpa using List.mem_takeWhile_imp h

theorem cstr_eq_self_iff (s : Bytes) : cstr s = s ↔ NUL ∉ s := by
  rw [cstr, List.takeWhile_eq_self_iff]
  constructor
  · intro h hn
    simpa using h NUL hn
  · rintro h x hx
    have hne : x ≠ NUL := by
      rintro rfl
      exact h hx
    simpa using hne

def tolower (b : Byte) : Byte := if 65 ≤ b ∧ b ≤ 90 then b + 32 else b

def isspace (b : Byte) : Bool := b == SP || (9 ≤ b && b ≤ 13)

def isdigit (b : Byte) : Bool := 48 ≤ b && b ≤ 57

/-- `strncmp(a, b, n) == 0` on the C strings `a` and `b`. -/
def strncmpEq : Nat → Bytes → Bytes → Bool
  | 0, _, _ => true
  | n + 1, a, b =>
    let x := a.headD NUL
    let y := b.headD NUL
    if x ≠ y then false else if x = NUL then true else strncmpEq n a.tail b.tail

/-- `strncasecmp(a, b, n) == 0` on the C strings `a` and `b`. -/
def strncasecmpEq : Nat → Bytes → Bytes → Bool
  | 0, _, _ => true
  | n + 1, a, b =>
    let x := a.headD NUL
    let y := b.headD NUL
    if tolower x ≠ tolower y then false
    else if x = NUL then true
    else strncasecmpEq n a.tail b.tail

/-- `strsep(&s, del)`: the token before the first delimiter and the rest of the string, `none`
when the delimiter is absent and `s` becomes NULL. -/
def strsep (del : Byte) : Bytes → Bytes × Option Bytes
  | [] => ([], none)
  | x :: xs =>
    if x = del then ([], some xs)
    else
      let p := strsep del xs
      (x :: p.1, p.2)

/-- The value of a run of decimal digits. -/
def digitsValue (ds : Bytes) : Nat := ds.foldl (fun a d => 10 * a + (d.toNat - 48)) 0

/-- The sign, the digits and the rest of a number text, behind its leading white space. -/
def scanNumber (s : Bytes) : Bool × Bytes × Bytes :=
  let t := s.dropWhile isspace
  let neg := t.head? == some 45
  let u := if neg || t.head? == some 43 then t.tail else t
  (neg, u.takeWhile isdigit, u.dropWhile isdigit)

/-- `strtoll(s, &endp, 10)` on the C string `s`: the value, saturated to 64 bits, and the text
at `endp`, which is `s` itself when there are no digits. -/
def strtoll (s : Bytes) : Int × Bytes :=
  let (neg, ds, rest) := scanNumber s
  if ds = [] then (0, s)
  else
    let v : Int := if neg then -(digitsValue ds : Int) else digitsValue ds
    (max (-(2 ^ 63)) (min v (2 ^ 63 - 1)), rest)

/-- Conversion of an integer to a 32-bit `int`. -/
def toInt32 (v : Int) : Int := Int.bmod v (2 ^ 32)

theorem toInt32_of_range {v : Int} (hlo : -2 ^ 31 ≤ v) (hhi : v < 2 ^ 31) : toInt32 v = v := by
  unfold toInt32
  apply Int.bmod_eq_of_le <;> omega

/-- `atoi`, which is `strtol` cut to an `int`. -/
def atoi (s : Bytes) : Int := toInt32 (strtoll s).1

/-- `%d` and `std::to_string`. -/
def decimal (v : Int) : Bytes :=
  let ds := (Nat.toDigits 10 v.natAbs).map fun c => UInt8.ofNat c.toNat
  if v < 0 then 45 :: ds else ds

example : strtoll (str " 42x") = (42, str "x") := by decide

end Shs
