import Shs.Core.Decimal
import Shs.Core.Math
import Shs.Lib.Memory

/-!
# Log.Stream

The log stream: the number texts of `format.cc`, `LogBuffer` and the insertions of `LogStream`.

Places in a buffer are counted from `data_`. A write that would leave the buffer has no result, and
so has a digit that is looked up outside of its table.
-/

namespace Shs
namespace Log

/-! ## Integers -/

/-- The types that `IntToBuffer` is instantiated for. -/
inductive IntType where
  | char
  | short
  | unsignedShort
  | int
  | unsignedInt
  | long
  | unsignedLong
  | longLong
  | unsignedLongLong
  deriving DecidableEq, Repr

def IntType.bits : IntType → Nat
  | .char => 8
  | .short | .unsignedShort => 16
  | .int | .unsignedInt => 32
  | .long | .unsignedLong | .longLong | .unsignedLongLong => 64

def IntType.signed : IntType → Bool
  | .char | .short | .int | .long | .longLong => true
  | .unsignedShort | .unsignedInt | .unsignedLong | .unsignedLongLong => false

def IntType.min (t : IntType) : Int := if t.signed then -2 ^ (t.bits - 1) else 0

def IntType.max (t : IntType) : Int := if t.signed then 2 ^ (t.bits - 1) - 1 else 2 ^ t.bits - 1

/-- A value of the type. -/
structure Value (t : IntType) where
  val   : Int
  lower : t.min ≤ val
  upper : val ≤ t.max

/-- `uintptr_t`. -/
abbrev uintptrT : IntType := .unsignedLong

theorem IntType.min_nonpos (t : IntType) : t.min ≤ 0 := by
  cases t <;> decide

theorem IntType.max_nonneg (t : IntType) : 0 ≤ t.max := by
  cases t <;> decide

/-- Division drops what is behind the point, so the quotient has the type again. -/
def Value.div {t : IntType} (i : Value t) (base : Nat) : Value t where
  val := i.val.tdiv base
  lower := by
    have hlower := i.lower
    have hmin := t.min_nonpos
    have habs := Int.natAbs_tdiv_le_natAbs i.val base
    rcases Int.le_total 0 i.val with h | h
    · have hq := Int.tdiv_nonneg h (Int.natCast_nonneg base)
      omega
    · omega
  upper := by
    have hupper := i.upper
    have hmax := t.max_nonneg
    have habs := Int.natAbs_tdiv_le_natAbs i.val base
    rcases Int.le_total 0 i.val with h | h
    · omega
    · have hq : i.val.tdiv base ≤ 0 := by
        have hneg := Int.tdiv_nonneg (Int.neg_nonneg_of_nonpos h) (Int.natCast_nonneg base)
        rw [Int.neg_tdiv] at hneg
        omega
      omega

/-! ## Numbers as texts -/

/-- `const char digits[]`. -/
def mirroredDigits : Bytes := str "9876543210123456789"

/-- `zero[lsd]`, where `zero` points to the middle of the table. -/
def zero (lsd : Int) : Option Byte := if 0 ≤ lsd + 9 then mirroredDigits[(lsd + 9).toNat]? else none

/-- `digitsHex[lsd]`. -/
def digitsHex (lsd : Int) : Option Byte :=
  if 0 ≤ lsd then (str "0123456789ABCDEF")[lsd.toNat]? else none

/-- The loop over the digits, the last one first, for at most `n` turns; `out` is what stands from
`buffer` up to `p`. -/
def digitLoop {t : IntType} (base : Nat) (digit : Int → Option Byte) :
    Nat → Value t → Bytes → Option Bytes
  | 0, _, _ => none
  | n + 1, i, out =>
    let lsd := i.val.tmod base
    let i := i.div base
    match digit lsd with
    | none => none
    | some c => if i.val ≠ 0 then digitLoop base digit n i (out ++ [c]) else some (out ++ [c])

/-- `IntToBuffer`: the text in front of the terminator. A number has no more digits than its
absolute value says, or one. -/
def intToBuffer {t : IntType} (value : Value t) : Option Bytes :=
  (digitLoop 10 zero (value.val.natAbs + 1) value []).map fun out =>
    (if value.val < 0 then out ++ [45] else out).reverse

/-- `HexToBuffer`. -/
def hexToBuffer (value : Value uintptrT) : Option Bytes :=
  (digitLoop 16 digitsHex (value.val.natAbs + 1) value []).map fun out => out.reverse

/-! ## The buffer -/

def kSmallBuffer : Nat := 4096
def kMaxNumericSize : Nat := 32

/-- `LogBuffer`, with `current_` as its distance from `data_`. -/
structure LogBuffer where
  data    : Nat → Byte := fun _ => 0
  current : Nat := 0

namespace LogBuffer

-- the `SIZE` of the template
variable (size : Nat) (b : LogBuffer)

/-- The difference of two pointers, as `size_t`. -/
def avail : Nat := subSizeT size b.current

def add (l : Nat) : LogBuffer := { b with current := b.current + l }

/-- Bytes are written from `current()` on. -/
def put (bs : Bytes) : Option LogBuffer :=
  if b.current + bs.length ≤ size then some { b with data := Memory.write b.data b.current bs }
  else none

def append (d : Bytes) : Option LogBuffer :=
  if b.avail size > d.length then (b.put size d).map fun b => b.add d.length
  else if b.avail size > 0 then
    (b.put size (d.take (b.avail size))).map fun b => b.add (b.avail size)
  else some b

/-- What has been written up to `current()`. -/
def text : Bytes := Memory.read b.data 0 b.current

end LogBuffer

/-! ## The stream -/

/-- An insertion with `<<`. The text of a `double` is what `snprintf` makes of it, and a
`const char *` is the memory from there on. -/
inductive Insertion where
  | bool (v : Bool)
  | char (v : Byte)
  | short (v : Value .short)
  | unsignedShort (v : Value .unsignedShort)
  | int (v : Value .int)
  | unsignedInt (v : Value .unsignedInt)
  | long (v : Value .long)
  | unsignedLong (v : Value .unsignedLong)
  | longLong (v : Value .longLong)
  | unsignedLongLong (v : Value .unsignedLongLong)
  | double (text : Bytes)
  | pointer (v : Value uintptrT)
  | cstring (v : Option Bytes)
  | string (s : Bytes)

/-- `static_cast<int>`. -/
def Value.toInt (v : Value .short) : Value .int :=
  ⟨v.val, Int.le_trans (by decide) v.lower, Int.le_trans v.upper (by decide)⟩

/-- `static_cast<unsigned int>`. -/
def Value.toUnsignedInt (v : Value .unsignedShort) : Value .unsignedInt :=
  ⟨v.val, Int.le_trans (by decide) v.lower, Int.le_trans v.upper (by decide)⟩

section Code

variable (size : Nat) (b : LogBuffer)

def formatInteger {t : IntType} (v : Value t) : Option LogBuffer :=
  if b.avail size ≥ kMaxNumericSize then
    match intToBuffer v with
    | none => none
    | some text => (b.put size (text ++ [NUL])).map fun b => b.add text.length
  else some b

def insertPointer (v : Value uintptrT) : Option LogBuffer :=
  if b.avail size ≥ kMaxNumericSize then
    match hexToBuffer v with
    | none => none
    | some text => (b.put size (str "0x" ++ text ++ [NUL])).map fun b => b.add (text.length + 2)
  else some b

/-- `char buf[32]` cuts the text of the number. -/
def insertDouble (text : Bytes) : Option LogBuffer :=
  if b.avail size ≥ kMaxNumericSize then b.append size (cstr (text.take 31)) else some b

def insert : Insertion → Option LogBuffer
  | .bool v => b.append size (if v then str "1" else str "0")
  | .char v => b.append size [v]
  | .short v => formatInteger size b v.toInt
  | .unsignedShort v => formatInteger size b v.toUnsignedInt
  | .int v => formatInteger size b v
  | .unsignedInt v => formatInteger size b v
  | .long v => formatInteger size b v
  | .unsignedLong v => formatInteger size b v
  | .longLong v => formatInteger size b v
  | .unsignedLongLong v => formatInteger size b v
  | .double text => insertDouble size b text
  | .pointer v => insertPointer size b v
  | .cstring (some v) => b.append size (cstr v)
  | .cstring none => b.append size (str "null")
  | .string s => b.append size s

end Code

/-! ## Digits -/

/-- The remainder lies between zero and the number. -/
theorem Value.min_le_tmod {t : IntType} (i : Value t) (base : Nat) : t.min ≤ i.val.tmod base := by
  have hmin := t.min_nonpos
  rcases Int.le_total 0 i.val with h | h
  · exact Int.le_trans hmin (Int.tmod_nonneg (base : Int) h)
  · have habs : (i.val.tmod base).natAbs = i.val.natAbs % base := by
      rw [Int.natAbs_tmod, Int.natAbs_natCast]
    have hle := Nat.mod_le i.val.natAbs base
    have hlower := i.lower
    omega

/-- The loop writes the digits of the absolute value in reverse, for any table that has them. -/
theorem digitLoop_eq {t : IntType} {base : Nat} {digit : Int → Option Byte} {enc : Char → Byte}
    (hbase : 1 < base)
    (hdigit : ∀ lsd : Int, t.min ≤ lsd → lsd.natAbs < base →
      digit lsd = some (enc lsd.natAbs.digitChar))
    {n : Nat} {i : Value t} (hn : i.val.natAbs < n) (out : Bytes) :
    digitLoop base digit n i out =
      some (out ++ ((Nat.toDigits base i.val.natAbs).map enc).reverse) := by
  induction n generalizing i out with
  | zero => omega
  | succ n ih =>
    have hmod : (i.val.tmod base).natAbs = i.val.natAbs % base := by
      rw [Int.natAbs_tmod, Int.natAbs_natCast]
    have hdiv : (i.div base).val.natAbs = i.val.natAbs / base := Int.natAbs_tdiv _ _
    have hlsd : (i.val.tmod base).natAbs < base := by
      rw [hmod]
      exact Nat.mod_lt _ (by omega)
    rw [digitLoop]
    simp only [hdigit _ (i.min_le_tmod base) hlsd, hmod]
    by_cases hlt : i.val.natAbs < base
    · -- the last digit
      have hzero : (i.div base).val = 0 := by
        rw [← Int.natAbs_eq_zero, hdiv]
        exact Nat.div_eq_of_lt hlt
      rw [if_neg (by simp [hzero]), Nat.toDigits_of_lt_base hlt, Nat.mod_eq_of_lt hlt]
      rfl
    · have hpos : 0 < i.val.natAbs / base := Nat.div_pos (by omega) (by omega)
      have hsmall : i.val.natAbs / base < i.val.natAbs := Nat.div_lt_self (by omega) hbase
      have hnext : (i.div base).val.natAbs < n := by omega
      have hne : (i.div base).val ≠ 0 := by omega
      have hsplit := Nat.toDigits_of_base_le hbase (Nat.le_of_not_lt hlt)
      rw [if_pos hne, ih hnext, hdiv, hsplit]
      simp

/-- The byte of a decimal digit. -/
def digitByte (c : Char) : Byte := UInt8.ofNat c.toNat

/-- Both halves of the table have the digit of the absolute value. -/
theorem zero_eq {lsd : Int} (h : lsd.natAbs < 10) :
    zero lsd = some (digitByte lsd.natAbs.digitChar) := by
  have htable : ∀ lsd ∈ List.map (fun n : Nat => (n : Int) - 9) (List.range 19),
      zero lsd = some (digitByte lsd.natAbs.digitChar) := by decide
  exact htable lsd (List.mem_map.2 ⟨(lsd + 9).toNat, List.mem_range.2 (by omega), by omega⟩)

/-- The byte of a hexadecimal digit. -/
def upperByte (c : Char) : Byte := UInt8.ofNat c.toUpper.toNat

theorem digitsHex_eq {lsd : Int} (hlo : 0 ≤ lsd) (h : lsd.natAbs < 16) :
    digitsHex lsd = some (upperByte lsd.natAbs.digitChar) := by
  have htable : ∀ n < 16, digitsHex (n : Nat) = some (upperByte n.digitChar) := by decide
  obtain ⟨n, rfl⟩ := Int.eq_ofNat_of_zero_le hlo
  exact htable n h

/-- `IntToBuffer` writes the decimal text, for every value of every type. -/
theorem intToBuffer_eq {t : IntType} (v : Value t) : intToBuffer v = some (decimal v.val) := by
  rw [intToBuffer, digitLoop_eq (by decide) (fun lsd _ h => zero_eq h) (Nat.lt_succ_self _),
    Option.map_some, List.nil_append]
  congr 1
  rcases decimal_cases v.val with ⟨hv, hd⟩ | ⟨hv, hd⟩
  · rw [if_neg (Int.not_lt.2 hv), hd, List.reverse_reverse]
    rfl
  · rw [if_pos hv, hd, List.reverse_append, List.reverse_reverse]
    rfl

def hexText (n : Nat) : Bytes := (Nat.toDigits 16 n).map upperByte

theorem hexToBuffer_eq (v : Value uintptrT) : hexToBuffer v = some (hexText v.val.natAbs) := by
  have hdigit : ∀ lsd : Int, uintptrT.min ≤ lsd → lsd.natAbs < 16 →
      digitsHex lsd = some (upperByte lsd.natAbs.digitChar) := fun _ hlo h => digitsHex_eq hlo h
  rw [hexToBuffer, digitLoop_eq (by decide) hdigit (Nat.lt_succ_self _), Option.map_some,
    List.nil_append, List.reverse_reverse]
  rfl

/-- The widest numbers have 20 digits, or 19 and a sign. -/
theorem decimal_length_le {t : IntType} (v : Value t) : (decimal v.val).length ≤ 20 := by
  have hbounds : -2 ^ 63 ≤ t.min ∧ t.max < 2 ^ 64 := by
    cases t <;> decide
  have hlower := v.lower
  have hupper := v.upper
  rcases decimal_cases v.val with ⟨hv, hd⟩ | ⟨hv, hd⟩
  · rw [hd]
    exact digits_length_le (by decide) (by omega)
  · have hlen : (digits v.val.natAbs).length ≤ 19 := digits_length_le (by decide) (by omega)
    rw [hd, List.length_cons]
    omega

theorem hexText_length_le (v : Value uintptrT) : (hexText v.val.natAbs).length ≤ 16 := by
  have hupper : v.val ≤ 2 ^ 64 - 1 := v.upper
  have hlower : 0 ≤ v.val := v.lower
  rw [hexText, List.length_map]
  exact (Nat.length_toDigits_le_iff (by decide) (by decide)).2 (by omega)

/-! ## Insertions -/

/-- What an insertion is to write. -/
def Insertion.text : Insertion → Bytes
  | .bool v => if v then str "1" else str "0"
  | .char v => [v]
  | .short v => decimal v.val
  | .unsignedShort v => decimal v.val
  | .int v => decimal v.val
  | .unsignedInt v => decimal v.val
  | .long v => decimal v.val
  | .unsignedLong v => decimal v.val
  | .longLong v => decimal v.val
  | .unsignedLongLong v => decimal v.val
  | .double text => cstr (text.take 31)
  | .pointer v => str "0x" ++ hexText v.val.natAbs
  | .cstring (some v) => cstr v
  | .cstring none => str "null"
  | .string s => s

/-- The bytes `w` have been put behind the text, in the buffer. -/
structure Adds (size : Nat) (b : LogBuffer) (w : Bytes) (b' : LogBuffer) : Prop where
  inside : b'.current ≤ size
  text   : b'.text = b.text ++ w

section Insertions

variable {size : Nat} {b : LogBuffer}

theorem avail_eq (hsize : size < 2 ^ 64) (hb : b.current ≤ size) :
    b.avail size = size - b.current := subSizeT_of_le hsize hb

theorem Adds.none (hb : b.current ≤ size) : Adds size b [] b :=
  ⟨hb, (List.append_nil _).symm⟩

/-- Bytes written with room for them; any number of them can be left in the text. -/
theorem put_adds (bs : Bytes) (hroom : b.current + bs.length ≤ size) :
    ∃ b₁, b.put size bs = some b₁ ∧ b₁.current = b.current ∧
      ∀ l ≤ bs.length, Adds size b (bs.take l) (b₁.add l) := by
  refine ⟨_, if_pos hroom, rfl, fun l hl => ⟨?_, ?_⟩⟩
  · show b.current + l ≤ size
    omega
  · show Memory.read (Memory.write b.data b.current bs) 0 (b.current + l) = _
    have hbefore : Memory.read (Memory.write b.data b.current bs) 0 b.current = b.text :=
      Memory.read_write_apart (r := ⟨0, b.current⟩) (.inl (Nat.le_of_eq (Nat.zero_add _)))
    rw [Memory.read_add, Nat.zero_add, hbefore, Memory.read_write_take _ _ hl]

/-- `Append` writes the whole text or fills the buffer. -/
theorem append_adds (hsize : size < 2 ^ 64) (hb : b.current ≤ size) (d : Bytes) :
    ∃ b', b.append size d = some b' ∧ ∃ w, w <+: d ∧ Adds size b w b' := by
  have havail := avail_eq hsize hb
  rw [LogBuffer.append, havail]
  by_cases hroom : size - b.current > d.length
  · rw [if_pos hroom]
    obtain ⟨b₁, hput, -, hadds⟩ := put_adds (b := b) d (show b.current + d.length ≤ size by omega)
    have hall := hadds d.length (Nat.le_refl _)
    rw [List.take_length] at hall
    rw [hput]
    exact ⟨_, rfl, d, List.prefix_rfl, hall⟩
  rw [if_neg hroom]
  by_cases hany : size - b.current > 0
  · rw [if_pos hany]
    have hlen : (d.take (size - b.current)).length = size - b.current :=
      List.length_take_of_le (by omega)
    obtain ⟨b₁, hput, hcurrent, hadds⟩ := put_adds (b := b) (d.take (size - b.current))
      (show b.current + (d.take (size - b.current)).length ≤ size by omega)
    have hall := hadds (size - b.current) (by omega)
    have havail₁ : b₁.avail size = size - b.current := by
      rw [LogBuffer.avail, hcurrent]
      exact havail
    rw [List.take_take, Nat.min_self, ← havail₁] at hall
    rw [hput]
    exact ⟨_, rfl, _, havail₁ ▸ List.take_prefix _ d, hall⟩
  · rw [if_neg hany]
    exact ⟨b, rfl, [], List.nil_prefix, .none hb⟩

/-- A text of a number, with its terminator, is written behind the test for the reserve. -/
theorem number_adds (hsize : size < 2 ^ 64) (hb : b.current ≤ size) (text : Bytes)
    (hlen : text.length + 1 ≤ kMaxNumericSize) :
    ∃ b', (if b.avail size ≥ kMaxNumericSize then
        (b.put size (text ++ [NUL])).map fun b => b.add text.length else some b) = some b' ∧
      ∃ w, w <+: text ∧ Adds size b w b' := by
  rw [avail_eq hsize hb]
  by_cases hroom : size - b.current ≥ kMaxNumericSize
  · rw [if_pos hroom]
    have hbytes : (text ++ [NUL]).length = text.length + 1 := by simp
    obtain ⟨b₁, hput, -, hadds⟩ := put_adds (b := b) (text ++ [NUL])
      (show b.current + (text ++ [NUL]).length ≤ size by omega)
    have hall := hadds text.length (by omega)
    rw [List.take_left] at hall
    rw [hput]
    exact ⟨_, rfl, text, List.prefix_rfl, hall⟩
  · rw [if_neg hroom]
    exact ⟨b, rfl, [], List.nil_prefix, .none hb⟩

theorem formatInteger_adds (hsize : size < 2 ^ 64) (hb : b.current ≤ size) {t : IntType}
    (v : Value t) :
    ∃ b', formatInteger size b v = some b' ∧ ∃ w, w <+: decimal v.val ∧ Adds size b w b' := by
  have hlen := decimal_length_le v
  rw [formatInteger, intToBuffer_eq]
  exact number_adds hsize hb _ (by unfold kMaxNumericSize; omega)

theorem insertPointer_adds (hsize : size < 2 ^ 64) (hb : b.current ≤ size) (v : Value uintptrT) :
    ∃ b', insertPointer size b v = some b' ∧
      ∃ w, w <+: str "0x" ++ hexText v.val.natAbs ∧ Adds size b w b' := by
  have hlen := hexText_length_le v
  have hlength : (str "0x" ++ hexText v.val.natAbs).length = (hexText v.val.natAbs).length + 2 := by
    rw [List.length_append, Nat.add_comm]
    rfl
  have hadds := number_adds hsize hb (str "0x" ++ hexText v.val.natAbs)
    (by unfold kMaxNumericSize; omega)
  rw [hlength] at hadds
  rw [insertPointer, hexToBuffer_eq]
  exact hadds

theorem insertDouble_adds (hsize : size < 2 ^ 64) (hb : b.current ≤ size) (text : Bytes) :
    ∃ b', insertDouble size b text = some b' ∧
      ∃ w, w <+: cstr (text.take 31) ∧ Adds size b w b' := by
  rw [insertDouble]
  by_cases hroom : b.avail size ≥ kMaxNumericSize
  · rw [if_pos hroom]
    exact append_adds hsize hb _
  · rw [if_neg hroom]
    exact ⟨b, rfl, [], List.nil_prefix, .none hb⟩

/-- Every insertion adds a part of its text, from its beginning on. -/
theorem insert_adds (hsize : size < 2 ^ 64) (hb : b.current ≤ size) (op : Insertion) :
    ∃ b', insert size b op = some b' ∧ ∃ w, w <+: op.text ∧ Adds size b w b' := by
  cases op with
  | bool v => exact append_adds hsize hb _
  | char v => exact append_adds hsize hb _
  | short v => exact formatInteger_adds hsize hb v.toInt
  | unsignedShort v => exact formatInteger_adds hsize hb v.toUnsignedInt
  | int v => exact formatInteger_adds hsize hb v
  | unsignedInt v => exact formatInteger_adds hsize hb v
  | long v => exact formatInteger_adds hsize hb v
  | unsignedLong v => exact formatInteger_adds hsize hb v
  | longLong v => exact formatInteger_adds hsize hb v
  | unsignedLongLong v => exact formatInteger_adds hsize hb v
  | double text => exact insertDouble_adds hsize hb text
  | pointer v => exact insertPointer_adds hsize hb v
  | cstring v =>
    cases v with
    | none => exact append_adds hsize hb _
    | some v => exact append_adds hsize hb _
  | string s => exact append_adds hsize hb s

end Insertions

/-! ## Runs -/

/-- Insertions one after the other. -/
def insertAll (size : Nat) (b : LogBuffer) (ops : List Insertion) : Option LogBuffer :=
  ops.foldlM (insert size) b

/-- Any insertions stay in the buffer, which then has a part of each text. -/
theorem insertAll_adds {size : Nat} (hsize : size < 2 ^ 64) (ops : List Insertion)
    {b : LogBuffer} (hb : b.current ≤ size) :
    ∃ b' ws, insertAll size b ops = some b' ∧ b'.current ≤ size ∧
      List.Forall₂ (fun w op => w <+: Insertion.text op) ws ops ∧
      b'.text = b.text ++ ws.flatten := by
  induction ops generalizing b with
  | nil => exact ⟨b, [], rfl, hb, .nil, (List.append_nil _).symm⟩
  | cons op ops ih =>
    obtain ⟨b₁, hop, w, hw, hadds⟩ := insert_adds hsize hb op
    obtain ⟨b', ws, hrest, hle, hall, htext⟩ := ih hadds.inside
    refine ⟨b', w :: ws, ?_, hle, .cons hw hall, ?_⟩
    · rw [insertAll, List.foldlM_cons, hop]
      exact hrest
    · rw [htext, hadds.text, List.flatten_cons, List.append_assoc]

/-- `IntToBuffer` writes the decimal text of every value, in 22 bytes with the terminator; and
whatever is inserted into a stream, nothing is written behind its buffer, which has a part of each
text. -/
theorem log_stream_safe :
    (∀ (t : IntType) (v : Value t),
      intToBuffer v = some (decimal v.val) ∧ (decimal v.val).length + 1 ≤ 22) ∧
    ∀ ops : List Insertion, ∃ b ws, insertAll kSmallBuffer {} ops = some b ∧
      b.current ≤ kSmallBuffer ∧
      List.Forall₂ (fun w op => w <+: Insertion.text op) ws ops ∧ b.text = ws.flatten := by
  refine ⟨fun t v => ⟨intToBuffer_eq v, ?_⟩, fun ops => ?_⟩
  · have hlen := decimal_length_le v
    omega
  · exact insertAll_adds (by decide) ops (Nat.zero_le _)

example : (insertAll kSmallBuffer {} [.long ⟨-2 ^ 63, by decide, by decide⟩,
    .pointer ⟨48879, by decide, by decide⟩]).map LogBuffer.text =
      some (str "-92233720368547758080xBEEF") := by
  decide +kernel

end Log
end Shs
