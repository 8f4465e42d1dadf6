import Shs.Core.Bytes
import Shs.Core.Math
import Shs.Lib.Run

/-!
# Core.Format

`string_xxvsnprintf`, the interpreter of format strings. The format is the list of its bytes in front
of the NUL, and the place behind the NUL is one that must not be read.

A turn of the loop copies one byte or works off one directive. `Keeps` says which turns are right:
a directive that the end of the format cuts off is stepped over together with the NUL, and a length
given by `*` can be so large that the test against the end of the buffer wraps around.
-/

namespace Shs
namespace Format

/-- The byte of an ASCII character. -/
def ch (c : Char) : Byte := UInt8.ofNat c.toNat

/-- The types that are read by `va_arg`. -/
inductive CType where
  | int
  | uint32
  | int64
  | uint64
  | voidPtr
  | ucharPtr
  | stringPtr
  deriving DecidableEq, Repr

abbrev offT : CType := .int64
abbrev pidT : CType := .int
abbrev timeT : CType := .int64
abbrev rbMsecT : CType := .int64
abbrev ssizeT : CType := .int64
abbrev sizeT : CType := .uint64
abbrev long : CType := .int64
abbrev uLong : CType := .uint64
abbrev int32T : CType := .int
abbrev atomicIntT : CType := .int
abbrev atomicUintT : CType := .uint32
abbrev rlimT : CType := .uint64

/-- A string of an address space of 47 bits. -/
structure StringT where
  data  : Bytes
  sized : data.length ≤ 2 ^ 47

/-- An argument. A `uchar_t *` is the memory from there on. -/
inductive Arg where
  | int (v : Int32)
  | uint32 (v : UInt32)
  | int64 (v : Int64)
  | uint64 (v : UInt64)
  | voidPtr (v : UInt64)
  | ucharPtr (p : Nat → Byte)
  | stringPtr (v : StringT)

def Arg.type : Arg → CType
  | .int _ => .int
  | .uint32 _ => .uint32
  | .int64 _ => .int64
  | .uint64 _ => .uint64
  | .voidPtr _ => .voidPtr
  | .ucharPtr _ => .ucharPtr
  | .stringPtr _ => .stringPtr

/-- The conversion of a number to `int64_t`. -/
def Arg.toInt64 : Arg → Int64
  | .int v => v.toInt64
  | .uint32 v => v.toUInt64.toInt64
  | .int64 v => v
  | .uint64 v => v.toInt64
  | .voidPtr v => v.toInt64
  | _ => 0

/-- The conversion of a number or a `void *` to `uint64_t`. -/
def Arg.toUInt64 : Arg → UInt64
  | .int v => v.toInt64.toUInt64
  | .uint32 v => v.toUInt64
  | .int64 v => v.toUInt64
  | .uint64 v => v
  | .voidPtr v => v
  | _ => 0

/-- `va_arg`, for an argument of the type that is asked for. -/
def vaArg (t : CType) : List Arg → Option (Arg × List Arg)
  | [] => none
  | a :: args => if a.type = t then some (a, args) else none

/-! ## Numbers -/

/-- `sizeof("-9223372036854775808") - 1`. -/
def SHS_INT64_LEN : Nat := 20

/-- `SHS_INT32_LEN`, by `SHS_PTR_SIZE == 4`. -/
def SHS_INT_T_LEN : Nat := 11

def SHS_PTR_SIZE : Nat := 4

/-- What the directive has set when its digits are made. -/
structure Number where
  sign        : Bool
  hexadecimal : Nat
  zero        : Byte
  width       : Nat
  i64         : Int64
  ui64        : UInt64

/-- `do { *--p = … } while (…)`, with `p` at that place of `temp`; there is no result when a byte in
front of `temp` would be written. -/
def putDigits (base : Nat) (digit : Nat → Byte) : Nat → Nat → Bytes → Option Bytes
  | 0, _, _ => none
  | p + 1, u, ds =>
    if u / base ≠ 0 then putDigits base digit p (u / base) (digit (u % base) :: ds)
    else some (digit (u % base) :: ds)

def lowerHex (d : Nat) : Byte := (str "0123456789abcdef").getD d 0
def upperHex (d : Nat) : Byte := (str "0123456789ABCDEF").getD d 0
def decimal (d : Nat) : Byte := UInt8.ofNat (d + 48)

/-- The digits in `temp`. -/
def tempDigits (hexadecimal : Nat) (ui64 : UInt64) : Option Bytes :=
  if hexadecimal = 1 then putDigits 16 lowerHex SHS_INT64_LEN ui64.toNat []
  else if hexadecimal = 2 then putDigits 16 upperHex SHS_INT64_LEN ui64.toNat []
  else if ui64 ≤ 0xffffffff then putDigits 10 decimal SHS_INT64_LEN ui64.toUInt32.toNat []
  else putDigits 10 decimal SHS_INT64_LEN ui64.toNat []

/-- `while (len++ < width && buf < pend)`, by what is missing and by the room that is left. -/
def pad (zero : Byte) : Nat → Nat → Bytes
  | 0, _ => []
  | _ + 1, 0 => []
  | k + 1, room + 1 => zero :: pad zero k room

/-- From `if (sign)` on: the bytes that are written from `buf` on. -/
def Number.print (n : Number) (buf pend : Nat) : Option Bytes :=
  let minus := if n.sign = true ∧ n.i64 < 0 then [ch '-'] else []
  let ui64 := if n.sign then (if n.i64 < 0 then (-n.i64).toUInt64 else n.i64.toUInt64) else n.ui64
  (tempDigits n.hexadecimal ui64).map fun ds =>
    let buf := buf + minus.length
    let padding := pad n.zero (n.width - ds.length) (pend - buf)
    let buf := buf + padding.length
    let len := if Shs.sizeT (buf + ds.length) > pend then pend - buf else ds.length
    minus ++ (padding ++ ds.take len)

/-! ## Directives -/

/-- The variables that a directive sets in front of its last byte. -/
structure Directive where
  zero        : Byte
  width       : Nat
  sign        : Bool
  hexadecimal : Nat
  maxWidth    : Bool
  slen        : UInt64

/-- `while (*fmt >= '0' && *fmt <= '9')`. -/
def readWidth : Bytes → Nat → Bytes × Nat
  | [], width => ([], width)
  | c :: cs, width =>
    if isdigit c then readWidth cs ((width * 10 + (c.toNat - 48)) % 2 ^ 32) else (c :: cs, width)

/-- The modifiers that read no argument. -/
def flag (d : Directive) (c : Byte) : Option Directive :=
  if c = ch 'u' then some { d with sign := false }
  else if c = ch 'm' then some { d with maxWidth := true }
  else if c = ch 'X' then some { d with hexadecimal := 2, sign := false }
  else if c = ch 'x' then some { d with hexadecimal := 1, sign := false }
  else none

/-- What is left of the format and of the arguments behind the modifiers. -/
structure Parsed where
  rest      : Bytes
  directive : Directive
  args      : List Arg

/-- `for ( ;; ) switch (*fmt)`. -/
def modifiers : Bytes → Directive → List Arg → Option Parsed
  | [], d, args => some ⟨[], d, args⟩
  | c :: cs, d, args =>
    match flag d c with
    | some d => modifiers cs d args
    | none =>
      if c = ch '*' then
        match vaArg sizeT args with
        | some (a, args) => modifiers cs { d with slen := a.toUInt64 } args
        | none => none
      else some ⟨c :: cs, d, args⟩

/-- The variables in front of the modifiers, with `cs` behind the `%`. -/
def fresh (cs : Bytes) : Directive where
  zero := if cs.headD NUL = ch '0' then ch '0' else SP
  width := (readWidth cs 0).2
  sign := true
  hexadecimal := 0
  maxWidth := false
  slen := 0xffffffffffffffff

/-- A directive up to its last byte. -/
def parseDirective (cs : Bytes) (args : List Arg) : Option Parsed :=
  modifiers (readWidth cs 0).1 (fresh cs) args

/-- The type of the argument of a directive for a number. -/
def numberType (sign : Bool) (c : Byte) : Option CType :=
  if c = ch 'O' then some offT
  else if c = ch 'P' then some pidT
  else if c = ch 'T' then some timeT
  else if c = ch 'M' then some rbMsecT
  else if c = ch 'z' then some (if sign then ssizeT else sizeT)
  else if c = ch 'i' then some (if sign then .int else .uint32)
  else if c = ch 'd' then some (if sign then .int else .uint32)
  else if c = ch 'l' then some (if sign then long else uLong)
  else if c = ch 'D' then some (if sign then int32T else .uint32)
  else if c = ch 'L' then some (if sign then .int64 else .uint64)
  else if c = ch 'A' then some (if sign then atomicIntT else atomicUintT)
  else if c = ch 'r' then some rlimT
  else if c = ch 'p' then some .voidPtr
  else none

/-- What such a directive makes of its argument. -/
def numberOf (d : Directive) (c : Byte) (a : Arg) : Number :=
  let n : Number := ⟨d.sign, d.hexadecimal, d.zero, d.width, 0, 0⟩
  if c = ch 'O' ∨ c = ch 'P' ∨ c = ch 'T' ∨ c = ch 'r' then
    { n with i64 := a.toInt64, sign := true }
  else if c = ch 'M' then
    if a.toInt64 = -1 then { n with sign := true, i64 := -1 }
    else { n with sign := false, ui64 := a.toUInt64 }
  else if c = ch 'p' then
    { n with
      ui64 := a.toUInt64
      hexadecimal := 2
      sign := false
      zero := ch '0'
      width := SHS_PTR_SIZE * 2 }
  else
    let n := if d.sign then { n with i64 := a.toInt64 } else { n with ui64 := a.toUInt64 }
    if c = ch 'i' ∧ d.maxWidth = true then { n with width := SHS_INT_T_LEN }
    else if c = ch 'A' ∧ d.maxWidth = true then { n with width := SHS_INT64_LEN }
    else n

/-- `while (*p && buf < pend)`, by the room that is left. -/
def copyString (p : Nat → Byte) : Nat → Nat → Bytes
  | 0, _ => []
  | room + 1, i => if p i ≠ NUL then p i :: copyString p room (i + 1) else []

/-- `(buf + len < pend) ? len : (size_t) (pend - buf)`. -/
def fitting (buf pend len : Nat) : Nat := if Shs.sizeT (buf + len) < pend then len else pend - buf

/-- What goes wrong: a byte behind the NUL of the format is read, an argument has another type than
the one that is read, or a byte in front of `temp` is written. -/
inductive Fault where
  | overread
  | argument
  | temp
  deriving DecidableEq, Repr

/-- `switch (*fmt)` at a byte of the format: what is written from `buf` on, and the arguments left. -/
def convert (buf pend : Nat) (c : Byte) (d : Directive) (args : List Arg) :
    Except Fault (Bytes × List Arg) :=
  match numberType d.sign c with
  | some t =>
    match vaArg t args with
    | none => .error .argument
    | some (a, args) =>
      match (numberOf d c a).print buf pend with
      | none => .error .temp
      | some out => .ok (out, args)
  | none =>
    if c = ch 'V' then
      match args with
      | .stringPtr v :: args => .ok (v.data.take (fitting buf pend v.data.length), args)
      | _ => .error .argument
    else if c = ch 's' then
      match args with
      | .ucharPtr p :: args =>
        if d.slen = 0xffffffffffffffff then .ok (copyString p (pend - buf) 0, args)
        else .ok ((List.range (fitting buf pend d.slen.toNat)).map p, args)
      | _ => .error .argument
    else if c = ch 'c' then
      match args with
      | .int v :: args => .ok ([v.toUInt32.toUInt8], args)
      | _ => .error .argument
    else if c = ch 'Z' then .ok ([NUL], args)
    else if c = ch 'N' then .ok ([LF], args)
    else if c = ch '%' then .ok ([ch '%'], args)
    else .ok ([c], args)

/-! ## The loop -/

/-- The buffer of a call, which is not `NULL`. -/
structure Buf where
  addr  : Nat
  max   : Nat
  given : addr ≠ 0
  low   : addr + max ≤ 2 ^ 47

/-- What is left of the format in front of its NUL, or none behind the NUL; the arguments left; and
all bytes written from `buf` on. -/
structure State where
  fmt  : Option Bytes
  args : List Arg
  out  : Bytes

inductive Turn where
  | goes (s : State)
  | returns
  | faults (f : Fault)

/-- From `*++fmt` on, with `cs` behind the `%`. -/
def directive (r : Buf) (cs : Bytes) (s : State) : Turn :=
  match parseDirective cs s.args with
  | none => .faults .argument
  | some p =>
    match p.rest with
    | [] => .goes ⟨none, p.args, s.out ++ [NUL]⟩
    | c :: rest =>
      match convert (r.addr + s.out.length) (r.addr + r.max) c p.directive p.args with
      | .error f => .faults f
      | .ok (out, args) => .goes ⟨some rest, args, s.out ++ out⟩

/-- `while (*fmt && buf < pend)`. -/
def turn (r : Buf) (s : State) : Turn :=
  match s.fmt with
  | none => .faults .overread
  | some [] => .returns
  | some (c :: cs) =>
    if s.out.length < r.max then
      if c = ch '%' then directive r cs s else .goes ⟨some cs, s.args, s.out ++ [c]⟩
    else .returns

inductive Result where
  | returned (out : Bytes)
  | faulted (f : Fault) (out : Bytes)

def loop (r : Buf) : Nat → State → Option Result
  | 0, _ => none
  | fuel + 1, s =>
    match turn r s with
    | .goes s => loop r fuel s
    | .returns => some (.returned s.out)
    | .faults f => some (.faulted f s.out)

def start (fmt : Bytes) (args : List Arg) : State := ⟨some fmt, args, []⟩

/-- `string_xxvsnprintf`. Each turn takes a byte of the format or its NUL, so that one turn for each
of them and one more are enough. -/
def stringXxvsnprintf (r : Buf) (fmt : Bytes) (args : List Arg) : Option Result :=
  if r.max = 0 then some (.returned []) else loop r (fmt.length + 2) (start fmt args)

/-! ## What is promised -/

/-- The call returns, and has written inside the buffer only. -/
def Safe (r : Buf) (fmt : Bytes) (args : List Arg) : Prop :=
  ∃ out, stringXxvsnprintf r fmt args = some (.returned out) ∧ out.length ≤ r.max

/-- The type of the argument of a directive with the last byte `c`. -/
def argTypes (sign : Bool) (c : Byte) : List CType :=
  match numberType sign c with
  | some t => [t]
  | none =>
    if c = ch 'V' then [.stringPtr]
    else if c = ch 's' then [.ucharPtr]
    else if c = ch 'c' then [.int]
    else []

/-- Where a byte of a format stands. -/
inductive Place where
  | text
  | directive (digits sign : Bool)

/-- The types of the arguments that a format asks for. -/
def asks : Place → Bytes → List CType
  | _, [] => []
  | .text, c :: cs => asks (if c = ch '%' then .directive true true else .text) cs
  | .directive digits sign, c :: cs =>
    if digits = true ∧ isdigit c = true then asks (.directive true sign) cs
    else if c = ch 'm' then asks (.directive false sign) cs
    else if c = ch 'u' ∨ c = ch 'X' ∨ c = ch 'x' then asks (.directive false false) cs
    else if c = ch '*' then sizeT :: asks (.directive false sign) cs
    else argTypes sign c ++ asks .text cs

/-- The arguments are those that the format asks for, and perhaps more. -/
def WellTyped (fmt : Bytes) (args : List Arg) : Prop := asks .text fmt <+: args.map Arg.type

def isModifier (c : Byte) : Bool :=
  c == ch 'u' || c == ch 'm' || c == ch 'X' || c == ch 'x' || c == ch '*'

/-- Behind its `%`, a directive has digits and modifiers up to the end of the format. -/
def CutOff (cs : Bytes) : Prop := (cs.dropWhile isdigit).all isModifier = true

/-- A length is given for a string, and the end of the string wraps around. -/
def Wraps (buf : Nat) (p : Parsed) : Prop :=
  p.rest.head? = some (ch 's') ∧ p.directive.slen ≠ 0xffffffffffffffff ∧
    2 ^ 64 ≤ buf + p.directive.slen.toNat

/-- The turn taken from this state, if it is one at a directive, is right. -/
def Keeps (r : Buf) (s : State) : Prop :=
  s.out.length < r.max → ∀ cs, s.fmt = some (ch '%' :: cs) →
    ¬ CutOff cs ∧ ∀ p, parseDirective cs s.args = some p → ¬ Wraps (r.addr + s.out.length) p

/-- The state behind a turn. -/
def next (r : Buf) (s : State) : Option State :=
  match turn r s with
  | .goes s => some s
  | _ => none

/-! ## Numbers fit into the buffer -/

section Numbers

variable {base u p : Nat} {digit : Nat → Byte} {ds : Bytes}

/-- A number below `base ^ p` has at most `p` digits. -/
theorem putDigits_spec (hp : 0 < p) (hu : u < base ^ p) :
    ∃ out, putDigits base digit p u ds = some out ∧ out.length ≤ p + ds.length := by
  induction p generalizing u ds with
  | zero => exact absurd hp (Nat.lt_irrefl 0)
  | succ p ih =>
    have hdiv : u / base < base ^ p := by
      rw [Nat.pow_succ, Nat.mul_comm] at hu
      exact Nat.div_lt_of_lt_mul hu
    rw [putDigits]
    split
    next hmore =>
      have hpos : 0 < p := by
        rcases Nat.eq_zero_or_pos p with rfl | hpos
        · rw [Nat.pow_zero, Nat.lt_one_iff] at hdiv
          exact absurd hdiv hmore
        · exact hpos
      obtain ⟨out, hout, hlen⟩ := @ih (u / base) (digit (u % base) :: ds) hpos hdiv
      rw [List.length_cons] at hlen
      exact ⟨out, hout, by omega⟩
    · exact ⟨_, rfl, by rw [List.length_cons]; omega⟩

theorem tempDigits_spec (hexadecimal : Nat) (ui64 : UInt64) :
    ∃ ds, tempDigits hexadecimal ui64 = some ds ∧ ds.length ≤ SHS_INT64_LEN := by
  have hsize := ui64.toNat_lt
  have hhex : ui64.toNat < 16 ^ SHS_INT64_LEN := Nat.lt_trans hsize (by decide)
  have hdec : ui64.toNat < 10 ^ SHS_INT64_LEN := Nat.lt_trans hsize (by decide)
  have hdec32 : ui64.toUInt32.toNat < 10 ^ SHS_INT64_LEN :=
    Nat.lt_trans ui64.toUInt32.toNat_lt (by decide)
  rw [tempDigits]
  split
  · exact putDigits_spec (by decide) hhex
  · split
    · exact putDigits_spec (by decide) hhex
    · split
      · exact putDigits_spec (by decide) hdec32
      · exact putDigits_spec (by decide) hdec

theorem pad_le {zero : Byte} {k room : Nat} : (pad zero k room).length ≤ room := by
  induction k generalizing room with
  | zero => exact Nat.zero_le room
  | succ k ih =>
    cases room with
    | zero => exact Nat.le_refl 0
    | succ room => exact Nat.succ_le_succ ih

/-- The digits of every number fit into `temp`, and what is made of them into the buffer. -/
theorem print_spec (n : Number) {buf pend : Nat} (hbuf : buf < pend) (hpend : pend ≤ 2 ^ 47) :
    ∃ out, n.print buf pend = some out ∧ buf + out.length ≤ pend := by
  rw [Number.print]
  simp only
  generalize hminus : (if n.sign = true ∧ n.i64 < 0 then [ch '-'] else []) = minus
  have hone : minus.length ≤ 1 := by
    rw [← hminus]
    split
    · exact Nat.le_refl 1
    · exact Nat.zero_le 1
  generalize (if n.sign then (if n.i64 < 0 then (-n.i64).toUInt64 else n.i64.toUInt64)
    else n.ui64) = ui64
  obtain ⟨ds, hds, hlen⟩ := tempDigits_spec n.hexadecimal ui64
  rw [hds, Option.map_some]
  refine ⟨_, rfl, ?_⟩
  generalize hpadding : pad n.zero (n.width - ds.length) (pend - (buf + minus.length)) = padding
  have hpad : padding.length ≤ pend - (buf + minus.length) := hpadding ▸ pad_le
  rw [SHS_INT64_LEN] at hlen
  have hwrap : Shs.sizeT (buf + minus.length + padding.length + ds.length) =
      buf + minus.length + padding.length + ds.length := sizeT_of_lt (by omega)
  rw [hwrap, List.length_append, List.length_append, List.length_take]
  split <;> omega

end Numbers

/-! ## Directives read the arguments they ask for -/

section Directives

variable {t : CType} {ts : List CType} {cs : Bytes} {args : List Arg} {d : Directive} {c : Byte}

theorem vaArg_spec (h : t :: ts <+: args.map Arg.type) :
    ∃ a rest, args = a :: rest ∧ a.type = t ∧ vaArg t args = some (a, rest) ∧
      ts <+: rest.map Arg.type := by
  cases args with
  | nil => exact absurd h (by simp)
  | cons a rest =>
    rw [List.map_cons, List.cons_prefix_cons] at h
    exact ⟨a, rest, rfl, h.1.symm, if_pos h.1.symm, h.2⟩

theorem readWidth_rest (w : Nat) : (readWidth cs w).1 = cs.dropWhile isdigit := by
  induction cs generalizing w with
  | nil => rfl
  | cons c cs ih =>
    rw [readWidth, List.dropWhile_cons]
    split
    · exact ih _
    · rfl

theorem asks_width (sign : Bool) :
    asks (.directive true sign) cs = asks (.directive false sign) (cs.dropWhile isdigit) := by
  induction cs with
  | nil => rfl
  | cons c cs ih =>
    rw [List.dropWhile_cons]
    by_cases hdigit : isdigit c = true
    · rw [if_pos hdigit, asks, if_pos ⟨rfl, hdigit⟩, ih]
    · have htrue : ¬ (true = true ∧ isdigit c = true) := fun h => hdigit h.2
      have hfalse : ¬ (false = true ∧ isdigit c = true) := fun h => hdigit h.2
      rw [if_neg hdigit, asks, if_neg htrue, asks, if_neg hfalse]

/-- What one modifier that reads no argument does. -/
theorem flag_some {d' : Directive} (h : flag d c = some d') :
    isModifier c = true ∧
      asks (.directive false d.sign) (c :: cs) = asks (.directive false d'.sign) cs := by
  rw [asks, if_neg (fun h => Bool.false_ne_true h.1)]
  rw [flag] at h
  split at h
  next hu =>
    obtain rfl := Option.some.inj h
    subst hu
    exact ⟨rfl, rfl⟩
  · split at h
    next hm =>
      obtain rfl := Option.some.inj h
      subst hm
      exact ⟨rfl, rfl⟩
    · split at h
      next hX =>
        obtain rfl := Option.some.inj h
        subst hX
        exact ⟨rfl, rfl⟩
      · split at h
        next hx =>
          obtain rfl := Option.some.inj h
          subst hx
          exact ⟨rfl, rfl⟩
        · cases h

theorem flag_none (h : flag d c = none) :
    c ≠ ch 'u' ∧ c ≠ ch 'm' ∧ c ≠ ch 'X' ∧ c ≠ ch 'x' := by
  rw [flag] at h
  split at h
  · cases h
  next hu =>
    split at h
    · cases h
    next hm =>
      split at h
      · cases h
      next hX =>
        split at h
        · cases h
        next hx => exact ⟨hu, hm, hX, hx⟩

/-- The modifiers find the arguments that they ask for, and stop at the last byte of the directive or
at the NUL. -/
theorem modifiers_spec (h : asks (.directive false d.sign) cs <+: args.map Arg.type) :
    ∃ p, modifiers cs d args = some p ∧ (p.rest = [] ↔ cs.all isModifier = true) ∧
      p.rest.length ≤ cs.length ∧ ∀ c rest, p.rest = c :: rest →
        argTypes p.directive.sign c ++ asks .text rest <+: p.args.map Arg.type := by
  induction cs generalizing d args with
  | nil => exact ⟨_, rfl, iff_of_true rfl rfl, Nat.le_refl 0, fun c rest h => by cases h⟩
  | cons c cs ih =>
    rw [modifiers, List.all_cons]
    cases hflag : flag d c with
    | some d' =>
      obtain ⟨hmod, hasks⟩ := @flag_some cs d c d' hflag
      rw [hasks] at h
      obtain ⟨p, hp, hcut, hlen, hrest⟩ := ih h
      exact ⟨p, hp, by rw [hcut, hmod, Bool.true_and], Nat.le_succ_of_le hlen, hrest⟩
    | none =>
      obtain ⟨hu, hm, hX, hx⟩ := flag_none hflag
      rw [asks, if_neg (fun h => Bool.false_ne_true h.1), if_neg hm,
        if_neg (by rintro (h | h | h) <;> contradiction)] at h
      simp only
      by_cases hstar : c = ch '*'
      · rw [if_pos hstar] at h ⊢
        obtain ⟨a, args', -, -, hva, htail⟩ := vaArg_spec h
        rw [hva]
        obtain ⟨p, hp, hcut, hlen, hrest⟩ := ih (d := { d with slen := a.toUInt64 }) htail
        exact ⟨p, hp, by rw [hcut, hstar]; rfl, Nat.le_succ_of_le hlen, hrest⟩
      · rw [if_neg hstar] at h ⊢
        refine ⟨_, rfl, iff_of_false (List.cons_ne_nil c cs) ?_, Nat.le_refl _, ?_⟩
        · simp [isModifier, hu, hm, hX, hx, hstar]
        · intro c' rest hrest
          obtain ⟨rfl, rfl⟩ := List.cons.inj hrest
          exact h

theorem parseDirective_spec (h : asks (.directive true true) cs <+: args.map Arg.type) :
    ∃ p, parseDirective cs args = some p ∧ (p.rest = [] ↔ CutOff cs) ∧
      p.rest.length ≤ cs.length ∧ ∀ c rest, p.rest = c :: rest →
        argTypes p.directive.sign c ++ asks .text rest <+: p.args.map Arg.type := by
  rw [asks_width] at h
  rw [parseDirective, readWidth_rest]
  obtain ⟨p, hp, hcut, hlen, hrest⟩ := modifiers_spec (d := fresh cs) h
  exact ⟨p, hp, hcut, Nat.le_trans hlen (List.length_dropWhile_le _ _), hrest⟩

end Directives

/-! ## Directives fit into the buffer -/

section Convert

variable {buf pend len : Nat} {c : Byte} {d : Directive} {ts : List CType} {args : List Arg}

theorem copyString_le {p : Nat → Byte} {room i : Nat} : (copyString p room i).length ≤ room := by
  induction room generalizing i with
  | zero => exact Nat.le_refl 0
  | succ room ih =>
    rw [copyString]
    split
    · exact Nat.succ_le_succ ih
    · exact Nat.zero_le _

theorem fitting_of_lt (hbuf : buf < pend) (h : buf + len < 2 ^ 64) :
    buf + fitting buf pend len ≤ pend := by
  rw [fitting, sizeT_of_lt h]
  split <;> omega

/-- The sum wraps around to an address in front of the buffer. -/
theorem fitting_of_wrap (hpend : pend ≤ 2 ^ 47) (hbuf : buf < pend) (hlen : len < 2 ^ 64)
    (h : 2 ^ 64 ≤ buf + len) : pend < buf + fitting buf pend len := by
  have hsum : Shs.sizeT (buf + len) = buf + len - 2 ^ 64 := by
    rw [Shs.sizeT]
    omega
  rw [fitting, if_pos (by rw [hsum]; omega)]
  omega

theorem numberType_s : ∀ sign, numberType sign (ch 's') = none := by decide

/-- A directive writes up to the end of the buffer and no further, if no given length wraps. -/
theorem convert_spec (hbuf : buf < pend) (hpend : pend ≤ 2 ^ 47)
    (h : argTypes d.sign c ++ ts <+: args.map Arg.type) :
    ∃ out args', convert buf pend c d args = .ok (out, args') ∧ ts <+: args'.map Arg.type ∧
      (¬ (c = ch 's' ∧ d.slen ≠ 0xffffffffffffffff ∧ 2 ^ 64 ≤ buf + d.slen.toNat) →
        buf + out.length ≤ pend) ∧
      (c = ch 's' ∧ d.slen ≠ 0xffffffffffffffff ∧ 2 ^ 64 ≤ buf + d.slen.toNat →
        pend < buf + out.length) := by
  rw [argTypes] at h
  unfold convert
  cases hnumber : numberType d.sign c with
  | some t =>
    rw [hnumber] at h
    obtain ⟨a, args', -, -, hva, htail⟩ := vaArg_spec h
    obtain ⟨out, hout, hfits⟩ := print_spec (numberOf d c a) hbuf hpend
    simp only
    rw [hva]
    simp only
    rw [hout]
    refine ⟨out, args', rfl, htail, fun _ => hfits, ?_⟩
    rintro ⟨rfl, -⟩
    exact absurd ((numberType_s d.sign).symm.trans hnumber) (by simp)
  | none =>
    rw [hnumber] at h
    simp only at h ⊢
    by_cases hV : c = ch 'V'
    · rw [if_pos hV] at h ⊢
      obtain ⟨a, args', rfl, hat, -, htail⟩ := vaArg_spec h
      cases a with
      | stringPtr v =>
        refine ⟨_, args', rfl, htail, fun _ => ?_, fun hw => ?_⟩
        · have hsized := v.sized
          have hsum : buf + v.data.length < 2 ^ 64 := by omega
          have hfits := fitting_of_lt hbuf hsum
          rw [List.length_take]
          omega
        · exact absurd (hV.symm.trans hw.1) (by decide)
      | _ => cases hat
    · rw [if_neg hV] at h ⊢
      by_cases hs : c = ch 's'
      · rw [if_pos hs] at h ⊢
        obtain ⟨a, args', rfl, hat, -, htail⟩ := vaArg_spec h
        cases a with
        | ucharPtr p =>
          by_cases hslen : d.slen = 0xffffffffffffffff
          · refine ⟨_, args', if_pos hslen, htail, fun _ => ?_, fun hw => absurd hslen hw.2.1⟩
            have hle := @copyString_le p (pend - buf) 0
            omega
          · refine ⟨_, args', if_neg hslen, htail, fun hw => ?_, fun hw => ?_⟩
            · have hsum : buf + d.slen.toNat < 2 ^ 64 :=
                Nat.not_le.1 fun hle => hw ⟨hs, hslen, hle⟩
              rw [List.length_map, List.length_range]
              exact fitting_of_lt hbuf hsum
            · rw [List.length_map, List.length_range]
              exact fitting_of_wrap hpend hbuf d.slen.toNat_lt hw.2.2
        | _ => cases hat
      · rw [if_neg hs] at h ⊢
        -- what is left writes one byte
        have hone : ∀ b : Byte, (¬ (c = ch 's' ∧ d.slen ≠ 0xffffffffffffffff ∧
              2 ^ 64 ≤ buf + d.slen.toNat) → buf + [b].length ≤ pend) ∧
            (c = ch 's' ∧ d.slen ≠ 0xffffffffffffffff ∧ 2 ^ 64 ≤ buf + d.slen.toNat →
              pend < buf + [b].length) := fun _ => ⟨fun _ => hbuf, fun hw => absurd hw.1 hs⟩
        by_cases hc : c = ch 'c'
        · rw [if_pos hc] at h ⊢
          obtain ⟨a, args', rfl, hat, -, htail⟩ := vaArg_spec h
          cases a with
          | int v => exact ⟨_, args', rfl, htail, hone _⟩
          | _ => cases hat
        · rw [if_neg hc] at h ⊢
          split
          · exact ⟨_, args, rfl, h, hone _⟩
          · split
            · exact ⟨_, args, rfl, h, hone _⟩
            · split
              · exact ⟨_, args, rfl, h, hone _⟩
              · exact ⟨_, args, rfl, h, hone _⟩

end Convert

/-! ## Turns and runs -/

section Runs

variable {r : Buf} {s s' : State} {cs : Bytes} {fuel : Nat} {out : Bytes}

def Typed (s : State) : Prop := ∀ fmt, s.fmt = some fmt → WellTyped fmt s.args

/-- The bytes of the format that are left, with the NUL. -/
def State.size (s : State) : Nat := (s.fmt.map fun fmt => fmt.length + 1).getD 0

theorem directive_spec (hroom : s.out.length < r.max)
    (h : asks (.directive true true) cs <+: s.args.map Arg.type) :
    ∃ s', directive r cs s = .goes s' ∧ Typed s' ∧ s'.size ≤ cs.length + 1 ∧
      s.out.length ≤ s'.out.length ∧
      ((¬ CutOff cs ∧ ∀ p, parseDirective cs s.args = some p →
        ¬ Wraps (r.addr + s.out.length) p) ↔ s'.fmt ≠ none ∧ s'.out.length ≤ r.max) := by
  obtain ⟨p, hp, hcut, hlen, hrest⟩ := parseDirective_spec h
  rw [directive, hp]
  simp only [Option.some.injEq, forall_eq']
  cases hpr : p.rest with
  | nil =>
    refine ⟨_, rfl, fun _ hfmt => (Option.some_ne_none _ hfmt.symm).elim, Nat.zero_le _, ?_, ?_⟩
    · rw [List.length_append]
      exact Nat.le_add_right _ _
    · exact iff_of_false (fun hk => hk.1 (hcut.1 hpr)) fun hk => hk.1 rfl
  | cons c rest =>
    have hbuf : r.addr + s.out.length < r.addr + r.max := Nat.add_lt_add_left hroom _
    obtain ⟨out, args', hout, htail, hfits, hover⟩ := convert_spec hbuf r.low (hrest c rest hpr)
    simp only
    rw [hout]
    rw [hpr, List.length_cons] at hlen
    refine ⟨_, rfl, ?_, Nat.le_succ_of_le hlen, ?_, ?_⟩
    · rintro fmt ⟨⟩
      exact htail
    · rw [List.length_append]
      exact Nat.le_add_right _ _
    · have hwraps : Wraps (r.addr + s.out.length) p ↔ c = ch 's' ∧
          p.directive.slen ≠ 0xffffffffffffffff ∧
          2 ^ 64 ≤ r.addr + s.out.length + p.directive.slen.toNat := by
        rw [Wraps, hpr, List.head?_cons, Option.some.injEq]
      have hcutoff : ¬ CutOff cs := fun hc => by
        rw [hcut.2 hc] at hpr
        cases hpr
      rw [hwraps, List.length_append]
      constructor
      · rintro ⟨-, hno⟩
        have hle := hfits hno
        exact ⟨Option.some_ne_none _, by omega⟩
      · rintro ⟨-, hle⟩
        refine ⟨hcutoff, fun hw => ?_⟩
        have hlt := hover hw
        omega

/-- A turn takes something of the format, and is right exactly when `Keeps` says so. -/
theorem turn_spec (ht : Typed s) (hfmt : s.fmt ≠ none) :
    (turn r s = .returns ∧ Keeps r s) ∨
      ∃ s', turn r s = .goes s' ∧ Typed s' ∧ s'.size < s.size ∧ s.out.length ≤ s'.out.length ∧
        (Keeps r s ↔ s'.fmt ≠ none ∧ s'.out.length ≤ r.max) := by
  obtain ⟨fmt, args, out⟩ := s
  cases fmt with
  | none => exact absurd rfl hfmt
  | some fmt =>
    have htyped : WellTyped fmt args := ht fmt rfl
    cases fmt with
    | nil => exact .inl ⟨rfl, fun _ cs hcs => by cases hcs⟩
    | cons c cs =>
      rw [turn]
      simp only
      by_cases hroom : out.length < r.max
      · rw [if_pos hroom]
        rw [WellTyped, asks] at htyped
        by_cases hc : c = ch '%'
        · rw [if_pos hc] at htyped ⊢
          obtain ⟨s', hgoes, ht', hsize, hlen, hkeeps⟩ :=
            directive_spec (s := ⟨some (c :: cs), args, out⟩) hroom htyped
          refine .inr ⟨s', hgoes, ht', Nat.lt_succ_of_le hsize, hlen, ?_⟩
          rw [← hkeeps]
          refine ⟨fun h => h hroom cs (by rw [hc]), fun h _ cs' hcs' => ?_⟩
          obtain rfl : cs = cs' := (List.cons.inj (Option.some.inj hcs')).2
          exact h
        · rw [if_neg hc] at htyped ⊢
          refine .inr ⟨_, rfl, ?_, Nat.lt_succ_self _, ?_, ?_⟩
          · rintro fmt ⟨⟩
            exact htyped
          · simp only [List.length_append]
            exact Nat.le_add_right _ _
          · refine iff_of_true (fun _ cs' hcs' => ?_) ⟨Option.some_ne_none _, ?_⟩
            · exact absurd (List.cons.inj (Option.some.inj hcs')).1 hc
            · simp only [List.length_append]
              exact hroom
      · rw [if_neg hroom]
        exact .inl ⟨rfl, fun h => absurd h hroom⟩

/-- A call that returns has not read behind the NUL, and has written all that it wrote before. -/
theorem loop_returned (ht : Typed s) (h : loop r fuel s = some (.returned out)) :
    s.fmt ≠ none ∧ s.out.length ≤ out.length := by
  induction fuel generalizing s with
  | zero => cases h
  | succ fuel ih =>
    by_cases hfmt : s.fmt = none
    · rw [loop, turn, hfmt] at h
      cases h
    · rw [loop] at h
      rcases turn_spec (r := r) ht hfmt with ⟨hturn, -⟩ | ⟨s', hturn, ht', -, hlen, -⟩
      · rw [hturn] at h
        cases h
        exact ⟨hfmt, Nat.le_refl _⟩
      · rw [hturn] at h
        exact ⟨hfmt, Nat.le_trans hlen (ih ht' h).2⟩

theorem loop_safe_iff (ht : Typed s) (hfmt : s.fmt ≠ none) (hlen : s.out.length ≤ r.max)
    (hfuel : s.size ≤ fuel) :
    (∃ out, loop r fuel s = some (.returned out) ∧ out.length ≤ r.max) ↔
      ∀ k u, Run.Steps (next r) k s u → Keeps r u := by
  induction fuel generalizing s with
  | zero =>
    obtain ⟨fmt, hsome⟩ := Option.ne_none_iff_exists'.1 hfmt
    rw [State.size, hsome] at hfuel
    exact absurd hfuel (Nat.not_succ_le_zero _)
  | succ fuel ih =>
    rw [loop]
    rcases turn_spec (r := r) ht hfmt with ⟨hturn, hkeeps⟩ | ⟨s', hturn, ht', hsize, -, hkeeps⟩
    · have hnext : next r s = none := by rw [next, hturn]
      rw [hturn, Run.Steps.forall_of_none (P := fun _ u => Keeps r u) hnext]
      exact iff_of_true ⟨s.out, rfl, hlen⟩ hkeeps
    · have hnext : next r s = some s' := by rw [next, hturn]
      rw [hturn, Run.Steps.forall_of_some (P := fun _ u => Keeps r u) hnext, hkeeps]
      simp only
      by_cases hgood : s'.fmt ≠ none ∧ s'.out.length ≤ r.max
      · rw [and_iff_right hgood]
        exact ih ht' hgood.1 hgood.2 (by omega)
      · refine iff_of_false ?_ fun h => hgood h.1
        rintro ⟨out, hout, hle⟩
        have hgrown := loop_returned ht' hout
        exact hgood ⟨hgrown.1, Nat.le_trans hgrown.2 hle⟩

theorem typed_start {fmt : Bytes} {args : List Arg} (h : WellTyped fmt args) :
    Typed (start fmt args) := by
  rintro fmt ⟨⟩
  exact h

theorem loop_of_full (hmax : r.max = 0) (fmt : Bytes) (args : List Arg) :
    loop r (fmt.length + 2) (start fmt args) = some (.returned []) := by
  cases fmt with
  | nil => rfl
  | cons c cs =>
    rw [loop, turn, start]
    simp only
    rw [if_neg (by rw [hmax]; exact Nat.not_lt_zero _)]

/-- A call with well-typed arguments returns and keeps its bounds exactly when each of its turns at a
directive is right. -/
theorem vsnprintf_safe_iff (r : Buf) (fmt : Bytes) (args : List Arg) (h : WellTyped fmt args) :
    Safe r fmt args ↔ ∀ k s, Run.Steps (next r) k (start fmt args) s → Keeps r s := by
  have hsize : (start fmt args).size ≤ fmt.length + 2 := Nat.le_succ _
  rw [← loop_safe_iff (typed_start h) (Option.some_ne_none _) (Nat.zero_le _) hsize, Safe,
    stringXxvsnprintf]
  split
  next hmax => rw [loop_of_full hmax]
  · exact Iff.rfl

/-- A buffer of 16 bytes. -/
def sixteen : Buf := ⟨0x1000, 16, by decide, by decide⟩

theorem number_safe : Safe sixteen (str "n=%d") [.int 42] ∧
    ∀ k s, Run.Steps (next sixteen) k (start (str "n=%d") [.int 42]) s → Keeps sixteen s := by
  have hsafe : Safe sixteen (str "n=%d") [.int 42] := ⟨str "n=42", rfl, by decide⟩
  exact ⟨hsafe, (vsnprintf_safe_iff _ _ _ ⟨[], rfl⟩).1 hsafe⟩

/-- A `%` at the end of the format, and a string with the length `SIZE_MAX - 1`. -/
theorem directives_unsafe : (WellTyped (str "%") [] ∧ ¬ Safe sixteen (str "%") []) ∧
    WellTyped (str "%*s") [.uint64 0xfffffffffffffffe, .ucharPtr fun _ => 97] ∧
      ¬ Safe sixteen (str "%*s") [.uint64 0xfffffffffffffffe, .ucharPtr fun _ => 97] := by
  refine ⟨⟨List.nil_prefix, ?_⟩, ⟨[], rfl⟩, ?_⟩
  · rintro ⟨out, hout, -⟩
    have hfault : stringXxvsnprintf sixteen (str "%") [] = some (.faulted .overread [NUL]) := rfl
    rw [hfault] at hout
    cases hout
  · rintro ⟨out, hout, hle⟩
    have hloop := (if_neg (Nat.succ_ne_zero 15)).symm.trans hout
    have htyped : WellTyped (str "%*s") [.uint64 0xfffffffffffffffe, .ucharPtr fun _ => 97] :=
      ⟨[], rfl⟩
    have hkeeps := (loop_safe_iff (typed_start htyped) (Option.some_ne_none _) (Nat.zero_le _)
      (Nat.le_succ _)).1 ⟨out, hloop, hle⟩ 0 _ (.start _)
    exact (hkeeps (Nat.succ_pos 15) (str "*s") rfl).2 _ rfl ⟨rfl, by decide, by decide⟩

end Runs

end Format
end Shs
