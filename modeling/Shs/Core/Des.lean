import Shs.Core.Bytes
import Mathlib.Logic.Function.Basic

/-!
# Core.Des

DES and Triple-DES of `shs_math.cc` in ECB mode. A block is a pair of words of 32 bits; between the
initial and the final permutation both are rotated by one bit, which the tables of the S-boxes take
into account. The subkeys of a context are an array that is read as a function of the index.
-/

namespace Shs
namespace Des

abbrev Word := BitVec 32

/-! ## Tables -/

def sbox1 : List Word :=
  [ 0x01010400, 0x00000000, 0x00010000, 0x01010404, 0x01010004, 0x00010404, 0x00000004,
    0x00010000, 0x00000400, 0x01010400, 0x01010404, 0x00000400, 0x01000404, 0x01010004,
    0x01000000, 0x00000004, 0x00000404, 0x01000400, 0x01000400, 0x00010400, 0x00010400,
    0x01010000, 0x01010000, 0x01000404, 0x00010004, 0x01000004, 0x01000004, 0x00010004,
    0x00000000, 0x00000404, 0x00010404, 0x01000000, 0x00010000, 0x01010404, 0x00000004,
    0x01010000, 0x01010400, 0x01000000, 0x01000000, 0x00000400, 0x01010004, 0x00010000,
    0x00010400, 0x01000004, 0x00000400, 0x00000004, 0x01000404, 0x00010404, 0x01010404,
    0x00010004, 0x01010000, 0x01000404, 0x01000004, 0x00000404, 0x00010404, 0x01010400,
    0x00000404, 0x01000400, 0x01000400, 0x00000000, 0x00010004, 0x00010400, 0x00000000,
    0x01010004 ]

def sbox2 : List Word :=
  [ 0x80108020, 0x80008000, 0x00008000, 0x00108020, 0x00100000, 0x00000020, 0x80100020,
    0x80008020, 0x80000020, 0x80108020, 0x80108000, 0x80000000, 0x80008000, 0x00100000,
    0x00000020, 0x80100020, 0x00108000, 0x00100020, 0x80008020, 0x00000000, 0x80000000,
    0x00008000, 0x00108020, 0x80100000, 0x00100020, 0x80000020, 0x00000000, 0x00108000,
    0x00008020, 0x80108000, 0x80100000, 0x00008020, 0x00000000, 0x00108020, 0x80100020,
    0x00100000, 0x80008020, 0x80100000, 0x80108000, 0x00008000, 0x80100000, 0x80008000,
    0x00000020, 0x80108020, 0x00108020, 0x00000020, 0x00008000, 0x80000000, 0x00008020,
    0x80108000, 0x00100000, 0x80000020, 0x00100020, 0x80008020, 0x80000020, 0x00100020,
    0x00108000, 0x00000000, 0x80008000, 0x00008020, 0x80000000, 0x80100020, 0x80108020,
    0x00108000 ]

def sbox3 : List Word :=
  [ 0x00000208, 0x08020200, 0x00000000, 0x08020008, 0x08000200, 0x00000000, 0x00020208,
    0x08000200, 0x00020008, 0x08000008, 0x08000008, 0x00020000, 0x08020208, 0x00020008,
    0x08020000, 0x00000208, 0x08000000, 0x00000008, 0x08020200, 0x00000200, 0x00020200,
    0x08020000, 0x08020008, 0x00020208, 0x08000208, 0x00020200, 0x00020000, 0x08000208,
    0x00000008, 0x08020208, 0x00000200, 0x08000000, 0x08020200, 0x08000000, 0x00020008,
    0x00000208, 0x00020000, 0x08020200, 0x08000200, 0x00000000, 0x00000200, 0x00020008,
    0x08020208, 0x08000200, 0x08000008, 0x00000200, 0x00000000, 0x08020008, 0x08000208,
    0x00020000, 0x08000000, 0x08020208, 0x00000008, 0x00020208, 0x00020200, 0x08000008,
    0x08020000, 0x08000208, 0x00000208, 0x08020000, 0x00020208, 0x00000008, 0x08020008,
    0x00020200 ]

def sbox4 : List Word :=
  [ 0x00802001, 0x00002081, 0x00002081, 0x00000080, 0x00802080, 0x00800081, 0x00800001,
    0x00002001, 0x00000000, 0x00802000, 0x00802000, 0x00802081, 0x00000081, 0x00000000,
    0x00800080, 0x00800001, 0x00000001, 0x00002000, 0x00800000, 0x00802001, 0x00000080,
    0x00800000, 0x00002001, 0x00002080, 0x00800081, 0x00000001, 0x00002080, 0x00800080,
    0x00002000, 0x00802080, 0x00802081, 0x00000081, 0x00800080, 0x00800001, 0x00802000,
    0x00802081, 0x00000081, 0x00000000, 0x00000000, 0x00802000, 0x00002080, 0x00800080,
    0x00800081, 0x00000001, 0x00802001, 0x00002081, 0x00002081, 0x00000080, 0x00802081,
    0x00000081, 0x00000001, 0x00002000, 0x00800001, 0x00002001, 0x00802080, 0x00800081,
    0x00002001, 0x00002080, 0x00800000, 0x00802001, 0x00000080, 0x00800000, 0x00002000,
    0x00802080 ]

def sbox5 : List Word :=
  [ 0x00000100, 0x02080100, 0x02080000, 0x42000100, 0x00080000, 0x00000100, 0x40000000,
    0x02080000, 0x40080100, 0x00080000, 0x02000100, 0x40080100, 0x42000100, 0x42080000,
    0x00080100, 0x40000000, 0x02000000, 0x40080000, 0x40080000, 0x00000000, 0x40000100,
    0x42080100, 0x42080100, 0x02000100, 0x42080000, 0x40000100, 0x00000000, 0x42000000,
    0x02080100, 0x02000000, 0x42000000, 0x00080100, 0x00080000, 0x42000100, 0x00000100,
    0x02000000, 0x40000000, 0x02080000, 0x42000100, 0x40080100, 0x02000100, 0x40000000,
    0x42080000, 0x02080100, 0x40080100, 0x00000100, 0x02000000, 0x42080000, 0x42080100,
    0x00080100, 0x42000000, 0x42080100, 0x02080000, 0x00000000, 0x40080000, 0x42000000,
    0x00080100, 0x02000100, 0x40000100, 0x00080000, 0x00000000, 0x40080000, 0x02080100,
    0x40000100 ]

def sbox6 : List Word :=
  [ 0x20000010, 0x20400000, 0x00004000, 0x20404010, 0x20400000, 0x00000010, 0x20404010,
    0x00400000, 0x20004000, 0x00404010, 0x00400000, 0x20000010, 0x00400010, 0x20004000,
    0x20000000, 0x00004010, 0x00000000, 0x00400010, 0x20004010, 0x00004000, 0x00404000,
    0x20004010, 0x00000010, 0x20400010, 0x20400010, 0x00000000, 0x00404010, 0x20404000,
    0x00004010, 0x00404000, 0x20404000, 0x20000000, 0x20004000, 0x00000010, 0x20400010,
    0x00404000, 0x20404010, 0x00400000, 0x00004010, 0x20000010, 0x00400000, 0x20004000,
    0x20000000, 0x00004010, 0x20000010, 0x20404010, 0x00404000, 0x20400000, 0x00404010,
    0x20404000, 0x00000000, 0x20400010, 0x00000010, 0x00004000, 0x20400000, 0x00404010,
    0x00004000, 0x00400010, 0x20004010, 0x00000000, 0x20404000, 0x20000000, 0x00400010,
    0x20004010 ]

def sbox7 : List Word :=
  [ 0x00200000, 0x04200002, 0x04000802, 0x00000000, 0x00000800, 0x04000802, 0x00200802,
    0x04200800, 0x04200802, 0x00200000, 0x00000000, 0x04000002, 0x00000002, 0x04000000,
    0x04200002, 0x00000802, 0x04000800, 0x00200802, 0x00200002, 0x04000800, 0x04000002,
    0x04200000, 0x04200800, 0x00200002, 0x04200000, 0x00000800, 0x00000802, 0x04200802,
    0x00200800, 0x00000002, 0x04000000, 0x00200800, 0x04000000, 0x00200800, 0x00200000,
    0x04000802, 0x04000802, 0x04200002, 0x04200002, 0x00000002, 0x00200002, 0x04000000,
    0x04000800, 0x00200000, 0x04200800, 0x00000802, 0x00200802, 0x04200800, 0x00000802,
    0x04000002, 0x04200802, 0x04200000, 0x00200800, 0x00000000, 0x00000002, 0x04200802,
    0x00000000, 0x00200802, 0x04200000, 0x00000800, 0x04000002, 0x04000800, 0x00000800,
    0x00200002 ]

def sbox8 : List Word :=
  [ 0x10001040, 0x00001000, 0x00040000, 0x10041040, 0x10000000, 0x10001040, 0x00000040,
    0x10000000, 0x00040040, 0x10040000, 0x10041040, 0x00041000, 0x10041000, 0x00041040,
    0x00001000, 0x00000040, 0x10040000, 0x10000040, 0x10001000, 0x00001040, 0x00041000,
    0x00040040, 0x10040040, 0x10041000, 0x00001040, 0x00000000, 0x00000000, 0x10040040,
    0x10000040, 0x10001000, 0x00041040, 0x00040000, 0x00041040, 0x00040000, 0x10041000,
    0x00001000, 0x00000040, 0x10040040, 0x00001000, 0x00041040, 0x10001000, 0x00000040,
    0x10000040, 0x10040000, 0x10040040, 0x10000000, 0x00040000, 0x10001040, 0x00000000,
    0x10041040, 0x00040040, 0x10000040, 0x10040000, 0x10001000, 0x10001040, 0x00000000,
    0x10041040, 0x00041000, 0x00041000, 0x00001040, 0x00001040, 0x00040040, 0x10000000,
    0x10041000 ]

def leftkeySwap : List Word :=
  [ 0x00000000, 0x00000001, 0x00000100, 0x00000101, 0x00010000, 0x00010001,
    0x00010100, 0x00010101, 0x01000000, 0x01000001, 0x01000100, 0x01000101,
    0x01010000, 0x01010001, 0x01010100, 0x01010101 ]

def rightkeySwap : List Word :=
  [ 0x00000000, 0x01000000, 0x00010000, 0x01010000, 0x00000100, 0x01000100,
    0x00010100, 0x01010100, 0x00000001, 0x01000001, 0x00010001, 0x01010001,
    0x00000101, 0x01000101, 0x00010101, 0x01010101 ]

def encryptRotateTab : List Nat := [1, 1, 2, 2, 2, 2, 2, 2, 1, 2, 2, 2, 2, 2, 2, 1]

def weakKeys : List Bytes :=
  [ [0x00, 0x00, 0x00, 0x00, 0x00, 0x00, 0x00, 0x00],
    [0x00, 0x00, 0x1e, 0x1e, 0x00, 0x00, 0x0e, 0x0e],
    [0x00, 0x00, 0xe0, 0xe0, 0x00, 0x00, 0xf0, 0xf0],
    [0x00, 0x00, 0xfe, 0xfe, 0x00, 0x00, 0xfe, 0xfe],
    [0x00, 0x1e, 0x00, 0x1e, 0x00, 0x0e, 0x00, 0x0e],
    [0x00, 0x1e, 0x1e, 0x00, 0x00, 0x0e, 0x0e, 0x00],
    [0x00, 0x1e, 0xe0, 0xfe, 0x00, 0x0e, 0xf0, 0xfe],
    [0x00, 0x1e, 0xfe, 0xe0, 0x00, 0x0e, 0xfe, 0xf0],
    [0x00, 0xe0, 0x00, 0xe0, 0x00, 0xf0, 0x00, 0xf0],
    [0x00, 0xe0, 0x1e, 0xfe, 0x00, 0xf0, 0x0e, 0xfe],
    [0x00, 0xe0, 0xe0, 0x00, 0x00, 0xf0, 0xf0, 0x00],
    [0x00, 0xe0, 0xfe, 0x1e, 0x00, 0xf0, 0xfe, 0x0e],
    [0x00, 0xfe, 0x00, 0xfe, 0x00, 0xfe, 0x00, 0xfe],
    [0x00, 0xfe, 0x1e, 0xe0, 0x00, 0xfe, 0x0e, 0xf0],
    [0x00, 0xfe, 0xe0, 0x1e, 0x00, 0xfe, 0xf0, 0x0e],
    [0x00, 0xfe, 0xfe, 0x00, 0x00, 0xfe, 0xfe, 0x00],
    [0x1e, 0x00, 0x00, 0x1e, 0x0e, 0x00, 0x00, 0x0e],
    [0x1e, 0x00, 0x1e, 0x00, 0x0e, 0x00, 0x0e, 0x00],
    [0x1e, 0x00, 0xe0, 0xfe, 0x0e, 0x00, 0xf0, 0xfe],
    [0x1e, 0x00, 0xfe, 0xe0, 0x0e, 0x00, 0xfe, 0xf0],
    [0x1e, 0x1e, 0x00, 0x00, 0x0e, 0x0e, 0x00, 0x00],
    [0x1e, 0x1e, 0x1e, 0x1e, 0x0e, 0x0e, 0x0e, 0x0e],
    [0x1e, 0x1e, 0xe0, 0xe0, 0x0e, 0x0e, 0xf0, 0xf0],
    [0x1e, 0x1e, 0xfe, 0xfe, 0x0e, 0x0e, 0xfe, 0xfe],
    [0x1e, 0xe0, 0x00, 0xfe, 0x0e, 0xf0, 0x00, 0xfe],
    [0x1e, 0xe0, 0x1e, 0xe0, 0x0e, 0xf0, 0x0e, 0xf0],
    [0x1e, 0xe0, 0xe0, 0x1e, 0x0e, 0xf0, 0xf0, 0x0e],
    [0x1e, 0xe0, 0xfe, 0x00, 0x0e, 0xf0, 0xfe, 0x00],
    [0x1e, 0xfe, 0x00, 0xe0, 0x0e, 0xfe, 0x00, 0xf0],
    [0x1e, 0xfe, 0x1e, 0xfe, 0x0e, 0xfe, 0x0e, 0xfe],
    [0x1e, 0xfe, 0xe0, 0x00, 0x0e, 0xfe, 0xf0, 0x00],
    [0x1e, 0xfe, 0xfe, 0x1e, 0x0e, 0xfe, 0xfe, 0x0e],
    [0xe0, 0x00, 0x00, 0xe0, 0xf0, 0x00, 0x00, 0xf0],
    [0xe0, 0x00, 0x1e, 0xfe, 0xf0, 0x00, 0x0e, 0xfe],
    [0xe0, 0x00, 0xe0, 0x00, 0xf0, 0x00, 0xf0, 0x00],
    [0xe0, 0x00, 0xfe, 0x1e, 0xf0, 0x00, 0xfe, 0x0e],
    [0xe0, 0x1e, 0x00, 0xfe, 0xf0, 0x0e, 0x00, 0xfe],
    [0xe0, 0x1e, 0x1e, 0xe0, 0xf0, 0x0e, 0x0e, 0xf0],
    [0xe0, 0x1e, 0xe0, 0x1e, 0xf0, 0x0e, 0xf0, 0x0e],
    [0xe0, 0x1e, 0xfe, 0x00, 0xf0, 0x0e, 0xfe, 0x00],
    [0xe0, 0xe0, 0x00, 0x00, 0xf0, 0xf0, 0x00, 0x00],
    [0xe0, 0xe0, 0x1e, 0x1e, 0xf0, 0xf0, 0x0e, 0x0e],
    [0xe0, 0xe0, 0xe0, 0xe0, 0xf0, 0xf0, 0xf0, 0xf0],
    [0xe0, 0xe0, 0xfe, 0xfe, 0xf0, 0xf0, 0xfe, 0xfe],
    [0xe0, 0xfe, 0x00, 0x1e, 0xf0, 0xfe, 0x00, 0x0e],
    [0xe0, 0xfe, 0x1e, 0x00, 0xf0, 0xfe, 0x0e, 0x00],
    [0xe0, 0xfe, 0xe0, 0xfe, 0xf0, 0xfe, 0xf0, 0xfe],
    [0xe0, 0xfe, 0xfe, 0xe0, 0xf0, 0xfe, 0xfe, 0xf0],
    [0xfe, 0x00, 0x00, 0xfe, 0xfe, 0x00, 0x00, 0xfe],
    [0xfe, 0x00, 0x1e, 0xe0, 0xfe, 0x00, 0x0e, 0xf0],
    [0xfe, 0x00, 0xe0, 0x1e, 0xfe, 0x00, 0xf0, 0x0e],
    [0xfe, 0x00, 0xfe, 0x00, 0xfe, 0x00, 0xfe, 0x00],
    [0xfe, 0x1e, 0x00, 0xe0, 0xfe, 0x0e, 0x00, 0xf0],
    [0xfe, 0x1e, 0x1e, 0xfe, 0xfe, 0x0e, 0x0e, 0xfe],
    [0xfe, 0x1e, 0xe0, 0x00, 0xfe, 0x0e, 0xf0, 0x00],
    [0xfe, 0x1e, 0xfe, 0x1e, 0xfe, 0x0e, 0xfe, 0x0e],
    [0xfe, 0xe0, 0x00, 0x1e, 0xfe, 0xf0, 0x00, 0x0e],
    [0xfe, 0xe0, 0x1e, 0x00, 0xfe, 0xf0, 0x0e, 0x00],
    [0xfe, 0xe0, 0xe0, 0xfe, 0xfe, 0xf0, 0xf0, 0xfe],
    [0xfe, 0xe0, 0xfe, 0xe0, 0xfe, 0xf0, 0xfe, 0xf0],
    [0xfe, 0xfe, 0x00, 0x00, 0xfe, 0xfe, 0x00, 0x00],
    [0xfe, 0xfe, 0x1e, 0x1e, 0xfe, 0xfe, 0x0e, 0x0e],
    [0xfe, 0xfe, 0xe0, 0xe0, 0xfe, 0xfe, 0xf0, 0xf0],
    [0xfe, 0xfe, 0xfe, 0xfe, 0xfe, 0xfe, 0xfe, 0xfe] ]

/-! ## Permutations -/

/-- `DO_PERMUTATION`, with the new values of `a` and `b`. -/
def doPermutation (a b : Word) (offset : Nat) (mask : Word) : Word × Word :=
  let temp := ((a >>> offset) ^^^ b) &&& mask
  (a ^^^ (temp <<< offset), b ^^^ temp)

/-- `INITIAL_PERMUTATION`. -/
def initialPermutation (left right : Word) : Word × Word :=
  let (left, right) := doPermutation left right 4 0x0f0f0f0f
  let (left, right) := doPermutation left right 16 0x0000ffff
  let (right, left) := doPermutation right left 2 0x33333333
  let (right, left) := doPermutation right left 8 0x00ff00ff
  let right := right <<< 1 ||| right >>> 31
  let temp := (left ^^^ right) &&& 0xaaaaaaaa
  let right := right ^^^ temp
  let left := left ^^^ temp
  let left := left <<< 1 ||| left >>> 31
  (left, right)

/-- `FINAL_PERMUTATION`. -/
def finalPermutation (left right : Word) : Word × Word :=
  let left := left <<< 31 ||| left >>> 1
  let temp := (left ^^^ right) &&& 0xaaaaaaaa
  let left := left ^^^ temp
  let right := right ^^^ temp
  let right := right <<< 31 ||| right >>> 1
  let (right, left) := doPermutation right left 8 0x00ff00ff
  let (right, left) := doPermutation right left 2 0x33333333
  let (left, right) := doPermutation left right 16 0x0000ffff
  doPermutation left right 4 0x0f0f0f0f

/-- `sbox[work & 0x3f]`. -/
def substitute (sbox : List Word) (work : Word) : Word := sbox.getD (work &&& 0x3f).toNat 0

/-- `DES_ROUND`: the new value of `to`, with the two subkeys of the round. -/
def desRound (source target : Word) (k₀ k₁ : Word) : Word :=
  let work := source ^^^ k₀
  let target := target ^^^ substitute sbox8 work
  let target := target ^^^ substitute sbox6 (work >>> 8)
  let target := target ^^^ substitute sbox4 (work >>> 16)
  let target := target ^^^ substitute sbox2 (work >>> 24)
  let work := (source <<< 28 ||| source >>> 4) ^^^ k₁
  let target := target ^^^ substitute sbox7 work
  let target := target ^^^ substitute sbox5 (work >>> 8)
  let target := target ^^^ substitute sbox3 (work >>> 16)
  target ^^^ substitute sbox1 (work >>> 24)

/-! ## Blocks -/

def toWord (b : Byte) : Word := b.toBitVec.setWidth 32
def toByte (x : Word) : Byte := ⟨(x &&& 0xff).setWidth 8⟩

/-- `READ_64BIT_DATA`. -/
def read64BitData (data : Bytes) : Word × Word :=
  let d := fun i => toWord (data.getD i 0)
  (d 0 <<< 24 ||| d 1 <<< 16 ||| d 2 <<< 8 ||| d 3,
    d 4 <<< 24 ||| d 5 <<< 16 ||| d 6 <<< 8 ||| d 7)

/-- `WRITE_64BIT_DATA`. -/
def write64BitData (left right : Word) : Bytes :=
  [toByte (left >>> 24), toByte (left >>> 16), toByte (left >>> 8), toByte left,
    toByte (right >>> 24), toByte (right >>> 16), toByte (right >>> 8), toByte right]

/-! ## Keys -/

/-- `table[x & 0xf]`. -/
def swapKey (table : List Word) (x : Word) : Word := table.getD (x &&& 0xf).toNat 0

/-- The rotation of a half of the key, which has 28 bits. -/
def rotateKey (x : Word) (n : Nat) : Word := (x <<< n ||| x >>> (28 - n)) &&& 0x0fffffff

/-- The first of the two subkeys of a round. -/
def subkeyFirst (left right : Word) : Word :=
    (left <<< 4 &&& 0x24000000) ||| (left <<< 28 &&& 0x10000000) ||| (left <<< 14 &&& 0x08000000) |||
    (left <<< 18 &&& 0x02080000) ||| (left <<< 6 &&& 0x01000000) ||| (left <<< 9 &&& 0x00200000) |||
    (left >>> 1 &&& 0x00100000) ||| (left <<< 10 &&& 0x00040000) ||| (left <<< 2 &&& 0x00020000) |||
    (left >>> 10 &&& 0x00010000) ||| (right >>> 13 &&& 0x00002000) ||| (right >>> 4 &&& 0x00001000) |||
    (right <<< 6 &&& 0x00000800) ||| (right >>> 1 &&& 0x00000400) ||| (right >>> 14 &&& 0x00000200) |||
    (right &&& 0x00000100) ||| (right >>> 5 &&& 0x00000020) ||| (right >>> 10 &&& 0x00000010) |||
    (right >>> 3 &&& 0x00000008) ||| (right >>> 18 &&& 0x00000004) ||| (right >>> 26 &&& 0x00000002) |||
    (right >>> 24 &&& 0x00000001)

/-- The second of the two subkeys of a round. -/
def subkeySecond (left right : Word) : Word :=
    (left <<< 15 &&& 0x20000000) ||| (left <<< 17 &&& 0x10000000) ||| (left <<< 10 &&& 0x08000000) |||
    (left <<< 22 &&& 0x04000000) ||| (left >>> 2 &&& 0x02000000) ||| (left <<< 1 &&& 0x01000000) |||
    (left <<< 16 &&& 0x00200000) ||| (left <<< 11 &&& 0x00100000) ||| (left <<< 3 &&& 0x00080000) |||
    (left >>> 6 &&& 0x00040000) ||| (left <<< 15 &&& 0x00020000) ||| (left >>> 4 &&& 0x00010000) |||
    (right >>> 2 &&& 0x00002000) ||| (right <<< 8 &&& 0x00001000) ||| (right >>> 14 &&& 0x00000808) |||
    (right >>> 9 &&& 0x00000400) ||| (right &&& 0x00000200) ||| (right <<< 7 &&& 0x00000100) |||
    (right >>> 7 &&& 0x00000020) ||| (right >>> 3 &&& 0x00000011) ||| (right <<< 2 &&& 0x00000004) |||
    (right >>> 21 &&& 0x00000002)

/-- The loop of `des_key_schedule` over the entries of `encrypt_rotate_tab`. -/
def scheduleRounds : List Nat → Word → Word → List Word
  | [], _, _ => []
  | n :: ns, left, right =>
    let left := rotateKey left n
    let right := rotateKey right n
    subkeyFirst left right :: subkeySecond left right :: scheduleRounds ns left right

/-- The two `DO_PERMUTATION` of `des_key_schedule`. -/
def permuteKey (left right : Word) : Word × Word :=
  let (right, left) := doPermutation right left 4 0x0f0f0f0f
  let (right, left) := doPermutation right left 0 0x10101010
  (left, right)

/-- The left half of the key, put together by `leftkey_swap`. -/
def keyLeft (left : Word) : Word :=
  (swapKey leftkeySwap left <<< 3 ||| swapKey leftkeySwap (left >>> 8) <<< 2 |||
    swapKey leftkeySwap (left >>> 16) <<< 1 ||| swapKey leftkeySwap (left >>> 24) |||
    swapKey leftkeySwap (left >>> 5) <<< 7 ||| swapKey leftkeySwap (left >>> 13) <<< 6 |||
    swapKey leftkeySwap (left >>> 21) <<< 5 ||| swapKey leftkeySwap (left >>> 29) <<< 4) &&& 0x0fffffff

/-- The right half of the key, put together by `rightkey_swap`. -/
def keyRight (right : Word) : Word :=
  (swapKey rightkeySwap (right >>> 1) <<< 3 ||| swapKey rightkeySwap (right >>> 9) <<< 2 |||
    swapKey rightkeySwap (right >>> 17) <<< 1 ||| swapKey rightkeySwap (right >>> 25) |||
    swapKey rightkeySwap (right >>> 4) <<< 7 ||| swapKey rightkeySwap (right >>> 12) <<< 6 |||
    swapKey rightkeySwap (right >>> 20) <<< 5 ||| swapKey rightkeySwap (right >>> 28) <<< 4) &&&
      0x0fffffff

/-- `des_key_schedule`: the subkeys it stores, in their order. -/
def desKeySchedule (rawkey : Bytes) : List Word :=
  let (left, right) := read64BitData rawkey
  let (left, right) := permuteKey left right
  scheduleRounds encryptRotateTab (keyLeft left) (keyRight right)

abbrev Subkeys := Nat → Word

/-- The words `ws` written to an array from index `at` on. -/
def Subkeys.store (a : Subkeys) (start : Nat) (ws : List Word) : Subkeys := fun i =>
  if start ≤ i ∧ i < start + ws.length then ws.getD (i - start) 0 else a i

def Subkeys.set (a : Subkeys) (i : Nat) (x : Word) : Subkeys := Function.update a i x

/-- `gl_des_ctx`, and `gl_3des_ctx`. -/
structure Ctx where
  encryptSubkeys : Subkeys
  decryptSubkeys : Subkeys

instance : Inhabited Ctx := ⟨⟨fun _ => 0, fun _ => 0⟩⟩

/-- The body of the loop of `gl_des_setkey`, for `i`. -/
def setkeyStep (ctx : Ctx) (i : Nat) : Ctx :=
  { ctx with
    decryptSubkeys := (ctx.decryptSubkeys.set i (ctx.encryptSubkeys (30 - i))).set (i + 1)
      (ctx.encryptSubkeys (31 - i)) }

/-- The values of `i` in `for (i = 0; i < 32; i += 2)`. -/
def evens : List Nat := (List.range 16).map fun j => 2 * j

def glDesSetkey (ctx : Ctx) (key : Bytes) : Ctx :=
  evens.foldl setkeyStep { ctx with encryptSubkeys := ctx.encryptSubkeys.store 0 (desKeySchedule key) }

/-- The body of the loop of `gl_3des_set2keys`. -/
def set2keysStep (ctx : Ctx) (i : Nat) : Ctx :=
  let ctx := setkeyStep ctx i
  let ctx :=
    { ctx with
      encryptSubkeys := (ctx.encryptSubkeys.set (i + 32) (ctx.decryptSubkeys (62 - i))).set (i + 33)
        (ctx.decryptSubkeys (63 - i)) }
  let ctx :=
    { ctx with encryptSubkeys := ctx.encryptSubkeys.set (i + 64) (ctx.encryptSubkeys i) }
  let ctx :=
    { ctx with encryptSubkeys := ctx.encryptSubkeys.set (i + 65) (ctx.encryptSubkeys (i + 1)) }
  let ctx :=
    { ctx with decryptSubkeys := ctx.decryptSubkeys.set (i + 64) (ctx.decryptSubkeys i) }
  { ctx with decryptSubkeys := ctx.decryptSubkeys.set (i + 65) (ctx.decryptSubkeys (i + 1)) }

def gl3desSet2keys (ctx : Ctx) (key1 key2 : Bytes) : Ctx :=
  evens.foldl set2keysStep
    ⟨ctx.encryptSubkeys.store 0 (desKeySchedule key1),
      ctx.decryptSubkeys.store 32 (desKeySchedule key2)⟩

/-- The body of the loop of `gl_3des_set3keys`. -/
def set3keysStep (ctx : Ctx) (i : Nat) : Ctx :=
  let ctx :=
    { ctx with
      decryptSubkeys := (ctx.decryptSubkeys.set i (ctx.encryptSubkeys (94 - i))).set (i + 1)
        (ctx.encryptSubkeys (95 - i)) }
  let ctx :=
    { ctx with
      encryptSubkeys := (ctx.encryptSubkeys.set (i + 32) (ctx.decryptSubkeys (62 - i))).set (i + 33)
        (ctx.decryptSubkeys (63 - i)) }
  { ctx with
    decryptSubkeys := (ctx.decryptSubkeys.set (i + 64) (ctx.encryptSubkeys (30 - i))).set (i + 65)
      (ctx.encryptSubkeys (31 - i)) }

def gl3desSet3keys (ctx : Ctx) (key1 key2 key3 : Bytes) : Ctx :=
  evens.foldl set3keysStep
    ⟨(ctx.encryptSubkeys.store 0 (desKeySchedule key1)).store 64 (desKeySchedule key3),
      ctx.decryptSubkeys.store 32 (desKeySchedule key2)⟩

/-! ## Weak keys -/

/-- `memcmp` on strings of the same length, by its sign. -/
def memcmp : Bytes → Bytes → Ordering
  | x :: xs, y :: ys => if x = y then memcmp xs ys else if x < y then .lt else .gt
  | _, _ => .eq

/-- The loop of `gl_des_is_weak_key`. -/
def weakSearch (work : Bytes) (left right : Int) : Bool :=
  if left ≤ right then
    let middle := (left + right) / 2
    match memcmp work (weakKeys.getD middle.toNat []) with
    | .eq => true
    | .gt => weakSearch work (middle + 1) right
    | .lt => weakSearch work left (middle - 1)
  else false
termination_by (right + 1 - left).toNat

def clearParity (key : Bytes) : Bytes := (key.take 8).map (· &&& 0xfe)

def glDesIsWeakKey (key : Bytes) : Bool := weakSearch (clearParity key) 0 63

/-- `gl_des_makekey`; the context is not touched where the length is wrong. -/
def glDesMakekey (ctx : Ctx) (key : Bytes) (keylen : Nat) : Ctx × Bool :=
  if keylen ≠ 8 then (ctx, false) else (glDesSetkey ctx key, !glDesIsWeakKey key)

def gl3desMakekey (ctx : Ctx) (key : Bytes) (keylen : Nat) : Ctx × Bool :=
  if keylen ≠ 24 then (ctx, false)
  else
    (gl3desSet3keys ctx key (key.drop 8) (key.drop 16),
      !(glDesIsWeakKey key || glDesIsWeakKey (key.drop 8) || glDesIsWeakKey (key.drop 16)))

/-! ## Encryption and decryption -/

/-- `DES_ROUND (right, left, work, keys) DES_ROUND (left, right, work, keys)`, with `keys` at
index `i`. -/
def roundsRightLeft (keys : Subkeys) (i : Nat) (left right : Word) : Word × Word :=
  let left := desRound right left (keys i) (keys (i + 1))
  let right := desRound left right (keys (i + 2)) (keys (i + 3))
  (left, right)

/-- `DES_ROUND (left, right, work, keys) DES_ROUND (right, left, work, keys)`. -/
def roundsLeftRight (keys : Subkeys) (i : Nat) (left right : Word) : Word × Word :=
  let right := desRound left right (keys i) (keys (i + 1))
  let left := desRound right left (keys (i + 2)) (keys (i + 3))
  (left, right)

/-- Eight lines of two rounds each, from index `i` of the subkeys on. -/
def eightLines (line : Subkeys → Nat → Word → Word → Word × Word) (keys : Subkeys) (i : Nat)
    (left right : Word) : Word × Word :=
  (List.range 8).foldl (fun s n => line keys (i + 4 * n) s.1 s.2) (left, right)

def Ctx.keys (ctx : Ctx) (mode : Bool) : Subkeys :=
  if mode then ctx.decryptSubkeys else ctx.encryptSubkeys

/-- The bytes that `gl_des_ecb_crypt` writes. -/
def glDesEcbBlock (ctx : Ctx) (source : Bytes) (mode : Bool) : Bytes :=
  let keys := ctx.keys mode
  let (left, right) := read64BitData source
  let (left, right) := initialPermutation left right
  let (left, right) := eightLines roundsRightLeft keys 0 left right
  let (right, left) := finalPermutation right left
  write64BitData right left

/-- `gl_des_ecb_crypt`, with `mode` true for decryption: the bytes written and the return value. -/
def glDesEcbCrypt (ctx : Ctx) (source : Bytes) (mode : Bool) : Bytes × Nat :=
  let target := glDesEcbBlock ctx source mode
  if target.getD 7 0 = 0 then (target, (cstr target).length) else (target, 8)

/-- `gl_3des_ecb_crypt`. -/
def gl3desEcbCrypt (ctx : Ctx) (source : Bytes) (mode : Bool) : Bytes :=
  let keys := ctx.keys mode
  let (left, right) := read64BitData source
  let (left, right) := initialPermutation left right
  let (left, right) := eightLines roundsRightLeft keys 0 left right
  let (left, right) := eightLines roundsLeftRight keys 32 left right
  let (left, right) := eightLines roundsRightLeft keys 64 left right
  let (right, left) := finalPermutation right left
  write64BitData right left

end Des
end Shs
