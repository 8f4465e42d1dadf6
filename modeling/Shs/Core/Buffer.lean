import Shs.Core.Bytes

/-!
# Core.Buffer

`buffer_t`, kept as its capacity (`end - start`), the offset of `pos` from `start`, and the bytes
in `[pos, last)`. So `last` is `pos + data.length`, and `Buffer.Ok` says `start <= pos <= last <=
end`.
-/

namespace Shs

structure Buffer where
  size : Nat
  pos : Nat
  data : Bytes
  deriving DecidableEq, Repr

def bufferCreate (size : Nat) : Buffer := ⟨size, 0, []⟩

def bufferSize (b : Buffer) : Nat := b.data.length

def bufferFreeSize (b : Buffer) : Nat := b.size - (b.pos + b.data.length)

/-- `memmove` of the unread bytes to the start. The source keeps their number in an `int`, so
this is for fewer than 2 GiB of them. -/
def bufferShrink (b : Buffer) : Buffer := { b with pos := 0 }

def bufferReset (b : Buffer) : Buffer := { b with pos := 0, data := [] }

/-- `pos += n`. -/
def bufferPull (b : Buffer) (n : Nat) : Buffer :=
  { b with pos := b.pos + n, data := b.data.drop n }

/-- Bytes written at `last`, and `last` moved behind them. -/
def bufferUsed (b : Buffer) (bs : Bytes) : Buffer := { b with data := b.data ++ bs }

def Buffer.Ok (b : Buffer) : Prop := b.pos + b.data.length ≤ b.size

@[simp] theorem bufferShrink_data (b : Buffer) : (bufferShrink b).data = b.data := rfl
@[simp] theorem bufferShrink_size (b : Buffer) : (bufferShrink b).size = b.size := rfl
@[simp] theorem bufferUsed_data (b : Buffer) (bs : Bytes) :
    (bufferUsed b bs).data = b.data ++ bs := rfl
@[simp] theorem bufferUsed_size (b : Buffer) (bs : Bytes) : (bufferUsed b bs).size = b.size := rfl
@[simp] theorem bufferPull_data (b : Buffer) (n : Nat) : (bufferPull b n).data = b.data.drop n := rfl
@[simp] theorem bufferPull_size (b : Buffer) (n : Nat) : (bufferPull b n).size = b.size := rfl

theorem bufferShrink_ok {b : Buffer} (h : b.Ok) : (bufferShrink b).Ok := by
  unfold Buffer.Ok at *; simp only [bufferShrink]; omega

theorem bufferPull_ok {b : Buffer} (h : b.Ok) (n : Nat) (hn : n ≤ b.data.length) :
    (bufferPull b n).Ok := by
  unfold Buffer.Ok at *; simp only [bufferPull, List.length_drop]; omega

end Shs
