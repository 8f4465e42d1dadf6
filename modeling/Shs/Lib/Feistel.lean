import Mathlib.Data.Prod.Basic

/-!
# Lib.Feistel

Feistel networks over any type with an operation that undoes itself, for any round function and any
list of keys, and the exchange of bits between two words that ciphers use around them.

* `rounds_reverse`: the same rounds with the keys in reverse order undo a run, up to the exchange
  of the halves.
* `deltaSwap_deltaSwap`: an exchange of bits undoes itself where the mask survives the shift.
-/

namespace Feistel

section Rounds

variable {α κ : Type} (op : α → α → α) (f : κ → α → α)

/-- One round: the halves change places, and the one that goes to the right is masked. -/
def round (s : α × α) (k : κ) : α × α := (s.2, op s.1 (f k s.2))

def rounds (ks : List κ) (s : α × α) : α × α := ks.foldl (round op f) s

@[simp] theorem rounds_nil (s : α × α) : rounds op f [] s = s := rfl

@[simp] theorem rounds_cons (k : κ) (ks : List κ) (s : α × α) :
    rounds op f (k :: ks) s = rounds op f ks (round op f s k) := rfl

theorem rounds_append (ks ks' : List κ) (s : α × α) :
    rounds op f (ks ++ ks') s = rounds op f ks' (rounds op f ks s) := List.foldl_append

variable {op}

/-- A round on the exchanged halves undoes itself. -/
theorem round_swap (hop : ∀ a b, op (op a b) b = a) (s : α × α) (k : κ) :
    (round op f (round op f s k).swap k).swap = s := by
  obtain ⟨l, r⟩ := s
  simp [round, hop]

/-- **The keys in reverse order undo a run.** -/
theorem rounds_reverse (hop : ∀ a b, op (op a b) b = a) (ks : List κ) (s : α × α) :
    (rounds op f ks.reverse (rounds op f ks s).swap).swap = s := by
  induction ks generalizing s with
  | nil => exact Prod.swap_swap s
  | cons k ks ih =>
    rw [rounds_cons, List.reverse_cons, rounds_append, rounds_cons, rounds_nil]
    have hrest := congrArg Prod.swap (ih (round op f s k))
    rw [Prod.swap_swap] at hrest
    rw [hrest]
    exact round_swap f hop s k

end Rounds

section Bits

variable {w : Nat}

/-- The bits of `b` under the mask `m` change places with those of `a` that lie `n` higher. -/
def deltaSwap (n : Nat) (m : BitVec w) (a b : BitVec w) : BitVec w × BitVec w :=
  let t := ((a >>> n) ^^^ b) &&& m
  (a ^^^ (t <<< n), b ^^^ t)

/-- A mask that survives the shift keeps every bit under it. -/
theorem shift_and_mask {n : Nat} {m : BitVec w} (hm : (m <<< n) >>> n = m) (x : BitVec w) :
    ((x &&& m) <<< n) >>> n = x &&& m := by
  apply BitVec.eq_of_getLsbD_eq
  intro i hi
  have hbit := congrArg (fun v : BitVec w => v.getLsbD i) hm
  simp only [BitVec.getLsbD_ushiftRight, BitVec.getLsbD_shiftLeft, BitVec.getLsbD_and] at hbit ⊢
  cases hmi : m.getLsbD i with
  | false => simp [hmi]
  | true =>
    rw [hmi] at hbit
    simp_all

theorem xor_xor_cancel (x y : BitVec w) : x ^^^ y ^^^ y = x := by
  rw [BitVec.xor_assoc, BitVec.xor_self, BitVec.xor_zero]

/-- **Exchanging twice changes nothing.** -/
theorem deltaSwap_deltaSwap {n : Nat} {m : BitVec w} (hm : (m <<< n) >>> n = m) (a b : BitVec w) :
    deltaSwap n m (deltaSwap n m a b).1 (deltaSwap n m a b).2 = (a, b) := by
  have htemp : (((a ^^^ ((((a >>> n) ^^^ b) &&& m) <<< n)) >>> n) ^^^
      (b ^^^ (((a >>> n) ^^^ b) &&& m))) &&& m = ((a >>> n) ^^^ b) &&& m := by
    have hkeep := shift_and_mask hm ((a >>> n) ^^^ b)
    apply BitVec.eq_of_getLsbD_eq
    intro i hi
    have hbit := congrArg (fun v : BitVec w => v.getLsbD i) hkeep
    simp only [BitVec.getLsbD_ushiftRight, BitVec.getLsbD_shiftLeft, BitVec.getLsbD_and,
      BitVec.getLsbD_xor] at hbit ⊢
    cases hmi : m.getLsbD i with
    | false => simp [hmi]
    | true =>
      simp only [hmi, Bool.and_true] at hbit ⊢
      rw [hbit]
      cases a.getLsbD (n + i) <;> cases b.getLsbD i <;> rfl
  simp only [deltaSwap, htemp, xor_xor_cancel]

/-- Rotating by one bit to the left and back. -/
theorem rotate_left_right (x : BitVec (w + 1)) :
    ((x <<< 1 ||| x >>> w) <<< w) ||| ((x <<< 1 ||| x >>> w) >>> 1) = x := by
  apply BitVec.eq_of_getLsbD_eq
  intro i hi
  simp only [BitVec.getLsbD_or, BitVec.getLsbD_ushiftRight, BitVec.getLsbD_shiftLeft]
  by_cases hlast : i = w
  · subst hlast
    simp
  · have hlow : i < w := by omega
    simp [hlow]
    omega

/-- Rotating by one bit to the right and back. -/
theorem rotate_right_left (x : BitVec (w + 1)) :
    ((x <<< w ||| x >>> 1) <<< 1) ||| ((x <<< w ||| x >>> 1) >>> w) = x := by
  apply BitVec.eq_of_getLsbD_eq
  intro i hi
  simp only [BitVec.getLsbD_or, BitVec.getLsbD_ushiftRight, BitVec.getLsbD_shiftLeft]
  by_cases hfirst : i = 0
  · have hhigh : x.getLsbD (1 + w) = false := BitVec.getLsbD_of_ge x _ (by omega)
    simp [hfirst, hhigh]
  · have hhigh : x.getLsbD (1 + (w + i)) = false := BitVec.getLsbD_of_ge x _ (by omega)
    have hback : 1 + (i - 1) = i := by omega
    have hnot : ¬ i < 1 := by omega
    have hlow : i - 1 < w := by omega
    simp [hi, hhigh, hback, hnot, hlow]

end Bits

end Feistel
