import Shs.Core.Des
import Shs.Lib.Feistel

/-!
# Core.DesRounds

DES as a Feistel network: the permutations and the two conversions of a block undo each other, the
lines of rounds are the rounds of the network with the subkeys in pairs, and the decryption subkeys
are the pairs in reverse order.
-/

namespace Shs
namespace Des

open Feistel

/-! ## Permutations -/

theorem doPermutation_twice {offset : Nat} {mask : Word} (hm : (mask <<< offset) >>> offset = mask)
    (a b : Word) :
    doPermutation (doPermutation a b offset mask).1 (doPermutation a b offset mask).2 offset mask =
      (a, b) :=
  deltaSwap_deltaSwap hm a b

theorem masks_survive : ((0x0f0f0f0f : Word) <<< 4) >>> 4 = 0x0f0f0f0f ∧
    ((0x0000ffff : Word) <<< 16) >>> 16 = 0x0000ffff ∧
    ((0x33333333 : Word) <<< 2) >>> 2 = 0x33333333 ∧
    ((0x00ff00ff : Word) <<< 8) >>> 8 = 0x00ff00ff := by
  decide

/-- The exchange under a mask without a shift. -/
theorem exchange_twice (a b m : Word) :
    (a ^^^ ((a ^^^ b) &&& m)) ^^^ (((a ^^^ ((a ^^^ b) &&& m)) ^^^ (b ^^^ ((a ^^^ b) &&& m))) &&& m) = a ∧
    (b ^^^ ((a ^^^ b) &&& m)) ^^^ (((a ^^^ ((a ^^^ b) &&& m)) ^^^ (b ^^^ ((a ^^^ b) &&& m))) &&& m) = b := by
  have hsame : (a ^^^ ((a ^^^ b) &&& m)) ^^^ (b ^^^ ((a ^^^ b) &&& m)) = a ^^^ b := by
    rw [BitVec.xor_comm b, ← BitVec.xor_assoc, xor_xor_cancel]
  rw [hsame, xor_xor_cancel, xor_xor_cancel]
  exact ⟨rfl, rfl⟩

theorem final_initial (left right : Word) :
    finalPermutation (initialPermutation left right).1 (initialPermutation left right).2 =
      (left, right) := by
  obtain ⟨h4, h16, h2, h8⟩ := masks_survive
  unfold finalPermutation initialPermutation
  simp only [rotate_left_right, (exchange_twice _ _ _).1, (exchange_twice _ _ _).2]
  rw [doPermutation_twice h8, doPermutation_twice h2, doPermutation_twice h16,
    doPermutation_twice h4]

theorem initial_final (left right : Word) :
    initialPermutation (finalPermutation left right).1 (finalPermutation left right).2 =
      (left, right) := by
  obtain ⟨h4, h16, h2, h8⟩ := masks_survive
  unfold finalPermutation initialPermutation
  simp only
  rw [doPermutation_twice h4, doPermutation_twice h16, doPermutation_twice h2,
    doPermutation_twice h8]
  simp only [rotate_right_left, (exchange_twice _ _ _).1, (exchange_twice _ _ _).2]

/-! ## Blocks -/

theorem getLsbD_toWord (b : Byte) (i : Nat) :
    (toWord b).getLsbD i = (decide (i < 32) && b.toBitVec.getLsbD i) := BitVec.getLsbD_setWidth ..

theorem getLsbD_toByte (x : Word) {i : Nat} (h : i < 8) :
    (toByte x).toBitVec.getLsbD i = x.getLsbD i := by
  have hmask : (0xff : Word).getLsbD i = true := by
    revert h
    revert i
    decide
  rw [toByte, BitVec.getLsbD_setWidth, BitVec.getLsbD_and, hmask]
  simp [h]

theorem toWord_toByte (x : Word) (i : Nat) :
    (toWord (toByte x)).getLsbD i = (decide (i < 8) && x.getLsbD i) := by
  rw [getLsbD_toWord]
  by_cases h : i < 8
  · rw [getLsbD_toByte x h]
    simp [h, Nat.lt_trans h (show 8 < 32 by decide)]
  · rw [BitVec.getLsbD_of_ge _ i (Nat.le_of_not_lt h)]
    simp [h]

/-- A word is put together again from its four bytes. -/
theorem word_of_bytes (x : Word) :
    toWord (toByte (x >>> 24)) <<< 24 ||| toWord (toByte (x >>> 16)) <<< 16 |||
      toWord (toByte (x >>> 8)) <<< 8 ||| toWord (toByte x) = x := by
  apply BitVec.eq_of_getLsbD_eq
  intro i hi
  simp only [BitVec.getLsbD_or, BitVec.getLsbD_shiftLeft, toWord_toByte, BitVec.getLsbD_ushiftRight]
  rcases Nat.lt_or_ge i 8 with h | h
  · simp [h, show i < 16 by omega, show i < 24 by omega]
  · rcases Nat.lt_or_ge i 16 with h' | h'
    · simp [h', show ¬ i < 8 by omega, show i < 24 by omega, show i - 8 < 8 by omega,
        show 8 + (i - 8) = i by omega, hi]
    · rcases Nat.lt_or_ge i 24 with h'' | h''
      · simp [h'', show ¬ i < 8 by omega, show ¬ i < 16 by omega, show ¬ i - 8 < 8 by omega,
          show i - 16 < 8 by omega, show 16 + (i - 16) = i by omega, hi]
      · simp [show ¬ i < 8 by omega, show ¬ i < 16 by omega, show ¬ i < 24 by omega,
          show ¬ i - 8 < 8 by omega, show ¬ i - 16 < 8 by omega, show i - 24 < 8 by omega,
          show 24 + (i - 24) = i by omega, hi]

theorem read_write (left right : Word) : read64BitData (write64BitData left right) = (left, right) := by
  have hl := word_of_bytes left
  have hr := word_of_bytes right
  exact Prod.ext hl hr

theorem byte_ext {b c : Byte} (h : ∀ i < 8, b.toBitVec.getLsbD i = c.toBitVec.getLsbD i) : b = c :=
  UInt8.toBitVec_inj.1 (BitVec.eq_of_getLsbD_eq h)

theorem toWord_high (b : Byte) {i : Nat} (h : 8 ≤ i) : (toWord b).getLsbD i = false := by
  rw [getLsbD_toWord, BitVec.getLsbD_of_ge _ i h, Bool.and_false]

theorem toWord_low (b : Byte) {i : Nat} (h : i < 8) :
    (toWord b).getLsbD i = b.toBitVec.getLsbD i := by
  rw [getLsbD_toWord]
  simp [Nat.lt_trans h (show 8 < 32 by decide)]

/-- The bytes of a word that was put together from them. -/
theorem bytes_of_word (a b c d : Byte) :
    let x := toWord a <<< 24 ||| toWord b <<< 16 ||| toWord c <<< 8 ||| toWord d
    toByte (x >>> 24) = a ∧ toByte (x >>> 16) = b ∧ toByte (x >>> 8) = c ∧ toByte x = d := by
  intro x
  refine ⟨byte_ext fun i hi => ?_, byte_ext fun i hi => ?_, byte_ext fun i hi => ?_,
    byte_ext fun i hi => ?_⟩
  all_goals
    rw [getLsbD_toByte _ hi]
    simp only [x, BitVec.getLsbD_or, BitVec.getLsbD_shiftLeft, BitVec.getLsbD_ushiftRight]
  · rw [toWord_high d (by omega), toWord_high c (i := 24 + i - 8) (by omega),
      toWord_high b (i := 24 + i - 16) (by omega), show 24 + i - 24 = i by omega, toWord_low a hi]
    simp [show 24 + i < 32 by omega]
  · rw [toWord_high d (by omega), toWord_high c (i := 16 + i - 8) (by omega),
      show 16 + i - 16 = i by omega, toWord_low b hi]
    simp [show 16 + i < 32 by omega, show 16 + i < 24 by omega]
  · rw [toWord_high d (by omega), show 8 + i - 8 = i by omega, toWord_low c hi]
    simp [show 8 + i < 32 by omega, show 8 + i < 16 by omega, show 8 + i < 24 by omega]
  · rw [toWord_low d hi]
    simp [hi, show i < 16 by omega, show i < 24 by omega]

theorem write_read {data : Bytes} (h : data.length = 8) :
    write64BitData (read64BitData data).1 (read64BitData data).2 = data := by
  match data, h with
  | [a, b, c, d, e, f, g, k], _ =>
    obtain ⟨h1, h2, h3, h4⟩ := bytes_of_word a b c d
    obtain ⟨h5, h6, h7, h8⟩ := bytes_of_word e f g k
    show [_, _, _, _, _, _, _, _] = _
    rw [List.cons.injEq, List.cons.injEq, List.cons.injEq, List.cons.injEq, List.cons.injEq,
      List.cons.injEq, List.cons.injEq, List.cons.injEq]
    exact ⟨h1, h2, h3, h4, h5, h6, h7, h8, rfl⟩

/-! ## Rounds -/

/-- What a round masks the other half with. -/
def mask (k : Word × Word) (source : Word) : Word := desRound source 0 k.1 k.2

theorem desRound_eq (source target k₀ k₁ : Word) :
    desRound source target k₀ k₁ = target ^^^ mask (k₀, k₁) source := by
  have hzero : ∀ x : Word, 0 ^^^ x = x := fun x => BitVec.zero_xor
  simp only [mask, desRound, hzero, BitVec.xor_assoc]

/-- The subkeys of `n` rounds in pairs, from index `i` on. -/
def pairs (keys : Subkeys) (i n : Nat) : List (Word × Word) :=
  (List.range n).map fun j => (keys (i + 2 * j), keys (i + 2 * j + 1))

def network (ks : List (Word × Word)) (s : Word × Word) : Word × Word := rounds (· ^^^ ·) mask ks s

theorem xor_cancels (a b : Word) : a ^^^ b ^^^ b = a := xor_xor_cancel a b

theorem pairs_succ (keys : Subkeys) (i n : Nat) :
    pairs keys i (n + 1) = pairs keys i n ++ [(keys (i + 2 * n), keys (i + 2 * n + 1))] := by
  simp [pairs, List.range_succ]

/-- One line of two rounds. -/
theorem roundsRightLeft_network (keys : Subkeys) (i : Nat) (left right : Word) :
    roundsRightLeft keys i left right =
      network [(keys i, keys (i + 1)), (keys (i + 2), keys (i + 3))] (left, right) := by
  simp only [roundsRightLeft, network, rounds_cons, rounds_nil, Feistel.round, desRound_eq]

theorem roundsLeftRight_network (keys : Subkeys) (i : Nat) (left right : Word) :
    roundsLeftRight keys i left right =
      (network [(keys i, keys (i + 1)), (keys (i + 2), keys (i + 3))] (right, left)).swap := by
  simp only [roundsLeftRight, network, rounds_cons, rounds_nil, Feistel.round, desRound_eq, Prod.swap_prod_mk]

theorem network_append (ks ks' : List (Word × Word)) (s : Word × Word) :
    network (ks ++ ks') s = network ks' (network ks s) := rounds_append _ _ ks ks' s

theorem lines_network (keys : Subkeys) (i n : Nat) (s : Word × Word) :
    (List.range n).foldl (fun s n => roundsRightLeft keys (i + 4 * n) s.1 s.2) s =
      network (pairs keys i (2 * n)) s := by
  induction n with
  | zero => rfl
  | succ n ih =>
    have h₁ : i + 2 * (2 * n) = i + 4 * n := by omega
    have h₂ : i + 2 * (2 * n + 1) = i + 4 * n + 2 := by omega
    rw [List.range_succ, List.foldl_append, ih, Nat.mul_succ, pairs_succ, pairs_succ,
      List.append_assoc, network_append, h₁, h₂]
    exact roundsRightLeft_network keys (i + 4 * n) _ _

theorem swapped_lines_network (keys : Subkeys) (i n : Nat) (s : Word × Word) :
    (List.range n).foldl (fun s n => roundsLeftRight keys (i + 4 * n) s.1 s.2) s =
      (network (pairs keys i (2 * n)) s.swap).swap := by
  induction n with
  | zero => exact (Prod.swap_swap s).symm
  | succ n ih =>
    have h₁ : i + 2 * (2 * n) = i + 4 * n := by omega
    have h₂ : i + 2 * (2 * n + 1) = i + 4 * n + 2 := by omega
    rw [List.range_succ, List.foldl_append, ih, Nat.mul_succ, pairs_succ, pairs_succ,
      List.append_assoc, network_append, h₁, h₂]
    exact roundsLeftRight_network keys (i + 4 * n) _ _

theorem eightLines_rightLeft (keys : Subkeys) (i : Nat) (left right : Word) :
    eightLines roundsRightLeft keys i left right = network (pairs keys i 16) (left, right) :=
  lines_network keys i 8 (left, right)

theorem eightLines_leftRight (keys : Subkeys) (i : Nat) (left right : Word) :
    eightLines roundsLeftRight keys i left right =
      (network (pairs keys i 16) (right, left)).swap :=
  swapped_lines_network keys i 8 (left, right)

/-! ## One pass over a block -/

/-- The initial permutation, the rounds, the exchange of the halves and the final permutation. -/
def pass (ks : List (Word × Word)) (s : Word × Word) : Word × Word :=
  let t := network ks (initialPermutation s.1 s.2)
  finalPermutation t.2 t.1

/-- **The pairs in reverse order undo a pass.** -/
theorem pass_reverse (ks : List (Word × Word)) (s : Word × Word) :
    pass ks.reverse (pass ks s) = s := by
  have hback : (network ks.reverse (network ks (initialPermutation s.1 s.2)).swap).swap =
      initialPermutation s.1 s.2 :=
    rounds_reverse mask xor_cancels ks (initialPermutation s.1 s.2)
  have hpermuted : initialPermutation (pass ks s).1 (pass ks s).2 =
      (network ks (initialPermutation s.1 s.2)).swap := initial_final _ _
  have hfinal : pass ks.reverse (pass ks s) =
      finalPermutation (initialPermutation s.1 s.2).1 (initialPermutation s.1 s.2).2 := by
    rw [← hback, ← hpermuted]
    rfl
  rw [hfinal, final_initial]

theorem glDesEcbBlock_eq (ctx : Ctx) (source : Bytes) (mode : Bool) :
    glDesEcbBlock ctx source mode =
      (let s := pass (pairs (ctx.keys mode) 0 16) (read64BitData source)
       write64BitData s.1 s.2) := by
  simp only [glDesEcbBlock, eightLines_rightLeft, pass]

/-- The three passes of Triple-DES share the permutations of the block. -/
theorem gl3desEcbCrypt_eq (ctx : Ctx) (source : Bytes) (mode : Bool) :
    gl3desEcbCrypt ctx source mode =
      (let s := pass (pairs (ctx.keys mode) 64 16) (pass (pairs (ctx.keys mode) 32 16)
        (pass (pairs (ctx.keys mode) 0 16) (read64BitData source)))
       write64BitData s.1 s.2) := by
  simp only [gl3desEcbCrypt, eightLines_rightLeft, eightLines_leftRight, pass, initial_final,
    Prod.fst_swap, Prod.snd_swap]

end Des
end Shs
