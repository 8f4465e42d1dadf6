import Mathlib.Data.List.Dedup
import Mathlib.Data.List.Perm.Subperm
import Shs.Core.DesKeys
import Shs.Lib.Bisect

/-!
# Core.DesWeak

The table of weak keys. The search in it answers whether a key, its parity bits cleared, is one of
its entries; the key schedule does not read the parity bits; and a key of the table has at most four
different round keys.
-/

namespace Shs
namespace Des

/-! ## The order of the table -/

/-- On strings of one length `memcmp` compares by the lexicographic order. -/
theorem memcmp_cases {x y : Bytes} (h : x.length = y.length) :
    (memcmp x y = .eq ∧ x = y) ∨ (memcmp x y = .lt ∧ x < y) ∨ (memcmp x y = .gt ∧ y < x) := by
  induction x generalizing y with
  | nil => exact Or.inl ⟨rfl, (List.eq_nil_of_length_eq_zero h.symm).symm⟩
  | cons a x ih =>
    cases y with
    | nil => simp at h
    | cons b y =>
      rcases Nat.lt_trichotomy a.toNat b.toNat with hlt | heq | hgt
      · have hlt : a < b := UInt8.lt_iff_toNat_lt.2 hlt
        have hne : a ≠ b := UInt8.ne_of_lt hlt
        exact Or.inr (Or.inl ⟨by simp [memcmp, hne, hlt], List.cons_lt_cons_iff.2 (Or.inl hlt)⟩)
      · obtain rfl := UInt8.toNat_inj.1 heq
        rcases ih (Nat.succ.inj h) with ⟨hm, rfl⟩ | ⟨hm, hl⟩ | ⟨hm, hl⟩
        · exact Or.inl ⟨by simp [memcmp, hm], rfl⟩
        · exact Or.inr (Or.inl ⟨by simp [memcmp, hm], List.cons_lt_cons_iff.2 (Or.inr ⟨rfl, hl⟩)⟩)
        · exact Or.inr (Or.inr ⟨by simp [memcmp, hm], List.cons_lt_cons_iff.2 (Or.inr ⟨rfl, hl⟩)⟩)
      · have hgt : b < a := UInt8.lt_iff_toNat_lt.2 hgt
        have hne : a ≠ b := fun he => UInt8.lt_irrefl b (he ▸ hgt)
        have hnot : ¬ a < b := UInt8.lt_asymm hgt
        exact Or.inr (Or.inr ⟨by simp [memcmp, hne, hnot], List.cons_lt_cons_iff.2 (Or.inl hgt)⟩)

theorem memcmp_eq {x y : Bytes} (h : x.length = y.length) : memcmp x y = .eq ↔ x = y := by
  rcases memcmp_cases h with ⟨hm, rfl⟩ | ⟨hm, hl⟩ | ⟨hm, hl⟩
  · simp [hm]
  · simp only [hm, reduceCtorEq, false_iff]
    rintro rfl
    exact List.lt_irrefl x hl
  · simp only [hm, reduceCtorEq, false_iff]
    rintro rfl
    exact List.lt_irrefl x hl

theorem memcmp_lt {x y : Bytes} (h : x.length = y.length) : memcmp x y = .lt ↔ x < y := by
  rcases memcmp_cases h with ⟨hm, rfl⟩ | ⟨hm, hl⟩ | ⟨hm, hl⟩
  · simp [hm, List.lt_irrefl]
  · simp [hm, hl]
  · simp [hm, List.lt_asymm hl]

theorem memcmp_gt {x y : Bytes} (h : x.length = y.length) : memcmp x y = .gt ↔ y < x := by
  rcases memcmp_cases h with ⟨hm, rfl⟩ | ⟨hm, hl⟩ | ⟨hm, hl⟩
  · simp [hm, List.lt_irrefl]
  · simp [hm, List.lt_asymm hl]
  · simp [hm, hl]

theorem weakKeys_chain : weakKeys.IsChain (· < ·) := by decide +kernel

theorem weakKeys_sorted : weakKeys.Pairwise (· < ·) := List.isChain_iff_pairwise.1 weakKeys_chain

theorem length_weakKeys : ∀ k ∈ weakKeys, k.length = 8 := by decide +kernel

/-! ## The search -/

/-- The comparison of a key with the entry of the table at an index. -/
def probe (work : Bytes) (i : Int) : Ordering := memcmp work (weakKeys.getD i.toNat [])

theorem weakSearch_eq (work : Bytes) (left right : Int) :
    weakSearch work left right = Bisect.search (probe work) left right := by
  fun_induction weakSearch work left right with
  | case1 left right hle middle heq =>
    rw [Bisect.search, if_pos hle]
    simp only [show probe work ((left + right) / 2) = .eq from heq]
  | case2 left right hle middle hgt ih =>
    rw [Bisect.search, if_pos hle]
    simp only [show probe work ((left + right) / 2) = .gt from hgt]
    exact ih
  | case3 left right hle middle hlt ih =>
    rw [Bisect.search, if_pos hle]
    simp only [show probe work ((left + right) / 2) = .lt from hlt]
    exact ih
  | case4 left right hnot => rw [Bisect.search, if_neg hnot]

theorem entry_lt {i j : Int} (hi : 0 ≤ i) (hij : i < j) (hj : j ≤ 63) :
    weakKeys.getD i.toNat [] < weakKeys.getD j.toNat [] := by
  have hjlen : j.toNat < weakKeys.length := by
    rw [show weakKeys.length = 64 from rfl]
    omega
  have hilen : i.toNat < weakKeys.length := by omega
  rw [List.getD_eq_getElem _ _ hilen, List.getD_eq_getElem _ _ hjlen]
  exact List.pairwise_iff_getElem.1 weakKeys_sorted _ _ hilen hjlen (by omega)

theorem length_entry {i : Int} (hi : 0 ≤ i) (hi' : i ≤ 63) :
    (weakKeys.getD i.toNat []).length = 8 := by
  have hlen : i.toNat < weakKeys.length := by
    rw [show weakKeys.length = 64 from rfl]
    omega
  rw [List.getD_eq_getElem _ _ hlen]
  exact length_weakKeys _ (List.getElem_mem hlen)

theorem probe_ordered {work : Bytes} (h : work.length = 8) : Bisect.Ordered (probe work) 0 63 where
  above := by
    intro i j hi hij hj hgt
    rcases Int.lt_or_eq_of_le hij with hlt | rfl
    · have hj' := (memcmp_gt (h.trans (length_entry (by omega) hj).symm)).1 hgt
      exact (memcmp_gt (h.trans (length_entry hi (by omega)).symm)).2
        (List.lt_trans (entry_lt hi hlt hj) hj')
    · exact hgt
  below := by
    intro i j hi hij hj hlt
    rcases Int.lt_or_eq_of_le hij with hlt' | rfl
    · have hi' := (memcmp_lt (h.trans (length_entry hi (by omega)).symm)).1 hlt
      exact (memcmp_lt (h.trans (length_entry (by omega) hj).symm)).2
        (List.lt_trans hi' (entry_lt hi hlt' hj))
    · exact hlt

theorem weakSearch_iff {work : Bytes} (h : work.length = 8) :
    weakSearch work 0 63 = true ↔ work ∈ weakKeys := by
  rw [weakSearch_eq, Bisect.search_iff (probe_ordered h)]
  constructor
  · rintro ⟨i, hi, hi', heq⟩
    have hlen : i.toNat < weakKeys.length := by
      rw [show weakKeys.length = 64 from rfl]
      omega
    rw [(memcmp_eq (h.trans (length_entry hi hi').symm)).1 heq, List.getD_eq_getElem _ _ hlen]
    exact List.getElem_mem hlen
  · intro hmem
    obtain ⟨n, hn, hget⟩ := List.getElem_of_mem hmem
    have hn' : n < 64 := hn
    refine ⟨n, by omega, by omega, ?_⟩
    rw [probe, Int.toNat_natCast, List.getD_eq_getElem _ _ hn, hget]
    exact (memcmp_eq rfl).2 rfl

theorem length_clearParity {key : Bytes} (h : 8 ≤ key.length) : (clearParity key).length = 8 := by
  rw [clearParity, List.length_map, List.length_take]
  omega

theorem glDesIsWeakKey_iff {key : Bytes} (h : 8 ≤ key.length) :
    glDesIsWeakKey key = true ↔ clearParity key ∈ weakKeys :=
  weakSearch_iff (length_clearParity h)

/-! ## Parity bits -/

/-- Two words that differ at most in the bits `i` with `i % 8 = p`. -/
def SameBut (p : Nat) (x y : Word) : Prop := ∀ i, i % 8 ≠ p → x.getLsbD i = y.getLsbD i

theorem swapKey_congr {table : List Word} {x y : Word}
    (h : ∀ k < 4, x.getLsbD k = y.getLsbD k) : swapKey table x = swapKey table y := by
  have hmask : ∀ k < 32, (0xf : Word).getLsbD k = decide (k < 4) := by decide
  have hand : x &&& 0xf = y &&& 0xf := by
    apply BitVec.eq_of_getLsbD_eq
    intro k hk
    rw [BitVec.getLsbD_and, BitVec.getLsbD_and, hmask k hk]
    by_cases h4 : k < 4
    · rw [h k h4]
    · simp [h4]
  rw [swapKey, hand, swapKey]

/-- A table reads four bits; where none of them may differ, it gives the same. -/
theorem swapKey_same {table : List Word} {p s : Nat} {x y : Word} (h : SameBut p x y)
    (hs : ∀ k < 4, (s + k) % 8 ≠ p) : swapKey table (x >>> s) = swapKey table (y >>> s) :=
  swapKey_congr fun k hk => by
    rw [BitVec.getLsbD_ushiftRight, BitVec.getLsbD_ushiftRight, h _ (hs k hk)]

theorem keyLeft_same {x y : Word} (h : SameBut 4 x y) : keyLeft x = keyLeft y := by
  have hzero : swapKey leftkeySwap x = swapKey leftkeySwap y :=
    swapKey_congr fun k hk => h k (by omega)
  rw [keyLeft, keyLeft, hzero, swapKey_same h (by decide), swapKey_same h (by decide),
    swapKey_same h (by decide), swapKey_same h (by decide), swapKey_same h (by decide),
    swapKey_same h (by decide), swapKey_same h (by decide)]

theorem keyRight_same {x y : Word} (h : SameBut 0 x y) : keyRight x = keyRight y := by
  rw [keyRight, keyRight, swapKey_same h (by decide), swapKey_same h (by decide),
    swapKey_same h (by decide), swapKey_same h (by decide), swapKey_same h (by decide),
    swapKey_same h (by decide), swapKey_same h (by decide), swapKey_same h (by decide)]

theorem bit_halves : ∀ i < 32, (0x0f0f0f0f : Word).getLsbD i = decide (i % 8 < 4) := by decide

theorem bit_fourth : ∀ i < 32, (0x10101010 : Word).getLsbD i = decide (i % 8 = 4) := by decide

/-- The bits of the permuted left word: the low halves of the bytes come from the high halves of the
right word. -/
theorem permuteKey_left (l r : Word) {i : Nat} (hi : i < 32) (h4 : i % 8 ≠ 4) :
    (permuteKey l r).1.getLsbD i = if i % 8 < 4 then r.getLsbD (4 + i) else l.getLsbD i := by
  simp only [permuteKey, doPermutation, BitVec.getLsbD_xor, BitVec.getLsbD_and,
    bit_fourth i hi, decide_eq_false h4, Bool.and_false, Bool.xor_false, bit_halves i hi,
    BitVec.getLsbD_ushiftRight]
  split
  case isTrue h => simp [h, Bool.xor_comm]
  case isFalse h => simp [h]

/-- The bits of the permuted right word: the high halves of the bytes come from the low halves of
the left word, except for bit 4, which stays in the left one. -/
theorem permuteKey_right (l r : Word) {i : Nat} (hi : i < 32) :
    (permuteKey l r).2.getLsbD i =
      if i % 8 < 4 then r.getLsbD i else if i % 8 = 4 then l.getLsbD i else l.getLsbD (i - 4) := by
  have hlow : i - 4 < 32 := by omega
  simp only [permuteKey, doPermutation, BitVec.getLsbD_xor, BitVec.getLsbD_and,
    BitVec.getLsbD_shiftLeft, BitVec.getLsbD_ushiftRight, bit_fourth _ hi, bit_halves _ hi,
    bit_halves _ hlow, Nat.zero_add, Nat.sub_zero]
  rcases Nat.lt_trichotomy (i % 8) 4 with h | h | h
  · have hshift : ¬ (i - 4) % 8 < 4 ∨ i < 4 := by omega
    rcases hshift with hshift | hshift <;> simp [h, h.ne, hshift]
  · have hback : 4 + (i - 4) = i := by omega
    have hshift : (i - 4) % 8 < 4 := by omega
    simp [h, hi, hback, hshift, show ¬ i < 4 by omega]
  · have hback : 4 + (i - 4) = i := by omega
    have hshift : (i - 4) % 8 < 4 := by omega
    simp [hi, hback, hshift, show ¬ i < 4 by omega, show ¬ i % 8 < 4 by omega, h.ne']

/-- The parity bits end in bit 4 of the bytes of the left word and in bit 0 of those of the right. -/
theorem permuteKey_same {l r l' r' : Word} (hl : SameBut 0 l l') (hr : SameBut 0 r r') :
    SameBut 4 (permuteKey l r).1 (permuteKey l' r').1 ∧
    SameBut 0 (permuteKey l r).2 (permuteKey l' r').2 := by
  constructor
  · intro i h4
    rcases Nat.lt_or_ge i 32 with hi | hi
    · rw [permuteKey_left l r hi h4, permuteKey_left l' r' hi h4]
      split
      case isTrue h => exact hr _ (by omega)
      case isFalse h => exact hl _ (by omega)
    · rw [BitVec.getLsbD_of_ge _ i hi, BitVec.getLsbD_of_ge _ i hi]
  · intro i h0
    rcases Nat.lt_or_ge i 32 with hi | hi
    · rw [permuteKey_right l r hi, permuteKey_right l' r' hi]
      split_ifs
      · exact hr _ h0
      · exact hl _ (by omega)
      · exact hl _ (by omega)
    · rw [BitVec.getLsbD_of_ge _ i hi, BitVec.getLsbD_of_ge _ i hi]

/-! ## Reading a key -/

theorem getD_clearParity (key : Bytes) {i : Nat} (h : i < 8) :
    (clearParity key).getD i 0 = key.getD i 0 &&& 0xfe := by
  rw [clearParity, List.getD_eq_getElem?_getD, List.getElem?_map, List.getElem?_take_of_lt h,
    List.getD_eq_getElem?_getD]
  cases key[i]? with
  | none => rfl
  | some b => rfl

theorem bit_parity : ∀ i < 8, (0xfe : Byte).toBitVec.getLsbD i = decide (i ≠ 0) := by decide

theorem toWord_parity (b : Byte) {i : Nat} (h : i ≠ 0) :
    (toWord (b &&& 0xfe)).getLsbD i = (toWord b).getLsbD i := by
  rcases Nat.lt_or_ge i 8 with hi | hi
  · rw [toWord_low _ hi, toWord_low _ hi, UInt8.toBitVec_and, BitVec.getLsbD_and, bit_parity i hi]
    simp [h]
  · rw [toWord_high _ hi, toWord_high _ hi]

theorem SameBut.or {p : Nat} {x y x' y' : Word} (h : SameBut p x y) (h' : SameBut p x' y') :
    SameBut p (x ||| x') (y ||| y') := fun i hi => by
  rw [BitVec.getLsbD_or, BitVec.getLsbD_or, h i hi, h' i hi]

theorem parity_shift (b : Byte) {s : Nat} (hs : s % 8 = 0) :
    SameBut 0 (toWord (b &&& 0xfe) <<< s) (toWord b <<< s) := by
  intro i hi
  simp only [BitVec.getLsbD_shiftLeft]
  by_cases h : i < s
  · simp [h]
  · rw [toWord_parity b (by omega)]

/-- A word put together from bytes without their parity bits. -/
theorem word_parity (a b c d : Byte) :
    SameBut 0 (toWord (a &&& 0xfe) <<< 24 ||| toWord (b &&& 0xfe) <<< 16 |||
        toWord (c &&& 0xfe) <<< 8 ||| toWord (d &&& 0xfe))
      (toWord a <<< 24 ||| toWord b <<< 16 ||| toWord c <<< 8 ||| toWord d) :=
  (((parity_shift a rfl).or (parity_shift b rfl)).or (parity_shift c rfl)).or
    fun _ hi => toWord_parity d (by omega)

/-- **The schedule does not read the parity bits.** -/
theorem desKeySchedule_parity (key : Bytes) : desKeySchedule (clearParity key) = desKeySchedule key := by
  have hread := fun {i} (h : i < 8) => getD_clearParity key h
  have hpermute := permuteKey_same
    (word_parity (key.getD 0 0) (key.getD 1 0) (key.getD 2 0) (key.getD 3 0))
    (word_parity (key.getD 4 0) (key.getD 5 0) (key.getD 6 0) (key.getD 7 0))
  simp only [desKeySchedule, read64BitData, hread (show 0 < 8 by decide),
    hread (show 1 < 8 by decide), hread (show 2 < 8 by decide), hread (show 3 < 8 by decide),
    hread (show 4 < 8 by decide), hread (show 5 < 8 by decide), hread (show 6 < 8 by decide),
    hread (show 7 < 8 by decide)]
  rw [keyLeft_same hpermute.1, keyRight_same hpermute.2]

/-! ## What a weak key is -/

/-- A word of 28 bits, as the halves of the key are. -/
def Narrow (x : Word) : Prop := ∀ i, 28 ≤ i → x.getLsbD i = false

theorem bit_narrow : ∀ i < 32, (0x0fffffff : Word).getLsbD i = decide (i < 28) := by decide

theorem narrow_mask (x : Word) : Narrow (x &&& 0x0fffffff) := by
  intro i hi
  rw [BitVec.getLsbD_and]
  by_cases h : i < 32
  · rw [bit_narrow i h, decide_eq_false (by omega), Bool.and_false]
  · rw [BitVec.getLsbD_of_ge x i (by omega), Bool.false_and]

theorem narrow_rotateKey (x : Word) (n : Nat) : Narrow (rotateKey x n) := narrow_mask _

/-- The rotation, bit by bit. -/
theorem bit_rotateKey {x : Word} (hx : Narrow x) {n i : Nat} (hn : n ≤ 28) (hi : i < 28) :
    (rotateKey x n).getLsbD i = x.getLsbD ((i + (28 - n)) % 28) := by
  have hi' : i < 32 := by omega
  rw [rotateKey, BitVec.getLsbD_and, BitVec.getLsbD_or, bit_narrow i hi', decide_eq_true hi,
    Bool.and_true, BitVec.getLsbD_shiftLeft, BitVec.getLsbD_ushiftRight]
  by_cases h : i < n
  · have hmod : (i + (28 - n)) % 28 = 28 - n + i := by omega
    simp [h, hmod]
  · have hmod : (i + (28 - n)) % 28 = i - n := by omega
    have hout : x.getLsbD (28 - n + i) = false := hx _ (by omega)
    simp [h, hmod, hout, hi']

theorem rotateKey_rotateKey {x : Word} (hx : Narrow x) {a b : Nat} (hab : a + b ≤ 28) :
    rotateKey (rotateKey x a) b = rotateKey x (a + b) := by
  apply BitVec.eq_of_getLsbD_eq
  intro i _
  by_cases hi : i < 28
  · rw [bit_rotateKey (narrow_rotateKey x a) (by omega) hi,
      bit_rotateKey hx (by omega) (Nat.mod_lt _ (by omega)), bit_rotateKey hx hab hi]
    congr 1
    omega
  · rw [narrow_rotateKey _ _ i (by omega), narrow_rotateKey _ _ i (by omega)]

/-- Four places further a half of a weak key is the same. -/
structure FourFold (x : Word) : Prop where
  narrow : Narrow x
  turn : rotateKey x 4 = x

theorem FourFold.rotate {x : Word} (h : FourFold x) {m n : Nat} (hm : m < 4) (hn : n ≤ 4) :
    rotateKey (rotateKey x m) n = rotateKey x ((m + n) % 4) := by
  rw [rotateKey_rotateKey h.narrow (by omega)]
  by_cases hlt : m + n < 4
  · rw [Nat.mod_eq_of_lt hlt]
  · have hsub : (m + n) % 4 = m + n - 4 := by omega
    calc rotateKey x (m + n) = rotateKey x (4 + (m + n - 4)) := by congr 1; omega
      _ = rotateKey (rotateKey x 4) (m + n - 4) := (rotateKey_rotateKey h.narrow (by omega)).symm
      _ = rotateKey x ((m + n) % 4) := by rw [h.turn, hsub]

/-- The subkeys of a round whose halves are turned `m` places from `left` and `right`. -/
def turnKeys (left right : Word) (m : Nat) : Word × Word :=
  (subkeyFirst (rotateKey left m) (rotateKey right m),
    subkeySecond (rotateKey left m) (rotateKey right m))

/-- All rounds take the subkeys of one of four turns. -/
theorem scheduleRounds_turns {left right : Word} (hl : FourFold left) (hr : FourFold right)
    {ns : List Nat} (hns : ∀ n ∈ ns, n ≤ 4) {m : Nat} (hm : m < 4) {j : Nat} (hj : j < ns.length) :
    ((scheduleRounds ns (rotateKey left m) (rotateKey right m)).getD (2 * j) 0,
      (scheduleRounds ns (rotateKey left m) (rotateKey right m)).getD (2 * j + 1) 0) ∈
      (List.range 4).map (turnKeys left right) := by
  induction ns generalizing m j with
  | nil => cases hj
  | cons n ns ih =>
    have hn := hns n List.mem_cons_self
    have hlt : (m + n) % 4 < 4 := Nat.mod_lt _ (by omega)
    rw [scheduleRounds, hl.rotate hm hn, hr.rotate hm hn]
    cases j with
    | zero => exact List.mem_map_of_mem (List.mem_range.2 hlt)
    | succ j =>
      exact ih (fun n hn => hns n (List.mem_cons_of_mem _ hn)) hlt (Nat.lt_of_succ_lt_succ hj)

theorem weakKeys_turn : ∀ k ∈ weakKeys,
    rotateKey (keyLeft (permuteKey (read64BitData k).1 (read64BitData k).2).1) 4 =
      keyLeft (permuteKey (read64BitData k).1 (read64BitData k).2).1 ∧
    rotateKey (keyRight (permuteKey (read64BitData k).1 (read64BitData k).2).2) 4 =
      keyRight (permuteKey (read64BitData k).1 (read64BitData k).2).2 := by decide +kernel

theorem rotateKey_zero {x : Word} (hx : Narrow x) : rotateKey x 0 = x := by
  apply BitVec.eq_of_getLsbD_eq
  intro i _
  by_cases hi : i < 28
  · rw [bit_rotateKey hx (by omega) hi]
    congr 1
    omega
  · rw [narrow_rotateKey _ _ i (by omega), hx i (by omega)]

theorem weakKeys_repeat {k : Bytes} (hk : k ∈ weakKeys) : (roundKeys k).dedup.length ≤ 4 := by
  obtain ⟨hleft, hright⟩ := weakKeys_turn k hk
  generalize hl : keyLeft (permuteKey (read64BitData k).1 (read64BitData k).2).1 = left at hleft
  generalize hr : keyRight (permuteKey (read64BitData k).1 (read64BitData k).2).2 = right at hright
  have hfl : FourFold left := ⟨hl ▸ narrow_mask _, hleft⟩
  have hfr : FourFold right := ⟨hr ▸ narrow_mask _, hright⟩
  have hschedule : desKeySchedule k =
      scheduleRounds encryptRotateTab (rotateKey left 0) (rotateKey right 0) := by
    rw [rotateKey_zero hfl.narrow, rotateKey_zero hfr.narrow, ← hl, ← hr]
    rfl
  have hsub : roundKeys k ⊆ (List.range 4).map (turnKeys left right) := by
    intro p hp
    obtain ⟨j, hj, rfl⟩ := List.mem_map.1 hp
    rw [roundKey, hschedule]
    exact scheduleRounds_turns hfl hfr (by decide) (by decide) (List.mem_range.1 hj)
  have hperm := (List.nodup_dedup (roundKeys k)).subperm fun p hp => hsub (List.mem_dedup.1 hp)
  simpa using hperm.length_le

theorem roundKeys_parity (key : Bytes) : roundKeys (clearParity key) = roundKeys key := by
  unfold roundKeys roundKey
  rw [desKeySchedule_parity]

/-- **A key is accepted exactly if it has the right length and the table has none of its parts, up
to parity; and a key that the table has, with whatever parity, has at most four different round keys
among its sixteen.** -/
theorem makekey_accepts (ctx : Ctx) (key : Bytes) (keylen : Nat) :
    (8 ≤ key.length →
      ((glDesMakekey ctx key keylen).2 = true ↔ keylen = 8 ∧ clearParity key ∉ weakKeys)) ∧
    (24 ≤ key.length →
      ((gl3desMakekey ctx key keylen).2 = true ↔
        keylen = 24 ∧ ∀ n < 3, clearParity (key.drop (8 * n)) ∉ weakKeys)) ∧
    (clearParity key ∈ weakKeys → (roundKeys key).dedup.length ≤ 4) := by
  refine ⟨fun h => ?_, fun h => ?_, fun hmem => ?_⟩
  · rw [← glDesIsWeakKey_iff h]
    by_cases hlen : keylen = 8
    · simp [glDesMakekey, hlen]
    · simp [glDesMakekey, hlen]
  · have hpart : ∀ n < 3, (clearParity (key.drop (8 * n)) ∉ weakKeys ↔
        glDesIsWeakKey (key.drop (8 * n)) = false) := by
      intro n hn
      rw [← glDesIsWeakKey_iff (by rw [List.length_drop]; omega), Bool.not_eq_true]
    have hall : (∀ n < 3, clearParity (key.drop (8 * n)) ∉ weakKeys) ↔
        glDesIsWeakKey key = false ∧ glDesIsWeakKey (key.drop 8) = false ∧
          glDesIsWeakKey (key.drop 16) = false := by
      constructor
      · intro hnone
        exact ⟨(hpart 0 (by decide)).1 (hnone 0 (by decide)),
          (hpart 1 (by decide)).1 (hnone 1 (by decide)),
          (hpart 2 (by decide)).1 (hnone 2 (by decide))⟩
      · rintro ⟨h0, h1, h2⟩ n hn
        match n, hn with
        | 0, hn => exact (hpart 0 hn).2 h0
        | 1, hn => exact (hpart 1 hn).2 h1
        | 2, hn => exact (hpart 2 hn).2 h2
    rw [hall]
    by_cases hlen : keylen = 24
    · simp [gl3desMakekey, hlen, and_assoc]
    · simp [gl3desMakekey, hlen]
  · rw [← roundKeys_parity]
    exact weakKeys_repeat hmem

/-- The weak key of ones, with odd parity, and a key of three parts. -/
theorem makekey_accepts_ones :
    (glDesMakekey default (List.replicate 8 1) 8).2 = false ∧
    (roundKeys (List.replicate 8 1)).dedup.length ≤ 4 ∧
    (gl3desMakekey default (List.replicate 16 0x31 ++ List.replicate 8 0xfe) 24).2 = false := by
  refine ⟨?_, ?_, ?_⟩
  · rw [Bool.eq_false_iff]
    intro h
    exact (((makekey_accepts default (List.replicate 8 1) 8).1 (by decide)).1 h).2 (by decide)
  · exact (makekey_accepts default (List.replicate 8 1) 8).2.2 (by decide)
  · rw [Bool.eq_false_iff]
    intro h
    exact (((makekey_accepts default _ 24).2.1 (by decide)).1 h).2 2 (by decide) (by decide)

end Des
end Shs
