import Shs.Core.DesRounds
import Mathlib.Data.List.GetD

/-!
# Core.DesKeys

What the loops over the subkeys leave in a context, pair by pair: the decryption subkeys are the
encryption subkeys with the pairs in reverse order, for one key and for three. With the network of
`Core.DesRounds` this gives the two directions of DES, and Triple-DES as three passes of DES.
-/

namespace Shs
namespace Des

/-! ## Pairs of subkeys -/

/-- The pair of subkeys at the indices `2 * a` and `2 * a + 1`. -/
def Subkeys.pair (keys : Subkeys) (a : Nat) : Word × Word := (keys (2 * a), keys (2 * a + 1))

theorem pairs_eq (keys : Subkeys) (a n : Nat) :
    pairs keys (2 * a) n = (List.range n).map fun j => keys.pair (a + j) := by
  simp only [pairs, Subkeys.pair, Nat.mul_add]

/-- A pair of subkeys written at once. -/
def Subkeys.setPair (keys : Subkeys) (a : Nat) (p : Word × Word) : Subkeys :=
  (keys.set (2 * a) p.1).set (2 * a + 1) p.2

theorem pair_setPair (keys : Subkeys) (a b : Nat) (p : Word × Word) :
    (keys.setPair a p).pair b = if b = a then p else keys.pair b := by
  by_cases hb : b = a
  · subst hb
    simp [Subkeys.pair, Subkeys.setPair, Subkeys.set]
  · have h₁ : 2 * b ≠ 2 * a + 1 := by omega
    have h₂ : 2 * b ≠ 2 * a := by omega
    have h₃ : 2 * b + 1 ≠ 2 * a := by omega
    simp [Subkeys.pair, Subkeys.setPair, Subkeys.set, hb, h₁, h₂, h₃]

/-- A pair of the array after a run of words was written to it. -/
theorem pair_store_of_lt (keys : Subkeys) (start : Nat) (ws : List Word) {a : Nat}
    (h : 2 * a + 1 < start) : (keys.store start ws).pair a = keys.pair a := by
  have h₁ : ¬ start ≤ 2 * a := by omega
  have h₂ : ¬ start ≤ 2 * a + 1 := by omega
  simp [Subkeys.pair, Subkeys.store, h₁, h₂]

theorem pair_store (keys : Subkeys) (start : Nat) (ws : List Word) {a : Nat}
    (h : 2 * a + 1 < ws.length) :
    (keys.store (2 * start) ws).pair (start + a) = (ws.getD (2 * a) 0, ws.getD (2 * a + 1) 0) := by
  have h₁ : 2 * (start + a) < 2 * start + ws.length := by omega
  have h₂ : 2 * (start + a) + 1 < 2 * start + ws.length := by omega
  have h₃ : 2 * start ≤ 2 * (start + a) := by omega
  have h₄ : 2 * start ≤ 2 * (start + a) + 1 := by omega
  have h₅ : 2 * (start + a) - 2 * start = 2 * a := by omega
  have h₆ : 2 * (start + a) + 1 - 2 * start = 2 * a + 1 := by omega
  simp only [Subkeys.pair, Subkeys.store, h₁, h₂, h₃, h₄, h₅, h₆, and_self, if_true]

theorem length_scheduleRounds (ns : List Nat) (left right : Word) :
    (scheduleRounds ns left right).length = 2 * ns.length := by
  induction ns generalizing left right with
  | nil => rfl
  | cons n ns ih =>
    simp only [scheduleRounds, List.length_cons, ih]
    omega

theorem length_desKeySchedule (key : Bytes) : (desKeySchedule key).length = 32 :=
  length_scheduleRounds encryptRotateTab _ _

/-- The pair that the key schedule gives to round `j` of encryption. -/
def roundKey (key : Bytes) (j : Nat) : Word × Word :=
  ((desKeySchedule key).getD (2 * j) 0, (desKeySchedule key).getD (2 * j + 1) 0)

/-- The pairs of the sixteen rounds of encryption. -/
def roundKeys (key : Bytes) : List (Word × Word) := (List.range 16).map (roundKey key)

theorem pair_store_schedule (keys : Subkeys) (start : Nat) (key : Bytes) {j : Nat} (h : j < 16) :
    (keys.store (2 * start) (desKeySchedule key)).pair (start + j) = roundKey key j :=
  pair_store keys start _ (by rw [length_desKeySchedule]; omega)

/-- Sixteen pairs that are read downwards. -/
theorem map_range_reverse {α : Type} (f : Nat → α) :
    (List.range 16).map (fun j => f (15 - j)) = ((List.range 16).map f).reverse := rfl

/-! ## The loops -/

/-- The first `n` values of `i`. -/
def firstEvens (n : Nat) : List Nat := (List.range n).map fun j => 2 * j

theorem foldl_evens_succ (f : Ctx → Nat → Ctx) (ctx : Ctx) (n : Nat) :
    (firstEvens (n + 1)).foldl f ctx = f ((firstEvens n).foldl f ctx) (2 * n) := by
  simp [firstEvens, List.range_succ]

theorem setkeyStep_eq (ctx : Ctx) {j : Nat} (hj : j < 16) :
    setkeyStep ctx (2 * j) =
      { ctx with decryptSubkeys := ctx.decryptSubkeys.setPair j (ctx.encryptSubkeys.pair (15 - j)) } := by
  have h₁ : 30 - 2 * j = 2 * (15 - j) := by omega
  have h₂ : 31 - 2 * j = 2 * (15 - j) + 1 := by omega
  simp only [setkeyStep, h₁, h₂]
  rfl

/-- After `n` steps the first `n` pairs for decryption are there. -/
theorem setkey_run (ctx : Ctx) {n : Nat} (hn : n ≤ 16) :
    ((firstEvens n).foldl setkeyStep ctx).encryptSubkeys = ctx.encryptSubkeys ∧
    ∀ a < n, ((firstEvens n).foldl setkeyStep ctx).decryptSubkeys.pair a =
      ctx.encryptSubkeys.pair (15 - a) := by
  induction n with
  | zero => exact ⟨rfl, fun a ha => absurd ha (Nat.not_lt_zero a)⟩
  | succ n ih =>
    obtain ⟨henc, hdec⟩ := ih (by omega)
    rw [foldl_evens_succ, setkeyStep_eq _ (by omega : n < 16)]
    refine ⟨henc, fun a ha => ?_⟩
    rw [pair_setPair, henc]
    split
    case isTrue h => rw [h]
    case isFalse h => exact hdec a (by omega)

theorem set3keysStep_eq (ctx : Ctx) {j : Nat} (hj : j < 16) :
    set3keysStep ctx (2 * j) =
      (let dec := ctx.decryptSubkeys.setPair j (ctx.encryptSubkeys.pair (47 - j))
       let enc := ctx.encryptSubkeys.setPair (16 + j) (dec.pair (31 - j))
       ⟨enc, dec.setPair (32 + j) (enc.pair (15 - j))⟩) := by
  have h₁ : 94 - 2 * j = 2 * (47 - j) := by omega
  have h₂ : 95 - 2 * j = 2 * (47 - j) + 1 := by omega
  have h₃ : 62 - 2 * j = 2 * (31 - j) := by omega
  have h₄ : 63 - 2 * j = 2 * (31 - j) + 1 := by omega
  have h₅ : 30 - 2 * j = 2 * (15 - j) := by omega
  have h₆ : 31 - 2 * j = 2 * (15 - j) + 1 := by omega
  have h₇ : 2 * j + 32 = 2 * (16 + j) := by omega
  have h₈ : 2 * j + 33 = 2 * (16 + j) + 1 := by omega
  have h₉ : 2 * j + 64 = 2 * (32 + j) := by omega
  have h₁₀ : 2 * j + 65 = 2 * (32 + j) + 1 := by omega
  simp only [set3keysStep, h₁, h₂, h₃, h₄, h₅, h₆, h₇, h₈, h₉, h₁₀]
  rfl

/-- After `n` steps: the pairs of encryption that are written come from the second key, those of
decryption from the first and the third, and all lie as far from the end as their sources lie from
the beginning. -/
theorem set3keys_run (ctx : Ctx) {n : Nat} (hn : n ≤ 16) :
    (∀ a, ((firstEvens n).foldl set3keysStep ctx).encryptSubkeys.pair a =
      if 16 ≤ a ∧ a < 16 + n then ctx.decryptSubkeys.pair (47 - a)
      else ctx.encryptSubkeys.pair a) ∧
    ∀ a, ((firstEvens n).foldl set3keysStep ctx).decryptSubkeys.pair a =
      if a < n ∨ 32 ≤ a ∧ a < 32 + n then ctx.encryptSubkeys.pair (47 - a)
      else ctx.decryptSubkeys.pair a := by
  induction n with
  | zero =>
    refine ⟨fun a => ?_, fun a => ?_⟩
    · rw [if_neg (by omega)]
      rfl
    · rw [if_neg (by omega)]
      rfl
  | succ n ih =>
    obtain ⟨henc, hdec⟩ := ih (by omega)
    rw [foldl_evens_succ, set3keysStep_eq _ (by omega : n < 16)]
    refine ⟨fun a => ?_, fun a => ?_⟩
    · simp only [pair_setPair, henc, hdec]
      clear ih henc hdec
      split_ifs <;> first | omega | rfl | (congr 1; omega)
    · simp only [pair_setPair, henc, hdec]
      clear ih henc hdec
      split_ifs <;> first | omega | rfl | (congr 1; omega)

theorem set2keysStep_eq (ctx : Ctx) {j : Nat} (hj : j < 16) :
    set2keysStep ctx (2 * j) =
      (let dec := ctx.decryptSubkeys.setPair j (ctx.encryptSubkeys.pair (15 - j))
       let enc := ctx.encryptSubkeys.setPair (16 + j) (dec.pair (31 - j))
       ⟨enc.setPair (32 + j) (enc.pair j), dec.setPair (32 + j) (dec.pair j)⟩) := by
  have h₃ : 62 - 2 * j = 2 * (31 - j) := by omega
  have h₄ : 63 - 2 * j = 2 * (31 - j) + 1 := by omega
  have h₇ : 2 * j + 32 = 2 * (16 + j) := by omega
  have h₈ : 2 * j + 33 = 2 * (16 + j) + 1 := by omega
  have h₉ : 2 * j + 64 = 2 * (32 + j) := by omega
  have h₁₀ : 2 * j + 65 = 2 * (32 + j) + 1 := by omega
  -- the second word of a pair is read after the first is written
  have hapart : 2 * j + 1 ≠ 2 * (32 + j) := by omega
  have hsecond : ∀ (keys : Subkeys) (x : Word),
      keys.set (2 * (32 + j)) x (2 * j + 1) = keys (2 * j + 1) := by
    intro keys x
    exact Function.update_of_ne hapart _ _
  simp only [set2keysStep, setkeyStep_eq ctx hj, h₃, h₄, h₇, h₈, h₉, h₁₀, hsecond]
  rfl

theorem set2keys_run (ctx : Ctx) {n : Nat} (hn : n ≤ 16) :
    (∀ a, ((firstEvens n).foldl set2keysStep ctx).encryptSubkeys.pair a =
      if 16 ≤ a ∧ a < 16 + n then ctx.decryptSubkeys.pair (47 - a)
      else if 32 ≤ a ∧ a < 32 + n then ctx.encryptSubkeys.pair (a - 32)
      else ctx.encryptSubkeys.pair a) ∧
    ∀ a, ((firstEvens n).foldl set2keysStep ctx).decryptSubkeys.pair a =
      if a < n then ctx.encryptSubkeys.pair (15 - a)
      else if 32 ≤ a ∧ a < 32 + n then ctx.encryptSubkeys.pair (47 - a)
      else ctx.decryptSubkeys.pair a := by
  induction n with
  | zero =>
    refine ⟨fun a => ?_, fun a => ?_⟩
    · rw [if_neg (by omega), if_neg (by omega)]
      rfl
    · rw [if_neg (by omega), if_neg (by omega)]
      rfl
  | succ n ih =>
    obtain ⟨henc, hdec⟩ := ih (by omega)
    rw [foldl_evens_succ, set2keysStep_eq _ (by omega : n < 16)]
    refine ⟨fun a => ?_, fun a => ?_⟩
    · simp only [pair_setPair, henc, hdec]
      clear ih henc hdec
      split_ifs <;> first | omega | rfl | (congr 1; omega)
    · simp only [pair_setPair, henc, hdec]
      clear ih henc hdec
      split_ifs <;> first | omega | rfl | (congr 1; omega)

/-! ## The keys of the rounds -/

theorem evens_eq : evens = firstEvens 16 := rfl

theorem pairs_of_schedule {keys : Subkeys} (start : Nat) {key : Bytes}
    (h : ∀ j < 16, keys.pair (start + j) = roundKey key j) :
    pairs keys (2 * start) 16 = roundKeys key := by
  rw [pairs_eq]
  exact List.map_congr_left fun j hj => h j (List.mem_range.1 hj)

theorem pairs_of_mirror {keys : Subkeys} (start : Nat) {key : Bytes}
    (h : ∀ j < 16, keys.pair (start + j) = roundKey key (15 - j)) :
    pairs keys (2 * start) 16 = (roundKeys key).reverse := by
  rw [pairs_eq, roundKeys, ← map_range_reverse]
  exact List.map_congr_left fun j hj => h j (List.mem_range.1 hj)

theorem setkey_keys (ctx : Ctx) (key : Bytes) :
    pairs (glDesSetkey ctx key).encryptSubkeys 0 16 = roundKeys key ∧
    pairs (glDesSetkey ctx key).decryptSubkeys 0 16 = (roundKeys key).reverse := by
  obtain ⟨henc, hdec⟩ := setkey_run
    { ctx with encryptSubkeys := ctx.encryptSubkeys.store 0 (desKeySchedule key) } (Nat.le_refl 16)
  rw [← evens_eq] at henc hdec
  have hstore := fun j (hj : j < 16) => pair_store_schedule ctx.encryptSubkeys 0 key hj
  simp only [Nat.zero_add] at hstore
  refine ⟨pairs_of_schedule 0 fun j hj => ?_, pairs_of_mirror 0 fun j hj => ?_⟩
  · rw [Nat.zero_add, glDesSetkey, henc]
    exact hstore j hj
  · rw [Nat.zero_add, glDesSetkey, hdec j hj]
    exact hstore (15 - j) (by omega)

/-- The keys of the three passes, in both directions. -/
structure TripleKeys (ctx : Ctx) (key1 key2 key3 : Bytes) : Prop where
  encryptFirst : pairs ctx.encryptSubkeys 0 16 = roundKeys key1
  encryptSecond : pairs ctx.encryptSubkeys 32 16 = (roundKeys key2).reverse
  encryptThird : pairs ctx.encryptSubkeys 64 16 = roundKeys key3
  decryptFirst : pairs ctx.decryptSubkeys 0 16 = (roundKeys key3).reverse
  decryptSecond : pairs ctx.decryptSubkeys 32 16 = roundKeys key2
  decryptThird : pairs ctx.decryptSubkeys 64 16 = (roundKeys key1).reverse

theorem set3keys_keys (ctx : Ctx) (key1 key2 key3 : Bytes) :
    TripleKeys (gl3desSet3keys ctx key1 key2 key3) key1 key2 key3 := by
  let enc := (ctx.encryptSubkeys.store 0 (desKeySchedule key1)).store 64 (desKeySchedule key3)
  let dec := ctx.decryptSubkeys.store 32 (desKeySchedule key2)
  have hfirst : ∀ j < 16, enc.pair j = roundKey key1 j := by
    intro j hj
    have h := pair_store_schedule ctx.encryptSubkeys 0 key1 hj
    rw [Nat.zero_add] at h
    exact (pair_store_of_lt _ 64 _ (by omega)).trans h
  have hsecond : ∀ j < 16, dec.pair (16 + j) = roundKey key2 j := fun j hj =>
    pair_store_schedule ctx.decryptSubkeys 16 key2 hj
  have hthird : ∀ j < 16, enc.pair (32 + j) = roundKey key3 j := fun j hj =>
    pair_store_schedule (ctx.encryptSubkeys.store 0 (desKeySchedule key1)) 32 key3 hj
  obtain ⟨henc, hdec⟩ := set3keys_run ⟨enc, dec⟩ (Nat.le_refl 16)
  rw [← evens_eq] at henc hdec
  refine ⟨pairs_of_schedule 0 fun j hj => ?_, pairs_of_mirror 16 fun j hj => ?_,
    pairs_of_schedule 32 fun j hj => ?_, pairs_of_mirror 0 fun j hj => ?_,
    pairs_of_schedule 16 fun j hj => ?_, pairs_of_mirror 32 fun j hj => ?_⟩
  · rw [← hfirst j hj, Nat.zero_add]
    exact (henc j).trans (if_neg (by omega))
  · rw [← hsecond (15 - j) (by omega), show 16 + (15 - j) = 47 - (16 + j) by omega]
    exact (henc (16 + j)).trans (if_pos (by omega))
  · rw [← hthird j hj]
    exact (henc (32 + j)).trans (if_neg (by omega))
  · rw [← hthird (15 - j) (by omega), show 32 + (15 - j) = 47 - (0 + j) by omega]
    exact (hdec (0 + j)).trans (if_pos (by omega))
  · rw [← hsecond j hj]
    exact (hdec (16 + j)).trans (if_neg (by omega))
  · rw [← hfirst (15 - j) (by omega), show 15 - j = 47 - (32 + j) by omega]
    exact (hdec (32 + j)).trans (if_pos (by omega))

theorem set2keys_keys (ctx : Ctx) (key1 key2 : Bytes) :
    TripleKeys (gl3desSet2keys ctx key1 key2) key1 key2 key1 := by
  let enc := ctx.encryptSubkeys.store 0 (desKeySchedule key1)
  let dec := ctx.decryptSubkeys.store 32 (desKeySchedule key2)
  have hfirst : ∀ j < 16, enc.pair j = roundKey key1 j := by
    intro j hj
    have h := pair_store_schedule ctx.encryptSubkeys 0 key1 hj
    rwa [Nat.zero_add] at h
  have hsecond : ∀ j < 16, dec.pair (16 + j) = roundKey key2 j := fun j hj =>
    pair_store_schedule ctx.decryptSubkeys 16 key2 hj
  obtain ⟨henc, hdec⟩ := set2keys_run ⟨enc, dec⟩ (Nat.le_refl 16)
  rw [← evens_eq] at henc hdec
  refine ⟨pairs_of_schedule 0 fun j hj => ?_, pairs_of_mirror 16 fun j hj => ?_,
    pairs_of_schedule 32 fun j hj => ?_, pairs_of_mirror 0 fun j hj => ?_,
    pairs_of_schedule 16 fun j hj => ?_, pairs_of_mirror 32 fun j hj => ?_⟩
  · rw [← hfirst j hj, Nat.zero_add]
    exact (henc j).trans ((if_neg (by omega)).trans (if_neg (by omega)))
  · rw [← hsecond (15 - j) (by omega), show 16 + (15 - j) = 47 - (16 + j) by omega]
    exact (henc (16 + j)).trans (if_pos (by omega))
  · rw [← hfirst j hj]
    refine (henc (32 + j)).trans ((if_neg (by omega)).trans ((if_pos (by omega)).trans ?_))
    rw [Nat.add_sub_cancel_left]
  · rw [← hfirst (15 - j) (by omega), Nat.zero_add]
    exact (hdec j).trans (if_pos hj)
  · rw [← hsecond j hj]
    exact (hdec (16 + j)).trans ((if_neg (by omega)).trans (if_neg (by omega)))
  · rw [← hfirst (15 - j) (by omega), show 15 - j = 47 - (32 + j) by omega]
    exact (hdec (32 + j)).trans ((if_neg (by omega)).trans (if_pos (by omega)))

/-! ## Encryption and decryption -/

theorem glDesEcbBlock_setkey (ctx : Ctx) (key source : Bytes) :
    glDesEcbBlock (glDesSetkey ctx key) source false =
      (let s := pass (roundKeys key) (read64BitData source)
       write64BitData s.1 s.2) ∧
    glDesEcbBlock (glDesSetkey ctx key) source true =
      (let s := pass (roundKeys key).reverse (read64BitData source)
       write64BitData s.1 s.2) := by
  obtain ⟨henc, hdec⟩ := setkey_keys ctx key
  rw [glDesEcbBlock_eq, glDesEcbBlock_eq]
  exact ⟨by rw [Ctx.keys, if_neg Bool.false_ne_true, henc], by rw [Ctx.keys, if_pos rfl, hdec]⟩

theorem length_glDesEcbBlock (ctx : Ctx) (source : Bytes) (mode : Bool) :
    (glDesEcbBlock ctx source mode).length = 8 := rfl

theorem pass_back (ks : List (Word × Word)) (s : Word × Word) : pass ks (pass ks.reverse s) = s := by
  have h := pass_reverse ks.reverse s
  rwa [List.reverse_reverse] at h

/-- **Each direction of DES undoes the other on a block.** -/
theorem block_back (ctx : Ctx) (key : Bytes) {source : Bytes} (h : source.length = 8)
    (mode : Bool) :
    glDesEcbBlock (glDesSetkey ctx key) (glDesEcbBlock (glDesSetkey ctx key) source mode) (!mode) =
      source := by
  have hblock := glDesEcbBlock_setkey ctx key
  cases mode with
  | false =>
    rw [(hblock source).1, Bool.not_false, (hblock _).2, read_write, Prod.mk.eta, pass_reverse,
      write_read h]
  | true =>
    rw [(hblock source).2, Bool.not_true, (hblock _).1, read_write, Prod.mk.eta, pass_back,
      write_read h]

theorem glDesEcbCrypt_fst (ctx : Ctx) (source : Bytes) (mode : Bool) :
    (glDesEcbCrypt ctx source mode).1 = glDesEcbBlock ctx source mode := by
  simp only [glDesEcbCrypt]
  split <;> rfl

theorem glDesEcbCrypt_snd (ctx : Ctx) (source : Bytes) (mode : Bool) :
    (glDesEcbCrypt ctx source mode).2 =
      if (glDesEcbBlock ctx source mode).getD 7 0 = 0 then
        (cstr (glDesEcbBlock ctx source mode)).length
      else 8 := by
  simp only [glDesEcbCrypt]
  split <;> rfl

/-- A text of at most eight bytes in a block. -/
def padText (text : Bytes) : Bytes := text ++ List.replicate (8 - text.length) 0

theorem length_padText {text : Bytes} (h : text.length ≤ 8) : (padText text).length = 8 := by
  rw [padText, List.length_append, List.length_replicate]
  omega

theorem cstr_padText {text : Bytes} (h : NUL ∉ text) : cstr (padText text) = text := by
  have hall : ∀ b ∈ text, (b != NUL) = true := fun b hb => by
    simpa using fun hz : b = NUL => h (hz ▸ hb)
  rw [cstr, padText, List.takeWhile_append_of_pos hall]
  cases 8 - text.length with
  | zero => simp
  | succ n => simp [List.replicate_succ, NUL]

/-- The length that `gl_des_ecb_crypt` returns for a text and its padding. -/
theorem strlen_padText {text : Bytes} (h : text.length ≤ 8) (hnul : NUL ∉ text) :
    (if (padText text).getD 7 0 = 0 then (cstr (padText text)).length else 8) = text.length := by
  rw [cstr_padText hnul]
  rcases Nat.lt_or_ge text.length 8 with hlt | hge
  · have hlast : (padText text).getD 7 0 = 0 := by
      rw [padText, List.getD_append_right _ _ _ _ (by omega), List.getD_replicate _ (by omega)]
    rw [if_pos hlast]
  · split
    case isTrue => rfl
    case isFalse => omega

/-- **Each direction gives back what the other was given, and decryption returns the length of the
text that was padded.** -/
theorem gl_des_ecb_crypt_round_trip (ctx : Ctx) (key : Bytes) :
    (∀ (source : Bytes) (mode : Bool), source.length = 8 →
      (glDesEcbCrypt (glDesSetkey ctx key)
        (glDesEcbCrypt (glDesSetkey ctx key) source mode).1 (!mode)).1 = source) ∧
    ∀ text : Bytes, text.length ≤ 8 → NUL ∉ text →
      glDesEcbCrypt (glDesSetkey ctx key)
        (glDesEcbCrypt (glDesSetkey ctx key) (padText text) false).1 true =
          (padText text, text.length) := by
  have hback : ∀ (source : Bytes) (mode : Bool), source.length = 8 →
      (glDesEcbCrypt (glDesSetkey ctx key)
        (glDesEcbCrypt (glDesSetkey ctx key) source mode).1 (!mode)).1 = source := by
    intro source mode h
    rw [glDesEcbCrypt_fst, glDesEcbCrypt_fst, block_back ctx key h mode]
  refine ⟨hback, fun text h hnul => ?_⟩
  have hblock := hback (padText text) false (length_padText h)
  refine Prod.ext hblock ?_
  rw [glDesEcbCrypt_fst] at hblock
  rw [Bool.not_false] at hblock
  rw [glDesEcbCrypt_snd, hblock]
  exact strlen_padText h hnul

example : (glDesEcbCrypt (glDesSetkey default [0x13, 0x34, 0x57, 0x79, 0x9b, 0xbc, 0xdf, 0xf1])
    [0x01, 0x23, 0x45, 0x67, 0x89, 0xab, 0xcd, 0xef] false).1 =
      [0x85, 0xe8, 0x13, 0x54, 0x0f, 0x0a, 0xb4, 0x05] := by decide +kernel

/-- A block there and back, and a text of three bytes. -/
theorem gl_des_ecb_crypt_text :
    let ctx := glDesSetkey default [1, 2, 3, 4, 5, 6, 7, 8]
    (glDesEcbCrypt ctx (glDesEcbCrypt ctx (List.replicate 8 9) true).1 false).1 = List.replicate 8 9 ∧
    glDesEcbCrypt ctx (glDesEcbCrypt ctx (padText [115, 104, 115]) false).1 true =
      ([115, 104, 115, 0, 0, 0, 0, 0], 3) :=
  ⟨(gl_des_ecb_crypt_round_trip default _).1 _ true rfl,
    (gl_des_ecb_crypt_round_trip default _).2 [115, 104, 115] (by decide) (by decide)⟩

/-! ## Triple-DES -/

theorem triple_passes {ctx : Ctx} {key1 key2 key3 : Bytes} (h : TripleKeys ctx key1 key2 key3)
    (one : Ctx) (source : Bytes) :
    gl3desEcbCrypt ctx source false =
      glDesEcbBlock (glDesSetkey one key3)
        (glDesEcbBlock (glDesSetkey one key2)
          (glDesEcbBlock (glDesSetkey one key1) source false) true) false ∧
    gl3desEcbCrypt ctx source true =
      glDesEcbBlock (glDesSetkey one key1)
        (glDesEcbBlock (glDesSetkey one key2)
          (glDesEcbBlock (glDesSetkey one key3) source true) false) true := by
  constructor
  · rw [gl3desEcbCrypt_eq, Ctx.keys, if_neg Bool.false_ne_true, h.encryptFirst, h.encryptSecond,
      h.encryptThird]
    simp only [(glDesEcbBlock_setkey one _ _).1, (glDesEcbBlock_setkey one _ _).2, read_write]
  · rw [gl3desEcbCrypt_eq, Ctx.keys, if_pos rfl, h.decryptFirst, h.decryptSecond, h.decryptThird]
    simp only [(glDesEcbBlock_setkey one _ _).1, (glDesEcbBlock_setkey one _ _).2, read_write]

theorem triple_back {ctx : Ctx} {key1 key2 key3 : Bytes} (h : TripleKeys ctx key1 key2 key3)
    {source : Bytes} (hlen : source.length = 8) (mode : Bool) :
    gl3desEcbCrypt ctx (gl3desEcbCrypt ctx source mode) (!mode) = source := by
  have hundo := fun (key block : Bytes) (hblock : block.length = 8) =>
    block_back ctx key hblock false
  have hredo := fun (key block : Bytes) (hblock : block.length = 8) =>
    block_back ctx key hblock true
  simp only [Bool.not_false, Bool.not_true] at hundo hredo
  cases mode with
  | false =>
    rw [Bool.not_false, (triple_passes h ctx source).1, (triple_passes h ctx _).2,
      hundo key3 _ (length_glDesEcbBlock ..), hredo key2 _ (length_glDesEcbBlock ..),
      hundo key1 source hlen]
  | true =>
    rw [Bool.not_true, (triple_passes h ctx source).2, (triple_passes h ctx _).1,
      hredo key1 _ (length_glDesEcbBlock ..), hundo key2 _ (length_glDesEcbBlock ..),
      hredo key3 source hlen]

/-- Three times the same key: the second pass takes the first back. -/
theorem triple_same {ctx : Ctx} {key : Bytes} (h : TripleKeys ctx key key key) (one : Ctx)
    {source : Bytes} (hlen : source.length = 8) (mode : Bool) :
    gl3desEcbCrypt ctx source mode = glDesEcbBlock (glDesSetkey one key) source mode := by
  cases mode with
  | false => rw [(triple_passes h one source).1, ← Bool.not_false, block_back one key hlen]
  | true => rw [(triple_passes h one source).2, ← Bool.not_true, block_back one key hlen]

/-- Contexts with the same keys of the passes do the same. -/
theorem triple_determined {ctx ctx' : Ctx} {key1 key2 key3 : Bytes}
    (h : TripleKeys ctx key1 key2 key3) (h' : TripleKeys ctx' key1 key2 key3) (source : Bytes)
    (mode : Bool) : gl3desEcbCrypt ctx source mode = gl3desEcbCrypt ctx' source mode := by
  cases mode with
  | false => rw [(triple_passes h ctx source).1, (triple_passes h' ctx source).1]
  | true => rw [(triple_passes h ctx source).2, (triple_passes h' ctx source).2]

/-- **Triple-DES is encryption under the first key, decryption under the second and encryption under
the third; two keys stand for three whose last is the first; each direction undoes the other; and
one key three times is DES.** -/
theorem gl_3des_ecb_crypt_passes (ctx one : Ctx) (key1 key2 key3 : Bytes) :
    (∀ source,
      gl3desEcbCrypt (gl3desSet3keys ctx key1 key2 key3) source false =
        glDesEcbBlock (glDesSetkey one key3)
          (glDesEcbBlock (glDesSetkey one key2)
            (glDesEcbBlock (glDesSetkey one key1) source false) true) false) ∧
    (∀ source mode, gl3desEcbCrypt (gl3desSet2keys ctx key1 key2) source mode =
      gl3desEcbCrypt (gl3desSet3keys ctx key1 key2 key1) source mode) ∧
    (∀ source mode, source.length = 8 →
      gl3desEcbCrypt (gl3desSet3keys ctx key1 key2 key3)
        (gl3desEcbCrypt (gl3desSet3keys ctx key1 key2 key3) source mode) (!mode) = source) ∧
    ∀ source mode, source.length = 8 →
      gl3desEcbCrypt (gl3desSet3keys ctx key1 key1 key1) source mode =
        glDesEcbBlock (glDesSetkey one key1) source mode := by
  refine ⟨fun source => ?_, fun source mode => ?_, fun source mode hlen => ?_,
    fun source mode hlen => ?_⟩
  · exact (triple_passes (set3keys_keys ctx key1 key2 key3) one source).1
  · exact triple_determined (set2keys_keys ctx key1 key2) (set3keys_keys ctx key1 key2 key1) source
      mode
  · exact triple_back (set3keys_keys ctx key1 key2 key3) hlen mode
  · exact triple_same (set3keys_keys ctx key1 key1 key1) one hlen mode

/-- Three different keys, and one key three times. -/
theorem gl_3des_ecb_crypt_eights :
    let ctx := gl3desSet3keys default [1, 2, 3, 4, 5, 6, 7, 8] [8, 7, 6, 5, 4, 3, 2, 1]
      (List.replicate 8 9)
    gl3desEcbCrypt ctx (gl3desEcbCrypt ctx (List.replicate 8 8) false) true = List.replicate 8 8 ∧
    gl3desEcbCrypt (gl3desSet3keys default (List.replicate 8 9) (List.replicate 8 9)
      (List.replicate 8 9)) (List.replicate 8 8) false =
        glDesEcbBlock (glDesSetkey default (List.replicate 8 9)) (List.replicate 8 8) false :=
  ⟨(gl_3des_ecb_crypt_passes default default _ _ _).2.2.1 _ false rfl,
    (gl_3des_ecb_crypt_passes default default (List.replicate 8 9) [] []).2.2.2 _ false rfl⟩

end Des
end Shs
