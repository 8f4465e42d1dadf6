import Mathlib.Data.List.Basic

/-!
# Lib.Records

A list of values in one string: their number, then each value behind its length. The numbers
stand in fields of a fixed width, so they are cut to what a field can hold. `unpack_pack_iff` says
which lists are read back, `unpack_isSome_iff` which strings can be read at all.
-/

namespace Records

/-- A number field over an alphabet: numbers below `bound`, others cut to their remainder. -/
structure Field (α : Type) where
  bound : Nat
  put : Nat → List α
  get : List α → Option (Nat × List α)
  get_put : ∀ n rest, get (put n ++ rest) = some (n % bound, rest)
  put_get : ∀ {s n rest}, get s = some (n, rest) → n < bound ∧ s = put n ++ rest

variable {α : Type} (f : Field α)

def records (vs : List (List α)) : List α := vs.flatMap fun v => f.put v.length ++ v

def pack (vs : List (List α)) : List α := f.put vs.length ++ records f vs

/-- The next `k` values, `none` if the string is too short. -/
def values : Nat → List α → Option (List (List α))
  | 0, _ => some []
  | k + 1, s =>
    match f.get s with
    | none => none
    | some (n, rest) =>
      if n ≤ rest.length then (values k (rest.drop n)).map (rest.take n :: ·) else none

def unpack (s : List α) : Option (List (List α)) :=
  match f.get s with
  | none => none
  | some (n, rest) => values f n rest

/-- A list whose length and whose values' lengths fit the fields. -/
def Fits (vs : List (List α)) : Prop := vs.length < f.bound ∧ ∀ v ∈ vs, v.length < f.bound

variable {f}

theorem records_cons (v : List α) (vs : List (List α)) :
    records f (v :: vs) = f.put v.length ++ (v ++ records f vs) := by
  rw [records, List.flatMap_cons, List.append_assoc, records]

theorem values_records {vs : List (List α)} (h : ∀ v ∈ vs, v.length < f.bound) (rest : List α) :
    values f vs.length (records f vs ++ rest) = some vs := by
  induction vs with
  | nil => rfl
  | cons v vs ih =>
    have hv := h v List.mem_cons_self
    rw [records_cons, List.append_assoc, List.length_cons, values, f.get_put,
      Nat.mod_eq_of_lt hv]
    have hle : v.length ≤ (v ++ records f vs ++ rest).length := by
      simp only [List.length_append]
      omega
    have htake : (v ++ records f vs ++ rest).take v.length = v := by
      rw [List.append_assoc, List.take_left]
    have hdrop : (v ++ records f vs ++ rest).drop v.length = records f vs ++ rest := by
      rw [List.append_assoc, List.drop_left]
    dsimp only
    rw [if_pos hle, hdrop, htake, ih fun w hw => h w (List.mem_cons_of_mem v hw)]
    rfl

theorem values_eq_some {k : Nat} {s : List α} {vs : List (List α)} (h : values f k s = some vs) :
    vs.length = k ∧ (∀ v ∈ vs, v.length < f.bound) ∧ ∃ rest, s = records f vs ++ rest := by
  induction k generalizing s vs with
  | zero =>
    cases h
    exact ⟨rfl, by simp, s, rfl⟩
  | succ k ih =>
    rw [values] at h
    cases hget : f.get s with
    | none =>
      rw [hget] at h
      cases h
    | some p =>
      obtain ⟨n, rest⟩ := p
      obtain ⟨hn, rfl⟩ := f.put_get hget
      rw [hget] at h
      dsimp only at h
      split at h
      · rename_i hle
        obtain ⟨ws, hws, rfl⟩ := Option.map_eq_some_iff.1 h
        obtain ⟨hlen, hall, rest', hrest⟩ := ih hws
        have htake : (rest.take n).length = n := List.length_take_of_le hle
        refine ⟨by rw [List.length_cons, hlen], ?_, rest', ?_⟩
        · intro v hv
          rcases List.mem_cons.1 hv with rfl | hv
          · omega
          · exact hall v hv
        · rw [records_cons, htake, List.append_assoc, List.append_assoc, ← hrest,
            List.take_append_drop]
      · cases h

theorem unpack_pack {vs : List (List α)} (h : Fits f vs) (rest : List α) :
    unpack f (pack f vs ++ rest) = some vs := by
  rw [unpack, pack, List.append_assoc, f.get_put, Nat.mod_eq_of_lt h.1]
  exact values_records h.2 rest

theorem unpack_eq_some {s : List α} {vs : List (List α)} (h : unpack f s = some vs) :
    Fits f vs ∧ ∃ rest, s = pack f vs ++ rest := by
  rw [unpack] at h
  cases hget : f.get s with
  | none =>
    rw [hget] at h
    cases h
  | some p =>
    obtain ⟨n, rest⟩ := p
    obtain ⟨hn, rfl⟩ := f.put_get hget
    rw [hget] at h
    obtain ⟨hlen, hall, rest', rfl⟩ := values_eq_some h
    refine ⟨⟨hlen ▸ hn, hall⟩, rest', ?_⟩
    rw [pack, hlen, List.append_assoc]

/-- A list is read back if and only if it fits. -/
theorem unpack_pack_iff (vs : List (List α)) : unpack f (pack f vs) = some vs ↔ Fits f vs := by
  constructor
  · intro h
    exact (unpack_eq_some h).1
  · intro h
    have hread := unpack_pack h []
    rwa [List.append_nil] at hread

/-- A string can be read if and only if it begins with a packed list that fits. -/
theorem unpack_isSome_iff (s : List α) :
    (unpack f s).isSome ↔ ∃ vs rest, Fits f vs ∧ s = pack f vs ++ rest := by
  rw [Option.isSome_iff_exists]
  constructor
  · rintro ⟨vs, h⟩
    obtain ⟨hfits, rest, hs⟩ := unpack_eq_some h
    exact ⟨vs, rest, hfits, hs⟩
  · rintro ⟨vs, rest, hfits, rfl⟩
    exact ⟨vs, unpack_pack hfits rest⟩

end Records
