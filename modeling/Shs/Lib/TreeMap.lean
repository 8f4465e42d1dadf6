import Mathlib

/-!
# Lib.TreeMap

Ordered maps and the lists of their pairs: a lookup in the list is a lookup in the map, and
entering all pairs into an empty map gives the map again.
-/

namespace TreeMap

variable {κ β : Type} [Ord κ] [BEq κ] [LawfulBEq κ] [Std.TransOrd κ] [Std.LawfulEqOrd κ]

theorem lookup_toList (m : Std.ExtTreeMap κ β) (k : κ) : m.toList.lookup k = m[k]? := by
  cases hl : m.toList.lookup k with
  | none =>
    rw [List.lookup_eq_none_iff] at hl
    cases hm : m[k]? with
    | none => rfl
    | some v =>
      have hne := hl _ (Std.ExtTreeMap.mem_toList_iff_getElem?_eq_some.2 hm)
      simp at hne
  | some v =>
    obtain ⟨l₁, l₂, hsplit, -⟩ := List.lookup_eq_some_iff.1 hl
    have hmem : (k, v) ∈ m.toList := by rw [hsplit]; simp
    exact (Std.ExtTreeMap.mem_toList_iff_getElem?_eq_some.1 hmem).symm

theorem foldl_insertIfNew (l : List (κ × β)) (m : Std.ExtTreeMap κ β) (k : κ) :
    (l.foldl (fun m p => m.insertIfNew p.1 p.2) m)[k]? = m[k]?.or (l.lookup k) := by
  induction l generalizing m with
  | nil => simp
  | cons p l ih =>
    obtain ⟨n, v⟩ := p
    rw [List.foldl_cons, ih, List.lookup_cons, Std.ExtTreeMap.getElem?_insertIfNew]
    by_cases hk : k = n
    · subst hk
      cases hm : m[k]? <;> simp [Std.ExtTreeMap.mem_iff_isSome_getElem?, hm]
    · rw [if_neg (by simp [Ne.symm hk]), beq_false_of_ne hk]

/-- Entering all pairs of a map into an empty one gives the map. -/
theorem foldl_toList (m : Std.ExtTreeMap κ β) :
    m.toList.foldl (fun m p => m.insertIfNew p.1 p.2) ∅ = m := by
  refine Std.ExtTreeMap.ext_getElem? fun k => ?_
  rw [foldl_insertIfNew, lookup_toList, Std.ExtTreeMap.getElem?_empty, Option.none_or]

omit [BEq κ] [LawfulBEq κ] in
theorem nodup_toList (m : Std.ExtTreeMap κ β) : (m.toList.map (·.1)).Nodup := by
  rw [List.Nodup, List.pairwise_map]
  refine Std.ExtTreeMap.distinct_keys_toList.imp ?_
  intro p q hne heq
  exact hne (by rw [heq]; exact Std.ReflOrd.compare_self)

end TreeMap
