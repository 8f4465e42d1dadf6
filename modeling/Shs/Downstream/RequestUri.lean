import Shs.Http.Uri

/-!
# Downstream.RequestUri

`RequestUri` writes a map of parameters behind a base uri. It encodes a value up to its first NUL
and a name not at all, so `http_parse_query` returns the map only when no name holds a separator
and no value a NUL (`query_round_trip`).
-/

namespace Shs
namespace Downstream

open Http

structure RequestUri where
  baseUri : Bytes
  query   : HttpQuery := ∅

/-- `AddQuery(const map<string, string>&)`. -/
def RequestUri.addQueryMap (r : RequestUri) (query : HttpQuery) : RequestUri :=
  { r with query := query.foldl (fun q n v => q.insertIfNew n v) r.query }

/-- `AddQuery(const string&, const string&)`. -/
def RequestUri.addQuery (r : RequestUri) (name value : Bytes) : RequestUri :=
  { r with query := r.query.insert name value }

/-- The loop of `RequestUri::uri`; `first` is `iter == query_.begin()`. -/
def uriLoop (first : Bool) (uri : Bytes) : List (Bytes × Bytes) → Bytes
  | [] => uri
  | (name, value) :: rest =>
    let encodedValue := httpEncodeUri (cstr value)
    if first then uriLoop false (uri ++ QUESTION :: name ++ EQUALS :: encodedValue) rest
    else uriLoop false (uri ++ AMP :: name ++ EQUALS :: encodedValue) rest

def RequestUri.uri (r : RequestUri) : Bytes := uriLoop true r.baseUri r.query.toList

/-- The text of one parameter. -/
def piece (p : Bytes × Bytes) : Bytes := p.1 ++ EQUALS :: httpEncodeUri (cstr p.2)

theorem uriLoop_false (uri : Bytes) (l : List (Bytes × Bytes)) :
    uriLoop false uri l = uri ++ l.flatMap fun p => AMP :: piece p := by
  induction l generalizing uri with
  | nil => simp [uriLoop]
  | cons p l ih =>
    obtain ⟨n, v⟩ := p
    simp [uriLoop, ih, piece]

theorem uriLoop_true (uri : Bytes) (p : Bytes × Bytes) (l : List (Bytes × Bytes)) :
    uriLoop true uri (p :: l) =
      uri ++ QUESTION :: (piece p ++ l.flatMap fun p => AMP :: piece p) := by
  obtain ⟨n, v⟩ := p
  simp [uriLoop, uriLoop_false, piece]

/-! ## Splitting -/

theorem splitOn_pieces {p : Bytes} {l : List Bytes} (hp : AMP ∉ p) (hl : ∀ q ∈ l, AMP ∉ q) :
    (p ++ l.flatMap fun q => AMP :: q).splitOn AMP = p :: l := by
  induction l generalizing p with
  | nil => simpa using List.splitOn_eq_singleton hp
  | cons q l ih =>
    have hq : AMP ∉ q := hl q List.mem_cons_self
    have hrest : ∀ x ∈ l, AMP ∉ x := fun x hx => hl x (List.mem_cons_of_mem q hx)
    rw [List.flatMap_cons, List.cons_append, List.splitOn_append_cons_self_of_not_mem hp,
      ih hq hrest]

theorem not_mem_of_mem_splitOn {b : Byte} {s p : Bytes} (hp : p ∈ s.splitOn b) : b ∉ p := by
  induction s generalizing p with
  | nil =>
    rw [List.splitOn_nil, List.mem_singleton] at hp
    simp [hp]
  | cons c s ih =>
    rw [List.splitOn_cons_eq_if_modifyHead] at hp
    split at hp
    · rcases List.mem_cons.1 hp with rfl | hp
      · simp
      · exact ih hp
    · rename_i hcb
      obtain ⟨q, qs, hqs⟩ := List.exists_cons_of_ne_nil (List.splitOn_ne_nil b s)
      rw [hqs, List.modifyHead_cons] at hp
      rcases List.mem_cons.1 hp with rfl | hp
      · have hq : b ∉ q := ih (by simp [hqs])
        simp [hq, Ne.symm (show c ≠ b by simpa using hcb)]
      · exact ih (by simp [hqs, hp])

theorem queryPieces_amp {uri p : Bytes} (hp : p ∈ queryPieces uri) : AMP ∉ p := by
  unfold queryPieces at hp
  split at hp
  · cases hp
  · exact not_mem_of_mem_splitOn hp

/-- A name the parser stores holds neither separator. -/
theorem output_name {uri n : Bytes} (hn : n ∈ httpParseQuery uri ∅) : AMP ∉ n ∧ EQUALS ∉ n := by
  rw [mem_httpParseQuery, names, List.mem_map] at hn
  obtain ⟨⟨k, v⟩, hkv, rfl⟩ := hn
  obtain ⟨p, hp, hsplit⟩ := List.mem_filterMap.1 hkv
  have hpiece : p ∈ queryPieces uri := (List.takeWhile_prefix _).subset hp
  exact ⟨fun h => queryPieces_amp hpiece (splitFirst_subset hsplit h), splitFirst_not_mem hsplit⟩

/-! ## Maps -/

theorem lookup_toList (m : HttpQuery) (n : Bytes) : m.toList.lookup n = m[n]? := by
  cases h : m.toList.lookup n with
  | none =>
    cases hm : m[n]? with
    | none => rfl
    | some v =>
      have hmem : (n, v) ∈ m.toList := Std.ExtTreeMap.mem_toList_iff_getElem?_eq_some.2 hm
      have hsome := (lookup_isSome_iff m.toList n).2 (List.mem_map_of_mem hmem)
      simp [h] at hsome
  | some v =>
    obtain ⟨l, l', hl, -⟩ := List.lookup_eq_some_iff.1 h
    have hmem : (n, v) ∈ m.toList := by simp [hl]
    exact (Std.ExtTreeMap.mem_toList_iff_getElem?_eq_some.1 hmem).symm

theorem foldl_insertIfNew (l : List (Bytes × Bytes)) (init : HttpQuery) (n : Bytes) :
    (l.foldl (fun q p => q.insertIfNew p.1 p.2) init)[n]? = init[n]?.or (l.lookup n) := by
  induction l generalizing init with
  | nil => simp
  | cons p l ih =>
    obtain ⟨k, v⟩ := p
    rw [List.foldl_cons, ih, Std.ExtTreeMap.getElem?_insertIfNew, List.lookup_cons]
    by_cases hn : n = k
    · subst hn
      cases ho : init[n]? with
      | none => simp [Std.ExtTreeMap.mem_iff_isSome_getElem?, ho]
      | some w => simp [Std.ExtTreeMap.mem_iff_isSome_getElem?, ho]
    · rw [if_neg (by simp [Ne.symm hn]), beq_false_of_ne hn]

theorem addQueryMap_empty (base : Bytes) (m : HttpQuery) :
    (RequestUri.addQueryMap { baseUri := base } m).query = m := by
  refine Std.ExtTreeMap.ext_getElem? fun n => ?_
  show (m.foldl (fun (q : HttpQuery) n v => q.insertIfNew n v) ∅)[n]? = m[n]?
  rw [Std.ExtTreeMap.foldl_eq_foldl_toList, foldl_insertIfNew, Std.ExtTreeMap.getElem?_empty,
    Option.none_or, lookup_toList]

/-! ## The round trip -/

theorem encoded_no_separator (v : Bytes) : AMP ∉ httpEncodeUri v :=
  (httpEncodeUri_text v).not_mem (by decide) (by decide) (by decide)

theorem piece_no_amp {p : Bytes × Bytes} (hp : AMP ∉ p.1) : AMP ∉ piece p := by
  simp only [piece, List.mem_append, List.mem_cons, not_or]
  exact ⟨hp, by decide, encoded_no_separator _⟩

theorem splitFirst_piece {p : Bytes × Bytes} (hp : EQUALS ∉ p.1) :
    splitFirst EQUALS (piece p) = some (p.1, httpEncodeUri (cstr p.2)) :=
  splitFirst_append _ hp

/-- The pieces the parser finds in the written uri, when no name holds an ampersand. -/
theorem queryPieces_uri {base : Bytes} (hbase : QUESTION ∉ base) {l : List (Bytes × Bytes)}
    (hl : ∀ p ∈ l, AMP ∉ p.1) : queryPieces (uriLoop true base l) = l.map piece := by
  cases l with
  | nil => simp [uriLoop, queryPieces, splitFirst_none hbase]
  | cons p l =>
    have hp : AMP ∉ piece p := piece_no_amp (hl p List.mem_cons_self)
    have hrest : ∀ q ∈ l.map piece, AMP ∉ q := by
      intro q hq
      obtain ⟨x, hx, rfl⟩ := List.mem_map.1 hq
      exact piece_no_amp (hl x (List.mem_cons_of_mem p hx))
    have hsplit := splitOn_pieces hp hrest
    rw [List.flatMap_map] at hsplit
    rw [queryPieces, uriLoop_true, splitFirst_append _ hbase]
    exact hsplit

theorem params_pieces {l : List (Bytes × Bytes)} (hl : ∀ p ∈ l, EQUALS ∉ p.1) :
    params (early (l.map piece)) = l.map fun p => (p.1, httpEncodeUri (cstr p.2)) := by
  have hall : ∀ q ∈ l.map piece, hasEquals q = true := by
    intro q hq
    obtain ⟨x, _, rfl⟩ := List.mem_map.1 hq
    simp [hasEquals, piece]
  rw [early, List.takeWhile_eq_self_iff.2 hall, params, List.filterMap_map,
    ← List.filterMap_eq_map]
  refine List.filterMap_congr fun p hp => ?_
  exact splitFirst_piece (hl p hp)

theorem lookup_map_snd (f : Bytes → Bytes) (l : List (Bytes × Bytes)) (n : Bytes) :
    (l.map fun p => (p.1, f p.2)).lookup n = (l.lookup n).map f := by
  induction l with
  | nil => rfl
  | cons p l ih =>
    rw [List.map_cons, List.lookup_cons, List.lookup_cons, ih]
    split <;> rfl

/-- Clean names come back, each with its value up to the first NUL. -/
theorem parse_uri {base : Bytes} (hbase : QUESTION ∉ base) {m : HttpQuery}
    (hm : ∀ n v : Bytes, m[n]? = some v → AMP ∉ n ∧ EQUALS ∉ n) (n : Bytes) :
    (httpParseQuery (uriLoop true base m.toList) ∅)[n]? = m[n]?.map cstr := by
  have hclean : ∀ p ∈ m.toList, AMP ∉ p.1 ∧ EQUALS ∉ p.1 := by
    intro p hp
    exact hm p.1 p.2 (Std.ExtTreeMap.mem_toList_iff_getElem?_eq_some.1 hp)
  rw [httpParseQuery_getElem?, queryPieces_uri hbase fun p hp => (hclean p hp).1,
    params_pieces fun p hp => (hclean p hp).2,
    lookup_map_snd (fun v => httpEncodeUri (cstr v)), lookup_toList, Option.map_map]
  refine Option.map_congr fun v _ => ?_
  exact httpDecodeUri_encode false (cstr v)

/-- The parser gives back the map that `RequestUri` wrote exactly when no name holds an ampersand
or an equals sign and no value holds a NUL. -/
theorem query_round_trip (base : Bytes) (hbase : QUESTION ∉ base) (m : HttpQuery) :
    httpParseQuery (RequestUri.addQueryMap { baseUri := base } m).uri ∅ = m ↔
      ∀ n v : Bytes, m[n]? = some v → AMP ∉ n ∧ EQUALS ∉ n ∧ NUL ∉ v := by
  have huri : (RequestUri.addQueryMap { baseUri := base } m).uri = uriLoop true base m.toList := by
    rw [RequestUri.uri, addQueryMap_empty]
    rfl
  rw [huri]
  constructor
  · intro h
    have hname : ∀ n v : Bytes, m[n]? = some v → AMP ∉ n ∧ EQUALS ∉ n := by
      intro n v hv
      refine output_name (show n ∈ httpParseQuery (uriLoop true base m.toList) ∅ from ?_)
      rw [h, Std.ExtTreeMap.mem_iff_isSome_getElem?, hv]
      rfl
    intro n v hv
    have hval : m[n]? = m[n]?.map cstr := by
      rw [← parse_uri hbase hname n, h]
    rw [hv, Option.map_some, Option.some.injEq] at hval
    exact ⟨(hname n v hv).1, (hname n v hv).2, (cstr_eq_self_iff v).1 hval.symm⟩
  · intro h
    refine Std.ExtTreeMap.ext_getElem? fun n => ?_
    rw [parse_uri hbase fun n v hv => ⟨(h n v hv).1, (h n v hv).2.1⟩]
    cases hv : m[n]? with
    | none => rfl
    | some v => rw [Option.map_some, (cstr_eq_self_iff v).2 (h n v hv).2.2]

theorem query_round_trip_ab :
    httpParseQuery (RequestUri.addQueryMap { baseUri := str "/s" }
      ((∅ : HttpQuery).insert (str "q") (str "a&b"))).uri ∅ =
        (∅ : HttpQuery).insert (str "q") (str "a&b") := by
  refine (query_round_trip (str "/s") (by decide) _).2 ?_
  intro n v hv
  rw [Std.ExtTreeMap.getElem?_insert] at hv
  split at hv
  · rename_i hn
    cases hv
    rw [← Std.compare_eq_iff_eq.1 hn]
    decide
  · simp at hv

/-- A name with an ampersand in it comes back as nothing: `/s?a&b=1` starts with a piece without
an equals sign. -/
theorem name_with_separator_lost :
    ¬ ∀ (base : Bytes) (m : HttpQuery), QUESTION ∉ base →
      httpParseQuery (RequestUri.addQueryMap { baseUri := base } m).uri ∅ = m := by
  intro h
  have hm := h (str "/s") ((∅ : HttpQuery).insert (str "a&b") (str "1")) (by decide)
  have hget := congrArg (fun q : HttpQuery => q[str "a&b"]?) hm
  revert hget
  decide

end Downstream
end Shs
