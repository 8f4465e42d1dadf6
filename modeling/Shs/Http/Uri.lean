import Mathlib
import Shs.Core.Bytes

/-!
# Http.Uri

`http_encode_uri`, `http_decode_uri` and `http_parse_query`. The decoder undoes the encoder on
every byte string. The query parser keeps the first value of each name, but its loop ends at the
first piece without an equals sign (`parsePieces_getElem?`).
-/

namespace Shs
namespace Http

def PERCENT : Byte := 37
def AMP : Byte := 38
def PLUS : Byte := 43
def EQUALS : Byte := 61
def QUESTION : Byte := 63

/-- The table `uri_chars`. -/
def uriChars : List Nat :=
  [0, 0, 0, 0, 0, 0, 0, 0,   0, 0, 0, 0, 0, 0, 0, 0,
   0, 0, 0, 0, 0, 0, 0, 0,   0, 0, 0, 0, 0, 0, 0, 0,
   0, 0, 0, 0, 0, 0, 0, 0,   0, 0, 0, 0, 0, 1, 1, 0,
   1, 1, 1, 1, 1, 1, 1, 1,   1, 1, 0, 0, 0, 0, 0, 0,
   -- 64
   0, 1, 1, 1, 1, 1, 1, 1,   1, 1, 1, 1, 1, 1, 1, 1,
   1, 1, 1, 1, 1, 1, 1, 1,   1, 1, 1, 0, 0, 0, 0, 1,
   0, 1, 1, 1, 1, 1, 1, 1,   1, 1, 1, 1, 1, 1, 1, 1,
   1, 1, 1, 1, 1, 1, 1, 1,   1, 1, 1, 0, 0, 0, 1, 0]
  -- 128 and above
  ++ List.replicate 128 0

/-- `CHAR_IS_UNRESERVED`. -/
def charIsUnreserved (c : Byte) : Bool := uriChars.getD c.toNat 0 ≠ 0

/-- A digit of `%X`. -/
def upperHex (n : Nat) : Byte := if n < 10 then UInt8.ofNat (48 + n) else UInt8.ofNat (55 + n)

/-- The text `snprintf` writes for `%%%02X`. -/
def percentTriple (c : Byte) : Bytes :=
  [PERCENT, upperHex (c.toNat / 16), upperHex (c.toNat % 16)]

/-- `http_uriencode`. -/
def httpUriencode (value : Bytes) (spaceAsPlus : Bool) : Bytes :=
  value.flatMap fun c =>
    if charIsUnreserved c then [c]
    else if c = SP ∧ spaceAsPlus then [PLUS]
    else percentTriple c

def httpEncodeUri (value : Bytes) : Bytes := httpUriencode value false

/-- `isxdigit` in the C locale. -/
def isxdigit (b : Byte) : Bool :=
  isdigit b || (65 ≤ b && b ≤ 70) || (97 ≤ b && b ≤ 102)

/-- The value of a hexadecimal digit. -/
def xdigitValue (b : Byte) : Nat :=
  if isdigit b then b.toNat - 48 else if b ≤ 70 then b.toNat - 55 else b.toNat - 87

/-- `http_decode_uri_internal`. Behind the last byte the string holds a NUL, so a percent sign
with fewer than two bytes behind it is copied. -/
def httpDecodeUriInternal (decodePlus : Bool) : Bytes → Bytes
  | c :: a :: b :: rest =>
    if c = PLUS ∧ decodePlus then SP :: httpDecodeUriInternal decodePlus (a :: b :: rest)
    else if c = PERCENT ∧ isxdigit a ∧ isxdigit b then
      UInt8.ofNat (16 * xdigitValue a + xdigitValue b) :: httpDecodeUriInternal decodePlus rest
    else c :: httpDecodeUriInternal decodePlus (a :: b :: rest)
  | c :: rest => (if c = PLUS ∧ decodePlus then SP else c) :: httpDecodeUriInternal decodePlus rest
  | [] => []

def httpDecodeUri (value : Bytes) (decodePlus : Bool) : Bytes :=
  httpDecodeUriInternal decodePlus value

/-- `std::map<std::string, std::string>`. -/
abbrev HttpQuery := Std.ExtTreeMap Bytes Bytes

/-- The text before the first `b` of `s` and the text behind it, `none` when `s.find(b)` is
`npos`. -/
def splitFirst (b : Byte) (s : Bytes) : Option (Bytes × Bytes) :=
  if b ∈ s then some (s.takeWhile (· ≠ b), (s.dropWhile (· ≠ b)).tail) else none

/-- The loop of `http_parse_query`. -/
def parsePieces (output : HttpQuery) : List Bytes → HttpQuery
  | [] => output
  | kv :: rest =>
    match splitFirst EQUALS kv with
    | none => output
    | some (key, value) =>
      parsePieces (output.insertIfNew key (httpDecodeUriInternal false value)) rest

def httpParseQuery (uri : Bytes) (output : HttpQuery) : HttpQuery :=
  match splitFirst QUESTION uri with
  | none => output
  | some (_, query) => parsePieces output (query.splitOn AMP)

/-! ## The codec -/

/-- The unreserved characters: letters, digits, `-`, `.`, `_` and `~`. -/
def Unreserved (c : Byte) : Prop :=
  (65 ≤ c ∧ c ≤ 90) ∨ (97 ≤ c ∧ c ≤ 122) ∨ (48 ≤ c ∧ c ≤ 57) ∨ c = 45 ∨ c = 46 ∨ c = 95 ∨ c = 126

instance (c : Byte) : Decidable (Unreserved c) := by unfold Unreserved; infer_instance

/-- A text of unreserved characters and percent triples. -/
inductive UriText : Bytes → Prop
  | nil : UriText []
  | char {c : Byte} {s : Bytes} (hc : Unreserved c) (hs : UriText s) : UriText (c :: s)
  | triple {a b : Byte} {s : Bytes} (ha : isxdigit a) (hb : isxdigit b) (hs : UriText s) :
      UriText (PERCENT :: a :: b :: s)

theorem charIsUnreserved_iff (c : Byte) : charIsUnreserved c = true ↔ Unreserved c := by
  have htable : ∀ p ∈ uriChars.zipIdx, p.1 ≠ 0 ↔ Unreserved (UInt8.ofNat p.2) := by
    decide +kernel
  have hc := htable _ (mem_table (by decide +kernel) 0 c)
  rw [UInt8.ofNat_toNat] at hc
  rw [charIsUnreserved, decide_eq_true_iff]
  exact hc

theorem upperHex_isxdigit {n : Nat} (hn : n < 16) : isxdigit (upperHex n) = true := by
  revert n
  decide

theorem xdigitValue_upperHex {n : Nat} (hn : n < 16) : xdigitValue (upperHex n) = n := by
  revert n
  decide

theorem Unreserved.ne {c d : Byte} (hc : Unreserved c) (hd : ¬ Unreserved d) : c ≠ d := by
  rintro rfl
  exact hd hc

theorem httpEncodeUri_cons (c : Byte) (s : Bytes) :
    httpEncodeUri (c :: s) =
      (if charIsUnreserved c then [c] else percentTriple c) ++ httpEncodeUri s := by
  simp [httpEncodeUri, httpUriencode]

theorem httpDecodeUri_char (p : Bool) {c : Byte} (rest : Bytes) (hp : c ≠ PLUS)
    (hc : c ≠ PERCENT) :
    httpDecodeUriInternal p (c :: rest) = c :: httpDecodeUriInternal p rest := by
  match rest with
  | [] => simp [httpDecodeUriInternal, hp]
  | [a] => simp [httpDecodeUriInternal, hp]
  | a :: b :: rest => rw [httpDecodeUriInternal, if_neg (by simp [hp]), if_neg (by simp [hc])]

theorem httpDecodeUri_triple (p : Bool) (c : Byte) (rest : Bytes) :
    httpDecodeUriInternal p (percentTriple c ++ rest) = c :: httpDecodeUriInternal p rest := by
  have hlt : c.toNat < 256 := c.toNat_lt
  have hhi : c.toNat / 16 < 16 := by omega
  have hlo : c.toNat % 16 < 16 := by omega
  have hval : 16 * (c.toNat / 16) + c.toNat % 16 = c.toNat := by omega
  simp only [percentTriple, List.cons_append, List.nil_append]
  rw [httpDecodeUriInternal, if_neg (by decide +revert),
    if_pos ⟨rfl, upperHex_isxdigit hhi, upperHex_isxdigit hlo⟩, xdigitValue_upperHex hhi,
    xdigitValue_upperHex hlo, hval, UInt8.ofNat_toNat]

theorem httpDecodeUri_encode_append (p : Bool) (s rest : Bytes) :
    httpDecodeUriInternal p (httpEncodeUri s ++ rest) = s ++ httpDecodeUriInternal p rest := by
  induction s with
  | nil => rfl
  | cons c s ih =>
    rw [httpEncodeUri_cons, List.append_assoc]
    by_cases hc : charIsUnreserved c = true
    · have hu : Unreserved c := (charIsUnreserved_iff c).1 hc
      rw [if_pos hc, List.singleton_append,
        httpDecodeUri_char p _ (hu.ne (by decide)) (hu.ne (by decide)), ih, List.cons_append]
    · rw [if_neg hc, httpDecodeUri_triple, ih, List.cons_append]

theorem httpDecodeUri_encode (p : Bool) (s : Bytes) :
    httpDecodeUri (httpEncodeUri s) p = s := by
  have h := httpDecodeUri_encode_append p s []
  simpa [httpDecodeUri, httpDecodeUriInternal] using h

theorem httpEncodeUri_text (s : Bytes) : UriText (httpEncodeUri s) := by
  induction s with
  | nil => exact .nil
  | cons c s ih =>
    rw [httpEncodeUri_cons]
    by_cases hc : charIsUnreserved c = true
    · rw [if_pos hc]
      exact .char ((charIsUnreserved_iff c).1 hc) ih
    · have hlt : c.toNat < 256 := c.toNat_lt
      rw [if_neg hc]
      exact .triple (upperHex_isxdigit (by omega)) (upperHex_isxdigit (by omega)) ih

/-- Decoding undoes encoding, whether or not a plus sign stands for a blank, and the encoded text
holds only unreserved characters and percent triples. -/
theorem uri_codec (s : Bytes) (decodePlus : Bool) :
    httpDecodeUri (httpEncodeUri s) decodePlus = s ∧ UriText (httpEncodeUri s) :=
  ⟨httpDecodeUri_encode decodePlus s, httpEncodeUri_text s⟩

theorem UriText.not_mem {s : Bytes} (h : UriText s) {d : Byte} (hd : ¬ Unreserved d)
    (hp : d ≠ PERCENT) (hx : isxdigit d = false) : d ∉ s := by
  have hdigit : ∀ {a : Byte}, isxdigit a = true → d ≠ a := by
    rintro a ha rfl
    simp [hx] at ha
  induction h with
  | nil => simp
  | char hc _ ih => simp [(hc.ne hd).symm, ih]
  | triple ha hb _ ih => simp [hp, hdigit ha, hdigit hb, ih]

/-! ## The query -/

theorem splitFirst_none {b : Byte} {s : Bytes} (h : b ∉ s) : splitFirst b s = none := if_neg h

theorem splitFirst_append {b : Byte} {k : Bytes} (v : Bytes) (hk : b ∉ k) :
    splitFirst b (k ++ b :: v) = some (k, v) := by
  have hne : ∀ x ∈ k, (decide (x ≠ b)) = true := by
    rintro x hx
    have hxb : x ≠ b := by
      rintro rfl
      exact hk hx
    simpa using hxb
  have htake : (k ++ b :: v).takeWhile (· ≠ b) = k := by
    rw [List.takeWhile_append_of_pos hne]
    simp
  have hdrop : (k ++ b :: v).dropWhile (· ≠ b) = b :: v := by
    rw [List.dropWhile_append_of_pos hne]
    simp
  rw [splitFirst, if_pos (by simp), htake, hdrop, List.tail_cons]

theorem splitFirst_isSome (b : Byte) (s : Bytes) : (splitFirst b s).isSome = decide (b ∈ s) := by
  by_cases h : b ∈ s <;> simp [splitFirst, h]

theorem splitFirst_not_mem {b : Byte} {s k v : Bytes} (h : splitFirst b s = some (k, v)) :
    b ∉ k := by
  rw [splitFirst] at h
  split at h
  · cases h
    intro hk
    simpa using List.mem_takeWhile_imp hk
  · cases h

theorem splitFirst_subset {b c : Byte} {s k v : Bytes} (h : splitFirst b s = some (k, v))
    (hc : c ∈ k) : c ∈ s := by
  rw [splitFirst] at h
  split at h
  · cases h
    exact (List.takeWhile_prefix _).subset hc
  · cases h

/-- The pieces of the query of a uri; a uri without a question mark has none. -/
def queryPieces (uri : Bytes) : List Bytes :=
  match splitFirst QUESTION uri with
  | none => []
  | some (_, query) => query.splitOn AMP

/-- The names and the undecoded values of the pieces with an equals sign, in order. -/
def params (ps : List Bytes) : List (Bytes × Bytes) := ps.filterMap (splitFirst EQUALS)

def hasEquals (p : Bytes) : Bool := EQUALS ∈ p

/-- The pieces before the first one without an equals sign. -/
def early (ps : List Bytes) : List Bytes := ps.takeWhile hasEquals

def names (ps : List Bytes) : List Bytes := (params ps).map Prod.fst

theorem httpParseQuery_eq (uri : Bytes) (output : HttpQuery) :
    httpParseQuery uri output = parsePieces output (queryPieces uri) := by
  unfold httpParseQuery queryPieces
  split <;> rfl

theorem params_cons_some {p k v : Bytes} (ps : List Bytes) (h : splitFirst EQUALS p = some (k, v)) :
    params (p :: ps) = (k, v) :: params ps := by
  simp [params, h]

theorem params_filter (ps : List Bytes) : params (ps.filter hasEquals) = params ps := by
  rw [params, List.filterMap_filter]
  refine List.filterMap_congr fun p _ => ?_
  by_cases h : EQUALS ∈ p <;> simp [hasEquals, h, splitFirst]

theorem early_prefix (ps : List Bytes) : early ps <+: ps.filter hasEquals := by
  induction ps with
  | nil => simp [early]
  | cons p ps ih =>
    by_cases h : hasEquals p = true
    · simpa [early, h] using ih
    · simp [early, h]

theorem lookup_isSome_iff (l : List (Bytes × Bytes)) (n : Bytes) :
    (l.lookup n).isSome ↔ n ∈ l.map Prod.fst := by
  induction l with
  | nil => simp
  | cons x l ih =>
    obtain ⟨k, v⟩ := x
    rw [List.lookup_cons]
    by_cases hk : n = k
    · simp [hk]
    · rw [beq_false_of_ne hk, ih]
      simp [hk]

theorem lookup_append_left {l m : List (Bytes × Bytes)} {n : Bytes} (h : n ∈ l.map Prod.fst) :
    (l ++ m).lookup n = l.lookup n := by
  rw [List.lookup_append, Option.or_of_isSome ((lookup_isSome_iff l n).2 h)]

/-- What the loop leaves for a name: what the map held before, else the decoded value of the
first early piece with that name. -/
theorem parsePieces_getElem? (output : HttpQuery) (ps : List Bytes) (n : Bytes) :
    (parsePieces output ps)[n]? =
      output[n]?.or (((params (early ps)).lookup n).map (httpDecodeUriInternal false)) := by
  induction ps generalizing output with
  | nil => simp [parsePieces, early, params]
  | cons p ps ih =>
    by_cases h : EQUALS ∈ p
    · obtain ⟨⟨k, v⟩, hp⟩ := Option.isSome_iff_exists.1 ((splitFirst_isSome EQUALS p).trans
        (decide_eq_true h))
      have hearly : early (p :: ps) = p :: early ps := by simp [early, hasEquals, h]
      rw [parsePieces, hp, hearly, params_cons_some _ hp, List.lookup_cons]
      rw [ih, Std.ExtTreeMap.getElem?_insertIfNew]
      by_cases hn : n = k
      · subst hn
        cases ho : output[n]? with
        | none => simp [Std.ExtTreeMap.mem_iff_isSome_getElem?, ho]
        | some w => simp [Std.ExtTreeMap.mem_iff_isSome_getElem?, ho]
      · rw [if_neg (by simp [Ne.symm hn]), beq_false_of_ne hn]
    · simp [parsePieces, splitFirst_none h, early, hasEquals, h, params]

theorem httpParseQuery_getElem? (uri n : Bytes) :
    (httpParseQuery uri ∅)[n]? =
      ((params (early (queryPieces uri))).lookup n).map (httpDecodeUriInternal false) := by
  rw [httpParseQuery_eq, parsePieces_getElem?, Std.ExtTreeMap.getElem?_empty, Option.none_or]

/-- The names the loop reaches are those the output has. -/
theorem mem_httpParseQuery (uri n : Bytes) :
    n ∈ httpParseQuery uri ∅ ↔ n ∈ names (early (queryPieces uri)) := by
  rw [Std.ExtTreeMap.mem_iff_isSome_getElem?, httpParseQuery_getElem?, Option.isSome_map,
    lookup_isSome_iff, names]

/-- An early piece finds the same value among the early pieces as among all of them. -/
theorem lookup_early {ps : List Bytes} {n : Bytes} (h : n ∈ names (early ps)) :
    (params (early ps)).lookup n = (params ps).lookup n := by
  obtain ⟨t, ht⟩ := early_prefix ps
  have hp : params ps = params (early ps) ++ params t := by
    rw [← params_filter ps, ← ht, params, List.filterMap_append]
    rfl
  rw [hp, lookup_append_left h]

/-- Every name of a piece with an equals sign is decoded from the first such piece. -/
def FirstValues (uri : Bytes) : Prop :=
  ∀ n v, (params (queryPieces uri)).lookup n = some v →
    (httpParseQuery uri ∅)[n]? = some (httpDecodeUriInternal false v)

/-- The two queries differ only in pieces without an equals sign. -/
def SameParams (uri uri' : Bytes) : Prop :=
  (queryPieces uri).filter hasEquals = (queryPieces uri').filter hasEquals

theorem firstValues_iff (uri : Bytes) :
    FirstValues uri ↔ ∀ n ∈ names (queryPieces uri), n ∈ names (early (queryPieces uri)) := by
  constructor
  · intro h n hn
    obtain ⟨v, hv⟩ := Option.isSome_iff_exists.1 ((lookup_isSome_iff _ n).2 hn)
    rw [← mem_httpParseQuery, Std.ExtTreeMap.mem_iff_isSome_getElem?, h n v hv]
    rfl
  · intro h n v hv
    have hn : n ∈ names (queryPieces uri) := (lookup_isSome_iff _ n).1 (by rw [hv]; rfl)
    rw [httpParseQuery_getElem?, lookup_early (h n hn), hv]
    rfl

theorem sameOutput_iff {uri uri' : Bytes} (hs : SameParams uri uri') :
    httpParseQuery uri ∅ = httpParseQuery uri' ∅ ↔
      ∀ n, n ∈ names (early (queryPieces uri)) ↔ n ∈ names (early (queryPieces uri')) := by
  constructor
  · intro h n
    rw [← mem_httpParseQuery, ← mem_httpParseQuery, h]
  · intro h
    refine Std.ExtTreeMap.ext_getElem? fun n => ?_
    rw [httpParseQuery_getElem?, httpParseQuery_getElem?]
    by_cases hn : n ∈ names (early (queryPieces uri))
    · rw [lookup_early hn, lookup_early ((h n).1 hn), ← params_filter (queryPieces uri), hs,
        params_filter]
    · have hn' : n ∉ names (early (queryPieces uri')) := fun hc => hn ((h n).2 hc)
      rw [Option.not_isSome_iff_eq_none.1 ((lookup_isSome_iff _ n).not.2 hn),
        Option.not_isSome_iff_eq_none.1 ((lookup_isSome_iff _ n).not.2 hn')]

/-- The output holds the first value of every name exactly when no name occurs only behind the
first piece without an equals sign, and pieces without one leave the output as it is exactly when
they leave the names before the first of them as they are. -/
theorem query_is_local (uri : Bytes) :
    (FirstValues uri ↔ ∀ n ∈ names (queryPieces uri), n ∈ names (early (queryPieces uri))) ∧
    ∀ uri', SameParams uri uri' →
      (httpParseQuery uri ∅ = httpParseQuery uri' ∅ ↔
        ∀ n, n ∈ names (early (queryPieces uri)) ↔ n ∈ names (early (queryPieces uri'))) :=
  ⟨firstValues_iff uri, fun _ => sameOutput_iff⟩

/-- In `/?flag&a=1` the piece `flag` hides the parameter `a`; without that piece it is found. -/
theorem flag_hides_param :
    ¬ (∀ uri, FirstValues uri ∧
      ∀ uri', SameParams uri uri' → httpParseQuery uri ∅ = httpParseQuery uri' ∅) := by
  intro h
  have hv := (h (str "/?flag&a=1")).1 (str "a") (str "1") (by decide)
  have hne : (httpParseQuery (str "/?flag&a=1") ∅)[str "a"]? = none := by decide
  rw [hne] at hv
  cases hv

end Http
end Shs
