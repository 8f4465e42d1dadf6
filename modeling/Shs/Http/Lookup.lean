import Shs.Http.Fields

/-!
# Http.Lookup

`http_find_header` and `http_exist_header` compare `key.size()` characters, so they accept every
name that begins with the key. The module compares them with a lookup of the whole name.
-/

namespace Shs
namespace Http

/-- Two texts are equal when case is ignored. -/
def sameText (a b : Bytes) : Bool := a.map tolower == b.map tolower

/-- The entry's whole name is `name`, ignoring case. -/
def Header.called (name : Bytes) (h : Header) : Bool := !h.free && sameText (cstr h.key) name

/-- The value as the C functions read it. -/
def Header.text (h : Header) : Bytes := cstr h.value

/-- The value of the first entry called `name`. -/
def findExact (hs : List Header) (name : Bytes) : Option Bytes :=
  (hs.find? (Header.called name)).map Header.text

/-- `http_find_header` finds the value of the first entry called `name`, and it and
`http_exist_header` fail when no entry is. -/
def LookupExact (hs : List Header) (name : Bytes) : Prop :=
  httpFindHeader hs name = findExact hs name ∧
    httpExistHeader hs name = hs.any (Header.called name)

/-- The first entry that begins with the name or is called by it does both, or the first entry of
the other kind behind it has the same text. -/
def Settled (name : Bytes) : List Header → Prop
  | [] => True
  | h :: hs =>
    match h.named name, h.called name with
    | true, true => True
    | false, false => Settled name hs
    | true, false => (hs.find? (Header.called name)).map Header.text = some h.text
    | false, true => (hs.find? (Header.named name)).map Header.text = some h.text

theorem httpFindHeader_cons (h : Header) (hs : List Header) (name : Bytes) :
    httpFindHeader (h :: hs) name =
      if h.named name then some h.text else httpFindHeader hs name := by
  rw [httpFindHeader, List.find?_cons]
  cases h.named name <;> rfl

theorem findExact_cons (h : Header) (hs : List Header) (name : Bytes) :
    findExact (h :: hs) name = if h.called name then some h.text else findExact hs name := by
  rw [findExact, List.find?_cons]
  cases h.called name <;> rfl

theorem any_eq_isSome (p : Header → Bool) (hs : List Header) :
    hs.any p = ((hs.find? p).map Header.text).isSome := by
  rw [Option.isSome_map, List.isSome_find?]

/-- The two searches agree on the value, hence on whether there is one. -/
theorem lookupExact_iff (hs : List Header) (name : Bytes) :
    LookupExact hs name ↔ httpFindHeader hs name = findExact hs name := by
  refine ⟨And.left, fun h => ⟨h, ?_⟩⟩
  rw [httpExistHeader, any_eq_isSome, any_eq_isSome]
  exact congrArg Option.isSome h

theorem find_eq_exact_iff (hs : List Header) (name : Bytes) :
    httpFindHeader hs name = findExact hs name ↔ Settled name hs := by
  induction hs with
  | nil => simp [httpFindHeader, findExact, Settled]
  | cons h hs ih =>
    rw [httpFindHeader_cons, findExact_cons, Settled]
    cases hn : h.named name <;> cases hc : h.called name
    · simpa using ih
    · simp only [Bool.false_eq_true, if_false, if_true]
      exact Iff.rfl
    · simp only [Bool.false_eq_true, if_false, if_true]
      exact eq_comm
    · simp

/-! ## What the comparison accepts -/

theorem tolower_eq_nul (b : Byte) : tolower b = NUL ↔ b = NUL :=
  byte_forall (P := fun b => tolower b = NUL ↔ b = NUL) (by decide +kernel) b

/-- On texts without NULs the comparison asks whether `a` begins with `name`. -/
theorem strncasecmpEq_iff {a name : Bytes} (ha : NUL ∉ a) (hname : NUL ∉ name) :
    strncasecmpEq name.length a name = true ↔ name.map tolower <+: a.map tolower := by
  induction name generalizing a with
  | nil => simp [strncasecmpEq]
  | cons y name ih =>
    have hy : y ≠ NUL := fun h => hname (h ▸ List.mem_cons_self)
    have hname' : NUL ∉ name := fun h => hname (List.mem_cons_of_mem y h)
    cases a with
    | nil =>
      have hne : tolower NUL ≠ tolower y := fun h => hy ((tolower_eq_nul y).1 h.symm)
      simp [strncasecmpEq, hne]
    | cons x a =>
      have hx : x ≠ NUL := fun h => ha (h ▸ List.mem_cons_self)
      have ha' : NUL ∉ a := fun h => ha (List.mem_cons_of_mem x h)
      by_cases hxy : tolower x = tolower y
      · simp [strncasecmpEq, hxy, hx, ih ha' hname', List.cons_prefix_cons]
      · simp [strncasecmpEq, hxy, List.cons_prefix_cons, Ne.symm hxy]

/-- An entry passes the comparison when its name begins with the key. -/
theorem named_iff_begins {name : Bytes} (hname : NUL ∉ name) (h : Header) :
    h.named name = true ↔
      h.key ≠ [] ∧ name.map tolower <+: (cstr h.key).map tolower := by
  rw [Header.named, Bool.and_eq_true, strncasecmpEq_iff (nul_not_mem_cstr h.key) hname]
  simp

/-- A key other than the empty one accepts every entry called by it. -/
theorem named_of_called {name : Bytes} (hne : name ≠ []) (hname : NUL ∉ name) {h : Header}
    (hc : h.called name = true) : h.named name = true := by
  have htext : (cstr h.key).map tolower = name.map tolower := by
    simpa [sameText] using (Bool.and_eq_true_iff.1 hc).2
  refine (named_iff_begins hname h).2 ⟨?_, htext ▸ List.prefix_rfl⟩
  intro hkey
  rw [hkey] at htext
  exact hne (List.map_eq_nil_iff.1 htext.symm)

/-! ## The decisions taken from a header -/

/-- The length a Content-Length text gives. -/
def lengthOf : Option Bytes → Option Nat
  | none => none
  | some t =>
    if t = [] ∨ (strtoll t).2 ≠ [] ∨ (strtoll t).1 ≤ 0 then none else some (strtoll t).1.toNat

/-- A header text begins with a word. -/
def saysWord (word : Bytes) (t : Option Bytes) : Bool :=
  t.any fun t => strncasecmpEq word.length t word

theorem httpGetBodyLength_eq (q : HttpReq) :
    httpGetBodyLength q = lengthOf (httpFindHeader q.inputHeaders (str "Content-Length")) := by
  unfold httpGetBodyLength
  split
  · rename_i h
    rw [h]
    rfl
  · rename_i t h
    rw [h]
    rfl

theorem httpIsChunked_eq (q : HttpReq) :
    httpIsChunked q =
      saysWord (str "chunked") (httpFindHeader q.inputHeaders (str "Transfer-Encoding")) := by
  unfold httpIsChunked
  split <;> rename_i h <;> rw [h] <;> rfl

theorem httpIsConnectionClose_eq (hs : List Header) :
    httpIsConnectionClose hs = saysWord (str "close") (httpFindHeader hs (str "Connection")) := by
  unfold httpIsConnectionClose
  split <;> rename_i h <;> rw [h] <;> rfl

theorem httpIsConnectionKeepalive_eq (hs : List Header) :
    httpIsConnectionKeepalive hs =
      saysWord (str "keep-alive") (httpFindHeader hs (str "Connection")) := by
  unfold httpIsConnectionKeepalive
  split <;> rename_i h <;> rw [h] <;> rfl

/-- The lookup is exact on a table exactly when the first entry beginning with the key settles it;
then the body length, the transfer encoding and the connection mode come from the headers with
just these names. -/
theorem header_lookup (hs : List Header) :
    (∀ name, LookupExact hs name ↔ Settled name hs) ∧
    (∀ q : HttpReq, q.inputHeaders = hs → Settled (str "Content-Length") hs →
      httpGetBodyLength q = lengthOf (findExact hs (str "Content-Length"))) ∧
    (∀ q : HttpReq, q.inputHeaders = hs → Settled (str "Transfer-Encoding") hs →
      httpIsChunked q = saysWord (str "chunked") (findExact hs (str "Transfer-Encoding"))) ∧
    (Settled (str "Connection") hs →
      httpIsConnectionClose hs = saysWord (str "close") (findExact hs (str "Connection")) ∧
      httpIsConnectionKeepalive hs =
        saysWord (str "keep-alive") (findExact hs (str "Connection"))) := by
  refine ⟨fun name => (lookupExact_iff hs name).trans (find_eq_exact_iff hs name), ?_, ?_, ?_⟩
  · rintro q rfl h
    rw [httpGetBodyLength_eq, (find_eq_exact_iff _ _).2 h]
  · rintro q rfl h
    rw [httpIsChunked_eq, (find_eq_exact_iff _ _).2 h]
  · intro h
    rw [httpIsConnectionClose_eq, httpIsConnectionKeepalive_eq, (find_eq_exact_iff _ _).2 h]
    exact ⟨rfl, rfl⟩

/-- `Content-Length-Hint: 7` in front of `Content-Length: 5` makes the body seven bytes long. -/
theorem longer_name_found :
    ¬ (∀ (hs : List Header) (name : Bytes), LookupExact hs name) ∧
      httpGetBodyLength { inputHeaders :=
        [⟨str "Content-Length-Hint", str "7"⟩, ⟨str "Content-Length", str "5"⟩] } = some 7 := by
  refine ⟨fun h => ?_, by decide⟩
  have hfind := (h [⟨str "Content-Length-Hint", str "7"⟩, ⟨str "Content-Length", str "5"⟩]
    (str "Content-Length")).1
  revert hfind
  decide

end Http
end Shs
