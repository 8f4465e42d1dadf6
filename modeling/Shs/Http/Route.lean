import Shs.Http.Uri

/-!
# Http.Route

How `HttpReqHandler` finds the module and the method of a request in its uri. It looks for the
second slash in the whole uri and for the question mark behind it, so a slash in the query counts.
-/

namespace Shs
namespace Http

def SLASH : Byte := 47

/-- What the routing reads of the configuration and the flags. -/
structure RouteConfig where
  defaultModule : Bytes
  defaultMethod : Bytes
  rewritePathToDefault : Bool
  deriving DecidableEq, Repr

/-- The last name, in the text from `pstart` on. The byte before that text is a slash, which is
what `*(pend - 1)` reads when the question mark comes first. -/
def lastName (pstart : Bytes) : Option Bytes :=
  match splitFirst QUESTION pstart with
  | some (name, _) =>
    if name.getLast?.getD SLASH = SLASH then
      if 1 < name.length then some name.dropLast else none
    else if name ≠ [] then some name
    else none
  | none => if pstart ≠ [] then some pstart else none

/-- `m_name`, with `none` where the handler goes to `failed`. -/
def routeNames (reqUri : Bytes) : Option (List Bytes) :=
  match reqUri with
  | [] => none
  | b :: pstart =>
    if b ≠ SLASH then none
    else
      match splitFirst SLASH pstart with
      | some (name, pstart) => some (name :: (lastName pstart).toList)
      | none => some (lastName pstart).toList

/-- `module_name_` and `method_name_`. -/
def routeSelect (cfg : RouteConfig) : List Bytes → Option (Bytes × Bytes)
  | [] => some (cfg.defaultModule, cfg.defaultMethod)
  | [method] => some (cfg.defaultModule, method)
  | [module, method] =>
    some (if cfg.rewritePathToDefault then cfg.defaultModule else module, method)
  | _ => none

/-- The module and the method that `HttpReqHandler` invokes for a uri, `none` where it replies
with 400. -/
def route (cfg : RouteConfig) (uri : Bytes) : Option (Bytes × Bytes) :=
  (routeNames (cstr uri)).bind (routeSelect cfg)

/-- The uri up to its first question mark. -/
def uriPath (uri : Bytes) : Bytes := (cstr uri).takeWhile (· ≠ QUESTION)

/-- The first question mark and what follows it. -/
def uriQuery (uri : Bytes) : Bytes := (cstr uri).dropWhile (· ≠ QUESTION)

/-- The path begins with a slash and has another one. -/
def TwoSlashes (p : Bytes) : Prop := ∃ a b, p = SLASH :: a ++ SLASH :: b

/-- The path begins with a slash, has another one and ends with a third. -/
def Trailing (p : Bytes) : Prop := ∃ a b, p = SLASH :: a ++ SLASH :: b ++ [SLASH]

/-! ## Names of a path and a query -/

/-- A query: nothing, or a question mark and a text. -/
def IsQuery (t : Bytes) : Prop := t = [] ∨ ∃ q, t = QUESTION :: q

theorem uri_parts (uri : Bytes) :
    cstr uri = uriPath uri ++ uriQuery uri ∧ QUESTION ∉ uriPath uri ∧ IsQuery (uriQuery uri) := by
  refine ⟨(List.takeWhile_append_dropWhile).symm, ?_, ?_⟩
  · intro hm
    have := List.mem_takeWhile_imp hm
    simp at this
  · unfold IsQuery
    cases hq : uriQuery uri with
    | nil => exact .inl rfl
    | cons b q =>
      refine .inr ⟨q, ?_⟩
      have hb := List.head?_dropWhile_not (fun x => decide (x ≠ QUESTION)) (cstr uri)
      rw [show (cstr uri).dropWhile (fun x => decide (x ≠ QUESTION)) = b :: q from hq] at hb
      simp only [List.head?_cons] at hb
      have heq : b = QUESTION := by simpa using hb
      rw [heq]

theorem lastName_plain {b : Bytes} (hb : QUESTION ∉ b) :
    lastName b = if b = [] then none else some b := by
  rw [lastName, splitFirst_none hb]
  by_cases h : b = [] <;> simp [h]

theorem lastName_query {b : Bytes} (hb : QUESTION ∉ b) (hlast : b.getLast? ≠ some SLASH)
    (q : Bytes) : lastName (b ++ QUESTION :: q) = if b = [] then none else some b := by
  rw [lastName, splitFirst_append q hb]
  dsimp only
  cases b with
  | nil => rfl
  | cons x b =>
    have hne : (x :: b).getLast?.getD SLASH ≠ SLASH := by
      cases hx : (x :: b).getLast? with
      | none => simp at hx
      | some y =>
        rw [hx] at hlast
        simpa using hlast
    rw [if_neg hne, if_pos (List.cons_ne_nil x b), if_neg (List.cons_ne_nil x b)]

theorem lastName_trailing {b : Bytes} (hb : QUESTION ∉ b) (q : Bytes) :
    lastName (b ++ [SLASH] ++ QUESTION :: q) = if b = [] then none else some b := by
  have hfree : QUESTION ∉ b ++ [SLASH] := by
    rw [List.mem_append, List.mem_singleton]
    rintro (h | h)
    · exact hb h
    · exact absurd h (by decide)
  rw [lastName, splitFirst_append q hfree]
  dsimp only
  rw [List.getLast?_append, List.getLast?_singleton, if_pos (by simp)]
  cases b with
  | nil => rfl
  | cons x b => rw [if_pos (by simp), if_neg (List.cons_ne_nil x b), List.dropLast_concat]

/-- Without a slash at its end the text before the query is the name. -/
theorem lastName_of {b t : Bytes} (hb : QUESTION ∉ b) (hlast : b.getLast? ≠ some SLASH)
    (ht : IsQuery t) : lastName (b ++ t) = if b = [] then none else some b := by
  rcases ht with rfl | ⟨q, rfl⟩
  · rw [List.append_nil, lastName_plain hb]
  · exact lastName_query hb hlast q

/-- A slash at its end goes, but only where a query follows. -/
theorem lastName_slash {b t : Bytes} (hb : QUESTION ∉ b ++ [SLASH]) (ht : IsQuery t) :
    lastName (b ++ [SLASH] ++ t) =
      if t = [] then some (b ++ [SLASH]) else if b = [] then none else some b := by
  rcases ht with rfl | ⟨q, rfl⟩
  · rw [List.append_nil, lastName_plain hb, if_neg (by simp), if_pos rfl]
  · rw [if_neg (List.cons_ne_nil _ _)]
    exact lastName_trailing (fun h => hb (List.mem_append_left _ h)) q

theorem routeNames_two {a : Bytes} (ha : SLASH ∉ a) (b t : Bytes) :
    routeNames (SLASH :: a ++ SLASH :: b ++ t) = some (a :: (lastName (b ++ t)).toList) := by
  rw [List.append_assoc, List.cons_append, List.cons_append, routeNames, if_neg (by simp),
    splitFirst_append _ ha]

theorem routeNames_one {r : Bytes} (hr : SLASH ∉ r) :
    routeNames (SLASH :: r) = some (lastName r).toList := by
  rw [routeNames, if_neg (by simp), splitFirst_none hr]

theorem routeNames_other {p t : Bytes} (hp : p.head? ≠ some SLASH) (ht : IsQuery t) :
    routeNames (p ++ t) = none := by
  cases p with
  | nil =>
    rcases ht with rfl | ⟨q, rfl⟩
    · rfl
    · rw [List.nil_append, routeNames, if_pos (by decide)]
  | cons b p =>
    rw [List.cons_append, routeNames, if_pos fun h => hp (by rw [h, List.head?_cons])]

/-! ## Paths -/

/-- A path that begins with a slash has no other one, or is cut at the first of them. -/
theorem path_cases (r : Bytes) :
    SLASH ∉ r ∨ ∃ a b, SLASH ∉ a ∧ SLASH :: r = SLASH :: a ++ SLASH :: b := by
  by_cases hr : SLASH ∈ r
  · obtain ⟨a, b, hsplit, ha⟩ := List.eq_append_cons_of_mem hr
    exact .inr ⟨a, b, ha, by rw [hsplit, List.cons_append]⟩
  · exact .inl hr

theorem not_twoSlashes {r : Bytes} (hr : SLASH ∉ r) : ¬ TwoSlashes (SLASH :: r) := by
  rintro ⟨a, b, h⟩
  rw [List.cons_append, List.cons.injEq] at h
  exact hr (by rw [h.2]; simp)

theorem Trailing.twoSlashes {p : Bytes} (h : Trailing p) : TwoSlashes p := by
  obtain ⟨a, b, rfl⟩ := h
  exact ⟨a, b ++ [SLASH], by simp⟩

theorem trailing_iff {a b : Bytes} (ha : SLASH ∉ a) :
    Trailing (SLASH :: a ++ SLASH :: b) ↔ b.getLast? = some SLASH := by
  constructor
  · rintro ⟨a', b', h⟩
    rcases List.eq_nil_or_concat b with rfl | ⟨b, x, rfl⟩
    · have hcut : SLASH :: a = SLASH :: a' ++ SLASH :: b' := (List.append_inj' h rfl).1
      rw [List.cons_append, List.cons.injEq] at hcut
      exact absurd (by rw [hcut.2]; simp) ha
    · rw [List.concat_eq_append, ← List.cons_append, ← List.append_assoc] at h
      have hx := (List.append_inj' h rfl).2
      rw [List.concat_eq_append, hx]
      simp
  · intro h
    obtain ⟨b', rfl⟩ := List.getLast?_eq_some_iff.1 h
    exact ⟨a, b', by simp⟩

/-- With the slash at its end the last name is another one than without it. -/
theorem routeSelect_trailing (cfg : RouteConfig) {a : Bytes} (ha : SLASH ∉ a) (b : Bytes) :
    routeSelect cfg [a, b ++ [SLASH]] ≠
      routeSelect cfg (a :: (if b = [] then none else some b).toList) := by
  intro h
  by_cases hb : b = []
  · rw [hb, if_pos rfl] at h
    simp only [routeSelect, Option.toList_none, Option.some.injEq, Prod.mk.injEq] at h
    exact ha (by rw [← h.2]; simp)
  · rw [if_neg hb] at h
    simp only [routeSelect, Option.toList_some, Option.some.injEq, Prod.mk.injEq] at h
    have hlen := congrArg List.length h.2
    simp at hlen

/-- Which two uris of one path are routed alike, unless the path has one slash only and one of the
queries has another. -/
theorem route_eq_iff (cfg : RouteConfig) {u v : Bytes} (hpath : uriPath v = uriPath u)
    (hplain : TwoSlashes (uriPath u) ∨ SLASH ∉ uriQuery u ∧ SLASH ∉ uriQuery v) :
    route cfg v = route cfg u ↔
      (Trailing (uriPath u) → (uriQuery u = [] ↔ uriQuery v = [])) := by
  obtain ⟨hu, hfree, htu⟩ := uri_parts u
  obtain ⟨hv, -, htv⟩ := uri_parts v
  rw [hpath] at hv
  rw [route, route, hu, hv]
  generalize uriPath u = p at hfree hplain
  generalize uriQuery u = t at htu hplain
  generalize uriQuery v = t' at htv hplain
  by_cases hp : p.head? = some SLASH
  · obtain ⟨r, rfl⟩ := List.head?_eq_some_iff.1 hp
    rcases path_cases r with hr | ⟨a, b, ha, heq⟩
    · obtain ⟨ht, ht'⟩ := hplain.resolve_left (not_twoSlashes hr)
      have hq : QUESTION ∉ r := fun h => hfree (List.mem_cons_of_mem _ h)
      have hlast : r.getLast? ≠ some SLASH := fun h => hr (List.mem_of_getLast? h)
      have hone : ∀ {t : Bytes}, IsQuery t → SLASH ∉ t →
          routeNames (SLASH :: r ++ t) = some (if r = [] then none else some r).toList := by
        intro t ht hslash
        rw [List.cons_append, routeNames_one (by simp [hr, hslash]), lastName_of hq hlast ht]
      rw [hone htu ht, hone htv ht']
      exact iff_of_true rfl fun h => absurd h.twoSlashes (not_twoSlashes hr)
    · rw [heq] at hfree ⊢
      have hq : QUESTION ∉ b := fun h => hfree (by simp [h])
      rw [routeNames_two ha, routeNames_two ha, trailing_iff ha]
      by_cases hlast : b.getLast? = some SLASH
      · obtain ⟨b, rfl⟩ := List.getLast?_eq_some_iff.1 hlast
        rw [lastName_slash hq htu, lastName_slash hq htv]
        simp only [hlast, true_imp_iff]
        have hne := routeSelect_trailing cfg ha b
        by_cases h : t = [] <;> by_cases h' : t' = [] <;> simp [h, h', hne, hne.symm]
      · rw [lastName_of hq hlast htu, lastName_of hq hlast htv]
        exact iff_of_true rfl fun h => absurd h hlast
  · rw [routeNames_other hp htu, routeNames_other hp htv]
    refine iff_of_true rfl fun h => ?_
    obtain ⟨a, b, rfl⟩ := h.twoSlashes
    simp at hp

/-! ## Uris of a path -/

theorem uri_of_parts {p t : Bytes} (hp : NUL ∉ p) (ht : NUL ∉ t) (hq : QUESTION ∉ p)
    (hquery : IsQuery t) : uriPath (p ++ t) = p ∧ uriQuery (p ++ t) = t ∧ cstr (p ++ t) = p ++ t := by
  have hc : cstr (p ++ t) = p ++ t := by
    rw [cstr, List.takeWhile_eq_self_iff]
    intro b hb
    simp only [bne_iff_ne, ne_eq]
    rintro rfl
    rcases List.mem_append.1 hb with hb | hb
    · exact hp hb
    · exact ht hb
  have hall : ∀ b ∈ p, decide (b ≠ QUESTION) = true := by
    intro b hb
    simp only [ne_eq, decide_eq_true_eq]
    rintro rfl
    exact hq hb
  rw [uriPath, uriQuery, hc, List.takeWhile_append_of_pos hall, List.dropWhile_append_of_pos hall]
  rcases hquery with rfl | ⟨q, rfl⟩
  · simp
  · simp

theorem nul_not_mem_uriPath (u : Bytes) : NUL ∉ uriPath u := by
  intro h
  exact nul_not_mem_cstr u ((List.takeWhile_prefix _).subset h)

/-- A slash in the query of a path with one slash makes what follows it the method. -/
theorem route_slash_query (cfg : RouteConfig) {r : Bytes} (hr : SLASH ∉ r) (hq : QUESTION ∉ r)
    (hn : NUL ∉ r) {x : Byte} (hx : x ≠ NUL ∧ x ≠ QUESTION ∧ x ≠ SLASH) :
    uriPath (SLASH :: r ++ [QUESTION, SLASH, x]) = SLASH :: r ∧
      (route cfg (SLASH :: r ++ [QUESTION, SLASH, x])).map (·.2) = some [x] := by
  have hsn : NUL ≠ SLASH ∧ QUESTION ≠ SLASH ∧ NUL ≠ QUESTION := by decide
  obtain ⟨hpath, -, hc⟩ := uri_of_parts (p := SLASH :: r) (t := [QUESTION, SLASH, x])
    (by simp [hn, hsn.1]) (by simp [hsn.1, hsn.2.2, hx.1.symm]) (by simp [hq, hsn.2.1])
    (.inr ⟨_, rfl⟩)
  refine ⟨hpath, ?_⟩
  have htwo : SLASH :: r ++ [QUESTION, SLASH, x] =
      SLASH :: (r ++ [QUESTION]) ++ SLASH :: [x] ++ [] := by simp
  have hslash : SLASH ∉ r ++ [QUESTION] := by simp [hr, hsn.2.1.symm]
  rw [route, hc, htwo, routeNames_two hslash, List.append_nil,
    lastName_plain (by simp [hx.2.1.symm])]
  simp only [List.cons_ne_nil, if_false, Option.toList_some, Option.bind_some, routeSelect]
  rfl

/-- All uris of a path are routed alike if and only if the path does not begin with a slash, or has
another one and does not end with a third. Two of its uris, where the path has a second slash or
the queries have none, are routed alike unless the path ends with a third slash and just one of
the two has a query. -/
theorem route_ignores_query_iff (cfg : RouteConfig) (u : Bytes) :
    ((∀ v, uriPath v = uriPath u → route cfg v = route cfg u) ↔
      (uriPath u).head? ≠ some SLASH ∨ TwoSlashes (uriPath u) ∧ ¬ Trailing (uriPath u)) ∧
    ∀ v, uriPath v = uriPath u →
      (TwoSlashes (uriPath u) ∨ SLASH ∉ uriQuery u ∧ SLASH ∉ uriQuery v) →
      (route cfg v = route cfg u ↔
        (Trailing (uriPath u) → (uriQuery u = [] ↔ uriQuery v = []))) := by
  refine ⟨⟨fun h => ?_, ?_⟩, fun v hv hplain => route_eq_iff cfg hv hplain⟩
  · obtain ⟨-, hfree, -⟩ := uri_parts u
    have hnul := nul_not_mem_uriPath u
    generalize uriPath u = p at h hfree hnul
    by_cases hp : p.head? = some SLASH
    · obtain ⟨r, rfl⟩ := List.head?_eq_some_iff.1 hp
      rcases path_cases r with hr | ⟨a, b, ha, heq⟩
      · have hq : QUESTION ∉ r := fun hm => hfree (List.mem_cons_of_mem _ hm)
        have hn : NUL ∉ r := fun hm => hnul (List.mem_cons_of_mem _ hm)
        obtain ⟨hpx, hx⟩ := route_slash_query cfg hr hq hn (x := 120) (by decide)
        obtain ⟨hpy, hy⟩ := route_slash_query cfg hr hq hn (x := 121) (by decide)
        rw [h _ hpx] at hx
        rw [h _ hpy, hx] at hy
        cases hy
      · refine .inr ⟨⟨a, b, heq⟩, fun htrail => ?_⟩
        obtain ⟨hp1, hq1, -⟩ := uri_of_parts hnul (by simp) hfree (.inl rfl)
        obtain ⟨hp2, hq2, -⟩ := uri_of_parts hnul (t := [QUESTION]) (by decide) hfree (.inr ⟨[], rfl⟩)
        have hsame := (h _ hp2).trans (h _ hp1).symm
        have hiff := (route_eq_iff cfg (hp2.trans hp1.symm) (.inl (hp1.symm ▸ ⟨a, b, heq⟩))).1 hsame
          (hp1.symm ▸ htrail)
        rw [hq1, hq2] at hiff
        simp at hiff
    · exact .inl hp
  · intro hcond v hv
    rcases hcond with hother | ⟨htwo, hno⟩
    · obtain ⟨hu, -, htu⟩ := uri_parts u
      obtain ⟨hv', -, htv⟩ := uri_parts v
      rw [route, route, hu, hv', hv, routeNames_other hother htu, routeNames_other hother htv]
    · exact (route_eq_iff cfg hv (.inl htwo)).2 fun h => absurd h hno

/-- A slash in the query: `/echo` goes to the default module, `/echo?next=/admin` to the method
`admin` of a module `echo?next=`. -/
theorem route_reads_query :
    ¬ ∀ (cfg : RouteConfig) (u v : Bytes), uriPath v = uriPath u → route cfg v = route cfg u := by
  intro h
  have hsame := h ⟨str "main", str "index", false⟩ (str "/echo") (str "/echo?next=/admin") (by decide)
  exact absurd hsame (by decide)

end Http
end Shs
