import Shs.Http.Folding
import Shs.Http.Serialize

/-!
# Http.Inject

The line that `http_make_header` writes for a header that `http_add_output_header` accepted, read
back by `http_parse_headers`: when it is one field again, whatever stands around it.
-/

namespace Shs
namespace Http

open LineStream

/-! ## The lines of a value -/

/-- Every run of CR and LF in the value is one line end of the reader: CR, LF, or one of each. -/
def oneEnd : Bytes → Bool
  | a :: b :: s => !(isEol a && isEol b && (a == b || s.head?.any isEol)) && oneEnd (b :: s)
  | _ => true

theorem valid_tail {x : Byte} {s : Bytes} (h : httpHeaderIsValidValue (x :: s) = true) :
    httpHeaderIsValidValue s = true := by
  cases s with
  | nil => rfl
  | cons y s =>
    rw [httpHeaderIsValidValue] at h
    split at h
    · cases h
    · exact h

theorem valid_suffix {p s : Bytes} (h : httpHeaderIsValidValue (p ++ s) = true) :
    httpHeaderIsValidValue s = true := by
  induction p with
  | nil => exact h
  | cons x p ih => exact ih (valid_tail h)

/-- What the check asks of the byte behind a line end. -/
theorem valid_behind {e : Byte} {s : Bytes} (h : httpHeaderIsValidValue (e :: s) = true)
    (he : isEol e = true) : ∃ x t, s = x :: t ∧ (isEol x = true ∨ x = SP ∨ x = TAB) := by
  cases s with
  | nil =>
    rw [httpHeaderIsValidValue, he] at h
    cases h
  | cons x t =>
    refine ⟨x, t, rfl, ?_⟩
    rw [httpHeaderIsValidValue, he] at h
    by_cases hx : isEol x = true
    · exact .inl hx
    · by_cases hsp : x = SP
      · exact .inr (.inl hsp)
      · by_cases htab : x = TAB
        · exact .inr (.inr htab)
        · simp [hx, hsp, htab] at h

theorem oneEnd_quiet {p : Bytes} (h : ∀ b ∈ p, isEol b = false) (s : Bytes) :
    oneEnd (p ++ s) = oneEnd s := by
  induction p with
  | nil => rfl
  | cons x p ih =>
    have hx := h x List.mem_cons_self
    have ih := ih fun b hb => h b (List.mem_cons_of_mem x hb)
    rw [List.cons_append, ← ih]
    cases hps : p ++ s with
    | nil => rfl
    | cons y s => simp [oneEnd, hx]

/-- What the reader makes of a value: the rest of the first line, and the lines behind it. -/
structure ValueLines (w v : Bytes) (cs : List Bytes) : Prop where
  first  : v = w.takeWhile fun b => !isEol b
  kinds  : ∀ c ∈ cs, c = [] ∨ (LineOk c ∧ isContinuation c = true)
  oneEnd : oneEnd w = true ↔ [] ∉ cs
  folded : cs = [] ↔ w.any isEol = false
  lines  : ∀ p rest : Bytes, (∀ b ∈ p, isEol b = false) →
    Lines isEol (p ++ (w ++ (CRLF ++ rest))) ((p ++ v) :: cs) rest

theorem valueLines_quiet {w : Bytes} (h : ∀ b ∈ w, isEol b = false) : ValueLines w w [] where
  first := (List.takeWhile_eq_self_iff.2 fun b hb => by simp [h b hb]).symm
  kinds := by simp
  oneEnd := by
    have hone := oneEnd_quiet h []
    rw [List.append_nil] at hone
    simp [hone, Http.oneEnd]
  folded := by
    simpa using fun b hb => h b hb
  lines := by
    intro p rest hp
    have hpw : ∀ b ∈ p ++ w, isEol b = false := by
      intro b hb
      rcases List.mem_append.1 hb with hb | hb
      · exact hp b hb
      · exact h b hb
    rw [← List.append_assoc]
    exact .cons (takeLine_mates isEol hpw (by decide) (by decide) rest) (.nil rest)

/-- One more line: behind the line end that `d` is, the value goes on with `r`. -/
theorem ValueLines.cons {r v v' : Bytes} {cs : List Bytes} {w d : Bytes} (hr : ValueLines r v' cs)
    (hv : ∀ b ∈ v, isEol b = false) (hw : w = v ++ d ++ r) (hd : d ≠ [] ∧ ∀ b ∈ d, isEol b = true)
    (hnul : ∀ b ∈ r, b ≠ NUL)
    (hhead : ∃ x t, r = x :: t ∧ (isEol x = true ∨ x = SP ∨ x = TAB))
    (hone : Http.oneEnd w = true ↔ (r.head?.any isEol = false ∧ Http.oneEnd r = true))
    (htake : ∀ p rest : Bytes, (∀ b ∈ p, isEol b = false) →
      takeLine isEol (p ++ (w ++ (CRLF ++ rest))) = some (p ++ v, r ++ (CRLF ++ rest))) :
    ValueLines w v (v' :: cs) := by
  obtain ⟨x, t, rfl, hx⟩ := hhead
  obtain ⟨e, ds, rfl⟩ := List.exists_cons_of_ne_nil hd.1
  have he : isEol e = true := hd.2 e List.mem_cons_self
  have hv' := hr.first
  rw [List.takeWhile_cons] at hv'
  have hempty : isEol x = true ↔ v' = [] := by
    cases hxe : isEol x <;> simp [hxe, hv']
  refine ⟨?_, ?_, ?_, ?_, ?_⟩
  · rw [hw, List.append_assoc, List.takeWhile_append_of_pos fun b hb => by simp [hv b hb],
      List.cons_append, List.takeWhile_cons]
    simp [he]
  · intro c hc
    rcases List.mem_cons.1 hc with rfl | hc
    · by_cases hxe : isEol x = true
      · exact .inl (hempty.1 hxe)
      · right
        have hblank : x = SP ∨ x = TAB := by
          rcases hx with h | h
          · exact absurd h hxe
          · exact h
        have hcont : isContinuation c = true := by
          rw [hv']
          rcases hblank with rfl | rfl <;> rfl
        refine ⟨⟨fun h => hxe (hempty.2 h), ?_, fun h => by rw [hcont] at h; cases h⟩, hcont⟩
        intro b hb
        rw [hr.first] at hb
        have hq := List.mem_takeWhile_imp hb
        have hmem := (List.takeWhile_prefix _).subset hb
        have hcr : b ≠ CR := by rintro rfl; simp [isEol] at hq
        have hlf : b ≠ LF := by rintro rfl; simp [isEol] at hq
        exact ⟨hcr, hlf, hnul b hmem⟩
    · exact hr.kinds c hc
  · rw [hone, hr.oneEnd, List.mem_cons, not_or]
    simp only [List.head?_cons, Option.any_some]
    rw [← Bool.not_eq_true, hempty, eq_comm]
  · constructor
    · intro h
      cases h
    · intro h
      rw [hw] at h
      simp [he] at h
  · intro p rest hp
    refine .cons (htake p rest hp) ?_
    have hrest := hr.lines [] rest (by simp)
    simpa using hrest

theorem takeLine_value {v : Bytes} {e : Byte} (hv : ∀ b ∈ v, isEol b = false)
    (he : isEol e = true) (s : Bytes) {p : Bytes} (hp : ∀ b ∈ p, isEol b = false) :
    takeLine isEol (p ++ (v ++ e :: s)) = some (p ++ v, dropMate isEol e s) := by
  have hpv : ∀ b ∈ p ++ v, isEol b = false := by
    intro b hb
    rcases List.mem_append.1 hb with hb | hb
    · exact hp b hb
    · exact hv b hb
  rw [← List.append_assoc, takeLine_quiet isEol hpv]
  simp [takeLine, he]

/-- A value that the check accepts is a line and lines that continue it or are empty. -/
theorem valueLines_exist {w : Bytes} (hvalid : httpHeaderIsValidValue w = true)
    (hnul : ∀ b ∈ w, b ≠ NUL) : ∃ v cs, ValueLines w v cs := by
  induction hn : w.length using Nat.strongRecOn generalizing w with
  | _ n ih =>
  by_cases hany : ∀ b ∈ w, isEol b = false
  · exact ⟨w, [], valueLines_quiet hany⟩
  obtain ⟨v, s, hw, hv, hs⟩ : ∃ v s, w = v ++ s ∧ (∀ b ∈ v, isEol b = false) ∧
      ∃ e t, s = e :: t ∧ isEol e = true := by
    refine ⟨w.takeWhile fun b => !isEol b, w.dropWhile fun b => !isEol b,
      List.takeWhile_append_dropWhile.symm, ?_, ?_⟩
    · intro b hb
      simpa using List.mem_takeWhile_imp hb
    · cases hd : w.dropWhile fun b => !isEol b with
      | nil =>
        refine absurd (fun b hb => ?_) hany
        simpa using List.dropWhile_eq_nil_iff.1 hd b hb
      | cons e t =>
        refine ⟨e, t, rfl, ?_⟩
        have hhead := List.head?_dropWhile_not (fun b => !isEol b) w
        rw [hd] at hhead
        simpa using hhead
  obtain ⟨e, t, rfl, he⟩ := hs
  have htail : httpHeaderIsValidValue (e :: t) = true := valid_suffix (hw ▸ hvalid)
  obtain ⟨x, t, rfl, hx⟩ := valid_behind htail he
  have hone : oneEnd w = oneEnd (e :: x :: t) := by rw [hw, oneEnd_quiet hv]
  by_cases hmate : isEol x = true ∧ x ≠ e
  · -- `x` belongs to the line end of `e`
    have hbehind := valid_behind (valid_tail htail) hmate.1
    obtain ⟨v', cs, hr⟩ := ih t.length (by rw [← hn, hw]; simp; omega)
      (valid_tail (valid_tail htail)) (fun b hb => hnul b (by rw [hw]; simp [hb])) rfl
    refine ⟨v, v' :: cs, hr.cons (d := [e, x]) hv (by simp [hw]) ⟨by simp, ?_⟩
      (fun b hb => hnul b (by rw [hw]; simp [hb])) hbehind ?_ ?_⟩
    · intro b hb
      rcases List.mem_cons.1 hb with rfl | hb
      · exact he
      · rw [List.mem_singleton.1 hb]
        exact hmate.1
    · obtain ⟨y, t, rfl, _⟩ := hbehind
      have hex : (e == x) = false := by simpa using fun h => hmate.2 h.symm
      rw [hone]
      cases hy : isEol y <;> simp [oneEnd, he, hmate.1, hex, hy]
    · intro p rest hp
      rw [hw]
      have htake := takeLine_value hv he (x :: t ++ (CRLF ++ rest)) hp
      simpa [dropMate, mates, hmate.1, hmate.2] using htake
  · -- the line end is `e` alone
    obtain ⟨v', cs, hr⟩ := ih (x :: t).length (by rw [← hn, hw]; simp; omega)
      (valid_tail htail) (fun b hb => hnul b (by rw [hw]; simp [List.mem_cons.1 hb])) rfl
    refine ⟨v, v' :: cs, hr.cons (d := [e]) hv (by simp [hw]) ⟨by simp, by simp [he]⟩
      (fun b hb => hnul b (by rw [hw]; simp [List.mem_cons.1 hb])) ⟨x, t, rfl, hx⟩ ?_ ?_⟩
    · rw [hone]
      cases hxe : isEol x with
      | false => simp [oneEnd, hxe]
      | true =>
        have hex : x = e := by
          by_contra hne
          exact hmate ⟨hxe, hne⟩
        simp [oneEnd, hex, he]
    · intro p rest hp
      rw [hw]
      have htake := takeLine_value hv he (x :: t ++ (CRLF ++ rest)) hp
      have hno : mates isEol e x = false := by
        cases hxe : isEol x with
        | false => simp [mates, hxe]
        | true =>
          have hex : x = e := by
            by_contra hne
            exact hmate ⟨hxe, hne⟩
          simp [mates, hex]
      simpa [dropMate, hno] using htake

/-! ## The parser on lines -/

theorem cstr_line {l : Bytes} (hl : LineOk l) : cstr l = l :=
  cstr_eq_self fun b hb => (hl.text b hb).2.2

theorem feedHead_lines {d rest : Bytes} {ls : List Bytes} (h : Lines isEol d ls rest)
    (hok : ∀ l ∈ ls, LineOk l) (q : HttpReq) :
    match ls.foldlM feedLine q.inputHeaders with
    | some hs => feedHead .readingHeaders q d =
        feedHead .readingHeaders { q with inputHeaders := hs } rest
    | none => ∃ q' r, feedHead .readingHeaders q d = .stop (.rejected .readingHeaders q') r := by
  induction h generalizing q with
  | nil d => rfl
  | @cons d l r rest ls hl hr ih =>
    have hlok := hok l List.mem_cons_self
    have hline := parseHeaderLine_feedLine q hlok
    rw [List.foldlM_cons]
    cases hf : feedLine q.inputHeaders l with
    | none =>
      rw [hf] at hline
      refine ⟨q, r, ?_⟩
      rw [feedHead, feed_stop isEol headAct hl]
      simp [headAct, cstr_line hlok, hline]
    | some hs =>
      rw [hf] at hline
      have hact : headAct ⟨.readingHeaders, q⟩ l =
          .inl ⟨.readingHeaders, { q with inputHeaders := hs }⟩ := by
        simp [headAct, cstr_line hlok, hline]
      have hnext := ih (fun x hx => hok x (List.mem_cons_of_mem _ hx)) { q with inputHeaders := hs }
      rw [feedHead, feed_next isEol headAct hl hact]
      exact hnext

/-- Behind an empty line the parser reads no further. -/
theorem feedHead_empty {d rest : Bytes} {ls : List Bytes} (h : Lines isEol d ls rest)
    (hok : ∀ l ∈ ls, l = [] ∨ LineOk l) (hempty : [] ∈ ls) (q : HttpReq) :
    ∃ t r, feedHead .readingHeaders q d = .stop t r := by
  obtain ⟨as, bs, rfl, hnot⟩ := List.eq_append_cons_of_mem hempty
  obtain ⟨m, has, hbs⟩ := Lines.append isEol h
  have hasok : ∀ l ∈ as, LineOk l := by
    intro l hl
    rcases hok l (List.mem_append_left _ hl) with rfl | hlok
    · exact absurd hl hnot
    · exact hlok
  have hfeed := feedHead_lines has hasok q
  cases hf : as.foldlM feedLine q.inputHeaders with
  | none =>
    rw [hf] at hfeed
    obtain ⟨q', r, hstop⟩ := hfeed
    exact ⟨_, r, hstop⟩
  | some hs =>
    rw [hf] at hfeed
    simp only at hfeed
    cases hbs with
    | cons hl hr =>
      rw [hfeed, feedHead, feed_stop isEol headAct hl (t := .accepted { q with inputHeaders := hs })]
      · exact ⟨_, _, rfl⟩
      · rfl

/-- Two requests whose heads come to the same point are parsed alike from there. -/
theorem httpParseHeaders_skip {q q' : HttpReq} {rest : Bytes} (hsuf : rest <:+ q.inBuf.data)
    (h : feedHead .readingHeaders q q.inBuf.data = feedHead .readingHeaders q' rest) :
    httpParseHeaders q = httpParseHeaders (q'.withIn (Buffer.readTo q.inBuf rest) q.rx) := by
  rw [httpParseHeaders_feed, httpParseHeaders_feed, withIn_inBuf, readTo_data hsuf,
    feedHead_withIn, headResult_withIn hsuf _ (feedHead_rest_suffix _ _ _), h]

theorem httpParseHeaders_nil {q : HttpReq} (h : q.inBuf.data = []) :
    httpParseHeaders q = (q, .moreDataExpected) := by
  rw [httpParseHeaders, h]
  rfl

/-! ## The first line -/

theorem strsep_key (k s : Bytes) : ∃ t,
    strsep 58 (k ++ 58 :: s) = (k.takeWhile fun b => b != 58, some t) ∧
      (58 ∉ k ∧ t = s ∨ 58 ∈ k ∧ 58 ∈ t) := by
  induction k with
  | nil => exact ⟨s, by simp [strsep], .inl ⟨by simp, rfl⟩⟩
  | cons x k ih =>
    by_cases hx : x = 58
    · subst hx
      exact ⟨k ++ 58 :: s, by simp [strsep], .inr ⟨List.mem_cons_self, by simp⟩⟩
    · obtain ⟨t, ht, hcase⟩ := ih
      refine ⟨t, ?_, ?_⟩
      · simp only [List.cons_append, strsep, if_neg hx, ht]
        simp [hx]
      · have hne : (58 : Byte) ≠ x := fun h => hx h.symm
        simpa [hne] using hcase

/-- The first line of the header `key: value` of which `v` is the first line of the value. -/
def nameLine (key v : Bytes) : Bytes := cstr key ++ 58 :: SP :: v

theorem nameLine_name (key v : Bytes) :
    lineName (nameLine key v) = (cstr key).takeWhile fun b => b != 58 := by
  obtain ⟨t, ht, _⟩ := strsep_key (cstr key) (SP :: v)
  rw [lineName, nameLine, ht]

theorem nameLine_blank (key v : Bytes) :
    (Header.mk (lineName (nameLine key v)) (lineValue (nameLine key v))).free = true ↔
      cstr key = [] ∧ v.dropWhile (· == SP) = [] := by
  obtain ⟨t, ht, hcase⟩ := strsep_key (cstr key) (SP :: v)
  have hvalue : lineValue (nameLine key v) = t.dropWhile (· == SP) := by
    rw [lineValue, nameLine, ht]
    rfl
  rw [nameLine_name, hvalue]
  simp only [Header.free, Bool.and_eq_true, List.isEmpty_iff]
  rcases hcase with ⟨hk, rfl⟩ | ⟨hk, ht⟩
  · have hname : (cstr key).takeWhile (fun b => b != 58) = cstr key := by
      rw [List.takeWhile_eq_self_iff]
      intro b hb
      simpa using fun h : b = 58 => hk (h ▸ hb)
    rw [hname, List.dropWhile_cons]
    simp
  · constructor
    · rintro ⟨_, hdrop⟩
      have h58 := List.dropWhile_eq_nil_iff.1 hdrop 58 ht
      simp [SP] at h58
    · rintro ⟨hnil, _⟩
      rw [hnil] at hk
      cases hk

theorem headerLine_lines {key value v : Bytes} {cs : List Bytes} (hk : key ≠ []) (hv : value ≠ [])
    (hkey : key.any isEol = false) (h : ValueLines (cstr value) v cs) (rest : Bytes) :
    Lines isEol (headerLine ⟨key, value⟩ ++ rest) (nameLine key v :: cs) rest := by
  have hsep : str ": " = [58, SP] := by decide
  have hp : ∀ b ∈ cstr key ++ [58, SP], isEol b = false := by
    intro b hb
    rcases List.mem_append.1 hb with hb | hb
    · have hall := List.any_eq_false.1 hkey b ((List.takeWhile_prefix _).subset hb)
      simpa using hall
    · simp only [List.mem_cons, List.not_mem_nil, or_false] at hb
      rcases hb with rfl | rfl <;> rfl
  have hlines := h.lines (cstr key ++ [58, SP]) rest hp
  have hw : headerLine ⟨key, value⟩ ++ rest =
      cstr key ++ [58, SP] ++ (cstr value ++ (CRLF ++ rest)) := by
    rw [headerLine, if_pos ⟨by simpa using hk, by simpa using hv⟩, hsep]
    simp
  have hl : nameLine key v = cstr key ++ [58, SP] ++ v := by simp [nameLine]
  rw [hw, hl]
  exact hlines

theorem nameLine_ok {key v : Bytes} (hkey : key.any isEol = false) {w : Bytes}
    (hv : v = w.takeWhile fun b => !isEol b) (hw : ∀ b ∈ w, b ≠ NUL) : LineOk (nameLine key v) where
  ne := by simp [nameLine]
  text := by
    intro b hb
    simp only [nameLine, List.mem_append, List.mem_cons] at hb
    have heol : isEol b = false → b ≠ CR ∧ b ≠ LF := by
      intro h
      constructor <;> rintro rfl <;> simp [isEol] at h
    rcases hb with hb | rfl | rfl | hb
    · have hmem : b ∈ key := (List.takeWhile_prefix _).subset hb
      have hnul : b ≠ NUL := by simpa using List.mem_takeWhile_imp hb
      have heol := heol (by simpa using List.any_eq_false.1 hkey b hmem)
      exact ⟨heol.1, heol.2, hnul⟩
    · decide
    · decide
    · rw [hv] at hb
      have heol := heol (by simpa using List.mem_takeWhile_imp hb)
      exact ⟨heol.1, heol.2, hw b ((List.takeWhile_prefix _).subset hb)⟩
  kind := fun _ => by simp [nameLine]

theorem nameLine_continuation (key v : Bytes) :
    isContinuation (nameLine key v) = true ↔ ∃ b, (cstr key).head? = some b ∧ (b = SP ∨ b = TAB) := by
  unfold nameLine isContinuation
  cases cstr key with
  | nil => simp [SP, TAB]
  | cons b k => simp

/-! ## One field -/

/-- The line written for the entry is one field behind the fields `us` and in front of anything:
`http_parse_headers` takes it off the buffer, adds one entry with the name, leaves the others as
they are, and goes on with what stands behind it. -/
def OneField (key value : Bytes) (us : List Header) : Prop :=
  ∃ e : Header, (e.key = (cstr key).takeWhile fun b => b != 58) ∧ e.free = false ∧
    ∀ (q : HttpReq) (rest : Bytes), q.inputHeaders = tableOf us →
      q.inBuf.data = headerLine ⟨key, value⟩ ++ rest →
      httpParseHeaders q = httpParseHeaders
        { q with inputHeaders := tableOf (us ++ [e]),
                 inBuf := bufferPull q.inBuf (headerLine ⟨key, value⟩).length }

/-- The accepted headers that are one field: the name does not start with a blank, a header
without name has text in its first line, every line end of the value is a single one, and a value
with line ends does not stand in the last slot of the table. -/
structure Contained (key value : Bytes) (us : List Header) : Prop where
  head  : ∀ b, (cstr key).head? = some b → b ≠ SP ∧ b ≠ TAB
  text  : cstr key = [] →
    ((cstr value).takeWhile fun b => !isEol b).dropWhile (· == SP) ≠ []
  ends  : oneEnd (cstr value) = true
  room  : us.length + 1 = HEADER_NUM → (cstr value).any isEol = false

theorem Contained.oneField {key value : Bytes} {us : List Header} (h : Contained key value us)
    (hkey : key.any isEol = false) (hvalid : httpHeaderIsValidValue (cstr value) = true)
    (hk : key ≠ []) (hv : value ≠ []) (hu : ∀ x ∈ us, x.free = false)
    (hl : us.length < HEADER_NUM) : OneField key value us := by
  obtain ⟨v, cs, hlines⟩ := valueLines_exist hvalid fun b hb => ne_of_mem_of_not_mem hb (nul_not_mem_cstr value)
  have hne := hlines.oneEnd.1 h.ends
  have hcs : ∀ c ∈ cs, LineOk c ∧ isContinuation c = true := by
    intro c hc
    rcases hlines.kinds c hc with rfl | hok
    · exact absurd hc hne
    · exact hok
  have hok := nameLine_ok hkey hlines.first fun b hb => ne_of_mem_of_not_mem hb (nul_not_mem_cstr value)
  have hfirst : isContinuation (nameLine key v) = false := by
    rw [← Bool.not_eq_true, nameLine_continuation]
    rintro ⟨b, hb, rfl | rfl⟩
    · exact (h.head _ hb).1 rfl
    · exact (h.head _ hb).2 rfl
  let f : Field := ⟨nameLine key v, cs, hok, hfirst, hcs⟩
  have hblank : f.blank = false := by
    rw [← Bool.not_eq_true]
    intro hb
    obtain ⟨hnil, hdrop⟩ := (nameLine_blank key v).1 hb
    rw [hlines.first] at hdrop
    exact h.text hnil hdrop
  refine ⟨f.entry, nameLine_name key v, Field.entry_free hblank, ?_⟩
  intro q rest hq hd
  have hread := headerLine_lines hk hv hkey hlines rest
  have hfold : (nameLine key v :: cs).foldlM feedLine q.inputHeaders =
      some (tableOf (us ++ [f.entry])) := by
    rw [hq, List.foldlM_cons, show feedLine (tableOf us) (nameLine key v) = _ from
      feedLine_first f hu, if_neg (by simp [hblank]), addField, if_pos hl]
    by_cases hroom : us.length + 1 < HEADER_NUM
    · exact feedConts_last hu hblank hroom fun c hc => (hcs c hc).2
    · obtain rfl : cs = [] := hlines.folded.2 (h.room (by omega))
      rfl
  have hfeed := feedHead_lines hread (by
    intro l hl
    rcases List.mem_cons.1 hl with rfl | hl
    · exact hok
    · exact (hcs l hl).1) q
  rw [hfold] at hfeed
  have hsuf : rest <:+ q.inBuf.data := by
    rw [hd]
    exact List.suffix_append _ _
  have hskip := httpParseHeaders_skip hsuf (hd ▸ hfeed)
  rw [hskip]
  have hlen : q.inBuf.data.length - rest.length = (headerLine ⟨key, value⟩).length := by
    rw [hd, List.length_append, Nat.add_sub_cancel]
  rw [Buffer.readTo, hlen]
  rfl

/-- Continuation lines add no entry. -/
theorem feedConts_length {us final : List Header} {cs : List Bytes} (hu : ∀ x ∈ us, x.free = false)
    (hl : us.length ≤ HEADER_NUM) (hcs : ∀ c ∈ cs, isContinuation c = true)
    (h : cs.foldlM feedLine (tableOf us) = some final) :
    ∃ us', final = tableOf us' ∧ us'.length = us.length ∧ ∀ x ∈ us', x.free = false := by
  induction cs generalizing us with
  | nil =>
    cases h
    exact ⟨us, rfl, rfl, hu⟩
  | cons c cs ih =>
    rw [List.foldlM_cons] at h
    obtain ⟨hs, hfeed, hrest⟩ := Option.bind_eq_some_iff.1 h
    rw [feedLine, hcs c List.mem_cons_self, if_pos rfl] at hfeed
    have hne : us ≠ [] := by
      rintro rfl
      cases hfeed
    rw [appendLast_tableOf hne hu hl] at hfeed
    obtain rfl := Option.some.inj hfeed
    have hmod : ∀ k, ∀ x ∈ us.modify k (Header.grow c), x.free = false := by
      intro k x hx
      obtain ⟨j, hj⟩ := List.mem_iff_getElem?.1 hx
      rw [List.getElem?_modify] at hj
      obtain ⟨y, hy, hxy⟩ := Option.map_eq_some_iff.1 hj
      have hyfree := hu y (List.mem_of_getElem? hy)
      rw [← hxy]
      split
      · simp [Header.grow, Header.free]
      · exact hyfree
    obtain ⟨us', hfinal, hlen, hfree⟩ := ih (hmod _) (by simpa using hl)
      (fun c hc => hcs c (List.mem_cons_of_mem _ hc)) hrest
    exact ⟨us', hfinal, by simpa using hlen, hfree⟩

/-- On a full table they change entry 0. -/
theorem feedConts_full {us : List Header} {h : Header} {cs : List Bytes}
    (hu : ∀ x ∈ us, x.free = false) (hh : h.free = false) (hl : us.length + 1 = HEADER_NUM)
    (hne : cs ≠ []) (hcs : ∀ c ∈ cs, isContinuation c = true) (e : Header) :
    cs.foldlM feedLine (tableOf (us ++ [h])) ≠ some (tableOf (us ++ [e])) := by
  intro hfold
  obtain ⟨c, cs, rfl⟩ := List.exists_cons_of_ne_nil hne
  rw [List.foldlM_cons] at hfold
  obtain ⟨hs, hfeed, hrest⟩ := Option.bind_eq_some_iff.1 hfold
  have hall : ∀ x ∈ us ++ [h], x.free = false := by
    intro x hx
    rcases List.mem_append.1 hx with hx | hx
    · exact hu x hx
    · rw [List.mem_singleton.1 hx]
      exact hh
  have hnum : HEADER_NUM = 35 := rfl
  have hlen : (us ++ [h]).length = HEADER_NUM := by simpa using hl
  have hpos : 0 < us.length := by omega
  have hfront : ∀ x : Header, (us ++ [x])[0]? = some us[0] := by
    intro x
    rw [List.getElem?_append_left hpos, List.getElem?_eq_getElem hpos]
  obtain ⟨y, hy, hsize⟩ := continuation_grows hall (Nat.le_of_eq hlen) (hcs c List.mem_cons_self)
    hfeed (if_neg (by omega)).symm (hfront h)
  have hmono := weight_foldlM hrest 0
  have hlast : (tableOf (us ++ [e]))[0]? = some us[0] := by
    rw [tableOf, List.getElem?_append_left (by simp), hfront]
  rw [weight_of hy, weight_of hlast] at hmono
  omega

theorem tableOf_length_inj {us us' : List Header} (h : tableOf us = tableOf us')
    (hu : ∀ x ∈ us, x.free = false) (hu' : ∀ x ∈ us', x.free = false) :
    us.length = us'.length := by
  rw [← findIdx_tableOf hu, ← findIdx_tableOf hu', h]

/-- What `OneField` says of the lines: none is empty, and together they add the entry. -/
theorem OneField.feed {key value v : Bytes} {cs : List Bytes} {us : List Header}
    (h : OneField key value us)
    (hread : Lines isEol (headerLine ⟨key, value⟩) (nameLine key v :: cs) [])
    (hok : LineOk (nameLine key v)) (hcs : ∀ c ∈ cs, c = [] ∨ LineOk c) :
    [] ∉ cs ∧ ∃ e : Header, e.free = false ∧
      (nameLine key v :: cs).foldlM feedLine (tableOf us) = some (tableOf (us ++ [e])) := by
  obtain ⟨e, _, hfree, hparse⟩ := h
  let q : HttpReq := { sectionReq (headerLine ⟨key, value⟩) with inputHeaders := tableOf us }
  have hq := (hparse q [] rfl (List.append_nil _).symm).trans
    (httpParseHeaders_nil (List.drop_length (l := headerLine ⟨key, value⟩)))
  rw [httpParseHeaders_feed] at hq
  have hd : q.inBuf.data = headerLine ⟨key, value⟩ := rfl
  rw [hd] at hq
  have hlines : ∀ l ∈ nameLine key v :: cs, l = [] ∨ LineOk l := by
    intro l hl
    rcases List.mem_cons.1 hl with rfl | hl
    · exact .inr hok
    · exact hcs l hl
  have hempty : [] ∉ cs := by
    intro hmem
    obtain ⟨t, r, hstop⟩ := feedHead_empty hread hlines (List.mem_cons_of_mem _ hmem) q
    rw [hstop] at hq
    cases t <;> cases congrArg Prod.snd hq
  refine ⟨hempty, e, hfree, ?_⟩
  have hfeed := feedHead_lines hread (fun l hl => (hlines l hl).resolve_left fun hnil => by
      rw [hnil] at hl
      rcases List.mem_cons.1 hl with heq | hmem
      · exact hok.ne heq.symm
      · exact hempty hmem) q
  cases hfold : (nameLine key v :: cs).foldlM feedLine (tableOf us) with
  | none =>
    rw [show q.inputHeaders = tableOf us from rfl, hfold] at hfeed
    obtain ⟨q', r, hrej⟩ := hfeed
    rw [hrej] at hq
    cases congrArg Prod.snd hq
  | some final =>
    rw [show q.inputHeaders = tableOf us from rfl, hfold] at hfeed
    simp only at hfeed
    rw [hfeed] at hq
    exact congrArg some (congrArg (fun p : HttpReq × ReadStatus => p.1.inputHeaders) hq)

theorem OneField.contained {key value : Bytes} {us : List Header} (h : OneField key value us)
    (hkey : key.any isEol = false) (hvalid : httpHeaderIsValidValue (cstr value) = true)
    (hk : key ≠ []) (hv : value ≠ []) (hu : ∀ x ∈ us, x.free = false)
    (hl : us.length < HEADER_NUM) : Contained key value us := by
  obtain ⟨v, cs, hlines⟩ := valueLines_exist hvalid fun b hb => ne_of_mem_of_not_mem hb (nul_not_mem_cstr value)
  have hread := headerLine_lines hk hv hkey hlines []
  rw [List.append_nil] at hread
  have hok := nameLine_ok hkey hlines.first fun b hb => ne_of_mem_of_not_mem hb (nul_not_mem_cstr value)
  obtain ⟨hempty, e, hfree, hfold⟩ := h.feed hread hok fun c hc =>
    (hlines.kinds c hc).imp_right And.left
  have hcs : ∀ c ∈ cs, LineOk c ∧ isContinuation c = true := by
    intro c hc
    rcases hlines.kinds c hc with rfl | hok
    · exact absurd hc hempty
    · exact hok
  have hue : ∀ x ∈ us ++ [e], x.free = false := by
    intro x hx
    rcases List.mem_append.1 hx with hx | hx
    · exact hu x hx
    · rw [List.mem_singleton.1 hx]
      exact hfree
  -- lines that all continue a field leave the number of entries as it is
  have hgrows : ∀ ls : List Bytes, (∀ c ∈ ls, isContinuation c = true) →
      ls.foldlM feedLine (tableOf us) ≠ some (tableOf (us ++ [e])) := by
    intro ls hls heq
    obtain ⟨us', hus', hlen, hfree'⟩ := feedConts_length hu (Nat.le_of_lt hl) hls heq
    have hlen' := tableOf_length_inj hus' hue hfree'
    simp at hlen'
    omega
  have hfirst : isContinuation (nameLine key v) = false := by
    rw [← Bool.not_eq_true]
    intro hcont
    refine hgrows _ (fun c hc => ?_) hfold
    rcases List.mem_cons.1 hc with rfl | hc
    · exact hcont
    · exact (hcs c hc).2
  let f : Field := ⟨nameLine key v, cs, hok, hfirst, hcs⟩
  have hstart : feedLine (tableOf us) (nameLine key v) = _ := feedLine_first f hu
  rw [List.foldlM_cons, hstart] at hfold
  have hblank : f.blank = false := by
    rw [← Bool.not_eq_true]
    intro hb
    rw [if_pos hb] at hfold
    exact hgrows cs (fun c hc => (hcs c hc).2) hfold
  refine ⟨?_, ?_, hlines.oneEnd.2 hempty, ?_⟩
  · intro b hb
    have hnot := mt (nameLine_continuation key v).2 (by simp [hfirst])
    exact ⟨fun h => hnot ⟨b, hb, .inl h⟩, fun h => hnot ⟨b, hb, .inr h⟩⟩
  · intro hnil hdrop
    have hb : f.blank = true := (nameLine_blank key v).2 ⟨hnil, by rw [hlines.first, hdrop]⟩
    rw [hblank] at hb
    cases hb
  · intro hroom
    refine hlines.folded.1 ?_
    by_contra hne
    rw [if_neg (by simp [hblank]), addField, if_pos hl] at hfold
    exact feedConts_full hu hblank hroom hne (fun c hc => (hcs c hc).2) e hfold

/-- **What an accepted header can do to the message.** The line written for a header that
`http_add_output_header` accepts is one field for the reader exactly when it is `Contained`. -/
theorem oneField_iff {key value : Bytes} {hs hs' us : List Header}
    (hadd : addHeader key value hs = some hs') (hk : key ≠ []) (hv : value ≠ [])
    (hu : ∀ x ∈ us, x.free = false) (hl : us.length < HEADER_NUM) :
    OneField key value us ↔ Contained key value us := by
  obtain ⟨hkey, hvalid⟩ := addHeader_checks hadd
  constructor
  · intro h
    exact h.contained hkey hvalid hk hv hu hl
  · intro h
    exact h.oneField hkey hvalid hk hv hu hl

/-- Two line ends with a blank behind them pass the check, and end the header section: the field
written behind this one stays in the buffer. -/
theorem accepted_ends_section :
    (addHeader (str "K") (str "\n\n x") initHeaders).isSome = true ∧
      (httpParseHeaders (sectionReq (headerLine ⟨str "K", str "\n\n x"⟩ ++
        str "A: 1\r\n\r\n"))).2 = .allDataRead ∧
      (httpParseHeaders (sectionReq (headerLine ⟨str "K", str "\n\n x"⟩ ++
        str "A: 1\r\n\r\n"))).1.inBuf.data = str " x\r\nA: 1\r\n\r\n" ∧
      ¬ OneField (str "K") (str "\n\n x") [] := by
  refine ⟨by decide, by decide, by decide, ?_⟩
  rintro ⟨e, _, _, h⟩
  have hq := (h (sectionReq (headerLine ⟨str "K", str "\n\n x"⟩)) [] rfl
    (List.append_nil _).symm).trans
      (httpParseHeaders_nil (List.drop_length (l := headerLine ⟨str "K", str "\n\n x"⟩)))
  have hread : (httpParseHeaders (sectionReq (headerLine ⟨str "K", str "\n\n x"⟩))).2 =
      .allDataRead := by decide
  rw [hq] at hread
  cases hread

theorem oneField_iff_folded :
    OneField (str "K") (str "a\r\n b") [] ↔ Contained (str "K") (str "a\r\n b") [] :=
  oneField_iff (show addHeader (str "K") (str "a\r\n b") initHeaders =
      some (tableOf [⟨str "K", str "a\r\n b"⟩]) by decide)
    (by decide) (by decide) (by decide) (by decide)

end Http
end Shs
