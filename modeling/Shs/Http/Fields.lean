import Shs.Core.Decimal
import Shs.Http.Head
import Shs.Http.Message

/-!
# Http.Fields

Header fields between the two sides: a table with some fields in it, the lines written for them,
and the table that the parser fills from these lines.
-/

namespace Shs
namespace Http

open LineStream

/-! ## Fields and tables -/

/-- A field that can be written as one line and read back: a name without colon, a text without
line ends and NULs, and no blank in front of either. -/
structure FieldOk (h : Header) : Prop where
  key : h.key ≠ []
  keyText : ∀ b ∈ h.key, b ≠ 58 ∧ b ≠ CR ∧ b ≠ LF ∧ b ≠ NUL
  keyHead : ∀ b, h.key.head? = some b → b ≠ SP ∧ b ≠ TAB
  value : h.value ≠ []
  valueText : ∀ b ∈ h.value, b ≠ CR ∧ b ≠ LF ∧ b ≠ NUL
  valueHead : ∀ b, h.value.head? = some b → b ≠ SP ∧ b ≠ TAB

/-- A header table with the fields `hs` in its first slots. -/
def tableOf (hs : List Header) : List Header :=
  hs ++ List.replicate (HEADER_NUM - hs.length) Header.null

/-- The fields of a table when `h` is added to it; a full table stays as it is. -/
def addField (h : Header) (hs : List Header) : List Header :=
  if hs.length < HEADER_NUM then hs ++ [h] else hs

theorem tableOf_nil : tableOf [] = initHeaders := rfl

theorem fillSlot_tableOf (h : Header) {hs : List Header} (hu : ∀ x ∈ hs, x.free = false) :
    fillSlot h (tableOf hs) = tableOf (addField h hs) := by
  rw [tableOf, fillSlot_append h hu, addField]
  split
  · rename_i hlt
    obtain ⟨k, hk⟩ : ∃ k, HEADER_NUM - hs.length = k + 1 := ⟨HEADER_NUM - hs.length - 1, by omega⟩
    have hk' : HEADER_NUM - (hs ++ [h]).length = k := by
      rw [List.length_append, List.length_singleton]
      omega
    rw [tableOf, hk, hk', List.replicate_succ]
    simp [fillSlot, Header.free, Header.null]
  · rename_i hge
    have hk : HEADER_NUM - hs.length = 0 := by omega
    simp [tableOf, hk, fillSlot]

theorem free_iff {h : Header} : h.free = true ↔ h = Header.null := by
  obtain ⟨key, value⟩ := h
  simp [Header.free, Header.null]

theorem fillSlot_null (hs : List Header) : fillSlot Header.null hs = hs := by
  induction hs with
  | nil => rfl
  | cons x hs ih =>
    rw [fillSlot, ih]
    split
    · rename_i hfree
      rw [free_iff.1 hfree]
    · rfl

theorem addHeader_checks {key value : Bytes} {hs hs' : List Header}
    (h : addHeader key value hs = some hs') :
    key.any isEol = false ∧ httpHeaderIsValidValue (cstr value) = true := by
  unfold addHeader at h
  split at h
  · cases h
  · rename_i hchecks
    simpa using hchecks

theorem addField_length {h : Header} {hs : List Header} (hl : hs.length ≤ HEADER_NUM) :
    (addField h hs).length ≤ HEADER_NUM := by
  unfold addField
  split
  · rw [List.length_append, List.length_singleton]
    omega
  · exact hl

theorem addField_mem {h x : Header} {hs : List Header} (hx : x ∈ addField h hs) :
    x ∈ hs ∨ x = h := by
  unfold addField at hx
  split at hx
  · simpa using hx
  · exact .inl hx

theorem prefix_addField (h : Header) (hs : List Header) : hs <+: addField h hs := by
  unfold addField
  split
  · exact List.prefix_append _ _
  · exact List.prefix_rfl

theorem FieldOk.free {h : Header} (hf : FieldOk h) : h.free = false := by
  simp [Header.free, hf.key]

theorem named_null (name : Bytes) : Header.null.named name = false := rfl

theorem httpExistHeader_tableOf (hs : List Header) (name : Bytes) :
    httpExistHeader (tableOf hs) name = httpExistHeader hs name := by
  simp [httpExistHeader, tableOf, List.any_append, named_null]

theorem httpFindHeader_tableOf (hs : List Header) (name : Bytes) :
    httpFindHeader (tableOf hs) name = httpFindHeader hs name := by
  have hnull : (List.replicate (HEADER_NUM - hs.length) Header.null).find? (Header.named name) =
      none := by
    simp [named_null]
  rw [httpFindHeader, httpFindHeader, tableOf, List.find?_append, hnull, Option.or_none]

/-! ## Texts -/

theorem cstr_eq_self {s : Bytes} (h : ∀ b ∈ s, b ≠ NUL) : cstr s = s :=
  List.takeWhile_eq_self_iff.mpr fun b hb => by simpa using h b hb

theorem strsep_token {del : Byte} {s : Bytes} (h : ∀ b ∈ s, b ≠ del) (t : Bytes) :
    strsep del (s ++ del :: t) = (s, some t) := by
  induction s with
  | nil => simp [strsep]
  | cons x s ih =>
    have hx := h x List.mem_cons_self
    simp only [List.cons_append, strsep, hx, if_false]
    rw [ih fun b hb => h b (List.mem_cons_of_mem x hb)]

theorem isEol_false {b : Byte} (hcr : b ≠ CR) (hlf : b ≠ LF) : isEol b = false := by
  simp [isEol, hcr, hlf]

theorem httpHeaderIsValidValue_quiet {v : Bytes} (h : ∀ b ∈ v, isEol b = false) :
    httpHeaderIsValidValue v = true := by
  induction v with
  | nil => rfl
  | cons x v ih =>
    have hx := h x List.mem_cons_self
    have hv := ih fun b hb => h b (List.mem_cons_of_mem x hb)
    cases v with
    | nil => simp [httpHeaderIsValidValue, hx]
    | cons y v => simpa [httpHeaderIsValidValue, hx] using hv

/-- A good field passes the checks of `http_add_input_header` and `http_add_output_header`. -/
theorem FieldOk.addHeader {h : Header} (hf : FieldOk h) (hs : List Header) :
    addHeader h.key h.value hs = some (fillSlot h hs) := by
  have hkey : h.key.any isEol = false := by
    rw [List.any_eq_false]
    intro b hb
    have hb := hf.keyText b hb
    simp [isEol_false hb.2.1 hb.2.2.1]
  have hvalue : ∀ b ∈ h.value, isEol b = false := fun b hb =>
    isEol_false (hf.valueText b hb).1 (hf.valueText b hb).2.1
  have hc : cstr h.value = h.value := cstr_eq_self fun b hb => (hf.valueText b hb).2.2
  simp [Http.addHeader, hkey, hc, httpHeaderIsValidValue_quiet hvalue]

theorem httpAddOutputHeader_tableOf {q : HttpReq} {h : Header} {hs : List Header} (hf : FieldOk h)
    (hall : ∀ x ∈ hs, FieldOk x) (hq : q.outputHeaders = tableOf hs) :
    httpAddOutputHeader q h.key h.value = { q with outputHeaders := tableOf (addField h hs) } := by
  rw [httpAddOutputHeader, hf.addHeader, hq, fillSlot_tableOf h fun x hx => (hall x hx).free]
  rfl

theorem addReplyHeaders_tableOf {q : HttpReq} {us hs : List Header} (hu : ∀ x ∈ us, FieldOk x)
    (hf : ∀ x ∈ hs, FieldOk x) (hl : us.length + hs.length ≤ HEADER_NUM)
    (hq : q.outputHeaders = tableOf us) :
    addReplyHeaders q hs = { q with outputHeaders := tableOf (us ++ hs) } := by
  induction hs generalizing q us with
  | nil =>
    rw [List.append_nil, ← hq]
    rfl
  | cons h hs ih =>
    have hh := hf h List.mem_cons_self
    rw [List.length_cons] at hl
    have hadd : addField h us = us ++ [h] := if_pos (by omega)
    have hstep : addReplyHeaders q (h :: hs) =
        addReplyHeaders (httpAddOutputHeader q h.key h.value) hs := rfl
    rw [hstep, httpAddOutputHeader_tableOf hh hu hq, hadd, @ih _ (us ++ [h])]
    · simp
    · intro x hx
      rcases List.mem_append.mp hx with hx | hx
      · exact hu x hx
      · rw [List.mem_singleton.mp hx]
        exact hh
    · exact fun x hx => hf x (List.mem_cons_of_mem h hx)
    · rw [List.length_append, List.length_singleton]
      omega
    · rfl

/-! ## Tables that fill up -/

/-- The fields of a table behind some additions. -/
def addFields (us es : List Header) : List Header := es.foldl (fun us e => addField e us) us

theorem addFields_eq {us : List Header} (h : us.length ≤ HEADER_NUM) (es : List Header) :
    addFields us es = us ++ es.take (HEADER_NUM - us.length) := by
  induction es generalizing us with
  | nil => simp [addFields]
  | cons e es ih =>
    rw [addFields, List.foldl_cons]
    by_cases hlt : us.length < HEADER_NUM
    · have hadd : addField e us = us ++ [e] := if_pos hlt
      have hlen : (us ++ [e]).length = us.length + 1 := by simp
      obtain ⟨k, hk⟩ : ∃ k, HEADER_NUM - us.length = k + 1 := ⟨HEADER_NUM - us.length - 1, by omega⟩
      have hstep := @ih (us ++ [e]) (by omega)
      rw [hlen] at hstep
      rw [hadd, hk, List.take_succ_cons]
      rw [addFields] at hstep
      rw [hstep, show HEADER_NUM - (us.length + 1) = k by omega]
      simp
    · have hadd : addField e us = us := if_neg hlt
      have hfull : HEADER_NUM - us.length = 0 := by omega
      have hstep := ih h
      rw [addFields, hfull] at hstep
      rw [hadd, hstep, hfull]
      simp

/-! ## Lines -/

/-- The line of a field, without its line end. -/
def fieldLine (h : Header) : Bytes := h.key ++ 58 :: SP :: h.value

theorem FieldOk.headerLine {h : Header} (hf : FieldOk h) : headerLine h = fieldLine h ++ CRLF := by
  have hkey : h.key.length ≠ 0 := by simpa using hf.key
  have hvalue : h.value.length ≠ 0 := by simpa using hf.value
  have hck : cstr h.key = h.key := cstr_eq_self fun b hb => (hf.keyText b hb).2.2.2
  have hcv : cstr h.value = h.value := cstr_eq_self fun b hb => (hf.valueText b hb).2.2
  have hsep : str ": " = [58, SP] := by decide
  rw [Http.headerLine, if_pos ⟨hkey, hvalue⟩, hck, hcv, hsep]
  simp [fieldLine]

/-- A free slot has no line. -/
theorem lines_tableOf (hs : List Header) :
    ((tableOf hs).map headerLine).flatten = (hs.map headerLine).flatten := by
  have hnull : ∀ k, ((List.replicate k Header.null).map headerLine).flatten = [] := by
    intro k
    simp [headerLine, Header.null]
  rw [tableOf, List.map_append, List.flatten_append, hnull, List.append_nil]

theorem headerLine_tableOf {hs : List Header} (hf : ∀ x ∈ hs, FieldOk x) :
    ((tableOf hs).map headerLine).flatten = (hs.map fun h => fieldLine h ++ CRLF).flatten := by
  rw [lines_tableOf, List.map_congr_left fun h hh => (hf h hh).headerLine]

theorem FieldOk.mem_fieldLine {h : Header} (hf : FieldOk h) {b : Byte} (hb : b ∈ fieldLine h) :
    b ≠ CR ∧ b ≠ LF ∧ b ≠ NUL := by
  simp only [fieldLine, List.mem_append, List.mem_cons] at hb
  rcases hb with hb | rfl | rfl | hb
  · exact (hf.keyText b hb).2
  · decide
  · decide
  · exact hf.valueText b hb

/-- The parser puts a good field into its table as it was. -/
theorem FieldOk.parseHeaderLine {h : Header} (hf : FieldOk h) (q : HttpReq) :
    parseHeaderLine q (cstr (fieldLine h)) =
      .go { q with inputHeaders := fillSlot h q.inputHeaders } := by
  rw [cstr_eq_self fun b hb => (hf.mem_fieldLine hb).2.2]
  obtain ⟨c, cs, hkey⟩ := List.exists_cons_of_ne_nil hf.key
  obtain ⟨hsp, htab⟩ := hf.keyHead c (by rw [hkey]; rfl)
  obtain ⟨v, vs, hvalue⟩ := List.exists_cons_of_ne_nil hf.value
  have hv := (hf.valueHead v (by rw [hvalue]; rfl)).1
  have hsep := strsep_token (fun b hb => (hf.keyText b hb).1) (SP :: h.value)
  have hdrop : (SP :: h.value).dropWhile (· == SP) = h.value := by
    rw [hvalue]
    simp [hv]
  have hcons : fieldLine h = c :: (cs ++ 58 :: SP :: h.value) := by simp [fieldLine, hkey]
  have hline : strsep 58 (c :: (cs ++ 58 :: SP :: h.value)) = (h.key, some (SP :: h.value)) := by
    rw [← hsep, hkey]
    rfl
  rw [hcons]
  have hblank : ¬ (c = SP ∨ c = TAB) := by
    rintro (heq | heq)
    · exact hsp heq
    · exact htab heq
  simp only [Http.parseHeaderLine, if_neg hblank, hline, hdrop, httpAddInputHeader, hf.addHeader,
    Option.map_some]

theorem isEol_line {l : Bytes} (h : ∀ b ∈ l, b ≠ CR ∧ b ≠ LF) : ∀ b ∈ l, isEol b = false :=
  fun b hb => isEol_false (h b hb).1 (h b hb).2

/-- The head machine takes a line and its CRLF. -/
theorem feedHead_line {st : ConnStatus} {q : HttpReq} {l : Bytes}
    (hl : ∀ b ∈ l, b ≠ CR ∧ b ≠ LF) (rest : Bytes) :
    feedHead st q (l ++ (CRLF ++ rest)) =
      match headAct ⟨st, q⟩ l with
      | .inl s => feedHead s.status s.req rest
      | .inr t => .stop t rest := by
  have htake : takeLine isEol (l ++ (CRLF ++ rest)) = some (l, rest) :=
    takeLine_mates isEol (isEol_line hl) (by decide) (by decide) rest
  rw [feedHead, feed_eq, htake]
  simp only
  cases hact : headAct ⟨st, q⟩ l <;> rfl

/-- The head machine puts good fields into its table, as far as there are slots. -/
theorem feedHead_fieldLines {q : HttpReq} {us hs : List Header} (hu : ∀ x ∈ us, x.free = false)
    (hf : ∀ x ∈ hs, FieldOk x) (hq : q.inputHeaders = tableOf us) (rest : Bytes) :
    feedHead .readingHeaders q ((hs.map fun h => fieldLine h ++ CRLF).flatten ++ rest) =
      feedHead .readingHeaders { q with inputHeaders := tableOf (addFields us hs) } rest := by
  induction hs generalizing q us with
  | nil =>
    rw [List.map_nil, List.flatten_nil, List.nil_append, addFields, List.foldl_nil, ← hq]
  | cons h hs ih =>
    have hh := hf h List.mem_cons_self
    have hact : headAct ⟨.readingHeaders, q⟩ (fieldLine h) =
        .inl ⟨.readingHeaders, { q with inputHeaders := tableOf (addField h us) }⟩ := by
      simp only [headAct, hh.parseHeaderLine, hq]
      rw [fillSlot_tableOf h hu]
    have hused : ∀ x ∈ addField h us, x.free = false := by
      intro x hx
      rcases addField_mem hx with hx | rfl
      · exact hu x hx
      · exact hh.free
    rw [List.map_cons, List.flatten_cons, List.append_assoc, List.append_assoc,
      feedHead_line fun b hb => ⟨(hh.mem_fieldLine hb).1, (hh.mem_fieldLine hb).2.1⟩, hact]
    exact @ih { q with inputHeaders := tableOf (addField h us) } (addField h us) hused
      (fun x hx => hf x (List.mem_cons_of_mem h hx)) rfl

/-- The lines of good fields and an empty line. -/
theorem feedHead_fields {q : HttpReq} {us hs : List Header} (hu : ∀ x ∈ us, x.free = false)
    (hf : ∀ x ∈ hs, FieldOk x) (hq : q.inputHeaders = tableOf us) (rest : Bytes) :
    feedHead .readingHeaders q ((hs.map fun h => fieldLine h ++ CRLF).flatten ++ (CRLF ++ rest)) =
      .stop (.accepted { q with inputHeaders := tableOf (addFields us hs) }) rest := by
  rw [feedHead_fieldLines hu hf hq]
  have hline : feedHead .readingHeaders { q with inputHeaders := tableOf (addFields us hs) }
      ([] ++ (CRLF ++ rest)) = _ := feedHead_line (by simp) rest
  exact hline

/-- A whole head: a first line that parses, and the lines of good fields. -/
theorem feedHead_head {q q₁ : HttpReq} {line : Bytes} {hs : List Header}
    (hline : ∀ b ∈ line, b ≠ CR ∧ b ≠ LF) (hparse : parseFirstline q line = (q₁, true))
    (hq : q₁.inputHeaders = initHeaders) (hf : ∀ x ∈ hs, FieldOk x)
    (hl : hs.length ≤ HEADER_NUM) (rest : Bytes) :
    feedHead .readingFirstline q
        (line ++ (CRLF ++ ((hs.map fun h => fieldLine h ++ CRLF).flatten ++ (CRLF ++ rest)))) =
      .stop (.accepted { q₁ with inputHeaders := tableOf hs }) rest := by
  have hact : headAct ⟨.readingFirstline, q⟩ line = .inl ⟨.readingHeaders, q₁⟩ := by
    simp only [headAct, hparse]
  rw [feedHead_line hline, hact]
  have hall : addFields [] hs = hs := by
    rw [addFields_eq (Nat.zero_le _), List.nil_append, List.take_of_length_le (by simpa using hl)]
  have hfields := @feedHead_fields q₁ [] hs (fun x hx => by cases hx) hf
    (hq.trans tableOf_nil.symm) rest
  rwa [hall] at hfields

end Http
end Shs
