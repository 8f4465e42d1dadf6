import Shs.Http.Fields

/-!
# Http.Generated

The output table of a response behind `http_make_response_header`: the entries that the handler
has put there, and behind them those that are generated, as far as the table has slots.
-/

namespace Shs
namespace Http

/-! ## Some additions -/

theorem addFields_append (us es es' : List Header) :
    addFields us (es ++ es') = addFields (addFields us es) es' := by
  rw [addFields, List.foldl_append]
  rfl

theorem addFields_length {us : List Header} (h : us.length ≤ HEADER_NUM) (es : List Header) :
    (addFields us es).length ≤ HEADER_NUM := by
  rw [addFields_eq h, List.length_append, List.length_take]
  omega

theorem mem_addFields {us es : List Header} {x : Header} (h : x ∈ addFields us es) :
    x ∈ us ∨ x ∈ es := by
  induction es generalizing us with
  | nil => exact .inl h
  | cons e es ih =>
    rcases @ih (addField e us) h with hx | hx
    · rcases addField_mem hx with hx | rfl
      · exact .inl hx
      · exact .inr List.mem_cons_self
    · exact .inr (List.mem_cons_of_mem e hx)

theorem prefix_addFields (us es : List Header) : us <+: addFields us es := by
  induction es generalizing us with
  | nil => exact List.prefix_rfl
  | cons e es ih => exact (prefix_addField e us).trans (ih _)

/-- Additions with another name do not change whether a name is there. -/
theorem httpExistHeader_addFields {us es : List Header} {name : Bytes}
    (h : ∀ e ∈ es, e.named name = false) :
    httpExistHeader (addFields us es) name = httpExistHeader us name := by
  rw [Bool.eq_iff_iff, httpExistHeader, httpExistHeader, List.any_eq_true, List.any_eq_true]
  constructor
  · rintro ⟨x, hx, hn⟩
    rcases mem_addFields hx with hx | hx
    · exact ⟨x, hx, hn⟩
    · rw [h x hx] at hn
      cases hn
  · rintro ⟨x, hx, hn⟩
    exact ⟨x, (prefix_addFields us es).subset hx, hn⟩

theorem take_middle {α : Type} (pre : List α) (c : α) (post : List α) (k : Nat) :
    (pre ++ c :: post).take k =
      if pre.length < k then pre ++ c :: post.take (k - pre.length - 1) else pre.take k := by
  rw [List.take_append]
  split
  · rename_i h
    obtain ⟨n, hn⟩ : ∃ n, k - pre.length = n + 1 := ⟨k - pre.length - 1, by omega⟩
    rw [List.take_of_length_le (Nat.le_of_lt h), hn, List.take_succ_cons, Nat.add_sub_cancel]
  · rename_i h
    rw [Nat.sub_eq_zero_of_le (Nat.le_of_not_lt h), List.take_zero, List.append_nil]

/-- The output table holds the fields `us` in its first slots. -/
structure Holds (us : List Header) (q : HttpReq) : Prop where
  table : q.outputHeaders = tableOf us
  used  : ∀ x ∈ us, x.free = false
  fits  : us.length ≤ HEADER_NUM

/-- `http_add_output_header` on a field that passes its checks. -/
theorem Holds.add {us : List Header} {q : HttpReq} (h : Holds us q) {e : Header}
    (hfree : e.free = false) (hkey : e.key.any isEol = false)
    (hvalid : httpHeaderIsValidValue (cstr e.value) = true) :
    Holds (addField e us) (httpAddOutputHeader q e.key e.value) where
  table := by
    rw [httpAddOutputHeader, addHeader, hkey, hvalid]
    simp only [Bool.not_true, Bool.or_self, Bool.false_eq_true, if_false, Option.getD_some]
    rw [h.table, fillSlot_tableOf e h.used]
  used := by
    intro x hx
    rcases addField_mem hx with hx | rfl
    · exact h.used x hx
    · exact hfree
  fits := addField_length h.fits

/-- The table has a slot for an entry behind `n` others. -/
def hasRoom (hs : List Header) (n : Nat) : Bool :=
  decide (hs.countP (fun h => !h.free) + n < HEADER_NUM)

theorem hasRoom_used {us : List Header} (hu : ∀ x ∈ us, x.free = false) (n : Nat) :
    hasRoom (tableOf us) n = decide (us.length + n < HEADER_NUM) := by
  have hnull : (List.replicate (HEADER_NUM - us.length) Header.null).countP (fun h => !h.free) =
      0 := by
    rw [List.countP_eq_zero]
    intro x hx
    rw [(List.mem_replicate.1 hx).2]
    decide
  have hused : us.countP (fun h => !h.free) = us.length := by
    rw [List.countP_eq_length]
    intro x hx
    simp [hu x hx]
  rw [hasRoom, tableOf, List.countP_append, hnull, hused, Nat.add_zero]

theorem hasRoom_tableOf {us : List Header} {q : HttpReq} (h : Holds us q) (n : Nat) :
    hasRoom q.outputHeaders n = decide (us.length + n < HEADER_NUM) := by
  rw [h.table, hasRoom_used h.used]

/-! ## The table that is sent -/

/-- An entry that takes a slot and passes the checks of `http_add_output_header`. -/
structure Accepted (e : Header) : Prop where
  free  : e.free = false
  key   : e.key.any isEol = false
  value : httpHeaderIsValidValue (cstr e.value) = true

/-- A request on the way through `http_make_response_header`: the entries `es` have been added to
the table of `q`, and nothing else but the buffer has changed. -/
structure Stage (q : HttpReq) (us es : List Header) (q' : HttpReq) : Prop where
  holds  : Holds (addFields us es) q'
  writes : Writes q q'

/-- One entry, or none. -/
def entryIf (b : Bool) (e : Header) : List Header := if b then [e] else []

theorem mem_entryIf {b : Bool} {e x : Header} (h : x ∈ entryIf b e) : x = e := by
  unfold entryIf at h
  split at h
  · exact List.mem_singleton.1 h
  · cases h

theorem entryIf_length (b : Bool) (e : Header) : (entryIf b e).length = b.toNat := by
  cases b <;> rfl

theorem entryIf_false {e : Header} : entryIf false e = [] := rfl

theorem Stage.addIf {q q' : HttpReq} {us es : List Header} {c : Prop} [Decidable c] {b : Bool}
    (h : Stage q us es q') {e : Header} (he : Accepted e) (hc : c ↔ b = true) :
    Stage q us (es ++ entryIf b e)
      (if c then httpAddOutputHeader q' e.key e.value else q') := by
  cases b with
  | true =>
    rw [if_pos (hc.2 rfl)]
    refine ⟨?_, h.writes.trans (writes_addOutputHeader q' _ _)⟩
    rw [addFields_append]
    exact h.holds.add he.free he.key he.value
  | false =>
    rw [if_neg (by simp [hc]), entryIf, if_neg (by simp), List.append_nil]
    exact h

theorem Stage.addUnless {q q' : HttpReq} {us es : List Header} {c : Prop} [Decidable c] {b : Bool}
    (h : Stage q us es q') {e : Header} (he : Accepted e) (hc : ¬ c ↔ b = true) :
    Stage q us (es ++ entryIf b e)
      (if c then q' else httpAddOutputHeader q' e.key e.value) := by
  have hadd := h.addIf he hc
  rwa [ite_not] at hadd

theorem Stage.exist {q q' : HttpReq} {us es : List Header} (h : Stage q us es q')
    (hq : Holds us q) {name : Bytes} (hes : ∀ e ∈ es, e.named name = false) :
    httpExistHeader q'.outputHeaders name = httpExistHeader q.outputHeaders name := by
  rw [h.holds.table, hq.table, httpExistHeader_tableOf, httpExistHeader_tableOf,
    httpExistHeader_addFields hes]

def dateHeader (cfg : WriteCfg) : Header := ⟨str "Date", cfg.date⟩
def lengthHeader (q : HttpReq) : Header := ⟨str "Content-Length", decimal q.outputBody.length⟩
def typeHeader : Header := ⟨str "Content-Type", str "text/html; charset=ISO-8859-1"⟩
def keepAliveHeader : Header := ⟨str "Connection", str "keep-alive"⟩
def closeHeader : Header := ⟨str "Connection", str "close"⟩

/-! Which of them `http_make_response_header` adds. -/

def addsDate (cfg : WriteCfg) (q : HttpReq) : Bool :=
  sentMinor cfg q == 1 && !httpExistHeader q.outputHeaders (str "Date")

def addsLength (q : HttpReq) : Bool :=
  !(httpExistHeader q.outputHeaders (str "Transfer-Encoding") ||
    httpExistHeader q.outputHeaders (str "Content-Length"))

def addsType (q : HttpReq) : Bool :=
  q.outputBody.length != 0 && !httpExistHeader q.outputHeaders (str "Content-Type")

def addsKeepAlive (cfg : WriteCfg) (q : HttpReq) : Bool :=
  sentMinor cfg q == 0 && (httpIsConnectionKeepalive q.inputHeaders && !cfg.disableHttpKeepalive)

def addsClose (cfg : WriteCfg) (q : HttpReq) : Bool :=
  cfg.disableHttpKeepalive || httpIsConnectionClose q.inputHeaders

/-- The entries in their order. -/
def added (cfg : WriteCfg) (q : HttpReq) : List Header :=
  entryIf (addsDate cfg q) (dateHeader cfg) ++ entryIf (addsKeepAlive cfg q) keepAliveHeader ++
    entryIf (addsLength q) (lengthHeader q) ++ entryIf (addsType q) typeHeader ++
    entryIf (addsClose cfg q) closeHeader

theorem accepted_text {h : Header} (hname : h.key ≠ []) (hkey : h.key.any isEol = false)
    (htext : ∀ b ∈ h.value, isEol b = false) : Accepted h where
  free := by simp [Header.free, hname]
  key := hkey
  value := httpHeaderIsValidValue_quiet fun b hb => htext b ((List.takeWhile_prefix _).subset hb)

theorem accepted_date {cfg : WriteCfg} (h : httpHeaderIsValidValue (cstr cfg.date) = true) :
    Accepted (dateHeader cfg) where
  free := rfl
  key := by
    show (str "Date").any isEol = false
    decide
  value := h

theorem accepted_length (q : HttpReq) : Accepted (lengthHeader q) := by
  refine accepted_text ?_ ?_ fun b hb => ?_
  · exact List.cons_ne_nil _ _
  · show (str "Content-Length").any isEol = false
    decide
  · have hb := mem_decimal (v := q.outputBody.length) hb
    exact isEol_false hb.2.1 hb.2.2.1

theorem accepted_type : Accepted typeHeader :=
  accepted_text (by decide) (by decide) (by decide +kernel)

theorem accepted_keepAlive : Accepted keepAliveHeader :=
  accepted_text (by decide) (by decide) (by decide +kernel)

theorem accepted_close : Accepted closeHeader :=
  accepted_text (by decide) (by decide) (by decide +kernel)

theorem sentMinor_cases (cfg : WriteCfg) {q : HttpReq} (hminor : q.minor ≤ 1) :
    sentMinor cfg q = 1 ∧ q.minor = 1 ∧ cfg.disableHttpKeepalive = false ∨
      sentMinor cfg q = 0 ∧ (q.minor = 0 ∨ cfg.disableHttpKeepalive = true) := by
  unfold sentMinor
  cases cfg.disableHttpKeepalive with
  | true => simp
  | false =>
    rcases Nat.le_one_iff_eq_zero_or_eq_one.1 hminor with h | h <;> simp [h]

namespace Stage

variable {cfg : WriteCfg} {q q' : HttpReq} {us es : List Header}

theorem outputBody (h : Stage q us es q') : q'.outputBody = q.outputBody := by
  obtain ⟨buf, hs, rfl⟩ := h.writes
  rfl

theorem inputHeaders (h : Stage q us es q') : q'.inputHeaders = q.inputHeaders := by
  obtain ⟨buf, hs, rfl⟩ := h.writes
  rfl

theorem date (h : Stage q us es q') (hq : Holds us q)
    (hdate : httpHeaderIsValidValue (cstr cfg.date) = true)
    (hes : ∀ e ∈ es, e.named (str "Date") = false) :
    Stage q us (es ++ entryIf (addsDate cfg q) (dateHeader cfg))
      (if sentMinor cfg q = 1 then httpAddDateHeader cfg q' else q') := by
  by_cases hm : sentMinor cfg q = 1
  · rw [if_pos hm, httpAddDateHeader]
    refine h.addUnless (accepted_date hdate) ?_
    rw [h.exist hq hes]
    simp [addsDate, hm]
  · have hno : addsDate cfg q = false := by simp [addsDate, hm]
    rw [if_neg hm, hno, entryIf, if_neg (by simp), List.append_nil]
    exact h

theorem length (h : Stage q us es q') (hq : Holds us q)
    (hes : ∀ e ∈ es, e.named (str "Transfer-Encoding") = false ∧
      e.named (str "Content-Length") = false) :
    Stage q us (es ++ entryIf (addsLength q) (lengthHeader q))
      (httpAddContentLengthHeader q' q'.outputBody.length) := by
  rw [httpAddContentLengthHeader, h.outputBody]
  refine h.addUnless (accepted_length q) ?_
  rw [h.exist hq fun e he => (hes e he).1, h.exist hq fun e he => (hes e he).2]
  simp [addsLength]

theorem type (h : Stage q us es q') (hq : Holds us q)
    (hes : ∀ e ∈ es, e.named (str "Content-Type") = false) :
    Stage q us (es ++ entryIf (addsType q) typeHeader)
      (if q'.outputBody.length ≠ 0 ∧ !httpExistHeader q'.outputHeaders (str "Content-Type") then
        httpAddOutputHeader q' (str "Content-Type") (str "text/html; charset=ISO-8859-1")
      else q') := by
  refine h.addIf accepted_type ?_
  rw [h.exist hq hes, h.outputBody]
  simp [addsType]

theorem close (h : Stage q us es q') (cfg : WriteCfg) :
    Stage q us (es ++ entryIf (addsClose cfg q) closeHeader)
      (if cfg.disableHttpKeepalive || httpIsConnectionClose q'.inputHeaders then
        httpAddOutputHeader q' (str "Connection") (str "close")
      else q') := by
  refine h.addIf accepted_close ?_
  rw [h.inputHeaders, addsClose]

end Stage

/-- `http_make_response_header` adds its entries to the table, as far as there are slots. -/
theorem stage_httpMakeResponseHeader {cfg : WriteCfg} {q : HttpReq} {us : List Header}
    (h : Holds us q) (hmajor : q.major = 1)
    (hdate : httpHeaderIsValidValue (cstr cfg.date) = true) :
    Stage q us (added cfg q) (httpMakeResponseHeader cfg q) := by
  have h₀ : Stage q us [] (putOut q (statusLine cfg q)) :=
    ⟨⟨h.table, h.used, h.fits⟩, writes_putOut q _⟩
  have h₁ := h₀.date h hdate (by simp)
  have h₂ := h₁.addIf (c := ((decide (sentMinor cfg q = 0) &&
    (httpIsConnectionKeepalive q.inputHeaders && !cfg.disableHttpKeepalive)) = true))
    (b := addsKeepAlive cfg q) accepted_keepAlive (by simp [addsKeepAlive])
  have h₃ := h₂.length h (by
    intro e he
    rw [List.nil_append, List.mem_append] at he
    rcases he with he | he <;> rw [mem_entryIf he] <;> exact ⟨rfl, rfl⟩)
  have h₄ := h₃.type h (by
    intro e he
    rw [List.nil_append, List.mem_append, List.mem_append] at he
    rcases he with (he | he) | he <;> rw [mem_entryIf he] <;> rfl)
  have h₅ := h₄.close cfg
  unfold httpMakeResponseHeader
  simp only
  rw [if_pos (show (putOut q _).major = 1 from hmajor)]
  exact h₅

theorem sentHeaders_response {cfg : WriteCfg} {q : HttpReq} {us : List Header} (h : Holds us q) (hkind : q.kind = .response) (hmajor : q.major = 1)
    (hdate : httpHeaderIsValidValue (cstr cfg.date) = true) :
    sentHeaders cfg q = tableOf (addFields us (added cfg q)) := by
  rw [sentHeaders, hkind]
  exact (stage_httpMakeResponseHeader h hmajor hdate).holds.table

end Http
end Shs
