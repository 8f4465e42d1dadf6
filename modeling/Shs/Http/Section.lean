import Shs.Http.Fields

/-!
# Http.Section

A header section as `http_parse_headers` reads it: its lines, as C strings, one after the other on
the header table (`feedLine`), and the fields that they make up, each with the lines that continue
it.
-/

namespace Shs
namespace Http

open LineStream

/-! ## Lines and tables -/

def isContinuation (l : Bytes) : Bool := l.head?.any fun c => c == SP || c == TAB

/-- The name and the value that `http_parse_headers` takes from the first line of a field. -/
def lineName (l : Bytes) : Bytes := (strsep 58 l).1
def lineValue (l : Bytes) : Bytes := ((strsep 58 l).2.getD []).dropWhile (· == SP)

/-- `http_append_to_last_input_header` on the table. -/
def appendLast (hs : List Header) (l : Bytes) : Option (List Header) :=
  match hs with
  | [] => none
  | h0 :: _ =>
    if h0.free then none
    else
      let n := hs.findIdx Header.free
      let last := if n < hs.length then n - 1 else 0
      some (hs.modify last fun h => { h with value := h.value ++ l ++ [NUL] })

/-- One line of a section. -/
def feedLine (hs : List Header) (l : Bytes) : Option (List Header) :=
  if isContinuation l then appendLast hs l else some (fillSlot ⟨lineName l, lineValue l⟩ hs)

/-- A line of a section: a C string without line ends that continues a field or has a colon. -/
structure LineOk (l : Bytes) : Prop where
  ne    : l ≠ []
  text  : ∀ b ∈ l, b ≠ CR ∧ b ≠ LF ∧ b ≠ NUL
  kind  : isContinuation l = false → 58 ∈ l

theorem httpAppendToLastInputHeader_eq (q : HttpReq) (l : Bytes) :
    httpAppendToLastInputHeader q l =
      (appendLast q.inputHeaders l).map fun hs => { q with inputHeaders := hs } := by
  unfold httpAppendToLastInputHeader appendLast
  cases hh : q.inputHeaders with
  | nil => rfl
  | cons h0 hs =>
    simp only
    split <;> rfl

theorem strsep_mem {del : Byte} {s : Bytes} (h : del ∈ s) :
    ∃ t, strsep del s = ((strsep del s).1, some t) ∧ t <:+ s ∧ (strsep del s).1 <+: s := by
  induction s with
  | nil => cases h
  | cons x s ih =>
    by_cases hx : x = del
    · subst hx
      exact ⟨s, by simp [strsep], List.suffix_cons x s, by simp [strsep]⟩
    · have hs : del ∈ s := by
        rcases List.mem_cons.1 h with heq | hs
        · exact absurd heq.symm hx
        · exact hs
      obtain ⟨t, ht, hsuf, hpre⟩ := ih hs
      refine ⟨t, ?_, hsuf.trans (List.suffix_cons x s), ?_⟩
      · simp only [strsep, if_neg hx]
        rw [ht]
      · simp only [strsep, if_neg hx]
        exact List.cons_prefix_cons.2 ⟨rfl, hpre⟩

/-- The parser accepts every field line: what it stores has no line ends. -/
theorem addHeader_line {l : Bytes} (hl : LineOk l) (hc : 58 ∈ l) (hs : List Header) :
    addHeader (lineName l) (lineValue l) hs = some (fillSlot ⟨lineName l, lineValue l⟩ hs) := by
  obtain ⟨t, ht, hsuf, hpre⟩ := strsep_mem hc
  have hkey : (lineName l).any isEol = false := by
    rw [List.any_eq_false]
    intro b hb
    have hb := hl.text b (hpre.subset hb)
    simp [isEol_false hb.1 hb.2.1]
  have hvalue : ∀ b ∈ cstr (lineValue l), isEol b = false := by
    intro b hb
    have hbl : b ∈ lineValue l := (List.takeWhile_prefix _).subset hb
    rw [lineValue, ht, Option.getD_some] at hbl
    have hbl := hl.text b (hsuf.subset ((List.dropWhile_suffix _).subset hbl))
    exact isEol_false hbl.1 hbl.2.1
  simp [addHeader, hkey, httpHeaderIsValidValue_quiet hvalue]

/-- `parseHeaderLine` on a line of a section. -/
theorem parseHeaderLine_feedLine (q : HttpReq) {l : Bytes} (hl : LineOk l) :
    parseHeaderLine q l =
      match feedLine q.inputHeaders l with
      | some hs => .go { q with inputHeaders := hs }
      | none => .bad := by
  obtain ⟨c, cs, rfl⟩ := List.exists_cons_of_ne_nil hl.ne
  rw [feedLine]
  by_cases hblank : c = SP ∨ c = TAB
  · have hcont : isContinuation (c :: cs) = true := by
      rcases hblank with rfl | rfl <;> rfl
    rw [hcont, if_pos rfl]
    simp only [parseHeaderLine, if_pos hblank, httpAppendToLastInputHeader_eq]
    cases appendLast q.inputHeaders (c :: cs) <;> rfl
  · have hcont : isContinuation (c :: cs) = false := by
      have h1 : c ≠ SP := fun h => hblank (.inl h)
      have h2 : c ≠ TAB := fun h => hblank (.inr h)
      simp [isContinuation, h1, h2]
    have hcolon := hl.kind hcont
    obtain ⟨t, ht, _, _⟩ := strsep_mem hcolon
    have hname : lineName (c :: cs) = (strsep 58 (c :: cs)).1 := rfl
    have hval : lineValue (c :: cs) = t.dropWhile (· == SP) := by
      rw [lineValue, ht]
      rfl
    have hadd := addHeader_line hl hcolon q.inputHeaders
    rw [hval] at hadd
    rw [hcont, hval]
    simp only [parseHeaderLine, if_neg hblank, Bool.false_eq_true, if_false]
    rw [ht]
    simp only [httpAddInputHeader]
    rw [← hname, hadd]
    rfl

/-- The lines of a header section as C strings, up to the empty line, and the bytes behind it. -/
inductive SectionLines : Bytes → List Bytes → Bytes → Prop
  | done {d l r : Bytes} (hl : takeLine isEol d = some (l, r)) (he : cstr l = []) :
      SectionLines d [] r
  | line {d l r rest : Bytes} {ls : List Bytes} (hl : takeLine isEol d = some (l, r))
      (hne : cstr l ≠ []) (hr : SectionLines r ls rest) : SectionLines d (cstr l :: ls) rest

/-- The parser on a section: the lines one after the other on the table. -/
theorem feedHead_section {d rest : Bytes} {ls : List Bytes} (h : SectionLines d ls rest)
    (hok : ∀ l ∈ ls, LineOk l) (q : HttpReq) :
    match ls.foldlM feedLine q.inputHeaders with
    | some hs =>
      feedHead .readingHeaders q d = .stop (.accepted { q with inputHeaders := hs }) rest
    | none => ∃ q' r, feedHead .readingHeaders q d = .stop (.rejected .readingHeaders q') r := by
  induction h generalizing q with
  | done hl he =>
    show feedHead .readingHeaders q _ = _
    rw [feedHead, feed_stop isEol headAct hl]
    simp [headAct, he, parseHeaderLine]
  | @line d l r rest ls hl hne hr ih =>
    have hline := parseHeaderLine_feedLine q (hok _ List.mem_cons_self)
    rw [List.foldlM_cons]
    cases hf : feedLine q.inputHeaders (cstr l) with
    | none =>
      rw [hf] at hline
      refine ⟨q, r, ?_⟩
      rw [feedHead, feed_stop isEol headAct hl]
      simp [headAct, hline]
    | some hs =>
      rw [hf] at hline
      have hact : headAct ⟨.readingHeaders, q⟩ l =
          .inl ⟨.readingHeaders, { q with inputHeaders := hs }⟩ := by
        simp [headAct, hline]
      have hnext := ih (fun x hx => hok x (List.mem_cons_of_mem _ hx)) { q with inputHeaders := hs }
      rw [feedHead, feed_next isEol headAct hl hact]
      exact hnext

/-! ## Fields and their continuation lines -/

/-- A field of a section: its first line and the lines that continue it. -/
structure Field where
  line    : Bytes
  conts   : List Bytes
  lineOk  : LineOk line
  first   : isContinuation line = false
  contsOk : ∀ c ∈ conts, LineOk c ∧ isContinuation c = true

namespace Field

def lines (f : Field) : List Bytes := f.line :: f.conts
def name (f : Field) : Bytes := lineName f.line
def value (f : Field) : Bytes := lineValue f.line

/-- The value that the section gives the field. -/
def text (f : Field) : Bytes := f.value ++ f.conts.flatten

/-- The bytes that the lines of the field, and no others, make of its value. -/
def stored (f : Field) : Bytes := f.conts.foldl (fun v c => v ++ c ++ [NUL]) f.value

def entry (f : Field) : Header := ⟨f.name, f.stored⟩

/-- A field without name and value: its entry looks like an unused slot. -/
def blank (f : Field) : Bool := (Header.mk f.name f.value).free

theorem value_text (f : Field) : ∀ b ∈ f.value, b ≠ NUL := by
  obtain ⟨t, ht, hsuf, _⟩ := strsep_mem (f.lineOk.kind f.first)
  intro b hb
  rw [value, lineValue, ht, Option.getD_some] at hb
  exact (f.lineOk.text b (hsuf.subset ((List.dropWhile_suffix _).subset hb))).2.2

theorem conts_text (f : Field) {c : Bytes} (hc : c ∈ f.conts) : ∀ b ∈ c, b ≠ NUL :=
  fun b hb => ((f.contsOk c hc).1.text b hb).2.2

end Field

theorem foldl_stored (cs : List Bytes) (v : Bytes) :
    v <+: cs.foldl (fun v c => v ++ c ++ [NUL]) v := by
  induction cs generalizing v with
  | nil => exact List.prefix_rfl
  | cons c cs ih =>
    have hstep : v <+: v ++ c ++ [NUL] := by
      rw [List.append_assoc]
      exact List.prefix_append v _
    exact hstep.trans (ih _)

theorem cstr_append_nul {s : Bytes} (h : ∀ b ∈ s, b ≠ NUL) (t : Bytes) : cstr (s ++ NUL :: t) = s := by
  rw [cstr, List.takeWhile_append_of_pos fun b hb => by simpa using h b hb]
  simp

/-- Read as a C string, the stored value ends behind the first continuation line. -/
theorem Field.cstr_stored (f : Field) : cstr f.stored = f.value ++ f.conts.head?.getD [] := by
  cases hc : f.conts with
  | nil =>
    rw [stored, hc]
    simpa using cstr_eq_self f.value_text
  | cons c cs =>
    obtain ⟨t, ht⟩ := foldl_stored cs (f.value ++ c ++ [NUL])
    have hstored : f.stored = (f.value ++ c) ++ NUL :: t := by
      rw [stored, hc, List.foldl_cons, ← ht]
      simp
    have hnul : ∀ b ∈ f.value ++ c, b ≠ NUL := by
      intro b hb
      rcases List.mem_append.1 hb with hb | hb
      · exact f.value_text b hb
      · exact f.conts_text (hc ▸ List.mem_cons_self) b hb
    rw [hstored, cstr_append_nul hnul]
    rfl

theorem Field.stored_text (f : Field) : cstr f.stored = f.text ↔ f.conts.length ≤ 1 := by
  rw [f.cstr_stored, text, List.append_cancel_left_eq]
  have hok := f.contsOk
  revert hok
  cases f.conts with
  | nil => simp
  | cons c cs =>
    cases cs with
    | nil => simp
    | cons c' cs =>
      intro hok
      have hne := (hok c' (by simp)).1.ne
      simp [hne]

/-! ## Lines on a table with some entries -/

/-- The entry before the first free slot, or entry 0 of a full table. -/
def lastEntry (hs : List Header) : Nat :=
  if hs.findIdx Header.free < hs.length then hs.findIdx Header.free - 1 else 0

def Header.grow (l : Bytes) (h : Header) : Header := { h with value := h.value ++ l ++ [NUL] }

theorem appendLast_some {hs hs' : List Header} {l : Bytes} (h : appendLast hs l = some hs') :
    hs' = hs.modify (lastEntry hs) (Header.grow l) := by
  cases hs with
  | nil => cases h
  | cons h0 hs =>
    simp only [appendLast] at h
    split at h
    · cases h
    · exact (Option.some.inj h).symm

theorem findIdx_tableOf {us : List Header} (hu : ∀ x ∈ us, x.free = false) :
    (tableOf us).findIdx Header.free = us.length := by
  rw [tableOf, List.findIdx_append]
  have hnone : us.findIdx Header.free = us.length := by
    rw [List.findIdx_eq_length]
    exact hu
  rw [hnone, if_neg (Nat.lt_irrefl _)]
  cases hk : HEADER_NUM - us.length with
  | zero => simp
  | succ k =>
    rw [List.replicate_succ, List.findIdx_cons]
    simp [Header.free, Header.null]

theorem tableOf_length {us : List Header} (hl : us.length ≤ HEADER_NUM) :
    (tableOf us).length = HEADER_NUM := by
  rw [tableOf, List.length_append, List.length_replicate]
  omega

/-- The entry that a continuation line is added to. -/
theorem lastEntry_tableOf {us : List Header} (hu : ∀ x ∈ us, x.free = false)
    (hl : us.length ≤ HEADER_NUM) :
    lastEntry (tableOf us) = if us.length < HEADER_NUM then us.length - 1 else 0 := by
  rw [lastEntry, findIdx_tableOf hu, tableOf_length hl]

theorem tableOf_modify {us : List Header} {k : Nat} (hk : k < us.length) (f : Header → Header) :
    (tableOf us).modify k f = tableOf (us.modify k f) := by
  rw [tableOf, tableOf, List.length_modify]
  apply List.ext_getElem?
  intro i
  simp only [List.getElem?_modify, List.getElem?_append, List.length_modify]
  by_cases hi : i < us.length
  · simp [hi]
  · have hki : k ≠ i := by omega
    simp [hi, hki]

/-- `http_append_to_last_input_header` on a table with some entries. -/
theorem appendLast_tableOf {us : List Header} (hne : us ≠ []) (hu : ∀ x ∈ us, x.free = false)
    (hl : us.length ≤ HEADER_NUM) (l : Bytes) :
    appendLast (tableOf us) l = some (tableOf (us.modify
      (if us.length < HEADER_NUM then us.length - 1 else 0) (Header.grow l))) := by
  have hpos := List.length_pos_iff.2 hne
  have hlast := lastEntry_tableOf hu hl
  have hlt : (if us.length < HEADER_NUM then us.length - 1 else 0) < us.length := by
    split <;> omega
  rw [← tableOf_modify hlt, ← hlast]
  obtain ⟨h0, rest, rfl⟩ := List.exists_cons_of_ne_nil hne
  have hfree : h0.free = false := hu h0 List.mem_cons_self
  rw [tableOf, List.cons_append, appendLast, if_neg (by simp [hfree])]
  rfl

theorem modify_last {α : Type} (us : List α) (x : α) (f : α → α) :
    (us ++ [x]).modify us.length f = us ++ [f x] := by
  induction us with
  | nil => rfl
  | cons u us ih => simpa using ih

/-- Continuation lines go to the last entry while there is a free slot behind it. -/
theorem feedConts_last {us : List Header} {h : Header} {cs : List Bytes}
    (hu : ∀ x ∈ us, x.free = false) (hh : h.free = false) (hl : us.length + 1 < HEADER_NUM)
    (hcs : ∀ c ∈ cs, isContinuation c = true) :
    cs.foldlM feedLine (tableOf (us ++ [h])) =
      some (tableOf (us ++ [⟨h.key, cs.foldl (fun v c => v ++ c ++ [NUL]) h.value⟩])) := by
  induction cs generalizing h with
  | nil => rfl
  | cons c cs ih =>
    have hall : ∀ x ∈ us ++ [h], x.free = false := by
      intro x hx
      rcases List.mem_append.1 hx with hx | hx
      · exact hu x hx
      · rw [List.mem_singleton.1 hx]
        exact hh
    have hlen : (us ++ [h]).length = us.length + 1 := by simp
    have hstep : feedLine (tableOf (us ++ [h])) c = some (tableOf (us ++ [Header.grow c h])) := by
      rw [feedLine, hcs c List.mem_cons_self, if_pos rfl,
        appendLast_tableOf (by simp) hall (by omega), hlen, if_pos hl, Nat.add_sub_cancel,
        modify_last]
    have hgrow : (Header.grow c h).free = false := by
      simp [Header.grow, Header.free]
    rw [List.foldlM_cons, hstep, List.foldl_cons]
    exact ih hgrow fun c hc => hcs c (List.mem_cons_of_mem _ hc)

end Http
end Shs
