import Shs.Http.Section

/-!
# Http.Folding

What `http_parse_headers` makes of a header section whose fields are spread over continuation
lines, and the sections for which this is what they say.
-/

namespace Shs
namespace Http

/-! ## Entries only grow -/

/-- The bytes of an entry; a free slot has none. -/
def Header.size (h : Header) : Nat := h.key.length + h.value.length

def weight (hs : List Header) (i : Nat) : Nat :=
  match hs[i]? with
  | some h => h.size
  | none => 0

theorem weight_of {hs : List Header} {i : Nat} {h : Header} (hi : hs[i]? = some h) :
    weight hs i = h.size := by
  rw [weight, hi]

theorem size_eq_zero {h : Header} : h.size = 0 ↔ h.free = true := by
  simp [Header.size, Header.free]

theorem size_pos {h : Header} (hf : h.free = false) : 0 < h.size := by
  rw [Nat.pos_iff_ne_zero, ne_eq, size_eq_zero, hf]
  exact Bool.false_ne_true

theorem weight_fillSlot (h : Header) (hs : List Header) (i : Nat) :
    weight hs i ≤ weight (fillSlot h hs) i := by
  induction hs generalizing i with
  | nil => exact Nat.le_refl _
  | cons x hs ih =>
    rw [fillSlot]
    split
    · rename_i hfree
      cases i with
      | zero =>
        rw [weight_of (h := x) rfl, size_eq_zero.2 hfree]
        exact Nat.zero_le _
      | succ i => exact Nat.le_refl _
    · cases i with
      | zero => exact Nat.le_refl _
      | succ i => exact ih i

theorem weight_grow (hs : List Header) (l : Bytes) (k i : Nat) :
    weight hs i ≤ weight (hs.modify k (Header.grow l)) i := by
  unfold weight
  rw [List.getElem?_modify]
  cases hs[i]? with
  | none => simp
  | some h =>
    by_cases hk : k = i
    · simp only [hk, if_true, Option.map_eq_map, Option.map_some, Header.grow, Header.size,
        List.length_append]
      omega
    · simp [hk]

theorem weight_feedLine {hs hs' : List Header} {l : Bytes} (h : feedLine hs l = some hs')
    (i : Nat) : weight hs i ≤ weight hs' i := by
  unfold feedLine at h
  split at h
  · rw [appendLast_some h]
    exact weight_grow hs l _ i
  · rw [← Option.some.inj h]
    exact weight_fillSlot _ hs i

theorem weight_foldlM {ls : List Bytes} {hs hs' : List Header}
    (h : ls.foldlM feedLine hs = some hs') (i : Nat) : weight hs i ≤ weight hs' i := by
  induction ls generalizing hs with
  | nil =>
    cases h
    exact Nat.le_refl _
  | cons l ls ih =>
    rw [List.foldlM_cons] at h
    obtain ⟨hs₁, hl, hrest⟩ := Option.bind_eq_some_iff.1 h
    exact Nat.le_trans (weight_feedLine hl i) (ih hrest)

/-! ## The table of a section -/

/-- The entries of the fields that have a slot of their own. -/
def kept (fs : List Field) : List Header :=
  ((fs.take HEADER_NUM).takeWhile fun f => !f.blank).map Field.entry

/-- What the parser needs of a field `f` behind the fields `pre`: at most one continuation line,
none where entry 0 would get it or where the field has no entry, and no blank field in front of
it whose slot it would take. -/
structure StepOk (pre : List Field) (f : Field) : Prop where
  once  : f.conts.length ≤ 1
  full  : HEADER_NUM ≤ pre.length + 1 → f.conts = []
  blank : f.blank = true → f.conts = []
  front : f.blank = false → ∀ g ∈ pre.take HEADER_NUM, g.blank = false

/-- The sections that the parser folds as they are meant. -/
def FoldOk (fs : List Field) : Prop :=
  ∀ i (h : i < fs.length), StepOk (fs.take i) fs[i]

theorem Field.entry_free {f : Field} (h : f.blank = false) : f.entry.free = false := by
  obtain ⟨t, ht⟩ := foldl_stored f.conts f.value
  have hstored : f.stored = f.value ++ t := ht.symm
  simp only [blank, Header.free, Bool.and_eq_false_iff, List.isEmpty_eq_false_iff] at h
  simp only [entry, Header.free, Bool.and_eq_false_iff, List.isEmpty_eq_false_iff, hstored]
  rcases h with h | h
  · exact .inl h
  · exact .inr (by simp [h])

theorem kept_free (fs : List Field) : ∀ x ∈ kept fs, x.free = false := by
  intro x hx
  obtain ⟨f, hf, rfl⟩ := List.mem_map.1 hx
  have hblank := List.mem_takeWhile_imp hf
  exact Field.entry_free (by simpa using hblank)

theorem kept_length (fs : List Field) : (kept fs).length ≤ HEADER_NUM := by
  have htake := (List.takeWhile_prefix (fun f : Field => !f.blank)
    (l := fs.take HEADER_NUM)).length_le
  rw [kept, List.length_map]
  exact Nat.le_trans htake (List.length_take_le _ _)

theorem kept_getElem {fs : List Field} {k : Nat} (hk : k < (kept fs).length) :
    ∃ f, fs[k]? = some f ∧ (kept fs)[k]? = some f.entry := by
  have hpre : (fs.take HEADER_NUM).takeWhile (fun f => !f.blank) <+: fs :=
    (List.takeWhile_prefix _).trans (List.take_prefix _ _)
  unfold kept at hk ⊢
  generalize (fs.take HEADER_NUM).takeWhile (fun f => !f.blank) = gs at hk hpre
  obtain ⟨t, rfl⟩ := hpre
  rw [List.length_map] at hk
  refine ⟨gs[k], ?_, ?_⟩
  · rw [List.getElem?_append_left hk, List.getElem?_eq_getElem hk]
  · rw [List.getElem?_map, List.getElem?_eq_getElem hk]
    rfl

/-- A field behind which no field of the table is blank comes behind the entries of all of them. -/
theorem kept_full {pre : List Field} (h : ∀ g ∈ pre.take HEADER_NUM, g.blank = false) :
    kept pre = (pre.take HEADER_NUM).map Field.entry := by
  rw [kept, List.takeWhile_eq_self_iff.2]
  intro g hg
  simp [h g hg]

theorem kept_append_blank {pre : List Field} {f : Field} (h : f.blank = true) :
    kept (pre ++ [f]) = kept pre := by
  unfold kept
  rw [List.take_append, List.takeWhile_append]
  have hlast : ([f].take (HEADER_NUM - pre.length)).takeWhile (fun f => !f.blank) = [] := by
    cases HEADER_NUM - pre.length with
    | zero => rfl
    | succ k => simp [h]
  rw [hlast]
  split
  · rename_i hall
    rw [List.append_nil, List.takeWhile_eq_self_iff.2]
    have heq := (List.takeWhile_prefix (fun f : Field => !f.blank)
      (l := pre.take HEADER_NUM)).eq_of_length hall
    exact List.takeWhile_eq_self_iff.1 heq
  · rfl

theorem kept_append {pre : List Field} {f : Field} (hf : f.blank = false)
    (h : ∀ g ∈ pre.take HEADER_NUM, g.blank = false) :
    kept (pre ++ [f]) = addField f.entry (kept pre) := by
  have hall : ∀ g ∈ (pre ++ [f]).take HEADER_NUM, g.blank = false := by
    intro g hg
    rw [List.take_append, List.mem_append] at hg
    rcases hg with hg | hg
    · exact h g hg
    · rw [List.mem_singleton.1 (List.mem_of_mem_take hg)]
      exact hf
  rw [kept_full hall, kept_full h, addField, List.length_map, List.length_take]
  split
  · rw [List.take_append, List.take_of_length_le (by omega : pre.length ≤ HEADER_NUM)]
    rw [List.take_of_length_le (by simp; omega)]
    simp
  · rw [List.take_append_of_le_length (by omega)]

/-- The first line of a field. -/
theorem feedLine_first (f : Field) {us : List Header} (hu : ∀ x ∈ us, x.free = false) :
    feedLine (tableOf us) f.line = some (tableOf
      (if f.blank then us else addField ⟨f.name, f.value⟩ us)) := by
  rw [feedLine, f.first, if_neg (by simp)]
  by_cases hb : f.blank = true
  · have hnull : Header.mk f.name f.value = Header.null := by
      simpa [Field.blank, Header.free, Header.null] using hb
    have hfill := fillSlot_null (tableOf us)
    rw [← hnull] at hfill
    rw [if_pos hb]
    exact congrArg some hfill
  · rw [if_neg hb]
    exact congrArg some (fillSlot_tableOf _ hu)

/-- **One field of a section**: its lines give it its entry, and change no other. -/
theorem feedField_ok {pre : List Field} {f : Field} (h : StepOk pre f) :
    f.lines.foldlM feedLine (tableOf (kept pre)) = some (tableOf (kept (pre ++ [f]))) := by
  rw [Field.lines, List.foldlM_cons, feedLine_first f (kept_free pre)]
  by_cases hb : f.blank = true
  · rw [if_pos hb, kept_append_blank hb, h.blank hb]
    rfl
  · have hb : f.blank = false := by simpa using hb
    have hlen : (kept pre).length = min HEADER_NUM pre.length := by
      rw [kept_full (h.front hb), List.length_map, List.length_take]
    rw [if_neg (by simp [hb]), kept_append hb (h.front hb)]
    cases hc : f.conts with
    | nil =>
      have hentry : f.entry = ⟨f.name, f.value⟩ := by
        rw [Field.entry, Field.stored, hc]
        rfl
      rw [hentry]
      rfl
    | cons c cs =>
      have hroom : pre.length + 1 < HEADER_NUM := by
        by_contra hge
        have hnil := h.full (by omega)
        rw [hc] at hnil
        cases hnil
      have hadd : ∀ x, addField x (kept pre) = kept pre ++ [x] := fun x => if_pos (by omega)
      rw [hadd, hadd, ← hc]
      exact feedConts_last (kept_free pre) hb (by omega) fun c hc => (f.contsOk c hc).2

/-- The fields of a section one after the other. -/
theorem feedFields_ok {fs : List Field} {i : Nat} (hi : i ≤ fs.length)
    (h : ∀ j (hj : j < fs.length), j < i → StepOk (fs.take j) fs[j]) :
    ((fs.take i).flatMap Field.lines).foldlM feedLine initHeaders =
      some (tableOf (kept (fs.take i))) := by
  induction i with
  | zero => rfl
  | succ i ih =>
    have hlt : i < fs.length := hi
    have hpre := ih (Nat.le_of_lt hlt) fun j hj hji => h j hj (Nat.lt_succ_of_lt hji)
    have hstep := feedField_ok (h i hlt (Nat.lt_succ_self i))
    rw [← List.take_append_getElem hlt, List.flatMap_append, List.foldlM_append, hpre,
      List.flatMap_singleton]
    exact hstep

theorem takeWhile_stop {α : Type} {p : α → Bool} {l : List α}
    (h : (l.takeWhile p).length < l.length) :
    ∃ x, l[(l.takeWhile p).length]? = some x ∧ p x = false := by
  induction l with
  | nil => simp at h
  | cons a l ih =>
    cases hp : p a with
    | false => exact ⟨a, by simp [hp], hp⟩
    | true =>
      rw [List.takeWhile_cons_of_pos hp] at h ⊢
      obtain ⟨x, hx, hpx⟩ := ih (by simpa using h)
      exact ⟨x, by simpa using hx, hpx⟩

/-- Behind the entries that are kept stands a blank field. -/
theorem kept_stop {l : List Field} (h : (kept l).length < l.length)
    (hnum : (kept l).length < HEADER_NUM) :
    ∃ g, l[(kept l).length]? = some g ∧ g.blank = true := by
  rw [kept, List.length_map] at h hnum ⊢
  obtain ⟨g, hg, hblank⟩ := takeWhile_stop (p := fun f : Field => !f.blank)
    (l := l.take HEADER_NUM) (by rw [List.length_take]; omega)
  refine ⟨g, ?_, by simpa using hblank⟩
  rwa [List.getElem?_take_of_lt hnum] at hg

theorem Field.entry_null {f : Field} (hb : f.blank = true) (hc : f.conts = []) :
    f.entry = Header.null := by
  have hnull : f.name = [] ∧ f.value = [] := by simpa [blank, Header.free] using hb
  rw [entry, stored, hc, hnull.1, List.foldl_nil, hnull.2, Header.null]

/-- What is asked of `http_parse_headers`: it accepts the section, and every field up to the size
of the table has its entry: the name, the bytes that the lines of this field make, and these read
as a C string give the first line's value and all continuation lines in order. -/
def Folded (fs : List Field) (out : HttpReq × ReadStatus) : Prop :=
  out.2 = .allDataRead ∧ ∀ i f, fs[i]? = some f → i < HEADER_NUM →
    out.1.inputHeaders[i]? = some f.entry ∧ cstr f.stored = f.text

theorem folded_of_ok {fs : List Field} (h : FoldOk fs) {i : Nat} {f : Field}
    (hf : fs[i]? = some f) (hi : i < HEADER_NUM) :
    (tableOf (kept fs))[i]? = some f.entry ∧ cstr f.stored = f.text := by
  obtain ⟨hlt, rfl⟩ := List.getElem?_eq_some_iff.1 hf
  have hstep := h i hlt
  refine ⟨?_, fs[i].stored_text.2 hstep.once⟩
  by_cases hk : i < (kept fs).length
  · obtain ⟨g, hg, hkept⟩ := kept_getElem hk
    rw [tableOf, List.getElem?_append_left hk, hkept]
    rw [hf] at hg
    rw [Option.some.inj hg]
  · obtain ⟨g, hg, hblank⟩ := kept_stop (l := fs) (by omega) (by omega)
    have hb : fs[i].blank = true := by
      rcases Nat.lt_or_eq_of_le (Nat.le_of_not_lt hk) with hm | hm
      · by_contra hb
        have hmem : g ∈ (fs.take i).take HEADER_NUM := by
          refine List.mem_of_getElem? (i := (kept fs).length) ?_
          rw [List.getElem?_take_of_lt (by omega), List.getElem?_take_of_lt hm, hg]
        rw [hstep.front (by simpa using hb) g hmem] at hblank
        cases hblank
      · rw [hm, hf] at hg
        rw [Option.some.inj hg]
        exact hblank
    rw [Field.entry_null hb (hstep.blank hb), tableOf, List.getElem?_append_right (by omega),
      List.getElem?_replicate_of_lt (by omega)]

theorem kept_front {pre : List Field} (h : (kept pre).length = (pre.take HEADER_NUM).length) :
    ∀ g ∈ pre.take HEADER_NUM, g.blank = false := by
  rw [kept, List.length_map] at h
  have heq := (List.takeWhile_prefix (fun f : Field => !f.blank)
    (l := pre.take HEADER_NUM)).eq_of_length h
  intro g hg
  simpa using List.takeWhile_eq_self_iff.1 heq g hg

theorem kept_take_getElem {l : List Field} {i k : Nat} (hk : k < (kept (l.take i)).length) :
    k < i ∧ ∃ g, l[k]? = some g ∧ (kept (l.take i))[k]? = some g.entry := by
  obtain ⟨g, hg, hkept⟩ := kept_getElem hk
  have hki : k < i := by
    have hlt := (List.getElem?_eq_some_iff.1 hg).1
    rw [List.length_take] at hlt
    omega
  rw [List.getElem?_take_of_lt hki] at hg
  exact ⟨hki, g, hg, hkept⟩

/-- What the lines from some point on make of the entries is at least what is there. -/
theorem size_le_entry {fs : List Field} {hs final : List Header} {ls : List Bytes}
    (hrun : ls.foldlM feedLine hs = some final)
    (hfinal : ∀ i f, fs[i]? = some f → i < HEADER_NUM → final[i]? = some f.entry)
    {k : Nat} {g : Field} {h : Header} (hk : k < HEADER_NUM) (hg : fs[k]? = some g)
    (hh : hs[k]? = some h) : h.size ≤ g.entry.size := by
  have hmono := weight_foldlM hrun k
  rwa [weight_of hh, weight_of (hfinal k g hg hk)] at hmono

/-- A continuation line makes the last entry larger. -/
theorem continuation_grows {us hs : List Header} {c : Bytes} {k : Nat}
    (hu : ∀ x ∈ us, x.free = false) (hl : us.length ≤ HEADER_NUM)
    (hcont : isContinuation c = true) (h : feedLine (tableOf us) c = some hs)
    (hk : k = if us.length < HEADER_NUM then us.length - 1 else 0) {x : Header}
    (hx : us[k]? = some x) : ∃ y, hs[k]? = some y ∧ x.size < y.size := by
  have hlt := (List.getElem?_eq_some_iff.1 hx).1
  have hne : us ≠ [] := by
    rintro rfl
    cases hx
  rw [feedLine, hcont, if_pos rfl, appendLast_tableOf hne hu hl, ← hk] at h
  refine ⟨Header.grow c x, ?_, ?_⟩
  · rw [← Option.some.inj h, tableOf, List.getElem?_append_left (by simpa using hlt),
      List.getElem?_modify_eq, hx]
    rfl
  · simp only [Header.grow, Header.size, List.length_append, List.length_singleton]
    omega

/-- The table behind the first line of a field. -/
def behindFirst (pre : List Field) (f : Field) : List Header :=
  if f.blank then kept pre else addField ⟨f.name, f.value⟩ (kept pre)

theorem behindFirst_free (pre : List Field) (f : Field) :
    ∀ x ∈ behindFirst pre f, x.free = false := by
  intro x hx
  unfold behindFirst at hx
  split at hx
  · exact kept_free pre x hx
  · rename_i hb
    rcases addField_mem hx with hx | rfl
    · exact kept_free pre x hx
    · simpa [Field.blank] using hb

theorem behindFirst_length (pre : List Field) (f : Field) :
    (behindFirst pre f).length ≤ HEADER_NUM := by
  unfold behindFirst
  split
  · exact kept_length pre
  · exact addField_length (kept_length pre)

section Converse

/-! The other direction: all entries come out right in the end, and the fields in front of field
`i` are as they have to be. -/

variable {fs : List Field} {final : List Header} {i : Nat} {ls : List Bytes}

/-- A field that is not blank would take the slot of a blank one in front of it. -/
theorem front_of_folded (hi : i < fs.length)
    (hfinal : ∀ i f, fs[i]? = some f → i < HEADER_NUM → final[i]? = some f.entry)
    (hblank : ∀ j (hj : j < fs.length), j < i → fs[j].blank = true → fs[j].conts = [])
    (hrun : ls.foldlM feedLine (tableOf (behindFirst (fs.take i) fs[i])) = some final)
    (hb : fs[i].blank = false) : ∀ g ∈ (fs.take i).take HEADER_NUM, g.blank = false := by
  refine kept_front ?_
  by_contra hne
  have hlen : (fs.take i).length = i := List.length_take_of_le (Nat.le_of_lt hi)
  have hle : (kept (fs.take i)).length ≤ ((fs.take i).take HEADER_NUM).length := by
    rw [kept, List.length_map]
    exact (List.takeWhile_prefix _).length_le
  rw [List.length_take] at hle hne
  obtain ⟨g, hg, hgb⟩ := kept_stop (l := fs.take i) (by omega) (by omega)
  have hm : (kept (fs.take i)).length < i := by omega
  rw [List.getElem?_take_of_lt hm] at hg
  obtain ⟨hlt, hget⟩ := List.getElem?_eq_some_iff.1 hg
  have hconts : g.conts = [] := by
    rw [← hget] at hgb ⊢
    exact hblank _ hlt hm hgb
  have hslot : (tableOf (behindFirst (fs.take i) fs[i]))[(kept (fs.take i)).length]? =
      some ⟨fs[i].name, fs[i].value⟩ := by
    rw [behindFirst, if_neg (by simp [hb]), addField, if_pos (by omega), tableOf, List.append_assoc,
      List.getElem?_append_right (Nat.le_refl _), Nat.sub_self]
    rfl
  have hsize := size_le_entry hrun hfinal (by omega) hg hslot
  rw [Field.entry_null hgb hconts] at hsize
  have hpos := size_pos hb
  have hzero : Header.null.size = 0 := rfl
  omega

/-- The entry that a continuation line of field `i` goes to, when it is not its own: it belongs
to a field in front, and has all the bytes it should have. -/
theorem stray_entry (hi : i < fs.length) (hcase : HEADER_NUM ≤ i + 1 ∨ fs[i].blank = true)
    (hfront : fs[i].blank = false →
      ∀ g ∈ (fs.take i).take HEADER_NUM, g.blank = false)
    (hne : behindFirst (fs.take i) fs[i] ≠ []) {k : Nat}
    (hk : k = if (behindFirst (fs.take i) fs[i]).length < HEADER_NUM
      then (behindFirst (fs.take i) fs[i]).length - 1 else 0) :
    k < HEADER_NUM ∧ ∃ g, fs[k]? = some g ∧
      (behindFirst (fs.take i) fs[i])[k]? = some g.entry := by
  have hpos := List.length_pos_iff.2 hne
  have hnum := behindFirst_length (fs.take i) fs[i]
  have hknum : k < HEADER_NUM := by
    rw [hk]
    split <;> omega
  refine ⟨hknum, ?_⟩
  cases hb : fs[i].blank with
  | true =>
    rw [behindFirst, if_pos hb] at *
    exact (kept_take_getElem (by rw [hk]; split <;> omega)).2
  | false =>
    have hnum35 : HEADER_NUM = 35 := rfl
    have hi35 : HEADER_NUM ≤ i + 1 := by
      rcases hcase with h | h
      · exact h
      · rw [hb] at h
        cases h
    have hkept : (kept (fs.take i)).length = min HEADER_NUM i := by
      rw [kept_full (hfront hb), List.length_map, List.length_take,
        List.length_take_of_le (Nat.le_of_lt hi)]
    have hfull : (behindFirst (fs.take i) fs[i]).length = HEADER_NUM := by
      rw [behindFirst, if_neg (by simp [hb]), addField]
      split
      · rw [List.length_append, List.length_singleton]
        omega
      · omega
    obtain rfl : k = 0 := by rw [hk, if_neg (by omega)]
    obtain ⟨_, g, hg, hentry⟩ := kept_take_getElem (l := fs) (i := i) (k := 0) (by omega)
    obtain ⟨t, ht⟩ := prefix_addField ⟨fs[i].name, fs[i].value⟩ (kept (fs.take i))
    refine ⟨g, hg, ?_⟩
    rw [behindFirst, if_neg (by simp [hb]), ← ht, List.getElem?_append_left (by omega), hentry]

/-- So there is no such continuation line. -/
theorem conts_of_folded (hi : i < fs.length)
    (hfinal : ∀ i f, fs[i]? = some f → i < HEADER_NUM → final[i]? = some f.entry)
    (hfront : fs[i].blank = false → ∀ g ∈ (fs.take i).take HEADER_NUM, g.blank = false)
    (hrun : (fs[i].conts ++ ls).foldlM feedLine (tableOf (behindFirst (fs.take i) fs[i])) =
      some final)
    (hcase : HEADER_NUM ≤ i + 1 ∨ fs[i].blank = true) : fs[i].conts = [] := by
  cases hc : fs[i].conts with
  | nil => rfl
  | cons c cs =>
    exfalso
    rw [hc, List.cons_append, List.foldlM_cons] at hrun
    obtain ⟨hs, hfeed, hrest⟩ := Option.bind_eq_some_iff.1 hrun
    have hcont := (fs[i].contsOk c (hc ▸ List.mem_cons_self)).2
    have hne : behindFirst (fs.take i) fs[i] ≠ [] := by
      intro hnil
      rw [feedLine, hcont, if_pos rfl, hnil] at hfeed
      cases hfeed
    obtain ⟨hknum, g, hg, hslot⟩ := stray_entry hi hcase hfront hne rfl
    obtain ⟨y, hy, hgrow⟩ := continuation_grows (behindFirst_free _ _) (behindFirst_length _ _)
      hcont hfeed rfl hslot
    have hsize := size_le_entry hrest hfinal hknum hg hy
    omega

/-- A section whose fields all come out right has no line that goes astray. -/
theorem ok_of_folded (hrun : (fs.flatMap Field.lines).foldlM feedLine initHeaders = some final)
    (hfinal : ∀ i f, fs[i]? = some f → i < HEADER_NUM →
      final[i]? = some f.entry ∧ cstr f.stored = f.text) : FoldOk fs := by
  intro i
  induction i using Nat.strongRecOn with
  | _ i ih =>
    intro hi
    have hentry := fun i f hf hi => (hfinal i f hf hi).1
    have hpre := feedFields_ok (Nat.le_of_lt hi) fun j hj hji => ih j hji hj
    have hsplit : fs = fs.take i ++ (fs[i] :: fs.drop (i + 1)) := by
      rw [← List.drop_eq_getElem_cons hi, List.take_append_drop]
    have hrest : (fs[i].conts ++ (fs.drop (i + 1)).flatMap Field.lines).foldlM feedLine
        (tableOf (behindFirst (fs.take i) fs[i])) = some final := by
      rw [hsplit, List.flatMap_append, List.foldlM_append, hpre, List.flatMap_cons,
        Field.lines] at hrun
      simp only [Option.bind_eq_bind, Option.bind_some, List.cons_append, List.foldlM_cons,
        feedLine_first _ (kept_free _)] at hrun
      exact hrun
    have hfront := front_of_folded hi hentry (fun j hj hji => (ih j hji hj).blank) hrest
    have hconts := conts_of_folded hi hentry hfront hrest
    have hlen : (fs.take i).length = i := List.length_take_of_le (Nat.le_of_lt hi)
    refine ⟨?_, fun h => hconts (.inl (by omega)), fun h => hconts (.inr h), hfront⟩
    by_cases hnum : i < HEADER_NUM
    · exact fs[i].stored_text.1 (hfinal i _ (List.getElem?_eq_getElem hi) hnum).2
    · rw [hconts (.inl (by omega))]
      exact Nat.zero_le _

end Converse

/-! ## The parser -/

/-- **Folded header fields.** `http_parse_headers` stores every field of a section as the section
has it exactly when no field has two continuation lines, none of the fields from the last slot on
has any, and a field without name and value has neither one nor a field with them behind it. -/
theorem folded_iff (fs : List Field) (q : HttpReq) (rest : Bytes)
    (hd : SectionLines q.inBuf.data (fs.flatMap Field.lines) rest)
    (hq : q.inputHeaders = initHeaders) : Folded fs (httpParseHeaders q) ↔ FoldOk fs := by
  have hok : ∀ l ∈ fs.flatMap Field.lines, LineOk l := by
    intro l hl
    obtain ⟨f, _, hlf⟩ := List.mem_flatMap.1 hl
    rcases List.mem_cons.1 hlf with rfl | hc
    · exact f.lineOk
    · exact (f.contsOk l hc).1
  have hfeed := feedHead_section hd hok q
  rw [hq] at hfeed
  constructor
  · rintro ⟨hread, hentries⟩
    rw [httpParseHeaders_feed] at hread hentries
    cases hrun : (fs.flatMap Field.lines).foldlM feedLine initHeaders with
    | none =>
      rw [hrun] at hfeed
      obtain ⟨q', r, hrej⟩ := hfeed
      rw [hrej] at hread
      cases hread
    | some final =>
      rw [hrun] at hfeed
      simp only [hfeed] at hentries
      exact ok_of_folded hrun hentries
  · intro h
    have hrun := feedFields_ok (Nat.le_refl fs.length) fun j hj _ => h j hj
    rw [List.take_length] at hrun
    rw [hrun] at hfeed
    simp only at hfeed
    rw [httpParseHeaders_feed, hfeed]
    exact ⟨rfl, fun i f hf hi => folded_of_ok h hf hi⟩

/-- A request in front of a header section. -/
def sectionReq (d : Bytes) : HttpReq :=
  { inBuf := { (bufferCreate CONN_DEFAULT_RCVBUF) with data := d } }

def twiceFolded : Field where
  line    := str "A: b"
  conts   := [str " c", str " d"]
  lineOk  := ⟨by decide, by decide +kernel, by decide⟩
  first   := by decide
  contsOk := by
    intro c hc
    rcases List.mem_cons.1 hc with rfl | hc
    · exact ⟨⟨by decide, by decide +kernel, by decide⟩, by decide⟩
    · rw [List.mem_singleton.1 hc]
      exact ⟨⟨by decide, by decide +kernel, by decide⟩, by decide⟩

def twiceFoldedBytes : Bytes := str "A: b\n c\n d\n\nxyz"

theorem twiceFolded_lines :
    SectionLines twiceFoldedBytes ([twiceFolded].flatMap Field.lines) (str "xyz") :=
  .line (l := str "A: b") rfl (by decide)
    (.line (l := str " c") rfl (by decide)
      (.line (l := str " d") rfl (by decide) (.done (l := []) rfl (by decide))))

/-- The second continuation line of a field stands behind the NUL of the first. -/
theorem second_continuation_unread :
    (httpParseHeaders (sectionReq twiceFoldedBytes)).1.inputHeaders[0]?.map
        (fun h => (h.key, cstr h.value)) = some (str "A", str "b c") ∧
      twiceFolded.text = str "b c d" ∧
      ¬ Folded [twiceFolded] (httpParseHeaders (sectionReq twiceFoldedBytes)) := by
  refine ⟨by decide, by decide, ?_⟩
  rintro ⟨_, h⟩
  exact absurd (h 0 twiceFolded rfl (by decide)).2 (by decide)

theorem folded_iff_twice :
    Folded [twiceFolded] (httpParseHeaders (sectionReq twiceFoldedBytes)) ↔ FoldOk [twiceFolded] :=
  folded_iff [twiceFolded] (sectionReq twiceFoldedBytes) (str "xyz") twiceFolded_lines rfl

end Http
end Shs
