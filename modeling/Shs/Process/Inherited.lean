import Shs.Core.Decimal
import Shs.Lib.TreeMap

/-!
# Process.Inherited

How the listening sockets get into a new binary: `set_environment` writes their names and
descriptors into the environment variable `MASTER_WORKERS`, and `add_inherited_sockets` reads them
from it in the new process.
-/

namespace Shs
namespace Process

/-- `std::map<std::string, int>`. -/
abbrev Listening := Std.ExtTreeMap Bytes Int

def COMMA : Byte := 44
def COLON : Byte := 58
def SEMICOLON : Byte := 59

/-- `sizeof tmp` in `set_environment`. -/
def TMP_SIZE : Nat := 11

/-- What `sprintf` makes of `"%s,%ud;"`. The conversion is `%u`; the `d` is text. -/
def listenerText (name : Bytes) (fd : Int) : Bytes :=
  cstr name ++ COMMA :: digits (fd % 2 ^ 32).toNat ++ str "d;"

/-- One round of the loop of `set_environment`, `none` where `sprintf` writes beyond `tmp`. -/
def addListener (strEnv : Bytes) (l : Bytes × Int) : Option Bytes :=
  let text := listenerText l.1 l.2
  if text.length + 1 ≤ TMP_SIZE then some (strEnv ++ text) else none

/-- The variable `MASTER_WORKERS` that `set_environment` makes, and does not make if no socket
listens. -/
def setEnvironment (listening : Listening) : Option (Option Bytes) :=
  if listening.toList = [] then some none
  else (listening.toList.foldlM addListener []).map some

/-- The body of the loop of `add_inherited_sockets`. -/
def addInherited (listening : Listening) (vi : Bytes) : Listening :=
  match vi.splitOnP (· == COMMA) with
  | [name, fd] => listening.insertIfNew name (atoi fd)
  | _ => listening

/-- `add_inherited_sockets`, with what `getenv("MASTER_WORKERS")` returns. -/
def addInheritedSockets (env : Option Bytes) (listening : Listening) : Listening :=
  match env with
  | none => listening
  | some inherited =>
    (inherited.splitOnP fun b => b == COLON || b == SEMICOLON).foldl addInherited listening

/-- Names that the text can hold, and descriptors. -/
structure Sockets (listening : Listening) : Prop where
  names : ∀ (name : Bytes) (fd : Int), listening[name]? = some fd →
    COMMA ∉ name ∧ COLON ∉ name ∧ SEMICOLON ∉ name
  fds : ∀ (name : Bytes) (fd : Int), listening[name]? = some fd → 0 ≤ fd ∧ fd < 2 ^ 31

/-- `set_environment` stays within its array, and a new process gets the same sockets from what
it writes. -/
def HandsOver (listening : Listening) : Prop :=
  ∃ env, setEnvironment listening = some env ∧ addInheritedSockets env ∅ = listening

/-! ## The reader -/

theorem digits_free {n : Nat} {b : Byte} (hb : isdigit b = false) : b ∉ digits n := by
  intro h
  rw [isdigit_digits h] at hb
  cases hb

/-- The `d` behind the number ends it. -/
theorem atoi_digits_d {n : Nat} (h : n < 2 ^ 31) : atoi (digits n ++ str "d") = n := by
  have hstop : ∀ c ∈ (str "d").head?, isdigit c = false := by
    intro c hc
    obtain rfl : (100 : Byte) = c := Option.some.inj hc
    decide
  rw [atoi, strtoll, scanNumber_digits_append n hstop]
  simp only [digits_ne_nil, if_false, digitsValue_digits, Bool.false_eq_true]
  exact (congrArg toInt32 (by omega)).trans (toInt32_of_range (v := n) (by omega) (by omega))

/-! ## One listener -/

/-- A listener whose text fits and is read back. -/
def Fits (l : Bytes × Int) : Prop := NUL ∉ l.1 ∧ l.1.length + (digits l.2.toNat).length ≤ 7

theorem digits_mod {fd : Int} (h0 : 0 ≤ fd) (h : fd < 2 ^ 31) :
    digits (fd % 2 ^ 32).toNat = digits fd.toNat := by
  rw [Int.emod_eq_of_lt h0 (by omega)]

theorem listenerText_eq {l : Bytes × Int} (h0 : 0 ≤ l.2) (h : l.2 < 2 ^ 31) (hn : NUL ∉ l.1) :
    listenerText l.1 l.2 = l.1 ++ COMMA :: (digits l.2.toNat ++ str "d") ++ [SEMICOLON] := by
  rw [listenerText, (cstr_eq_self_iff _).2 hn, digits_mod h0 h]
  simp [str, SEMICOLON]

theorem fits_iff {l : Bytes × Int} (h0 : 0 ≤ l.2) (h : l.2 < 2 ^ 31) (hn : NUL ∉ l.1) :
    (listenerText l.1 l.2).length + 1 ≤ TMP_SIZE ↔ Fits l := by
  rw [listenerText_eq h0 h hn, Fits]
  simp only [List.length_append, List.length_cons, List.length_nil, TMP_SIZE]
  have hd : (str "d").length = 1 := rfl
  constructor
  · intro hle
    exact ⟨hn, by omega⟩
  · rintro ⟨-, hle⟩
    omega

theorem listenerText_free (l : Bytes × Int) : NUL ∉ listenerText l.1 l.2 := by
  have hname : NUL ∉ cstr l.1 := by
    intro hm
    have := List.mem_takeWhile_imp hm
    simp at this
  simp only [listenerText, List.mem_append, List.mem_cons, not_or]
  exact ⟨⟨hname, by decide, digits_free (by decide)⟩, by decide⟩

/-- The reader on the text of one listener, less its semicolon. -/
theorem addInherited_text {l : Bytes × Int} (h0 : 0 ≤ l.2) (h : l.2 < 2 ^ 31) (hc : COMMA ∉ l.1)
    (m : Listening) :
    addInherited m (l.1 ++ COMMA :: (digits l.2.toNat ++ str "d")) = m.insertIfNew l.1 l.2 := by
  have hname : ∀ b ∈ l.1, (b == COMMA) = false := by
    intro b hb
    simp only [beq_eq_false_iff_ne, ne_eq]
    rintro rfl
    exact hc hb
  have hnum : ∀ b ∈ digits l.2.toNat ++ str "d", (b == COMMA) = false := by
    intro b hb
    simp only [beq_eq_false_iff_ne, ne_eq]
    rintro rfl
    rcases List.mem_append.1 hb with hb | hb
    · exact digits_free (by decide) hb
    · revert hb
      decide
  rw [addInherited, List.splitOnP_append_cons_of_forall_mem hname COMMA (by decide),
    List.splitOnP_eq_singleton hnum]
  show m.insertIfNew l.1 (atoi (digits l.2.toNat ++ str "d")) = m.insertIfNew l.1 l.2
  rw [atoi_digits_d (by omega), Int.toNat_of_nonneg h0]

/-! ## The whole text -/

/-- The loop comes through if every text fits the array. -/
theorem foldlM_addListener (ls : List (Bytes × Int)) (acc t : Bytes) :
    ls.foldlM addListener acc = some t ↔
      (∀ l ∈ ls, (listenerText l.1 l.2).length + 1 ≤ TMP_SIZE) ∧
        t = acc ++ ls.flatMap fun l => listenerText l.1 l.2 := by
  induction ls generalizing acc with
  | nil => simp [eq_comm]
  | cons l ls ih =>
    rw [List.foldlM_cons, addListener]
    split
    · rename_i hfit
      rw [Option.bind_eq_bind, Option.bind_some, ih, List.forall_mem_cons, List.flatMap_cons,
        ← List.append_assoc]
      exact ⟨fun h => ⟨⟨hfit, h.1⟩, h.2⟩, fun h => ⟨h.1.2, h.2⟩⟩
    · rename_i hno
      rw [List.forall_mem_cons]
      exact ⟨fun h => (nomatch h), fun h => absurd h.1.1 hno⟩

theorem splitOnP_texts {p : Byte → Bool} {sep : Byte} (hsep : p sep = true) {qs : List Bytes}
    (h : ∀ q ∈ qs, ∀ b ∈ q, p b = false) :
    (qs.flatMap fun q => q ++ [sep]).splitOnP p = qs ++ [[]] := by
  induction qs with
  | nil => rfl
  | cons q qs ih =>
    rw [List.flatMap_cons, List.append_assoc, List.singleton_append,
      List.splitOnP_append_cons_of_forall_mem (h q List.mem_cons_self) sep hsep,
      ih fun q hq => h q (List.mem_cons_of_mem _ hq), List.cons_append]

theorem mem_of_mem_splitOnP {p : Byte → Bool} {s q : Bytes} {b : Byte} (hq : q ∈ s.splitOnP p)
    (hb : b ∈ q) : b ∈ s := by
  induction s generalizing q with
  | nil =>
    rw [List.splitOnP_nil, List.mem_singleton] at hq
    rw [hq] at hb
    cases hb
  | cons x s ih =>
    rw [List.splitOnP_cons_eq_if_modifyHead] at hq
    split at hq
    · rcases List.mem_cons.1 hq with rfl | hq
      · cases hb
      · exact List.mem_cons_of_mem _ (ih hq hb)
    · obtain ⟨q', qs, hqs⟩ := List.exists_cons_of_ne_nil (List.splitOnP_ne_nil p s)
      rw [hqs, List.modifyHead_cons] at hq
      rcases List.mem_cons.1 hq with rfl | hq
      · rcases List.mem_cons.1 hb with rfl | hb
        · exact List.mem_cons_self
        · exact List.mem_cons_of_mem _ (ih (hqs ▸ List.mem_cons_self) hb)
      · exact List.mem_cons_of_mem _ (ih (hqs ▸ List.mem_cons_of_mem _ hq) hb)

/-- Names are read from the text, so they have no byte that it has not. -/
theorem addInheritedSockets_names {t : Bytes} {b : Byte} (hb : b ∉ t) {name : Bytes} {fd : Int}
    (h : (addInheritedSockets (some t) ∅)[name]? = some fd) : b ∉ name := by
  have hpieces : ∀ q ∈ t.splitOnP fun b => b == COLON || b == SEMICOLON, b ∉ q :=
    fun q hq hbq => hb (mem_of_mem_splitOnP hq hbq)
  have key : ∀ (qs : List Bytes) (m : Listening), (∀ q ∈ qs, b ∉ q) →
      (∀ (n : Bytes) (v : Int), m[n]? = some v → b ∉ n) →
      ∀ (n : Bytes) (v : Int), (qs.foldl addInherited m)[n]? = some v → b ∉ n := by
    intro qs
    induction qs with
    | nil => exact fun m _ hm => hm
    | cons q qs ih =>
      intro m hqs hm
      refine ih _ (fun q hq => hqs q (List.mem_cons_of_mem _ hq)) ?_
      intro n v hv
      unfold addInherited at hv
      split at hv
      · rename_i n' num hsplit
        rw [Std.ExtTreeMap.getElem?_insertIfNew] at hv
        split at hv
        · rename_i hnew
          obtain rfl : n' = n := by simpa using hnew.1
          have hmem : n' ∈ q.splitOnP (· == COMMA) := by
            rw [hsplit]
            exact List.mem_cons_self
          exact fun hbn => hqs q List.mem_cons_self (mem_of_mem_splitOnP hmem hbn)
        · exact hm n v hv
      · exact hm n v hv
  exact key _ ∅ hpieces (by simp) name fd h

/-- What is written for sockets that fit is read back. -/
theorem addInheritedSockets_texts {m : Listening} (hm : Sockets m)
    (hfits : ∀ l ∈ m.toList, Fits l) :
    addInheritedSockets (some (m.toList.flatMap fun l => listenerText l.1 l.2)) ∅ = m := by
  have hmem : ∀ l ∈ m.toList, m[l.1]? = some l.2 :=
    fun l hl => Std.ExtTreeMap.mem_toList_iff_getElem?_eq_some.1 hl
  have htext : (m.toList.flatMap fun l => listenerText l.1 l.2) =
      (m.toList.map fun l => l.1 ++ COMMA :: (digits l.2.toNat ++ str "d")).flatMap
        fun q => q ++ [SEMICOLON] := by
    rw [List.flatMap_map]
    refine List.flatMap_congr fun l hl => ?_
    obtain ⟨h0, h31⟩ := hm.fds _ _ (hmem l hl)
    exact listenerText_eq h0 h31 (hfits l hl).1
  have hfree : ∀ q ∈ m.toList.map fun l => l.1 ++ COMMA :: (digits l.2.toNat ++ str "d"),
      ∀ b ∈ q, (b == COLON || b == SEMICOLON) = false := by
    intro q hq b hb
    obtain ⟨l, hl, rfl⟩ := List.mem_map.1 hq
    obtain ⟨-, hcolon, hsemi⟩ := hm.names _ _ (hmem l hl)
    simp only [Bool.or_eq_false_iff, beq_eq_false_iff_ne, ne_eq]
    simp only [List.mem_append, List.mem_cons] at hb
    rcases hb with hb | rfl | hb | hb
    · exact ⟨fun h => hcolon (h ▸ hb), fun h => hsemi (h ▸ hb)⟩
    · decide
    · exact ⟨fun h => digits_free (by decide) (h ▸ hb), fun h => digits_free (by decide) (h ▸ hb)⟩
    · obtain rfl : b = 100 := by simpa [str] using hb
      decide
  have hread : ∀ (ls : List (Bytes × Int)) (m' : Listening), (∀ l ∈ ls, l ∈ m.toList) →
      (ls.map fun l => l.1 ++ COMMA :: (digits l.2.toNat ++ str "d")).foldl addInherited m' =
        ls.foldl (fun m p => m.insertIfNew p.1 p.2) m' := by
    intro ls
    induction ls with
    | nil => exact fun _ _ => rfl
    | cons l ls ih =>
      intro m' hls
      have hl := hmem l (hls l List.mem_cons_self)
      obtain ⟨h0, h31⟩ := hm.fds _ _ hl
      rw [List.map_cons, List.foldl_cons, List.foldl_cons,
        addInherited_text h0 h31 (hm.names _ _ hl).1]
      exact ih _ fun l hl => hls l (List.mem_cons_of_mem _ hl)
  rw [htext, addInheritedSockets, splitOnP_texts (by decide) hfree, List.foldl_append,
    hread _ _ fun l hl => hl, TreeMap.foldl_toList]
  rfl

/-- The sockets are handed over if and only if no name has a NUL byte and no name is, with the
digits of its descriptor, longer than 7 bytes. -/
theorem handsOver_iff {listening : Listening} (h : Sockets listening) :
    HandsOver listening ↔ ∀ (name : Bytes) (fd : Int), listening[name]? = some fd →
      NUL ∉ name ∧ name.length + (digits fd.toNat).length ≤ 7 := by
  have hfits : (∀ l ∈ listening.toList, Fits l) ↔
      ∀ (name : Bytes) (fd : Int), listening[name]? = some fd → Fits (name, fd) := by
    constructor
    · intro hall name fd hfd
      exact hall _ (Std.ExtTreeMap.mem_toList_iff_getElem?_eq_some.2 hfd)
    · intro hall l hl
      exact hall _ _ (Std.ExtTreeMap.mem_toList_iff_getElem?_eq_some.1 hl)
  refine Iff.trans ?_ hfits
  unfold HandsOver setEnvironment
  constructor
  · rintro ⟨env, henv, hread⟩ l hl
    rw [if_neg (List.ne_nil_of_mem hl)] at henv
    obtain ⟨t, ht, rfl⟩ := Option.map_eq_some_iff.1 henv
    obtain ⟨hfit, ht⟩ := (foldlM_addListener _ _ _).1 ht
    have hl' := Std.ExtTreeMap.mem_toList_iff_getElem?_eq_some.1 hl
    have hfree : NUL ∉ t := by
      rw [ht, List.nil_append, List.mem_flatMap]
      rintro ⟨l, -, hl⟩
      exact listenerText_free l hl
    have hname : NUL ∉ l.1 := addInheritedSockets_names hfree (hread.symm ▸ hl')
    obtain ⟨h0, h31⟩ := h.fds _ _ hl'
    exact (fits_iff h0 h31 hname).1 (hfit l hl)
  · intro hall
    by_cases hnil : listening.toList = []
    · refine ⟨none, if_pos hnil, ?_⟩
      exact (Std.ExtTreeMap.toList_eq_nil_iff.1 hnil).symm
    · refine ⟨some (listening.toList.flatMap fun l => listenerText l.1 l.2), ?_,
        addInheritedSockets_texts h hall⟩
      have hloop := (foldlM_addListener listening.toList [] _).2 ⟨fun l hl => ?_, rfl⟩
      · rw [if_neg hnil, hloop]
        rfl
      · obtain ⟨h0, h31⟩ := h.fds _ _ (Std.ExtTreeMap.mem_toList_iff_getElem?_eq_some.1 hl)
        exact (fits_iff h0 h31 (hall l hl).1).2 (hall l hl)

theorem sockets_one {name : Bytes} {fd : Int} (hn : COMMA ∉ name ∧ COLON ∉ name ∧ SEMICOLON ∉ name)
    (h0 : 0 ≤ fd) (h31 : fd < 2 ^ 31) : Sockets ((∅ : Listening).insert name fd) where
  names := by
    intro n v hv
    rw [Std.ExtTreeMap.getElem?_insert] at hv
    split at hv
    · rename_i heq
      obtain rfl : name = n := by simpa using heq
      exact hn
    · simp at hv
  fds := by
    intro n v hv
    rw [Std.ExtTreeMap.getElem?_insert] at hv
    split at hv
    · cases hv
      exact ⟨h0, h31⟩
    · simp at hv

/-- The socket of the `HTTPService` alone. -/
theorem handsOver_http : HandsOver ((∅ : Listening).insert (str "Http") 5) := by
  refine (handsOver_iff (sockets_one (by decide) (by decide) (by decide))).2 fun n v hv => ?_
  rw [Std.ExtTreeMap.getElem?_insert] at hv
  split at hv
  · rename_i heq
    obtain rfl : str "Http" = n := by simpa using heq
    cases hv
    decide
  · simp at hv

/-- `"Monitor,6d;"` takes 12 bytes with its NUL. -/
theorem monitor_not_handsOver :
    ¬ ∀ listening : Listening, Sockets listening → HandsOver listening := by
  intro h
  obtain ⟨env, henv, -⟩ := h ((∅ : Listening).insert (str "Monitor") 6)
    (sockets_one (by decide) (by decide) (by decide))
  have hnone : setEnvironment ((∅ : Listening).insert (str "Monitor") 6) = none := by
    decide +kernel
  rw [hnone] at henv
  cases henv

end Process
end Shs
