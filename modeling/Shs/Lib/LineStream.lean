import Mathlib.Data.List.Induction

/-!
# Lib.LineStream

Reading lines off a buffered stream, for any alphabet and any set of terminator symbols. A line
ends at the first terminator; a second terminator right behind it, different from the first,
belongs to the same line end (as in CR LF). A reader sees only the symbols buffered so far, so
it decides whether to take the second symbol from what happens to be there.

* `takeLine`: one line and what is left behind it.
* `feed`: a line machine run on a buffer, until it stops or no whole line is left.
* `deliver`: one more chunk for a machine that waits.
* `feedChunks_flatten`: chunks whose cuts fall between line ends give what one delivery gives.
* `splits_agree_iff`: every way of cutting a stream gives the same result exactly when no line
  end of its head is a two-symbol one.
-/

namespace LineStream

section Lines

variable {α : Type} [DecidableEq α] (term : α → Bool)

/-- `y` behind the terminator `x` belongs to the same line end. -/
def mates (x y : α) : Bool := term y && !decide (y = x)

def dropMate (x : α) : List α → List α
  | [] => []
  | y :: ys => if mates term x y then ys else y :: ys

/-- The first line of a buffer and what is left; `none` when no terminator is there. -/
def takeLine : List α → Option (List α × List α)
  | [] => none
  | x :: xs =>
    if term x then some ([], dropMate term x xs)
    else
      match takeLine xs with
      | none => none
      | some (l, r) => some (x :: l, r)

/-- The terminator that ends the buffer and could still be the first half of a line end. -/
def openEnd : List α → Option α
  | [] => none
  | [x] => if term x then some x else none
  | x :: y :: ys => if term x && mates term x y then openEnd ys else openEnd (y :: ys)

/-- The cut between `a` and `b` does not separate the two symbols of a line end. -/
def CutOk (a b : List α) : Prop :=
  ∀ x y, openEnd term a = some x → b.head? = some y → mates term x y = false

/-- Two different terminators stand side by side. -/
def hasMates : List α → Bool
  | [] => false
  | [_] => false
  | x :: y :: ys => (term x && mates term x y) || hasMates (y :: ys)

theorem dropMate_length (x : α) (xs : List α) : (dropMate term x xs).length ≤ xs.length := by
  cases xs with
  | nil => simp [dropMate]
  | cons y ys => simp only [dropMate]; split <;> simp

theorem takeLine_length {s l r : List α} (h : takeLine term s = some (l, r)) :
    r.length < s.length := by
  induction s generalizing l with
  | nil => simp [takeLine] at h
  | cons x xs ih =>
    simp only [takeLine] at h
    split at h
    · simp only [Option.some.injEq, Prod.mk.injEq] at h
      have := dropMate_length term x xs
      rw [← h.2]; simp only [List.length_cons]; omega
    · split at h
      · cases h
      · rename_i l' r' hx
        simp only [Option.some.injEq, Prod.mk.injEq] at h
        obtain ⟨-, rfl⟩ := h
        have := ih hx
        simp only [List.length_cons]; omega

theorem dropMate_suffix (x : α) (xs : List α) : dropMate term x xs <:+ xs := by
  cases xs with
  | nil => simp [dropMate]
  | cons y ys =>
    simp only [dropMate]
    split
    · exact List.suffix_cons y ys
    · exact List.suffix_refl _

theorem takeLine_suffix {s l r : List α} (h : takeLine term s = some (l, r)) : r <:+ s := by
  induction s generalizing l with
  | nil => simp [takeLine] at h
  | cons x xs ih =>
    simp only [takeLine] at h
    split at h
    · simp only [Option.some.injEq, Prod.mk.injEq] at h
      obtain ⟨-, rfl⟩ := h
      exact (dropMate_suffix term x xs).trans (List.suffix_cons x xs)
    · split at h
      · cases h
      · rename_i l' r' hl
        simp only [Option.some.injEq, Prod.mk.injEq] at h
        obtain ⟨-, rfl⟩ := h
        exact (ih hl).trans (List.suffix_cons x xs)

theorem takeLine_none {s : List α} : takeLine term s = none ↔ ∀ x ∈ s, term x = false := by
  induction s with
  | nil => simp [takeLine]
  | cons x xs ih =>
    simp only [takeLine]
    split
    · rename_i hx; simp [hx]
    · rename_i hx
      split
      · rename_i hn; simpa [hx] using ih.mp hn
      · rename_i l r hs
        have : ¬ takeLine term xs = none := by rw [hs]; simp
        rw [ih] at this
        simp only [List.mem_cons, forall_eq_or_imp, reduceCtorEq, false_iff, not_and]
        exact fun _ h => this h

/-- A prefix without terminators becomes part of the line read behind it. -/
theorem takeLine_quiet {s : List α} (hs : ∀ x ∈ s, term x = false) (t : List α) :
    takeLine term (s ++ t) = (takeLine term t).map fun p => (s ++ p.1, p.2) := by
  induction s with
  | nil => simp
  | cons x xs ih =>
    have hx : term x = false := hs x (by simp)
    have hxs : ∀ y ∈ xs, term y = false := fun y hy => hs y (by simp [hy])
    simp only [List.cons_append, takeLine, hx, Bool.false_eq_true, if_false, ih hxs]
    cases takeLine term t <;> rfl

/-- A line that ends with two different terminators. -/
theorem takeLine_mates {l : List α} (hl : ∀ x ∈ l, term x = false) {x y : α} (hx : term x = true)
    (hxy : mates term x y = true) (r : List α) :
    takeLine term (l ++ x :: y :: r) = some (l, r) := by
  rw [takeLine_quiet term hl]
  simp [takeLine, hx, dropMate, hxy]

/-- The lines `ls` stand at the start of a buffer, and `rest` behind them. -/
inductive Lines : List α → List (List α) → List α → Prop
  | nil (d : List α) : Lines d [] d
  | cons {d l r rest : List α} {ls : List (List α)} (h : takeLine term d = some (l, r))
      (hr : Lines r ls rest) : Lines d (l :: ls) rest

theorem Lines.append {d rest : List α} {ls ls' : List (List α)} (h : Lines term d (ls ++ ls') rest) :
    ∃ m, Lines term d ls m ∧ Lines term m ls' rest := by
  induction ls generalizing d with
  | nil => exact ⟨d, .nil d, h⟩
  | cons l ls ih =>
    cases h with
    | cons hl hr =>
      obtain ⟨m, hm, hrest⟩ := ih hr
      exact ⟨m, .cons hl hm, hrest⟩

theorem openEnd_none {s : List α} (hs : ∀ x ∈ s, term x = false) : openEnd term s = none := by
  induction s with
  | nil => rfl
  | cons x xs ih =>
    have hx : term x = false := hs x (by simp)
    cases xs with
    | nil => simp [openEnd, hx]
    | cons y ys =>
      simp only [openEnd, hx, Bool.false_and, Bool.false_eq_true, if_false]
      exact ih fun z hz => hs z (by simp [hz])

/-- What is left behind a line ends as the whole buffer does. -/
theorem openEnd_takeLine {s l r : List α} (h : takeLine term s = some (l, r)) (hr : r ≠ []) :
    openEnd term s = openEnd term r := by
  induction s generalizing l with
  | nil => simp [takeLine] at h
  | cons x xs ih =>
    simp only [takeLine] at h
    split at h
    · rename_i hx
      simp only [Option.some.injEq, Prod.mk.injEq] at h
      cases xs with
      | nil => exact absurd h.2.symm hr
      | cons y ys =>
        simp only [dropMate] at h
        simp only [openEnd, hx, Bool.true_and]
        split <;> rename_i hm <;> simp only [hm, if_true, Bool.false_eq_true, if_false] at h <;>
          rw [h.2]
    · rename_i hx
      split at h
      · cases h
      · rename_i l' r' hs
        simp only [Option.some.injEq, Prod.mk.injEq] at h
        obtain ⟨-, rfl⟩ := h
        cases xs with
        | nil => simp [takeLine] at hs
        | cons y ys =>
          simp only [openEnd, hx, Bool.false_and, Bool.false_eq_true, if_false]
          exact ih hs

theorem CutOk.nil (b : List α) : CutOk term [] b := by
  intro x y h; simp [openEnd] at h

theorem CutOk.rest {s t l r : List α} (hc : CutOk term s t) (h : takeLine term s = some (l, r)) :
    CutOk term r t := by
  by_cases hr : r = []
  · rw [hr]; exact CutOk.nil term t
  · intro x y hx; exact hc x y (by rw [openEnd_takeLine term h hr]; exact hx)

/-- A line read from a buffer is read from any longer buffer, unless the cut separates a
two-symbol line end. -/
theorem takeLine_append {s t l r : List α} (h : takeLine term s = some (l, r))
    (hc : r = [] → CutOk term s t) : takeLine term (s ++ t) = some (l, r ++ t) := by
  induction s generalizing l with
  | nil => simp [takeLine] at h
  | cons x xs ih =>
    simp only [takeLine] at h
    simp only [List.cons_append, takeLine]
    split at h
    · rename_i hx
      simp only [Option.some.injEq, Prod.mk.injEq] at h
      obtain ⟨rfl, rfl⟩ := h
      simp only [hx, if_true, Option.some.injEq, Prod.mk.injEq, true_and]
      cases xs with
      | nil =>
        cases t with
        | nil => rfl
        | cons y ys =>
          have hm : mates term x y = false :=
            hc rfl x y (by simp [openEnd, hx]) (by simp)
          simp [dropMate, hm]
      | cons y ys =>
        simp only [dropMate, List.cons_append]
        split <;> simp
    · rename_i hx
      split at h
      · cases h
      · rename_i l' r' hs
        simp only [Option.some.injEq, Prod.mk.injEq] at h
        obtain ⟨rfl, rfl⟩ := h
        have hc' : r' = [] → CutOk term xs t := by
          intro hr a b ha
          refine hc hr a b ?_
          cases xs with
          | nil => simp [openEnd] at ha
          | cons y ys => simpa [openEnd, hx] using ha
        simp [hx, ih hs hc']

end Lines

section Feed

variable {α σ τ : Type} [DecidableEq α] (term : α → Bool) (act : σ → List α → σ ⊕ τ)

/-- A line machine that waits in a state with an unfinished line, or has stopped. -/
inductive Out (α σ τ : Type) where
  | more (s : σ) (rest : List α)
  | stop (t : τ) (rest : List α)

/-- At most `n` lines of the buffer `d`, from state `s`. -/
def feedN : Nat → σ → List α → Out α σ τ
  | 0, s, d => .more s d
  | n + 1, s, d =>
    match takeLine term d with
    | none => .more s d
    | some (l, r) =>
      match act s l with
      | .inl s' => feedN n s' r
      | .inr t => .stop t r

/-- The machine run on a whole buffer; every line has at least one symbol. -/
def feed (s : σ) (d : List α) : Out α σ τ := feedN term act d.length s d

def deliver (o : Out α σ τ) (b : List α) : Out α σ τ :=
  match o with
  | .more s r => feed term act s (r ++ b)
  | .stop t r => .stop t (r ++ b)

/-- The chunks of a stream, delivered one after the other. -/
def feedChunks (s : σ) (cs : List (List α)) : Out α σ τ :=
  cs.foldl (deliver term act) (.more s [])

def Out.rest : Out α σ τ → List α
  | .more _ r => r
  | .stop _ r => r

/-- How many symbols of the stream `d` the machine takes. -/
def headLength (s : σ) (d : List α) : Nat := d.length - (feed term act s d).rest.length

theorem feedN_eq {n : Nat} {s : σ} {d : List α} (h : d.length ≤ n) :
    feedN term act n s d = feed term act s d := by
  have key : ∀ k m s (d : List α), d.length ≤ k → d.length ≤ m →
      feedN term act k s d = feedN term act m s d := by
    intro k
    induction k with
    | zero =>
      intro m s d hk hm
      have hd : d = [] := List.eq_nil_of_length_eq_zero (by omega)
      subst hd
      cases m <;> simp [feedN, takeLine]
    | succ k ih =>
      intro m s d hk hm
      cases m with
      | zero =>
        have hd : d = [] := List.eq_nil_of_length_eq_zero (by omega)
        subst hd
        simp [feedN, takeLine]
      | succ m =>
        simp only [feedN]
        split
        · rfl
        · rename_i l r hl
          have := takeLine_length term hl
          split
          · exact ih m _ r (by omega) (by omega)
          · rfl
  exact key n d.length s d h (Nat.le_refl _)

theorem feed_eq (s : σ) (d : List α) :
    feed term act s d =
      match takeLine term d with
      | none => .more s d
      | some (l, r) =>
        match act s l with
        | .inl s' => feed term act s' r
        | .inr t => .stop t r := by
  cases d with
  | nil => simp [feed, feedN, takeLine]
  | cons x xs =>
    simp only [feed, List.length_cons, feedN]
    split
    · rfl
    · rename_i l r hl
      have := takeLine_length term hl
      simp only [List.length_cons] at this
      split
      · rw [feedN_eq term act (by omega)]; rfl
      · rfl

theorem feed_none {s : σ} {d : List α} (h : takeLine term d = none) :
    feed term act s d = .more s d := by
  rw [feed_eq, h]

theorem feed_next {s s' : σ} {d l r : List α} (h : takeLine term d = some (l, r))
    (ha : act s l = .inl s') : feed term act s d = feed term act s' r := by
  rw [feed_eq, h]; simp only [ha]

theorem feed_stop {s : σ} {t : τ} {d l r : List α} (h : takeLine term d = some (l, r))
    (ha : act s l = .inr t) : feed term act s d = .stop t r := by
  rw [feed_eq, h]; simp only [ha]

/-- Induction along the lines a machine takes off a buffer. -/
theorem feed_induction {P : σ → List α → Prop}
    (hnone : ∀ s d, takeLine term d = none → P s d)
    (hstop : ∀ s d l r t, takeLine term d = some (l, r) → act s l = .inr t → P s d)
    (hnext : ∀ s d l r s', takeLine term d = some (l, r) → act s l = .inl s' → P s' r → P s d)
    (s : σ) (d : List α) : P s d := by
  induction hn : d.length using Nat.strongRecOn generalizing s d with
  | ind n ih =>
    cases hl : takeLine term d with
    | none => exact hnone s d hl
    | some p =>
      obtain ⟨l, r⟩ := p
      have hlt := takeLine_length term hl
      cases ha : act s l with
      | inl s' => exact hnext s d l r s' hl ha (ih r.length (by omega) s' r rfl)
      | inr t => exact hstop s d l r t hl ha

theorem feed_rest_length (s : σ) (d : List α) : (feed term act s d).rest.length ≤ d.length := by
  refine feed_induction term act (P := fun s d => (feed term act s d).rest.length ≤ d.length)
    ?_ ?_ ?_ s d
  · intro s d h; rw [feed_none term act h]; simp [Out.rest]
  · intro s d l r t h ha
    have := takeLine_length term h
    rw [feed_stop term act h ha]; simp only [Out.rest]; omega
  · intro s d l r s' h ha ih
    have := takeLine_length term h
    rw [feed_next term act h ha]; omega

theorem feed_rest_suffix (s : σ) (d : List α) : (feed term act s d).rest <:+ d := by
  refine feed_induction term act (P := fun s d => (feed term act s d).rest <:+ d) ?_ ?_ ?_ s d
  · intro s d h; rw [feed_none term act h]; exact List.suffix_refl _
  · intro s d l r t h ha
    rw [feed_stop term act h ha]; exact takeLine_suffix term h
  · intro s d l r s' h ha ih
    rw [feed_next term act h ha]; exact ih.trans (takeLine_suffix term h)

def Out.map (f : σ → σ) (g : τ → τ) : Out α σ τ → Out α σ τ
  | .more s r => .more (f s) r
  | .stop t r => .stop (g t) r

/-- A change of state that the machine does not notice. -/
theorem feed_map {f : σ → σ} {g : τ → τ} (hf : ∀ s l, act (f s) l = (act s l).map f g) (s : σ)
    (d : List α) : feed term act (f s) d = (feed term act s d).map f g := by
  refine feed_induction term act
    (P := fun s d => feed term act (f s) d = (feed term act s d).map f g) ?_ ?_ ?_ s d
  · intro s d h; rw [feed_none term act h, feed_none term act h]; rfl
  · intro s d l r t h ha
    rw [feed_stop term act h ha, feed_stop term act (t := g t) h (by rw [hf, ha]; rfl)]; rfl
  · intro s d l r s' h ha ih
    have ha' : act (f s) l = .inl (f s') := by rw [hf, ha]; rfl
    rw [feed_next term act h ha, feed_next term act h ha']; exact ih

/-- A machine that waits holds no terminator back. -/
theorem feed_more_rest {s s' : σ} {d r : List α} (h : feed term act s d = .more s' r) :
    takeLine term r = none := by
  revert h
  refine feed_induction term act
    (P := fun s d => feed term act s d = .more s' r → takeLine term r = none) ?_ ?_ ?_ s d
  · intro s d hn h
    rw [feed_none term act hn] at h
    cases h; exact hn
  · intro s d l r' t hl ha h
    rw [feed_stop term act hl ha] at h; cases h
  · intro s d l r' s'' hl ha ih h
    rw [feed_next term act hl ha] at h; exact ih h

/-- Two machines that do the same with every line, where the first one comes. -/
theorem feed_same {act' : σ → List α → σ ⊕ τ} {I : σ → Prop}
    (hstep : ∀ s l s', I s → act s l = .inl s' → I s')
    (hsame : ∀ s l, I s → act' s l = act s l) {s : σ} (hs : I s) (d : List α) :
    feed term act' s d = feed term act s d := by
  revert hs
  refine feed_induction term act (P := fun s d => I s →
    feed term act' s d = feed term act s d) ?_ ?_ ?_ s d
  · intro s d hn _
    rw [feed_none term act hn, feed_none term act' hn]
  · intro s d l r t hl ha hs
    rw [feed_stop term act hl ha, feed_stop term act' hl ((hsame s l hs).trans ha)]
  · intro s d l r s' hl ha ih hs
    rw [feed_next term act hl ha, feed_next term act' hl ((hsame s l hs).trans ha)]
    exact ih (hstep s l s' hs ha)

/-- More symbols for a machine that waits. -/
theorem feed_append_more {s s' : σ} {a b r : List α} (h : feed term act s a = .more s' r)
    (hc : CutOk term a b) : feed term act s (a ++ b) = feed term act s' (r ++ b) := by
  revert h hc
  refine feed_induction term act (P := fun s a => feed term act s a = .more s' r →
    CutOk term a b → feed term act s (a ++ b) = feed term act s' (r ++ b)) ?_ ?_ ?_ s a
  · intro s a hn h _
    rw [feed_none term act hn] at h
    cases h; rfl
  · intro s a l r' t hl ha h _
    rw [feed_stop term act hl ha] at h; cases h
  · intro s a l r' s'' hl ha ih h hc
    rw [feed_next term act hl ha] at h
    rw [feed_next term act (takeLine_append term hl fun _ => hc) ha]
    exact ih h (hc.rest term hl)

/-- Symbols behind the line at which a machine stops stay where they are. -/
theorem feed_append_stop {s : σ} {t : τ} {a b r : List α} (h : feed term act s a = .stop t r)
    (hc : r = [] → CutOk term a b) : feed term act s (a ++ b) = .stop t (r ++ b) := by
  revert h hc
  refine feed_induction term act (P := fun s a => feed term act s a = .stop t r →
    (r = [] → CutOk term a b) → feed term act s (a ++ b) = .stop t (r ++ b)) ?_ ?_ ?_ s a
  · intro s a hn h _
    rw [feed_none term act hn] at h; cases h
  · intro s a l r' t' hl ha h hc
    rw [feed_stop term act hl ha] at h
    cases h
    rw [feed_stop term act (takeLine_append term hl hc) ha]
  · intro s a l r' s'' hl ha ih h hc
    rw [feed_next term act hl ha] at h
    have hr' : r' = [] → CutOk term a b := by
      intro he
      rw [he, feed_none term act (by simp [takeLine])] at h
      cases h
    rw [feed_next term act (takeLine_append term hl hr') ha]
    exact ih h fun he => (hc he).rest term hl

theorem feed_stop_length {s : σ} {t : τ} {d r : List α} (h : feed term act s d = .stop t r) :
    r.length < d.length := by
  cases hl : takeLine term d with
  | none => rw [feed_none term act hl] at h; cases h
  | some p =>
    obtain ⟨l, r'⟩ := p
    have hlt := takeLine_length term hl
    cases ha : act s l with
    | inl s' =>
      have hle := feed_rest_length term act s' r'
      rw [← feed_next term act hl ha, h] at hle
      simp only [Out.rest] at hle; omega
    | inr t' =>
      rw [feed_stop term act hl ha] at h
      cases h; exact hlt

/-- A machine that waits inside a line cannot be hurt by a cut there. -/
theorem feed_more_cutOk {s s' : σ} {a r : List α} (h : feed term act s a = .more s' r)
    (hr : r ≠ []) (b : List α) : CutOk term a b := by
  revert h
  refine feed_induction term act
    (P := fun s a => feed term act s a = .more s' r → CutOk term a b) ?_ ?_ ?_ s a
  · intro s a hn _ x y hx
    rw [openEnd_none term ((takeLine_none term).mp hn)] at hx; cases hx
  · intro s a l r' t hl ha h
    rw [feed_stop term act hl ha] at h; cases h
  · intro s a l r' s'' hl ha ih h
    rw [feed_next term act hl ha] at h
    have hr' : r' ≠ [] := by
      rintro rfl
      rw [feed_none term act (by simp [takeLine])] at h
      cases h; exact hr rfl
    intro x y hx
    rw [openEnd_takeLine term hl hr'] at hx
    exact ih h x y hx

end Feed

section Segmentation

variable {α σ τ : Type} [DecidableEq α] (term : α → Bool) (act : σ → List α → σ ⊕ τ)

theorem takeLine_mate {s l q : List α} {x y : α} (h : takeLine term s = some (l, []))
    (hx : openEnd term s = some x) (hm : mates term x y = true) :
    takeLine term (s ++ y :: q) = some (l, q) := by
  induction s generalizing l with
  | nil => simp [takeLine] at h
  | cons z zs ih =>
    simp only [takeLine] at h
    simp only [List.cons_append, takeLine]
    split at h
    · rename_i hz
      simp only [Option.some.injEq, Prod.mk.injEq] at h
      obtain ⟨rfl, hd⟩ := h
      cases zs with
      | nil =>
        simp only [openEnd, hz, if_true, Option.some.injEq] at hx
        subst hx
        simp [hz, dropMate, hm]
      | cons w ws =>
        simp only [dropMate] at hd
        split at hd
        · -- the line end is already complete, so nothing is open
          rename_i hw
          subst hd
          simp [openEnd, hz, hw] at hx
        · cases hd
    · rename_i hz
      split at h
      · cases h
      · rename_i l' r' hs
        simp only [Option.some.injEq, Prod.mk.injEq] at h
        obtain ⟨rfl, rfl⟩ := h
        have hx' : openEnd term zs = some x := by
          cases zs with
          | nil => simp [takeLine] at hs
          | cons w ws => simpa [openEnd, hz] using hx
        simp [hz, ih hs hx']

/-- A cut inside a two-symbol line end lies inside the head. -/
theorem lt_headLength {s : σ} {p : List α} {x y : α} {q : List α}
    (hr : (feed term act s p).rest = []) (hx : openEnd term p = some x)
    (hm : mates term x y = true) : p.length < headLength term act s (p ++ y :: q) := by
  revert hr hx
  refine feed_induction term act (P := fun s p => (feed term act s p).rest = [] →
    openEnd term p = some x → p.length < headLength term act s (p ++ y :: q)) ?_ ?_ ?_ s p
  · intro s p hn hr hx
    rw [openEnd_none term ((takeLine_none term).mp hn)] at hx; cases hx
  · intro s p l r t hl ha hr hx
    rw [feed_stop term act hl ha] at hr
    simp only [Out.rest] at hr
    subst hr
    rw [headLength, feed_stop term act (takeLine_mate term hl hx hm) ha]
    simp only [Out.rest, List.length_append, List.length_cons]; omega
  · intro s p l r s' hl ha ih hr hx
    rw [feed_next term act hl ha] at hr
    by_cases hr' : r = []
    · subst hr'
      have hle := feed_rest_length term act s' q
      rw [headLength, feed_next term act (takeLine_mate term hl hx hm) ha]
      simp only [List.length_append, List.length_cons]; omega
    · rw [openEnd_takeLine term hl hr'] at hx
      have hlt := ih hr hx
      have hlen := takeLine_length term hl
      rw [headLength] at hlt
      rw [headLength, feed_next term act (takeLine_append term hl fun h => absurd h hr') ha]
      simp only [List.length_append, List.length_cons] at hlt ⊢; omega

/-- Every cut that lies inside the head falls between two line ends. -/
def CutsOk (s : σ) (cs : List (List α)) : Prop :=
  ∀ pre b post, cs = pre ++ b :: post →
    pre.flatten.length < headLength term act s cs.flatten → CutOk term pre.flatten b

/-- **Chunks cut between line ends give what one delivery gives.** -/
theorem feedChunks_flatten {s : σ} {cs : List (List α)} (h : CutsOk term act s cs) :
    feedChunks term act s cs = feed term act s cs.flatten := by
  have key : ∀ pre post, cs = pre ++ post →
      feedChunks term act s pre = feed term act s pre.flatten := by
    intro pre
    induction pre using List.reverseRecOn with
    | nil => intro _ _; simp [feedChunks, feed, feedN]
    | append_singleton pre b ih =>
      intro post hcs
      have hcs' : cs = pre ++ b :: post := by simpa using hcs
      have hpre := ih (b :: post) hcs'
      have hflat : cs.flatten = pre.flatten ++ (b ++ post.flatten) := by simp [hcs']
      -- with nothing left over, a cut that is not inside the head is harmless too
      have hcut : (feed term act s pre.flatten).rest = [] → CutOk term pre.flatten b := by
        intro hr
        by_cases hlt : pre.flatten.length < headLength term act s cs.flatten
        · exact h pre b post hcs' hlt
        · intro x y hx hy
          cases hm : mates term x y with
          | false => rfl
          | true =>
            obtain ⟨b', rfl⟩ : ∃ b', b = y :: b' := by
              cases b with
              | nil => simp at hy
              | cons z b' => simp only [List.head?_cons, Option.some.injEq] at hy; exact ⟨b', by rw [hy]⟩
            refine absurd ?_ hlt
            rw [hflat]
            simpa using lt_headLength term act (q := b' ++ post.flatten) hr hx hm
      simp only [feedChunks, List.foldl_append, List.foldl_cons, List.foldl_nil,
        List.flatten_append, List.flatten_cons, List.flatten_nil, List.append_nil] at hpre ⊢
      rw [hpre]
      cases hf : feed term act s pre.flatten with
      | more s' r =>
        rw [hf] at hcut
        simp only [deliver]
        by_cases hr : r = []
        · rw [feed_append_more term act hf (hcut hr)]
        · rw [feed_append_more term act hf (feed_more_cutOk term act hf hr b)]
      | stop t r =>
        rw [hf] at hcut
        simp only [deliver]
        rw [feed_append_stop term act hf hcut]
  exact key cs [] (by simp)

theorem openEnd_some {s : List α} {x : α} (h : openEnd term s = some x) :
    ∃ p, s = p ++ [x] ∧ term x = true := by
  induction hn : s.length using Nat.strongRecOn generalizing s with
  | ind n ih =>
    match s, h with
    | [z], h =>
      simp only [openEnd] at h
      split at h
      · rename_i hz
        simp only [Option.some.injEq] at h
        exact ⟨[], by simp [h], by rw [← h]; exact hz⟩
      · cases h
    | z :: w :: ws, h =>
      simp only [openEnd] at h
      simp only [List.length_cons] at hn
      split at h
      · obtain ⟨p, hp, hx⟩ := ih ws.length (by omega) h rfl
        exact ⟨z :: w :: p, by simp [hp], hx⟩
      · obtain ⟨p, hp, hx⟩ := ih (w :: ws).length (by simp only [List.length_cons]; omega) h rfl
        exact ⟨z :: p, by rw [hp]; simp, hx⟩

theorem hasMates_of_adjacent {x y : α} (hx : term x = true) (hm : mates term x y = true)
    (p q : List α) : hasMates term (p ++ x :: y :: q) = true := by
  induction p with
  | nil => simp [hasMates, hx, hm]
  | cons z p ih =>
    cases p with
    | nil => simp [hasMates, hx, hm]
    | cons w p => simp only [List.cons_append, hasMates] at ih ⊢; rw [ih]; simp

/-- The first place where two different terminators stand side by side. -/
theorem hasMates_first {s : List α} (h : hasMates term s = true) :
    ∃ p x y q, s = p ++ x :: y :: q ∧ term x = true ∧ mates term x y = true ∧
      hasMates term (p ++ [x]) = false := by
  induction s with
  | nil => simp [hasMates] at h
  | cons z s ih =>
    cases s with
    | nil => simp [hasMates] at h
    | cons w s =>
      by_cases hz : (term z && mates term z w) = true
      · simp only [Bool.and_eq_true] at hz
        exact ⟨[], z, w, s, rfl, hz.1, hz.2, rfl⟩
      · have hrest : hasMates term (w :: s) = true := by
          simp only [hasMates, Bool.or_eq_true] at h
          exact h.resolve_left hz
        obtain ⟨p, x, y, q, hs, hx, hm, hf⟩ := ih hrest
        refine ⟨z :: p, x, y, q, by rw [hs]; rfl, hx, hm, ?_⟩
        cases p with
        | nil =>
          simp only [List.nil_append, List.cons.injEq] at hs
          obtain ⟨rfl, -⟩ := hs
          simpa [hasMates] using hz
        | cons v p =>
          simp only [List.cons_append, List.cons.injEq] at hs
          obtain ⟨rfl, -⟩ := hs
          simp only [List.cons_append, hasMates] at hf ⊢
          simp only [Bool.not_eq_true] at hz
          rw [hz, hf]; rfl

/-- A head without two-symbol line ends may be cut anywhere. -/
theorem cutsOk_of_no_mates {s : σ} {cs : List (List α)}
    (h : hasMates term (cs.flatten.take (headLength term act s cs.flatten)) = false) :
    CutsOk term act s cs := by
  intro pre b post hcs hlt x y hx hy
  cases hm : mates term x y with
  | false => rfl
  | true =>
    obtain ⟨p, hp, htx⟩ := openEnd_some term hx
    obtain ⟨b', rfl⟩ : ∃ b', b = y :: b' := by
      cases b with
      | nil => simp at hy
      | cons z b' => simp only [List.head?_cons, Option.some.injEq] at hy; exact ⟨b', by rw [hy]⟩
    have hflat : cs.flatten = (p ++ [x, y]) ++ (b' ++ post.flatten) := by simp [hcs, hp]
    obtain ⟨k, hk⟩ : ∃ k, headLength term act s cs.flatten = (p ++ [x, y]).length + k := by
      refine ⟨headLength term act s cs.flatten - (p ++ [x, y]).length, ?_⟩
      rw [hp] at hlt
      simp only [List.length_append, List.length_cons, List.length_nil] at hlt ⊢; omega
    rw [hk, hflat, List.take_length_add_append] at h
    have := hasMates_of_adjacent term htx hm p ((b' ++ post.flatten).take k)
    simp only [List.append_assoc, List.cons_append, List.nil_append] at h
    rw [h] at this; cases this

/-- Whether the machine has stopped, and how much of the stream it has left. -/
def Out.view : Out α σ τ → Bool × Nat
  | .more _ r => (false, r.length)
  | .stop _ r => (true, r.length)

/-- A head with a two-symbol line end can be cut so that the machine stops elsewhere: the second
symbol of the line end is then a line of its own, and an empty line stops the machine. -/
theorem exists_split {s : σ} {d : List α}
    (hempty : ∀ s l s', act s l = .inl s' → ∃ t, act s' [] = .inr t)
    (h : hasMates term (d.take (headLength term act s d)) = true) :
    ∃ cs : List (List α), cs.flatten = d ∧
      (feedChunks term act s cs).view ≠ (feed term act s d).view := by
  obtain ⟨p, x, y, q', hd', hx, hm, hfirst⟩ := hasMates_first term h
  obtain ⟨q, hd⟩ : ∃ q, d = p ++ x :: y :: q :=
    ⟨q' ++ d.drop (headLength term act s d), by
      conv => lhs; rw [← List.take_append_drop (headLength term act s d) d, hd']
      simp⟩
  have hlen : p.length + 2 ≤ headLength term act s d := by
    have := congrArg List.length hd'
    simp only [List.length_take, List.length_append, List.length_cons] at this; omega
  have hty : term y = true := by simp only [mates, Bool.and_eq_true] at hm; exact hm.1
  have hcut : ∀ b, CutOk term p (x :: b) := by
    intro b z w hz hw
    simp only [List.head?_cons, Option.some.injEq] at hw
    subst hw
    cases hmz : mates term z x with
    | false => rfl
    | true =>
      obtain ⟨p', rfl, htz⟩ := openEnd_some term hz
      have := hasMates_of_adjacent term htz hmz p' []
      simp only [List.append_assoc, List.cons_append, List.nil_append] at hfirst
      rw [hfirst] at this; cases this
  refine ⟨[p ++ [x], [y], q], by simp [hd], ?_⟩
  cases hp : feed term act s p with
  | stop t r =>
    -- the machine would stop before the pair, which then is no part of the head
    have := feed_append_stop term act (b := x :: y :: q) hp fun _ => hcut _
    rw [← hd] at this
    rw [headLength, this, hd] at hlen
    simp only [Out.rest, List.length_append, List.length_cons] at hlen; omega
  | more s1 p1 =>
    have hp1 := (takeLine_none term).mp (feed_more_rest term act hp)
    have hwhole : takeLine term (p1 ++ x :: y :: q) = some (p1, q) := by
      rw [takeLine_quiet term hp1]; simp [takeLine, hx, dropMate, hm]
    have hhalf : takeLine term (p1 ++ [x]) = some (p1, []) := by
      rw [takeLine_quiet term hp1]; simp [takeLine, hx, dropMate]
    have hfd : feed term act s d = feed term act s1 (p1 ++ x :: y :: q) := by
      rw [hd]; exact feed_append_more term act hp (hcut _)
    have hf1 : feed term act s (p ++ [x]) = feed term act s1 (p1 ++ [x]) :=
      feed_append_more term act hp (hcut [])
    simp only [feedChunks, List.foldl_cons, List.foldl_nil, deliver, List.nil_append, hf1, hfd]
    cases ha : act s1 p1 with
    | inr t =>
      rw [feed_stop term act hhalf ha, feed_stop term act hwhole ha]
      simp [Out.view]
    | inl s2 =>
      obtain ⟨t, ht⟩ := hempty _ _ _ ha
      have hy : takeLine term [y] = some ([], []) := by simp [takeLine, hty, dropMate]
      rw [feed_next term act hhalf ha, feed_next term act hwhole ha,
        feed_none term act (d := []) (by simp [takeLine])]
      simp only [List.nil_append]
      rw [feed_stop term act hy ht]
      cases hq : feed term act s2 q with
      | more s3 r => simp [Out.view]
      | stop t' r =>
        have := feed_stop_length term act hq
        simp only [List.nil_append, Out.view, ne_eq, Prod.mk.injEq, true_and]; omega

/-- **Every way of cutting a stream gives the same result exactly when no line end of its head
is a two-symbol one.** -/
theorem splits_agree_iff {s : σ} {d : List α}
    (hempty : ∀ s l s', act s l = .inl s' → ∃ t, act s' [] = .inr t) :
    (∀ cs : List (List α), cs.flatten = d → feedChunks term act s cs = feed term act s d) ↔
      hasMates term (d.take (headLength term act s d)) = false := by
  constructor
  · intro h
    cases hm : hasMates term (d.take (headLength term act s d)) with
    | false => rfl
    | true =>
      obtain ⟨cs, hcs, hne⟩ := exists_split term act hempty hm
      exact absurd (congrArg Out.view (h cs hcs)) hne
  · rintro h cs rfl
    exact feedChunks_flatten term act (cutsOk_of_no_mates term act h)

theorem feedChunks_concat (s : σ) (cs : List (List α)) (c : List α) :
    feedChunks term act s (cs ++ [c]) = deliver term act (feedChunks term act s cs) c := by
  simp [feedChunks]

theorem deliver_rest_length (o : Out α σ τ) (b : List α) :
    (deliver term act o b).rest.length ≤ o.rest.length + b.length := by
  cases o with
  | more s r =>
    have := feed_rest_length term act s (r ++ b)
    simp only [deliver, Out.rest, List.length_append] at this ⊢; exact this
  | stop t r => simp [deliver, Out.rest]

theorem feedChunks_rest_length (s : σ) (cs : List (List α)) :
    (feedChunks term act s cs).rest.length ≤ cs.flatten.length := by
  induction cs using List.reverseRecOn with
  | nil => simp [feedChunks, Out.rest]
  | append_singleton cs c ih =>
    have := deliver_rest_length term act (feedChunks term act s cs) c
    rw [feedChunks_concat]
    simp only [List.flatten_append, List.length_append, List.flatten_cons, List.flatten_nil,
      List.append_nil]
    omega

end Segmentation

section Capacity

variable {α σ τ : Type} [DecidableEq α] (term : α → Bool) (act : σ → List α → σ ⊕ τ)

/-- The room a stream needs in a buffer: its head, or all of it when the head has no end. -/
def headSize (s : σ) (d : List α) : Nat :=
  match feed term act s d with
  | .more _ _ => d.length
  | .stop _ r => d.length - r.length

theorem takeLine_take {d l r : List α} {n : Nat} (h : takeLine term d = some (l, r))
    (hn : d.length - r.length ≤ n) :
    takeLine term (d.take n) = some (l, r.take (n - (d.length - r.length))) := by
  induction d generalizing l n with
  | nil => simp [takeLine] at h
  | cons x xs ih =>
    have hlen := takeLine_length term h
    simp only [List.length_cons] at hn hlen
    obtain ⟨m, rfl⟩ : ∃ m, n = m + 1 := ⟨n - 1, by omega⟩
    simp only [takeLine] at h
    simp only [List.take_succ_cons, takeLine, List.length_cons]
    split at h
    · rename_i hx
      simp only [Option.some.injEq, Prod.mk.injEq] at h
      obtain ⟨rfl, rfl⟩ := h
      rw [if_pos hx]
      cases xs with
      | nil => simp [dropMate]
      | cons y ys =>
        cases hm : mates term x y with
        | true =>
          simp only [dropMate, hm, if_true, List.length_cons] at hn ⊢
          obtain ⟨k, rfl⟩ : ∃ k, m = k + 1 := ⟨m - 1, by omega⟩
          simp only [List.take_succ_cons, hm, if_true]
          rw [show k + 1 + 1 - (ys.length + 1 + 1 - ys.length) = k by omega]
        | false =>
          simp only [dropMate, hm, Bool.false_eq_true, if_false, List.length_cons]
          rw [show m + 1 - (ys.length + 1 + 1 - (ys.length + 1)) = m by omega]
          cases m with
          | zero => simp
          | succ k => simp [hm]
    · rename_i hx
      split at h
      · cases h
      · rename_i l' r' hl
        simp only [Option.some.injEq, Prod.mk.injEq] at h
        obtain ⟨rfl, rfl⟩ := h
        have hlt := takeLine_length term hl
        rw [if_neg hx, ih hl (by omega)]
        simp only [Option.some.injEq, Prod.mk.injEq, true_and]
        congr 1; omega

/-- A machine that stops needs no more than its head. -/
theorem feed_take_stop {s : σ} {t : τ} {d r : List α} {n : Nat}
    (h : feed term act s d = .stop t r) (hn : d.length - r.length ≤ n) :
    feed term act s (d.take n) = .stop t (r.take (n - (d.length - r.length))) := by
  have key : ∀ n, feed term act s d = .stop t r → d.length - r.length ≤ n →
      feed term act s (d.take n) = .stop t (r.take (n - (d.length - r.length))) := by
    refine feed_induction term act (P := fun s d => ∀ n, feed term act s d = .stop t r →
      d.length - r.length ≤ n →
        feed term act s (d.take n) = .stop t (r.take (n - (d.length - r.length)))) ?_ ?_ ?_ s d
    · intro s d hl n h
      rw [feed_none term act hl] at h; cases h
    · intro s d l r' t' hl ha n h hn
      rw [feed_stop term act hl ha, Out.stop.injEq] at h
      obtain ⟨rfl, rfl⟩ := h
      exact feed_stop term act (takeLine_take term hl hn) ha
    · intro s d l r' s' hl ha ih n h hn
      rw [feed_next term act hl ha] at h
      have hd := takeLine_length term hl
      have hr := feed_stop_length term act h
      rw [feed_next term act (takeLine_take term hl (by omega)) ha, ih _ h (by omega)]
      congr 2; omega
  exact key n h hn

theorem headSize_none {s : σ} {d : List α} (h : takeLine term d = none) :
    headSize term act s d = d.length := by
  simp only [headSize, feed_none term act h]

theorem headSize_stop {s : σ} {t : τ} {d l r : List α} (h : takeLine term d = some (l, r))
    (ha : act s l = .inr t) : headSize term act s d = d.length - r.length := by
  simp only [headSize, feed_stop term act h ha]

theorem headSize_inl {s s' : σ} {d l r : List α} (h : takeLine term d = some (l, r))
    (ha : act s l = .inl s') :
    headSize term act s d = d.length - r.length + headSize term act s' r := by
  have hd := takeLine_length term h
  have hr := feed_rest_length term act s' r
  simp only [headSize, feed_next term act h ha]
  cases ho : feed term act s' r with
  | more s₂ r₂ => simp only; omega
  | stop t r₂ =>
    rw [ho] at hr
    simp only [Out.rest] at hr ⊢; omega

theorem takeLine_more {a l r : List α} (h : takeLine term a = some (l, r)) (b : List α) :
    ∃ r', takeLine term (a ++ b) = some (l, r') ∧ r'.length ≤ r.length + b.length ∧
      (r ≠ [] → r' = r ++ b) := by
  by_cases hc : r = [] → CutOk term a b
  · exact ⟨r ++ b, takeLine_append term h hc, by simp, fun _ => rfl⟩
  · simp only [Classical.not_imp] at hc
    obtain ⟨rfl, hc⟩ := hc
    unfold CutOk at hc
    simp only [not_forall] at hc
    obtain ⟨x, y, hx, hy, hm⟩ := hc
    cases b with
    | nil => simp at hy
    | cons z q =>
      simp only [List.head?_cons, Option.some.injEq] at hy
      subst hy
      exact ⟨q, takeLine_mate term h hx (by simpa using hm), by simp, fun h => absurd rfl h⟩

/-- A machine that has stopped stays so when more symbols come, and what is left grows. -/
theorem feed_stop_more {s : σ} {t : τ} {a r : List α} (h : feed term act s a = .stop t r)
    (b : List α) : ∃ r', feed term act s (a ++ b) = .stop t r' ∧ r.length ≤ r'.length := by
  revert h
  refine feed_induction term act (P := fun s a => feed term act s a = .stop t r →
    ∃ r', feed term act s (a ++ b) = .stop t r' ∧ r.length ≤ r'.length) ?_ ?_ ?_ s a
  · intro s a hn h
    rw [feed_none term act hn] at h; cases h
  · intro s a l r₁ t₁ hl ha h
    rw [feed_stop term act hl ha] at h
    cases h
    obtain ⟨r', hl', -, hr'⟩ := takeLine_more term hl b
    refine ⟨r', feed_stop term act hl' ha, ?_⟩
    by_cases hr : r = []
    · rw [hr]; exact Nat.zero_le _
    · rw [hr' hr, List.length_append]; exact Nat.le_add_right _ _
  · intro s a l r₁ s₁ hl ha ih h
    rw [feed_next term act hl ha] at h
    obtain ⟨r', hl', -, hr'⟩ := takeLine_more term hl b
    have hr : r₁ ≠ [] := by
      rintro rfl
      rw [feed_none term act (by simp [takeLine])] at h; cases h
    rw [feed_next term act hl' ha, hr' hr]
    exact ih h

/-- A longer stream needs no less room. -/
theorem headSize_mono (s : σ) (a b : List α) :
    headSize term act s a ≤ headSize term act s (a ++ b) := by
  refine feed_induction term act
    (P := fun s a => headSize term act s a ≤ headSize term act s (a ++ b)) ?_ ?_ ?_ s a
  · intro s a hl
    rw [headSize_none term act hl]
    have hquiet := takeLine_quiet term ((takeLine_none term).mp hl) b
    cases hb : takeLine term b with
    | none =>
      rw [hb] at hquiet
      rw [headSize_none term act hquiet]; simp
    | some p =>
      obtain ⟨l, r⟩ := p
      have hlen := takeLine_length term hb
      rw [hb] at hquiet
      cases ha : act s (a ++ l) with
      | inl s' =>
        rw [headSize_inl term act hquiet ha]
        simp only [List.length_append]; omega
      | inr t =>
        rw [headSize_stop term act hquiet ha]
        simp only [List.length_append]; omega
  · intro s a l r t hl ha
    obtain ⟨r', hl', hlen, -⟩ := takeLine_more term hl b
    rw [headSize_stop term act hl ha, headSize_stop term act hl' ha]
    simp only [List.length_append]; omega
  · intro s a l r s' hl ha ih
    obtain ⟨r', hl', hlen, hr'⟩ := takeLine_more term hl b
    rw [headSize_inl term act hl ha, headSize_inl term act hl' ha]
    by_cases hr : r = []
    · subst hr
      rw [headSize_none term act (d := []) (by simp [takeLine])]
      simp only [List.length_append, List.length_nil] at hlen ⊢; omega
    · rw [hr' hr]
      simp only [List.length_append]; omega

/-- A machine that waits in another state than it began has just taken a line. -/
theorem feed_more_inl {s s' : σ} {d : List α} (hd : d ≠ []) (h : feed term act s d = .more s' []) :
    ∃ s₀ l, act s₀ l = .inl s' := by
  have key : ∀ s (d : List α), feed term act s d = .more s' [] →
      (s = s' ∧ d = []) ∨ ∃ s₀ l, act s₀ l = .inl s' := by
    intro s d
    refine feed_induction term act (P := fun s d => feed term act s d = .more s' [] →
      (s = s' ∧ d = []) ∨ ∃ s₀ l, act s₀ l = .inl s') ?_ ?_ ?_ s d
    · intro s d hl h
      rw [feed_none term act hl, Out.more.injEq] at h
      exact .inl h
    · intro s d l r t hl ha h
      rw [feed_stop term act hl ha] at h; cases h
    · intro s d l r s₁ hl ha ih h
      rw [feed_next term act hl ha] at h
      rcases ih h with ⟨rfl, -⟩ | h
      · exact .inr ⟨s, l, ha⟩
      · exact .inr h
  rcases key s d h with ⟨-, h⟩ | h
  · exact absurd h hd
  · exact h

/-- A cut inside a line end makes the next chunk begin with an empty line. -/
theorem not_cutOk {a b : List α} (h : ¬ CutOk term a b) :
    a ≠ [] ∧ ∃ y b', b = y :: b' ∧ takeLine term b = some ([], dropMate term y b') := by
  unfold CutOk at h
  simp only [not_forall] at h
  obtain ⟨x, y, hx, hy, hm⟩ := h
  refine ⟨by rintro rfl; simp [openEnd] at hx, ?_⟩
  cases b with
  | nil => simp at hy
  | cons z b' =>
    simp only [List.head?_cons, Option.some.injEq] at hy
    subst hy
    have hz : term z = true := by
      simp only [mates, Bool.not_eq_false, Bool.and_eq_true] at hm; exact hm.1
    exact ⟨z, b', rfl, by simp [takeLine, hz]⟩

/-- Where an empty line stops the machine, a machine that still waits has met no cut inside a
line end. -/
theorem feedChunks_more {s s' : σ} {cs : List (List α)} {r : List α}
    (hempty : ∀ s l s', act s l = .inl s' → ∃ t, act s' [] = .inr t)
    (h : feedChunks term act s cs = .more s' r) : feed term act s cs.flatten = .more s' r := by
  induction cs using List.reverseRecOn generalizing s' r with
  | nil =>
    simp only [feedChunks, List.foldl_nil] at h
    simpa [feed, feedN] using h
  | append_singleton cs c ih =>
    rw [feedChunks_concat] at h
    cases hp : feedChunks term act s cs with
    | stop t r₁ => rw [hp] at h; simp [deliver] at h
    | more s₁ r₁ =>
      rw [hp] at h
      have hpre := ih hp
      simp only [deliver] at h
      by_cases hc : CutOk term cs.flatten c
      · have := feed_append_more term act hpre hc
        simp only [List.flatten_append, List.flatten_cons, List.flatten_nil, List.append_nil]
        rw [this, h]
      · have hr : r₁ = [] := by
          by_contra hr
          exact hc (feed_more_cutOk term act hpre hr c)
        subst hr
        obtain ⟨hne, y, c', rfl, hl⟩ := not_cutOk term hc
        obtain ⟨s₀, l, ha⟩ := feed_more_inl term act hne hpre
        obtain ⟨t, ht⟩ := hempty _ _ _ ha
        simp only [List.nil_append] at h
        rw [feed_stop term act hl ht] at h; cases h

/-- The room that a whole stream needs is enough for what a machine that waits still holds,
together with the next chunk. -/
theorem headSize_next {s s' : σ} {cs post : List (List α)} {b r : List α} {n : Nat}
    (hempty : ∀ s l s', act s l = .inl s' → ∃ t, act s' [] = .inr t)
    (hcs : feedChunks term act s cs = .more s' r) (hn : 2 ≤ n)
    (hfit : headSize term act s (cs ++ b :: post).flatten ≤ n) :
    headSize term act s' (r ++ b) ≤ n := by
  have hpre := feedChunks_more term act hempty hcs
  have hrlen : r.length ≤ cs.flatten.length := by
    have := feed_rest_length term act s cs.flatten
    rw [hpre] at this; exact this
  by_cases hc : CutOk term cs.flatten b
  · have hab := feed_append_more term act hpre hc
    have hmono := headSize_mono term act s (cs.flatten ++ b) post.flatten
    have hd : (cs ++ b :: post).flatten = cs.flatten ++ b ++ post.flatten := by simp
    rw [hd] at hfit
    have hle : headSize term act s' (r ++ b) ≤ headSize term act s (cs.flatten ++ b) := by
      simp only [headSize, hab]
      cases feed term act s' (r ++ b) with
      | more s₂ r₂ => simp only [List.length_append]; omega
      | stop t r₂ => simp only [List.length_append]; omega
    omega
  · have hr : r = [] := by
      by_contra hr
      exact hc (feed_more_cutOk term act hpre hr b)
    subst hr
    obtain ⟨hne, y, b', rfl, hl⟩ := not_cutOk term hc
    obtain ⟨s₀, l, ha⟩ := feed_more_inl term act hne hpre
    obtain ⟨t, ht⟩ := hempty _ _ _ ha
    rw [List.nil_append, headSize_stop term act hl ht]
    cases b' with
    | nil => simp [dropMate]; omega
    | cons z zs =>
      simp only [dropMate]
      split <;> simp only [List.length_cons] <;> omega

end Capacity

end LineStream
