import Mathlib.Logic.Function.Basic
import Shs.Lib.Run

/-!
# Lib.SpinLock

Threads that share memory under a spin lock: a word that `cas` sets from `off` to `on` and back.
Each step is one access of one thread, and the steps of the threads come in any order. Inside of the
lock a thread makes its accesses one by one; the threads outside may do other things meanwhile, with
memory of their own.

* `exclusive_exec`: at most one thread is in the lock, and the word says whether one is.
* `releases`: the thread that is in the lock leaves it by a number of its own steps.
* `refines`: where the accesses of a thread amount to an operation, and do not care for what others
  do meanwhile, every run looks as if each operation was done at once.
-/

namespace SpinLock

/-- Compare and swap: the new value of the word, and whether it was swapped. -/
def cas {L : Type} [DecidableEq L] (word old new : L) : L × Bool :=
  if word = old then (new, true) else (word, false)

/-- Where a thread stands. -/
inductive Loc (μ : Type) where
  /-- it does not use the lock -/
  | out
  /-- in the loop that takes the lock -/
  | waiting
  /-- in the lock, about to make the access `m` -/
  | inside (m : μ)
  /-- behind its last access, about to read the word -/
  | checking
  /-- in the loop that releases the lock -/
  | releasing
  deriving DecidableEq

def Loc.isOut {μ : Type} : Loc μ → Bool
  | .out => true
  | _ => false

theorem Loc.isOut_iff {μ : Type} {l : Loc μ} : l.isOut = true ↔ l = .out := by
  cases l <;> simp [Loc.isOut]

/-- In the lock. -/
def Loc.busy {μ : Type} : Loc μ → Bool
  | .inside _ | .checking | .releasing => true
  | _ => false

/-- Threads `ι` with shared memory `σ`, accesses `μ`, a lock word `L` and the other actions `α`. -/
structure System (ι σ μ α L : Type) where
  on : L
  off : L
  /-- the thread may call for the lock -/
  ready : ι → σ → Bool
  /-- the first access of a thread in the lock -/
  enter : ι → σ → μ
  /-- an access, and the next one if there is one -/
  access : ι → μ → σ → σ × Option μ
  act : α → σ → σ
  /-- the thread whose action it is, where it is a certain one -/
  actor : α → Option ι

structure State (ι σ μ L : Type) where
  word : L
  loc : ι → Loc μ
  shared : σ

inductive Act (ι α : Type) where
  | call (i : ι)
  /-- the next step of a thread that uses the lock -/
  | go (i : ι)
  | other (a : α)

section Exclusion

variable {ι σ μ α L : Type} {S : System ι σ μ α L} {s : State ι σ μ L}

/-- At most one thread is in the lock, and the word says whether one is. -/
structure Exclusive (S : System ι σ μ α L) (s : State ι σ μ L) : Prop where
  word : s.word = S.on ∨ s.word = S.off
  one : ∀ i j, (s.loc i).busy = true → (s.loc j).busy = true → i = j
  taken : s.word = S.on ↔ ∃ i, (s.loc i).busy = true

def start (S : System ι σ μ α L) (x : σ) : State ι σ μ L := ⟨S.off, fun _ => .out, x⟩

theorem exclusive_start (hne : S.on ≠ S.off) (x : σ) : Exclusive S (start S x) where
  word := Or.inr rfl
  one := fun _ _ h => by cases h
  taken := ⟨fun h => absurd h.symm hne, fun ⟨_, h⟩ => by cases h⟩

/-- A step that leaves the word, and every thread in the lock or out of it as it was. -/
theorem Exclusive.stay {s' : State ι σ μ L} (h : Exclusive S s) (hword : s'.word = s.word)
    (hbusy : ∀ j, (s'.loc j).busy = (s.loc j).busy) : Exclusive S s' where
  word := hword ▸ h.word
  one := fun i j hi hj => h.one i j (hbusy i ▸ hi) (hbusy j ▸ hj)
  taken := by
    rw [hword, h.taken]
    exact exists_congr fun j => by rw [hbusy]

variable {m : μ} {i j : ι}

theorem not_inside_of_off (he : Exclusive S s) (hne : S.on ≠ S.off) (hword : s.word = S.off) (i : ι)
    (m : μ) : s.loc i ≠ .inside m := by
  intro h
  exact hne ((he.taken.2 ⟨i, by rw [h]; rfl⟩).symm.trans hword)

theorem not_inside_of_ne (he : Exclusive S s) {j : ι} (h : s.loc i = .inside m) (hj : j ≠ i) (m' : μ) :
    s.loc j ≠ .inside m' := by
  intro h'
  exact hj (he.one j i (by rw [h']; rfl) (by rw [h]; rfl))

/-- The accesses of a thread amount to its operation `op`: `Rel i m x x₀` says that the memory `x` is
what the accesses of thread `i` up to `m` have made of `x₀`, and of what others did meanwhile. -/
structure Lawful (S : System ι σ μ α L) (op : ι → σ → σ) (I : σ → Prop)
    (Rel : ι → μ → σ → σ → Prop) : Prop where
  enter : ∀ i x, I x → Rel i (S.enter i x) x x
  next : ∀ i m m' x x' x₀, I x₀ → Rel i m x x₀ → S.access i m x = (x', some m') → Rel i m' x' x₀
  last : ∀ i m x x' x₀, I x₀ → Rel i m x x₀ → S.access i m x = (x', none) → x' = op i x₀
  other : ∀ i m a x x₀, I x₀ → S.actor a ≠ some i → Rel i m x x₀ → Rel i m (S.act a x) (S.act a x₀)
  op_inv : ∀ i x, I x → I (op i x)
  act_inv : ∀ a x, I x → I (S.act a x)

/-- `x₀` is the memory without the accesses of the thread that is inside of the lock. -/
structure Abstracts (I : σ → Prop) (Rel : ι → μ → σ → σ → Prop) (s : State ι σ μ L) (x₀ : σ) :
    Prop where
  inv : I x₀
  inside : ∀ i m, s.loc i = .inside m → Rel i m s.shared x₀
  quiet : (∀ i m, s.loc i ≠ .inside m) → s.shared = x₀

section Outside

variable {op : ι → σ → σ} {I : σ → Prop} {Rel : ι → μ → σ → σ → Prop} {x₀ : σ}

theorem Abstracts.act (hl : Lawful S op I Rel) (h : Abstracts I Rel s x₀) {a : α}
    (hout : ∀ i, S.actor a = some i → s.loc i = .out) :
    Abstracts I Rel { s with shared := S.act a s.shared } (S.act a x₀) where
  inv := hl.act_inv a x₀ h.inv
  inside := by
    intro i m hi
    refine hl.other i m a _ x₀ h.inv (fun hactor => ?_) (h.inside i m hi)
    rw [hout i hactor] at hi
    cases hi
  quiet := by
    intro hnone
    rw [h.quiet hnone]

/-- A state in which the word is off has no access of an operation that is not complete. -/
theorem Abstracts.at_rest (h : Abstracts I Rel s x₀) (he : Exclusive S s) (hne : S.on ≠ S.off)
    (hword : s.word = S.off) : s.shared = x₀ := h.quiet (not_inside_of_off he hne hword)

end Outside

variable [DecidableEq ι] {l : Loc μ}

def State.move (i : ι) (l : Loc μ) (s : State ι σ μ L) : State ι σ μ L :=
  { s with loc := Function.update s.loc i l }

@[simp] theorem move_self : (s.move i l).loc i = l := Function.update_self ..

theorem move_ne (h : j ≠ i) : (s.move i l).loc j = s.loc j := Function.update_of_ne h ..

theorem busy_move (hl : l.busy = (s.loc i).busy) (j : ι) :
    ((s.move i l).loc j).busy = (s.loc j).busy := by
  by_cases hj : j = i
  · subst hj
    rw [move_self, hl]
  · rw [move_ne hj]

/-- The lock is taken by a thread when the word is free. -/
theorem Exclusive.take (h : Exclusive S s) (hne : S.on ≠ S.off) (hword : s.word = S.off)
    (hl : l.busy = true) : Exclusive S ({ s with word := S.on }.move i l) where
  word := Or.inl rfl
  one := by
    have hnone : ∀ j, (s.loc j).busy ≠ true := fun j hj =>
      hne ((h.taken.2 ⟨j, hj⟩).symm.trans hword)
    have hself : ∀ j, (({ s with word := S.on }.move i l).loc j).busy = true → j = i := by
      intro j hj
      by_contra hji
      rw [move_ne hji] at hj
      exact hnone j hj
    intro j k hj hk
    rw [hself j hj, hself k hk]
  taken := ⟨fun _ => ⟨i, by rw [move_self, hl]⟩, fun _ => rfl⟩

theorem Exclusive.release (h : Exclusive S s) (hne : S.on ≠ S.off) (hi : (s.loc i).busy = true) :
    Exclusive S ({ s with word := S.off }.move i .out) where
  word := Or.inr rfl
  one := by
    intro j k hj
    have hji : j ≠ i := by
      rintro rfl
      rw [move_self] at hj
      cases hj
    rw [move_ne hji] at hj
    exact absurd (h.one j i hj hi) hji
  taken := by
    refine ⟨fun hoff => absurd hoff.symm hne, fun ⟨j, hj⟩ => ?_⟩
    have hji : j ≠ i := by
      rintro rfl
      rw [move_self] at hj
      cases hj
    rw [move_ne hji] at hj
    exact absurd (h.one j i hj hi) hji

/-- A thread moves, and is inside of the lock neither before nor behind. -/
theorem Abstracts.pass {I : σ → Prop} {Rel : ι → μ → σ → σ → Prop} {x₀ : σ} {w : L}
    (h : Abstracts I Rel s x₀)
    (hbefore : ∀ m, s.loc i ≠ .inside m) (hbehind : ∀ m, l ≠ .inside m) :
    Abstracts I Rel ({ s with word := w }.move i l) x₀ where
  inv := h.inv
  inside := by
    intro j m hj
    by_cases hji : j = i
    · subst hji
      rw [move_self] at hj
      exact absurd hj (hbehind m)
    · rw [move_ne hji] at hj
      exact h.inside j m hj
  quiet := by
    intro hnone
    refine h.quiet fun j m hj => ?_
    by_cases hji : j = i
    · subst hji
      exact hbefore m hj
    · exact hnone j m ((move_ne hji).trans hj)

end Exclusion

section Machine

variable {ι σ μ α L : Type} [DecidableEq ι] [DecidableEq L]

def go (S : System ι σ μ α L) (i : ι) (s : State ι σ μ L) : State ι σ μ L :=
  match s.loc i with
  | .out => s
  | .waiting =>
    match cas s.word S.off S.on with
    | (w, true) => { s with word := w }.move i (.inside (S.enter i s.shared))
    | (_, false) => s
  | .inside m =>
    match S.access i m s.shared with
    | (x, some m) => { s with shared := x }.move i (.inside m)
    | (x, none) => { s with shared := x }.move i .checking
  | .checking => if s.word = S.off then s.move i .out else s.move i .releasing
  | .releasing =>
    match cas s.word S.on S.off with
    | (w, true) => { s with word := w }.move i .out
    | (_, false) => s

def step (S : System ι σ μ α L) (s : State ι σ μ L) : Act ι α → State ι σ μ L
  | .call i => if (s.loc i).isOut && S.ready i s.shared then s.move i .waiting else s
  | .go i => go S i s
  | .other a =>
    match S.actor a with
    | none => { s with shared := S.act a s.shared }
    | some i => if (s.loc i).isOut then { s with shared := S.act a s.shared } else s

variable {S : System ι σ μ α L} {s : State ι σ μ L} {i : ι} {m : μ}

theorem go_waiting (h : s.loc i = .waiting) (hword : s.word = S.off) :
    go S i s = { s with word := S.on }.move i (.inside (S.enter i s.shared)) := by
  simp only [go, h, cas, if_pos hword]

theorem go_spin (h : s.loc i = .waiting) (hword : s.word ≠ S.off) : go S i s = s := by
  simp only [go, h, cas, if_neg hword]

theorem go_next {x : σ} {m' : μ} (h : s.loc i = .inside m)
    (hacc : S.access i m s.shared = (x, some m')) :
    go S i s = { s with shared := x }.move i (.inside m') := by
  simp only [go, h, hacc]

theorem go_last {x : σ} (h : s.loc i = .inside m) (hacc : S.access i m s.shared = (x, none)) :
    go S i s = { s with shared := x }.move i .checking := by
  simp only [go, h, hacc]

/-- The thread that is in the lock finds the word taken. -/
theorem go_checking (he : Exclusive S s) (hne : S.on ≠ S.off) (h : s.loc i = .checking) :
    go S i s = s.move i .releasing := by
  have hon : s.word = S.on := he.taken.2 ⟨i, by rw [h]; rfl⟩
  have hoff : s.word ≠ S.off := fun hoff => hne (hon.symm.trans hoff)
  simp only [go, h, if_neg hoff]

/-- Its first attempt to release the lock succeeds. -/
theorem go_releasing (he : Exclusive S s) (h : s.loc i = .releasing) :
    go S i s = { s with word := S.off }.move i .out := by
  have hon : s.word = S.on := he.taken.2 ⟨i, by rw [h]; rfl⟩
  simp only [go, h, cas, if_pos hon]

/-! ## Exclusion -/

theorem Exclusive.go (he : Exclusive S s) (hne : S.on ≠ S.off) (i : ι) :
    Exclusive S (go S i s) := by
  cases h : s.loc i with
  | out => simpa only [SpinLock.go, h] using he
  | waiting =>
    by_cases hword : s.word = S.off
    · rw [go_waiting h hword]
      exact he.take hne hword rfl
    · rw [go_spin h hword]
      exact he
  | inside m =>
    have hmove : ∀ (x : σ) (l : Loc μ), l.busy = true → Exclusive S ({ s with shared := x }.move i l) :=
      fun x l hl => he.stay rfl (busy_move (by rw [hl, h]; rfl))
    cases hacc : S.access i m s.shared with
    | mk x next =>
      cases next with
      | none => exact go_last h hacc ▸ hmove x _ rfl
      | some m' => exact go_next h hacc ▸ hmove x _ rfl
  | checking =>
    rw [go_checking he hne h]
    exact he.stay rfl (busy_move (by rw [h]; rfl))
  | releasing =>
    rw [go_releasing he h]
    exact he.release hne (by rw [h]; rfl)

theorem Exclusive.step (h : Exclusive S s) (hne : S.on ≠ S.off) (a : Act ι α) :
    Exclusive S (step S s a) := by
  cases a with
  | call i =>
    unfold SpinLock.step
    simp only
    split
    case isTrue hout =>
      rw [Bool.and_eq_true] at hout
      refine h.stay rfl (busy_move ?_)
      rw [Loc.isOut_iff.1 hout.1]
      rfl
    case isFalse => exact h
  | go i => exact h.go hne i
  | other a =>
    unfold SpinLock.step
    simp only
    split
    · exact h.stay rfl fun _ => rfl
    · split
      · exact h.stay rfl fun _ => rfl
      · exact h

/-- **At most one thread is in the lock, in whatever order the steps come.** -/
theorem exclusive_exec (hne : S.on ≠ S.off) (x : σ) (as : List (Act ι α)) :
    Exclusive S (Run.exec (step S) (start S x) as) := by
  induction as using List.reverseRecOn with
  | nil => exact exclusive_start hne x
  | append_singleton as a ih =>
    rw [Run.exec_concat]
    exact ih.step hne a

/-! ## Release -/

theorem release_inside (hne : S.on ≠ S.off) {rank : μ → Nat}
    (hrank : ∀ i m x x' m', S.access i m x = (x', some m') → rank m' < rank m) (i : ι) :
    ∀ (m : μ) (s : State ι σ μ L), Exclusive S s → s.loc i = .inside m →
      ∃ n, (Run.exec (step S) s (List.replicate n (Act.go (α := α) i))).word = S.off := by
  intro m
  induction hm : rank m using Nat.strongRecOn generalizing m with
  | ind r ih =>
    intro s he h
    have hgo := he.go hne i
    cases hacc : S.access i m s.shared with
    | mk x next =>
      cases next with
      | none =>
        refine ⟨3, ?_⟩
        have hlast := go_last h hacc
        have hcheck := go_checking hgo hne (i := i) (by rw [hlast, move_self])
        have hgo' := hgo.go hne i
        have hrelease := go_releasing hgo' (i := i) (by rw [hcheck, move_self])
        show (SpinLock.go S i (SpinLock.go S i (SpinLock.go S i s))).word = S.off
        rw [hrelease]
        rfl
      | some m' =>
        have hnext := go_next h hacc
        obtain ⟨n, hn⟩ := ih (rank m') (hm ▸ hrank i m _ x m' hacc) m' rfl (SpinLock.go S i s) hgo
          (by rw [hnext, move_self])
        exact ⟨n + 1, hn⟩

/-- **The thread in the lock releases it by some number of steps of its own.** -/
theorem releases (hne : S.on ≠ S.off) {rank : μ → Nat}
    (hrank : ∀ i m x x' m', S.access i m x = (x', some m') → rank m' < rank m)
    (he : Exclusive S s) (hword : s.word = S.on) :
    ∃ i n, (Run.exec (step S) s (List.replicate n (Act.go (α := α) i))).word = S.off := by
  obtain ⟨i, hi⟩ := he.taken.1 hword
  refine ⟨i, ?_⟩
  cases h : s.loc i with
  | out => simp [h, Loc.busy] at hi
  | waiting => simp [h, Loc.busy] at hi
  | inside m => exact release_inside hne hrank i m s he h
  | checking =>
    refine ⟨2, ?_⟩
    have hcheck := go_checking he hne h
    have hrelease := go_releasing (he.go hne i) (i := i) (by rw [hcheck, move_self])
    show (SpinLock.go S i (SpinLock.go S i s)).word = S.off
    rw [hrelease]
    rfl
  | releasing =>
    refine ⟨1, ?_⟩
    show (SpinLock.go S i s).word = S.off
    rw [go_releasing he h]
    rfl

/-! ## Refinement -/

section Refinement

variable {op : ι → σ → σ} {I : σ → Prop} {Rel : ι → μ → σ → σ → Prop} {x₀ : σ}

theorem Abstracts.go (hl : Lawful S op I Rel) (hne : S.on ≠ S.off) (he : Exclusive S s)
    (h : Abstracts I Rel s x₀) (i : ι) :
    Abstracts I Rel (go S i s) x₀ ∨ Abstracts I Rel (SpinLock.go S i s) (op i x₀) := by
  cases hloc : s.loc i with
  | out => exact Or.inl (by simpa only [SpinLock.go, hloc] using h)
  | waiting =>
    left
    by_cases hword : s.word = S.off
    · have hquiet := h.quiet (not_inside_of_off he hne hword)
      rw [go_waiting hloc hword]
      refine ⟨h.inv, fun j m hj => ?_, fun hnone => absurd move_self (hnone i _)⟩
      by_cases hji : j = i
      · subst hji
        rw [move_self] at hj
        cases hj
        have henter := hl.enter j x₀ h.inv
        rw [← hquiet] at henter ⊢
        exact henter
      · rw [move_ne hji] at hj
        exact absurd hj (not_inside_of_off he hne hword j m)
    · rw [go_spin hloc hword]
      exact h
  | inside m =>
    cases hacc : S.access i m s.shared with
    | mk x next =>
      cases next with
      | none =>
        right
        rw [go_last hloc hacc]
        have hx := hl.last i m _ x x₀ h.inv (h.inside i m hloc) hacc
        refine ⟨hl.op_inv i x₀ h.inv, fun j m' hj => ?_, fun _ => hx⟩
        by_cases hji : j = i
        · subst hji
          rw [move_self] at hj
          cases hj
        · rw [move_ne hji] at hj
          exact absurd hj (not_inside_of_ne he hloc hji m')
      | some m' =>
        left
        rw [go_next hloc hacc]
        refine ⟨h.inv, fun j k hj => ?_, fun hnone => absurd move_self (hnone i m')⟩
        by_cases hji : j = i
        · subst hji
          rw [move_self] at hj
          cases hj
          exact hl.next j m m' _ x x₀ h.inv (h.inside j m hloc) hacc
        · rw [move_ne hji] at hj
          exact absurd hj (not_inside_of_ne he hloc hji k)
  | checking =>
    left
    rw [go_checking he hne hloc]
    exact h.pass (by simp [hloc]) (by simp)
  | releasing =>
    left
    rw [go_releasing he hloc]
    exact h.pass (by simp [hloc]) (by simp)

theorem Abstracts.step (hl : Lawful S op I Rel) (hne : S.on ≠ S.off) (he : Exclusive S s)
    (h : Abstracts I Rel s x₀) (a : Act ι α) : ∃ x₁, Abstracts I Rel (step S s a) x₁ := by
  cases a with
  | call i =>
    by_cases hcall : ((s.loc i).isOut && S.ready i s.shared) = true
    · have hout := Loc.isOut_iff.1 (Bool.and_eq_true _ _ ▸ hcall).1
      simp only [SpinLock.step, if_pos hcall]
      exact ⟨x₀, h.pass (by simp [hout]) (by simp)⟩
    · simp only [SpinLock.step, if_neg hcall]
      exact ⟨x₀, h⟩
  | go i => exact (h.go hl hne he i).elim (fun h => ⟨_, h⟩) fun h => ⟨_, h⟩
  | other a =>
    cases hactor : S.actor a with
    | none =>
      simp only [SpinLock.step, hactor]
      exact ⟨_, h.act hl fun i hi => by rw [hactor] at hi; cases hi⟩
    | some i =>
      by_cases hout : (s.loc i).isOut = true
      · simp only [SpinLock.step, hactor, if_pos hout]
        refine ⟨_, h.act hl fun j hj => ?_⟩
        rw [hactor] at hj
        cases hj
        exact Loc.isOut_iff.1 hout
      · simp only [SpinLock.step, hactor, if_neg hout]
        exact ⟨x₀, h⟩

/-- **In every run the memory is, but for the accesses of the thread inside of the lock, as if each
operation had been done at once.** -/
theorem refines (hl : Lawful S op I Rel) (hne : S.on ≠ S.off) {x : σ} (hx : I x)
    (as : List (Act ι α)) : ∃ x₀, Abstracts I Rel (Run.exec (step S) (start S x) as) x₀ := by
  induction as using List.reverseRecOn with
  | nil => exact ⟨x, ⟨hx, fun _ _ h => (by cases h), fun _ => rfl⟩⟩
  | append_singleton as a ih =>
    obtain ⟨x₀, h⟩ := ih
    rw [Run.exec_concat]
    exact h.step hl hne (exclusive_exec hne x as) a

end Refinement

end Machine

end SpinLock
