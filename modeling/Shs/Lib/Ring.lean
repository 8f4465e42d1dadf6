import Mathlib.Data.List.Chain
import Mathlib.Data.List.Nodup
import Mathlib.Logic.Function.Basic

/-!
# Lib.Ring

Circular doubly linked lists whose links are fields of the cells. A memory has the two fields of
every cell, `none` is null. `LinkedRing m h l` says that the cells `l` follow the head `h` in both
directions, each once. `LinkedRing.splice` and `LinkedRing.unsplice` are the two local edits: a
cell comes between two neighbours or leaves them.
-/

@[ext]
structure Links (α : Type) where
  next : α → Option α
  prev : α → Option α

namespace Links

variable {α : Type} [DecidableEq α] (m : Links α)

def setNext (a : α) (p : Option α) : Links α := { m with next := Function.update m.next a p }

def setPrev (a : α) (p : Option α) : Links α := { m with prev := Function.update m.prev a p }

@[simp] theorem setNext_prev (a : α) (p : Option α) : (m.setNext a p).prev = m.prev := rfl

@[simp] theorem setPrev_next (a : α) (p : Option α) : (m.setPrev a p).next = m.next := rfl

theorem setPrev_prev (a b : α) (p : Option α) :
    (m.setPrev a p).prev b = if b = a then p else m.prev b := Function.update_apply ..

/-- `x` comes between `a` and `b`. -/
def between (a x b : α) : Links α where
  next c := if c = x then some b else if c = a then some x else m.next c
  prev c := if c = x then some a else if c = b then some x else m.prev c

/-- `x` leaves its place between `a` and `b`, and its links are null. -/
def without (a x b : α) : Links α where
  next c := if c = x then none else if c = a then some b else m.next c
  prev c := if c = x then none else if c = b then some a else m.prev c

end Links

section LinkedTo

variable {α : Type} {m m' : Links α} {a b x : α} {p q : List α}

/-- `b` is behind `a`, and both cells say so. -/
def LinkedTo (m : Links α) (a b : α) : Prop := m.next a = some b ∧ m.prev b = some a

instance [DecidableEq α] (m : Links α) : DecidableRel (LinkedTo m) :=
  fun _ _ => inferInstanceAs (Decidable (_ ∧ _))

/-- Of a joined list only the `next` of all cells but the last and the `prev` of all but the
first are read. -/
theorem joined_congr {l : List α} (h : l.IsChain (LinkedTo m))
    (hnext : ∀ c ∈ l.dropLast, m'.next c = m.next c)
    (hprev : ∀ c ∈ l.tail, m'.prev c = m.prev c) : l.IsChain (LinkedTo m') := by
  induction h with
  | nil => exact .nil
  | singleton a => exact .singleton a
  | @cons_cons a b l hab _ ih =>
    have hjoin : LinkedTo m' a b := by
      refine ⟨?_, ?_⟩
      · rw [hnext a (by simp)]
        exact hab.1
      · rw [hprev b (by simp)]
        exact hab.2
    refine .cons_cons hjoin (ih (fun c hc => hnext c ?_) fun c hc => hprev c ?_)
    · simp [hc]
    · exact List.mem_of_mem_tail hc

end LinkedTo

/-- The ring with head `h` and cells `l`. -/
structure LinkedRing {α : Type} (m : Links α) (h : α) (l : List α) : Prop where
  joined : (h :: l ++ [h]).IsChain (LinkedTo m)
  nodup : (h :: l).Nodup

namespace LinkedRing

variable {α : Type} {m m' : Links α} {h a b x : α} {l l₁ l₂ : List α}

theorem notMem (r : LinkedRing m h l) : h ∉ l := (List.nodup_cons.1 r.nodup).1

theorem nodup_tail (r : LinkedRing m h l) : l.Nodup := (List.nodup_cons.1 r.nodup).2

theorem congr (r : LinkedRing m h l)
    (heq : ∀ c ∈ h :: l, m'.next c = m.next c ∧ m'.prev c = m.prev c) :
    LinkedRing m' h l := by
  refine ⟨joined_congr r.joined (fun c hc => (heq c ?_).1) fun c hc => (heq c ?_).2, r.nodup⟩
  · rwa [List.dropLast_concat] at hc
  · rw [List.cons_append, List.tail_cons, List.mem_append, List.mem_singleton] at hc
    rw [List.mem_cons]
    exact hc.symm

theorem self (hn : m.next h = some h) (hp : m.prev h = some h) : LinkedRing m h [] :=
  ⟨.cons_cons ⟨hn, hp⟩ (.singleton h), List.nodup_singleton h⟩

theorem next_head (r : LinkedRing m h (x :: l)) : m.next h = some x := by
  have hj := r.joined
  rw [List.cons_append, List.cons_append, List.isChain_cons_cons] at hj
  exact hj.1.1

/-- The head points back to itself exactly if the ring has no cells. -/
theorem prev_head_eq_iff (r : LinkedRing m h l) : m.prev h = some h ↔ l = [] := by
  have hj := r.joined
  rcases List.eq_nil_or_concat' l with rfl | ⟨l', a, rfl⟩
  · simp only [List.cons_append, List.nil_append, List.isChain_cons_cons] at hj
    simpa using hj.1.2
  · have hne : a ≠ h := by
      rintro rfl
      exact r.notMem (by simp)
    rw [show h :: (l' ++ [a]) ++ [h] = (h :: l') ++ a :: h :: [] by simp,
      List.isChain_append_cons_cons] at hj
    simp [hj.2.1.2, hne]

/-- The cell before a place in the ring and the cell behind it. -/
def before (h : α) (l : List α) : α := (h :: l).getLast (List.cons_ne_nil h l)

def after (h : α) (l : List α) : α := (l ++ [h]).head (by simp)

@[simp] theorem before_nil : before h [] = h := rfl

@[simp] theorem before_concat : before h (l ++ [a]) = a := by simp [before]

@[simp] theorem after_nil : after h [] = h := rfl

@[simp] theorem after_cons : after h (a :: l) = a := rfl

theorem before_mem : before h l ∈ h :: l := List.getLast_mem _

theorem after_mem : after h l ∈ l ++ [h] := List.head_mem _

theorem before_mem_cons (l₂ : List α) : before h l₁ ∈ h :: (l₁ ++ l₂) := by
  rw [← List.cons_append]
  exact List.mem_append_left _ before_mem

theorem after_mem_cons (l₁ : List α) : after h l₂ ∈ h :: (l₁ ++ l₂) := by
  rcases List.mem_append.1 (after_mem (h := h) (l := l₂)) with hm | hm
  · exact List.mem_cons_of_mem h (List.mem_append_right l₁ hm)
  · rw [List.mem_singleton.1 hm]
    exact List.mem_cons_self

theorem cons_eq_before (h : α) (l : List α) : h :: l = (h :: l).dropLast ++ [before h l] :=
  (List.dropLast_append_getLast (List.cons_ne_nil h l)).symm

theorem append_eq_after (h : α) (l : List α) : l ++ [h] = after h l :: (l ++ [h]).tail :=
  (List.cons_head_tail (by simp)).symm

theorem joined_between (r : LinkedRing m h (l₁ ++ l₂)) : LinkedTo m (before h l₁) (after h l₂) := by
  have hj := r.joined
  rw [← List.cons_append, List.append_assoc, cons_eq_before h l₁, append_eq_after h l₂,
    List.append_assoc, List.singleton_append, List.isChain_append_cons_cons] at hj
  exact hj.2.1

theorem joined_before (r : LinkedRing m h (l₁ ++ x :: l₂)) : LinkedTo m (before h l₁) x :=
  r.joined_between

theorem joined_after (r : LinkedRing m h (l₁ ++ x :: l₂)) : LinkedTo m x (after h l₂) := by
  rw [show l₁ ++ x :: l₂ = (l₁ ++ [x]) ++ l₂ by simp] at r
  simpa using r.joined_between

theorem before_notMem (hnd : (h :: (l₁ ++ l₂)).Nodup) : before h l₁ ∉ l₂ := by
  rw [← List.cons_append, List.nodup_append'] at hnd
  exact hnd.2.2 before_mem

theorem after_notMem (hnd : (h :: (l₁ ++ l₂)).Nodup) : after h l₂ ∉ l₁ := by
  intro hm
  rcases List.mem_append.1 (after_mem (h := h) (l := l₂)) with h2 | h2
  · rw [List.nodup_cons, List.nodup_append'] at hnd
    exact hnd.2.2.2 hm h2
  · rw [List.mem_singleton.1 h2] at hm
    exact (List.nodup_cons.1 hnd).1 (by simp [hm])

theorem outside_ne (hx : x ∉ h :: (l₁ ++ l₂)) : before h l₁ ≠ x ∧ after h l₂ ≠ x := by
  simp only [List.mem_cons, List.mem_append, not_or] at hx
  obtain ⟨hxh, hx₁, hx₂⟩ := hx
  refine ⟨?_, ?_⟩
  · rintro rfl
    rcases List.mem_cons.1 (before_mem (h := h) (l := l₁)) with hm | hm
    · exact hxh hm
    · exact hx₁ hm
  · rintro rfl
    rcases List.mem_append.1 (after_mem (h := h) (l := l₂)) with hm | hm
    · exact hx₂ hm
    · exact hxh (List.mem_singleton.1 hm)

theorem neighbours_ne (r : LinkedRing m h (l₁ ++ x :: l₂)) : before h l₁ ≠ x ∧ after h l₂ ≠ x := by
  have hnd := r.nodup
  rw [← List.cons_append, List.nodup_middle, List.nodup_cons] at hnd
  exact outside_ne hnd.1

/-- The parts of a ring before and behind a place where only the links between the two
neighbours of the place, and those of a cell outside, are written. -/
theorem parts (hnd : (h :: (l₁ ++ l₂)).Nodup) (hx : x ∉ h :: (l₁ ++ l₂))
    (h₁ : (h :: l₁).IsChain (LinkedTo m)) (h₂ : (l₂ ++ [h]).IsChain (LinkedTo m))
    (hnext : ∀ c, c ≠ before h l₁ → c ≠ x → m'.next c = m.next c)
    (hprev : ∀ c, c ≠ after h l₂ → c ≠ x → m'.prev c = m.prev c) :
    (h :: l₁).IsChain (LinkedTo m') ∧ (l₂ ++ [h]).IsChain (LinkedTo m') := by
  simp only [List.mem_cons, List.mem_append, not_or] at hx
  have hnd₁ : (h :: l₁).Nodup := by
    rw [← List.cons_append, List.nodup_append'] at hnd
    exact hnd.1
  have hnd₂ : (l₂ ++ [h]).Nodup := by
    rw [List.nodup_cons, List.nodup_append', List.mem_append, not_or] at hnd
    rw [List.nodup_append']
    refine ⟨hnd.2.2.1, List.nodup_singleton h, ?_⟩
    intro c hc hch
    rw [List.mem_singleton.1 hch] at hc
    exact hnd.1.2 hc
  refine ⟨joined_congr h₁ ?_ ?_, joined_congr h₂ ?_ ?_⟩
  · intro c hc
    have hc1 : c ∈ h :: l₁ := List.dropLast_subset _ hc
    refine hnext c ?_ ?_
    · rintro rfl
      rw [cons_eq_before h l₁, List.nodup_append'] at hnd₁
      exact hnd₁.2.2 hc (by simp)
    · rintro rfl
      simp_all
  · intro c hc
    refine hprev c ?_ ?_
    · rintro rfl
      exact after_notMem hnd hc
    · rintro rfl
      exact hx.2.1 hc
  · intro c hc
    rw [List.dropLast_concat] at hc
    refine hnext c ?_ ?_
    · rintro rfl
      exact before_notMem hnd hc
    · rintro rfl
      exact hx.2.2 hc
  · intro c hc
    refine hprev c ?_ ?_
    · rintro rfl
      rw [append_eq_after h l₂, List.nodup_cons] at hnd₂
      exact hnd₂.1 hc
    · rintro rfl
      have hcl := List.mem_of_mem_tail hc
      simp only [List.mem_append, List.mem_singleton] at hcl
      tauto

theorem cut (r : LinkedRing m h (l₁ ++ l₂)) :
    (h :: l₁).IsChain (LinkedTo m) ∧ (l₂ ++ [h]).IsChain (LinkedTo m) := by
  have hj := r.joined
  rw [← List.cons_append, List.append_assoc] at hj
  exact ⟨hj.left_of_append, hj.right_of_append⟩

/-- A cell outside the ring is joined to two neighbours. -/
theorem splice (r : LinkedRing m h (l₁ ++ l₂)) (hx : x ∉ h :: (l₁ ++ l₂))
    (h₁ : LinkedTo m' (before h l₁) x) (h₂ : LinkedTo m' x (after h l₂))
    (hnext : ∀ c, c ≠ before h l₁ → c ≠ x → m'.next c = m.next c)
    (hprev : ∀ c, c ≠ after h l₂ → c ≠ x → m'.prev c = m.prev c) :
    LinkedRing m' h (l₁ ++ x :: l₂) := by
  obtain ⟨hl, hr⟩ := parts r.nodup hx r.cut.1 r.cut.2 hnext hprev
  refine ⟨?_, ?_⟩
  · rw [show h :: (l₁ ++ x :: l₂) ++ [h] = (h :: l₁) ++ x :: (l₂ ++ [h]) by simp,
      cons_eq_before h l₁, append_eq_after h l₂, List.append_assoc, List.singleton_append,
      List.isChain_append_cons_cons, List.isChain_cons_cons, ← cons_eq_before h l₁,
      ← append_eq_after h l₂]
    exact ⟨hl, h₁, h₂, hr⟩
  · rw [← List.cons_append, List.nodup_middle]
    exact List.nodup_cons.2 ⟨hx, r.nodup⟩

/-- A cell leaves the ring, and its neighbours are joined. -/
theorem unsplice (r : LinkedRing m h (l₁ ++ x :: l₂)) (hj : LinkedTo m' (before h l₁) (after h l₂))
    (hnext : ∀ c, c ≠ before h l₁ → c ≠ x → m'.next c = m.next c)
    (hprev : ∀ c, c ≠ after h l₂ → c ≠ x → m'.prev c = m.prev c) :
    LinkedRing m' h (l₁ ++ l₂) := by
  have hnd := r.nodup
  rw [← List.cons_append, List.nodup_middle, List.nodup_cons] at hnd
  have hcut : (x :: (l₂ ++ [h])).IsChain (LinkedTo m) := r.cut.2
  obtain ⟨hl, hr⟩ := parts hnd.2 hnd.1 r.cut.1 hcut.tail hnext hprev
  refine ⟨?_, hnd.2⟩
  rw [← List.cons_append, List.append_assoc, cons_eq_before h l₁, append_eq_after h l₂,
    List.append_assoc, List.singleton_append, List.isChain_append_cons_cons,
    ← cons_eq_before h l₁, ← append_eq_after h l₂]
  exact ⟨hl, hj, hr⟩

theorem between [DecidableEq α] (r : LinkedRing m h (l₁ ++ l₂)) (hx : x ∉ h :: (l₁ ++ l₂)) :
    LinkedRing (m.between (before h l₁) x (after h l₂)) h (l₁ ++ x :: l₂) := by
  obtain ⟨ha, hb⟩ := outside_ne hx
  refine r.splice hx ?_ ?_ ?_ ?_
  · simp [LinkedTo, Links.between, ha]
  · simp [LinkedTo, Links.between, hb]
  · intro c hca hcx
    simp [Links.between, hca, hcx]
  · intro c hcb hcx
    simp [Links.between, hcb, hcx]

theorem without [DecidableEq α] (r : LinkedRing m h (l₁ ++ x :: l₂)) :
    LinkedRing (m.without (before h l₁) x (after h l₂)) h (l₁ ++ l₂) := by
  obtain ⟨ha, hb⟩ := r.neighbours_ne
  refine r.unsplice ?_ ?_ ?_
  · simp [LinkedTo, Links.without, ha, hb]
  · intro c hca hcx
    simp [Links.without, hca, hcx]
  · intro c hcb hcx
    simp [Links.without, hcb, hcx]

/-- Another ring of the same memory stays as it is. -/
theorem frame_between [DecidableEq α] (r : LinkedRing m h l) (ha : a ∉ h :: l) (hx : x ∉ h :: l)
    (hb : b ∉ h :: l) : LinkedRing (m.between a x b) h l := by
  refine r.congr fun c hc => ?_
  have hca : c ≠ a := fun h => ha (h ▸ hc)
  have hcx : c ≠ x := fun h => hx (h ▸ hc)
  have hcb : c ≠ b := fun h => hb (h ▸ hc)
  simp [Links.between, hca, hcx, hcb]

theorem frame_without [DecidableEq α] (r : LinkedRing m h l) (ha : a ∉ h :: l) (hx : x ∉ h :: l)
    (hb : b ∉ h :: l) : LinkedRing (m.without a x b) h l := by
  refine r.congr fun c hc => ?_
  have hca : c ≠ a := fun h => ha (h ▸ hc)
  have hcx : c ≠ x := fun h => hx (h ▸ hc)
  have hcb : c ≠ b := fun h => hb (h ▸ hc)
  simp [Links.without, hca, hcx, hcb]

end LinkedRing
