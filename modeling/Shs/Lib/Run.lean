import Mathlib.Data.List.Induction

/-!
# Lib.Run

Runs of a deterministic step function over a list of actions, with a condition that every action
of the run has to meet in the state it is taken from. `invariant` is the induction rule: what
holds at the start and is kept by every step that meets the condition holds in every state
reached. `check` runs the condition along a concrete run.

`Steps` counts the steps of a partial step function, one that may stop.
-/

namespace Run

variable {S A : Type} (step : S → A → S)

def exec (s : S) (as : List A) : S := as.foldl step s

/-- Every action of the run `as` from `s` meets `ok` in the state it is taken from. -/
def Meets (ok : S → A → Prop) (s : S) (as : List A) : Prop :=
  ∀ pre a post, as = pre ++ a :: post → ok (exec step s pre) a

@[simp] theorem exec_nil (s : S) : exec step s [] = s := rfl

theorem exec_concat (s : S) (as : List A) (a : A) :
    exec step s (as ++ [a]) = step (exec step s as) a := by
  simp [exec]

theorem exec_append (s : S) (as bs : List A) :
    exec step s (as ++ bs) = exec step (exec step s as) bs := by
  simp [exec]

theorem Meets.pre {ok : S → A → Prop} {s : S} {as bs : List A}
    (h : Meets step ok s (as ++ bs)) : Meets step ok s as := by
  intro p a q hp
  exact h p a (q ++ bs) (by simp [hp])

theorem Meets.last {ok : S → A → Prop} {s : S} {as : List A} {a : A}
    (h : Meets step ok s (as ++ [a])) : ok (exec step s as) a := h as a [] rfl

theorem Meets.imp {ok ok' : S → A → Prop} {s : S} {as : List A} (h : Meets step ok s as)
    (himp : ∀ s a, ok s a → ok' s a) : Meets step ok' s as :=
  fun pre a post hp => himp _ _ (h pre a post hp)

theorem meets_nil (ok : S → A → Prop) (s : S) : Meets step ok s [] := by
  intro pre a post h
  cases pre <;> cases h

theorem Meets.concat {ok : S → A → Prop} {s : S} {as : List A} {a : A} (h : Meets step ok s as)
    (ha : ok (exec step s as) a) : Meets step ok s (as ++ [a]) := by
  intro p b q hp
  rcases List.eq_nil_or_concat q with rfl | ⟨q, c, rfl⟩
  · obtain ⟨rfl, hab⟩ := List.append_inj' hp rfl
    simp only [List.cons.injEq, and_true] at hab
    exact hab ▸ ha
  · have hcut : as ++ [a] = (p ++ b :: q) ++ [c] := by simpa using hp
    exact h p b q (List.append_inj' hcut rfl).1

theorem meets_cons {ok : S → A → Prop} {s : S} {a : A} {as : List A} (h : ok s a)
    (hs : Meets step ok (step s a) as) : Meets step ok s (a :: as) := by
  intro pre b post hp
  cases pre with
  | nil =>
    simp only [List.nil_append, List.cons.injEq] at hp
    rw [← hp.1]; exact h
  | cons c pre =>
    simp only [List.cons_append, List.cons.injEq] at hp
    rw [← hp.1]; exact hs pre b post hp.2

/-- `Meets` as a check that can be run. -/
def check (ok : S → A → Prop) [∀ s a, Decidable (ok s a)] : S → List A → Bool
  | _, [] => true
  | s, a :: as => decide (ok s a) && check ok (step s a) as

theorem meets_of_check {ok : S → A → Prop} [∀ s a, Decidable (ok s a)] {s : S} {as : List A}
    (h : check step ok s as = true) : Meets step ok s as := by
  induction as generalizing s with
  | nil => exact meets_nil step ok s
  | cons a as ih =>
    simp only [check, Bool.and_eq_true, decide_eq_true_eq] at h
    exact meets_cons step h.1 (ih h.2)

/-- The invariant rule for runs whose steps all meet a condition. -/
theorem invariant {ok : S → A → Prop} {I : S → Prop} {s : S} (h0 : I s)
    (hstep : ∀ s a, I s → ok s a → I (step s a)) {as : List A} (h : Meets step ok s as) :
    I (exec step s as) := by
  induction as using List.reverseRecOn with
  | nil => exact h0
  | append_singleton as a ih =>
    rw [exec_concat]
    exact hstep _ a (ih (h.pre step)) (h.last step)

/-- An element of a list that a step has added one to. -/
theorem getElem?_concat {α : Type} {l : List α} {a b : α} {i : Nat}
    (h : (l ++ [a])[i]? = some b) : l[i]? = some b ∨ (i = l.length ∧ b = a) := by
  rcases Nat.lt_or_ge i l.length with hlt | hge
  · rw [List.getElem?_append_left hlt] at h
    exact .inl h
  · rw [List.getElem?_append_right hge, List.getElem?_singleton] at h
    split at h
    · cases h
      exact .inr ⟨by omega, rfl⟩
    · cases h

/-- `k` steps of a function that may stop. -/
inductive Steps {S : Type} (next : S → Option S) : Nat → S → S → Prop
  | start (s : S) : Steps next 0 s s
  | step {k : Nat} {s t u : S} (h : next s = some t) (hs : Steps next k t u) :
      Steps next (k + 1) s u

section Steps

variable {S : Type} {next : S → Option S} {s t : S} {P : Nat → S → Prop}

theorem Steps.forall_of_none (h : next s = none) :
    (∀ k u, Steps next k s u → P k u) ↔ P 0 s := by
  refine ⟨fun hall => hall 0 s (.start s), fun hp k u hs => ?_⟩
  cases hs with
  | start => exact hp
  | step ht => exact absurd (h.symm.trans ht) (by simp)

/-- What holds of all states reached, by the first step. -/
theorem Steps.forall_of_some (h : next s = some t) :
    (∀ k u, Steps next k s u → P k u) ↔
      P 0 s ∧ ∀ k u, Steps next k t u → P (k + 1) u := by
  refine ⟨fun hall => ⟨hall 0 s (.start s), fun k u hs => hall (k + 1) u (.step h hs)⟩,
    fun hp k u hs => ?_⟩
  cases hs with
  | start => exact hp.1
  | step ht hs =>
    obtain rfl := Option.some.inj (h.symm.trans ht)
    exact hp.2 _ _ hs

end Steps

end Run
