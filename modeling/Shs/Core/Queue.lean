import Shs.Lib.Ring

/-!
# Core.Queue

The intrusive queues of `shs_queue.h`. Each macro is the sequence of reads and writes that it
expands to; it has no result where it follows a null pointer.
-/

namespace Shs
namespace Queue

variable {α : Type} [DecidableEq α] {m : Links α} {h x y : α} {l l₁ l₂ : List α}

def queueInit (q : α) (m : Links α) : Links α := (m.setPrev q (some q)).setNext q (some q)

def queueEmpty (m : Links α) (h : α) : Bool := m.prev h == some h

def queueHead (m : Links α) (h : α) : Option α := m.next h

def queueInsertHead (h x : α) (m : Links α) : Option (Links α) := do
  let m := m.setNext x (m.next h)
  let n ← m.next x
  let m := m.setPrev n (some x)
  let m := m.setPrev x (some h)
  pure (m.setNext h (some x))

def queueInsertTail (h x : α) (m : Links α) : Option (Links α) := do
  let m := m.setPrev x (m.prev h)
  let p ← m.prev x
  let m := m.setNext p (some x)
  let m := m.setNext x (some h)
  pure (m.setPrev h (some x))

def queueInsertBefore (listelm elm : α) (m : Links α) : Option (Links α) := do
  let m := m.setPrev elm (m.prev listelm)
  let m := m.setNext elm (some listelm)
  let p ← m.prev listelm
  let m := m.setNext p (some elm)
  pure (m.setPrev listelm (some elm))

def queueInsertAfter (listelm elm : α) (m : Links α) : Option (Links α) := do
  let m := m.setNext elm (m.next listelm)
  let m := m.setPrev elm (some listelm)
  let n ← m.next listelm
  let m := m.setPrev n (some elm)
  pure (m.setNext listelm (some elm))

def queueRemove (x : α) (m : Links α) : Option (Links α) := do
  let n ← m.next x
  let m := m.setPrev n (m.prev x)
  let p ← m.prev x
  let m := m.setNext p (m.next x)
  pure ((m.setNext x none).setPrev x none)

/-- The entry of `x` becomes that of `y`, as part of `*x = *y`. -/
def copyEntry (x y : α) (m : Links α) : Links α := (m.setNext x (m.next y)).setPrev x (m.prev y)

/-- A loop over the queue with head `h`, from `q` on: the first cell for which `p` holds, if there
is one before the head. -/
def queueFind (h : α) (p : α → Bool) (m : Links α) : Nat → Option α → Option (Option α)
  | 0, _ => none
  | _ + 1, none => none
  | fuel + 1, some q =>
    if q = h then some none
    else if p q = true then some (some q)
    else queueFind h p m fuel (m.next q)

/-! ## What they do between two neighbours -/

theorem queueInsertTail_eq {p : α} (hp : m.prev h = some p) (hxh : x ≠ h) :
    queueInsertTail h x m = some (m.between p x h) := by
  simp only [queueInsertTail, Links.setPrev, Links.setNext, hp, Function.update_self,
    Option.bind_eq_bind, Option.bind_some, Option.pure_def, Option.some.injEq]
  ext1 <;> funext c <;> simp only [Links.between, Function.update_apply]
  grind

theorem queueInsertHead_eq {n : α} (hn : m.next h = some n) (hxh : x ≠ h) :
    queueInsertHead h x m = some (m.between h x n) := by
  simp only [queueInsertHead, Links.setPrev, Links.setNext, hn, Function.update_self,
    Option.bind_eq_bind, Option.bind_some, Option.pure_def, Option.some.injEq]
  ext1 <;> funext c <;> simp only [Links.between, Function.update_apply]
  grind

theorem queueInsertBefore_eq {p : α} (hp : m.prev y = some p) (hxp : x ≠ p) (hxy : x ≠ y) :
    queueInsertBefore y x m = some (m.between p x y) := by
  simp only [queueInsertBefore, Links.setPrev, Links.setNext, hp,
    Function.update_of_ne (Ne.symm hxy), Option.bind_eq_bind, Option.bind_some, Option.pure_def,
    Option.some.injEq]
  ext1 <;> funext c <;> simp only [Links.between, Function.update_apply] <;> grind

theorem queueInsertAfter_eq {n : α} (hn : m.next y = some n) (hxn : x ≠ n) (hxy : x ≠ y) :
    queueInsertAfter y x m = some (m.between y x n) := by
  simp only [queueInsertAfter, Links.setPrev, Links.setNext, hn,
    Function.update_of_ne (Ne.symm hxy), Option.bind_eq_bind, Option.bind_some, Option.pure_def,
    Option.some.injEq]
  ext1 <;> funext c <;> simp only [Links.between, Function.update_apply] <;> grind

theorem queueRemove_eq {p n : α} (hp : m.prev x = some p) (hn : m.next x = some n)
    (hxn : x ≠ n) : queueRemove x m = some (m.without p x n) := by
  simp only [queueRemove, Links.setPrev, Links.setNext, hn, hp, Function.update_of_ne hxn,
    Option.bind_eq_bind, Option.bind_some, Option.pure_def, Option.some.injEq]
  ext1 <;> funext c <;> simp only [Links.without, Function.update_apply]

/-- A copy `x` of the entry of `y` is linked behind `y` and taken out again. -/
theorem queueInsertBefore_copyEntry {p n : α} (hp : m.prev y = some p) (hn : m.next y = some n)
    (hpy : m.next p = some y) (hny : m.prev n = some y) (hxy : x ≠ y) (hxp : x ≠ p) (hxn : x ≠ n)
    (hyp : y ≠ p) :
    (queueInsertBefore x y (copyEntry x y m)).bind (queueRemove x)
      = some ((m.setNext x none).setPrev x none) := by
  have hcopy : (copyEntry x y m).prev x = some p := by
    rw [copyEntry, Links.setPrev_prev, if_pos rfl, hp]
  rw [queueInsertBefore_eq hcopy hyp (Ne.symm hxy), Option.bind_some, queueRemove_eq (p := y) (n := n)]
  · rw [Option.some.injEq]
    ext1
    all_goals
      funext c
      simp only [Links.without, Links.between, copyEntry, Links.setNext, Links.setPrev,
        Function.update_apply]
      grind
  · simp [Links.between, hxy]
  · simp [Links.between, copyEntry, Links.setNext, Links.setPrev, hxy, hxp, hn]
  · exact hxn

/-! ## What they do to a ring -/

theorem ring_queueInit (h : α) (m : Links α) : LinkedRing (queueInit h m) h [] :=
  LinkedRing.self (by simp [queueInit, Links.setNext]) (by simp [queueInit, Links.setPrev])

theorem queueEmpty_iff (r : LinkedRing m h l) : queueEmpty m h = true ↔ l = [] := by
  rw [← r.prev_head_eq_iff]
  exact beq_iff_eq

theorem queueInsertTail_ring (r : LinkedRing m h l) (hx : x ∉ h :: l) :
    queueInsertTail h x m = some (m.between (LinkedRing.before h l) x h) ∧
      LinkedRing (m.between (LinkedRing.before h l) x h) h (l ++ [x]) := by
  have hr : LinkedRing m h (l ++ []) := by rwa [List.append_nil]
  have hx' : x ∉ h :: (l ++ []) := by rwa [List.append_nil]
  have hne := LinkedRing.outside_ne hx'
  exact ⟨queueInsertTail_eq hr.joined_between.2 hne.2.symm, hr.between hx'⟩

theorem queueInsertHead_ring (r : LinkedRing m h l) (hx : x ∉ h :: l) :
    queueInsertHead h x m = some (m.between h x (LinkedRing.after h l)) ∧
      LinkedRing (m.between h x (LinkedRing.after h l)) h (x :: l) := by
  have hr : LinkedRing m h ([] ++ l) := r
  have hx' : x ∉ h :: ([] ++ l) := hx
  have hne := LinkedRing.outside_ne hx'
  exact ⟨queueInsertHead_eq hr.joined_between.1 hne.1.symm, hr.between hx'⟩

theorem queueInsertBefore_ring (r : LinkedRing m h (l₁ ++ y :: l₂))
    (hx : x ∉ h :: (l₁ ++ y :: l₂)) :
    queueInsertBefore y x m = some (m.between (LinkedRing.before h l₁) x y) ∧
      LinkedRing (m.between (LinkedRing.before h l₁) x y) h (l₁ ++ x :: y :: l₂) := by
  have hne := LinkedRing.outside_ne hx
  exact ⟨queueInsertBefore_eq r.joined_before.2 hne.1.symm hne.2.symm, r.between hx⟩

theorem queueRemove_ring (r : LinkedRing m h (l₁ ++ x :: l₂)) :
    queueRemove x m = some (m.without (LinkedRing.before h l₁) x (LinkedRing.after h l₂)) ∧
      LinkedRing (m.without (LinkedRing.before h l₁) x (LinkedRing.after h l₂)) h (l₁ ++ l₂) := by
  have hne := r.neighbours_ne
  exact ⟨queueRemove_eq r.joined_before.2 r.joined_after.1 hne.2.symm, r.without⟩

omit [DecidableEq α] in
theorem queueHead_ring (r : LinkedRing m h l) : queueHead m h = some (LinkedRing.after h l) := by
  have hr : LinkedRing m h ([] ++ l) := r
  exact hr.joined_between.1

/-- The loop over the cells `l₂` that are left. -/
theorem queueFind_ring {p : α → Bool} {fuel : Nat} (r : LinkedRing m h (l₁ ++ l₂))
    (hfuel : l₂.length < fuel) :
    queueFind h p m fuel (some (LinkedRing.after h l₂)) = some (l₂.find? p) := by
  induction l₂ generalizing l₁ fuel with
  | nil =>
    obtain ⟨fuel, rfl⟩ := Nat.exists_eq_succ_of_ne_zero (Nat.ne_of_gt hfuel)
    rw [LinkedRing.after_nil, queueFind, if_pos rfl, List.find?_nil]
  | cons x l₂ ih =>
    obtain ⟨fuel, rfl⟩ := Nat.exists_eq_succ_of_ne_zero (Nat.ne_of_gt (Nat.zero_lt_of_lt hfuel))
    have hx : x ≠ h := by
      rintro rfl
      exact r.notMem (by simp)
    rw [LinkedRing.after_cons, queueFind, if_neg hx, List.find?_cons]
    cases p x with
    | true => rfl
    | false =>
      have hr : LinkedRing m h ((l₁ ++ [x]) ++ l₂) := by
        rw [List.append_assoc]
        exact r
      rw [if_neg (by simp), r.joined_after.1]
      exact ih hr (by simpa using hfuel)

theorem queueInsertAfter_ring (r : LinkedRing m h (l₁ ++ y :: l₂))
    (hx : x ∉ h :: (l₁ ++ y :: l₂)) :
    queueInsertAfter y x m = some (m.between y x (LinkedRing.after h l₂)) ∧
      LinkedRing (m.between y x (LinkedRing.after h l₂)) h (l₁ ++ y :: x :: l₂) := by
  have hnext := r.joined_after.1
  rw [List.append_cons] at r hx
  have hne := LinkedRing.outside_ne hx
  rw [LinkedRing.before_concat] at hne
  have hring := r.between hx
  rw [LinkedRing.before_concat, ← List.append_cons] at hring
  exact ⟨queueInsertAfter_eq hnext hne.2.symm hne.1.symm, hring⟩

/-- How `shs_shmem_alloc` links a new block behind the one that it was cut from. -/
theorem copyEntry_ring (r : LinkedRing m h (l₁ ++ y :: l₂)) (hx : x ∉ h :: (l₁ ++ y :: l₂)) :
    ∃ m', ((queueInsertBefore x y (copyEntry x y m)).bind (queueRemove x)).bind
        (queueInsertAfter y x) = some m' ∧ LinkedRing m' h (l₁ ++ y :: x :: l₂) := by
  have hne := r.neighbours_ne
  have hxy : x ≠ y := by
    rintro rfl
    simp at hx
  have hxp : x ≠ LinkedRing.before h l₁ := by
    rintro rfl
    exact hx (LinkedRing.before_mem_cons _)
  have hxn : x ≠ LinkedRing.after h l₂ := by
    rintro rfl
    refine hx ?_
    rw [List.append_cons]
    exact LinkedRing.after_mem_cons _
  have hclear : LinkedRing ((m.setNext x none).setPrev x none) h (l₁ ++ y :: l₂) := by
    refine r.congr fun c hc => ?_
    have hcx : c ≠ x := by
      rintro rfl
      exact hx hc
    simp [Links.setNext, Links.setPrev, hcx]
  rw [queueInsertBefore_copyEntry r.joined_before.2 r.joined_after.1 r.joined_before.1
    r.joined_after.2 hxy hxp hxn hne.1.symm, Option.bind_some]
  exact ⟨_, queueInsertAfter_ring hclear hx⟩

end Queue
end Shs
