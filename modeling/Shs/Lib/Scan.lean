import Mathlib.Data.List.Basic

/-!
# Lib.Scan

A loop over positions that looks for the first one with a property. At each position the loop may be
at its end, may give the search up, and else tests the position; what it reads is recorded. A loop
that answers right at every position in front of its end finds the first position (`Sound.run`).
-/

namespace Shs
namespace Scan

/-- The first position with `P`, or none. -/
def FirstAt (P : Nat → Prop) : Option Nat → Prop
  | some i => P i ∧ ∀ j < i, ¬ P j
  | none => ∀ i, ¬ P i

/-- What a loop does at a position: whether it is at its end, and else whether the position is a
match, or the search is given up. -/
structure Loop where
  stop : Nat → Bool × List Nat
  test : Nat → Option Bool × List Nat

/-- The loop from position `s` on, with what it reads. -/
def Loop.run (l : Loop) : Nat → Nat → Option (Option Nat × List Nat)
  | 0, _ => none
  | fuel + 1, s =>
    if (l.stop s).1 then some (none, (l.stop s).2)
    else
      match (l.test s).1 with
      | none => some (none, (l.stop s).2 ++ (l.test s).2)
      | some true => some (some s, (l.stop s).2 ++ (l.test s).2)
      | some false =>
        (l.run fuel (s + 1)).map fun r => (r.1, (l.stop s).2 ++ (l.test s).2 ++ r.2)

/-- The loop ends at `e`, answers right in front of it, and reads only addresses with `A`. -/
structure Sound (l : Loop) (P A : Nat → Prop) (e : Nat) : Prop where
  inside  : ∀ s < e, (l.stop s).1 = false
  ends    : (l.stop e).1 = true
  beyond  : ∀ j, e ≤ j → ¬ P j
  gives   : ∀ s < e, (l.test s).1 = none → ∀ j, s ≤ j → ¬ P j
  yes     : ∀ s < e, (l.test s).1 = some true → P s
  no      : ∀ s < e, (l.test s).1 = some false → ¬ P s
  stopped : ∀ s ≤ e, ∀ a ∈ (l.stop s).2, A a
  tested  : ∀ s < e, ∀ a ∈ (l.test s).2, A a

/-- A search with enough fuel finds the first position with `P`, and reads only addresses with `A`. -/
def Finds (search : Nat → Option (Option Nat × List Nat)) (P A : Nat → Prop) : Prop :=
  ∃ r reads, (∃ bound, ∀ fuel, bound < fuel → search fuel = some (r, reads)) ∧ FirstAt P r ∧
    ∀ a ∈ reads, A a

section Run

variable {l : Loop} {P P' A : Nat → Prop} {e : Nat} {r : Option Nat}

/-- From a position on in front of which there is no match. -/
theorem Sound.run_from (h : Sound l P A e) {d s : Nat} (hd : s + d = e) (hs : ∀ j < s, ¬ P j) :
    ∃ r reads, (∀ fuel, d < fuel → l.run fuel s = some (r, reads)) ∧ FirstAt P r ∧
      ∀ a ∈ reads, A a := by
  induction d generalizing s with
  | zero =>
    obtain rfl : s = e := hd
    refine ⟨none, (l.stop s).2, fun fuel hfuel => ?_, fun j hj => ?_, h.stopped s (Nat.le_refl s)⟩
    · obtain ⟨fuel, rfl⟩ := Nat.exists_eq_succ_of_ne_zero (Nat.ne_zero_of_lt hfuel)
      rw [Loop.run, if_pos h.ends]
    · rcases Nat.lt_or_ge j s with hlt | hge
      · exact hs j hlt hj
      · exact h.beyond j hge hj
  | succ d ih =>
    have hlt : s < e := by omega
    have hstopped := h.stopped s (by omega)
    have htested := h.tested s hlt
    have hboth : ∀ a ∈ (l.stop s).2 ++ (l.test s).2, A a := fun a ha =>
      (List.mem_append.1 ha).elim (hstopped a) (htested a)
    have hturn : ∀ fuel, l.run (fuel + 1) s = match (l.test s).1 with
        | none => some (none, (l.stop s).2 ++ (l.test s).2)
        | some true => some (some s, (l.stop s).2 ++ (l.test s).2)
        | some false =>
          (l.run fuel (s + 1)).map fun r => (r.1, (l.stop s).2 ++ (l.test s).2 ++ r.2) := by
      intro fuel
      rw [Loop.run, if_neg (by rw [h.inside s hlt]; decide)]
    cases ht : (l.test s).1 with
    | none =>
      refine ⟨none, _, fun fuel hfuel => ?_, fun j hj => ?_, hboth⟩
      · obtain ⟨fuel, rfl⟩ := Nat.exists_eq_succ_of_ne_zero (Nat.ne_zero_of_lt hfuel)
        rw [Nat.succ_eq_add_one, hturn, ht]
      · rcases Nat.lt_or_ge j s with hjs | hjs
        · exact hs j hjs hj
        · exact h.gives s hlt ht j hjs hj
    | some b =>
      cases b with
      | true =>
        refine ⟨some s, _, fun fuel hfuel => ?_, ⟨h.yes s hlt ht, hs⟩, hboth⟩
        obtain ⟨fuel, rfl⟩ := Nat.exists_eq_succ_of_ne_zero (Nat.ne_zero_of_lt hfuel)
        rw [Nat.succ_eq_add_one, hturn, ht]
      | false =>
        have hs' : ∀ j < s + 1, ¬ P j := by
          intro j hj
          rcases Nat.lt_succ_iff_lt_or_eq.1 hj with hj | rfl
          · exact hs j hj
          · exact h.no j hlt ht
        obtain ⟨r, reads, hrun, hfirst, hreads⟩ := ih (s := s + 1) (by omega) hs'
        refine ⟨r, _, fun fuel hfuel => ?_, hfirst, fun a ha =>
          (List.mem_append.1 ha).elim (hboth a) (hreads a)⟩
        obtain ⟨fuel, rfl⟩ := Nat.exists_eq_succ_of_ne_zero (Nat.ne_zero_of_lt hfuel)
        rw [Nat.succ_eq_add_one, hturn, ht, hrun fuel (by omega)]
        rfl

theorem Sound.run (h : Sound l P A e) : Finds (fun fuel => l.run fuel 0) P A := by
  obtain ⟨r, reads, hrun, hfirst, hreads⟩ :=
    h.run_from (s := 0) (Nat.zero_add e) fun j hj => absurd hj (Nat.not_lt_zero j)
  exact ⟨r, reads, ⟨e, hrun⟩, hfirst, hreads⟩

/-- The first position with a weaker property is the first one with `P` exactly when every position
with the weaker one has a position with `P` at or in front of it. -/
theorem FirstAt.iff_of_imp (h : FirstAt P' r) (himp : ∀ i, P i → P' i) :
    FirstAt P r ↔ ∀ i, P' i → ∃ j ≤ i, P j := by
  cases r with
  | none => exact ⟨fun _ i hi => absurd hi (h i), fun _ i hi => h i (himp i hi)⟩
  | some k =>
    constructor
    · intro hk i hi
      refine ⟨k, ?_, hk.1⟩
      by_contra hlt
      exact h.2 i (by omega) hi
    · intro hall
      obtain ⟨j, hj, hPj⟩ := hall k h.1
      have hjk : j = k := by
        by_contra hne
        exact h.2 j (by omega) (himp j hPj)
      subst hjk
      exact ⟨hPj, fun i hi hPi => h.2 i hi (himp i hPi)⟩

/-- What a search finds is known from one property, and compared with another one. -/
theorem Finds.iff_of_imp {search : Nat → Option (Option Nat × List Nat)} (h : Finds search P' A)
    (himp : ∀ i, P i → P' i) : Finds search P A ↔ ∀ i, P' i → ∃ j ≤ i, P j := by
  obtain ⟨r, reads, ⟨bound, hrun⟩, hfirst, hreads⟩ := h
  rw [← hfirst.iff_of_imp himp]
  constructor
  · rintro ⟨r', reads', ⟨bound', hrun'⟩, hfirst', -⟩
    have hboth : some (r, reads) = some (r', reads') :=
      (hrun (bound + bound' + 1) (by omega)).symm.trans (hrun' (bound + bound' + 1) (by omega))
    cases hboth
    exact hfirst'
  · intro hP
    exact ⟨r, reads, ⟨bound, hrun⟩, hP, hreads⟩

/-- The same for a stronger property. -/
theorem Finds.iff_of_imp' {search : Nat → Option (Option Nat × List Nat)} (h : Finds search P' A)
    (himp : ∀ i, P' i → P i) (hone : ∀ i j, P' i → P j → j ≤ i) :
    Finds search P A ↔ ∀ i, P i → P' i := by
  obtain ⟨r, reads, ⟨bound, hrun⟩, hfirst, hreads⟩ := h
  constructor
  · rintro ⟨r', reads', ⟨bound', hrun'⟩, hfirst', -⟩
    have hboth : some (r, reads) = some (r', reads') :=
      (hrun (bound + bound' + 1) (by omega)).symm.trans (hrun' (bound + bound' + 1) (by omega))
    cases hboth
    cases r with
    | none => exact fun i hi => absurd hi (hfirst' i)
    | some k =>
      intro i hi
      have hik := hone k i hfirst.1 hi
      have hki : ¬ i < k := fun hlt => hfirst'.2 i hlt hi
      obtain rfl : i = k := by omega
      exact hfirst.1
  · intro hall
    refine ⟨r, reads, ⟨bound, hrun⟩, ?_, hreads⟩
    cases r with
    | none => exact fun i hi => hfirst i (hall i hi)
    | some k => exact ⟨himp k hfirst.1, fun j hj hPj => hfirst.2 j hj (hall j hPj)⟩

end Run

end Scan
end Shs
