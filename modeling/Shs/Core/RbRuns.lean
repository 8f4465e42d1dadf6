import Shs.Core.RbDelete
import Shs.Lib.Run

/-!
# Core.RbRuns

Every run of `rbtree_insert` and `rbtree_delete` from `rbtree_init`. The callers insert nodes that
are not in the tree and delete nodes that are in it, so another call is no step.
-/

namespace Shs
namespace RbTree

open RedBlack RedBlack.ColorTree

section Holds

variable {m : RbTree} {t : ColorTree Nat} {x : Nat} {k : Int} {fuel : Nat}

theorem holds_init (s : Nat) (i : RbInsert) (m : RbTree) : Holds (rbtreeInit s i m) nil := by
  refine ⟨⟨rfl, trivial, by simp [fill, inorder]⟩, ⟨0, .nil⟩, by simp [inorder], ?_⟩
  show (m.setColor s .black).color s = .black
  simp

/-- The key of a node outside is set. -/
theorem Holds.setKey (h : Holds m t) (hx : x ∉ t.inorder) : Holds (m.setKey x k) t := by
  obtain ⟨⟨hpath, htree, hnd⟩, hok, hsorted, hs⟩ := h
  have hag (l : List Nat) : Agree m (m.setKey x k) l :=
    ⟨fun _ _ _ => child_setKey .., fun _ _ => color_setKey .., fun _ _ => parent_setKey ..⟩
  refine ⟨⟨hpath.congr rfl rfl (hag _), htree.congr rfl (hag _), hnd⟩, hok, ?_, ?_⟩
  · refine hsorted.imp_of_mem fun {a b} ha hb hab => ?_
    have hax : a ≠ x := ne_of_mem_of_not_mem ha hx
    have hbx : b ≠ x := ne_of_mem_of_not_mem hb hx
    simpa [hax, hbx] using hab
  · simpa using hs

theorem Holds.root_eq_sentinel (h : Holds m t) : m.root = m.sentinel ↔ t = ColorTree.nil := by
  rw [show m.root = ptr m.sentinel t from h.zip.path]
  refine ⟨fun heq => ?_, fun hn => by rw [hn]; rfl⟩
  by_contra hn
  exact Zip.rep_ne h.zip.tree (ptr_mem hn) heq

/-- `rbtree_min` finds the first node in the order. -/
theorem Holds.min (h : Holds m t) (ht : t ≠ ColorTree.nil) (hfuel : t.inorder.length ≤ fuel) :
    ∃ a l, t.inorder = a :: l ∧ rbtreeMin fuel m.root m = some a ∧ ∀ b ∈ l, m.key a ≤ m.key b := by
  have hmin := rbtreeMin_spec h.zip.tree ht hfuel
  rw [← show m.root = ptr m.sentinel t from h.zip.path] at hmin
  have hsorted := h.sorted
  cases hin : t.inorder with
  | nil => exact absurd (hin ▸ ptr_mem (s := m.sentinel) ht) (by simp)
  | cons a l =>
    rw [hin] at hmin hsorted
    exact ⟨a, l, rfl, hmin, (List.pairwise_cons.1 hsorted).1⟩

end Holds

inductive Act where
  | insert (n : Nat) (k : Int)
  | delete (n : Nat)

/-- The tree, the nodes inserted and not deleted, and the keys they were inserted with. -/
structure State where
  tree : RbTree
  present : List Nat := []
  given : Nat → Int := fun _ => 0
  stuck : Bool := false

/-- What the calls alone say of the nodes and the keys. -/
structure Ledger where
  present : List Nat := []
  given : Nat → Int := fun _ => 0

def State.ledger (s : State) : Ledger := ⟨s.present, s.given⟩

/-- A node that is in the tree is not inserted, and neither is the sentinel. -/
def Ledger.step (sentinel : Nat) (r : Ledger) : Act → Ledger
  | .insert n k =>
    if n ∈ r.present ∨ n = sentinel then r
    else ⟨n :: r.present, Function.update r.given n k⟩
  | .delete n => { r with present := r.present.erase n }

def ledger (sentinel : Nat) (acts : List Act) : Ledger :=
  Run.exec (Ledger.step sentinel) {} acts

def start (s : Nat) (i : RbInsert) (m : RbTree) : State where
  tree := rbtreeInit s i m

def step (s : State) : Act → State
  | .insert n k =>
    if n ∈ s.present ∨ n = s.tree.sentinel then s
    else
      match rbtreeInsert (s.present.length + 2) n (s.tree.setKey n k) with
      | none => { s with stuck := true }
      | some m =>
        { s with
          tree := m
          present := n :: s.present
          given := Function.update s.given n k }
  | .delete n =>
    if n ∈ s.present then
      match rbtreeDelete (s.present.length + 2) n s.tree with
      | none => { s with stuck := true }
      | some m => { s with tree := m, present := s.present.erase n }
    else s

/-- The tree is a red-black tree of the present nodes, each with its key. -/
structure Keeps (s : State) (t : ColorTree Nat) : Prop where
  running : s.stuck = false
  holds : Holds s.tree t
  nodes : t.inorder.Perm s.present
  keys : ∀ n ∈ s.present, s.tree.key n = s.given n

section Step

variable {s : State} {t : ColorTree Nat}

/-- The call does to the nodes and the keys what it does to the ledger. -/
def Recorded (s : State) (a : Act) : Prop :=
  (step s a).tree.sentinel = s.tree.sentinel ∧
    (step s a).ledger = s.ledger.step s.tree.sentinel a

theorem Keeps.insert (h : Keeps s t) (n : Nat) (k : Int) :
    (∃ t', Keeps (step s (.insert n k)) t') ∧ Recorded s (.insert n k) := by
  simp only [Recorded, step]
  by_cases hn : n ∈ s.present ∨ n = s.tree.sentinel
  · rw [if_pos hn, show s.ledger.step _ (.insert n k) = s.ledger from if_pos hn]
    exact ⟨⟨t, h⟩, rfl, rfl⟩
  · rw [if_neg hn, show s.ledger.step _ (.insert n k) = _ from if_neg hn]
    obtain ⟨hrun, hholds, hnodes, hkeys⟩ := h
    obtain ⟨hn, hns⟩ := not_or.1 hn
    have hnt : n ∉ t.inorder := fun hm => hn (hnodes.mem_iff.1 hm)
    have hlen := hnodes.length_eq
    obtain ⟨m, t', hm, hholds', hperm, hsame⟩ := rbtreeInsert_spec (x := n)
      (hholds.setKey (k := k) hnt) hnt hns (show _ < s.present.length + 2 by omega)
    rw [hm]
    refine ⟨⟨t', hrun, hholds', hperm.trans (hnodes.cons n), fun a ha => ?_⟩, hsame.sentinel, rfl⟩
    show m.key a = Function.update s.given n k a
    rw [hsame.key, key_setKey, Function.update_apply]
    split
    · rfl
    · rename_i hne
      exact hkeys a ((List.mem_cons.1 ha).resolve_left hne)

theorem Keeps.delete (h : Keeps s t) (n : Nat) :
    (∃ t', Keeps (step s (.delete n)) t') ∧ Recorded s (.delete n) := by
  simp only [Recorded, step]
  split
  · rename_i hn
    obtain ⟨hrun, hholds, hnodes, hkeys⟩ := h
    have hlen := hnodes.length_eq
    obtain ⟨m, t', hm, hholds', hin, hkept⟩ := rbtreeDelete_spec
      hholds (hnodes.mem_iff.2 hn) (show _ ≤ s.present.length + 2 by omega)
    rw [hm]
    refine ⟨⟨t', hrun, hholds', ?_, fun a ha => ?_⟩, hkept.sentinel, rfl⟩
    · show t'.inorder.Perm (s.present.erase n)
      rw [hin]
      exact hnodes.erase n
    · have hnd : s.present.Nodup := hnodes.nodup_iff.1 hholds.zip.nodup
      obtain ⟨hne, hmem⟩ := hnd.mem_erase_iff.1 ha
      exact (hkept.key a hne).trans (hkeys a hmem)
  · rename_i hn
    rw [Ledger.step, State.ledger, List.erase_of_not_mem hn]
    exact ⟨⟨t, h⟩, rfl, rfl⟩

theorem Keeps.step (h : Keeps s t) (a : Act) : (∃ t', Keeps (step s a) t') ∧ Recorded s a := by
  cases a with
  | insert n k => exact h.insert n k
  | delete n => exact h.delete n

/-- `rbtree_min` returns a node of least key. -/
def FindsMin (s : State) : Prop :=
  s.present ≠ [] → ∃ n ∈ s.present, rbtreeMin s.present.length s.tree.root s.tree = some n ∧
    ∀ a ∈ s.present, s.given n ≤ s.given a

theorem Keeps.findsMin (h : Keeps s t) : FindsMin s := by
  intro hne
  have ht : t ≠ nil := by
    rintro rfl
    exact hne h.nodes.nil_eq.symm
  obtain ⟨n, l, hin, hmin, hle⟩ := h.holds.min ht (Nat.le_of_eq h.nodes.length_eq)
  have hmem (a : Nat) : a ∈ s.present ↔ a = n ∨ a ∈ l := by
    rw [← h.nodes.mem_iff, hin, List.mem_cons]
  refine ⟨n, (hmem n).2 (.inl rfl), hmin, fun a ha => ?_⟩
  rw [← h.keys n ((hmem n).2 (.inl rfl)), ← h.keys a ha]
  rcases (hmem a).1 ha with rfl | ha
  · exact le_refl _
  · exact hle a ha

end Step

/-- A run keeps the tree, and its nodes and keys are those of the calls. -/
theorem keeps_run (sentinel : Nat) (i : RbInsert) (m : RbTree) (acts : List Act) :
    (∃ t, Keeps (Run.exec step (start sentinel i m) acts) t) ∧
      (Run.exec step (start sentinel i m) acts).tree.sentinel = sentinel ∧
      (Run.exec step (start sentinel i m) acts).ledger = ledger sentinel acts := by
  induction acts using List.reverseRecOn with
  | nil => exact ⟨⟨nil, rfl, holds_init .., .refl _, by simp [start]⟩, rfl, rfl⟩
  | append_singleton acts a ih =>
    obtain ⟨⟨t, h⟩, hsentinel, hledger⟩ := ih
    obtain ⟨hkeeps, hsame, hstep⟩ := h.step a
    rw [Run.exec_concat, ledger, Run.exec_concat, ← ledger, ← hledger]
    rw [hsentinel] at hsame hstep
    exact ⟨hkeeps, hsame, hstep⟩

/-- After every run from `rbtree_init`, with either insert function, the memory holds a red-black
tree in the order of the keys, whose nodes are those inserted and not deleted, as the calls alone
have them. -/
theorem rbtree_runs (sentinel : Nat) (i : RbInsert) (m : RbTree) (acts : List Act) :
    ∃ t, Keeps (Run.exec step (start sentinel i m) acts) t ∧
      (Run.exec step (start sentinel i m) acts).ledger = ledger sentinel acts ∧
      FindsMin (Run.exec step (start sentinel i m) acts) := by
  obtain ⟨⟨t, h⟩, -, hledger⟩ := keeps_run sentinel i m acts
  exact ⟨t, h, hledger, h.findsMin⟩

/-- Of three nodes with the keys 5, 3 and 4 the second is deleted: the least of the others is the
third. -/
theorem rbtree_runs_three :
    let s := Run.exec step (start 0 .value ⟨fun _ => {}, 7, 0, .value⟩)
      [.insert 1 5, .insert 2 3, .insert 3 4, .delete 2]
    (∃ t, Holds s.tree t ∧ t.inorder.Perm [3, 1]) ∧
      rbtreeMin s.present.length s.tree.root s.tree = some 3 := by
  intro s
  have hrun : ∃ t, Keeps s t ∧ s.ledger = ledger 0 _ ∧ FindsMin s :=
    rbtree_runs 0 .value ⟨fun _ => {}, 7, 0, .value⟩
      [.insert 1 5, .insert 2 3, .insert 3 4, .delete 2]
  clear_value s
  obtain ⟨t, hkeeps, hledger, hmin⟩ := hrun
  have hpresent : s.present = [3, 1] := congrArg Ledger.present hledger
  have hgiven : s.given 1 = 5 ∧ s.given 3 = 4 :=
    ⟨congrFun (congrArg Ledger.given hledger) 1, congrFun (congrArg Ledger.given hledger) 3⟩
  refine ⟨⟨t, hkeeps.holds, hpresent ▸ hkeeps.nodes⟩, ?_⟩
  obtain ⟨n, hn, hfind, hleast⟩ := hmin (by rw [hpresent]; decide)
  have hthree := hleast 3 (by rw [hpresent]; decide)
  rcases (show n = 3 ∨ n = 1 by simpa [hpresent] using hn) with rfl | rfl
  · exact hfind
  · exact absurd hthree (by rw [hgiven.1, hgiven.2]; decide)

end RbTree
end Shs
