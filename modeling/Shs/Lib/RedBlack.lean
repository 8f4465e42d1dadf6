import Mathlib.Data.List.Nodup
import Mathlib.Data.List.Pairwise
import Mathlib.Order.Lattice

/-!
# Lib.RedBlack

Red-black trees taken apart at one place. A `Frame` is a node without one of its two subtrees, a
path is the list of frames from a place up to the root, and `fill` puts a subtree back. The two
repairs, after a red leaf was inserted and after a black node was removed, walk up such a path.

`Side` stands for left or right; `join d c t a s` is the node whose subtree on side `d` is `t`. So
each case of the repairs is stated once for both sides.
-/

namespace RedBlack

inductive Side where
  | left
  | right
  deriving DecidableEq, Repr

inductive Color where
  | red
  | black
  deriving DecidableEq, Repr

def Side.other : Side → Side
  | .left => .right
  | .right => .left

@[simp] theorem Side.other_other (d : Side) : d.other.other = d := by cases d <;> rfl

@[simp] theorem Side.other_ne (d : Side) : d.other ≠ d := by cases d <;> simp [Side.other]

@[simp] theorem Side.ne_other (d : Side) : d ≠ d.other := d.other_ne.symm

theorem Side.eq_other {d e : Side} (h : d ≠ e) : d = e.other := by
  cases d <;> cases e <;> simp_all [Side.other]

inductive ColorTree (α : Type) where
  | nil
  | node (c : Color) (l : ColorTree α) (a : α) (r : ColorTree α)
  deriving DecidableEq, Repr

structure Frame (α : Type) where
  side : Side
  color : Color
  elem : α
  sib : ColorTree α

variable {α : Type}

namespace ColorTree

def color : ColorTree α → Color
  | nil => .black
  | node c _ _ _ => c

def blacken : ColorTree α → ColorTree α
  | nil => nil
  | node _ l a r => node .black l a r

def child (d : Side) : ColorTree α → ColorTree α
  | nil => nil
  | node _ l _ r =>
    match d with
    | .left => l
    | .right => r

def inorder : ColorTree α → List α
  | nil => []
  | node _ l a r => l.inorder ++ a :: r.inorder

def join (d : Side) (c : Color) (t : ColorTree α) (a : α) (s : ColorTree α) : ColorTree α :=
  match d with
  | .left => node c t a s
  | .right => node c s a t

@[simp] theorem inorder_blacken (t : ColorTree α) : t.blacken.inorder = t.inorder := by
  cases t <;> rfl

@[simp] theorem color_join (d : Side) (c : Color) (t s : ColorTree α) (a : α) :
    (join d c t a s).color = c := by cases d <;> rfl

@[simp] theorem blacken_join (d : Side) (c : Color) (t s : ColorTree α) (a : α) :
    (join d c t a s).blacken = join d .black t a s := by cases d <;> rfl

theorem join_ne_nil (d : Side) (c : Color) (t s : ColorTree α) (a : α) : join d c t a s ≠ nil := by
  cases d <;> simp [join]

theorem node_eq_join (d : Side) (c : Color) (l r : ColorTree α) (a : α) :
    node c l a r = join d c ((node c l a r).child d) a ((node c l a r).child d.other) := by
  cases d <;> rfl

theorem join_other (d : Side) (c : Color) (t s : ColorTree α) (a : α) :
    join d.other c t a s = join d c s a t := by cases d <;> rfl

/-- A rotation does not change the order. -/
theorem inorder_rotate (d : Side) (c₁ c₂ c₃ c₄ : Color) (t u v : ColorTree α) (a b : α) :
    (join d c₁ t a (join d c₂ u b v)).inorder = (join d c₃ (join d c₄ t a u) b v).inorder := by
  cases d <;> simp [join, inorder]

theorem inorder_join_congr {t t' s s' : ColorTree α} (d : Side) (c c' : Color) (a : α)
    (ht : t.inorder = t'.inorder) (hs : s.inorder = s'.inorder) :
    (join d c t a s).inorder = (join d c' t' a s').inorder := by
  cases d <;> simp [join, inorder, ht, hs]

end ColorTree

open ColorTree

/-- The path `p` with `t` at its place. -/
def fill : List (Frame α) → ColorTree α → ColorTree α
  | [], t => t
  | f :: p, t => fill p (join f.side f.color t f.elem f.sib)

/-- What is before the place of a path, and what is behind it. -/
def before : List (Frame α) → List α
  | [] => []
  | f :: p =>
    match f.side with
    | .left => before p
    | .right => before p ++ (f.sib.inorder ++ [f.elem])

def after : List (Frame α) → List α
  | [] => []
  | f :: p =>
    match f.side with
    | .left => f.elem :: f.sib.inorder ++ after p
    | .right => after p

theorem inorder_fill (p : List (Frame α)) (t : ColorTree α) :
    (fill p t).inorder = before p ++ t.inorder ++ after p := by
  induction p generalizing t with
  | nil => simp [fill, before, after]
  | cons f p ih =>
    rw [fill, ih]
    obtain ⟨d, c, a, s⟩ := f
    cases d <;> simp [before, after, join, inorder]

theorem inorder_fill_congr {t t' : ColorTree α} (p : List (Frame α)) (h : t.inorder = t'.inorder) :
    (fill p t).inorder = (fill p t').inorder := by
  rw [inorder_fill, inorder_fill, h]

theorem fill_append (q p : List (Frame α)) (t : ColorTree α) : fill (q ++ p) t = fill p (fill q t) := by
  induction q generalizing t with
  | nil => rfl
  | cons f q ih => exact ih _

theorem before_of_left {q : List (Frame α)} (h : ∀ f ∈ q, f.side = .left) : before q = [] := by
  induction q with
  | nil => rfl
  | cons f q ih =>
    rw [before, h f (by simp)]
    exact ih fun g hg => h g (by simp [hg])

/-- Every node of a tree is at the end of some path. -/
theorem exists_path {t : ColorTree α} {a : α} (h : a ∈ t.inorder) :
    ∃ p c l r, t = fill p (node c l a r) := by
  induction t with
  | nil => simp [inorder] at h
  | node c l b r ihl ihr =>
    rw [inorder, List.mem_append, List.mem_cons] at h
    rcases h with h | rfl | h
    · obtain ⟨p, c', l', r', rfl⟩ := ihl h
      exact ⟨p ++ [⟨.left, c, b, r⟩], c', l', r', by rw [fill_append]; rfl⟩
    · exact ⟨[], c, l, r, rfl⟩
    · obtain ⟨p, c', l', r', rfl⟩ := ihr h
      exact ⟨p ++ [⟨.right, c, b, l⟩], c', l', r', by rw [fill_append]; rfl⟩

/-- The least node of a tree, at the end of a path to the left. -/
theorem exists_leftmost (c : Color) (l r : ColorTree α) (a : α) :
    ∃ q c' m r', node c l a r = fill q (node c' nil m r') ∧ ∀ f ∈ q, f.side = .left := by
  induction l generalizing c a r with
  | nil => exact ⟨[], c, a, r, rfl, by simp⟩
  | node c₁ l₁ a₁ r₁ ih _ =>
    obtain ⟨q, c', m, r', hq, hleft⟩ := ih c₁ r₁ a₁
    refine ⟨q ++ [⟨.left, c, a, r⟩], c', m, r', by rw [fill_append, ← hq]; rfl, fun f hf => ?_⟩
    rcases List.mem_append.1 hf with hf | hf
    · exact hleft f hf
    · rw [List.mem_singleton.1 hf]

/-- The place where a new node goes, below the path `p`; `lt` tells to go left. -/
def descend (lt : α → Bool) : ColorTree α → List (Frame α) → List (Frame α)
  | nil, p => p
  | node c l a r, p =>
    if lt a then descend lt l (⟨.left, c, a, r⟩ :: p) else descend lt r (⟨.right, c, a, l⟩ :: p)

theorem fill_descend (lt : α → Bool) (t : ColorTree α) (p : List (Frame α)) :
    fill (descend lt t p) nil = fill p t := by
  induction t generalizing p with
  | nil => rfl
  | node c l a r ihl ihr =>
    rw [descend]
    split
    · exact ihl _
    · exact ihr _

/-- The new node is put between the nodes that are not above its key and those that are. -/
theorem descend_sorted {κ : Type} [LinearOrder κ] (key : α → κ) {x : κ} {t : ColorTree α}
    {p : List (Frame α)} (hs : (fill p t).inorder.Pairwise fun a b => key a ≤ key b)
    (hb : ∀ a ∈ before p, key a ≤ x) (ha : ∀ a ∈ after p, x ≤ key a) :
    (∀ a ∈ before (descend (fun a => decide (x < key a)) t p), key a ≤ x) ∧
      ∀ a ∈ after (descend (fun a => decide (x < key a)) t p), x ≤ key a := by
  induction t generalizing p with
  | nil => exact ⟨hb, ha⟩
  | node c l b r ihl ihr =>
    have hsub : (node c l b r).inorder.Pairwise fun a b => key a ≤ key b := by
      rw [inorder_fill, List.pairwise_append, List.pairwise_append] at hs
      exact hs.1.2.1
    rw [inorder, List.pairwise_append, List.pairwise_cons] at hsub
    obtain ⟨-, ⟨hr, -⟩, hl⟩ := hsub
    rw [descend]
    split
    · rename_i hlt
      have hlt : x < key b := by simpa using hlt
      refine ihl hs hb fun a hm => ?_
      rw [after, List.cons_append, List.mem_cons, List.mem_append] at hm
      rcases hm with rfl | hm | hm
      · exact hlt.le
      · exact hlt.le.trans (hr a hm)
      · exact ha a hm
    · rename_i hlt
      have hle : key b ≤ x := by simpa using hlt
      refine ihr hs (fun a hm => ?_) ha
      rw [before, List.mem_append, List.mem_append, List.mem_singleton] at hm
      rcases hm with hm | hm | rfl
      · exact hb a hm
      · exact (hl a hm b (by simp)).trans hle
      · exact hle

/-! ## Balance -/

/-- A tree whose root has color `c` and whose paths all have `n` black nodes. No red node has a red
child. -/
inductive Ok : Color → Nat → ColorTree α → Prop where
  | nil : Ok .black 0 nil
  | red {n : Nat} {l r : ColorTree α} {a : α} : Ok .black n l → Ok .black n r →
      Ok .red n (node .red l a r)
  | black {c c' : Color} {n : Nat} {l r : ColorTree α} {a : α} : Ok c n l → Ok c' n r →
      Ok .black (n + 1) (node .black l a r)

/-- A tree of color `c` and height `n` at the place of the path makes a tree with a black root. -/
def PathOk : List (Frame α) → Color → Nat → Prop
  | [], c, _ => c = .black
  | f :: p, c, n =>
    match f.color with
    | .red => c = .black ∧ Ok .black n f.sib ∧ PathOk p .red n
    | .black => (∃ c', Ok c' n f.sib) ∧ PathOk p .black (n + 1)

section Balance

variable {c c' : Color} {n : Nat} {t s : ColorTree α} {a : α} {d : Side} {p : List (Frame α)}

theorem Ok.color (h : Ok c n t) : t.color = c := by
  cases h <;> rfl

theorem ok_join_red (ht : Ok .black n t) (hs : Ok .black n s) :
    Ok .red n (join d .red t a s) := by
  cases d with
  | left => exact .red ht hs
  | right => exact .red hs ht

theorem ok_join_black (ht : Ok c n t) (hs : Ok c' n s) :
    Ok .black (n + 1) (join d .black t a s) := by
  cases d with
  | left => exact .black ht hs
  | right => exact .black hs ht

theorem Ok.of_join_red (h : Ok c n (join d .red t a s)) : Ok .black n t ∧ Ok .black n s := by
  cases d with
  | left =>
    cases h with
    | red hl hr => exact ⟨hl, hr⟩
  | right =>
    cases h with
    | red hl hr => exact ⟨hr, hl⟩

theorem Ok.of_join_black (h : Ok c n (join d .black t a s)) :
    ∃ m c₁ c₂, n = m + 1 ∧ Ok c₁ m t ∧ Ok c₂ m s := by
  cases d with
  | left =>
    cases h with
    | black hl hr => exact ⟨_, _, _, rfl, hl, hr⟩
  | right =>
    cases h with
    | black hl hr => exact ⟨_, _, _, rfl, hr, hl⟩

theorem Ok.blacken_red (h : Ok .red n t) : Ok .black (n + 1) t.blacken := by
  cases h with
  | red hl hr => exact .black hl hr

theorem Ok.blacken_black (h : Ok .black n t) : t.blacken = t := by
  cases h <;> rfl

theorem PathOk.of_red (h : PathOk p .red n) : PathOk p .black n := by
  cases p with
  | nil => cases h
  | cons f p =>
    obtain ⟨d, c, a, s⟩ := f
    cases c with
    | red => exact absurd h.1 (by simp)
    | black => exact h

theorem PathOk.fill (hp : PathOk p c n) (ht : Ok c n t) : ∃ m, Ok .black m (fill p t) := by
  induction p generalizing c n t with
  | nil =>
    obtain rfl := hp
    exact ⟨n, ht⟩
  | cons f p ih =>
    obtain ⟨d, c', a, s⟩ := f
    cases c' with
    | red =>
      obtain ⟨rfl, hs, hp⟩ := hp
      exact ih hp (ok_join_red ht hs)
    | black =>
      obtain ⟨⟨c', hs⟩, hp⟩ := hp
      exact ih hp (ok_join_black ht hs)

/-- A balanced tree taken apart along a path. -/
theorem Ok.zoom {q : List (Frame α)} (ht : Ok c n (RedBlack.fill q t)) (hp : PathOk p c n) :
    ∃ c' m, PathOk (q ++ p) c' m ∧ Ok c' m t := by
  induction q generalizing t with
  | nil => exact ⟨c, n, hp, ht⟩
  | cons f q ih =>
    obtain ⟨c', m, hq, hj⟩ := ih ht
    obtain ⟨d, cf, a, s⟩ := f
    cases cf with
    | red =>
      obtain rfl : c' = .red := by simpa using hj.color.symm
      obtain ⟨ht, hs⟩ := hj.of_join_red
      exact ⟨.black, m, ⟨rfl, hs, hq⟩, ht⟩
    | black =>
      obtain rfl : c' = .black := by simpa using hj.color.symm
      obtain ⟨k, c₁, c₂, rfl, ht, hs⟩ := hj.of_join_black
      exact ⟨c₁, k, ⟨⟨c₂, hs⟩, hq⟩, ht⟩

theorem descend_ok (lt : α → Bool) (ht : Ok c n t) (hp : PathOk p c n) :
    PathOk (descend lt t p) .black 0 := by
  obtain ⟨m, hm⟩ := hp.fill ht
  rw [← fill_descend lt] at hm
  obtain ⟨c', k, hd, hnil⟩ := hm.zoom (p := []) rfl
  cases hnil
  rwa [List.append_nil] at hd

end Balance

/-! ## The repair after an insertion -/

/-- The red tree `t` below the red node of `f` below the black node of `g`, rotated. -/
def insertRotate (f g : Frame α) (t : ColorTree α) : ColorTree α :=
  if f.side = g.side then
    join g.side .black t f.elem (join g.side .red f.sib g.elem g.sib)
  else
    match t with
    | nil => fill [f, g] nil
    | node c l a r =>
      join g.side .black (join g.side .red f.sib f.elem ((node c l a r).child g.side)) a
        (join g.side .red ((node c l a r).child g.side.other) g.elem g.sib)

theorem insertRotate_outer {f g : Frame α} (h : f.side = g.side) (t : ColorTree α) :
    insertRotate f g t =
      join g.side .black t f.elem (join g.side .red f.sib g.elem g.sib) := by
  unfold insertRotate
  exact if_pos h

theorem insertRotate_inner {f g : Frame α} (h : f.side ≠ g.side) (c : Color) (l r : ColorTree α)
    (a : α) :
    insertRotate f g (node c l a r) =
      join g.side .black (join g.side .red f.sib f.elem ((node c l a r).child g.side)) a
        (join g.side .red ((node c l a r).child g.side.other) g.elem g.sib) := by
  unfold insertRotate
  exact if_neg h

/-- The tree at the place of the path has got a red root. -/
def insertFix : List (Frame α) → ColorTree α → ColorTree α
  | [], t => t.blacken
  | [f], t => fill [f] t
  | f :: g :: p, t =>
    if f.color = .black then fill (f :: g :: p) t
    else if g.sib.color = .red then
      insertFix p (join g.side .red (join f.side .black t f.elem f.sib) g.elem g.sib.blacken)
    else fill p (insertRotate f g t)

theorem insertRotate_inorder (f g : Frame α) (t : ColorTree α) :
    (insertRotate f g t).inorder = (fill [f, g] t).inorder := by
  unfold insertRotate
  split
  · rename_i hside
    simp only [fill]
    rw [hside]
    cases g.side <;> simp [join, inorder]
  · rename_i hside
    cases t with
    | nil => rfl
    | node c l a r =>
      simp only [fill]
      rw [Side.eq_other hside]
      cases g.side <;> simp [join, inorder, child, Side.other]

theorem insertFix_inorder (p : List (Frame α)) (t : ColorTree α) :
    (insertFix p t).inorder = (fill p t).inorder := by
  induction p, t using insertFix.induct with
  | case1 t => simp [insertFix, fill]
  | case2 f t => rfl
  | case3 f g p t hf => rw [insertFix, if_pos hf]
  | case4 f g p t hf hu ih =>
    rw [insertFix, if_neg hf, if_pos hu, ih]
    simp only [fill]
    refine inorder_fill_congr p (inorder_join_congr _ _ _ _ ?_ (inorder_blacken _))
    exact inorder_join_congr _ _ _ _ rfl rfl
  | case5 f g p t hf hu =>
    rw [insertFix, if_neg hf, if_neg hu]
    exact inorder_fill_congr p (insertRotate_inorder f g t)

/-- The path above a red node whose place holds a red tree: the node's parent is black. -/
theorem PathOk.grandparent {f g : Frame α} {p : List (Frame α)} {n : Nat}
    (hp : PathOk (f :: g :: p) .black n) (hf : f.color ≠ .black) :
    g.color = .black ∧ Ok .black n f.sib ∧ (∃ c, Ok c n g.sib) ∧ PathOk p .black (n + 1) := by
  obtain ⟨d, c, a, s⟩ := f
  obtain ⟨e, c', b, u⟩ := g
  cases c with
  | black => exact absurd rfl hf
  | red =>
    obtain ⟨-, hs, hp⟩ := hp
    cases c' with
    | red => exact absurd hp.1 (by simp)
    | black => exact ⟨rfl, hs, hp.1, hp.2⟩

theorem Ok.children {c : Color} {n : Nat} {l r : ColorTree α} {a : α} (e : Side)
    (h : Ok .red n (node c l a r)) :
    Ok .black n ((node c l a r).child e) := by
  cases h with
  | red hl hr =>
    cases e with
    | left => exact hl
    | right => exact hr

theorem insertRotate_ok {f g : Frame α} {t : ColorTree α} {n : Nat} (ht : Ok .red n t)
    (hf : Ok .black n f.sib) (hg : Ok .black n g.sib) :
    Ok .black (n + 1) (insertRotate f g t) := by
  unfold insertRotate
  split
  · exact ok_join_black ht (ok_join_red hf hg)
  · cases t with
    | nil => cases ht
    | node c l a r =>
      exact ok_join_black (ok_join_red hf (ht.children _)) (ok_join_red (ht.children _) hg)

theorem insertFix_ok {p : List (Frame α)} {t : ColorTree α} {n : Nat} (hp : PathOk p .black n)
    (ht : Ok .red n t) : ∃ m, Ok .black m (insertFix p t) := by
  induction p, t using insertFix.induct generalizing n with
  | case1 t => exact ⟨_, ht.blacken_red⟩
  | case2 f t =>
    obtain ⟨d, c, a, s⟩ := f
    cases c with
    | red => exact absurd hp.2.2 (by simp [PathOk])
    | black =>
      obtain ⟨⟨c, hs⟩, -⟩ := hp
      exact ⟨_, ok_join_black ht hs⟩
  | case3 f g p t hf =>
    rw [insertFix, if_pos hf]
    refine PathOk.fill (c := .red) (n := n) ?_ ht
    rw [PathOk, hf] at hp ⊢
    exact hp
  | case4 f g p t hf hu ih =>
    rw [insertFix, if_neg hf, if_pos hu]
    obtain ⟨-, hs, ⟨c, hg⟩, hp⟩ := hp.grandparent hf
    obtain rfl := hg.color.symm.trans hu
    exact ih hp (ok_join_red (ok_join_black ht hs) hg.blacken_red)
  | case5 f g p t hf hu =>
    rw [insertFix, if_neg hf, if_neg hu]
    obtain ⟨-, hs, ⟨c, hg⟩, hp⟩ := hp.grandparent hf
    obtain rfl : c = .black := by
      cases c with
      | red => exact absurd hg.color hu
      | black => rfl
    exact hp.fill (insertRotate_ok ht hs hg)

/-! ## The repair after a removal -/

/-- The place of `t` in frame `f` lacks a black node, and the sibling is black. The tree at the
place of the frame, which still lacks one (`inl`) or is complete (`inr`). -/
def deleteRotate (f : Frame α) (t : ColorTree α) : ColorTree α ⊕ ColorTree α :=
  match f.sib with
  | nil => .inr (join f.side f.color t f.elem nil)
  | node c l b r =>
    let x := (node c l b r).child f.side
    let y := (node c l b r).child f.side.other
    if x.color = .black ∧ y.color = .black then
      .inl (join f.side f.color t f.elem (join f.side .red x b y))
    else if y.color = .black then
      match x with
      | nil => .inr (join f.side f.color t f.elem (join f.side c nil b y))
      | node c' l' e r' =>
        .inr (join f.side f.color
          (join f.side .black t f.elem ((node c' l' e r').child f.side)) e
          (join f.side .black ((node c' l' e r').child f.side.other) b y))
    else .inr (join f.side f.color (join f.side .black t f.elem x) b y.blacken)

/-- The sibling in `f` is red: it is rotated above, and a subtree of it is the sibling then. -/
def raiseSibling (f : Frame α) : Frame α × Frame α :=
  match f.sib with
  | nil => (f, f)
  | node c l b r =>
    (⟨f.side, .red, f.elem, (node c l b r).child f.side⟩,
      ⟨f.side, .black, b, (node c l b r).child f.side.other⟩)

/-- The tree at the place of the path lacks a black node. -/
def deleteFix : List (Frame α) → ColorTree α → ColorTree α
  | [], t => t.blacken
  | f :: p, t =>
    if t.color = .red then fill (f :: p) t.blacken
    else if f.sib.color = .red then
      match deleteRotate (raiseSibling f).1 t with
      | .inl u => fill ((raiseSibling f).2 :: p) u.blacken
      | .inr u => fill ((raiseSibling f).2 :: p) u
    else
      match deleteRotate f t with
      | .inl u => deleteFix p u
      | .inr u => fill p u

/-- The tree of either result. -/
def got : ColorTree α ⊕ ColorTree α → ColorTree α
  | .inl t => t
  | .inr t => t

@[simp] theorem child_join (d : Side) (c : Color) (t s : ColorTree α) (a : α) :
    (join d c t a s).child d = t := by cases d <;> rfl

@[simp] theorem child_other_join (d : Side) (c : Color) (t s : ColorTree α) (a : α) :
    (join d c t a s).child d.other = s := by cases d <;> rfl

/-- `deleteRotate` with the sibling taken apart. -/
theorem deleteRotate_join (d : Side) (c c' : Color) (a b : α) (t x y : ColorTree α) :
    deleteRotate ⟨d, c, a, join d c' x b y⟩ t =
      if x.color = .black ∧ y.color = .black then .inl (join d c t a (join d .red x b y))
      else if y.color = .black then
        match x with
        | nil => .inr (join d c t a (join d c' nil b y))
        | node c'' l e r =>
          .inr (join d c (join d .black t a ((node c'' l e r).child d)) e
            (join d .black ((node c'' l e r).child d.other) b y))
      else .inr (join d c (join d .black t a x) b y.blacken) := by
  cases d <;> rfl

theorem raiseSibling_join (d : Side) (c c' : Color) (a b : α) (x y : ColorTree α) :
    raiseSibling ⟨d, c, a, join d c' x b y⟩ = (⟨d, .red, a, x⟩, ⟨d, .black, b, y⟩) := by
  cases d <;> rfl

theorem deleteRotate_inorder (f : Frame α) (t : ColorTree α) :
    (got (deleteRotate f t)).inorder = (fill [f] t).inorder := by
  obtain ⟨d, c, a, s⟩ := f
  cases s with
  | nil => rfl
  | node c' l b r =>
    rw [node_eq_join d c' l r b]
    generalize (node c' l b r).child d = x
    generalize (node c' l b r).child d.other = y
    rw [deleteRotate_join]
    simp only [fill]
    split
    · exact inorder_join_congr _ _ _ _ rfl (inorder_join_congr _ _ _ _ rfl rfl)
    · split
      · cases x with
        | nil => rfl
        | node c'' l e r => cases d <;> simp [got, join, inorder, child, Side.other]
      · cases d <;> simp [got, join, inorder]

theorem deleteFix_inorder (p : List (Frame α)) (t : ColorTree α) :
    (deleteFix p t).inorder = (fill p t).inorder := by
  induction p generalizing t with
  | nil => simp [deleteFix, fill]
  | cons f p ih =>
    rw [deleteFix]
    split
    · exact inorder_fill_congr _ (inorder_blacken t)
    have hgot (f : Frame α) (q : List (Frame α)) :
        (fill q (got (deleteRotate f t))).inorder = (fill (f :: q) t).inorder :=
      inorder_fill_congr q (deleteRotate_inorder f t)
    split
    · have hraise : (fill ((raiseSibling f).1 :: (raiseSibling f).2 :: p) t).inorder =
          (fill (f :: p) t).inorder := by
        rename_i hred
        obtain ⟨d, c, a, s⟩ := f
        cases s with
        | nil => cases hred
        | node c' l b r =>
          rw [node_eq_join d c' l r b, raiseSibling_join]
          exact inorder_fill_congr p (inorder_rotate d _ _ _ _ _ _ _ _ _).symm
      have h := hgot (raiseSibling f).1 ((raiseSibling f).2 :: p)
      cases hr : deleteRotate (raiseSibling f).1 t with
      | inl u =>
        rw [hr, hraise] at h
        exact (inorder_fill_congr _ (inorder_blacken u)).trans h
      | inr u =>
        rw [hr, hraise] at h
        exact h
    · have h := hgot f p
      cases hr : deleteRotate f t with
      | inl u =>
        rw [hr] at h
        exact (ih u).trans h
      | inr u =>
        rw [hr] at h
        exact h

/-- `t` has height `n`, but would have one more with a black root. -/
def Short (n : Nat) (t : ColorTree α) : Prop :=
  (t.color = .red → Ok .black (n + 1) t.blacken) ∧ (t.color = .black → Ok .black n t)

theorem Ok.short {c : Color} {n : Nat} {t : ColorTree α} (h : Ok c n t) : Short n t := by
  cases c with
  | red => exact ⟨fun _ => h.blacken_red, fun hc => by simp [h.color] at hc⟩
  | black => exact ⟨fun hc => by simp [h.color] at hc, fun _ => h⟩

/-- The path behind a frame, for a tree of the frame's color. -/
theorem PathOk.join {p : List (Frame α)} {d : Side} {c : Color} {a b : α} {s t u : ColorTree α} {n : Nat}
    (hp : PathOk (⟨d, c, a, s⟩ :: p) .black n) (ht : Ok .black n t) (hu : Ok .black n u) :
    ∃ m, PathOk p c m ∧ Ok c m (join d c t b u) := by
  cases c with
  | red => exact ⟨n, hp.2.2, ok_join_red ht hu⟩
  | black => exact ⟨n + 1, hp.2, ok_join_black ht hu⟩

theorem deleteRotate_ok {f : Frame α} {p : List (Frame α)} {t : ColorTree α} {n : Nat}
    (hp : PathOk (f :: p) .black (n + 1)) (hs : Ok .black (n + 1) f.sib) (ht : Ok .black n t) :
    (∀ u, deleteRotate f t = .inl u →
        u.color = f.color ∧ ∃ m, PathOk p .black (m + 1) ∧ Short m u) ∧
      (∀ u, deleteRotate f t = .inr u → ∃ m, PathOk p f.color m ∧ Ok f.color m u) := by
  obtain ⟨d, c, a, s⟩ := f
  cases hs with
  | @black c₁ c₂ _ l r b hl hr =>
    have hw : Ok .black (n + 1) (join d .black ((node .black l b r).child d) b
        ((node .black l b r).child d.other)) := by
      rw [← node_eq_join]
      exact .black hl hr
    rw [node_eq_join d .black l r b] at hp ⊢
    generalize (node .black l b r).child d = x at hp hw ⊢
    generalize (node .black l b r).child d.other = y at hp hw ⊢
    obtain ⟨m, c₁, c₂, hm, hx, hy⟩ := hw.of_join_black
    obtain rfl : n = m := by omega
    rw [deleteRotate_join]
    by_cases hxy : x.color = .black ∧ y.color = .black
    · rw [if_pos hxy]
      obtain rfl := hx.color.symm.trans hxy.1
      obtain rfl := hy.color.symm.trans hxy.2
      refine ⟨?_, by simp⟩
      rintro u ⟨⟩
      cases c with
      | red =>
        refine ⟨color_join .., n, hp.2.2.of_red, fun _ => ?_, by simp⟩
        rw [blacken_join]
        exact ok_join_black ht (ok_join_red hx hy)
      | black =>
        exact ⟨color_join .., n + 1, hp.2, (ok_join_black ht (ok_join_red hx hy)).short⟩
    · rw [if_neg hxy]
      by_cases hyb : y.color = .black
      · rw [if_pos hyb]
        obtain rfl := hy.color.symm.trans hyb
        cases x with
        | nil => exact absurd ⟨rfl, hyb⟩ hxy
        | node c' l e r =>
          obtain rfl : c₁ = .red := by
            cases c₁ with
            | red => rfl
            | black => exact absurd ⟨hx.color, hyb⟩ hxy
          refine ⟨by simp, ?_⟩
          rintro u ⟨⟩
          exact hp.join (ok_join_black ht (hx.children d)) (ok_join_black (hx.children _) hy)
      · rw [if_neg hyb]
        obtain rfl : c₂ = .red := by
          cases c₂ with
          | red => rfl
          | black => exact absurd hy.color hyb
        refine ⟨by simp, ?_⟩
        rintro u ⟨⟩
        exact hp.join (ok_join_black ht hx) hy.blacken_red

theorem PathOk.sib {f : Frame α} {p : List (Frame α)} {c : Color} {n : Nat}
    (hp : PathOk (f :: p) c n) : ∃ c', Ok c' n f.sib := by
  obtain ⟨d, c', a, s⟩ := f
  cases c' with
  | red => exact ⟨_, hp.2.1⟩
  | black => exact hp.1

theorem raiseSibling_color {f : Frame α} (hred : f.sib.color = .red) :
    (raiseSibling f).1.color = .red := by
  obtain ⟨d, c, a, s⟩ := f
  cases s with
  | nil => cases hred
  | node c' l b r => rfl

theorem PathOk.raised {f : Frame α} {p : List (Frame α)} {n : Nat}
    (hp : PathOk (f :: p) .black n) (hred : f.sib.color = .red) :
    Ok .black n (raiseSibling f).1.sib ∧
      PathOk ((raiseSibling f).1 :: (raiseSibling f).2 :: p) .black n := by
  obtain ⟨d, c, a, s⟩ := f
  cases s with
  | nil => cases hred
  | node c' l b r =>
    obtain rfl := hred
    cases c with
    | red => exact absurd hp.2.1.color (by simp [ColorTree.color])
    | black =>
      obtain ⟨⟨c', hs⟩, hp⟩ := hp
      rw [node_eq_join d .red l r b] at hs ⊢
      rw [raiseSibling_join]
      obtain ⟨hx, hy⟩ := hs.of_join_red
      exact ⟨hx, rfl, hx, ⟨_, hy⟩, hp⟩

theorem deleteFix_ok {p : List (Frame α)} {t : ColorTree α} {n : Nat} (hp : PathOk p .black (n + 1))
    (ht : Short n t) : ∃ m, Ok .black m (deleteFix p t) := by
  induction p generalizing t n with
  | nil =>
    cases hc : t.color with
    | red => exact ⟨_, ht.1 hc⟩
    | black =>
      rw [deleteFix, (ht.2 hc).blacken_black]
      exact ⟨_, ht.2 hc⟩
  | cons f p ih =>
    rw [deleteFix]
    split
    · rename_i hc
      exact hp.fill (ht.1 hc)
    rename_i hc
    have htb : Ok .black n t := by
      refine ht.2 ?_
      cases h : t.color with
      | red => exact absurd h hc
      | black => rfl
    split
    · rename_i hred
      obtain ⟨hx, hp'⟩ := hp.raised hred
      obtain ⟨hl, hr⟩ := deleteRotate_ok hp' hx htb
      cases h : deleteRotate (raiseSibling f).1 t with
      | inl u =>
        obtain ⟨hcolor, m, hp', hu⟩ := hl u h
        rw [raiseSibling_color hred] at hcolor
        exact hp'.fill (hu.1 hcolor)
      | inr u =>
        obtain ⟨m, hp', hu⟩ := hr u h
        exact hp'.fill hu
    · rename_i hblack
      have hs : Ok .black (n + 1) f.sib := by
        obtain ⟨c, hs⟩ := hp.sib
        cases c with
        | red => exact absurd hs.color hblack
        | black => exact hs
      obtain ⟨hl, hr⟩ := deleteRotate_ok hp hs htb
      cases h : deleteRotate f t with
      | inl u =>
        obtain ⟨-, m, hp', hu⟩ := hl u h
        exact ih hp' hu
      | inr u =>
        obtain ⟨m, hp', hu⟩ := hr u h
        exact hp'.fill hu

end RedBlack
