import Mathlib.Data.Int.Order.Basic
import Shs.Core.RbShape

/-!
# Core.RbInsert

`rbtree_insert` puts the node where the comparisons lead, and its loop is the repair of
`Lib.RedBlack`, one iteration for each case.
-/

namespace Shs
namespace RbTree

open RedBlack RedBlack.ColorTree

section Rebalance

variable {m : RbTree} {t : ColorTree Nat} {f g : Frame Nat} {p : List (Frame Nat)}

/-- The node is on the outer side of its grandparent. -/
theorem insertLift_outer (h : Zip m (f :: g :: p) t) (ht : t ≠ nil) (hside : f.side = g.side) :
    ∃ m', insertLift g.side (ptr m.sentinel t) m = some m' ∧
      Zip m' (⟨g.side, .black, f.elem, join g.side .red f.sib g.elem g.sib⟩ :: p) t ∧
      Same m m' := by
  have hg := zip_cons.1 h
  have hpar := h.parent ht
  have hgrand : m.parent f.elem = some g.elem := by
    simpa using hg.parent (join_ne_nil _ _ _ _ _)
  have hfne : f.elem ≠ m.sentinel := h.path.1.ne
  have hgne : g.elem ≠ m.sentinel := hg.path.1.ne
  have h1 := zip_cons.1 (hg.setColor .black)
  have h2 := h1.setColor .red
  rw [hside, ← join_other, ← join_other g.side] at h2
  obtain ⟨m', hm', hz, hsame⟩ := h2.rotate
  refine ⟨m', ?_, ?_, ((same_setColor _ hfne).trans (same_setColor _ hgne)).trans hsame⟩
  · simp [insertLift, hpar, hgrand, hm']
  · rw [join_other, join_other] at hz
    exact zip_cons.2 hz

/-- The sibling of the parent is red: the three nodes above are recolored. -/
theorem recolor (h : Zip m (f :: g :: p) t) (hu : g.sib.color = .red) :
    Zip (((m.setColor f.elem .black).setColor (ptr m.sentinel g.sib) .black).setColor g.elem .red) p
      (join g.side .red (join f.side .black t f.elem f.sib) g.elem g.sib.blacken) := by
  have hne : g.sib ≠ nil := by
    intro hn
    rw [hn] at hu
    cases hu
  have h1 := (zip_cons.1 h).setColor .black
  have h2 := (zip_swap.1 h1).blacken hne
  have h3 := zip_cons.1 (zip_swap.1 h2)
  simp only [Side.other_other] at h3
  exact h3.setColor .red

/-- The loop ends below a black node. -/
theorem insertRebalance_stop (h : Zip m (f :: p) t) (ht : t ≠ nil) (hf : f.color = .black)
    (fuel : Nat) : insertRebalance (fuel + 1) (ptr m.sentinel t) m = some m := by
  have hroot : ptr m.sentinel t ≠ m.root := by
    rw [ne_eq, h.root_iff]
    simp
  simp [insertRebalance, hroot, h.parent ht, h.path.1.color, hf]

/-- The links between the parent, the grandparent and the uncle. -/
theorem grandparent_links (h : Zip m (f :: g :: p) t) :
    m.parent f.elem = some g.elem ∧
      (if m.child g.elem .left = some f.elem then Side.left else .right) = g.side ∧
        m.child g.elem g.side.other = some (ptr m.sentinel g.sib) := by
  have hg := zip_cons.1 h
  have hne := join_ne_nil f.side f.color t f.sib f.elem
  have hside := hg.child_left (.inl hne)
  rw [ptr_join] at hside
  exact ⟨by simpa using hg.parent hne, hside, hg.path.1.childOther⟩

theorem insertRebalance_recolor (h : Zip m (f :: g :: p) t) (hs : m.color m.sentinel = .black)
    (ht : t ≠ nil) (hf : f.color ≠ .black) (hu : g.sib.color = .red) (fuel : Nat) :
    insertRebalance (fuel + 1) (ptr m.sentinel t) m =
      insertRebalance fuel g.elem
        (((m.setColor f.elem .black).setColor (ptr m.sentinel g.sib) .black).setColor
          g.elem .red) := by
  have hroot : ptr m.sentinel t ≠ m.root := by
    rw [ne_eq, h.root_iff]
    simp
  have hg := zip_cons.1 h
  obtain ⟨hgrand, hside, hunc⟩ := grandparent_links h
  have hcol : m.color (ptr m.sentinel g.sib) = .red := (hg.sib_color hs).trans hu
  simp only [insertRebalance, if_neg hroot, h.parent ht, h.path.1.color, if_neg hf, hgrand, hside,
    hunc, hcol, Option.bind_eq_bind, Option.bind_some, if_true]

/-- The black uncle: at most two rotations, and the loop ends. -/
theorem insertRebalance_rotate (h : Zip m (f :: g :: p) t) (hs : m.color m.sentinel = .black)
    (ht : t.color = .red) (hf : f.color = .red) (hu : g.sib.color ≠ .red) (fuel : Nat) :
    ∃ m', insertRebalance (fuel + 2) (ptr m.sentinel t) m = some m' ∧
      Zip m' p (insertRotate f g t) ∧ Same m m' := by
  have htne : t ≠ nil := by
    rintro rfl
    cases ht
  have hroot : ptr m.sentinel t ≠ m.root := by
    rw [ne_eq, h.root_iff]
    simp
  have hg := zip_cons.1 h
  obtain ⟨hgrand, hside, hunc⟩ := grandparent_links h
  have hcol : m.color (ptr m.sentinel g.sib) ≠ .red := by rwa [hg.sib_color hs]
  have hfb : f.color ≠ .black := by simp [hf]
  rw [show fuel + 2 = fuel + 1 + 1 from rfl]
  by_cases hfg : f.side = g.side
  · have htest : m.child f.elem g.side.other ≠ some (ptr m.sentinel t) := by
      rw [← hfg, h.path.1.childOther]
      simpa using h.sib_ne (.inl htne)
    obtain ⟨m', hm', hz, hsame⟩ := insertLift_outer h htne hfg
    have hstop := insertRebalance_stop hz htne rfl fuel
    rw [hsame.sentinel] at hstop
    refine ⟨m', ?_, ?_, hsame⟩
    · rw [insertRebalance]
      simp only [if_neg hroot, h.parent htne, h.path.1.color, if_neg hfb, hgrand,
        hside, hunc, if_neg hcol, if_neg htest, hm', hstop, Option.bind_eq_bind, Option.bind_some]
    · rw [insertRotate_outer hfg]
      exact zip_cons.1 hz
  · have hfo := Side.eq_other hfg
    cases t with
    | nil => exact absurd rfl htne
    | node c l a r =>
      obtain rfl : c = .red := ht
      have htest : m.child f.elem g.side.other = some (ptr m.sentinel (node .red l a r)) := by
        rw [← hfo]
        exact h.path.1.child
      have hinner := hg
      rw [hfo, join_other, node_eq_join g.side .red l r a, hf] at hinner
      obtain ⟨m', hm', hz, hsame⟩ := hinner.rotate
      rw [insertRotate_inner hfg]
      generalize (node .red l a r).child g.side = x at hz ⊢
      generalize (node .red l a r).child g.side.other = y at hz ⊢
      have hne' := join_ne_nil g.side .red f.sib x f.elem
      obtain ⟨m'', hm'', hz', hsame'⟩ := insertLift_outer
        (f := ⟨g.side, .red, a, y⟩) (zip_cons.2 hz) hne' rfl
      have hstop := insertRebalance_stop hz' hne' rfl fuel
      rw [ptr_join] at hm'' hstop
      refine ⟨m'', ?_, zip_cons.1 hz', hsame.trans hsame'⟩
      rw [insertRebalance]
      simp only [if_neg hroot, h.parent htne, h.path.1.color, if_neg hfb, hgrand, hside, hunc,
        if_neg hcol, if_pos htest, hm', hm'', hstop, Option.map_some, Option.bind_eq_bind,
        Option.bind_some]

theorem insertRebalance_spec {n fuel : Nat} (h : Zip m p t) (hs : m.color m.sentinel = .black)
    (hp : PathOk p .black n) (ht : Ok .red n t) (hfuel : p.length < fuel) :
    ∃ m' u, insertRebalance fuel (ptr m.sentinel t) m = some m' ∧ Zip m' [] u ∧
      u.blacken = insertFix p t ∧ Same m m' := by
  have htne : t ≠ nil := by
    rintro rfl
    cases ht
  obtain ⟨fuel, rfl⟩ : ∃ k, fuel = k + 1 := ⟨fuel - 1, by omega⟩
  obtain ⟨k, hk⟩ := insertFix_ok hp ht
  induction p, t using insertFix.induct generalizing m n fuel with
  | case1 t =>
    refine ⟨m, t, ?_, h, rfl, Same.refl m⟩
    simp [insertRebalance, h.root_iff.2 rfl]
  | case2 f t =>
    have hf : f.color = .black := by
      obtain ⟨d, c, a, s⟩ := f
      cases c with
      | red => exact absurd hp.2.2 (by simp [PathOk])
      | black => rfl
    exact ⟨m, _, insertRebalance_stop h htne hf fuel, zip_fill.1 h, hk.blacken_black, Same.refl m⟩
  | case3 f g p t hf =>
    rw [insertFix, if_pos hf] at hk ⊢
    exact ⟨m, _, insertRebalance_stop h htne hf fuel, zip_fill.1 h, hk.blacken_black, Same.refl m⟩
  | case4 f g p t hf hu ih =>
    rw [insertFix, if_neg hf, if_pos hu] at hk ⊢
    obtain ⟨-, hsib, ⟨c, hg⟩, hp'⟩ := hp.grandparent hf
    obtain rfl := hg.color.symm.trans hu
    rw [insertRebalance_recolor h hs htne hf hu]
    have hfne := h.path.1.ne
    have hgne := (zip_cons.1 h).path.1.ne
    have hune : ptr m.sentinel g.sib ≠ m.sentinel := by
      refine Zip.rep_ne (zip_cons.1 h).path.2.1 (ptr_mem ?_)
      rintro hn
      rw [hn] at hu
      cases hu
    have hsame := ((same_setColor .black hfne).trans (same_setColor .black hune)).trans
      (same_setColor .red hgne)
    have hne := join_ne_nil g.side .red (join f.side .black t f.elem f.sib) g.sib.blacken g.elem
    obtain ⟨fuel, rfl⟩ : ∃ j, fuel = j + 1 := ⟨fuel - 1, by simp at hfuel; omega⟩
    obtain ⟨m', u, hm', hz, hu', hsame'⟩ := ih (recolor h hu) (hsame.color.trans hs) hp'
      (ok_join_red (ok_join_black ht hsib) hg.blacken_red) hne fuel
      (by simp at hfuel ⊢; omega) hk
    rw [ptr_join] at hm'
    exact ⟨m', u, hm', hz, hu', hsame.trans hsame'⟩
  | case5 f g p t hf hu =>
    rw [insertFix, if_neg hf, if_neg hu] at hk ⊢
    have hf : f.color = .red := by
      cases h : f.color with
      | red => rfl
      | black => exact absurd h hf
    obtain ⟨fuel, rfl⟩ : ∃ j, fuel = j + 1 := ⟨fuel - 1, by simp at hfuel; omega⟩
    obtain ⟨m', hm', hz, hsame⟩ := insertRebalance_rotate h hs ht.color hf hu fuel
    exact ⟨m', _, hm', zip_fill.1 hz, hk.blacken_black, hsame⟩

end Rebalance

section Insert

variable {m : RbTree} {t : ColorTree Nat} {f : Frame Nat} {p : List (Frame Nat)} {x : Nat}

/-- The lines behind the loop of `rbtree_insert_value`, for the child of `a` on side `d`. -/
def plant (d : Side) (a x : Nat) (m : RbTree) : RbTree :=
  let m := (m.setChild a d (some x)).setParent x (some a)
  ((m.setChild x .left (some m.sentinel)).setChild x .right (some m.sentinel)).setColor x .red

theorem Zip.plant (h : Zip m (f :: p) nil) (hx : x ∉ elems (f :: p)) (hxs : x ≠ m.sentinel) :
    Zip (plant f.side f.elem x m) (f :: p) (node .red nil x nil) ∧
      Same m (plant f.side f.elem x m) := by
  have hfx : f.elem ≠ x := fun he => hx (mem_elems_cons.2 (.inl he.symm))
  have hsx := hxs.symm
  obtain ⟨hpath, -, hnd⟩ := h
  obtain ⟨-, hndp, -⟩ := nodup_fill hnd
  refine ⟨⟨?_, ⟨⟨hxs, ?_, ?_, ?_, ?_⟩, trivial, trivial⟩, ?_⟩, rfl, rfl, ?_, ?_, ?_⟩
  · refine hpath.redirect rfl hndp rfl (fun a ha d => ?_) (fun a ha => ?_) fun a ha => ?_
    · have hax : a ≠ x := ne_of_mem_of_not_mem ha hx
      simp [RbTree.plant, link, ptr, hax, eq_comm]
    · have hax : a ≠ x := ne_of_mem_of_not_mem ha hx
      simp [RbTree.plant, hax]
    · have hax : a ≠ x := ne_of_mem_of_not_mem ha hx
      simp [RbTree.plant, hax]
  · simp [RbTree.plant]
  · simp [RbTree.plant, up]
  · simp [RbTree.plant, ptr]
  · simp [RbTree.plant, ptr, Side.other]
  · rw [(fill_perm ..).nodup_iff]
    exact List.nodup_cons.2 ⟨hx, hndp⟩
  · simp [RbTree.plant]
  · simp [RbTree.plant, hsx]
  · simp [RbTree.plant, hsx]

/-- The comparisons of both insert functions. -/
def goesLeft (m : RbTree) (x a : Nat) : Bool := decide (m.key x < m.key a)

theorem rbtreeInsertValue_spec {fuel : Nat} (h : Zip m p t) (ht : t ≠ nil)
    (hx : x ∉ (fill p t).inorder) (hxs : x ≠ m.sentinel) (hfuel : t.inorder.length ≤ fuel) :
    ∃ m', rbtreeInsertValue fuel (ptr m.sentinel t) x m = some m' ∧
      Zip m' (descend (goesLeft m x) t p) (node .red nil x nil) ∧ Same m m' := by
  induction t generalizing p fuel with
  | nil => exact absurd rfl ht
  | node c l a r ihl ihr =>
    obtain ⟨fuel, rfl⟩ : ∃ k, fuel = k + 1 := by
      refine ⟨fuel - 1, ?_⟩
      simp [inorder] at hfuel
      omega
    -- one comparison: the subtree on side `d`, below the frame `f`
    have hgo (d : Side) (u v : ColorTree Nat) (hj : node c l a r = join d c u a v)
        (hd : (if m.key x < m.key a then Side.left else .right) = d)
        (ih : ∀ {p : List (Frame Nat)} {fuel : Nat}, Zip m p u → u ≠ nil →
          x ∉ (fill p u).inorder → u.inorder.length ≤ fuel →
          ∃ m', rbtreeInsertValue fuel (ptr m.sentinel u) x m = some m' ∧
            Zip m' (descend (goesLeft m x) u p) (node .red nil x nil) ∧ Same m m') :
        ∃ m', rbtreeInsertValue (fuel + 1) (ptr m.sentinel (node c l a r)) x m = some m' ∧
          Zip m' (descend (goesLeft m x) u (⟨d, c, a, v⟩ :: p)) (node .red nil x nil) ∧
          Same m m' := by
      rw [hj] at h hx hfuel ⊢
      have hz : Zip m (⟨d, c, a, v⟩ :: p) u := zip_cons.2 h
      have hchild : m.child a d = some (ptr m.sentinel u) := hz.path.1.child
      by_cases hu : u = nil
      · subst hu
        have hxe : x ∉ elems (⟨d, c, a, v⟩ :: p) := by
          intro hm
          exact hx ((fill_perm (⟨d, c, a, v⟩ :: p) nil).mem_iff.2 (List.mem_append_right _ hm))
        obtain ⟨hz', hsame⟩ := hz.plant hxe hxs
        refine ⟨_, ?_, hz', hsame⟩
        rw [ptr_join, rbtreeInsertValue, hd, hchild]
        simp [ptr, RbTree.plant]
      · have hne : ptr m.sentinel u ≠ m.sentinel := Zip.rep_ne hz.tree (ptr_mem hu)
        have hlen : u.inorder.length ≤ fuel := by
          have hp := (join_perm d c u v a).length_eq
          simp only [List.length_cons, List.length_append] at hp
          omega
        obtain ⟨m', hm', hz', hsame⟩ := ih hz hu hx hlen
        refine ⟨m', ?_, hz', hsame⟩
        simp [rbtreeInsertValue, hd, hchild, hne, hm']
    rw [descend]
    by_cases hlt : m.key x < m.key a
    · rw [if_pos (by simpa [goesLeft] using hlt)]
      exact hgo .left l r rfl (if_pos hlt) ihl
    · rw [if_neg (by simpa [goesLeft] using hlt)]
      exact hgo .right r l rfl (if_neg hlt) ihr

/-- The memory holds a red-black tree: balanced, with a black root, and in the order of the keys. -/
structure Holds (m : RbTree) (t : ColorTree Nat) : Prop where
  zip : Zip m [] t
  ok : ∃ n, Ok .black n t
  sorted : t.inorder.Pairwise fun a b => m.key a ≤ m.key b
  nil : m.color m.sentinel = .black

theorem length_le_elems (p : List (Frame Nat)) : p.length ≤ (elems p).length := by
  induction p with
  | nil => simp
  | cons f p ih =>
    rw [(elems_cons_perm f p).length_eq, List.length_cons, List.length_cons, List.length_append]
    omega

theorem rbtreeInsert_spec {fuel : Nat} (h : Holds m t) (hx : x ∉ t.inorder)
    (hxs : x ≠ m.sentinel) (hfuel : t.inorder.length < fuel) :
    ∃ m' t', rbtreeInsert fuel x m = some m' ∧ Holds m' t' ∧
      t'.inorder.Perm (x :: t.inorder) ∧ Same m m' := by
  obtain ⟨hz, ⟨n, hok⟩, hsorted, hs⟩ := h
  have hsx := hxs.symm
  by_cases ht : t = nil
  · subst ht
    have hroot : m.root = m.sentinel := hz.path
    have heq : rbtreeInsert fuel x m = some ((((m.setParent x none).setChild x .left
        (some m.sentinel)).setChild x .right (some m.sentinel)).setColor x .black |>.setRoot x) := by
      simp [rbtreeInsert, hroot]
    refine ⟨_, node .black nil x nil, heq, ⟨⟨?_, ⟨⟨hxs, ?_, ?_, ?_, ?_⟩, trivial, trivial⟩, ?_⟩,
      ⟨_, .black .nil .nil⟩, by simp [inorder], ?_⟩, by simp [inorder], rfl, rfl, ?_, ?_, ?_⟩
    · exact root_setRoot ..
    · simp
    · simp [up]
    · simp [ptr]
    · simp [ptr, Side.other]
    · simp [fill, inorder]
    · simp [hsx, hs]
    · simp
    · simp [hsx]
    · simp [hsx]
  · have hne : ptr m.sentinel t ≠ m.sentinel := Zip.rep_ne hz.tree (ptr_mem ht)
    have hroot : m.root = ptr m.sentinel t := hz.path
    obtain ⟨m₁, hm₁, hz₁, hsame₁⟩ := rbtreeInsertValue_spec hz ht hx hxs
      (Nat.le_of_lt hfuel)
    have hpok := descend_ok (goesLeft m x) hok (p := []) rfl
    generalize hd : descend (goesLeft m x) t [] = p at hz₁ hpok
    have hfill : fill p nil = t := by
      rw [← hd, fill_descend]
      rfl
    have hlen : p.length < fuel := by
      have h1 := length_le_elems p
      have h2 := (fill_perm p nil).length_eq
      rw [hfill] at h2
      simp only [inorder, List.nil_append] at h2
      omega
    obtain ⟨m₂, u, hm₂, hz₂, hu, hsame₂⟩ := insertRebalance_spec hz₁ (hsame₁.nil.trans hs) hpok
      (.red .nil .nil) hlen
    obtain ⟨k, hk⟩ := insertFix_ok hpok (.red .nil .nil (a := x))
    have hin : u.inorder = before p ++ x :: after p := by
      rw [← inorder_blacken, hu, insertFix_inorder, inorder_fill]
      simp [inorder]
    have hune : u ≠ RedBlack.ColorTree.nil := by
      rintro rfl
      simp [inorder] at hin
    have hsame := hsame₁.trans hsame₂
    have hroot₂ : m₂.root = ptr m₂.sentinel u := hz₂.path
    have hrne : m₂.root ≠ m₂.sentinel := hroot₂ ▸ Zip.rep_ne hz₂.tree (ptr_mem hune)
    have hsame' := hsame.trans (same_setColor .black hrne)
    have hold : before p ++ after p = t.inorder := by
      rw [← hfill, inorder_fill]
      simp [inorder]
    refine ⟨m₂.setColor m₂.root .black, u.blacken, ?_, ⟨?_, ⟨k, hu ▸ hk⟩, ?_, ?_⟩, ?_, hsame'⟩
    · rw [ptr] at hm₂
      have hrs : m.root ≠ m.sentinel := hroot ▸ hne
      rw [rbtreeInsert, if_neg hrs]
      cases hi : m.insert <;>
        simp [rbtreeInsertTimerValue, hroot, hm₁, hm₂]
    · rw [hroot₂]
      exact hz₂.blacken hune
    · obtain ⟨hb, ha⟩ := descend_sorted m.key (x := m.key x) (t := t) (p := [])
        (by simpa [fill] using hsorted) (by simp [before]) (by simp [after])
      rw [show (fun a => decide (m.key x < m.key a)) = goesLeft m x from rfl, hd] at hb ha
      rw [inorder_blacken, hin]
      simp only [hsame'.key]
      rw [← hold, List.pairwise_append] at hsorted
      rw [List.pairwise_append, List.pairwise_cons]
      refine ⟨hsorted.1, ⟨ha, hsorted.2.1⟩, fun a ha' b hb' => ?_⟩
      rcases List.mem_cons.1 hb' with rfl | hb'
      · exact hb a ha'
      · exact hsorted.2.2 a ha' b hb'
    · rw [hsame'.nil, hs]
    · rw [inorder_blacken, hin, ← hold]
      exact List.perm_middle

end Insert

end RbTree
end Shs
