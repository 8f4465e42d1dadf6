import Shs.Core.RbInsert

/-!
# Core.RbDelete

`rbtree_delete` takes the node, or its successor, out of the tree and repairs the heights as
`Lib.RedBlack` does. The place that lacks a black node may be the sentinel; then its parent link
leads back into the tree (`Focus`).
-/

namespace Shs
namespace RbTree

open RedBlack RedBlack.ColorTree

/-- The parent link of the place leads to the path, also from the sentinel. -/
def Focus (m : RbTree) (p : List (Frame Nat)) (t : ColorTree Nat) : Prop :=
  ∀ b ∈ up p, m.parent (ptr m.sentinel t) = some b

section Repair

variable {m m' : RbTree} {t x y : ColorTree Nat} {f f' : Frame Nat} {p p' : List (Frame Nat)} {a b : Nat}
  {c c' : Color} {d : Side}

theorem Zip.focus (h : Zip m p t) (ht : t ≠ nil) : Focus m p t := by
  cases t with
  | nil => exact absurd rfl ht
  | node c l a r => exact h.tree.1.parent

theorem Focus.same (h : Focus m (f :: p) t) (hz : Zip m' (f' :: p') t) (hf : f'.elem = f.elem)
    (hsame : Same m m') : Focus m' (f' :: p') t := by
  by_cases ht : t = nil
  · subst ht
    intro b hb
    obtain rfl : f'.elem = b := by simpa [up] using hb
    have hp := h f.elem rfl
    rw [ptr] at hp ⊢
    rw [hsame.sentinel, hsame.parent, hp, hf]
  · exact hz.focus ht

theorem sibling_spec (h : Zip m (f :: p) t) (hf : Focus m (f :: p) t) :
    sibling f.side (ptr m.sentinel t) m = some (ptr m.sentinel f.sib) := by
  rw [sibling, hf f.elem rfl]
  exact h.path.1.childOther

/-- The node of the frame and its sibling get new colors. -/
theorem Zip.setFrameColor (h : Zip m (⟨d, c, a, x⟩ :: p) t) (c' : Color) :
    Zip (m.setColor a c') (⟨d, c', a, x⟩ :: p) t :=
  zip_cons.2 ((zip_cons.1 h).setColor c')

theorem Zip.setSibColor (h : Zip m (⟨d, c, a, join d c' x b y⟩ :: p) t) (c'' : Color) :
    Zip (m.setColor b c'') (⟨d, c, a, join d c'' x b y⟩ :: p) t := by
  have h1 := (zip_swap.1 h).setColor c''
  have h2 := zip_swap.1 h1
  simpa using h2

theorem Zip.sib_elem_ne (h : Zip m (⟨d, c, a, join d c' x b y⟩ :: p) t) : b ≠ m.sentinel :=
  (rep_join.1 (zip_swap.1 h).tree).1.ne

theorem deleteRaise_spec (h : Zip m (⟨d, c, a, join d .red x b y⟩ :: p) t)
    (hf : Focus m (⟨d, c, a, join d .red x b y⟩ :: p) t) :
    ∃ m', deleteRaise d (ptr m.sentinel t) a b m = some (ptr m'.sentinel x, m') ∧
      Zip m' (⟨d, .red, a, x⟩ :: ⟨d, .black, b, y⟩ :: p) t ∧ Same m m' := by
  have hcol : m.color b = .red := (rep_join.1 (zip_swap.1 h).tree).1.color
  have h1 := zip_cons.1 ((h.setSibColor .black).setFrameColor .red)
  obtain ⟨m', hm', hz, hsame⟩ := h1.rotate
  have hz' := zip_frame.2 (zip_frame.2 hz)
  have hsame' := ((same_setColor .black h.sib_elem_ne).trans
    (same_setColor .red h.path.1.ne)).trans hsame
  refine ⟨m', ?_, hz', hsame'⟩
  have hw := sibling_spec hz' (hf.same hz' rfl hsame')
  rw [hsame'.sentinel] at hw
  simp only [deleteRaise, hcol, if_true, hm', hw, Option.bind_eq_bind, Option.bind_some,
    hsame'.sentinel]

/-- The end of the last branch: the far child of the sibling is not the sentinel. -/
theorem turn (h : Zip m (⟨d, c, a, join d c' x b y⟩ :: p) t) (hy : y ≠ nil) :
    ∃ m', rbtreeRotate d a (((m.setColor b c).setColor a .black).setColor
        (ptr m.sentinel y) .black) = some m' ∧
      Zip m' p (join d c (join d .black t a x) b y.blacken) ∧ Same m m' := by
  have h1 := (h.setSibColor c).setFrameColor .black
  -- the far child as a place of its own
  have h2 := zip_sib.1 h1
  rw [← join_other] at h2
  have h3 := zip_frame.1 ((zip_frame.2 h2).blacken hy)
  rw [join_other] at h3
  have h4 := zip_sib.1 h3
  rw [Side.other_other] at h4
  have h5 := zip_frame.1 h4
  obtain ⟨m', hm', hz, hsame⟩ := h5.rotate
  refine ⟨m', hm', hz, ?_⟩
  have hyne : ptr m.sentinel y ≠ m.sentinel :=
    Zip.rep_ne (rep_join.1 (zip_swap.1 h).tree).2.2 (ptr_mem hy)
  exact (((same_setColor c h.sib_elem_ne).trans (same_setColor .black h.path.1.ne)).trans
    (same_setColor .black hyne)).trans hsame

theorem rep_color {q : Option Nat} (h : Rep m t q) (hs : m.color m.sentinel = .black) :
    m.color (ptr m.sentinel t) = t.color := by
  cases t with
  | nil => exact hs
  | node c l a r => exact h.1.color

/-- The near child of the sibling is red: it becomes the sibling. -/
theorem turn_near {e : Nat} {x' : ColorTree Nat}
    (h : Zip m (⟨d, c, a, join d c' (join d .red x e x') b y⟩ :: p) t)
    (hf : Focus m (⟨d, c, a, join d c' (join d .red x e x') b y⟩ :: p) t) :
    ∃ m', rbtreeRotate d.other b ((m.setColor e .black).setColor b .red) = some m' ∧
      sibling d (ptr m.sentinel t) m' = some e ∧
      Zip m' (⟨d, c, a, join d .black x e (join d .red x' b y)⟩ :: p) t ∧ Same m m' := by
  have h1 := zip_frame.1 ((zip_frame.2 (zip_sib.1 h)).setColor .black)
  have h2 := h1.setColor .red
  rw [← join_other, ← join_other d] at h2
  obtain ⟨m', hm', hz, hsame⟩ := h2.rotate
  rw [join_other, join_other] at hz
  have hz' := zip_sib.2 hz
  have hene : e ≠ m.sentinel :=
    (rep_join.1 (rep_join.1 (zip_sib.1 h).tree).2.1).1.ne
  have hsame' := ((same_setColor .black hene).trans
    (same_setColor .red h.sib_elem_ne)).trans hsame
  refine ⟨m', hm', ?_, hz', hsame'⟩
  have hw := sibling_spec hz' (hf.same hz' rfl hsame')
  rwa [hsame'.sentinel, ptr_join] at hw

theorem deleteTurn_spec (h : Zip m (⟨d, c, a, join d .black x b y⟩ :: p) t)
    (hf : Focus m (⟨d, c, a, join d .black x b y⟩ :: p) t) (hs : m.color m.sentinel = .black)
    (hxy : ¬ (x.color = .black ∧ y.color = .black)) :
    ∃ m' u, deleteTurn d (ptr m.sentinel t) b (ptr m.sentinel x) (ptr m.sentinel y) m = some m' ∧
      deleteRotate ⟨d, c, a, join d .black x b y⟩ t = .inr u ∧ Zip m' p u ∧ Same m m' := by
  obtain ⟨-, hx, hy⟩ := rep_join.1 (zip_sib.1 h).tree
  have hxc := rep_color hx hs
  have hyc := rep_color hy hs
  rw [deleteRotate_join, if_neg hxy]
  by_cases hyb : y.color = .black
  · cases x with
    | nil => exact absurd ⟨rfl, hyb⟩ hxy
    | node cx l e r =>
      obtain rfl : cx = .red := by
        cases cx with
        | red => rfl
        | black => exact absurd ⟨rfl, hyb⟩ hxy
      rw [node_eq_join d .red l r e] at h hf
      obtain ⟨m₁, hm₁, hw, hz₁, hsame₁⟩ := turn_near h hf
      obtain ⟨m₂, hm₂, hz₂, hsame₂⟩ := turn hz₁ (join_ne_nil _ _ _ _ _)
      have hpar : m₁.parent (ptr m.sentinel t) = some a := by
        have hfoc := hf.same hz₁ rfl hsame₁ a rfl
        rwa [hsame₁.sentinel] at hfoc
      have hfar : m₁.child e d.other = some b := by
        have hat := (rep_join.1 (zip_sib.1 hz₁).tree).1.childOther
        rwa [ptr_join] at hat
      rw [ptr_join] at hm₂
      rw [if_pos hyb]
      rw [blacken_join] at hz₂
      refine ⟨m₂, _, ?_, rfl, hz₂, hsame₁.trans hsame₂⟩
      have hptr : ptr m.sentinel (node .red l e r) = e := rfl
      simp only [deleteTurn, hyc, hyb, if_true, hptr, hm₁, hw, hpar, hz₁.path.1.color,
        child_setColor, hfar, hm₂, Option.bind_eq_bind, Option.bind_some]
  · have hyne : y ≠ nil := by
      rintro rfl
      exact hyb rfl
    obtain ⟨m₂, hm₂, hz₂, hsame₂⟩ := turn h hyne
    have hpar : m.parent (ptr m.sentinel t) = some a := hf a rfl
    have hfar : m.child b d.other = some (ptr m.sentinel y) :=
      (rep_join.1 (zip_sib.1 h).tree).1.childOther
    rw [if_neg hyb]
    refine ⟨m₂, _, ?_, rfl, hz₂, hsame₂⟩
    have hyc' : m.color (ptr m.sentinel y) ≠ .black := by rwa [hyc]
    simp only [deleteTurn, if_neg hyc', hpar, h.path.1.color, child_setColor, hfar, hm₂,
      Option.bind_eq_bind, Option.bind_some]

/-- One iteration with a black sibling is `deleteRotate`. -/
theorem deleteBalance_spec (h : Zip m (⟨d, c, a, join d .black x b y⟩ :: p) t)
    (hf : Focus m (⟨d, c, a, join d .black x b y⟩ :: p) t) (hs : m.color m.sentinel = .black) :
    ∃ temp m' u, deleteBalance d (ptr m.sentinel t) b m = some (temp, m') ∧ Zip m' p u ∧
      Same m m' ∧
      (deleteRotate ⟨d, c, a, join d .black x b y⟩ t = .inl u ∧ temp = ptr m'.sentinel u ∧
          u ≠ nil ∨
        deleteRotate ⟨d, c, a, join d .black x b y⟩ t = .inr u ∧ temp = m'.root) := by
  obtain ⟨hat, hx, hy⟩ := rep_join.1 (zip_sib.1 h).tree
  have hnear : m.child b d = some (ptr m.sentinel x) := by
    have hc := hat.side.childOther
    have hat' := hat.child
    exact hat'
  have hfar : m.child b d.other = some (ptr m.sentinel y) := hat.childOther
  have hxc := rep_color hx hs
  have hyc := rep_color hy hs
  by_cases hxy : x.color = .black ∧ y.color = .black
  · have hz := zip_frame.1 (h.setSibColor .red)
    refine ⟨a, _, _, ?_, hz, same_setColor .red h.sib_elem_ne, .inl ⟨?_, by simp,
      join_ne_nil _ _ _ _ _⟩⟩
    · have hpar : m.parent (ptr m.sentinel t) = some a := hf a rfl
      simp [deleteBalance, hnear, hfar, hxc, hyc, hxy, hpar]
    · rw [deleteRotate_join, if_pos hxy]
  · obtain ⟨m', u, hm', hu, hz, hsame⟩ := deleteTurn_spec h hf hs hxy
    refine ⟨m'.root, m', u, ?_, hz, hsame, .inr ⟨hu, rfl⟩⟩
    have hxy' : ¬ (m.color (ptr m.sentinel x) = .black ∧ m.color (ptr m.sentinel y) = .black) := by
      rwa [hxc, hyc]
    simp only [deleteBalance, hnear, hfar, if_neg hxy', hm', Option.bind_eq_bind,
      Option.bind_some]

theorem same_black (hs : m.color m.sentinel = .black) (a : Nat) :
    Same m (m.setColor a .black) := by
  refine ⟨rfl, rfl, fun b => key_setColor .., ?_, parent_setColor ..⟩
  rw [color_setColor]
  split
  · exact hs.symm
  · rfl

/-- The loop ends at the root, and above a complete tree. -/
theorem deleteRebalance_root (h : Zip m p t) (hs : m.color m.sentinel = .black) {k : Nat}
    (hk : Ok .black k (fill p t)) (fuel : Nat) :
    ∃ m', deleteRebalance (fuel + 1) m.root m = some m' ∧ Zip m' [] (fill p t) ∧ Same m m' := by
  refine ⟨m.setColor m.root .black, by simp [deleteRebalance], ?_, same_black hs _⟩
  have hz := zip_fill.1 h
  rw [show m.root = ptr m.sentinel (fill p t) from hz.path]
  by_cases hne : fill p t = nil
  · rw [hne] at hz ⊢
    exact ⟨hz.path, trivial, hz.nodup⟩
  · have hb := hz.blacken hne
    rwa [hk.blacken_black] at hb

/-- The loop ends at a red node, which is made black. -/
theorem deleteRebalance_red (h : Zip m p t) (hs : m.color m.sentinel = .black)
    (ht : t.color = .red) (fuel : Nat) :
    ∃ m', deleteRebalance (fuel + 1) (ptr m.sentinel t) m = some m' ∧
      Zip m' [] (fill p t.blacken) ∧ Same m m' := by
  have hne : t ≠ nil := by
    rintro rfl
    cases ht
  refine ⟨_, ?_, zip_fill.1 (h.blacken hne), same_black hs _⟩
  simp [deleteRebalance, h.color hs, ht]

/-- One iteration of the loop, behind the test of its condition. -/
theorem deleteRebalance_step (h : Zip m (f :: p) t) (hf : Focus m (f :: p) t)
    (hs : m.color m.sentinel = .black) (ht : t.color = .black) (hsib : f.sib ≠ nil)
    {m₁ m₂ : RbTree} {w temp : Nat}
    (h1 : deleteRaise f.side (ptr m.sentinel t) f.elem (ptr m.sentinel f.sib) m = some (w, m₁))
    (h2 : deleteBalance f.side (ptr m.sentinel t) w m₁ = some (temp, m₂)) (fuel : Nat) :
    deleteRebalance (fuel + 1) (ptr m.sentinel t) m = deleteRebalance fuel temp m₂ := by
  have hroot : ptr m.sentinel t ≠ m.root := by
    rw [ne_eq, h.root_iff]
    simp
  have hcol : m.color (ptr m.sentinel t) ≠ .red := by simp [h.color hs, ht]
  have hstop : ¬ (ptr m.sentinel t = m.root ∨ m.color (ptr m.sentinel t) = .red) := by
    rintro (h | h)
    · exact hroot h
    · exact hcol h
  have hpar : m.parent (ptr m.sentinel t) = some f.elem := hf f.elem rfl
  rw [deleteRebalance, if_neg hstop]
  simp only [hpar, h.child_left (.inr hsib), sibling_spec h hf, h1, h2, Option.bind_eq_bind,
    Option.bind_some]

/-- The loop repairs the heights as `deleteFix` does. -/
theorem deleteRebalance_spec {n fuel : Nat} (h : Zip m p t) (hf : Focus m p t)
    (hs : m.color m.sentinel = .black) (hp : PathOk p .black (n + 1)) (ht : Short n t)
    (hfuel : p.length + 2 ≤ fuel) :
    ∃ m', deleteRebalance fuel (ptr m.sentinel t) m = some m' ∧ Zip m' [] (deleteFix p t) ∧
      Same m m' := by
  induction p generalizing m t n fuel with
  | nil =>
    obtain ⟨fuel, rfl⟩ : ∃ k, fuel = k + 1 := ⟨fuel - 1, by omega⟩
    have hroot : ptr m.sentinel t = m.root := h.root_iff.2 rfl
    refine ⟨m.setColor (ptr m.sentinel t) .black, by simp [deleteRebalance, hroot], ?_,
      same_black hs _⟩
    by_cases hne : t = nil
    · subst hne
      exact ⟨h.path, trivial, h.nodup⟩
    · exact h.blacken hne
  | cons f p ih =>
    obtain ⟨fuel, rfl⟩ : ∃ k, fuel = k + 2 := ⟨fuel - 2, by omega⟩
    rw [deleteFix]
    by_cases hred : t.color = .red
    · rw [if_pos hred]
      exact deleteRebalance_red h hs hred _
    have htb : t.color = .black := by
      cases hc : t.color with
      | red => exact absurd hc hred
      | black => rfl
    rw [if_neg hred]
    obtain ⟨cs, hsib⟩ := hp.sib
    have hsibne : f.sib ≠ nil := by
      intro hn
      rw [hn] at hsib
      cases hsib
    by_cases hw : f.sib.color = .red
    · rw [if_pos hw]
      obtain ⟨hx, hp₁⟩ := hp.raised hw
      obtain ⟨hl, hr⟩ := deleteRotate_ok hp₁ hx (ht.2 htb)
      have hcolor := raiseSibling_color hw
      obtain ⟨d, c, a, s⟩ := f
      cases s with
      | nil => exact absurd rfl hsibne
      | node c' l b r =>
        obtain rfl : c' = .red := hw
        rw [node_eq_join d .red l r b] at h hf hx hp₁ hl hr hcolor ⊢
        generalize (node .red l b r).child d = x at h hf hx hp₁ hl hr hcolor ⊢
        generalize (node .red l b r).child d.other = y at h hf hx hp₁ hl hr hcolor ⊢
        rw [raiseSibling_join] at hx hp₁ hl hr hcolor ⊢
        obtain ⟨m₁, hm₁, hz₁, hsame₁⟩ := deleteRaise_spec h hf
        have hf₁ := hf.same hz₁ rfl hsame₁
        cases hx with
        | @black c₁ c₂ _ xl xr e hxl hxr =>
          have hm₁' : deleteRaise d (ptr m.sentinel t) a
              (ptr m.sentinel (join d .red (node .black xl e xr) b y)) m = some (e, m₁) := by
            rw [ptr_join, hm₁]
            rfl
          rw [node_eq_join d .black xl xr e] at hz₁ hf₁ hl hr ⊢
          obtain ⟨temp, m', u, hm', hz, hsame, hu⟩ :=
            deleteBalance_spec hz₁ hf₁ (hsame₁.nil.trans hs)
          rw [hsame₁.sentinel] at hm'
          rw [deleteRebalance_step h hf hs htb (join_ne_nil d .red (node .black xl e xr) y b) hm₁' hm']
          rcases hu with ⟨hu, rfl, hune⟩ | ⟨hu, rfl⟩
          · obtain ⟨huc, k, hp', hu'⟩ := hl u hu
            obtain ⟨m'', hm'', hz', hsame'⟩ :=
              deleteRebalance_red hz ((hsame₁.trans hsame).nil.trans hs) (huc.trans hcolor) fuel
            simp only [hu]
            exact ⟨m'', hm'', hz', (hsame₁.trans hsame).trans hsame'⟩
          · obtain ⟨k, hp', hu'⟩ := hr u hu
            obtain ⟨j, hj⟩ := hp'.fill hu'
            obtain ⟨m'', hm'', hz', hsame'⟩ :=
              deleteRebalance_root hz ((hsame₁.trans hsame).nil.trans hs) hj fuel
            simp only [hu]
            exact ⟨m'', hm'', hz', (hsame₁.trans hsame).trans hsame'⟩
    · rw [if_neg hw]
      obtain ⟨d, c, a, s⟩ := f
      cases s with
      | nil => exact absurd rfl hsibne
      | node c' l b r =>
        obtain rfl : c' = .black := by
          cases c' with
          | red => exact absurd rfl hw
          | black => rfl
        rw [node_eq_join d .black l r b] at h hf hp hsib ⊢
        generalize (node .black l b r).child d = x at h hf hp hsib ⊢
        generalize (node .black l b r).child d.other = y at h hf hp hsib ⊢
        obtain rfl : cs = .black := by simpa using hsib.color.symm
        have hcb : m.color b ≠ .red := by
          simp [(rep_join.1 (zip_sib.1 h).tree).1.color]
        obtain ⟨temp, m', u, hm', hz, hsame, hu⟩ := deleteBalance_spec h hf hs
        have h1 : deleteRaise d (ptr m.sentinel t) a (ptr m.sentinel (join d .black x b y)) m =
            some (b, m) := by simp [deleteRaise, hcb]
        rw [deleteRebalance_step h hf hs htb (join_ne_nil d .black x y b) h1 hm']
        obtain ⟨hl, hr⟩ := deleteRotate_ok hp hsib (ht.2 htb)
        rcases hu with ⟨hu, rfl, hune⟩ | ⟨hu, rfl⟩
        · rw [hu]
          obtain ⟨-, k, hp', hu'⟩ := hl u hu
          obtain ⟨m'', hm'', hz', hsame'⟩ := ih hz (hz.focus hune) (hsame.nil.trans hs) hp' hu'
            (show _ ≤ fuel + 1 by simp at hfuel; omega)
          exact ⟨m'', hm'', hz', hsame.trans hsame'⟩
        · rw [hu]
          obtain ⟨k, hp', hu'⟩ := hr u hu
          obtain ⟨j, hj⟩ := hp'.fill hu'
          obtain ⟨m'', hm'', hz', hsame'⟩ :=
            deleteRebalance_root hz (hsame.nil.trans hs) hj fuel
          exact ⟨m'', hm'', hz', hsame.trans hsame'⟩

end Repair

section Unlink

variable {m m' : RbTree} {l r t u : ColorTree Nat} {f : Frame Nat} {p q : List (Frame Nat)} {a b : Nat}
  {c c' : Color} {d : Side}

/-- Without the node at the place of a path. -/
theorem inorder_unlink (p : List (Frame Nat)) (d : Side) (c : Color) (a : Nat) (u : ColorTree Nat) :
    ∃ xs ys, (fill p (join d c nil a u)).inorder = xs ++ a :: ys ∧
      (fill p u).inorder = xs ++ ys := by
  rw [inorder_fill, inorder_fill]
  cases d with
  | left => exact ⟨before p, u.inorder ++ after p, by simp [join, inorder], by simp⟩
  | right => exact ⟨before p ++ u.inorder, after p, by simp [join, inorder], by simp⟩

/-- The only child of a node takes its place. -/
theorem Zip.unlink (h : Zip m (f :: p) (join d c nil a u)) :
    Zip ((m.setChild f.elem f.side (some (ptr m.sentinel u))).setParent (ptr m.sentinel u)
      (some f.elem)) (f :: p) u := by
  obtain ⟨hpath, htree, hnd⟩ := h
  obtain ⟨-, -, hu⟩ := rep_join.1 htree
  obtain ⟨xs, ys, hold, hnew⟩ := inorder_unlink (f :: p) d c a u
  have hnd' : (fill (f :: p) u).inorder.Nodup := by
    rw [hold] at hnd
    rw [hnew]
    exact hnd.sublist (List.Sublist.append_left (List.sublist_cons_self a ys) xs)
  obtain ⟨hndu, hndp, hout⟩ := nodup_fill hnd'
  have hne {x : Nat} (hx : x ∈ elems (f :: p)) : x ≠ ptr m.sentinel u := by
    rintro rfl
    cases u with
    | nil => exact Zip.path_ne hpath hx rfl
    | node c l b r => exact hout b (by simp [inorder]) hx
  have hfe : f.elem ∈ elems (f :: p) := mem_elems_cons.2 (.inl rfl)
  refine ⟨?_, ?_, hnd'⟩
  · refine hpath.redirect rfl hndp rfl (fun x hx e => ?_) (fun x hx => by simp) fun x hx => ?_
    · simp [link, eq_comm]
    · simp [hne hx]
  · refine hu.reparent rfl hndu (fun x hx e => ?_) (fun x hx => by simp) (fun x hx hxr => ?_)
      fun hune b hb => ?_
    · have hxf : x ≠ f.elem := by
        rintro rfl
        exact hout _ hx hfe
      simp [hxf]
    · simp [hxr]
    · simpa [up] using hb

theorem rep_weaken {q : Option Nat} (h : Rep m t q) : Rep m t none := by
  cases t with
  | nil => trivial
  | node c l a r =>
    obtain ⟨⟨hne, hc, -, h1, h2⟩, hl, hr⟩ := h
    exact ⟨⟨hne, hc, by simp, h1, h2⟩, hl, hr⟩

/-- The fields of a node that is in no tree do not matter. -/
theorem Zip.forget (h : Zip m p t) (ha : a ∉ (fill p t).inorder) :
    Zip (Shs.forget a m) p t := by
  obtain ⟨hpath, htree, hnd⟩ := h
  have hmem := (fill_perm p t).mem_iff (a := a)
  rw [List.mem_append] at hmem
  have hag (xs : List Nat) (hxs : a ∉ xs) : Agree m (Shs.forget a m) xs := by
    refine ⟨fun x hx e => ?_, fun x hx => ?_, fun x hx => ?_⟩ <;>
      have hxa : x ≠ a := ne_of_mem_of_not_mem hx hxs <;> simp [Shs.forget, hxa]
  exact ⟨hpath.congr rfl rfl (hag _ fun hm => ha (hmem.2 (.inr hm))),
    htree.congr rfl (hag _ fun hm => ha (hmem.2 (.inl hm))), hnd⟩

theorem nodup_node (h : (fill p (node c l a r)).inorder.Nodup) :
    l.inorder.Nodup ∧ r.inorder.Nodup ∧ a ∉ l.inorder ∧ a ∉ r.inorder ∧
      ∀ x ∈ l.inorder, x ∉ r.inorder := by
  have h := (nodup_fill h).1
  rw [inorder, List.nodup_append', List.nodup_cons] at h
  obtain ⟨hl, ⟨har, hr⟩, hdis⟩ := h
  exact ⟨hl, hr, fun ha => hdis ha (by simp), har, fun x hx hxr => hdis hx (by simp [hxr])⟩

/-- The node `b`, which is in no tree, takes the place of `a`. -/
theorem replaceNode_spec (hpath : RepPath m p a)
    (hat : At m .left c a (ptr m.sentinel l) (ptr m.sentinel r) (up p)) (hl : Rep m l none)
    (hr : Rep m r none) (hnd : (fill p (node c l a r)).inorder.Nodup)
    (hb : b ∉ (fill p (node c l a r)).inorder) (hbs : b ≠ m.sentinel) :
    ∃ m', replaceNode a b m = some m' ∧ Zip m' p (node c l b r) ∧ Same m m' := by
  have hmem := (fill_perm p (node c l a r)).mem_iff (a := b)
  rw [List.mem_append, inorder, List.mem_append, List.mem_cons] at hmem
  have hbp : b ∉ elems p := fun hx => hb (hmem.2 (.inr hx))
  have hbl : b ∉ l.inorder := fun hx => hb (hmem.2 (.inl (.inl hx)))
  have hbr : b ∉ r.inorder := fun hx => hb (hmem.2 (.inl (.inr (.inr hx))))
  have hab : a ≠ b := fun hx => hb (hmem.2 (.inl (.inr (.inl hx.symm))))
  obtain ⟨-, hndp, hout⟩ := nodup_fill hnd
  obtain ⟨hndl, hndr, hal, har, hlr⟩ := nodup_node hnd
  have hap : a ∉ elems p := hout a (by simp [inorder])
  have hsb := hbs.symm
  -- the fields of `a` are copied
  let m₁ := (((m.setChild b .left (m.child a .left)).setChild b .right (m.child a .right)).setParent
    b (m.parent a)).setColor b (m.color a)
  have hag : Agree m m₁ (elems p) := by
    refine ⟨fun x hx e => ?_, fun x hx => ?_, fun x hx => ?_⟩ <;>
      have hxb : x ≠ b := ne_of_mem_of_not_mem hx hbp <;> simp [m₁, hxb]
  have hled : LedBy m₁ a (link p) :=
    (show RepPath m₁ _ _ from hpath.congr rfl rfl hag).ledBy hap hat.ne fun g hg => by
      simpa [m₁, hab] using hat.parent g hg
  obtain ⟨m₂, hm₂, hroot, hchild, hparent, hcolor, hkey, hsent, hins⟩ :=
    relink_spec (b := b) (d := .left) hled
  have hlink (e : Side) : link p ≠ some (b, e) := fun hl => hbp (Zip.link_mem hl)
  have hlc : m₂.child b .left = some (ptr m.sentinel l) := by
    simp [hchild, hlink, m₁, hat.child]
  have hrc : m₂.child b .right = some (ptr m.sentinel r) := by
    simp [hchild, hlink, m₁, show m.child a .right = _ from hat.childOther]
  have hs₂ : m₂.sentinel = m.sentinel := hsent
  obtain ⟨m', hm', hroot', hchild', hparent', hcolor', hkey', hsent', hins'⟩ :
      ∃ m', replaceNode a b m = some m' ∧ m'.root = (if link p = none then b else m.root) ∧
        (∀ x e, m'.child x e = if link p = some (x, e) then some b
          else if x = b then m.child a e else m.child x e) ∧
        (∀ x, m'.parent x = if x = ptr m.sentinel r ∧ x ≠ m.sentinel then some b
          else if x = ptr m.sentinel l ∧ x ≠ m.sentinel then some b
          else if x = b then m.parent a else m.parent x) ∧
        (∀ x, m'.color x = if x = b then m.color a else m.color x) ∧
        (∀ x, m'.key x = m.key x) ∧ m'.sentinel = m.sentinel ∧ m'.insert = m.insert := by
    refine ⟨reparent (ptr m.sentinel r) b (reparent (ptr m.sentinel l) b m₂), ?_, ?_, fun x e => ?_,
      fun x => ?_, fun x => ?_, fun x => ?_, ?_, ?_⟩
    · simp only [m₁] at hm₂
      simp only [replaceNode, child_setChild, parent_setChild, color_setChild, color_setParent,
        hab, false_and, if_false, hm₂, hlc, hrc, child_reparent,
        Option.bind_eq_bind, Option.bind_some]
    · simpa [m₁] using hroot
    · rw [child_reparent, child_reparent, hchild]
      cases e <;> simp [m₁]
    · rw [parent_reparent, parent_reparent, hparent, sentinel_reparent, hs₂]
      have hx (y : Nat) : (x = y ∧ y ≠ m.sentinel) = (x = y ∧ x ≠ m.sentinel) := by
        refine propext (and_congr_right fun h => ?_)
        rw [h]
      simp [hx, m₁]
    · simp [hcolor, m₁]
    · simp [hkey, m₁]
    · simp [hs₂]
    · simpa [m₁] using hins
  have hlinka {x : Nat} (e : Side) (hx : x ∉ elems p) : link p ≠ some (x, e) :=
    fun hl => hx (Zip.link_mem hl)
  have hroots {w : ColorTree Nat} {x : Nat} (hx : x ∉ w.inorder) :
      ¬ (x = ptr m.sentinel w ∧ x ≠ m.sentinel) := by
    rintro ⟨rfl, hne⟩
    cases w with
    | nil => exact hne rfl
    | node cw wl y wr => exact hx (by simp [ptr, inorder])
  have hbelow {w : ColorTree Nat} (hw : ∀ x ∈ w.inorder, x ∉ elems p ∧ x ≠ b) (hrep : Rep m w none)
      (hndw : w.inorder.Nodup) (hside : ∀ x, x ≠ m.sentinel → x = ptr m.sentinel w →
        m'.parent x = some b)
      (hrest : ∀ x ∈ w.inorder, x ≠ ptr m.sentinel w → m'.parent x = m.parent x) :
      Rep m' w (some b) := by
    refine hrep.reparent hsent' hndw (fun x hx e => ?_) (fun x hx => ?_) hrest fun hne g hg => ?_
    · simp [hchild', hlinka e (hw x hx).1, (hw x hx).2]
    · simp [hcolor', (hw x hx).2]
    · rw [hside _ (Zip.rep_ne hrep (ptr_mem hne)) rfl]
      exact hg
  have hin {x : Nat} (hx : x ∈ l.inorder ∨ x ∈ r.inorder) : x ∉ elems p ∧ x ≠ b := by
    refine ⟨hout x ?_, ?_⟩
    · rw [inorder, List.mem_append, List.mem_cons]
      tauto
    · rintro rfl
      exact hx.elim hbl hbr
  refine ⟨m', hm', ⟨?_, ⟨⟨?_, ?_, ?_, ?_, ?_⟩, ?_, ?_⟩, ?_⟩, ?_⟩
  · refine hpath.redirect hsent' hndp hroot' (fun x hx e => ?_) (fun x hx => ?_) fun x hx => ?_
    · have hxb : x ≠ b := ne_of_mem_of_not_mem hx hbp
      rw [hchild', if_neg hxb]
      rfl
    · have hxb : x ≠ b := ne_of_mem_of_not_mem hx hbp
      simp [hcolor', hxb]
    · have hxb : x ≠ b := ne_of_mem_of_not_mem hx hbp
      have hxl : x ∉ l.inorder := fun h => (hin (.inl h)).1 hx
      have hxr : x ∉ r.inorder := fun h => (hin (.inr h)).1 hx
      rw [hparent', if_neg (hroots hxr), if_neg (hroots hxl), if_neg hxb]
  · rwa [hsent']
  · simp [hcolor', hat.color]
  · intro g hg
    rw [hparent', if_neg (hroots hbr), if_neg (hroots hbl), if_pos rfl]
    exact hat.parent g hg
  · rw [hchild', if_neg (hlinka _ hbp), if_pos rfl, hsent']
    exact hat.child
  · rw [hchild', if_neg (hlinka _ hbp), if_pos rfl, hsent']
    exact hat.childOther
  · refine hbelow (fun x hx => hin (.inl hx)) hl hndl (fun x hxs hx => ?_) fun x hx hne => ?_
    · rw [hparent', if_pos (c := x = ptr m.sentinel l ∧ _) ⟨hx, hxs⟩]
      split <;> rfl
    · rw [hparent', if_neg (hroots (hlr x hx)), if_neg (fun h => hne h.1),
        if_neg (hin (.inl hx)).2]
  · refine hbelow (fun x hx => hin (.inr hx)) hr hndr (fun x hxs hx => ?_) fun x hx hne => ?_
    · rw [hparent', if_pos ⟨hx, hxs⟩]
    · have hxl : x ∉ l.inorder := fun h => hlr x h hx
      rw [hparent', if_neg (fun h => hne h.1), if_neg (hroots hxl), if_neg (hin (.inr hx)).2]
  · have hperm (y : Nat) : (fill p (node c l y r)).inorder =
        (before p ++ l.inorder) ++ y :: (r.inorder ++ after p) := by
      simp [inorder_fill, inorder]
    rw [hperm, List.nodup_middle, List.nodup_cons] at hnd ⊢
    refine ⟨fun hx => hb ?_, hnd.2⟩
    rw [hperm, List.mem_append, List.mem_cons]
    rw [List.mem_append] at hx
    tauto
  · refine ⟨hsent', hins', hkey', ?_, ?_⟩
    · simp [hcolor', hsb]
    · simp [hparent', hsb]

end Unlink

section Delete

variable {m m' : RbTree} {l r t u : ColorTree Nat} {f : Frame Nat} {p q : List (Frame Nat)} {a b : Nat}
  {c c' : Color} {d : Side} {k n fuel : Nat}

/-- The least node is the first in the order. -/
theorem rbtreeMin_spec {q : Option Nat} (h : Rep m t q) (ht : t ≠ nil)
    (hfuel : t.inorder.length ≤ fuel) : rbtreeMin fuel (ptr m.sentinel t) m = t.inorder.head? := by
  induction t generalizing q fuel with
  | nil => exact absurd rfl ht
  | node c l a r ihl _ =>
    obtain ⟨hat, hl, -⟩ := h
    have hlen : (node c l a r).inorder.length = l.inorder.length + r.inorder.length + 1 := by
      simp [inorder]
      omega
    obtain ⟨fuel, rfl⟩ : ∃ k, fuel = k + 1 := ⟨fuel - 1, by omega⟩
    rw [ptr, rbtreeMin, hat.child, Option.bind_eq_bind, Option.bind_some]
    by_cases hn : l = nil
    · subst hn
      rw [if_pos (show ptr m.sentinel nil = m.sentinel from rfl)]
      rfl
    · rw [if_neg (Zip.rep_ne hl (ptr_mem hn)), ihl hl hn (by omega)]
      cases hi : l.inorder with
      | nil => exact absurd (hi ▸ ptr_mem (s := m.sentinel) hn) (by simp)
      | cons x xs => simp [inorder, hi]

/-- The path leads through another node of the same color. -/
theorem pathOk_rename (h : PathOk (q ++ ⟨d, c, a, u⟩ :: p) c' n) (b : Nat) :
    PathOk (q ++ ⟨d, c, b, u⟩ :: p) c' n := by
  induction q generalizing c' n with
  | nil => exact h
  | cons g q ih =>
    obtain ⟨e, cg, x, s⟩ := g
    cases cg with
    | red => exact ⟨h.1, h.2.1, ih h.2.2⟩
    | black => exact ⟨h.1, ih h.2⟩

/-- The end of `rbtree_delete`, where a node of color `c` was taken out above `u`. -/
theorem rebalance_spec (h : Zip m p u) (hf : Focus m p u) (hs : m.color m.sentinel = .black)
    (hp : PathOk p c' n) (hu : Ok c' n (join d c nil b u)) (hfuel : p.length + 2 ≤ fuel) :
    ∃ m' t', (if c = .red then some m else deleteRebalance fuel (ptr m.sentinel u) m) = some m' ∧
      Zip m' [] t' ∧ (∃ k, Ok .black k t') ∧ t'.inorder = (fill p u).inorder ∧ Same m m' := by
  cases c with
  | red =>
    obtain rfl : c' = .red := by simpa using hu.color.symm
    obtain ⟨-, hu⟩ := hu.of_join_red
    exact ⟨m, _, rfl, zip_fill.1 h, hp.of_red.fill hu, rfl, Same.refl m⟩
  | black =>
    obtain rfl : c' = .black := by simpa using hu.color.symm
    obtain ⟨k, c₁, c₂, rfl, -, hu⟩ := hu.of_join_black
    obtain ⟨m', hm', hz, hsame⟩ := deleteRebalance_spec h hf hs hp hu.short hfuel
    exact ⟨m', _, hm', hz, deleteFix_ok hp hu.short, deleteFix_inorder p u, hsame⟩

theorem Focus.forget (h : Focus m p u) (ha : a ≠ ptr m.sentinel u) :
    Focus (Shs.forget a m) p u := by
  intro g hg
  have hau := ha.symm
  simpa [Shs.forget, hau] using h g hg

/-- What the removal of `a` does not change. -/
structure Kept (m m' : RbTree) (a : Nat) : Prop where
  sentinel : m'.sentinel = m.sentinel
  insert : m'.insert = m.insert
  key : ∀ x, x ≠ a → m'.key x = m.key x
  color : m'.color m.sentinel = m.color m.sentinel

theorem Kept.of_same (h : Same m m') (a : Nat) : Kept m m' a :=
  ⟨h.sentinel, h.insert, fun x _ => h.key x, h.color⟩

theorem Kept.trans {m'' : RbTree} (h : Kept m m' a) (h' : Kept m' m'' a) : Kept m m'' a where
  sentinel := h'.sentinel.trans h.sentinel
  insert := h'.insert.trans h.insert
  key x hx := (h'.key x hx).trans (h.key x hx)
  color := by rw [← h.color, ← h.sentinel, h'.color]

theorem Kept.nil (h : Kept m m' a) : m'.color m'.sentinel = m.color m.sentinel := by
  rw [h.sentinel, h.color]

theorem kept_forget (ha : a ≠ m.sentinel) : Kept m (Shs.forget a m) a := by
  have hs := ha.symm
  refine ⟨rfl, rfl, fun x hx => ?_, ?_⟩ <;> simp [Shs.forget, *]

/-- A red-black tree without `a`, in the memory behind the removal. -/
def Removed (fuel : Nat) (m : RbTree) (t : ColorTree Nat) (a : Nat) : Prop :=
  ∃ m' t', rbtreeDelete fuel a m = some m' ∧ Zip m' [] t' ∧ (∃ k, Ok .black k t') ∧
    t'.inorder = t.inorder.erase a ∧ Kept m m' a

theorem erase_unlink (h : (fill p (join d c nil a u)).inorder.Nodup) :
    (fill p u).inorder = (fill p (join d c nil a u)).inorder.erase a := by
  obtain ⟨xs, ys, hold, hnew⟩ := inorder_unlink p d c a u
  rw [hold] at h ⊢
  have hx : a ∉ xs := by
    rw [List.nodup_middle, List.nodup_cons, List.mem_append] at h
    exact fun hx => h.1 (.inl hx)
  rw [hnew, List.erase_append_right _ hx, List.erase_cons_head]

theorem notMem_unlink (h : (fill p (join d c nil a u)).inorder.Nodup) :
    a ∉ (fill p u).inorder := by
  rw [erase_unlink h]
  exact fun hm => (h.mem_erase_iff.1 hm).1 rfl

theorem deleteTarget_one (h : Zip m p (join d c nil a u)) :
    deleteTarget fuel a m = some (ptr m.sentinel u, a) := by
  obtain ⟨hat, -, hu⟩ := rep_join.1 h.tree
  have h1 := hat.child
  have h2 := hat.childOther
  cases d with
  | left => simp [deleteTarget, h1, show m.child a .right = _ from h2, ptr]
  | right =>
    rw [show Side.right.other = .left from rfl] at h2
    by_cases hn : u = nil
    · simp [deleteTarget, h1, h2, hn, ptr]
    · have hne := Zip.rep_ne hu (ptr_mem (s := m.sentinel) hn)
      have hnil : ptr m.sentinel nil = m.sentinel := rfl
      simp [deleteTarget, h1, h2, hne, hnil]

/-- The root, with one child at most, is removed. -/
theorem delete_root (h : Zip m [] (join d c nil a u)) (hs : m.color m.sentinel = .black)
    (hok : Ok .black n (join d c nil a u)) : Removed fuel m (join d c nil a u) a := by
  obtain ⟨hat, -, hu⟩ := rep_join.1 h.tree
  have hroot : m.root = a := by
    have hr : m.root = ptr m.sentinel (join d c nil a u) := h.path
    rwa [ptr_join] at hr
  have hnd' : (fill [] u).inorder.Nodup := by
    rw [erase_unlink (p := []) h.nodup]
    exact h.nodup.sublist List.erase_sublist
  have hz : Zip (m.setRoot (ptr m.sentinel u)) [] u :=
    ⟨rfl, (rep_weaken hu).congr rfl ⟨fun _ _ _ => rfl, fun _ _ => rfl, fun _ _ => rfl⟩, hnd'⟩
  have hzb : Zip ((m.setRoot (ptr m.sentinel u)).setColor (ptr m.sentinel u) .black) []
      u.blacken := by
    by_cases hn : u = nil
    · subst hn
      exact ⟨rfl, trivial, hnd'⟩
    · exact hz.blacken hn
  have hout : a ∉ (fill [] u.blacken).inorder := by
    rw [inorder_fill_congr [] (inorder_blacken u)]
    exact notMem_unlink h.nodup
  refine ⟨_, _, ?_, hzb.forget hout, ?_, ?_, ?_⟩
  · simp [rbtreeDelete, deleteTarget_one h, hroot]
  · cases c with
    | red => exact absurd hok.color (by simp)
    | black =>
      obtain ⟨k, c₁, c₂, -, -, hu⟩ := hok.of_join_black
      cases c₂ with
      | red => exact ⟨_, hu.blacken_red⟩
      | black => exact ⟨_, hu.blacken_black.symm ▸ hu⟩
  · rw [inorder_blacken]
    exact erase_unlink (p := []) h.nodup
  · refine Kept.trans (show Kept m ((m.setRoot (ptr m.sentinel u)).setColor (ptr m.sentinel u) .black) _
      from ⟨rfl, rfl, fun x _ => by simp, ?_⟩) (kept_forget hat.ne)
    rw [color_setColor, color_setRoot, hs, ite_self]

/-- A path that ends in a node without a left or a right subtree. -/
theorem Ok.zoom_fill (h : Ok .black n (fill p t)) : ∃ c' k, PathOk p c' k ∧ Ok c' k t := by
  obtain ⟨c', k, hp, ht⟩ := h.zoom (p := []) rfl
  rw [List.append_nil] at hp
  exact ⟨c', k, hp, ht⟩

theorem path_length (p : List (Frame Nat)) (t : ColorTree Nat) :
    p.length + t.inorder.length ≤ (fill p t).inorder.length := by
  rw [(fill_perm p t).length_eq, List.length_append]
  have := length_le_elems p
  omega

/-- The child link that the source looks for. -/
theorem setChild_link {g : Nat} (h : (if m.child g .left = some a then Side.left else .right) = d)
    (v : Option Nat) :
    (if m.child g .left = some a then m.setChild g .left v else m.setChild g .right v) =
      m.setChild g d v := by
  rw [← h]
  split <;> rfl

/-- A node below the root, with one child at most, is removed. -/
theorem delete_one (h : Zip m (f :: p) (join d c nil a u)) (hs : m.color m.sentinel = .black)
    (hok : Ok .black n (fill (f :: p) (join d c nil a u)))
    (hfuel : (fill (f :: p) (join d c nil a u)).inorder.length + 2 ≤ fuel) :
    Removed fuel m (fill (f :: p) (join d c nil a u)) a := by
  obtain ⟨hat, -, hu⟩ := rep_join.1 h.tree
  have hroot : a ≠ m.root := by
    have hr := h.root_iff
    rw [ptr_join] at hr
    simp [hr]
  have hpar : m.parent a = some f.elem := hat.parent _ rfl
  have hside := h.child_left (.inl (join_ne_nil d c nil u a))
  rw [ptr_join] at hside
  have hau : a ≠ ptr m.sentinel u := by
    intro hau
    by_cases hn : u = nil
    · rw [hn] at hau
      exact hat.ne hau
    · have hm := notMem_unlink h.nodup
      rw [(fill_perm _ _).mem_iff, List.mem_append, not_or] at hm
      exact hm.1 (hau ▸ ptr_mem hn)
  have hz := h.unlink.forget (notMem_unlink h.nodup)
  have hf : Focus ((m.setChild f.elem f.side (some (ptr m.sentinel u))).setParent
      (ptr m.sentinel u) (some f.elem)) (f :: p) u := by
    intro g hg
    simpa [up] using hg
  obtain ⟨c', k, hp, ht⟩ := Ok.zoom_fill hok
  have hlen := path_length (f :: p) (join d c nil a u)
  have hlen' := (join_perm d c nil u a).length_eq
  obtain ⟨m', t', hm', hz', hok', hin, hsame⟩ := rebalance_spec hz (hf.forget hau)
    (by simp [Shs.forget, hs]) hp ht
    (show _ ≤ fuel by simp only [List.length_cons] at hlen'; omega)
  refine ⟨m', t', ?_, hz', hok', hin.trans (erase_unlink h.nodup), ?_⟩
  · have hsent : (Shs.forget a ((m.setChild f.elem f.side (some (ptr m.sentinel u))).setParent
        (ptr m.sentinel u) (some f.elem))).sentinel = m.sentinel := rfl
    rw [hsent] at hm'
    rw [rbtreeDelete, deleteTarget_one h]
    simp only [if_neg hroot, hat.color, hpar, setChild_link hside, parent_setChild, if_true,
      Option.bind_eq_bind, Option.bind_some]
    exact hm'
  · refine Kept.trans (Kept.trans (show Kept m ((m.setChild f.elem f.side (some (ptr m.sentinel
      u))).setParent (ptr m.sentinel u) (some f.elem)) _ from
      ⟨rfl, rfl, fun x _ => by simp, by simp⟩)
      (kept_forget hat.ne)) (.of_same hsame a)

theorem zip_append : Zip m (q ++ p) t ↔ Zip m p (fill q t) := by
  rw [zip_fill, fill_append, ← zip_fill]

theorem mem_elems_frame (q p : List (Frame Nat)) (d : Side) (c : Color) (a : Nat) (u : ColorTree Nat) :
    a ∈ elems (q ++ ⟨d, c, a, u⟩ :: p) := by
  induction q with
  | nil => exact mem_elems_cons.2 (.inl rfl)
  | cons g q ih => exact mem_elems_cons.2 (.inr (.inr ih))

theorem setParent_setParent (m : RbTree) (x : Nat) (v w : Option Nat) :
    (m.setParent x v).setParent x w = m.setParent x w := by
  simp [setParent, setNode]

theorem Zip.replaceNode (h : Zip m p (node c l a r)) (hb : b ∉ (fill p (node c l a r)).inorder)
    (hbs : b ≠ m.sentinel) :
    ∃ m', replaceNode a b m = some m' ∧ Zip m' p (node c l b r) ∧ Same m m' :=
  replaceNode_spec h.path h.tree.1 (rep_weaken h.tree.2.1) (rep_weaken h.tree.2.2) h.nodup hb hbs

/-- The same behind `temp->parent = subst`. -/
theorem Zip.replaceNode_near (h : Zip m p (node c l a r))
    (hb : b ∉ (fill p (node c l a r)).inorder) (hbs : b ≠ m.sentinel) (v : Option Nat) :
    ∃ m', Shs.replaceNode a b (m.setParent (ptr m.sentinel r) v) = some m' ∧
      Zip m' p (node c l b r) ∧ Same (m.setParent (ptr m.sentinel r) v) m' := by
  obtain ⟨hpath, ⟨hat, hl, hr⟩, hnd⟩ := h
  obtain ⟨-, -, hout⟩ := nodup_fill hnd
  obtain ⟨-, hndr, hal, har, hlr⟩ := nodup_node hnd
  have hne (x : Nat) (hxs : x ≠ m.sentinel) (hx : x ∉ r.inorder) : x ≠ ptr m.sentinel r := by
    rintro rfl
    cases r with
    | nil => exact hxs rfl
    | node cr rl y rr => exact hx (by simp [ptr, inorder])
  have hag (xs : List Nat) (hxs : ∀ x ∈ xs, x ≠ m.sentinel ∧ x ∉ r.inorder) :
      Agree m (m.setParent (ptr m.sentinel r) v) xs := by
    refine ⟨fun x _ e => by simp, fun x _ => by simp, fun x hx => ?_⟩
    simp [hne x (hxs x hx).1 (hxs x hx).2]
  have hpath' : RepPath (m.setParent (ptr m.sentinel r) v) _ _ := hpath.congr rfl rfl
    (hag _ fun x hx => ⟨Zip.path_ne hpath hx, fun hr => hout x (by simp [inorder, hr]) hx⟩)
  refine replaceNode_spec hpath' ⟨hat.ne, by simpa using hat.color, fun g hg => ?_,
    by simpa using hat.child, by simpa using hat.childOther⟩
    (rep_weaken (hl.congr rfl (hag _ fun x hx => ⟨Zip.rep_ne hl hx, hlr x hx⟩)))
    (hr.reparent rfl hndr (fun x _ e => by simp) (fun x _ => by simp) (fun x _ hx => by simp [hx])
      fun _ g hg => by simp at hg) hnd hb hbs
  simpa [hne a hat.ne har] using hat.parent g hg

/-- The parent link of the place was written last. -/
theorem Focus.of_same (h : Same m m') (hz : Zip m' p u)
    (hp : m.parent (ptr m.sentinel u) = up p) : Focus m' p u := by
  by_cases hn : u = nil
  · subst hn
    intro g hg
    have hpar := h.parent
    rw [ptr] at hp ⊢
    rw [h.sentinel, hpar, hp]
    exact hg
  · exact hz.focus hn

/-- The successor `b` of `a` leaves its place and takes that of `a`. -/
theorem delete_swap {cm : Color} {mr : ColorTree Nat}
    (h : Zip m (q ++ ⟨.right, c, a, l⟩ :: p) (node cm nil b mr)) :
    ∃ g m₁ m₂, m.parent b = some g ∧
      (if m.child g .left = some b then m.setChild g .left (some (ptr m.sentinel mr))
        else m.setChild g .right (some (ptr m.sentinel mr))) = m₁ ∧
      replaceNode a b (if m₁.parent b = some a then m₁.setParent (ptr m.sentinel mr) (some b)
        else m₁.setParent (ptr m.sentinel mr) (m₁.parent b)) = some m₂ ∧
      Zip m₂ (q ++ ⟨.right, c, b, l⟩ :: p) mr ∧ Focus m₂ (q ++ ⟨.right, c, b, l⟩ :: p) mr ∧
      Kept m m₂ a := by
  have hout := notMem_unlink (d := .left) h.nodup
  have hbs : b ≠ m.sentinel := h.tree.1.ne
  cases q with
  | nil =>
    have hside := h.child_left (.inl (by simp))
    have hpar : m.parent b = some a := h.tree.1.parent a rfl
    have hz := zip_frame.1 (h.unlink (d := .left))
    obtain ⟨m', hm', hz', hsame⟩ := hz.replaceNode_near hout hbs (some b)
    rw [sentinel_setParent, sentinel_setChild, setParent_setParent] at hm' hsame
    refine ⟨a, _, m', hpar, setChild_link hside _, ?_, zip_frame.2 hz', ?_, ?_⟩
    · rw [parent_setChild, if_pos hpar]
      exact hm'
    · exact Focus.of_same hsame (zip_frame.2 hz') (by simp [up])
    · exact Kept.trans (show Kept m ((m.setChild a .right (some (ptr m.sentinel mr))).setParent
        (ptr m.sentinel mr) (some b)) _ from ⟨rfl, rfl, fun x _ => by simp, by simp⟩) (.of_same hsame a)
  | cons g q =>
    have hside := h.child_left (.inl (by simp))
    have hpar : m.parent b = some g.elem := h.tree.1.parent g.elem rfl
    have hga : g.elem ≠ a := by
      intro hga
      have hnd := (nodup_fill h.nodup).2.1
      rw [List.cons_append] at hnd
      refine (nodup_elems_cons hnd).2.1 ?_
      rw [hga]
      exact mem_elems_frame ..
    have hz := zip_frame.1 ((zip_append (q := g :: q)).1 (h.unlink (d := .left)))
    rw [fill_append] at hout
    obtain ⟨m', hm', hz', hsame⟩ := hz.replaceNode hout hbs
    have hzq : Zip m' (g :: q ++ ⟨.right, c, b, l⟩ :: p) mr :=
      zip_append.2 ((zip_frame (d := .right)).2 hz')
    refine ⟨g.elem, _, m', hpar, setChild_link hside _, ?_, hzq, ?_, ?_⟩
    · have hne : (m.setChild g.elem g.side (some (ptr m.sentinel mr))).parent b ≠ some a := by
        rw [parent_setChild, hpar]
        simpa using hga
      rw [if_neg hne, parent_setChild, hpar]
      exact hm'
    · exact Focus.of_same hsame hzq (by simp [up])
    · exact Kept.trans (show Kept m ((m.setChild g.elem g.side (some (ptr m.sentinel mr))).setParent
        (ptr m.sentinel mr) (some g.elem)) _ from ⟨rfl, rfl, fun x _ => by simp, by simp⟩)
        (.of_same hsame a)

/-- The successor, which is the least node of the right subtree. -/
theorem deleteTarget_two {cm : Color} {mr : ColorTree Nat} {g : Option Nat}
    (h : Rep m (node c l a r) g) (hl : l ≠ nil) (hr : r = fill q (node cm nil b mr))
    (hleft : ∀ f ∈ q, f.side = .left) (hb : At m .left cm b m.sentinel (ptr m.sentinel mr) (up p))
    (hfuel : r.inorder.length ≤ fuel) : deleteTarget fuel a m = some (ptr m.sentinel mr, b) := by
  obtain ⟨hat, hrl, hrr⟩ := h
  have hin : r.inorder = b :: (mr.inorder ++ after q) := by
    rw [hr, inorder_fill, before_of_left hleft]
    simp [inorder]
  have hrne : r ≠ nil := by
    rintro rfl
    cases hin
  have hmin := rbtreeMin_spec hrr hrne hfuel
  rw [hin, List.head?_cons] at hmin
  have hls := Zip.rep_ne hrl (ptr_mem (s := m.sentinel) hl)
  have hrs := Zip.rep_ne hrr (ptr_mem (s := m.sentinel) hrne)
  have hright : m.child a .right = some (ptr m.sentinel r) := hat.childOther
  have hbr : m.child b .right = some (ptr m.sentinel mr) := hb.childOther
  simp [deleteTarget, hat.child, hright, hls, hrs, hmin, hb.child, hbr]

/-- A node with two children is removed. -/
theorem delete_two (h : Zip m p (node c l a r)) (hl : l ≠ nil) (hr : r ≠ nil)
    (hs : m.color m.sentinel = .black) (hok : Ok .black n (fill p (node c l a r)))
    (hfuel : (fill p (node c l a r)).inorder.length + 2 ≤ fuel) :
    Removed fuel m (fill p (node c l a r)) a := by
  obtain ⟨q, cm, b, mr, hq, hleft⟩ : ∃ q cm b mr, r = fill q (node cm nil b mr) ∧
      ∀ f ∈ q, f.side = .left := by
    cases r with
    | nil => exact absurd rfl hr
    | node cr rl x rr => exact exists_leftmost cr rl rr x
  have hold : fill (q ++ ⟨.right, c, a, l⟩ :: p) (node cm nil b mr) = fill p (node c l a r) := by
    rw [fill_append, ← hq]
    rfl
  have hz : Zip m (q ++ ⟨.right, c, a, l⟩ :: p) (node cm nil b mr) :=
    zip_fill.2 (hold ▸ zip_fill.1 h)
  have hlen := path_length p (node c l a r)
  have hlenr : (node c l a r).inorder.length = l.inorder.length + (r.inorder.length + 1) := by
    simp [inorder]
  have htarget := deleteTarget_two h.tree hl hq hleft hz.tree.1
    (show r.inorder.length ≤ fuel by omega)
  have hbroot : b ≠ m.root := by
    have hr := hz.root_iff
    rw [ptr] at hr
    simp [hr]
  obtain ⟨g, m₁, m₂, hpar, hm₁, hm₂, hz₂, hf₂, hkept⟩ := delete_swap hz
  -- the old order and the new one
  have hin : (fill p (node c l a r)).inorder =
      (before p ++ l.inorder) ++ a :: b :: (mr.inorder ++ after q ++ after p) := by
    rw [inorder_fill, inorder, hq, inorder_fill, before_of_left hleft]
    simp [inorder]
  have hin₂ : (fill (q ++ ⟨.right, c, b, l⟩ :: p) mr).inorder =
      (before p ++ l.inorder) ++ b :: (mr.inorder ++ after q ++ after p) := by
    rw [fill_append, fill, inorder_fill, join, inorder, inorder_fill, before_of_left hleft]
    simp
  have hnd := h.nodup
  have herase : (fill (q ++ ⟨.right, c, b, l⟩ :: p) mr).inorder =
      (fill p (node c l a r)).inorder.erase a := by
    rw [hin, List.nodup_middle, List.nodup_cons, List.mem_append] at hnd
    rw [hin, hin₂, List.erase_append_right _ fun hx => hnd.1 (.inl hx), List.erase_cons_head]
  have hout : a ∉ (fill (q ++ ⟨.right, c, b, l⟩ :: p) mr).inorder := by
    rw [herase]
    exact fun hm => (hnd.mem_erase_iff.1 hm).1 rfl
  have hab : b ≠ a := by
    rintro rfl
    exact hout (by rw [hin₂]; simp)
  have has : a ≠ m₂.sentinel := hkept.sentinel ▸ h.tree.1.ne
  have hmr : a ≠ ptr m₂.sentinel mr := by
    intro hx
    by_cases hn : mr = nil
    · rw [hn] at hx
      exact has hx
    · refine hout ?_
      rw [hx, (fill_perm _ _).mem_iff, List.mem_append]
      exact .inl (ptr_mem hn)
  obtain ⟨c', k, hp, ht⟩ := Ok.zoom_fill (hold ▸ hok)
  have hlen₂ := path_length (q ++ ⟨.right, c, b, l⟩ :: p) mr
  rw [herase, List.length_erase_of_mem (by rw [hin]; simp)] at hlen₂
  obtain ⟨m', t', hm', hz', hok', hin', hsame⟩ := rebalance_spec
    (hz₂.forget hout) (hf₂.forget hmr) ((hkept.trans (kept_forget has)).nil.trans hs)
    (pathOk_rename hp b)
    (show Ok c' k (join .left cm nil b mr) from ht) (show _ ≤ fuel by omega)
  refine ⟨m', t', ?_, hz', hok', hin'.trans herase,
    (hkept.trans (kept_forget has)).trans (.of_same hsame a)⟩
  have hsent : (Shs.forget a m₂).sentinel = m.sentinel := hkept.sentinel
  rw [hsent] at hm'
  rw [rbtreeDelete, htarget]
  simp only [if_neg hbroot, hz.tree.1.color, hpar, hm₁, if_neg hab, hm₂, Option.bind_eq_bind,
    Option.bind_some]
  exact hm'

/-- The removal of a node leaves a red-black tree of the others. -/
theorem rbtreeDelete_spec (h : Holds m t) (ha : a ∈ t.inorder)
    (hfuel : t.inorder.length + 2 ≤ fuel) :
    ∃ m' t', rbtreeDelete fuel a m = some m' ∧ Holds m' t' ∧ t'.inorder = t.inorder.erase a ∧
      Kept m m' a := by
  obtain ⟨hz, ⟨n, hok⟩, hsorted, hs⟩ := h
  have hremoved : Removed fuel m t a := by
    obtain ⟨p, c, l, r, rfl⟩ := exists_path ha
    have hz := zip_fill.2 hz
    have hone (d : Side) (u : ColorTree Nat) (hu : node c l a r = join d c nil a u) :
        Removed fuel m (fill p (node c l a r)) a := by
      rw [hu] at hz hok hfuel ⊢
      cases p with
      | nil => exact delete_root hz hs hok
      | cons f p => exact delete_one hz hs hok hfuel
    by_cases hl : l = nil
    · exact hone .left r (by rw [hl]; rfl)
    · by_cases hr : r = nil
      · exact hone .right l (by rw [hr]; rfl)
      · exact delete_two hz hl hr hs hok hfuel
  obtain ⟨m', t', hm', hz', hok', hin, hkept⟩ := hremoved
  refine ⟨m', t', hm', ⟨hz', hok', ?_, hkept.nil.trans hs⟩, hin, hkept⟩
  have hnd : t.inorder.Nodup := hz.nodup
  rw [hin]
  refine (hsorted.sublist List.erase_sublist).imp_of_mem fun {x y} hx hy hxy => ?_
  rw [hkept.key x (hnd.mem_erase_iff.1 hx).1, hkept.key y (hnd.mem_erase_iff.1 hy).1]
  exact hxy

end Delete

end RbTree
end Shs
