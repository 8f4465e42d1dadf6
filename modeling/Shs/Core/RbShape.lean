import Shs.Core.RbTree

/-!
# Core.RbShape

What the memory of a red-black tree holds. `Zip m p t` says that the memory `m` holds the tree
`t` at the end of the path `p` from the root: colors, child links and parent links are those of the
tree, and no node is at two places. The parent link of the root is copied by a rotation at the root
and left as it is when the root is removed; no branch looks at it, and nothing is said about it. A
path can be walked one frame at a time, a color can be set, and a rotation of the
memory is a rotation of the tree.
-/

namespace Shs
namespace RbTree

open RedBlack RedBlack.ColorTree

/-- The pointer to a tree: the sentinel for the empty one. -/
def ptr (s : Nat) : ColorTree Nat → Nat
  | nil => s
  | node _ _ a _ => a

/-- The memory at node `a`, with children `x` on side `d` and `y`; `q` is its parent, if it is not
the root. -/
structure At (m : RbTree) (d : Side) (c : Color) (a x y : Nat) (q : Option Nat) : Prop where
  ne : a ≠ m.sentinel
  color : m.color a = c
  parent : ∀ b ∈ q, m.parent a = some b
  child : m.child a d = some x
  childOther : m.child a d.other = some y

def Rep (m : RbTree) : ColorTree Nat → Option Nat → Prop
  | nil, _ => True
  | node c l a r, q =>
    At m .left c a (ptr m.sentinel l) (ptr m.sentinel r) q ∧ Rep m l (some a) ∧ Rep m r (some a)

/-- The node above the place of a path. -/
def up (p : List (Frame Nat)) : Option Nat := p.head?.map (·.elem)

/-- The frames of the path, where the place itself holds pointer `x`. -/
def RepPath (m : RbTree) : List (Frame Nat) → Nat → Prop
  | [], x => m.root = x
  | f :: p, x =>
    At m f.side f.color f.elem x (ptr m.sentinel f.sib) (up p) ∧ Rep m f.sib (some f.elem) ∧
      RepPath m p f.elem

/-- The field above that holds the pointer at the place of a path; the root without any. -/
def link (p : List (Frame Nat)) : Option (Nat × Side) := p.head?.map fun f => (f.elem, f.side)

structure Zip (m : RbTree) (p : List (Frame Nat)) (t : ColorTree Nat) : Prop where
  path : RepPath m p (ptr m.sentinel t)
  tree : Rep m t (up p)
  nodup : (fill p t).inorder.Nodup

def elems (p : List (Frame Nat)) : List Nat := before p ++ after p

theorem mem_elems_cons {f : Frame Nat} {p : List (Frame Nat)} {x : Nat} :
    x ∈ elems (f :: p) ↔ x = f.elem ∨ x ∈ f.sib.inorder ∨ x ∈ elems p := by
  obtain ⟨d, c, a, s⟩ := f
  cases d <;> simp [elems, before, after] <;> tauto

theorem mem_join {d : Side} {c : Color} {t s : ColorTree Nat} {a x : Nat} :
    x ∈ (join d c t a s).inorder ↔ x = a ∨ x ∈ t.inorder ∨ x ∈ s.inorder := by
  cases d <;> simp [join, inorder] <;> tauto

theorem join_perm (d : Side) (c : Color) (t s : ColorTree Nat) (a : Nat) :
    (join d c t a s).inorder.Perm (a :: (t.inorder ++ s.inorder)) := by
  cases d with
  | left => exact List.perm_middle
  | right => exact List.perm_middle.trans (.cons a List.perm_append_comm)

theorem elems_cons_perm (f : Frame Nat) (p : List (Frame Nat)) :
    (elems (f :: p)).Perm (f.elem :: (f.sib.inorder ++ elems p)) := by
  obtain ⟨d, c, a, s⟩ := f
  cases d with
  | left =>
    simp only [elems, before, after]
    refine List.perm_middle.trans (.cons a ?_)
    simpa using (List.perm_append_comm : (before p ++ _).Perm (_ ++ before p)).append_right (after p)
  | right =>
    simp only [elems, before, after, List.append_assoc]
    refine (List.perm_append_comm : (before p ++ _).Perm (_ ++ before p)).trans ?_
    simp only [List.append_assoc, List.singleton_append]
    refine List.perm_middle.trans (.cons a (List.Perm.append_left _ ?_))
    exact List.perm_append_comm

theorem fill_perm (p : List (Frame Nat)) (t : ColorTree Nat) :
    (fill p t).inorder.Perm (t.inorder ++ elems p) := by
  rw [inorder_fill, elems, ← List.append_assoc]
  exact (List.perm_append_comm : (before p ++ _).Perm (_ ++ before p)).append_right (after p)

theorem nodup_elems_cons {f : Frame Nat} {p : List (Frame Nat)} (h : (elems (f :: p)).Nodup) :
    f.elem ∉ f.sib.inorder ∧ f.elem ∉ elems p ∧ f.sib.inorder.Nodup ∧ (elems p).Nodup ∧
      ∀ a ∈ f.sib.inorder, a ∉ elems p := by
  rw [(elems_cons_perm f p).nodup_iff, List.nodup_cons, List.mem_append, not_or,
    List.nodup_append'] at h
  obtain ⟨⟨h1, h2⟩, h3, h4, h5⟩ := h
  exact ⟨h1, h2, h3, h4, fun a ha hp => h5 ha hp⟩

theorem nodup_fill {p : List (Frame Nat)} {t : ColorTree Nat} (h : (fill p t).inorder.Nodup) :
    t.inorder.Nodup ∧ (elems p).Nodup ∧ ∀ a ∈ t.inorder, a ∉ elems p := by
  rw [(fill_perm p t).nodup_iff, List.nodup_append'] at h
  obtain ⟨h1, h2, h3⟩ := h
  exact ⟨h1, h2, fun a ha hp => h3 ha hp⟩

@[simp] theorem ptr_join (s : Nat) (d : Side) (c : Color) (t u : ColorTree Nat) (a : Nat) :
    ptr s (join d c t a u) = a := by cases d <;> rfl

@[simp] theorem ptr_blacken (s : Nat) (t : ColorTree Nat) : ptr s t.blacken = ptr s t := by
  cases t <;> rfl

theorem ptr_mem {s : Nat} {t : ColorTree Nat} (h : t ≠ nil) : ptr s t ∈ t.inorder := by
  cases t with
  | nil => exact absurd rfl h
  | node c l a r => simp [ptr, inorder]

section Rep

variable {m m' : RbTree} {d : Side} {c : Color} {a b x y : Nat} {q q' : Option Nat}
  {t u : ColorTree Nat} {f : Frame Nat} {p : List (Frame Nat)}

theorem At.side (h : At m d c a x y q) : At m d.other c a y x q :=
  ⟨h.ne, h.color, h.parent, h.childOther, by rw [Side.other_other]; exact h.child⟩

theorem rep_join : Rep m (join d c t a u) q ↔
    At m d c a (ptr m.sentinel t) (ptr m.sentinel u) q ∧ Rep m t (some a) ∧ Rep m u (some a) := by
  cases d with
  | left => rfl
  | right =>
    refine ⟨fun ⟨h, ht, hu⟩ => ⟨h.side, hu, ht⟩, fun ⟨h, ht, hu⟩ => ⟨h.side, hu, ht⟩⟩

/-- Two memories agree on the nodes of a list. -/
structure Agree (m m' : RbTree) (l : List Nat) : Prop where
  child : ∀ a ∈ l, ∀ d, m'.child a d = m.child a d
  color : ∀ a ∈ l, m'.color a = m.color a
  parent : ∀ a ∈ l, m'.parent a = m.parent a

theorem Agree.mono {l l' : List Nat} (h : Agree m m' l) (hl : ∀ a ∈ l', a ∈ l) : Agree m m' l' :=
  ⟨fun a ha => h.child a (hl a ha), fun a ha => h.color a (hl a ha),
    fun a ha => h.parent a (hl a ha)⟩

theorem At.congr {l : List Nat} (h : At m d c a x y q) (hs : m'.sentinel = m.sentinel)
    (hag : Agree m m' l) (ha : a ∈ l) : At m' d c a x y q := by
  obtain ⟨hne, hc, hp, h1, h2⟩ := h
  exact ⟨hs ▸ hne, (hag.color a ha).trans hc, fun b hb => (hag.parent a ha).trans (hp b hb),
    (hag.child a ha d).trans h1, (hag.child a ha d.other).trans h2⟩

theorem Rep.congr (h : Rep m t q) (hs : m'.sentinel = m.sentinel)
    (hag : Agree m m' t.inorder) : Rep m' t q := by
  induction t generalizing q with
  | nil => trivial
  | node c l a r ihl ihr =>
    obtain ⟨hat, hl, hr⟩ := h
    refine ⟨?_, ihl hl (hag.mono (by simp +contextual [inorder])),
      ihr hr (hag.mono (by simp +contextual [inorder]))⟩
    rw [hs]
    exact hat.congr hs hag (by simp [inorder])

/-- A tree that is put below another node: its root gets another parent. -/
theorem Rep.reparent (h : Rep m t q) (hs : m'.sentinel = m.sentinel) (hnd : t.inorder.Nodup)
    (hchild : ∀ a ∈ t.inorder, ∀ d, m'.child a d = m.child a d)
    (hcolor : ∀ a ∈ t.inorder, m'.color a = m.color a)
    (hparent : ∀ a ∈ t.inorder, a ≠ ptr m.sentinel t → m'.parent a = m.parent a)
    (hroot : t ≠ nil → ∀ b ∈ q', m'.parent (ptr m.sentinel t) = some b) : Rep m' t q' := by
  cases t with
  | nil => trivial
  | node c l a r =>
    obtain ⟨⟨hne, hc, hp, h1, h2⟩, hl, hr⟩ := h
    have hal : a ∉ l.inorder := by
      intro hm
      rw [inorder, List.nodup_append'] at hnd
      exact hnd.2.2 hm (by simp)
    have har : a ∉ r.inorder := by
      rw [inorder, List.nodup_append', List.nodup_cons] at hnd
      exact hnd.2.1.1
    have hsub (v : ColorTree Nat) (hv : ∀ b ∈ v.inorder, b ∈ (node c l a r).inorder)
        (hav : a ∉ v.inorder) : Agree m m' v.inorder := by
      refine ⟨fun b hb => hchild b (hv b hb), fun b hb => hcolor b (hv b hb), fun b hb => ?_⟩
      refine hparent b (hv b hb) ?_
      rintro rfl
      exact hav hb
    refine ⟨⟨hs ▸ hne, (hcolor a (by simp [inorder])).trans hc, hroot (by simp), ?_, ?_⟩,
      hl.congr hs (hsub l (by simp +contextual [inorder]) hal),
      hr.congr hs (hsub r (by simp +contextual [inorder]) har)⟩
    · rw [hs, hchild a (by simp [inorder])]
      exact h1
    · rw [hs, hchild a (by simp [inorder])]
      exact h2

theorem RepPath.congr (h : RepPath m p x) (hs : m'.sentinel = m.sentinel)
    (hroot : m'.root = m.root) (hag : Agree m m' (elems p)) : RepPath m' p x := by
  induction p generalizing x with
  | nil => exact hroot.trans h
  | cons f p ih =>
    obtain ⟨hat, hsib, hp⟩ := h
    refine ⟨?_, hsib.congr hs (hag.mono fun a ha => mem_elems_cons.2 (.inr (.inl ha))),
      ih hp (hag.mono fun a ha => mem_elems_cons.2 (.inr (.inr ha)))⟩
    rw [hs]
    exact hat.congr hs hag (mem_elems_cons.2 (.inl rfl))

/-- The link from above to the place of a path is written. -/
theorem RepPath.redirect (h : RepPath m p x) (hs : m'.sentinel = m.sentinel)
    (hnd : (elems p).Nodup) (hroot : m'.root = if link p = none then y else m.root)
    (hchild : ∀ a ∈ elems p, ∀ d,
      m'.child a d = if link p = some (a, d) then some y else m.child a d)
    (hcolor : ∀ a ∈ elems p, m'.color a = m.color a)
    (hparent : ∀ a ∈ elems p, m'.parent a = m.parent a) : RepPath m' p y := by
  cases p with
  | nil => exact hroot
  | cons f p =>
    obtain ⟨⟨hne, hc, hp, h1, h2⟩, hsib, hpath⟩ := h
    obtain ⟨hsib', helem, -, -, -⟩ := nodup_elems_cons hnd
    have hmem : f.elem ∈ elems (f :: p) := mem_elems_cons.2 (.inl rfl)
    have hag (l : List Nat) (hl : ∀ a ∈ l, a ∈ elems (f :: p)) (hf : f.elem ∉ l) :
        Agree m m' l := by
      refine ⟨fun a ha d => ?_, fun a ha => hcolor a (hl a ha), fun a ha => hparent a (hl a ha)⟩
      rw [hchild a (hl a ha), if_neg]
      rintro hlink
      obtain ⟨rfl, -⟩ : f.elem = a ∧ f.side = d := by simpa [link] using hlink
      exact hf ha
    refine ⟨⟨hs ▸ hne, (hcolor _ hmem).trans hc, fun b hb => (hparent _ hmem).trans (hp b hb), ?_,
      ?_⟩, hsib.congr hs (hag _ (fun a ha => mem_elems_cons.2 (.inr (.inl ha))) hsib'),
      hpath.congr hs (by simpa [link] using hroot)
        (hag _ (fun a ha => mem_elems_cons.2 (.inr (.inr ha))) helem)⟩
    · rw [hchild _ hmem, if_pos (show link (f :: p) = some (f.elem, f.side) from rfl)]
    · rw [hs, hchild _ hmem, if_neg (by simp [link]), h2]

end Rep

section Zip

variable {m : RbTree} {d : Side} {c c' : Color} {a b : Nat} {t u v : ColorTree Nat} {f : Frame Nat}
  {p : List (Frame Nat)}

/-- One frame of the path and the tree above it. -/
theorem zip_cons : Zip m (f :: p) t ↔ Zip m p (join f.side f.color t f.elem f.sib) := by
  constructor
  · rintro ⟨⟨hat, hsib, hp⟩, ht, hnd⟩
    exact ⟨by rwa [ptr_join], rep_join.2 ⟨hat, ht, hsib⟩, hnd⟩
  · rintro ⟨hp, ht, hnd⟩
    obtain ⟨hat, ht, hsib⟩ := rep_join.1 ht
    rw [ptr_join] at hp
    exact ⟨⟨hat, hsib, hp⟩, ht, hnd⟩

theorem zip_frame : Zip m (⟨d, c, a, u⟩ :: p) t ↔ Zip m p (join d c t a u) := zip_cons

theorem zip_fill : Zip m p t ↔ Zip m [] (fill p t) := by
  induction p generalizing t with
  | nil => rfl
  | cons f p ih => rw [zip_cons, ih, fill]

namespace Zip

theorem notMem (h : Zip m p t) (ha : a ∈ t.inorder) : a ∉ elems p := (nodup_fill h.nodup).2.2 a ha

theorem rep_ne {q : Option Nat} (h : Rep m t q) (ha : a ∈ t.inorder) : a ≠ m.sentinel := by
  induction t generalizing q with
  | nil => simp [inorder] at ha
  | node c l b r ihl ihr =>
    obtain ⟨hat, hl, hr⟩ := h
    rw [inorder, List.mem_append, List.mem_cons] at ha
    rcases ha with ha | rfl | ha
    · exact ihl hl ha
    · exact hat.ne
    · exact ihr hr ha

theorem path_ne {x : Nat} (h : RepPath m p x) (ha : a ∈ elems p) : a ≠ m.sentinel := by
  induction p generalizing x with
  | nil => simp [elems, before, after] at ha
  | cons f p ih =>
    obtain ⟨hat, hsib, hp⟩ := h
    rcases mem_elems_cons.1 ha with rfl | ha | ha
    · exact hat.ne
    · exact rep_ne hsib ha
    · exact ih hp ha

/-- The pointer at the place is none of the path's nodes. -/
theorem ptr_notMem (h : Zip m p t) : ptr m.sentinel t ∉ elems p := by
  by_cases ht : t = nil
  · subst ht
    exact fun hm => path_ne h.path hm rfl
  · exact h.notMem (ptr_mem ht)

theorem root_mem {x : Nat} (h : RepPath m (f :: p) x) : m.root ∈ elems (f :: p) := by
  induction p generalizing f x with
  | nil =>
    obtain ⟨-, -, hroot⟩ := h
    rw [show m.root = f.elem from hroot]
    exact mem_elems_cons.2 (.inl rfl)
  | cons g p ih => exact mem_elems_cons.2 (.inr (.inr (ih h.2.2)))

/-- The place is the root exactly if the path is empty. -/
theorem root_iff (h : Zip m p t) : ptr m.sentinel t = m.root ↔ p = [] := by
  cases p with
  | nil => simpa using Eq.symm h.path
  | cons f p =>
    simp only [reduceCtorEq, iff_false]
    intro heq
    exact h.ptr_notMem (heq ▸ root_mem h.path)

theorem parent (h : Zip m (f :: p) t) (ht : t ≠ nil) :
    m.parent (ptr m.sentinel t) = some f.elem := by
  cases t with
  | nil => exact absurd rfl ht
  | node c l a r => exact h.tree.1.parent f.elem rfl

/-- The pointers to the place and to its sibling differ, unless both are empty. -/
theorem sib_ne (h : Zip m (f :: p) t) (hne : t ≠ nil ∨ f.sib ≠ nil) :
    ptr m.sentinel f.sib ≠ ptr m.sentinel t := by
  intro heq
  by_cases ht : t = nil
  · have hsib : f.sib ≠ nil := hne.resolve_left (by simp [ht])
    have hmem := rep_ne h.path.2.1 (ptr_mem (s := m.sentinel) hsib)
    rw [heq, ht] at hmem
    exact hmem rfl
  · by_cases hsib : f.sib = nil
    · have hmem := rep_ne h.tree (ptr_mem (s := m.sentinel) ht)
      rw [← heq, hsib] at hmem
      exact hmem rfl
    · refine h.notMem (ptr_mem (s := m.sentinel) ht) (mem_elems_cons.2 (.inr (.inl ?_)))
      rw [← heq]
      exact ptr_mem hsib

/-- Which child of the node above a place is. -/
theorem child_left (h : Zip m (f :: p) t) (hne : t ≠ nil ∨ f.sib ≠ nil) :
    (if m.child f.elem .left = some (ptr m.sentinel t) then Side.left else .right) = f.side := by
  have hat := h.path.1
  have hdiff := h.sib_ne hne
  cases hside : f.side with
  | left =>
    have hc := hat.child
    rw [hside] at hc
    rw [if_pos hc]
  | right =>
    have hc := hat.childOther
    rw [hside] at hc
    rw [if_neg]
    rw [show Side.left = Side.right.other from rfl, hc]
    simpa using hdiff

/-- The color of the node at the place is set. -/
theorem setColor (h : Zip m p (join d c t a u)) (c' : Color) :
    Zip (m.setColor a c') p (join d c' t a u) := by
  obtain ⟨hpath, htree, hnd⟩ := h
  obtain ⟨⟨hne, hc, hp, h1, h2⟩, ht, hu⟩ := rep_join.1 htree
  obtain ⟨hndt, -, hout⟩ := nodup_fill hnd
  have hag (l : List Nat) (hl : a ∉ l) : Agree m (m.setColor a c') l := by
    refine ⟨fun b _ e => child_setColor .., fun b hb => ?_, fun b _ => parent_setColor ..⟩
    rw [color_setColor, if_neg]
    rintro rfl
    exact hl hb
  have hat : a ∉ t.inorder ∧ a ∉ u.inorder := by
    cases d <;> simp [join, inorder, List.nodup_append'] at hndt <;> tauto
  refine ⟨?_, rep_join.2 ⟨⟨hne, by simp, fun b hb => ?_, ?_, ?_⟩,
    ht.congr rfl (hag _ hat.1), hu.congr rfl (hag _ hat.2)⟩, ?_⟩
  · rw [ptr_join] at hpath ⊢
    exact hpath.congr rfl rfl (hag _ (hout a (mem_join.2 (.inl rfl))))
  · rw [parent_setColor]
    exact hp b hb
  · rw [child_setColor]
    exact h1
  · rw [child_setColor]
    exact h2
  · rwa [inorder_fill_congr p (inorder_join_congr d c' c a rfl rfl)]

end Zip

end Zip

section Zip

variable {m : RbTree} {c : Color} {a : Nat} {l r t : ColorTree Nat} {f : Frame Nat}
  {p : List (Frame Nat)}

/-- The sibling of a place is a place too. -/
theorem zip_swap :
    Zip m (f :: p) t ↔ Zip m (⟨f.side.other, f.color, f.elem, t⟩ :: p) f.sib := by
  rw [zip_cons, zip_cons, join_other]

theorem zip_sib {d : Side} {u : ColorTree Nat} :
    Zip m (⟨d, c, a, u⟩ :: p) t ↔ Zip m (⟨d.other, c, a, t⟩ :: p) u := zip_swap

/-- The node at a place is made black. -/
theorem Zip.blacken (h : Zip m p t) (ht : t ≠ nil) :
    Zip (m.setColor (ptr m.sentinel t) .black) p t.blacken := by
  cases t with
  | nil => exact absurd rfl ht
  | node c l a r => exact Zip.setColor (d := .left) h .black

theorem Zip.color (h : Zip m p t) (hs : m.color m.sentinel = .black) :
    m.color (ptr m.sentinel t) = t.color := by
  cases t with
  | nil => exact hs
  | node c l a r => exact h.tree.1.color

theorem Zip.sib_color (h : Zip m (f :: p) t) (hs : m.color m.sentinel = .black) :
    m.color (ptr m.sentinel f.sib) = f.sib.color := (zip_swap.1 h).color hs

end Zip

/-! ## Rotations -/

/-- What no repair changes: keys, and the fields of the sentinel but its children. -/
structure Same (m m' : RbTree) : Prop where
  sentinel : m'.sentinel = m.sentinel
  insert : m'.insert = m.insert
  key : ∀ a, m'.key a = m.key a
  color : m'.color m.sentinel = m.color m.sentinel
  parent : m'.parent m.sentinel = m.parent m.sentinel

theorem Same.refl (m : RbTree) : Same m m := ⟨rfl, rfl, fun _ => rfl, rfl, rfl⟩

theorem Same.trans {m m' m'' : RbTree} (h : Same m m') (h' : Same m' m'') : Same m m'' where
  sentinel := h'.sentinel.trans h.sentinel
  insert := h'.insert.trans h.insert
  key a := (h'.key a).trans (h.key a)
  color := by rw [← h.color, ← h.sentinel, h'.color]
  parent := by rw [← h.parent, ← h.sentinel, h'.parent]

theorem Same.nil {m m' : RbTree} (h : Same m m') :
    m'.color m'.sentinel = m.color m.sentinel := by rw [h.sentinel, h.color]

theorem same_setColor {m : RbTree} {a : Nat} (c : Color) (ha : a ≠ m.sentinel) :
    Same m (m.setColor a c) := by
  refine ⟨rfl, rfl, fun b => key_setColor .., ?_, parent_setColor ..⟩
  rw [color_setColor, if_neg ha.symm]

section Reparent

variable (m : RbTree) (a b x : Nat) (e : Side)

@[simp] theorem sentinel_reparent : (reparent a b m).sentinel = m.sentinel := by
  unfold reparent
  split <;> rfl

@[simp] theorem insert_reparent : (reparent a b m).insert = m.insert := by
  unfold reparent
  split <;> rfl

@[simp] theorem root_reparent : (reparent a b m).root = m.root := by
  unfold reparent
  split <;> rfl

@[simp] theorem child_reparent : (reparent a b m).child x e = m.child x e := by
  unfold reparent
  split <;> simp

@[simp] theorem color_reparent : (reparent a b m).color x = m.color x := by
  unfold reparent
  split <;> simp

@[simp] theorem key_reparent : (reparent a b m).key x = m.key x := by
  unfold reparent
  split <;> simp

@[simp] theorem parent_reparent : (reparent a b m).parent x =
    if x = a ∧ a ≠ m.sentinel then some b else m.parent x := by
  unfold reparent
  split <;> rename_i h <;> simp [h]

end Reparent

section Rotate

variable {m : RbTree} {d : Side} {a b mid : Nat} {l : Option (Nat × Side)}

/-- `l` is the field that leads to `a`. -/
structure LedBy (m : RbTree) (a : Nat) (l : Option (Nat × Side)) : Prop where
  root : m.root = a ↔ l = none
  parent : ∀ g e, l = some (g, e) → m.parent a = some g ∧ m.child g e = some a ∧
    m.child g e.other ≠ some a

/-- Every field behind `relink`. -/
structure Relinked (m m' : RbTree) (b : Nat) (l : Option (Nat × Side)) : Prop where
  root : m'.root = if l = none then b else m.root
  child : ∀ x e, m'.child x e = if l = some (x, e) then some b else m.child x e
  parent : ∀ x, m'.parent x = m.parent x
  color : ∀ x, m'.color x = m.color x
  key : ∀ x, m'.key x = m.key x
  sentinel : m'.sentinel = m.sentinel
  insert : m'.insert = m.insert

theorem relink_spec (hl : LedBy m a l) : ∃ m', relink d a b m = some m' ∧ Relinked m m' b l := by
  cases l with
  | none =>
    have hroot : a = m.root := (hl.root.2 rfl).symm
    exact ⟨m.setRoot b, by simp [relink, hroot], by simp, by simp, fun _ => rfl, fun _ => rfl,
      fun _ => rfl, rfl, rfl⟩
  | some l =>
    obtain ⟨g, e⟩ := l
    obtain ⟨hpar, hge, hgo⟩ := hl.parent g e rfl
    have hroot : a ≠ m.root := by
      intro h
      exact absurd (hl.root.1 h.symm) (by simp)
    refine ⟨m.setChild g e (some b), ?_, by simp, fun x e' => ?_, by simp, by simp, by simp, rfl,
      rfl⟩
    · by_cases hd : d = e
      · subst hd
        simp [relink, hroot, hpar, hge]
      · obtain rfl := Side.eq_other hd
        simp [relink, hroot, hpar, hgo]
    · rw [child_setChild]
      simp [eq_comm]

/-- Every field behind a rotation at `a`, whose child on the other side is `b`. -/
structure Rotated (m m' : RbTree) (d : Side) (a b mid : Nat) (l : Option (Nat × Side)) : Prop where
  root : m'.root = if l = none then b else m.root
  child : ∀ x e, m'.child x e =
    if x = b ∧ e = d then some a
    else if l = some (x, e) then some b
    else if x = a ∧ e = d.other then some mid
    else m.child x e
  parent : ∀ x, m'.parent x =
    if x = a then some b
    else if x = b then m.parent a
    else if x = mid ∧ mid ≠ m.sentinel then some a
    else m.parent x
  color : ∀ x, m'.color x = m.color x
  key : ∀ x, m'.key x = m.key x
  sentinel : m'.sentinel = m.sentinel
  insert : m'.insert = m.insert

theorem rbtreeRotate_spec (hb : m.child a d.other = some b) (hmid : m.child b d = some mid)
    (hab : a ≠ b) (hma : mid ≠ a) (hl : LedBy m a l) (hla : ∀ g e, l = some (g, e) → g ≠ a) :
    ∃ m', rbtreeRotate d a m = some m' ∧ Rotated m m' d a b mid l := by
  have hba := hab.symm
  have ham := hma.symm
  obtain ⟨m', hm', hroot, hchild, hparent, hcolor, hkey, hsent, hins⟩ :=
    relink_spec (m := (reparent mid a (m.setChild a d.other (some mid))).setParent b
      ((reparent mid a (m.setChild a d.other (some mid))).parent a)) (a := a) (b := b) (d := d)
      (l := l) (by
        refine ⟨by simpa using hl.root, fun g e hge => ?_⟩
        obtain ⟨h1, h2, h3⟩ := hl.parent g e hge
        have hga := hla g e hge
        simp [hab, ham, hga, h1, h2, h3])
  refine ⟨(m'.setChild b d (some a)).setParent a (some b), ?_, by simpa using hroot, fun x e => ?_,
    fun x => ?_, fun x => by simp [hcolor], fun x => by simp [hkey], by simp [hsent],
    by simpa using hins⟩
  · simp only [rbtreeRotate, hb, hmid, Option.bind_eq_bind, Option.bind_some, hm']
  · simp [hchild]
  · simp [hparent, ham]

/-- The last frame of a path leads to the node at its place. -/
theorem RepPath.ledBy {p : List (Frame Nat)} (h : RepPath m p a) (ha : a ∉ elems p)
    (hne : a ≠ m.sentinel) (hpar : ∀ b ∈ up p, m.parent a = some b) : LedBy m a (link p) := by
  cases p with
  | nil => exact ⟨⟨fun _ => rfl, fun _ => h⟩, by simp [link]⟩
  | cons f p =>
    have hroot : m.root ≠ a := by
      rintro rfl
      exact ha (Zip.root_mem h)
    refine ⟨by simpa [link] using hroot, fun g e hge => ?_⟩
    obtain ⟨rfl, rfl⟩ : f.elem = g ∧ f.side = e := by simpa [link] using hge
    have hat := h.1
    refine ⟨hpar _ rfl, hat.child, ?_⟩
    rw [hat.childOther]
    intro heq
    obtain rfl : ptr m.sentinel f.sib = a := by simpa using heq
    by_cases hsib : f.sib = nil
    · rw [hsib] at hne
      exact hne rfl
    · exact ha (mem_elems_cons.2 (.inr (.inl (ptr_mem hsib))))

/-- The field that leads to the place of a path leads to the node there. -/
theorem Zip.ledBy {p : List (Frame Nat)} {t : ColorTree Nat} (h : Zip m p t) (ht : t ≠ nil) :
    LedBy m (ptr m.sentinel t) (link p) := by
  refine h.path.ledBy h.ptr_notMem (Zip.rep_ne h.tree (ptr_mem ht)) fun g hg => ?_
  cases t with
  | nil => exact absurd rfl ht
  | node c l a r => exact h.tree.1.parent g hg

theorem Zip.link_mem {p : List (Frame Nat)} {g : Nat} {e : Side} (h : link p = some (g, e)) :
    g ∈ elems p := by
  cases p with
  | nil => simp [link] at h
  | cons f p =>
    obtain ⟨rfl, rfl⟩ : f.elem = g ∧ f.side = e := by simpa [link] using h
    exact mem_elems_cons.2 (.inl rfl)

/-- A rotation of the memory is the rotation of the tree at the place. -/
theorem Zip.rotate {p : List (Frame Nat)} {c c' : Color} {t u v : ColorTree Nat}
    (h : Zip m p (join d c t a (join d c' u b v))) :
    ∃ m', rbtreeRotate d a m = some m' ∧ Zip m' p (join d c' (join d c t a u) b v) ∧
      Same m m' := by
  obtain ⟨hpath, htree, hnd⟩ := id h
  obtain ⟨⟨hne, hc, hp, h1, h2⟩, ht, hb⟩ := rep_join.1 htree
  obtain ⟨⟨hne', hc', hp', h1', h2'⟩, hu, hv⟩ := rep_join.1 hb
  rw [ptr_join] at h2 hpath
  obtain ⟨hndt, hndp, hout⟩ := nodup_fill hnd
  have hin {x : Nat} (hx : x = a ∨ x ∈ t.inorder ∨ x = b ∨ x ∈ u.inorder ∨ x ∈ v.inorder) :
      x ∉ elems p := by
    refine hout x (mem_join.2 ?_)
    rw [mem_join]
    tauto
  have hnd' : (a :: (t.inorder ++ b :: (u.inorder ++ v.inorder))).Nodup := by
    rw [(join_perm ..).nodup_iff] at hndt
    exact (((join_perm d c' u v b).append_left t.inorder).cons a).nodup_iff.1 hndt
  simp only [List.nodup_cons, List.nodup_append', List.mem_append, List.mem_cons, not_or,
    List.disjoint_cons_right, List.disjoint_append_right] at hnd'
  obtain ⟨⟨hat, hab, hau, hav⟩, hndt', ⟨⟨hbu, hbv⟩, hndu, -, huv⟩, hbt, htu, -⟩ := hnd'
  have hmu : ∀ x, x ≠ m.sentinel → x ∉ u.inorder → ptr m.sentinel u ≠ x := by
    rintro x hx hxu rfl
    cases u with
    | nil => exact hx rfl
    | node c l y r => exact hxu (by simp [ptr, inorder])
  have hled := h.ledBy (join_ne_nil d c t _ a)
  rw [ptr_join] at hled
  obtain ⟨m', hm', hrot⟩ := rbtreeRotate_spec h2 h1' hab (hmu a hne hau) hled
    fun g e hge => by
      rintro rfl
      exact hin (.inl rfl) (Zip.link_mem hge)
  obtain ⟨hroot, hchild, hparent, hcolor, hkey, hsent, hins⟩ := hrot
  have hma : ptr m.sentinel u ≠ a := hmu a hne hau
  have hmb : ptr m.sentinel u ≠ b := hmu b hne' hbu
  have hlink {x : Nat} (e : Side) (hx : x ∉ elems p) : link p ≠ some (x, e) :=
    fun hl => hx (Zip.link_mem hl)
  -- only the two nodes and the root of the middle tree have new fields
  have hag (w : ColorTree Nat) (hw : ∀ x ∈ w.inorder, x ∉ elems p) (ha : a ∉ w.inorder)
      (hb : b ∉ w.inorder) (hwu : ∀ x ∈ w.inorder, x ≠ m.sentinel → x ∉ u.inorder)
      (hws : ∀ x ∈ w.inorder, x ≠ m.sentinel) : Agree m m' w.inorder := by
    refine ⟨fun x hx e => ?_, fun x _ => hcolor x, fun x hx => ?_⟩
    · have hxa := ne_of_mem_of_not_mem hx ha
      have hxb := ne_of_mem_of_not_mem hx hb
      simp [hchild, hxa, hxb, hlink e (hw x hx)]
    · have hxa := ne_of_mem_of_not_mem hx ha
      have hxb := ne_of_mem_of_not_mem hx hb
      have hxm := hmu x (hws x hx) (hwu x hx (hws x hx))
      simp [hparent, hxa, hxb, hxm.symm]
  have hpa : a ∉ elems p := hin (.inl rfl)
  have hpb : b ∉ elems p := hin (by simp)
  refine ⟨m', hm', ⟨?_, ?_, ?_⟩, hsent, hins, hkey, hcolor _, ?_⟩
  · rw [ptr_join]
    refine hpath.redirect hsent hndp hroot (fun x hx e => ?_) (fun x _ => hcolor x) fun x hx => ?_
    · have hxa := ne_of_mem_of_not_mem hx hpa
      have hxb := ne_of_mem_of_not_mem hx hpb
      simp [hchild, hxa, hxb]
    · have hxa := ne_of_mem_of_not_mem hx hpa
      have hxb := ne_of_mem_of_not_mem hx hpb
      have hxm := hmu x (Zip.path_ne hpath hx) fun hxu => hin (by simp [hxu]) hx
      simp [hparent, hxa, hxb, hxm.symm]
  · refine rep_join.2 ⟨⟨hsent ▸ hne', (hcolor b).trans hc', fun g hg => ?_, ?_, ?_⟩,
      rep_join.2 ⟨⟨hsent ▸ hne, (hcolor a).trans hc, fun g hg => ?_, ?_, ?_⟩, ?_, ?_⟩, ?_⟩
    · rw [hparent, if_neg (Ne.symm hab), if_pos rfl]
      exact hp g hg
    · simp [hchild]
    · simp [hchild, hlink _ hpb, Ne.symm hab, hsent, h2']
    · obtain rfl : b = g := by simpa using hg
      simp [hparent]
    · simp [hchild, hab, hlink _ hpa, hsent, h1]
    · simp [hchild, hab, hlink _ hpa, hsent]
    · exact ht.congr hsent (hag t (fun x hx => hin (by simp [hx])) hat hbt
        (fun x hx _ hxu => htu hx hxu) fun x hx => Zip.rep_ne ht hx)
    · refine hu.reparent hsent hndu (fun x hx e => ?_) (fun x _ => hcolor x) (fun x hx hxm => ?_)
        fun hne g hg => ?_
      · have hxa := ne_of_mem_of_not_mem hx hau
        have hxb := ne_of_mem_of_not_mem hx hbu
        simp [hchild, hxa, hxb, hlink e (hin (x := x) (by simp [hx]))]
      · have hxa := ne_of_mem_of_not_mem hx hau
        have hxb := ne_of_mem_of_not_mem hx hbu
        simp [hparent, hxa, hxb, hxm]
      · obtain rfl : a = g := by simpa using hg
        have hms := Zip.rep_ne hu (ptr_mem (s := m.sentinel) hne)
        simp [hparent, hma, hmb, hms]
    · exact hv.congr hsent (hag v (fun x hx => hin (by simp [hx])) hav hbv
        (fun x hx _ hxu => huv hxu hx) fun x hx => Zip.rep_ne hv hx)
  · rwa [inorder_fill_congr p (inorder_rotate d _ _ _ _ _ _ _ _ _).symm]
  · have hsa := hne.symm
    have hsb := hne'.symm
    simp only [hparent, if_neg hsa, if_neg hsb]
    rw [if_neg]
    rintro ⟨h1, h2⟩
    exact h2 h1.symm

end Rotate

end RbTree
end Shs
