import Mathlib.Logic.Function.Basic
import Shs.Lib.RedBlack

/-!
# Core.RbTree

The red-black tree of `shs_rbtree.cc`. A node is an address, and the memory of a tree gives the
fields of every node. The two halves of each repair loop mirror each other in the source; here they
are one function of a `Side`. A function has no result where the source follows a null pointer, or
where its loop needs more iterations than `fuel`.
-/

namespace Shs

open RedBlack (Side Color)

/-- `rbtree_node_t`; `child .left` is `left`, and `none` is null. -/
structure RbNode where
  key : Int := 0
  child : Side → Option Nat := fun _ => none
  parent : Option Nat := none
  color : Color := .black

/-- The functions that `tree->insert` can be. -/
inductive RbInsert where
  | value
  | timerValue
  deriving DecidableEq

/-- `rbtree_t` and the memory of its nodes. -/
structure RbTree where
  nodes : Nat → RbNode
  root : Nat
  sentinel : Nat
  insert : RbInsert

namespace RbTree

variable (m : RbTree) (a : Nat)

def child (d : Side) : Option Nat := (m.nodes a).child d

def parent : Option Nat := (m.nodes a).parent

def color : Color := (m.nodes a).color

def key : Int := (m.nodes a).key

def setNode (v : RbNode) : RbTree := { m with nodes := Function.update m.nodes a v }

def setChild (d : Side) (p : Option Nat) : RbTree :=
  m.setNode a { m.nodes a with child := Function.update (m.nodes a).child d p }

def setParent (p : Option Nat) : RbTree := m.setNode a { m.nodes a with parent := p }

def setColor (c : Color) : RbTree := m.setNode a { m.nodes a with color := c }

def setKey (k : Int) : RbTree := m.setNode a { m.nodes a with key := k }

def setRoot : RbTree := { m with root := a }

section Fields

variable (b : Nat) (c : Color) (d e : Side) (k : Int) (p : Option Nat)

@[simp] theorem sentinel_setChild : (m.setChild a d p).sentinel = m.sentinel := rfl
@[simp] theorem sentinel_setParent : (m.setParent a p).sentinel = m.sentinel := rfl
@[simp] theorem sentinel_setColor : (m.setColor a c).sentinel = m.sentinel := rfl
@[simp] theorem sentinel_setKey : (m.setKey a k).sentinel = m.sentinel := rfl
@[simp] theorem sentinel_setRoot : (m.setRoot a).sentinel = m.sentinel := rfl

@[simp] theorem insert_setChild : (m.setChild a d p).insert = m.insert := rfl
@[simp] theorem insert_setParent : (m.setParent a p).insert = m.insert := rfl
@[simp] theorem insert_setColor : (m.setColor a c).insert = m.insert := rfl
@[simp] theorem insert_setKey : (m.setKey a k).insert = m.insert := rfl
@[simp] theorem insert_setRoot : (m.setRoot a).insert = m.insert := rfl

@[simp] theorem root_setChild : (m.setChild a d p).root = m.root := rfl
@[simp] theorem root_setParent : (m.setParent a p).root = m.root := rfl
@[simp] theorem root_setColor : (m.setColor a c).root = m.root := rfl
@[simp] theorem root_setKey : (m.setKey a k).root = m.root := rfl
@[simp] theorem root_setRoot : (m.setRoot a).root = a := rfl

@[simp] theorem child_setChild :
    (m.setChild a d p).child b e = if b = a ∧ e = d then p else m.child b e := by
  by_cases hb : b = a
  · subst hb
    simp [child, setChild, setNode, Function.update_apply]
  · simp [child, setChild, setNode, hb]

@[simp] theorem child_setParent : (m.setParent a p).child b e = m.child b e := by
  by_cases hb : b = a <;> simp [child, setParent, setNode, hb]

@[simp] theorem child_setColor : (m.setColor a c).child b e = m.child b e := by
  by_cases hb : b = a <;> simp [child, setColor, setNode, hb]

@[simp] theorem child_setKey : (m.setKey a k).child b e = m.child b e := by
  by_cases hb : b = a <;> simp [child, setKey, setNode, hb]

@[simp] theorem child_setRoot : (m.setRoot a).child b e = m.child b e := rfl

@[simp] theorem parent_setChild : (m.setChild a d p).parent b = m.parent b := by
  by_cases hb : b = a <;> simp [parent, setChild, setNode, hb]

@[simp] theorem parent_setParent :
    (m.setParent a p).parent b = if b = a then p else m.parent b := by
  by_cases hb : b = a <;> simp [parent, setParent, setNode, hb]

@[simp] theorem parent_setColor : (m.setColor a c).parent b = m.parent b := by
  by_cases hb : b = a <;> simp [parent, setColor, setNode, hb]

@[simp] theorem parent_setKey : (m.setKey a k).parent b = m.parent b := by
  by_cases hb : b = a <;> simp [parent, setKey, setNode, hb]

@[simp] theorem parent_setRoot : (m.setRoot a).parent b = m.parent b := rfl

@[simp] theorem color_setChild : (m.setChild a d p).color b = m.color b := by
  by_cases hb : b = a <;> simp [color, setChild, setNode, hb]

@[simp] theorem color_setParent : (m.setParent a p).color b = m.color b := by
  by_cases hb : b = a <;> simp [color, setParent, setNode, hb]

@[simp] theorem color_setColor : (m.setColor a c).color b = if b = a then c else m.color b := by
  by_cases hb : b = a <;> simp [color, setColor, setNode, hb]

@[simp] theorem color_setKey : (m.setKey a k).color b = m.color b := by
  by_cases hb : b = a <;> simp [color, setKey, setNode, hb]

@[simp] theorem color_setRoot : (m.setRoot a).color b = m.color b := rfl

@[simp] theorem key_setChild : (m.setChild a d p).key b = m.key b := by
  by_cases hb : b = a <;> simp [key, setChild, setNode, hb]

@[simp] theorem key_setParent : (m.setParent a p).key b = m.key b := by
  by_cases hb : b = a <;> simp [key, setParent, setNode, hb]

@[simp] theorem key_setColor : (m.setColor a c).key b = m.key b := by
  by_cases hb : b = a <;> simp [key, setColor, setNode, hb]

@[simp] theorem key_setKey : (m.setKey a k).key b = if b = a then k else m.key b := by
  by_cases hb : b = a <;> simp [key, setKey, setNode, hb]

@[simp] theorem key_setRoot : (m.setRoot a).key b = m.key b := rfl

end Fields

end RbTree

open RbTree

/-- `rbtree_init` at sentinel `s`. -/
def rbtreeInit (s : Nat) (i : RbInsert) (m : RbTree) : RbTree :=
  { m.setColor s .black with root := s, sentinel := s, insert := i }

/-- `if (child != sentinel) child->parent = node`. -/
def reparent (child node : Nat) (m : RbTree) : RbTree :=
  if child ≠ m.sentinel then m.setParent child (some node) else m

/-- The field that leads to `node`, the root or a child of its parent, gets `temp`; the child on
side `d` is compared first. -/
def relink (d : Side) (node temp : Nat) (m : RbTree) : Option RbTree :=
  if node = m.root then some (m.setRoot temp)
  else do
    let p ← m.parent node
    if m.child p d = some node then some (m.setChild p d (some temp))
    else some (m.setChild p d.other (some temp))

/-- `rbtree_left_rotate` for the left side, `rbtree_right_rotate` for the right. -/
def rbtreeRotate (d : Side) (node : Nat) (m : RbTree) : Option RbTree := do
  let temp ← m.child node d.other
  let mid ← m.child temp d
  let m := reparent mid node (m.setChild node d.other (some mid))
  let m ← relink d node temp (m.setParent temp (m.parent node))
  let m := m.setChild temp d (some node)
  some (m.setParent node (some temp))

/-- `rbtree_insert_value` from its loop on. -/
def rbtreeInsertValue : Nat → Nat → Nat → RbTree → Option RbTree
  | 0, _, _, _ => none
  | fuel + 1, temp, node, m => do
    let d : Side := if m.key node < m.key temp then .left else .right
    let p ← m.child temp d
    if p = m.sentinel then
      let m := m.setChild temp d (some node)
      let m := m.setParent node (some temp)
      let m := m.setChild node .left (some m.sentinel)
      let m := m.setChild node .right (some m.sentinel)
      some (m.setColor node .red)
    else rbtreeInsertValue fuel p node m

/-- `rbtree_insert_timer_value`. `rbtree_key` is a signed type, so its casts to `rbtree_key_int`
change nothing, and its pointers are not null. -/
def rbtreeInsertTimerValue (fuel root node : Nat) (m : RbTree) : Option RbTree :=
  rbtreeInsertValue fuel root node m

/-- The end of the loop body in `rbtree_insert`, where the uncle is black and `node` is the child of
its parent on side `d`. -/
def insertLift (d : Side) (node : Nat) (m : RbTree) : Option RbTree := do
  let parent ← m.parent node
  let m := m.setColor parent .black
  let grand ← m.parent parent
  let m := m.setColor grand .red
  rbtreeRotate d.other grand m

/-- The loop of `rbtree_insert`. -/
def insertRebalance : Nat → Nat → RbTree → Option RbTree
  | 0, _, _ => none
  | fuel + 1, node, m =>
    if node = m.root then some m
    else do
      let parent ← m.parent node
      if m.color parent = .black then some m
      else
        let grand ← m.parent parent
        let d : Side := if m.child grand .left = some parent then .left else .right
        let temp ← m.child grand d.other
        if m.color temp = .red then
          let m := ((m.setColor parent .black).setColor temp .black).setColor grand .red
          insertRebalance fuel grand m
        else
          let (node, m) ←
            if m.child parent d.other = some node then
              (rbtreeRotate d parent m).map fun m => (parent, m)
            else some (node, m)
          let m ← insertLift d node m
          insertRebalance fuel node m

def rbtreeInsert (fuel node : Nat) (m : RbTree) : Option RbTree :=
  if m.root = m.sentinel then
    let m := m.setParent node none
    let m := m.setChild node .left (some m.sentinel)
    let m := m.setChild node .right (some m.sentinel)
    some ((m.setColor node .black).setRoot node)
  else do
    let m ← match m.insert with
      | .value => rbtreeInsertValue fuel m.root node m
      | .timerValue => rbtreeInsertTimerValue fuel m.root node m
    let m ← insertRebalance fuel node m
    some (m.setColor m.root .black)

def rbtreeMin : Nat → Nat → RbTree → Option Nat
  | 0, _, _ => none
  | fuel + 1, node, m => do
    let l ← m.child node .left
    if l = m.sentinel then some node else rbtreeMin fuel l m

/-- `w = temp->parent->right`, for `temp` on the left side. -/
def sibling (d : Side) (temp : Nat) (m : RbTree) : Option Nat := do
  let p ← m.parent temp
  m.child p d.other

/-- The red sibling `w` in the loop of `rbtree_delete`, and the sibling behind it. -/
def deleteRaise (d : Side) (temp parent w : Nat) (m : RbTree) : Option (Nat × RbTree) :=
  if m.color w = .red then do
    let m := (m.setColor w .black).setColor parent .red
    let m ← rbtreeRotate d parent m
    let w ← sibling d temp m
    some (w, m)
  else some (w, m)

/-- The last branch in the loop of `rbtree_delete`: the black sibling `w` has a red child. -/
def deleteTurn (d : Side) (temp w near far : Nat) (m : RbTree) : Option RbTree := do
  let (w, m) ←
    if m.color far = .black then do
      let m := (m.setColor near .black).setColor w .red
      let m ← rbtreeRotate d.other w m
      let w ← sibling d temp m
      some (w, m)
    else some (w, m)
  let parent ← m.parent temp
  let m := m.setColor w (m.color parent)
  let m := m.setColor parent .black
  let far ← m.child w d.other
  rbtreeRotate d parent (m.setColor far .black)

/-- The black sibling `w` in the loop of `rbtree_delete`: what `temp` is for the next iteration. -/
def deleteBalance (d : Side) (temp w : Nat) (m : RbTree) : Option (Nat × RbTree) := do
  let near ← m.child w d
  let far ← m.child w d.other
  if m.color near = .black ∧ m.color far = .black then do
    let m := m.setColor w .red
    let parent ← m.parent temp
    some (parent, m)
  else do
    let m ← deleteTurn d temp w near far m
    some (m.root, m)

/-- The loop of `rbtree_delete` and the line behind it. -/
def deleteRebalance : Nat → Nat → RbTree → Option RbTree
  | 0, _, _ => none
  | fuel + 1, temp, m =>
    if temp = m.root ∨ m.color temp = .red then some (m.setColor temp .black)
    else do
      let parent ← m.parent temp
      let d : Side := if m.child parent .left = some temp then .left else .right
      let w ← sibling d temp m
      let (w, m) ← deleteRaise d temp parent w m
      let (temp, m) ← deleteBalance d temp w m
      deleteRebalance fuel temp m

/-- `node->left = node->right = node->parent = NULL; node->key = 0`. -/
def forget (node : Nat) (m : RbTree) : RbTree :=
  (((m.setChild node .left none).setChild node .right none).setParent node none).setKey node 0

/-- `subst` takes the place of `node` in `rbtree_delete`. -/
def replaceNode (node subst : Nat) (m : RbTree) : Option RbTree := do
  let m := m.setChild subst .left (m.child node .left)
  let m := m.setChild subst .right (m.child node .right)
  let m := m.setParent subst (m.parent node)
  let m := m.setColor subst (m.color node)
  let m ← relink .left node subst m
  let l ← m.child subst .left
  let m := reparent l subst m
  let r ← m.child subst .right
  some (reparent r subst m)

/-- The first lines of `rbtree_delete`: `temp` and `subst`. -/
def deleteTarget (fuel node : Nat) (m : RbTree) : Option (Nat × Nat) := do
  let l ← m.child node .left
  let r ← m.child node .right
  if l = m.sentinel then some (r, node)
  else if r = m.sentinel then some (l, node)
  else do
    let subst ← rbtreeMin fuel r m
    let l ← m.child subst .left
    if l ≠ m.sentinel then some (l, subst)
    else do
      let r ← m.child subst .right
      some (r, subst)

def rbtreeDelete (fuel node : Nat) (m : RbTree) : Option RbTree := do
  let (temp, subst) ← deleteTarget fuel node m
  if subst = m.root then
    some (forget node ((m.setRoot temp).setColor temp .black))
  else do
    let red := m.color subst
    let p ← m.parent subst
    let m :=
      if m.child p .left = some subst then m.setChild p .left (some temp)
      else m.setChild p .right (some temp)
    let m ←
      if subst = node then some (m.setParent temp (m.parent subst))
      else
        let m :=
          if m.parent subst = some node then m.setParent temp (some subst)
          else m.setParent temp (m.parent subst)
        replaceNode node subst m
    let m := forget node m
    if red = .red then some m else deleteRebalance fuel temp m

end Shs
