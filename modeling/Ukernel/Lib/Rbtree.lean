import Ukernel.Lib.RedBlack

/-!
# The pointer red-black tree

`kernel/lib/rbtree.c`: nodes with parent pointers and a sentinel `nil` that the tree allocates and
whose parent field deletion overwrites. A node is an address; the memory maps addresses to nodes.
Where the source has a left and a right version of the same code, the model has one definition
with a side.

Loops take fuel; no result stands for a loop that has not ended.

## Main definitions

* `RbTree`: a memory of nodes with a root and a sentinel
* `insertFixup`, `rbtreeInsert`, `deleteFixup`, `rbtreeDelete`: the operations
-/

namespace Ukernel.Lib

/-- `rbnode`. -/
structure RbNode where
  col : Color
  parent : Nat
  left : Nat
  right : Nat

/-- The nodes in memory, and the fields of `rbtree`. -/
structure RbTree where
  mem : Nat → RbNode
  root : Nat
  nil : Nat

/-- The other side. -/
def Side.flip : Side → Side
  | .left => .right
  | .right => .left

@[simp] theorem Side.flip_flip (d : Side) : d.flip.flip = d := by cases d <;> rfl

/-- The child on a side. -/
def RbNode.child (n : RbNode) : Side → Nat
  | .left => n.left
  | .right => n.right

/-- Replace the child on a side. -/
def RbNode.withChild (n : RbNode) (d : Side) (c : Nat) : RbNode :=
  match d with
  | .left => { n with left := c }
  | .right => { n with right := c }

/-- Replace the colour. -/
def RbNode.withCol (n : RbNode) (c : Color) : RbNode := { n with col := c }

/-- Replace the parent. -/
def RbNode.withParent (n : RbNode) (p : Nat) : RbNode := { n with parent := p }

namespace RbTree

/-- Write to one node. -/
def modify (s : RbTree) (x : Nat) (f : RbNode → RbNode) : RbTree :=
  { s with mem := Function.update s.mem x (f (s.mem x)) }

/-- `x->col = c`. -/
def setCol (s : RbTree) (x : Nat) (c : Color) : RbTree := s.modify x (·.withCol c)

/-- `x->parent = p`. -/
def setParent (s : RbTree) (x p : Nat) : RbTree := s.modify x (·.withParent p)

/-- `x->left = c` or `x->right = c`. -/
def setChild (s : RbTree) (d : Side) (x c : Nat) : RbTree := s.modify x (·.withChild d c)

/-- Let `new` take the place of `old` below `parent`, or at the root. -/
def replaceChild (s : RbTree) (parent old new : Nat) : RbTree :=
  if parent = s.nil then { s with root := new }
  else if (s.mem parent).left = old then s.setChild .left parent new
  else s.setChild .right parent new

/-- The first half of a rotation: `up`, a child of `node`, becomes its parent. -/
def rotateBelow (d : Side) (s : RbTree) (node up parent : Nat) : RbTree :=
  let s := s.setChild d.flip node ((s.mem up).child d)
  let s := if (s.mem up).child d ≠ s.nil then s.setParent ((s.mem up).child d) node else s
  (s.setChild d up node).setParent up parent

/-- `left_rotate` for the left side and `right_rotate` for the right side. -/
def rotate (d : Side) (s : RbTree) (node : Nat) : RbTree :=
  let up := (s.mem node).child d.flip
  let parent := (s.mem node).parent
  let s := s.rotateBelow d node up parent
  let s := s.replaceChild parent node up
  s.setParent node up

/-- `left_rotate`. -/
def leftRotate (s : RbTree) (node : Nat) : RbTree := s.rotate .left node

/-- `right_rotate`. -/
def rightRotate (s : RbTree) (node : Nat) : RbTree := s.rotate .right node

/-- `rbtree_replace_node`. -/
def rbtreeReplaceNode (s : RbTree) (old new : Nat) : RbTree :=
  let s := s.replaceChild (s.mem old).parent old new
  s.setParent new (s.mem old).parent

/-- `rbtree_create`, with `nil` the address of the sentinel. -/
def rbtreeCreate (mem : Nat → RbNode) (nil : Nat) : RbTree :=
  ⟨Function.update mem nil ⟨.black, nil, nil, nil⟩, nil, nil⟩

/-- The end of a pass of `insert_fixup` with a black uncle: `node`'s parent is the child of its
grandparent on side `d`. -/
def insertRotate (d : Side) (s : RbTree) (node : Nat) : RbTree :=
  let turn := node = (s.mem (s.mem node).parent).child d.flip
  let s' := if turn then s.rotate d (s.mem node).parent else s
  let node := if turn then (s.mem node).parent else node
  let s := s'.setCol (s'.mem node).parent .black
  let s := s.setCol (s.mem (s.mem node).parent).parent .red
  s.rotate d.flip (s.mem (s.mem node).parent).parent

/-- The recolouring of `insert_fixup` with a red uncle. -/
def insertRecolor (s : RbTree) (node uncle : Nat) : RbTree :=
  let s := s.setCol (s.mem node).parent .black
  let s := s.setCol uncle .black
  s.setCol (s.mem (s.mem node).parent).parent .red

/-- `insert_fixup`. -/
def insertFixup : (fuel : Nat) → RbTree → Nat → Option RbTree
  | 0, _, _ => none
  | fuel + 1, s, node =>
    let parent := (s.mem node).parent
    if parent ≠ s.nil ∧ (s.mem parent).col = .red then
      let grand := (s.mem parent).parent
      let d : Side := if (s.mem grand).left = parent then .left else .right
      let uncle := (s.mem grand).child d.flip
      if (s.mem uncle).col = .red then insertFixup fuel (s.insertRecolor node uncle) grand
      else some (s.insertRotate d node)
    else some s

/-- The search of `rbtree_insert` for the place of a new node. -/
def insertSearch (cmp : Nat → Nat → Int) (s : RbTree) (new : Nat) :
    (fuel node parent : Nat) → Option Nat
  | 0, _, _ => none
  | fuel + 1, node, parent =>
    if node = s.nil then some parent
    else if cmp new node < 0 then insertSearch cmp s new fuel (s.mem node).left node
    else insertSearch cmp s new fuel (s.mem node).right node

/-- `rbtree_insert`. -/
def rbtreeInsert (fuel : Nat) (cmp : Nat → Nat → Int) (s : RbTree) (new : Nat) : Option RbTree :=
  if new = 0 then some s
  else
    let s := s.modify new fun _ => ⟨.red, s.nil, s.nil, s.nil⟩
    if s.root = s.nil then some ({ s with root := new }.setCol new .black)
    else do
      let parent ← insertSearch cmp s new fuel s.root s.nil
      let s := s.setParent new parent
      let s := if cmp new parent < 0 then s.setChild .left parent new
        else s.setChild .right parent new
      let s ← insertFixup fuel s new
      return s.setCol s.root .black

/-- The first part of a pass of `delete_fixup`: make the brother of `node` black. -/
def deleteRedBrother (d : Side) (s : RbTree) (node : Nat) : RbTree :=
  let parent := (s.mem node).parent
  let brother := (s.mem parent).child d.flip
  if (s.mem brother).col = .red then
    let s := s.setCol brother .black
    let s := s.setCol (s.mem brother).parent .red
    s.rotate d (s.mem node).parent
  else s

/-- The end of a pass of `delete_fixup` when a nephew is red. -/
def deleteRotate (d : Side) (s : RbTree) (node : Nat) : RbTree :=
  let brother := (s.mem (s.mem node).parent).child d.flip
  let s :=
    if (s.mem ((s.mem brother).child d.flip)).col = .black then
      let s := s.setCol ((s.mem brother).child d) .black
      let s := s.setCol brother .red
      s.rotate d.flip brother
    else s
  let parent := (s.mem node).parent
  let brother := (s.mem parent).child d.flip
  let s := s.setCol brother (s.mem parent).col
  let s := s.setCol parent .black
  let s := s.setCol ((s.mem brother).child d.flip) .black
  s.rotate d parent

/-- The loop of `delete_fixup`: the state and the node at its end. -/
def deleteFixupLoop : (fuel : Nat) → RbTree → Nat → Option (RbTree × Nat)
  | 0, _, _ => none
  | fuel + 1, s, node =>
    if node ≠ s.root ∧ (s.mem node).col = .black then
      let d : Side := if node = (s.mem (s.mem node).parent).left then .left else .right
      let s := s.deleteRedBrother d node
      let parent := (s.mem node).parent
      let brother := (s.mem parent).child d.flip
      if (s.mem (s.mem brother).left).col = .black ∧ (s.mem (s.mem brother).right).col = .black then
        let s := if brother ≠ s.nil then s.setCol brother .red else s
        deleteFixupLoop fuel s (s.mem node).parent
      else some (s.deleteRotate d node, node)
    else some (s, node)

/-- `delete_fixup`. -/
def deleteFixup (fuel : Nat) (s : RbTree) (node : Nat) : Option RbTree := do
  let r ← deleteFixupLoop fuel s node
  return r.1.setCol r.2 .black

/-- The leftmost node from `node` down. -/
def leftmost (s : RbTree) : (fuel node : Nat) → Option Nat
  | 0, _ => none
  | fuel + 1, node =>
    if (s.mem node).left ≠ s.nil then leftmost s fuel (s.mem node).left else some node

/-- The common end of the two-children branch of `rbtree_delete`: `y` takes the place of `x`, with
the left subtree of `x` and a right subtree that it already has. -/
def takePlace (s : RbTree) (x y : Nat) : RbTree :=
  let s := s.rbtreeReplaceNode x y
  let s := s.setChild .left y (s.mem x).left
  let s := s.setParent (s.mem y).left y
  s.setCol y (s.mem x).col

/-- The branch of `rbtree_delete` for a node with two children, `new` being its successor. -/
def deleteReplace (s : RbTree) (node new : Nat) : RbTree :=
  let fixupNode := (s.mem new).right
  let s :=
    if (s.mem new).parent = node then
      let s := s.setParent (s.mem node).left new
      let s := s.setChild .left new (s.mem node).left
      s.setParent fixupNode new
    else
      let s := s.rbtreeReplaceNode new (s.mem new).right
      let s := s.setChild .right new (s.mem node).right
      s.setParent (s.mem new).right new
  s.takePlace node new

/-- `rbtree_delete`. -/
def rbtreeDelete (fuel : Nat) (s : RbTree) (node : Nat) : Option RbTree :=
  if node = 0 then some s
  else if (s.mem node).left = s.nil then
    let fixupNode := (s.mem node).right
    let s' := s.rbtreeReplaceNode node fixupNode
    if (s.mem node).col = .black then deleteFixup fuel s' fixupNode else some s'
  else if (s.mem node).right = s.nil then
    let fixupNode := (s.mem node).left
    let s' := s.rbtreeReplaceNode node fixupNode
    if (s.mem node).col = .black then deleteFixup fuel s' fixupNode else some s'
  else do
    let new ← leftmost s fuel (s.mem node).right
    let fixupNode := (s.mem new).right
    let s' := s.deleteReplace node new
    if (s.mem new).col = .black then deleteFixup fuel s' fixupNode else some s'

end RbTree

end Ukernel.Lib
