import MorningProjects.Common.Status

/-!
# The three search trees of tree.c

One node type serves `bstree_node_tag`, `avltree_node_tag` and
`rbtree_node_tag`: the library casts between them, and they differ only in the
color field. A `none` result is a dereferenced NULL pointer. The numbers a
comparator returns are integers; they are cut to `int8_t` only where the source
stores them in one.
-/
namespace MorningProjects.Tree

/-- A node reference: NULL or a node with its fields. The first two kinds of
tree carry `Unit` where a red-black node carries its color. -/
inductive Node (κ D : Type*) where
  | null
  | node (data : D) (color : κ) (leftChild rightChild : Node κ D)
  deriving DecidableEq, Repr

/-- The part of `tree_tag` that operations change. -/
structure TreeTag (κ D : Type*) where
  numNodes : UInt32
  root : Node κ D
  deriving DecidableEq, Repr

def treeCreate {κ D : Type*} : TreeTag κ D := ⟨0, .null⟩

abbrev BstNode (D : Type*) := Node Unit D
abbrev AvlNode (D : Type*) := Node Unit D
/-- The color field holds whatever value the enum's memory holds. -/
abbrev RbNode (D : Type*) := Node UInt32 D

def red : UInt32 := 0
def black : UInt32 := 1

namespace Node

variable {κ D : Type*}

/-- A fresh node after `malloc`, `memset` and the assignment of its data. -/
def leaf (color : κ) (data : D) : Node κ D := .node data color .null .null

def size : Node κ D → ℕ
  | .null => 0
  | .node _ _ l r => l.size + 1 + r.size

@[simp] theorem size_null : (null : Node κ D).size = 0 := rfl

@[simp] theorem size_node (d : D) (c : κ) (l r : Node κ D) :
    (node d c l r).size = l.size + 1 + r.size := rfl

end Node

section Shared

variable {κ D : Type*}

/-- The data `traverse_inorder` displays, in order. -/
def traverseInorder : Node κ D → List D
  | .null => []
  | .node d _ l r => traverseInorder l ++ d :: traverseInorder r

@[simp] theorem traverseInorder_null : traverseInorder (.null : Node κ D) = [] := rfl

@[simp] theorem traverseInorder_node (d : D) (c : κ) (l r : Node κ D) :
    traverseInorder (.node d c l r) = traverseInorder l ++ d :: traverseInorder r := rfl

theorem length_traverseInorder (t : Node κ D) : (traverseInorder t).length = t.size := by
  induction t with
  | null => rfl
  | node d c l r ihl ihr =>
    simp only [traverseInorder_node, List.length_append, List.length_cons, ihl, ihr,
      Node.size_node]
    omega

def lookup (compare : D → D → ℤ) (data : D) : Node κ D → Option (Node κ D)
  | .null => none
  | .node d c l r =>
    if compare data d < 0 then lookup compare data l
    else if compare data d > 0 then lookup compare data r
    else some (.node d c l r)

def bstreeLookup (compare : D → D → ℤ) (t : TreeTag κ D) (data : D) : Bool :=
  (lookup compare data t.root).isSome

def nodeAttach (compare : D → D → ℤ) (data : D) (nodeToAttach : Node κ D) :
    Node κ D → Node κ D
  | .null => nodeToAttach
  | .node d c l r =>
    if compare data d < 0 then .node d c (nodeAttach compare data nodeToAttach l) r
    else .node d c l (nodeAttach compare data nodeToAttach r)

end Shared

/-! ### Binary search tree -/

section Bst

variable {D : Type*} (compare : D → D → ℤ)

/-- `BStree_attach`; `malloc` is `none` when it answers NULL. -/
def bstreeAttach (t : TreeTag Unit D) (data : D) : (malloc : Option Unit) →
    ExitStatus × TreeTag Unit D
  | none => (.failure, t)
  | some color =>
    (.success, ⟨t.numNodes + 1, nodeAttach compare data (.leaf color data) t.root⟩)

end Bst

/-! ### AVL tree -/

section Avl

variable {κ D : Type*} (compare : D → D → ℤ)

/-- `avl_node_attach` is the same descent as `node_attach`. -/
def avlNodeAttach (data : D) (nodeToAttach : Node κ D) : Node κ D → Node κ D :=
  nodeAttach compare data nodeToAttach

/-- The height `avl_node_height` returns; a NULL child counts zero. -/
def avlNodeHeight : Node κ D → ℕ
  | .null => 0
  | .node _ _ l r => max (avlNodeHeight l) (avlNodeHeight r) + 1

@[simp] theorem avlNodeHeight_null : avlNodeHeight (.null : Node κ D) = 0 := rfl

@[simp] theorem avlNodeHeight_node (d : D) (c : κ) (l r : Node κ D) :
    avlNodeHeight (.node d c l r) = max (avlNodeHeight l) (avlNodeHeight r) + 1 := rfl

/-- The value `avl_node_height` stores through `balance_factor`. -/
def balanceFactor : Node κ D → ℤ
  | .null => 0
  | .node _ _ l r => (avlNodeHeight l : ℤ) - avlNodeHeight r

@[simp] theorem balanceFactor_node (d : D) (c : κ) (l r : Node κ D) :
    balanceFactor (.node d c l r) = (avlNodeHeight l : ℤ) - avlNodeHeight r := rfl

def avlRotationLL : Node κ D → Option (Node κ D)
  | .node d c (.node ld lc ll lr) r => some (.node ld lc ll (.node d c lr r))
  | _ => none

def avlRotationRR : Node κ D → Option (Node κ D)
  | .node d c l (.node rd rc rl rr) => some (.node rd rc (.node d c l rl) rr)
  | _ => none

def avlRotationLR : Node κ D → Option (Node κ D)
  | .node d c l r => (avlRotationRR l).bind fun l' => avlRotationLL (.node d c l' r)
  | .null => none

def avlRotationRL : Node κ D → Option (Node κ D)
  | .node d c l r => (avlRotationLL r).bind fun r' => avlRotationRR (.node d c l r')
  | .null => none

/-- A link inside the tree, as the turns from the root down to it. -/
inductive Turn where
  | left
  | right
  deriving DecidableEq, Repr

/-- Write through a link: the node it refers to is replaced. -/
def setLink (f : Node κ D → Option (Node κ D)) : List Turn → Node κ D → Option (Node κ D)
  | [], t => f t
  | .left :: path, .node d c l r => (setLink f path l).map fun l' => .node d c l' r
  | .right :: path, .node d c l r => (setLink f path r).map fun r' => .node d c l r'
  | _ :: _, .null => none

/-- The while loop of `avl_rebalance`: walk to NULL by comparisons and remember
the link of the last node whose balance factor is off. -/
def avlPivot (data : D) : Node κ D → List Turn → Option (List Turn) → Option (List Turn)
  | .null, _, pivotNode => pivotNode
  | .node d c l r, currentNode, pivotNode =>
    let pivotNode :=
      if (balanceFactor (.node d c l r)).natAbs > 1 then some currentNode else pivotNode
    if compare data d < 0 then avlPivot data l (currentNode ++ [.left]) pivotNode
    else avlPivot data r (currentNode ++ [.right]) pivotNode

/-- The rotation `avl_rebalance` picks at the pivot by two more comparisons. -/
def avlRotate (data : D) : Node κ D → Option (Node κ D)
  | .null => none
  | .node d c l r =>
    if compare data d < 0 then
      match l with
      | .null => none
      | .node ld _ _ _ =>
        if compare data ld < 0 then avlRotationLL (.node d c l r)
        else avlRotationLR (.node d c l r)
    else
      match r with
      | .null => none
      | .node rd _ _ _ =>
        if compare data rd < 0 then avlRotationRL (.node d c l r)
        else avlRotationRR (.node d c l r)

def avlRebalance (data : D) (root : Node κ D) : Option (Node κ D) :=
  match avlPivot compare data root [] none with
  | none => some root
  | some pivotNode => setLink (avlRotate compare data) pivotNode root

def avltreeAttach (t : TreeTag Unit D) (data : D) : (malloc : Option Unit) →
    Option (ExitStatus × TreeTag Unit D)
  | none => some (.failure, t)
  | some color =>
    match t.root with
    | .null => some (.success, ⟨t.numNodes + 1, .leaf color data⟩)
    | .node d c l r =>
      (avlRebalance compare data
        (avlNodeAttach compare data (.leaf color data) (.node d c l r))).map
          fun root => (.success, ⟨t.numNodes + 1, root⟩)

end Avl

/-! ### Red-black tree -/

section RedBlack

variable {D : Type*} (compare : D → D → ℤ)

def isRed : RbNode D → Bool
  | .null => false
  | .node _ c _ _ => c == red

def setColor (color : UInt32) : RbNode D → Option (RbNode D)
  | .null => none
  | .node d _ l r => some (.node d color l r)

def leftChild : RbNode D → Option (RbNode D)
  | .null => none
  | .node _ _ l _ => some l

def rightChild : RbNode D → Option (RbNode D)
  | .null => none
  | .node _ _ _ r => some r

def rbRotationLL : RbNode D → Option (RbNode D)
  | .node d _ (.node ld _ ll lr) r => some (.node ld black ll (.node d red lr r))
  | _ => none

def rbRotationRR : RbNode D → Option (RbNode D)
  | .node d _ l (.node rd _ rl rr) => some (.node rd black (.node d red l rl) rr)
  | _ => none

def rbRotationLR : RbNode D → Option (RbNode D)
  | .node d c l r => (rbRotationRR l).bind fun l' => rbRotationLL (.node d c l' r)
  | .null => none

def rbRotationRL : RbNode D → Option (RbNode D)
  | .node d c l r => (rbRotationLL r).bind fun r' => rbRotationRR (.node d c l r')
  | .null => none

/-- `rb_rebalance`: color flip, or the rotation for the side just descended. -/
def rbRebalance (navDir : ℤ) : RbNode D → Option (RbNode D)
  | .null => none
  | .node d c l r =>
    if navDir < 0 then
      if isRed l then
        if isRed r then do
          -- Case I: flip the colors of the node and its children
          let l' ← setColor black l
          let r' ← setColor black r
          return .node d red l' r'
        else do
          if isRed (← leftChild l) then rbRotationLL (.node d c l r)
          else if isRed (← rightChild l) then rbRotationLR (.node d c l r)
          else return .node d c l r
      else some (.node d c l r)
    else
      if isRed r then
        if isRed l then do
          let l' ← setColor black l
          let r' ← setColor black r
          return .node d red l' r'
        else do
          if isRed (← rightChild r) then rbRotationRR (.node d c l r)
          else if isRed (← leftChild r) then rbRotationRL (.node d c l r)
          else return .node d c l r
      else some (.node d c l r)

/-- `rb_node_attach`: nothing is attached when an equal datum is met. -/
def rbNodeAttach (data : D) (nodeToAttach : RbNode D) : RbNode D → Option (RbNode D)
  | .null => some nodeToAttach
  | .node d c l r =>
    if compare data d ≠ 0 then
      if compare data d < 0 then
        (rbNodeAttach data nodeToAttach l).bind fun l' =>
          rbRebalance (compare data d) (.node d c l' r)
      else
        (rbNodeAttach data nodeToAttach r).bind fun r' =>
          rbRebalance (compare data d) (.node d c l r')
    else some (.node d c l r)

/-- `RBtree_attach`. The color field of the fresh node is not set, so it starts
with the value `malloc` left in it. -/
def rbtreeAttach (t : TreeTag UInt32 D) (data : D) : (malloc : Option UInt32) →
    Option (ExitStatus × TreeTag UInt32 D)
  | none => some (.failure, t)
  | some color =>
    ((rbNodeAttach compare data (.leaf color data) t.root).bind (setColor black)).map
      fun root => (.success, ⟨t.numNodes + 1, root⟩)

end RedBlack

end MorningProjects.Tree
