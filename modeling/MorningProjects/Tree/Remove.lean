import MorningProjects.Tree.Order

/-!
# Removal from the AVL tree and destruction

`avltree_remove` frees the first node it matches when that node has a NULL
child, and otherwise copies the predecessor's data up and goes on to look for
the predecessor by its key. Comparison results pass through an `int8_t` here.
-/
namespace MorningProjects.Tree

variable {κ D : Type*} (compare : D → D → ℤ)

def toInt8 (n : ℤ) : ℤ := n.bmod 256

def isNull : Node κ D → Bool
  | .null => true
  | .node _ _ _ _ => false

def avlRebalanceEx : Node κ D → Option (Node κ D)
  | .null => none
  | .node d c l r =>
    if balanceFactor (.node d c l r) > 1 then
      -- left heavy; `avl_node_height` now measures the left child
      if isNull l then none
      else if balanceFactor l > 0 then avlRotationLL (.node d c l r)
      else if balanceFactor l < 0 then avlRotationLR (.node d c l r)
      else some (.node d c l r)
    else if balanceFactor (.node d c l r) < -1 then
      if isNull r then none
      else if balanceFactor r < 0 then avlRotationRR (.node d c l r)
      else if balanceFactor r > 0 then avlRotationRL (.node d c l r)
      else some (.node d c l r)
    else some (.node d c l r)

/-- The effects of a call of `avltree_remove`: the reference it returns, the data
it passes to the `remove` callback, and how often it decrements `num_nodes`. -/
structure Removal (κ D : Type*) where
  node : Node κ D
  disposed : List D
  freed : ℕ
  deriving DecidableEq, Repr

/-- The second half of `avltree_remove` on a non-NULL node: compare again, remove
on that side, rebalance. -/
def avlRemoveBelow (p : D) (d : D) (c : κ) (l r : Node κ D)
    (fromLeft fromRight : Option (Removal κ D)) : Option (Removal κ D) :=
  if toInt8 (compare p d) ≤ 0 then
    fromLeft.bind fun s => (avlRebalanceEx (.node d c s.node r)).map fun t => { s with node := t }
  else
    fromRight.bind fun s => (avlRebalanceEx (.node d c l s.node)).map fun t => { s with node := t }

/-- The data of the last node reached by `temp = temp->right_child`, starting with `d`. -/
def lastData : D → Node κ D → D
  | d, .null => d
  | _, .node d _ _ r => lastData d r

variable [DecidableEq D]

/-- The callback, if there is one, disposes of a datum; `p_data != node->data`
is a comparison of pointers. -/
def disposal (registered : Bool) (p d : D) : List D :=
  if p ≠ d ∧ registered then [d] else []

def avltreeRemoveAt (registered : Bool) : Node κ D → D → Option (Removal κ D)
  | .null, _ => some ⟨.null, [], 0⟩
  | .node d c l r, p =>
    if toInt8 (compare p d) = 0 then
      match l, r with
      | .null, .null => some ⟨.null, disposal registered p d, 1⟩
      | .null, .node td tc tl tr =>
        (avlRemoveBelow compare p td tc tl tr (avltreeRemoveAt registered tl p)
          (avltreeRemoveAt registered tr p)).map
            fun s => ⟨s.node, disposal registered p d ++ s.disposed, s.freed + 1⟩
      | .node td tc tl tr, .null =>
        (avlRemoveBelow compare p td tc tl tr (avltreeRemoveAt registered tl p)
          (avltreeRemoveAt registered tr p)).map
            fun s => ⟨s.node, disposal registered p d ++ s.disposed, s.freed + 1⟩
      | .node ld lc ll lr, .node rd rc rl rr =>
        -- the data of the node is disposed of, its predecessor's data copied up
        let p' := lastData ld lr
        (avlRemoveBelow compare p' p' c (.node ld lc ll lr) (.node rd rc rl rr)
          (avltreeRemoveAt registered (.node ld lc ll lr) p')
          (avltreeRemoveAt registered (.node rd rc rl rr) p')).map
            fun s => ⟨s.node, (if registered then [d] else []) ++ s.disposed, s.freed⟩
    else
      avlRemoveBelow compare p d c l r (avltreeRemoveAt registered l p)
        (avltreeRemoveAt registered r p)

/-- `AVLtree_remove`: the new tree and the data passed to the callback. -/
def avltreeRemove (registered : Bool) (t : TreeTag Unit D) (data : D) :
    Option (ExitStatus × TreeTag Unit D × List D) :=
  (avltreeRemoveAt compare registered t.root data).map fun s =>
    (.success, ⟨t.numNodes - UInt32.ofNat s.freed, s.node⟩, s.disposed)

/-- The data `destroy_all_nodes` passes to the callback, in order. -/
def destroyAllNodes : Node κ D → List D
  | .null => []
  | .node d _ l r => destroyAllNodes l ++ destroyAllNodes r ++ [d]

def bstreeDestroy (registered : Bool) (t : TreeTag κ D) : ExitStatus × TreeTag κ D × List D :=
  match t.root with
  | .null => (.failure, t, [])
  | .node d c l r =>
    (.success, ⟨0, .null⟩, if registered then destroyAllNodes (.node d c l r) else [])

end MorningProjects.Tree
