import MorningProjects.Tree.Ownership

/-!
# Removal from the red-black tree

`tree_remove` looks for a match as `avltree_remove` does, and goes on looking
below it. Only a black leaf that it frees leaves `p_balanced` false; then
`rebalance` runs at every node on the way up until one settles the balance. Its
branches for a red sibling, and for a removal on the right, rotate to the wrong
side: a `none` result dereferences NULL, or links a node in at two places.
-/
namespace MorningProjects.Tree

variable {D : Type*} (compare : D → D → ℤ)

def rebalance (compareResult : ℤ) : RbNode D → Option (RbNode D × Bool)
  | .null => none
  | .node d c l r =>
    if isRed (if compareResult ≤ 0 then r else l) then
      if compareResult < 0 then
        -- `temp` is the right child of the new node, `subtree` the right child of `temp`
        match l, r with
        | .node ld _ ll lr, .node rd _ rl rr =>
          if isRed rl || isRed rr then none
          else some (.node ld black ll (.node d black lr (.node rd red rl rr)), true)
        | _, _ => none
      else
        -- `temp` is the left child of the new node, and so is `subtree`
        match r with
        | .node rd _ rl rr =>
          if isRed l || isRed rl then none
          else some (.node rd black (.node d red l rl) rr, true)
        | .null => none
    else
      match if compareResult ≤ 0 then r else l with
      | .null => some (.node d c l r, false)
      | .node sd _ sl sr =>
        if !isRed sl && !isRed sr then
          let subtree := .node sd red sl sr
          some (if compareResult ≤ 0 then .node d black l subtree else .node d black subtree r,
            c == red)
        else do
          let temp ← if isRed sr then rbRotationRR (.node d c l r) else rbRotationRL (.node d c l r)
          match temp with
          | .node td _ tl tr => do
            let tl' ← setColor black tl
            let tr' ← setColor black tr
            return (.node td c tl' tr', true)
          | .null => none

/-- The effects of a call of `tree_remove`: the reference it returns, the data it
passes to the `remove` callback, and the value it leaves in `p_balanced`. -/
structure RbRemoval (D : Type*) where
  node : RbNode D
  disposed : List D
  balanced : Bool
  deriving DecidableEq, Repr

/-- The end of `tree_remove`: rebalance a node that is not balanced yet. -/
def treeRebalance (compareResult : ℤ) (node : RbNode D) (s : RbRemoval D) :
    Option (RbRemoval D) :=
  if s.balanced then some ⟨node, s.disposed, true⟩
  else (rebalance compareResult node).map fun (t, balanced) => ⟨t, s.disposed, balanced⟩

/-- The second half of `tree_remove` on a non-NULL node: compare again, remove on
that side, rebalance. -/
def treeRemoveBelow (p d : D) (c : UInt32) (l r : RbNode D)
    (fromLeft fromRight : Option (RbRemoval D)) : Option (RbRemoval D) :=
  if toInt8 (compare p d) ≤ 0 then
    fromLeft.bind fun s => treeRebalance (toInt8 (compare p d)) (.node d c s.node r) s
  else
    fromRight.bind fun s => treeRebalance (toInt8 (compare p d)) (.node d c l s.node) s

/-- Case 0 of `tree_remove`: the color of the child that takes the place of a node of
color `c`, and the value of `p_balanced`. -/
def promote (c childColor : UInt32) (balanced : Bool) : UInt32 × Bool :=
  if c = red then (childColor, true)
  else if childColor = red then (black, true)
  else (childColor, balanced)

variable [DecidableEq D]

/-- `tree_remove`, called with a value in `p_balanced`. -/
def treeRemove (registered : Bool) : RbNode D → D → Bool → Option (RbRemoval D)
  | .null, _, _ => some ⟨.null, [], true⟩
  | .node d c l r, p, balanced =>
    if toInt8 (compare p d) = 0 then
      match l, r with
      | .null, .null => some ⟨.null, disposal registered p d, balanced || c == red⟩
      | .null, .node td tc tl tr =>
        let (tc', balanced') := promote c tc balanced
        (treeRemoveBelow compare p td tc' tl tr (treeRemove registered tl p balanced')
          (treeRemove registered tr p balanced')).map
            fun s => { s with disposed := disposal registered p d ++ s.disposed }
      | .node td tc tl tr, .null =>
        let (tc', balanced') := promote c tc balanced
        (treeRemoveBelow compare p td tc' tl tr (treeRemove registered tl p balanced')
          (treeRemove registered tr p balanced')).map
            fun s => { s with disposed := disposal registered p d ++ s.disposed }
      | .node ld lc ll lr, .node rd rc rl rr =>
        let p' := lastData ld lr
        (treeRemoveBelow compare p' p' c (.node ld lc ll lr) (.node rd rc rl rr)
          (treeRemove registered (.node ld lc ll lr) p' balanced)
          (treeRemove registered (.node rd rc rl rr) p' balanced)).map
            fun s => { s with disposed := (if registered then [d] else []) ++ s.disposed }
    else
      treeRemoveBelow compare p d c l r (treeRemove registered l p balanced)
        (treeRemove registered r p balanced)

def blacken : RbNode D → RbNode D
  | .null => .null
  | .node d _ l r => .node d black l r

/-- `RBtree_remove`: the new tree and the data passed to the callback. -/
def rbtreeRemove (registered : Bool) (t : TreeTag UInt32 D) (data : D) :
    Option (ExitStatus × TreeTag UInt32 D × List D) :=
  match t.root with
  | .null => some (.failure, t, [])
  | .node d c l r =>
    (treeRemove compare registered (.node d c l r) data false).map fun s =>
      (.success, ⟨t.numNodes - 1, blacken s.node⟩, s.disposed)

end MorningProjects.Tree
