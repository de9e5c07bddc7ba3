import MorningProjects.Tree.Ownership

/-!
# What a traversal tells about a tree

A tree is displayed by its traversals. `node_attach` sends equal data to the
right, so that in a tree it has built the data on the left of a node are
smaller. The preorder display of such a tree attaches each node before the two
sides below it, and attached again it gives the same tree.
-/
namespace MorningProjects.Tree
open Library

variable {κ D : Type*} {compare : D → D → ℤ}

/-! ### Traversals -/

/-- The nodes that `traverse_inorder` displays and dumps, each with its color. -/
def visitInorder : Node κ D → List (D × κ)
  | .null => []
  | .node d c l r => visitInorder l ++ (d, c) :: visitInorder r

def visitPreorder : Node κ D → List (D × κ)
  | .null => []
  | .node d c l r => (d, c) :: visitPreorder l ++ visitPreorder r

def visitPostorder : Node κ D → List (D × κ)
  | .null => []
  | .node d c l r => visitPostorder l ++ visitPostorder r ++ [(d, c)]

def traverseMethodInorder : UInt32 := 1
def traverseMethodPreorder : UInt32 := 2
def traverseMethodPostorder : UInt32 := 3

/-- `tree_traverse`: an empty tree is only warned of. -/
def treeTraverse (t : TreeTag κ D) (traverseMethod : UInt32) : ExitStatus × List (D × κ) :=
  match t.root with
  | .null => (.success, [])
  | .node d c l r =>
    if traverseMethod = traverseMethodInorder then (.success, visitInorder (.node d c l r))
    else if traverseMethod = traverseMethodPreorder then
      (.success, visitPreorder (.node d c l r))
    else if traverseMethod = traverseMethodPostorder then
      (.success, visitPostorder (.node d c l r))
    else (.failure, [])

theorem treeTraverse_preorder (t : TreeTag κ D) :
    treeTraverse t traverseMethodPreorder = (.success, visitPreorder t.root) := by
  obtain ⟨n, root⟩ := t
  cases root with
  | null => rfl
  | node d c l r => rfl

theorem visitPreorder_perm (t : Node κ D) : (visitPreorder t).Perm (visitInorder t) := by
  induction t with
  | null => exact List.Perm.refl _
  | node d c l r ihl ihr =>
    rw [visitPreorder, visitInorder, List.cons_append]
    exact ((ihl.append ihr).cons _).trans List.perm_middle.symm

theorem visitPostorder_perm (t : Node κ D) : (visitPostorder t).Perm (visitInorder t) := by
  induction t with
  | null => exact List.Perm.refl _
  | node d c l r ihl ihr =>
    rw [visitPostorder, visitInorder]
    refine (List.perm_append_singleton _ _).trans ?_
    exact ((ihl.append ihr).cons _).trans List.perm_middle.symm

theorem map_visitInorder (t : Node κ D) : (visitInorder t).map Prod.fst = traverseInorder t := by
  induction t with
  | null => rfl
  | node d c l r ihl ihr =>
    rw [visitInorder, List.map_append, List.map_cons, ihl, ihr, traverseInorder_node]

/-! ### Attaching a display -/

def LeftSmaller (compare : D → D → ℤ) : Node κ D → Prop
  | .null => True
  | .node d _ l r => LeftSmaller compare l ∧ LeftSmaller compare r ∧
      (∀ e ∈ traverseInorder l, compare e d < 0) ∧ ∀ e ∈ traverseInorder r, ¬ compare e d < 0

theorem nodeAttach_leftSmaller (x : D) (color : κ) {t : Node κ D}
    (ht : LeftSmaller compare t) :
    LeftSmaller compare (nodeAttach compare x (.leaf color x) t) := by
  induction t with
  | null => exact ⟨trivial, trivial, by simp, by simp⟩
  | node d c l r ihl ihr =>
    obtain ⟨hl, hr, hld, hrd⟩ := ht
    have hmem : ∀ {t : Node κ D} {e : D},
        e ∈ traverseInorder (nodeAttach compare x (.leaf color x) t) →
          e = x ∨ e ∈ traverseInorder t := by
      intro t e he
      exact List.mem_cons.mp ((nodeAttach_perm x color t).mem_iff.mp he)
    rw [nodeAttach]
    split_ifs with hx
    · refine ⟨ihl hl, hr, ?_, hrd⟩
      intro e he
      rcases hmem he with rfl | he
      · exact hx
      · exact hld e he
    · refine ⟨hl, ihr hr, hld, ?_⟩
      intro e he
      rcases hmem he with rfl | he
      · exact hx
      · exact hrd e he

theorem leftSmaller_of_strictlyOrdered (hc : TotalPreorder compare) {t : Node κ D}
    (ht : StrictlyOrdered compare (traverseInorder t)) : LeftSmaller compare t := by
  induction t with
  | null => trivial
  | node d c l r ihl ihr =>
    obtain ⟨hl, hr, hld, hdr, -⟩ := strictlyOrdered_split.mp ht
    exact ⟨ihl hl, ihr hr, hld, fun e he => hc.not_lt_of_le (hdr e he).le⟩

def Node.uncolored : Node κ D → Node Unit D
  | .null => .null
  | .node d _ l r => .node d () l.uncolored r.uncolored

theorem Node.uncolored_eq (t : Node Unit D) : t.uncolored = t := by
  induction t with
  | null => rfl
  | node d c l r ihl ihr => rw [uncolored, ihl, ihr]

def attachData (compare : D → D → ℤ) (t : Node Unit D) (ds : List D) : Node Unit D :=
  ds.foldl (fun t d => nodeAttach compare d (.leaf () d) t) t

theorem attachData_append (t : Node Unit D) (ds es : List D) :
    attachData compare t (ds ++ es) = attachData compare (attachData compare t ds) es :=
  List.foldl_append

theorem attachData_left {d : D} {ds : List D} (hds : ∀ e ∈ ds, compare e d < 0)
    (l r : Node Unit D) :
    attachData compare (.node d () l r) ds = .node d () (attachData compare l ds) r := by
  induction ds generalizing l with
  | nil => rfl
  | cons e ds ih =>
    have hstep : nodeAttach compare e (.leaf () e) (.node d () l r) =
        .node d () (nodeAttach compare e (.leaf () e) l) r := by
      rw [nodeAttach, if_pos (hds e List.mem_cons_self)]
    rw [attachData, List.foldl_cons, hstep]
    exact ih (fun a ha => hds a (List.mem_cons_of_mem e ha)) _

theorem attachData_right {d : D} {ds : List D} (hds : ∀ e ∈ ds, ¬ compare e d < 0)
    (l r : Node Unit D) :
    attachData compare (.node d () l r) ds = .node d () l (attachData compare r ds) := by
  induction ds generalizing r with
  | nil => rfl
  | cons e ds ih =>
    have hstep : nodeAttach compare e (.leaf () e) (.node d () l r) =
        .node d () l (nodeAttach compare e (.leaf () e) r) := by
      rw [nodeAttach, if_neg (hds e List.mem_cons_self)]
    rw [attachData, List.foldl_cons, hstep]
    exact ih (fun a ha => hds a (List.mem_cons_of_mem e ha)) _

theorem mem_visitPreorder {t : Node κ D} {d : D} (h : d ∈ (visitPreorder t).map Prod.fst) :
    d ∈ traverseInorder t := by
  rw [← map_visitInorder]
  exact ((visitPreorder_perm t).map Prod.fst).mem_iff.mp h

theorem length_visitPreorder (t : Node κ D) :
    ((visitPreorder t).map Prod.fst).length = t.size := by
  rw [List.length_map, (visitPreorder_perm t).length_eq, ← length_traverseInorder,
    ← map_visitInorder, List.length_map]

/-- The preorder display of a tree, attached to an empty one. -/
theorem attachData_visitPreorder {t : Node κ D} (ht : LeftSmaller compare t) :
    attachData compare .null ((visitPreorder t).map Prod.fst) = t.uncolored := by
  induction t with
  | null => rfl
  | node d c l r ihl ihr =>
    obtain ⟨hl, hr, hld, hrd⟩ := ht
    have hleft : ∀ e ∈ (visitPreorder l).map Prod.fst, compare e d < 0 :=
      fun e he => hld e (mem_visitPreorder he)
    have hright : ∀ e ∈ (visitPreorder r).map Prod.fst, ¬ compare e d < 0 :=
      fun e he => hrd e (mem_visitPreorder he)
    rw [visitPreorder, List.cons_append, List.map_cons, List.map_append]
    change attachData compare (.node d () .null .null) _ = _
    rw [attachData_append, attachData_left hleft, ihl hl, attachData_right hright, ihr hr]
    rfl

/-! ### Attaching to a new tree -/

theorem bstreeAttachAll_eq (ds : List D) :
    bstreeAttachAll compare ds = ⟨UInt32.ofNat ds.length, attachData compare .null ds⟩ := by
  induction ds using List.reverseRecOn with
  | nil => rfl
  | append_singleton ds x ih =>
    rw [bstreeAttachAll, List.foldl_append, List.foldl_cons, List.foldl_nil]
    change (bstreeAttach compare (bstreeAttachAll compare ds) x (some ())).2 = _
    rw [ih, bstreeAttach, attachData_append, List.length_append, UInt32.ofNat_add]
    rfl

theorem leftSmaller_attachData (ds : List D) :
    LeftSmaller compare (attachData compare .null ds) := by
  induction ds using List.reverseRecOn with
  | nil => trivial
  | append_singleton ds x ih =>
    rw [attachData_append]
    exact nodeAttach_leftSmaller x () ih

theorem attachData_perm (ds : List D) :
    (traverseInorder (attachData compare .null ds)).Perm ds := by
  induction ds using List.reverseRecOn with
  | nil => exact List.Perm.refl _
  | append_singleton ds x ih =>
    rw [attachData_append]
    refine (nodeAttach_perm x () _).trans ((ih.cons x).trans ?_)
    exact (List.perm_append_singleton x ds).symm

/-- What the preorder traversal of an attached sequence displays, attached to a new tree, makes the
same tree, whatever the comparator; and displays of any tree with distinct keys in order, an AVL
tree or a red-black tree, make a tree of its shape. -/
theorem bstree_rebuilt (compare : D → D → ℤ) :
    (∀ ds : List D, bstreeAttachAll compare
        ((treeTraverse (bstreeAttachAll compare ds) traverseMethodPreorder).2.map Prod.fst) =
      bstreeAttachAll compare ds) ∧
    (TotalPreorder compare → ∀ t : TreeTag κ D, StrictlyOrdered compare (traverseInorder t.root) →
      bstreeAttachAll compare ((treeTraverse t traverseMethodPreorder).2.map Prod.fst) =
        ⟨UInt32.ofNat t.root.size, t.root.uncolored⟩) := by
  constructor
  · intro ds
    rw [treeTraverse_preorder, bstreeAttachAll_eq, bstreeAttachAll_eq, length_visitPreorder,
      attachData_visitPreorder (leftSmaller_attachData ds), Node.uncolored_eq,
      ← length_traverseInorder, (attachData_perm ds).length_eq]
  · intro hc t ht
    rw [treeTraverse_preorder, bstreeAttachAll_eq, length_visitPreorder,
      attachData_visitPreorder (leftSmaller_of_strictlyOrdered hc ht)]

theorem bstree_rebuilt_example :
    bstreeAttachAll compareKeys [(2, 0), (1, 1), (3, 2)] =
      ⟨3, .node (2, 0) () (.leaf () (1, 1)) (.leaf () (3, 2))⟩ := by
  have hs : StrictlyOrdered compareKeys
      (traverseInorder (.node (2, 0) black (.leaf red (1, 1)) (.leaf red (3, 2)))) := by
    simp [Node.leaf, StrictlyOrdered, compareKeys]
  exact (bstree_rebuilt compareKeys).2 compareKeys_preorder ⟨3, _⟩ hs

end MorningProjects.Tree
