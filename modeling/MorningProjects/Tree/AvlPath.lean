import MorningProjects.Tree.Ownership

/-!
# The path that rebalancing walks again

`AVLtree_attach` attaches in one walk by comparisons and rebalances in a second
one. The second walk passes the nodes of the first, equal keys or not, goes
through the new node, and the link it remembers is that of the deepest node off
balance.
-/
namespace MorningProjects.Tree
open Library

variable {κ D : Type*} {compare : D → D → ℤ}

def walk (compare : D → D → ℤ) (x : D) : Node κ D → List Turn
  | .null => []
  | .node d _ l r =>
    if compare x d < 0 then .left :: walk compare x l else .right :: walk compare x r

def nodeAt : List Turn → Node κ D → Option (Node κ D)
  | [], t => some t
  | _ :: _, .null => none
  | .left :: path, .node _ _ l _ => nodeAt path l
  | .right :: path, .node _ _ _ r => nodeAt path r

/-- A link on the path whose node is off balance, with no such link below it on the path. -/
structure DeepestUnbalanced (path : List Turn) (t : Node κ D) (pivot : List Turn) : Prop where
  onPath : pivot <+: path
  unbalanced : ∃ n, nodeAt pivot t = some n ∧ (balanceFactor n).natAbs > 1
  deepest : ∀ below, below <+: path → pivot.length < below.length →
    ∀ n, nodeAt below t = some n → (balanceFactor n).natAbs ≤ 1

/-! ### The two walks -/

theorem walk_nodeAttach (hself : ∀ a, compare a a = 0) (x : D) (color : κ) (t : Node κ D) :
    walk compare x (nodeAttach compare x (.leaf color x) t) = walk compare x t ++ [.right] := by
  induction t with
  | null => simp [nodeAttach, Node.leaf, walk, hself]
  | node d c l r ihl ihr =>
    rw [nodeAttach]
    by_cases hx : compare x d < 0
    · rw [if_pos hx, walk, if_pos hx, ihl, walk, if_pos hx, List.cons_append]
    · rw [if_neg hx, walk, if_neg hx, ihr, walk, if_neg hx, List.cons_append]

theorem nodeAt_walk_nodeAttach (x : D) (n t : Node κ D) :
    nodeAt (walk compare x t) (nodeAttach compare x n t) = some n := by
  induction t with
  | null => rfl
  | node d c l r ihl ihr =>
    rw [nodeAttach]
    by_cases hx : compare x d < 0
    · rw [if_pos hx, walk, if_pos hx]
      exact ihl
    · rw [if_neg hx, walk, if_neg hx]
      exact ihr

/-! ### The remembered link -/

theorem prefix_cons_cases {turn : Turn} {below path : List Turn} (h : below <+: turn :: path) :
    below = [] ∨ ∃ rest, below = turn :: rest ∧ rest <+: path := by
  rcases List.prefix_cons_iff.mp h with rfl | ⟨rest, rfl, hrest⟩
  · exact .inl rfl
  · exact .inr ⟨rest, rfl, hrest⟩

theorem balanced_of_deepestPivot_eq_none {x : D} {t : Node κ D}
    (h : deepestPivot compare x t = none) {below : List Turn}
    (hbelow : below <+: walk compare x t) {n : Node κ D} (hn : nodeAt below t = some n) :
    (balanceFactor n).natAbs ≤ 1 := by
  induction t generalizing below with
  | null =>
    obtain rfl : below = [] := List.prefix_nil.mp hbelow
    obtain rfl := Option.some.inj hn
    simp [balanceFactor]
  | node d c l r ihl ihr =>
    rw [deepestPivot, Option.or_eq_none_iff] at h
    obtain ⟨hpath, hhere⟩ := h
    by_cases hx : compare x d < 0
    · rw [walk, if_pos hx] at hbelow
      rw [if_pos hx, Option.map_eq_none_iff] at hpath
      rcases prefix_cons_cases hbelow with rfl | ⟨rest, rfl, hrest⟩
      · obtain rfl := Option.some.inj hn
        simpa using hhere
      · exact ihl hpath hrest hn
    · rw [walk, if_neg hx] at hbelow
      rw [if_neg hx, Option.map_eq_none_iff] at hpath
      rcases prefix_cons_cases hbelow with rfl | ⟨rest, rfl, hrest⟩
      · obtain rfl := Option.some.inj hn
        simpa using hhere
      · exact ihr hpath hrest hn

theorem DeepestUnbalanced.left {path pivot : List Turn} {d : D} {c : κ} {l r : Node κ D}
    (h : DeepestUnbalanced path l pivot) :
    DeepestUnbalanced (.left :: path) (.node d c l r) (.left :: pivot) := by
  refine ⟨List.prefix_cons_inj _ |>.mpr h.onPath, h.unbalanced, ?_⟩
  intro below hbelow hlength n hn
  rcases prefix_cons_cases hbelow with rfl | ⟨rest, rfl, hrest⟩
  · simp at hlength
  · exact h.deepest rest hrest (by simpa using hlength) n hn

theorem DeepestUnbalanced.right {path pivot : List Turn} {d : D} {c : κ} {l r : Node κ D}
    (h : DeepestUnbalanced path r pivot) :
    DeepestUnbalanced (.right :: path) (.node d c l r) (.right :: pivot) := by
  refine ⟨List.prefix_cons_inj _ |>.mpr h.onPath, h.unbalanced, ?_⟩
  intro below hbelow hlength n hn
  rcases prefix_cons_cases hbelow with rfl | ⟨rest, rfl, hrest⟩
  · simp at hlength
  · exact h.deepest rest hrest (by simpa using hlength) n hn

/-- The node itself is the deepest when the walk below it finds none. -/
theorem deepestUnbalanced_here {x d : D} {c : κ} {l r : Node κ D}
    (hpath : deepestPivot compare x (onPath compare x d l r) = none)
    (hb : (balanceFactor (.node d c l r)).natAbs > 1) :
    DeepestUnbalanced (walk compare x (.node d c l r)) (.node d c l r) [] := by
  refine ⟨List.nil_prefix, ⟨_, rfl, hb⟩, ?_⟩
  intro below hbelow hlength n hn
  by_cases hx : compare x d < 0
  · rw [walk, if_pos hx] at hbelow
    rw [onPath, if_pos hx] at hpath
    rcases prefix_cons_cases hbelow with rfl | ⟨rest, rfl, hrest⟩
    · simp at hlength
    · exact balanced_of_deepestPivot_eq_none hpath hrest hn
  · rw [walk, if_neg hx] at hbelow
    rw [onPath, if_neg hx] at hpath
    rcases prefix_cons_cases hbelow with rfl | ⟨rest, rfl, hrest⟩
    · simp at hlength
    · exact balanced_of_deepestPivot_eq_none hpath hrest hn

theorem deepestUnbalanced_of_deepestPivot {x : D} {t : Node κ D} {pivot : List Turn}
    (h : deepestPivot compare x t = some pivot) :
    DeepestUnbalanced (walk compare x t) t pivot := by
  induction t generalizing pivot with
  | null => cases h
  | node d c l r ihl ihr =>
    cases hpath : deepestPivot compare x (onPath compare x d l r) with
    | none =>
      rw [deepestPivot_here hpath] at h
      split_ifs at h with hb
      obtain rfl := Option.some.inj h
      exact deepestUnbalanced_here hpath hb
    | some rest =>
      by_cases hx : compare x d < 0
      · rw [onPath, if_pos hx] at hpath
        rw [deepestPivot, if_pos hx, hpath] at h
        obtain rfl := Option.some.inj h
        rw [walk, if_pos hx]
        exact (ihl hpath).left
      · rw [onPath, if_neg hx] at hpath
        rw [deepestPivot, if_neg hx, hpath] at h
        obtain rfl := Option.some.inj h
        rw [walk, if_neg hx]
        exact (ihr hpath).right

theorem nodeAt_walk (x : D) (t : Node κ D) : nodeAt (walk compare x t) t = some .null := by
  induction t with
  | null => rfl
  | node d c l r ihl ihr =>
    by_cases hx : compare x d < 0
    · rw [walk, if_pos hx]
      exact ihl
    · rw [walk, if_neg hx]
      exact ihr

/-- So the last turn of the walk leads past every pivot. -/
theorem DeepestUnbalanced.of_concat {path pivot : List Turn} {turn : Turn} {t : Node κ D}
    (h : DeepestUnbalanced (path ++ [turn]) t pivot)
    (hend : nodeAt (path ++ [turn]) t = some .null) :
    DeepestUnbalanced path t pivot := by
  refine ⟨?_, h.unbalanced, fun below hbelow => h.deepest below (hbelow.trans (by simp))⟩
  rcases List.prefix_concat_iff.mp h.onPath with rfl | hpath
  · obtain ⟨n, hn, hb⟩ := h.unbalanced
    rw [hend] at hn
    obtain rfl := Option.some.inj hn
    simp [balanceFactor] at hb
  · exact hpath

/-! ### Attaching -/

/-- How the rebalanced tree came from the one before the attach: the second walk passes the
first one's nodes and the new node, and at most one rotation was made, at the deepest node off
balance on the first walk. -/
structure Rebalanced (compare : D → D → ℤ) (x : D) (t attached t' : AvlNode D) : Prop where
  attachedAt : nodeAt (walk compare x t) attached = some (.leaf () x)
  walkedAgain : walk compare x attached = walk compare x t ++ [.right]
  rotated : avlPivot compare x attached [] none = none ∧ t' = attached ∨
    ∃ pivot, avlPivot compare x attached [] none = some pivot ∧
      DeepestUnbalanced (walk compare x t) attached pivot ∧
      setLink (avlRotate compare x) pivot attached = some t'

theorem rebalanced_of_avlRebalance (hself : ∀ a, compare a a = 0) {x : D} {t t' : AvlNode D}
    (h : avlRebalance compare x (avlNodeAttach compare x (.leaf () x) t) = some t') :
    Rebalanced compare x t (avlNodeAttach compare x (.leaf () x) t) t' := by
  have hwalk := walk_nodeAttach hself x () t
  refine ⟨nodeAt_walk_nodeAttach x _ t, hwalk, ?_⟩
  unfold avlNodeAttach at *
  generalize nodeAttach compare x (.leaf () x) t = attached at *
  rw [avlRebalance] at h
  cases hpivot : avlPivot compare x attached [] none with
  | none =>
    rw [hpivot] at h
    exact .inl ⟨rfl, (Option.some.inj h).symm⟩
  | some pivot =>
    rw [hpivot] at h
    refine .inr ⟨pivot, rfl, ?_, h⟩
    have hdeepest : deepestPivot compare x attached = some pivot := by
      rw [avlPivot_eq] at hpivot
      simpa using hpivot
    have hend : nodeAt (walk compare x attached) attached = some .null := nodeAt_walk x attached
    rw [hwalk] at hend
    have hunbalanced := deepestUnbalanced_of_deepestPivot hdeepest
    rw [hwalk] at hunbalanced
    exact hunbalanced.of_concat hend

/-- An attach to an empty tree is one to a tree that needs no rotation. -/
theorem avlRebalance_of_avltreeAttach {t t' : TreeTag Unit D} {x : D} {status : ExitStatus}
    (h : avltreeAttach compare t x (some ()) = some (status, t')) :
    avlRebalance compare x (avlNodeAttach compare x (.leaf () x) t.root) = some t'.root := by
  obtain ⟨n, root⟩ := t
  cases root with
  | null =>
    cases h
    simp [avlNodeAttach, nodeAttach, avlRebalance_eq, Node.leaf, deepestPivot]
  | node d c l r =>
    obtain ⟨root, hroot, heq⟩ := Option.map_eq_some_iff.mp h
    cases heq
    exact hroot

/-- `AVLtree_attach` keeps a weakly ordered balanced tree one, adds one node, and rotates at
most once, at the deepest node off balance on the path of the new node. -/
theorem avltreeAttach_rebalanced (hc : TotalPreorder compare) {t : TreeTag Unit D}
    (hb : Balanced t.root) (ho : Ordered compare (traverseInorder t.root)) (x : D) :
    ∃ t', avltreeAttach compare t x (some ()) = some (.success, t') ∧
      t'.numNodes = t.numNodes + 1 ∧ t'.root.size = t.root.size + 1 ∧
      Balanced t'.root ∧ Ordered compare (traverseInorder t'.root) ∧
      Rebalanced compare x t.root (avlNodeAttach compare x (.leaf () x) t.root) t'.root := by
  obtain ⟨t', ht', hb', hin⟩ := avltreeAttach_exists hc x hb ho
  obtain ⟨-, hperm, hnum⟩ := avltreeAttach_perm ht'
  refine ⟨t', ht', hnum, size_of_perm_cons hperm, hb', ?_, ?_⟩
  · rw [hin]
    exact ho.insertAfter hc x
  · exact rebalanced_of_avlRebalance hc.self (avlRebalance_of_avltreeAttach ht')

theorem avltreeAttach_rebalanced_example :
    ∃ t', avltreeAttach compareKeys ⟨2, .node (2, 0) () .null (.node (2, 1) () .null .null)⟩
        (2, 2) (some ()) = some (.success, t') ∧ t'.root.size = 3 ∧ Balanced t'.root := by
  obtain ⟨t', ht', -, hsize, hb, -⟩ := avltreeAttach_rebalanced compareKeys_preorder
    (t := ⟨2, .node (2, 0) () .null (.node (2, 1) () .null .null)⟩) (by simp)
    (by simp [Ordered, compareKeys]) (2, 2)
  exact ⟨t', ht', hsize, hb⟩

end MorningProjects.Tree
