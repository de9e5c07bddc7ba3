import MorningProjects.Tree.Avl

/-!
# Three trees over one attached sequence

The binary search tree and the AVL tree both hold the stable sort of what was
attached, the red-black tree the same list with the first datum of each group of
equals. `BStree_lookup` therefore answers alike on all three.
-/
namespace MorningProjects.Tree
open Library

variable {D : Type*} (compare : D → D → ℤ)

def bstreeAttachAll (ds : List D) : TreeTag Unit D :=
  ds.foldl (fun t d => (bstreeAttach compare t d (some ())).2) treeCreate

def avltreeAttachAll (ds : List D) : Option (TreeTag Unit D) :=
  ds.foldlM (fun t d => (avltreeAttach compare t d (some ())).map Prod.snd) treeCreate

/-- Attach a sequence to a new red-black tree, each datum with the color value its
fresh node starts with. -/
def rbtreeAttachAll (ds : List (D × UInt32)) : Option (TreeTag UInt32 D) :=
  ds.foldlM (fun t d => (rbtreeAttach compare t d.1 (some d.2)).map Prod.snd) treeCreate

variable {compare}

theorem avltreeAttach_exists (hc : TotalPreorder compare) (x : D) {t : TreeTag Unit D}
    (hb : Balanced t.root) (ho : Ordered compare (traverseInorder t.root)) :
    ∃ t', avltreeAttach compare t x (some ()) = some (.success, t') ∧ Balanced t'.root ∧
      traverseInorder t'.root = insertAfter compare x (traverseInorder t.root) := by
  obtain ⟨n, root⟩ := t
  cases root with
  | null => exact ⟨_, rfl, by simp [Node.leaf], rfl⟩
  | node d c l r =>
    obtain ⟨root', hroot, hb'⟩ := avlRebalance_attach_exists compare x () hb
    refine ⟨⟨n + 1, root'⟩, ?_, hb', ?_⟩
    · change Option.map _ (avlRebalance compare x _) = _
      rw [hroot]
      rfl
    · rw [traverseInorder_avlRebalance hroot]
      exact traverseInorder_nodeAttach hc x () ho

theorem rbtreeAttach_exists (hc : TotalPreorder compare) (x : D) (fresh : UInt32)
    {t : TreeTag UInt32 D} (ho : StrictlyOrdered compare (traverseInorder t.root)) :
    ∃ t', rbtreeAttach compare t x (some fresh) = some (.success, t') ∧
      traverseInorder t'.root = insertAbsent compare x (traverseInorder t.root) := by
  obtain ⟨root', hroot, hne, hin⟩ := rbNodeAttach_exists hc x fresh ho
  cases root' with
  | null => exact absurd rfl hne
  | node d c l r =>
    refine ⟨⟨t.numNodes + 1, .node d black l r⟩, ?_, hin⟩
    rw [rbtreeAttach, hroot]
    rfl

theorem bstreeAttachAll_traverse (hc : TotalPreorder compare) (ds : List D) :
    traverseInorder (bstreeAttachAll compare ds).root = stableSort compare ds := by
  induction ds using List.reverseRecOn with
  | nil => rfl
  | append_singleton ds x ih =>
    rw [stableSort_concat hc, ← ih, bstreeAttachAll, List.foldl_append]
    refine traverseInorder_nodeAttach hc x () ?_
    change Ordered compare (traverseInorder (bstreeAttachAll compare ds).root)
    rw [ih]
    exact stableSort_ordered hc ds

theorem avltreeAttachAll_exists (hc : TotalPreorder compare) (ds : List D) :
    ∃ t, avltreeAttachAll compare ds = some t ∧ Balanced t.root ∧
      traverseInorder t.root = stableSort compare ds := by
  induction ds using List.reverseRecOn with
  | nil => exact ⟨_, rfl, trivial, rfl⟩
  | append_singleton ds x ih =>
    obtain ⟨t, ht, hb, hin⟩ := ih
    obtain ⟨t', hatt, hb', hin'⟩ := avltreeAttach_exists hc x hb
      (by rw [hin]; exact stableSort_ordered hc ds)
    refine ⟨t', ?_, hb', ?_⟩
    · rw [avltreeAttachAll, List.foldlM_append]
      change (avltreeAttachAll compare ds).bind _ = _
      rw [ht]
      simp [hatt]
    · rw [hin', hin, stableSort_concat hc]

theorem rbtreeAttachAll_exists (hc : TotalPreorder compare) (ds : List (D × UInt32)) :
    ∃ t, rbtreeAttachAll compare ds = some t ∧ StrictlyOrdered compare (traverseInorder t.root) ∧
      traverseInorder t.root = keepFirst compare (stableSort compare (ds.map Prod.fst)) := by
  induction ds using List.reverseRecOn with
  | nil => exact ⟨_, rfl, List.Pairwise.nil, rfl⟩
  | append_singleton ds x ih =>
    obtain ⟨t, ht, hs, hin⟩ := ih
    obtain ⟨t', hatt, hin'⟩ := rbtreeAttach_exists hc x.1 x.2 hs
    refine ⟨t', ?_, ?_, ?_⟩
    · rw [rbtreeAttachAll, List.foldlM_append]
      change (rbtreeAttachAll compare ds).bind _ = _
      rw [ht]
      simp [hatt]
    · rw [hin']
      exact hs.insertAbsent hc x.1
    · rw [hin', hin, List.map_append, List.map_singleton, stableSort_concat hc,
        keepFirst_insertAfter hc x.1 (stableSort_ordered hc _)]

/-- `BStree_lookup` on any tree whose traversal represents the attached data. -/
theorem bstreeLookup_eq {κ : Type*} (hc : TotalPreorder compare) {t : TreeTag κ D}
    (ho : Ordered compare (traverseInorder t.root)) {ds : List D} (key : D)
    (hmem : (∃ e ∈ traverseInorder t.root, compare key e = 0) ↔ ∃ e ∈ ds, compare key e = 0) :
    bstreeLookup compare t key = decide (∃ e ∈ ds, compare key e = 0) := by
  rw [bstreeLookup, Bool.eq_iff_iff, lookup_isSome hc key ho, hmem]
  simp

/-- Attaching one sequence to the three kinds of tree, with any initial colors,
dereferences no NULL pointer and gives trees that agree in order and in lookup. -/
theorem attached_trees_agree (hc : TotalPreorder compare) (attached : List (D × UInt32)) :
    ∃ avl rb, avltreeAttachAll compare (attached.map Prod.fst) = some avl ∧
      rbtreeAttachAll compare attached = some rb ∧
      traverseInorder (bstreeAttachAll compare (attached.map Prod.fst)).root =
        stableSort compare (attached.map Prod.fst) ∧
      traverseInorder avl.root = stableSort compare (attached.map Prod.fst) ∧
      traverseInorder rb.root = keepFirst compare (stableSort compare (attached.map Prod.fst)) ∧
      ∀ key,
        bstreeLookup compare (bstreeAttachAll compare (attached.map Prod.fst)) key =
          decide (∃ d ∈ attached.map Prod.fst, compare key d = 0) ∧
        bstreeLookup compare avl key =
          decide (∃ d ∈ attached.map Prod.fst, compare key d = 0) ∧
        bstreeLookup compare rb key =
          decide (∃ d ∈ attached.map Prod.fst, compare key d = 0) := by
  have hbst := bstreeAttachAll_traverse hc (attached.map Prod.fst)
  obtain ⟨avl, havl, -, hin⟩ := avltreeAttachAll_exists hc (attached.map Prod.fst)
  obtain ⟨rb, hrb, hs, hfirst⟩ := rbtreeAttachAll_exists hc attached
  have hord := stableSort_ordered hc (attached.map Prod.fst)
  have hmem (key : D) : (∃ e ∈ stableSort compare (attached.map Prod.fst), compare key e = 0) ↔
      ∃ e ∈ attached.map Prod.fst, compare key e = 0 := by
    simp only [mem_stableSort]
  refine ⟨avl, rb, havl, hrb, hbst, hin, hfirst, fun key => ⟨?_, ?_, ?_⟩⟩
  · exact bstreeLookup_eq hc (by rw [hbst]; exact hord) key (by rw [hbst]; exact hmem key)
  · exact bstreeLookup_eq hc (by rw [hin]; exact hord) key (by rw [hin]; exact hmem key)
  · refine bstreeLookup_eq hc (StrictlyOrdered.ordered hs) key ?_
    rw [hfirst, exists_mem_keepFirst hc]
    exact hmem key

def compareKeys (a b : ℤ × ℕ) : ℤ := a.1 - b.1

theorem compareKeys_preorder : TotalPreorder compareKeys where
  self a := by simp [compareKeys]
  flip a b := by simp only [compareKeys]; omega
  trans a b c := by simp only [compareKeys]; omega

theorem attached_trees_agree_example :
    ∃ avl rb, avltreeAttachAll compareKeys [(2, 0), (1, 1), (2, 2)] = some avl ∧
      rbtreeAttachAll compareKeys [((2, 0), 7), ((1, 1), 0), ((2, 2), 5)] = some rb ∧
      traverseInorder avl.root = [(1, 1), (2, 0), (2, 2)] ∧
      traverseInorder rb.root = [(1, 1), (2, 0)] := by
  obtain ⟨avl, rb, havl, hrb, -, hin, hfirst, -⟩ :=
    attached_trees_agree compareKeys_preorder [((2, 0), 7), ((1, 1), 0), ((2, 2), 5)]
  exact ⟨avl, rb, havl, hrb, hin, hfirst⟩

end MorningProjects.Tree
