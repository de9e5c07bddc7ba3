import MorningProjects.Tree.BstRemove
import MorningProjects.Tree.Rebuild

/-!
# The life of a binary search tree in memory

`tree_traverse` and `destroy_all_nodes` walk over nodes in memory. The walks do what they do to
the tree that lies there, and the second one frees every node after its last use. So from the
first attach to `BStree_destroy` no memory is lost, and the callback gets every datum once.
-/
namespace MorningProjects.Tree
open Library

universe u

variable {A D : Type u}

/-! ### Traversals in memory -/

/-- A traversal, by the order in which it displays what is on the left of a node, the datum of
the node, and what is on the right. A child that is NULL is not gone to. -/
def traverseIn (join : List D → D → List D → List D) (h : BstMemory A D) :
    ℕ → Option A → Option (List D)
  | _, none => some []
  | 0, some _ => none
  | fuel + 1, some currentNode => do
    let n ← h currentNode
    let left ← traverseIn join h fuel n.leftChild
    let right ← traverseIn join h fuel n.rightChild
    return join left n.data right

def inorder (left : List D) (d : D) (right : List D) : List D := left ++ d :: right
def preorder (left : List D) (d : D) (right : List D) : List D := d :: left ++ right
def postorder (left : List D) (d : D) (right : List D) : List D := left ++ right ++ [d]

def traverseInorderIn : BstMemory A D → ℕ → Option A → Option (List D) := traverseIn inorder

def traversePreorderIn : BstMemory A D → ℕ → Option A → Option (List D) := traverseIn preorder

def traversePostorderIn : BstMemory A D → ℕ → Option A → Option (List D) := traverseIn postorder

/-- `BStree_traverse`: the status and the data displayed. -/
def bstreeTraverseIn (fuel : ℕ) (s : BstTag A D) (traverseMethod : UInt32) :
    Option (ExitStatus × List D) :=
  match s.root with
  | none => some (.success, [])
  | some root =>
    if traverseMethod = traverseMethodInorder then
      (traverseInorderIn s.memory fuel (some root)).map fun data => (.success, data)
    else if traverseMethod = traverseMethodPreorder then
      (traversePreorderIn s.memory fuel (some root)).map fun data => (.success, data)
    else if traverseMethod = traverseMethodPostorder then
      (traversePostorderIn s.memory fuel (some root)).map fun data => (.success, data)
    else some (.failure, [])

def joined (join : List D → D → List D → List D) {κ : Type*} : Node κ D → List D
  | .null => []
  | .node d _ l r => join (joined join l) d (joined join r)

section Traverse

variable {h : BstMemory A D} {p : Option A} {t : Node A D} {fuel : ℕ}

theorem traverseIn_eq (join : List D → D → List D → List D) (ht : Represents h p t)
    (hfuel : t.size ≤ fuel) : traverseIn join h fuel p = some (joined join t) := by
  induction t generalizing p fuel with
  | null =>
    obtain rfl : p = none := ht
    rw [traverseIn, joined]
  | node d a l r ihl ihr =>
    obtain ⟨rfl, lp, rp, ha, hl, hr⟩ := ht
    cases fuel with
    | zero =>
      rw [Node.size] at hfuel
      omega
    | succ fuel =>
      rw [Node.size] at hfuel
      have hleft := ihl hl (by omega : l.size ≤ fuel)
      have hright := ihr hr (by omega : r.size ≤ fuel)
      simp only [traverseIn, ha, Option.bind_eq_bind, Option.bind_some, hleft, hright]
      rfl

theorem joined_inorder (t : Node A D) : joined inorder t = (visitInorder t).map Prod.fst := by
  induction t with
  | null => rfl
  | node d a l r ihl ihr => simp [joined, visitInorder, inorder, ihl, ihr]

theorem joined_preorder (t : Node A D) : joined preorder t = (visitPreorder t).map Prod.fst := by
  induction t with
  | null => rfl
  | node d a l r ihl ihr => simp [joined, visitPreorder, preorder, ihl, ihr]

theorem joined_postorder (t : Node A D) :
    joined postorder t = (visitPostorder t).map Prod.fst := by
  induction t with
  | null => rfl
  | node d a l r ihl ihr => simp [joined, visitPostorder, postorder, ihl, ihr]

theorem bstreeTraverseIn_eq {s : BstTag A D} (ht : s.Holds t) (hfuel : t.size ≤ fuel)
    (traverseMethod : UInt32) : bstreeTraverseIn fuel s traverseMethod =
      some ((treeTraverse ⟨s.numNodes, t⟩ traverseMethod).map id (·.map Prod.fst)) := by
  have hrep := ht.represents
  cases hroot : s.root with
  | none =>
    rw [hroot] at hrep
    obtain rfl := represents_none hrep
    simp only [bstreeTraverseIn, hroot]
    rfl
  | some root =>
    rw [hroot] at hrep
    cases t with
    | null => cases hrep
    | node d a l r =>
      simp only [bstreeTraverseIn, hroot, traverseInorderIn, traversePreorderIn,
        traversePostorderIn, traverseIn_eq _ hrep hfuel, joined_inorder, joined_preorder,
        joined_postorder, treeTraverse]
      split_ifs <;> rfl

end Traverse

theorem treeTraverse_inorder {κ : Type*} (t : TreeTag κ D) :
    treeTraverse t traverseMethodInorder = (.success, visitInorder t.root) := by
  obtain ⟨n, root⟩ := t
  cases root with
  | null => rfl
  | node d c l r => rfl

theorem treeTraverse_perm {κ : Type*} (t : TreeTag κ D) {traverseMethod : UInt32}
    (hmethod : traverseMethod ∈ [traverseMethodInorder, traverseMethodPreorder,
      traverseMethodPostorder]) :
    ∃ visits, treeTraverse t traverseMethod = (.success, visits) ∧
      visits.Perm (visitInorder t.root) := by
  obtain ⟨n, root⟩ := t
  cases root with
  | null => exact ⟨[], rfl, List.Perm.refl _⟩
  | node d c l r =>
    simp only [List.mem_cons, List.not_mem_nil, or_false] at hmethod
    rcases hmethod with rfl | rfl | rfl
    · exact ⟨_, rfl, List.Perm.refl _⟩
    · exact ⟨_, rfl, visitPreorder_perm _⟩
    · exact ⟨_, rfl, visitPostorder_perm _⟩

/-! ### Destroying a tree in memory -/

section Destroy

variable [DecidableEq A]

/-- `destroy_all_nodes`: the memory left, and the data passed to the callback. -/
def destroyAllNodesIn (registered : Bool) :
    ℕ → BstMemory A D → Option A → Option (BstMemory A D × List D)
  | _, h, none => some (h, [])
  | 0, _, some _ => none
  | fuel + 1, h, some currentNode => do
    let n ← h currentNode
    let (h, left) ← destroyAllNodesIn registered fuel h n.leftChild
    -- the node is read again after the calls below it
    let n ← h currentNode
    let (h, right) ← destroyAllNodesIn registered fuel h n.rightChild
    let n ← h currentNode
    let h ← freeNode h currentNode
    return (h, left ++ right ++ if registered then [n.data] else [])

/-- `BStree_destroy`; `memset` clears the counter and the root. -/
def bstreeDestroyIn (fuel : ℕ) (registered : Bool) (s : BstTag A D) :
    Option (ExitStatus × BstTag A D × List D) :=
  match s.root with
  | none => some (.failure, s, [])
  | some root =>
    (destroyAllNodesIn registered fuel s.memory (some root)).map fun (h, disposed) =>
      (.success, ⟨h, 0, none⟩, disposed)

variable {h : BstMemory A D} {p : Option A} {t : Node A D} {fuel : ℕ}

/-- The nodes of the tree are freed and no others, and the callback gets their data. -/
theorem destroyAllNodesIn_eq (registered : Bool) (ht : Represents h p t)
    (hnodup : (addresses t).Nodup) (hfuel : t.size ≤ fuel) :
    ∃ h', destroyAllNodesIn registered fuel h p =
        some (h', if registered then destroyAllNodes t else []) ∧
      (∀ b ∈ addresses t, h' b = none) ∧ ∀ b ∉ addresses t, h' b = h b := by
  induction t generalizing h p fuel with
  | null =>
    obtain rfl : p = none := ht
    refine ⟨h, ?_, fun b hb => ?_, fun b _ => rfl⟩
    · rw [destroyAllNodesIn, destroyAllNodes, ite_self]
    · cases hb
  | node d a l r ihl ihr =>
    obtain ⟨rfl, lp, rp, ha, hl, hr⟩ := ht
    rw [addresses_node, List.nodup_append] at hnodup
    obtain ⟨hdl, hdr, hdisj⟩ := hnodup
    obtain ⟨har, hdr⟩ := List.nodup_cons.mp hdr
    cases fuel with
    | zero =>
      rw [Node.size] at hfuel
      omega
    | succ fuel =>
      rw [Node.size] at hfuel
      have hal : a ∉ addresses l := fun hmem => hdisj a hmem a List.mem_cons_self rfl
      obtain ⟨h₁, hrun₁, hgone₁, hsame₁⟩ := ihl hl hdl (by omega : l.size ≤ fuel)
      -- the left side was freed, the node and its right side are as before
      have hr₁ : Represents h₁ rp r := hr.congr fun b hb =>
        hsame₁ b fun hbl => hdisj b hbl b (List.mem_cons_of_mem a hb) rfl
      obtain ⟨h₂, hrun₂, hgone₂, hsame₂⟩ := ihr hr₁ hdr (by omega : r.size ≤ fuel)
      have ha₁ : h₁ a = some ⟨d, lp, rp⟩ := (hsame₁ a hal).trans ha
      have ha₂ : h₂ a = some ⟨d, lp, rp⟩ := (hsame₂ a har).trans ha₁
      refine ⟨Function.update h₂ a none, ?_, ?_, ?_⟩
      · simp only [destroyAllNodesIn, ha, ha₁, ha₂, hrun₁, hrun₂, freeNode_eq ha₂,
          Option.bind_eq_bind, Option.bind_some]
        cases registered <;> rfl
      · intro b hb
        by_cases hba : b = a
        · rw [hba, Function.update_self]
        · rw [Function.update_of_ne hba]
          by_cases hbr : b ∈ addresses r
          · exact hgone₂ b hbr
          · rw [hsame₂ b hbr]
            refine hgone₁ b ?_
            simpa [hba, hbr] using hb
      · intro b hb
        simp only [addresses_node, List.mem_append, List.mem_cons, not_or] at hb
        rw [Function.update_of_ne hb.2.1, hsame₂ b hb.2.2, hsame₁ b hb.1]

/-- `BStree_destroy` in memory does what it does to the tree, and leaves no node. -/
theorem bstreeDestroyIn_eq {s : BstTag A D} (registered : Bool) (ht : s.Holds t)
    (hfuel : t.size ≤ fuel) : ∃ s', bstreeDestroyIn fuel registered s =
        some ((bstreeDestroy registered ⟨s.numNodes, t⟩).1, s',
          (bstreeDestroy registered ⟨s.numNodes, t⟩).2.2) ∧ s'.Holds .null := by
  have hrep := ht.represents
  cases hroot : s.root with
  | none =>
    rw [hroot] at hrep
    obtain rfl := represents_none hrep
    refine ⟨s, ?_, ht⟩
    simp only [bstreeDestroyIn, hroot]
    rfl
  | some root =>
    rw [hroot] at hrep
    cases t with
    | null => cases hrep
    | node d a l r =>
      obtain ⟨h', hrun, hgone, hsame⟩ := destroyAllNodesIn_eq registered hrep ht.nodup hfuel
      refine ⟨⟨h', 0, none⟩, ?_, rfl, List.nodup_nil, fun b _ => ?_⟩
      · simp only [bstreeDestroyIn, hroot, hrun, Option.map_some]
        rfl
      · by_cases hb : b ∈ addresses (.node d a l r)
        · exact hgone b hb
        · exact (hsame b hb).trans (ht.only b hb)

end Destroy

theorem bstreeDestroy_perm {κ : Type*} (t : TreeTag κ D) :
    (bstreeDestroy true t).2.2.Perm (traverseInorder t.root) := by
  obtain ⟨n, root⟩ := t
  cases root with
  | null => exact List.Perm.refl _
  | node d c l r => exact destroyAllNodes_perm (.node d c l r)

/-! ### Runs -/

/-- A tree in memory with a registered callback, the data attached so far, and the data passed to
the callback so far. -/
structure BstState (A D : Type u) where
  tree : BstTag A D
  attached : List D
  disposed : List D

def BstState.create : BstState A D := ⟨bstreeCreate, [], []⟩

section Life

variable [DecidableEq A]

def bstLifeStep (compare : D → D → ℤ) (fuel : ℕ) (s : BstState A D) :
    BstOp A D → Option (BstState A D)
  | .attach data malloc =>
    (bstreeAttachIn compare fuel s.tree data malloc).map fun (status, tree) =>
      ⟨tree, if status = .success then s.attached ++ [data] else s.attached, s.disposed⟩
  | .remove key =>
    (bstreeRemoveIn compare fuel true s.tree key).map fun (_, tree, disposed) =>
      ⟨tree, s.attached, s.disposed ++ disposed⟩

omit [DecidableEq A] in
/-- A tree of at most `n` nodes in memory, in order, whose data are those attached and not
disposed of. -/
def BstState.Lives (compare : D → D → ℤ) (n : ℕ) (s : BstState A D) : Prop :=
  ∃ t, s.tree.Holds t ∧ Ordered compare (traverseInorder t) ∧ t.size ≤ n ∧
    s.tree.numNodes = UInt32.ofNat t.size ∧
    s.attached.Perm (traverseInorder t ++ s.disposed)

variable {compare : D → D → ℤ} {n fuel : ℕ} {s s' : BstState A D}

theorem BstState.Lives.step (hc : TotalPreorder compare) (hn : n < fuel)
    (h : s.Lives compare n) {op : BstOp A D}
    (hop : s.tree.Permits op ∧ s.tree.Meets compare op) :
    ∃ s', bstLifeStep compare fuel s op = some s' ∧ s'.Lives compare (n + 1) := by
  obtain ⟨t, ht, ho, hsize, hcount, hperm⟩ := h
  have hfuel : t.size ≤ fuel := by omega
  cases op with
  | attach data malloc =>
    cases malloc with
    | none => exact ⟨s, rfl, t, ht, ho, by omega, hcount, hperm⟩
    | some a =>
      obtain ⟨tree, hrun, hnum, hholds⟩ : ∃ tree, bstreeAttachIn compare fuel s.tree data (some a) =
          some (.success, tree) ∧ tree.numNodes = s.tree.numNodes + 1 ∧
            tree.Holds (nodeAttach compare data (.leaf a data) t) :=
        bstreeAttachIn_holds ht hfuel data (hop.1 a rfl)
      have hadded : (traverseInorder (nodeAttach compare data (.leaf a data) t)).Perm
          (data :: traverseInorder t) := nodeAttach_perm data a t
      have hgrown := size_of_perm_cons hadded
      have hinserted := traverseInorder_nodeAttach hc data a ho
      refine ⟨⟨tree, s.attached ++ [data], s.disposed⟩, ?_, _, hholds, ?_, by omega, ?_,
        kept_attach hperm hadded⟩
      · rw [bstLifeStep, hrun]
        rfl
      · rw [hinserted]
        exact ho.insertAfter hc data
      · rw [hnum, hcount, hgrown, UInt32.ofNat_add]
        rfl
  | remove key =>
    have hcall := (callMeets_remove_iff hc true ht ho hfuel key).mpr hop.2 t ht
    by_cases hex : ∃ d ∈ traverseInorder t, compare key d = 0
    · obtain ⟨tree, t', before, d, after, hrun, hnum, hholds, ho', -, hin, hin'⟩ := hcall.1 hex
      have hremoved : (traverseInorder t).Perm (d :: traverseInorder t') := by
        rw [hin, hin']
        exact List.perm_middle
      have hshrunk := size_of_perm_cons hremoved
      refine ⟨⟨tree, s.attached, s.disposed ++ [d]⟩, ?_, t', hholds, ho', by omega, ?_,
        kept_remove hperm hremoved⟩
      · rw [bstLifeStep, hrun]
        rfl
      · rw [hnum, hcount, hshrunk, UInt32.ofNat_add]
        exact UInt32.add_sub_cancel ..
    · have hrun := hcall.2 fun d hd h0 => hex ⟨d, hd, h0⟩
      refine ⟨s, ?_, t, ht, ho, by omega, hcount, hperm⟩
      rw [bstLifeStep, hrun, Option.map_some]
      dsimp only
      rw [List.append_nil]

/-- In every run whose removals meet their condition every call comes to an end. Then each
traversal displays the data that were attached and not disposed of, the inorder one in order and
as many as are counted, and `BStree_destroy` leaves no node in memory and has by its end passed
every datum attached to the callback exactly once. -/
theorem bst_life (hc : TotalPreorder compare) (ops : List (BstOp A D))
    (hfuel : ops.length ≤ fuel)
    (hops : Along (bstLifeStep compare fuel)
      (fun s op => s.tree.Permits op ∧ s.tree.Meets compare op) BstState.create ops) :
    ∃ s, runFrom (bstLifeStep compare fuel) BstState.create ops = some s ∧
      (∃ data, bstreeTraverseIn fuel s.tree traverseMethodInorder = some (.success, data) ∧
        Ordered compare data ∧ s.tree.numNodes = UInt32.ofNat data.length) ∧
      (∀ traverseMethod ∈ [traverseMethodInorder, traverseMethodPreorder,
          traverseMethodPostorder],
        ∃ data, bstreeTraverseIn fuel s.tree traverseMethod = some (.success, data) ∧
          s.attached.Perm (data ++ s.disposed)) ∧
      ∃ status tree disposed, bstreeDestroyIn fuel true s.tree = some (status, tree, disposed) ∧
        (∀ a, tree.memory a = none) ∧ s.attached.Perm (disposed ++ s.disposed) := by
  have hcreate : (BstState.create : BstState A D).Lives compare 0 :=
    ⟨.null, ⟨rfl, List.nodup_nil, fun _ _ => rfl⟩, List.Pairwise.nil, le_refl 0, rfl,
      List.Perm.refl _⟩
  obtain ⟨s, hrun, t, ht, ho, hsize, hcount, hperm⟩ :=
    exists_runFrom_counted (fun n s op hn h hop => BstState.Lives.step hc hn h hop)
      (by omega : 0 + ops.length ≤ fuel) hcreate hops
  have hsize' : t.size ≤ fuel := by omega
  refine ⟨s, hrun, ?_, ?_, ?_⟩
  · refine ⟨traverseInorder t, ?_, ho, by rw [length_traverseInorder, hcount]⟩
    rw [bstreeTraverseIn_eq ht hsize', treeTraverse_inorder, Prod.map_apply, map_visitInorder]
    rfl
  · intro traverseMethod hmethod
    obtain ⟨visits, hvisits, hall⟩ := treeTraverse_perm ⟨s.tree.numNodes, t⟩ hmethod
    refine ⟨visits.map Prod.fst, by rw [bstreeTraverseIn_eq ht hsize', hvisits]; rfl, ?_⟩
    have hdata := hall.map Prod.fst
    rw [map_visitInorder] at hdata
    exact hperm.trans (hdata.symm.append_right _)
  · obtain ⟨tree, hdestroy, hnull⟩ := bstreeDestroyIn_eq true ht hsize'
    refine ⟨_, tree, _, hdestroy, fun a => hnull.only a (by simp), ?_⟩
    exact hperm.trans ((bstreeDestroy_perm ⟨s.tree.numNodes, t⟩).symm.append_right _)

/-- Two attaches, a removal, and the end. -/
theorem bst_life_example : ∃ s status tree disposed,
    runFrom (bstLifeStep compareKeys 3) BstState.create (attachTwoRemove (8, 9)) = some s ∧
      bstreeDestroyIn 3 true s.tree = some (status, tree, disposed) ∧
      (∀ a, tree.memory a = none) ∧ s.attached.Perm (disposed ++ s.disposed) := by
  have hops : Along (bstLifeStep compareKeys 3)
      (fun s op => s.tree.Permits op ∧ s.tree.Meets compareKeys op) BstState.create
      (attachTwoRemove (8, 9)) := by
    refine ⟨⟨fun _ _ => rfl, trivial⟩, ?_⟩
    rintro _ ⟨⟩
    refine ⟨⟨?_, trivial⟩, ?_⟩
    · rintro _ ⟨⟩
      rfl
    rintro _ ⟨⟩
    refine ⟨⟨trivial, ?_⟩, fun _ _ => trivial⟩
    intro t d a l r ht hfound
    obtain rfl := ht.unique (rootAndRight_holds true rfl rfl)
    cases hfound
    rintro ⟨rd, ra, rr, ⟨⟩⟩
  obtain ⟨s, hrun, -, -, status, tree, disposed, hdestroy, hnull, hperm⟩ :=
    bst_life compareKeys_preorder (attachTwoRemove (8, 9)) (le_refl 3) hops
  exact ⟨s, status, tree, disposed, hrun, hdestroy, hnull, hperm⟩

example : (runFrom (bstLifeStep compareKeys 3) BstState.create (attachTwoRemove (8, 9))).bind
    (fun s => (bstreeDestroyIn 3 true s.tree).map fun r => (r.1, r.2.2, s.disposed)) =
      some (.success, [(5, 0)], [(8, 1)]) := rfl

end Life

end MorningProjects.Tree
