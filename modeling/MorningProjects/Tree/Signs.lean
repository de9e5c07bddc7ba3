import MorningProjects.Tree.BstHeap
import MorningProjects.Tree.Distinct
import MorningProjects.Tree.RbRemove

/-!
# Two comparators of the same signs

Attach and lookup read a comparison by its sign alone. The removals from the
AVL tree and the red-black tree keep the result in an `int8_t` first, so two
comparators of the same signs drive equal runs there as long as the results that
the removals compare still have the same signs once cut.
-/
namespace MorningProjects.Tree
open Library

universe u

variable {D : Type u} {compare compare' : D → D → ℤ}

/-! ### Attach and lookup -/

section SameSigns

variable {κ : Type*} (hs : SameSigns compare compare')
include hs

theorem lookup_congr (data : D) (t : Node κ D) :
    lookup compare data t = lookup compare' data t := by
  induction t with
  | null => rfl
  | node d c l r ihl ihr =>
    simp only [lookup, gt_iff_lt, neg_iff_of_sign_eq (hs data d), pos_iff_of_sign_eq (hs data d),
      ihl, ihr]

theorem bstreeLookup_congr (t : TreeTag κ D) (data : D) :
    bstreeLookup compare t data = bstreeLookup compare' t data := by
  rw [bstreeLookup, bstreeLookup, lookup_congr hs]

theorem nodeAttach_congr (data : D) (nodeToAttach t : Node κ D) :
    nodeAttach compare data nodeToAttach t = nodeAttach compare' data nodeToAttach t := by
  induction t with
  | null => rfl
  | node d c l r ihl ihr => simp only [nodeAttach, neg_iff_of_sign_eq (hs data d), ihl, ihr]

theorem avlPivot_congr (data : D) (t : Node κ D) (currentNode : List Turn)
    (pivotNode : Option (List Turn)) :
    avlPivot compare data t currentNode pivotNode =
      avlPivot compare' data t currentNode pivotNode := by
  induction t generalizing currentNode pivotNode with
  | null => rfl
  | node d c l r ihl ihr => simp only [avlPivot, neg_iff_of_sign_eq (hs data d), ihl, ihr]

theorem avlRotate_congr (data : D) (t : Node κ D) :
    avlRotate compare data t = avlRotate compare' data t := by
  cases t with
  | null => rfl
  | node d c l r =>
    cases l <;> cases r <;>
      simp only [avlRotate, neg_iff_of_sign_eq (hs data d), neg_iff_of_sign_eq (hs data _)]

theorem avlRebalance_congr (data : D) (root : Node κ D) :
    avlRebalance compare data root = avlRebalance compare' data root := by
  have hrotate : avlRotate (κ := κ) compare data = avlRotate compare' data :=
    funext (avlRotate_congr hs data)
  rw [avlRebalance, avlRebalance, avlPivot_congr hs, hrotate]

theorem avltreeAttach_congr (t : TreeTag Unit D) (data : D) (malloc : Option Unit) :
    avltreeAttach compare t data malloc = avltreeAttach compare' t data malloc := by
  cases malloc with
  | none => rfl
  | some color =>
    cases hroot : t.root with
    | null => simp only [avltreeAttach, hroot]
    | node d c l r =>
      simp only [avltreeAttach, hroot, avlRebalance_congr hs, avlNodeAttach, nodeAttach_congr hs]

omit hs in
theorem rbRebalance_congr {n n' : ℤ} (hn : n.sign = n'.sign) (t : RbNode D) :
    rbRebalance n t = rbRebalance n' t := by
  cases t with
  | null => rfl
  | node d c l r => simp only [rbRebalance, neg_iff_of_sign_eq hn]

theorem rbNodeAttach_congr (data : D) (nodeToAttach t : RbNode D) :
    rbNodeAttach compare data nodeToAttach t = rbNodeAttach compare' data nodeToAttach t := by
  induction t with
  | null => rfl
  | node d c l r ihl ihr =>
    simp only [rbNodeAttach, ne_eq, eq_zero_iff_of_sign_eq (hs data d),
      neg_iff_of_sign_eq (hs data d), ihl, ihr, rbRebalance_congr (hs data d)]

theorem rbtreeAttach_congr (t : TreeTag UInt32 D) (data : D) (malloc : Option UInt32) :
    rbtreeAttach compare t data malloc = rbtreeAttach compare' t data malloc := by
  cases malloc with
  | none => rfl
  | some color => rw [rbtreeAttach, rbtreeAttach, rbNodeAttach_congr hs]

end SameSigns

/-! ### The binary search tree in memory -/

section Bst

variable {A : Type u}

def bstreeLookupIn (compare : D → D → ℤ) (fuel : ℕ) (s : BstTag A D) (data : D) : Option Bool :=
  match s.root with
  | none => some false
  | some root => (lookupIn compare s.memory data fuel root none).map fun r => r.1.isSome

variable (hs : SameSigns compare compare')
include hs

theorem lookupIn_congr (h : BstMemory A D) (data : D) (fuel : ℕ) (currentNode : A)
    (parentNode : Option A) :
    lookupIn compare h data fuel currentNode parentNode =
      lookupIn compare' h data fuel currentNode parentNode := by
  induction fuel generalizing currentNode parentNode with
  | zero => rfl
  | succ fuel ih =>
    rw [lookupIn, lookupIn]
    cases h currentNode with
    | none => rfl
    | some n =>
      simp only [Option.bind_eq_bind, Option.bind_some, gt_iff_lt,
        neg_iff_of_sign_eq (hs data n.data), pos_iff_of_sign_eq (hs data n.data), ih]

theorem bstreeLookupIn_congr (fuel : ℕ) (s : BstTag A D) (data : D) :
    bstreeLookupIn compare fuel s data = bstreeLookupIn compare' fuel s data := by
  simp only [bstreeLookupIn, lookupIn_congr hs]

variable [DecidableEq A]

theorem nodeAttachIn_congr (nodeToAttach : A) (fuel : ℕ) (h : BstMemory A D)
    (nodeToCompare : A) :
    nodeAttachIn compare nodeToAttach fuel h nodeToCompare =
      nodeAttachIn compare' nodeToAttach fuel h nodeToCompare := by
  induction fuel generalizing nodeToCompare with
  | zero => rfl
  | succ fuel ih =>
    rw [nodeAttachIn, nodeAttachIn]
    cases h nodeToAttach with
    | none => rfl
    | some new =>
      cases h nodeToCompare with
      | none => rfl
      | some n =>
        simp only [Option.bind_eq_bind, Option.bind_some,
          neg_iff_of_sign_eq (hs new.data n.data), ih]

theorem bstreeAttachIn_congr (fuel : ℕ) (s : BstTag A D) (data : D) (malloc : Option A) :
    bstreeAttachIn compare fuel s data malloc = bstreeAttachIn compare' fuel s data malloc := by
  cases malloc with
  | none => rfl
  | some a => simp only [bstreeAttachIn, nodeAttachIn_congr hs]

theorem bstreeRemoveIn_congr (fuel : ℕ) (registered : Bool) (s : BstTag A D) (data : D) :
    bstreeRemoveIn compare fuel registered s data =
      bstreeRemoveIn compare' fuel registered s data := by
  simp only [bstreeRemoveIn, lookupIn_congr hs]

end Bst

/-! ### The comparisons of a removal -/

section Compared

variable {κ : Type*}

def comparedBelow (compare : D → D → ℤ) (p d : D) (fromLeft fromRight : List (D × D)) :
    List (D × D) :=
  (p, d) :: if toInt8 (compare p d) ≤ 0 then fromLeft else fromRight

/-- The pairs that `avltree_remove` and `tree_remove` hand to the comparator, in order. -/
def comparedPairs (compare : D → D → ℤ) : Node κ D → D → List (D × D)
  | .null, _ => []
  | .node d _ l r, p =>
    if toInt8 (compare p d) = 0 then
      match l, r with
      | .null, .null => [(p, d)]
      | .null, .node td _ tl tr => (p, d) ::
        comparedBelow compare p td (comparedPairs compare tl p) (comparedPairs compare tr p)
      | .node td _ tl tr, .null => (p, d) ::
        comparedBelow compare p td (comparedPairs compare tl p) (comparedPairs compare tr p)
      | .node ld lc ll lr, .node rd rc rl rr =>
        let p' := lastData ld lr
        (p, d) :: comparedBelow compare p' p' (comparedPairs compare (.node ld lc ll lr) p')
          (comparedPairs compare (.node rd rc rl rr) p')
    else (p, d) ::
      comparedBelow compare p d (comparedPairs compare l p) (comparedPairs compare r p)

/-- On these pairs the results of two comparators have the same signs in an `int8_t`. -/
def SameCutSigns (compare compare' : D → D → ℤ) (pairs : List (D × D)) : Prop :=
  ∀ a ∈ pairs, (toInt8 (compare a.1 a.2)).sign = (toInt8 (compare' a.1 a.2)).sign

theorem sameCutSigns_cons {p d : D} {pairs : List (D × D)} :
    SameCutSigns compare compare' ((p, d) :: pairs) ↔
      (toInt8 (compare p d)).sign = (toInt8 (compare' p d)).sign ∧
        SameCutSigns compare compare' pairs := by
  rw [SameCutSigns, List.forall_mem_cons]
  rfl

theorem avlRemoveBelow_congr {p d : D} (c : κ) (l r : Node κ D) {left right : List (D × D)}
    {fromLeft fromLeft' fromRight fromRight' : Option (Removal κ D)}
    (h : SameCutSigns compare compare' (comparedBelow compare p d left right))
    (hleft : SameCutSigns compare compare' left → fromLeft = fromLeft')
    (hright : SameCutSigns compare compare' right → fromRight = fromRight') :
    avlRemoveBelow compare p d c l r fromLeft fromRight =
      avlRemoveBelow compare' p d c l r fromLeft' fromRight' := by
  obtain ⟨hsign, hbelow⟩ := sameCutSigns_cons.mp h
  rw [avlRemoveBelow, avlRemoveBelow]
  by_cases hle : toInt8 (compare p d) ≤ 0
  · rw [if_pos hle] at hbelow
    rw [if_pos hle, if_pos ((nonpos_iff_of_sign_eq hsign).mp hle), hleft hbelow]
  · rw [if_neg hle] at hbelow
    rw [if_neg hle, if_neg (mt (nonpos_iff_of_sign_eq hsign).mpr hle), hright hbelow]

theorem rebalance_congr {n n' : ℤ} (hn : n.sign = n'.sign) (t : RbNode D) :
    rebalance n t = rebalance n' t := by
  cases t with
  | null => rfl
  | node d c l r => simp only [rebalance, nonpos_iff_of_sign_eq hn, neg_iff_of_sign_eq hn]

theorem treeRebalance_congr {n n' : ℤ} (hn : n.sign = n'.sign) (node : RbNode D)
    (s : RbRemoval D) : treeRebalance n node s = treeRebalance n' node s := by
  rw [treeRebalance, treeRebalance, rebalance_congr hn]

theorem treeRemoveBelow_congr {p d : D} (c : UInt32) (l r : RbNode D) {left right : List (D × D)}
    {fromLeft fromLeft' fromRight fromRight' : Option (RbRemoval D)}
    (h : SameCutSigns compare compare' (comparedBelow compare p d left right))
    (hleft : SameCutSigns compare compare' left → fromLeft = fromLeft')
    (hright : SameCutSigns compare compare' right → fromRight = fromRight') :
    treeRemoveBelow compare p d c l r fromLeft fromRight =
      treeRemoveBelow compare' p d c l r fromLeft' fromRight' := by
  obtain ⟨hsign, hbelow⟩ := sameCutSigns_cons.mp h
  simp only [treeRemoveBelow, treeRebalance_congr hsign]
  by_cases hle : toInt8 (compare p d) ≤ 0
  · rw [if_pos hle] at hbelow
    rw [if_pos hle, if_pos ((nonpos_iff_of_sign_eq hsign).mp hle), hleft hbelow]
  · rw [if_neg hle] at hbelow
    rw [if_neg hle, if_neg (mt (nonpos_iff_of_sign_eq hsign).mpr hle), hright hbelow]

variable [DecidableEq D]

theorem avltreeRemoveAt_congr (registered : Bool) (t : Node κ D) (p : D)
    (h : SameCutSigns compare compare' (comparedPairs compare t p)) :
    avltreeRemoveAt compare registered t p = avltreeRemoveAt compare' registered t p := by
  fun_induction comparedPairs compare t p with
  | case1 p => rfl
  | case2 d c p h0 =>
    have h0' := (eq_zero_iff_of_sign_eq (sameCutSigns_cons.mp h).1).mp h0
    simp only [avltreeRemoveAt, h0, h0', if_true]
  | case3 d c p h0 td tc tl tr ihl ihr =>
    obtain ⟨hsign, hbelow⟩ := sameCutSigns_cons.mp h
    have h0' := (eq_zero_iff_of_sign_eq hsign).mp h0
    simp only [avltreeRemoveAt, h0, h0', if_true, avlRemoveBelow_congr tc tl tr hbelow ihl ihr]
  | case4 d c p h0 td tc tl tr ihl ihr =>
    obtain ⟨hsign, hbelow⟩ := sameCutSigns_cons.mp h
    have h0' := (eq_zero_iff_of_sign_eq hsign).mp h0
    simp only [avltreeRemoveAt, h0, h0', if_true, avlRemoveBelow_congr tc tl tr hbelow ihl ihr]
  | case5 d c p h0 ld lc ll lr rd rc rl rr p' ihl ihr =>
    obtain ⟨hsign, hbelow⟩ := sameCutSigns_cons.mp h
    have h0' := (eq_zero_iff_of_sign_eq hsign).mp h0
    rw [avltreeRemoveAt.eq_def, avltreeRemoveAt.eq_def compare']
    simp only [h0, h0', if_true]
    rw [avlRemoveBelow_congr c _ _ hbelow ihl ihr]
  | case6 d c l r p h0 ihl ihr =>
    obtain ⟨hsign, hbelow⟩ := sameCutSigns_cons.mp h
    have h0' := mt (eq_zero_iff_of_sign_eq hsign).mpr h0
    rw [avltreeRemoveAt_descend h0, avltreeRemoveAt_descend h0',
      avlRemoveBelow_congr c l r hbelow ihl ihr]

theorem treeRemove_congr (registered : Bool) (t : RbNode D) (p : D) (balanced : Bool)
    (h : SameCutSigns compare compare' (comparedPairs compare t p)) :
    treeRemove compare registered t p balanced = treeRemove compare' registered t p balanced := by
  fun_induction comparedPairs compare t p generalizing balanced with
  | case1 p => rfl
  | case2 d c p h0 =>
    have h0' := (eq_zero_iff_of_sign_eq (sameCutSigns_cons.mp h).1).mp h0
    simp only [treeRemove, h0, h0', if_true]
  | case3 d c p h0 td tc tl tr ihl ihr =>
    obtain ⟨hsign, hbelow⟩ := sameCutSigns_cons.mp h
    have h0' := (eq_zero_iff_of_sign_eq hsign).mp h0
    simp only [treeRemove, h0, h0', if_true]
    rw [treeRemoveBelow_congr _ tl tr hbelow (ihl _) (ihr _)]
  | case4 d c p h0 td tc tl tr ihl ihr =>
    obtain ⟨hsign, hbelow⟩ := sameCutSigns_cons.mp h
    have h0' := (eq_zero_iff_of_sign_eq hsign).mp h0
    simp only [treeRemove, h0, h0', if_true]
    rw [treeRemoveBelow_congr _ tl tr hbelow (ihl _) (ihr _)]
  | case5 d c p h0 ld lc ll lr rd rc rl rr p' ihl ihr =>
    obtain ⟨hsign, hbelow⟩ := sameCutSigns_cons.mp h
    have h0' := (eq_zero_iff_of_sign_eq hsign).mp h0
    rw [treeRemove.eq_def, treeRemove.eq_def compare']
    simp only [h0, h0', if_true]
    rw [treeRemoveBelow_congr c _ _ hbelow (ihl balanced) (ihr balanced)]
  | case6 d c l r p h0 ihl ihr =>
    obtain ⟨hsign, hbelow⟩ := sameCutSigns_cons.mp h
    have h0' := mt (eq_zero_iff_of_sign_eq hsign).mpr h0
    rw [treeRemove.eq_def, treeRemove.eq_def compare']
    simp only [h0, h0', if_false]
    rw [treeRemoveBelow_congr c l r hbelow (ihl balanced) (ihr balanced)]

theorem avltreeRemove_congr (registered : Bool) (t : TreeTag Unit D) (data : D)
    (h : SameCutSigns compare compare' (comparedPairs compare t.root data)) :
    avltreeRemove compare registered t data = avltreeRemove compare' registered t data := by
  rw [avltreeRemove, avltreeRemove, avltreeRemoveAt_congr registered t.root data h]

theorem rbtreeRemove_congr (registered : Bool) (t : TreeTag UInt32 D) (data : D)
    (h : SameCutSigns compare compare' (comparedPairs compare t.root data)) :
    rbtreeRemove compare registered t data = rbtreeRemove compare' registered t data := by
  cases hroot : t.root with
  | null => simp only [rbtreeRemove, hroot]
  | node d c l r =>
    rw [hroot] at h
    simp only [rbtreeRemove, hroot, treeRemove_congr registered _ data false h]

end Compared

/-! ### Runs -/

inductive TreeCall (M D : Type*) where
  | attach (data : D) (malloc : M)
  | lookup (data : D)
  | remove (data : D)

/-- What a call tells its caller; a removal also by the data it passes to the callback. -/
inductive TreeAnswer (D : Type*) where
  | attached (status : ExitStatus)
  | found (dataFound : Bool)
  | removed (status : ExitStatus) (disposed : List D)
  deriving DecidableEq, Repr

structure TreeCalls (T M D : Type*) where
  attach : T → D → M → Option (ExitStatus × T)
  lookup : T → D → Option Bool
  remove : T → D → Option (ExitStatus × T × List D)

structure Session (T D : Type*) where
  tree : T
  answers : List (TreeAnswer D)
  deriving DecidableEq, Repr

section Session

variable {T M : Type*} {D : Type*}

def TreeCalls.call (calls : TreeCalls T M D) (s : Session T D) :
    TreeCall M D → Option (Session T D)
  | .attach data malloc =>
    (calls.attach s.tree data malloc).map fun r => ⟨r.2, s.answers ++ [.attached r.1]⟩
  | .lookup data => (calls.lookup s.tree data).map fun r => ⟨s.tree, s.answers ++ [.found r]⟩
  | .remove data =>
    (calls.remove s.tree data).map fun r => ⟨r.2.1, s.answers ++ [.removed r.1 r.2.2]⟩

/-- A condition on the tree and the key of a removal, as one on calls. -/
def Session.AtRemoval (P : T → D → Prop) (s : Session T D) : TreeCall M D → Prop
  | .attach _ _ | .lookup _ => True
  | .remove data => P s.tree data

/-- Trees whose calls agree, the removals under a condition, run alike. -/
theorem TreeCalls.run_congr {calls calls' : TreeCalls T M D} {P : T → D → Prop}
    (hattach : ∀ t data malloc, calls.attach t data malloc = calls'.attach t data malloc)
    (hlookup : ∀ t data, calls.lookup t data = calls'.lookup t data)
    (hremove : ∀ t data, P t data → calls.remove t data = calls'.remove t data)
    {s : Session T D} {ops : List (TreeCall M D)}
    (hP : Along calls.call (Session.AtRemoval P) s ops) :
    runFrom calls.call s ops = runFrom calls'.call s ops := by
  refine runFrom_congr (fun s op h => ?_) hP
  cases op with
  | attach data malloc => rw [call, call, hattach]
  | lookup data => rw [call, call, hlookup]
  | remove data => rw [call, call, hremove s.tree data h]

end Session

section Run

variable {A : Type u}

def bstCalls [DecidableEq A] (compare : D → D → ℤ) (fuel : ℕ) (registered : Bool) :
    TreeCalls (BstTag A D) (Option A) D :=
  ⟨bstreeAttachIn compare fuel, bstreeLookupIn compare fuel, bstreeRemoveIn compare fuel registered⟩

variable [DecidableEq D]

def avlCalls (compare : D → D → ℤ) (registered : Bool) :
    TreeCalls (TreeTag Unit D) (Option Unit) D :=
  ⟨avltreeAttach compare, fun t data => some (bstreeLookup compare t data),
    avltreeRemove compare registered⟩

def rbCalls (compare : D → D → ℤ) (registered : Bool) :
    TreeCalls (TreeTag UInt32 D) (Option UInt32) D :=
  ⟨rbtreeAttach compare, fun t data => some (bstreeLookup compare t data),
    rbtreeRemove compare registered⟩

def RemovalSigns {κ : Type*} (compare compare' : D → D → ℤ) (t : TreeTag κ D) (data : D) : Prop :=
  SameCutSigns compare compare' (comparedPairs compare t.root data)

/-- Under two comparators of the same signs every run on a binary search tree ends with the
same tree and the same answers, and so does every run on an AVL tree or a red-black tree whose
removals meet their condition. -/
theorem runs_of_sameSigns [DecidableEq A] (hs : SameSigns compare compare') (registered : Bool) :
    (∀ fuel ops, runFrom (bstCalls (A := A) compare fuel registered).call ⟨bstreeCreate, []⟩ ops =
      runFrom (bstCalls compare' fuel registered).call ⟨bstreeCreate, []⟩ ops) ∧
    (∀ ops, Along (avlCalls compare registered).call
        (Session.AtRemoval (RemovalSigns compare compare')) ⟨treeCreate, []⟩ ops →
      runFrom (avlCalls compare registered).call ⟨treeCreate, []⟩ ops =
        runFrom (avlCalls compare' registered).call ⟨treeCreate, []⟩ ops) ∧
    (∀ ops, Along (rbCalls compare registered).call
        (Session.AtRemoval (RemovalSigns compare compare')) ⟨treeCreate, []⟩ ops →
      runFrom (rbCalls compare registered).call ⟨treeCreate, []⟩ ops =
        runFrom (rbCalls compare' registered).call ⟨treeCreate, []⟩ ops) := by
  refine ⟨fun fuel ops => ?_, fun ops hP => ?_, fun ops hP => ?_⟩
  · apply TreeCalls.run_congr (P := fun _ _ => True)
    · exact bstreeAttachIn_congr hs fuel
    · exact bstreeLookupIn_congr hs fuel
    · exact fun t data _ => bstreeRemoveIn_congr hs fuel registered t data
    · refine along_of_forall (fun s op => ?_) _ ops
      cases op <;> trivial
  · refine TreeCalls.run_congr (avltreeAttach_congr hs) (fun t data => ?_)
      (avltreeRemove_congr registered) hP
    exact congrArg some (bstreeLookup_congr hs t data)
  · refine TreeCalls.run_congr (rbtreeAttach_congr hs) (fun t data => ?_)
      (rbtreeRemove_congr registered) hP
    exact congrArg some (bstreeLookup_congr hs t data)

end Run

def attachTwoRemoveLast : List (TreeCall (Option Unit) (ℤ × ℕ)) :=
  [.attach (1, 0) (some ()), .attach (2, 1) (some ()), .lookup (1, 9), .remove (2, 9)]

theorem runs_of_sameSigns_example :
    runFrom (avlCalls compareKeys true).call ⟨treeCreate, []⟩ attachTwoRemoveLast =
      runFrom (avlCalls compareKeySigns true).call ⟨treeCreate, []⟩ attachTwoRemoveLast := by
  have hs : SameSigns compareKeys compareKeySigns := fun a b => Int.sign_sign.symm
  refine (runs_of_sameSigns (A := ℕ) hs true).2.1 attachTwoRemoveLast ?_
  refine ⟨trivial, fun s1 h1 => ⟨trivial, fun s2 h2 => ⟨trivial, fun s3 h3 => ⟨?_, fun _ _ =>
    trivial⟩⟩⟩⟩
  cases h1
  cases h2
  cases h3
  unfold Session.AtRemoval RemovalSigns SameCutSigns
  decide

/-- The signs of `compareKeySigns` at a magnitude that an `int8_t` cannot hold. -/
def compareKeyWide (a b : ℤ × ℕ) : ℤ := 256 * compareKeySigns a b

/-- With the wide results the removal of the last key takes out the root. -/
theorem runs_of_compareKeyWide :
    SameSigns compareKeySigns compareKeyWide ∧
      (∀ a b, -2 ^ 31 ≤ compareKeyWide a b ∧ compareKeyWide a b < 2 ^ 31) ∧
      runFrom (avlCalls compareKeySigns true).call ⟨treeCreate, []⟩ attachTwoRemoveLast ≠
        runFrom (avlCalls compareKeyWide true).call ⟨treeCreate, []⟩ attachTwoRemoveLast := by
  refine ⟨fun a b => ?_, fun a b => ?_, by decide⟩
  · rw [compareKeyWide, Int.sign_mul]
    exact (Int.one_mul _).symm
  · rw [compareKeyWide]
    rcases compareKeySigns_threeWay a b with h | h | h <;> rw [h] <;> decide

end MorningProjects.Tree
