import MorningProjects.Library.Runs
import MorningProjects.Tree.Agreement
import MorningProjects.Tree.Remove

/-!
# Who owns the data of an AVL tree

Each attached datum should be referenced by one node, or have been passed to
the `remove` callback once. Removal breaks this when the search it resumes after
its first match meets a second equal key. The condition `RemovesOne` follows
that search on the tree before the removal, and in every run whose removals
meet it the data stay owned exactly once.
-/
namespace MorningProjects.Tree
open Library

variable {κ D : Type*} {compare : D → D → ℤ}

/-! ### Rebalancing on the way up -/

theorem avlRotationLL_exists {d : D} {c : κ} {l r : Node κ D} (hl : 0 < avlNodeHeight l) :
    ∃ t, avlRotationLL (.node d c l r) = some t := by
  cases l with
  | null => simp at hl
  | node ld lc ll lr => exact ⟨_, rfl⟩

theorem avlRotationRR_exists {d : D} {c : κ} {l r : Node κ D} (hr : 0 < avlNodeHeight r) :
    ∃ t, avlRotationRR (.node d c l r) = some t := by
  cases r with
  | null => simp at hr
  | node rd rc rl rr => exact ⟨_, rfl⟩

theorem avlRotationLR_exists {d : D} {c : κ} {l r : Node κ D} (hl : balanceFactor l < 0) :
    ∃ t, avlRotationLR (.node d c l r) = some t := by
  match l with
  | .null => simp [balanceFactor] at hl
  | .node ld lc ll .null => simp only [balanceFactor_node, avlNodeHeight_null] at hl; omega
  | .node ld lc ll (.node md mc ml mr) => exact ⟨_, rfl⟩

theorem avlRotationRL_exists {d : D} {c : κ} {l r : Node κ D} (hr : balanceFactor r > 0) :
    ∃ t, avlRotationRL (.node d c l r) = some t := by
  match r with
  | .null => simp [balanceFactor] at hr
  | .node rd rc .null rr => simp only [balanceFactor_node, avlNodeHeight_null] at hr; omega
  | .node rd rc (.node md mc ml mr) rr => exact ⟨_, rfl⟩

theorem isNull_eq_false {t : Node κ D} (h : 0 < avlNodeHeight t) : isNull t = false := by
  cases t with
  | null => simp at h
  | node d c l r => rfl

/-- Rebalancing reads the heights first, so no shape makes it dereference NULL. -/
theorem avlRebalanceEx_exists (d : D) (c : κ) (l r : Node κ D) :
    ∃ t, avlRebalanceEx (.node d c l r) = some t ∧
      traverseInorder t = traverseInorder (.node d c l r) := by
  have hsome : ∃ t, avlRebalanceEx (.node d c l r) = some t := by
    rw [avlRebalanceEx]
    split_ifs with h1 h2 h3 h4 h5 h6 h7 h8
    · have hl : 0 < avlNodeHeight l := by simp only [balanceFactor_node] at h1; omega
      simp [isNull_eq_false hl] at h2
    · exact avlRotationLL_exists (by simp only [balanceFactor_node] at h1; omega)
    · exact avlRotationLR_exists h4
    · exact ⟨_, rfl⟩
    · have hr : 0 < avlNodeHeight r := by simp only [balanceFactor_node] at h5; omega
      simp [isNull_eq_false hr] at h6
    · exact avlRotationRR_exists (by simp only [balanceFactor_node] at h5; omega)
    · exact avlRotationRL_exists h8
    · exact ⟨_, rfl⟩
    · exact ⟨_, rfl⟩
  obtain ⟨t, ht⟩ := hsome
  refine ⟨t, ht, ?_⟩
  rw [avlRebalanceEx] at ht
  split_ifs at ht
  · exact traverseInorder_avlRotationLL ht
  · exact traverseInorder_avlRotationLR ht
  · rw [Option.some.inj ht]
  · exact traverseInorder_avlRotationRR ht
  · exact traverseInorder_avlRotationRL ht
  · rw [Option.some.inj ht]
  · rw [Option.some.inj ht]

/-! ### The search a removal follows -/

def firstMatch (compare : D → D → ℤ) (p : D) : Node κ D → Option (Node κ D)
  | .null => none
  | .node d c l r =>
    if toInt8 (compare p d) = 0 then some (.node d c l r)
    else if toInt8 (compare p d) ≤ 0 then firstMatch compare p l
    else firstMatch compare p r

/-- The search that resumes below a promoted child finds nothing. -/
def NoFurtherMatch (compare : D → D → ℤ) (p : D) : Node κ D → Prop
  | .null => True
  | .node d _ l r =>
    firstMatch compare p (if toInt8 (compare p d) ≤ 0 then l else r) = none

/-- On the tree before the removal: a present key is met; a matched node with a
NULL child is the only match of the resumed search; and from a matched node with
two children the search for the predecessor's key ends at the predecessor. -/
def RemovesOne (compare : D → D → ℤ) (key : D) (t : Node κ D) : Prop :=
  match firstMatch compare key t with
  | none => ∀ d ∈ traverseInorder t, compare key d ≠ 0
  | some .null => False
  | some (.node _ _ (.node ld lc ll lr) (.node _ _ _ _)) =>
    ∃ pc pl, firstMatch compare (lastData ld lr) (.node ld lc ll lr) =
        some (.node (lastData ld lr) pc pl .null) ∧
      NoFurtherMatch compare (lastData ld lr) pl
  | some (.node _ _ l r) => NoFurtherMatch compare key (if isNull l then r else l)

section Removal

variable [DecidableEq D] {registered : Bool} {p d : D} {c : κ} {l r t : Node κ D}

omit [DecidableEq D] in
theorem avlRemoveBelow_left (c : κ) (l r : Node κ D) {s : Removal κ D}
    (hp : toInt8 (compare p d) ≤ 0) {fromLeft : Option (Removal κ D)}
    (fromRight : Option (Removal κ D)) (hs : fromLeft = some s) :
    ∃ t, avlRemoveBelow compare p d c l r fromLeft fromRight = some ⟨t, s.disposed, s.freed⟩ ∧
      traverseInorder t = traverseInorder s.node ++ d :: traverseInorder r := by
  obtain ⟨t, ht, hin⟩ := avlRebalanceEx_exists d c s.node r
  exact ⟨t, by simp [avlRemoveBelow, hp, hs, ht], hin⟩

omit [DecidableEq D] in
theorem avlRemoveBelow_right (c : κ) (l r : Node κ D) {s : Removal κ D}
    (hp : ¬ toInt8 (compare p d) ≤ 0) (fromLeft : Option (Removal κ D))
    {fromRight : Option (Removal κ D)} (hs : fromRight = some s) :
    ∃ t, avlRemoveBelow compare p d c l r fromLeft fromRight = some ⟨t, s.disposed, s.freed⟩ ∧
      traverseInorder t = traverseInorder l ++ d :: traverseInorder s.node := by
  obtain ⟨t, ht, hin⟩ := avlRebalanceEx_exists d c l s.node
  exact ⟨t, by simp [avlRemoveBelow, hp, hs, ht], hin⟩

theorem avltreeRemoveAt_descend (h : toInt8 (compare p d) ≠ 0) :
    avltreeRemoveAt compare registered (.node d c l r) p =
      avlRemoveBelow compare p d c l r (avltreeRemoveAt compare registered l p)
        (avltreeRemoveAt compare registered r p) := by
  rw [avltreeRemoveAt.eq_def]
  simp only [h, if_false]

theorem avltreeRemoveAt_of_none (registered : Bool) (h : firstMatch compare p t = none) :
    ∃ s, avltreeRemoveAt compare registered t p = some s ∧ s.disposed = [] ∧ s.freed = 0 ∧
      traverseInorder s.node = traverseInorder t := by
  induction t with
  | null => exact ⟨_, rfl, rfl, rfl, rfl⟩
  | node d c l r ihl ihr =>
    rw [firstMatch] at h
    split_ifs at h with h0 hle
    · obtain ⟨s, hs, hd, hf, hin⟩ := ihl h
      obtain ⟨t, ht, hin'⟩ := avlRemoveBelow_left c l r hle
        (avltreeRemoveAt compare registered r p) hs
      exact ⟨⟨t, s.disposed, s.freed⟩, by rw [avltreeRemoveAt_descend h0, ht], hd, hf,
        by rw [hin', hin]; rfl⟩
    · obtain ⟨s, hs, hd, hf, hin⟩ := ihr h
      obtain ⟨t, ht, hin'⟩ := avlRemoveBelow_right c l r hle
        (avltreeRemoveAt compare registered l p) hs
      exact ⟨⟨t, s.disposed, s.freed⟩, by rw [avltreeRemoveAt_descend h0, ht], hd, hf,
        by rw [hin', hin]; rfl⟩

/-- What a removal does at its first match it does in place inside the whole tree. -/
theorem avltreeRemoveAt_of_match {m : Node κ D} {sm : Removal κ D}
    (h : firstMatch compare p t = some m)
    (hm : avltreeRemoveAt compare registered m p = some sm) :
    ∃ s before after, avltreeRemoveAt compare registered t p = some s ∧
      s.disposed = sm.disposed ∧ s.freed = sm.freed ∧
      traverseInorder t = before ++ traverseInorder m ++ after ∧
      traverseInorder s.node = before ++ traverseInorder sm.node ++ after := by
  induction t with
  | null => cases h
  | node d c l r ihl ihr =>
    rw [firstMatch] at h
    split_ifs at h with h0 hle
    · obtain rfl := Option.some.inj h
      exact ⟨sm, [], [], hm, rfl, rfl, by simp, by simp⟩
    · obtain ⟨s, before, after, hs, hd, hf, hin, hin'⟩ := ihl h
      obtain ⟨t, ht, hout⟩ := avlRemoveBelow_left c l r hle
        (avltreeRemoveAt compare registered r p) hs
      refine ⟨⟨t, s.disposed, s.freed⟩, before, after ++ d :: traverseInorder r,
        by rw [avltreeRemoveAt_descend h0, ht], hd, hf, ?_, ?_⟩
      · simp [hin]
      · simp [hout, hin']
    · obtain ⟨s, before, after, hs, hd, hf, hin, hin'⟩ := ihr h
      obtain ⟨t, ht, hout⟩ := avlRemoveBelow_right c l r hle
        (avltreeRemoveAt compare registered l p) hs
      refine ⟨⟨t, s.disposed, s.freed⟩, traverseInorder l ++ d :: before, after,
        by rw [avltreeRemoveAt_descend h0, ht], hd, hf, ?_, ?_⟩
      · simp [hin]
      · simp [hout, hin']

omit [DecidableEq D] in
theorem toInt8_of_firstMatch (h : firstMatch compare p t = some (.node d c l r)) :
    toInt8 (compare p d) = 0 := by
  induction t with
  | null => cases h
  | node e ce le re ihl ihr =>
    rw [firstMatch] at h
    split_ifs at h with h0 hle
    · cases h
      exact h0
    · exact ihl h
    · exact ihr h

theorem avlRemoveBelow_of_noFurtherMatch (registered : Bool)
    (h : NoFurtherMatch compare p (.node d c l r)) :
    ∃ t, avlRemoveBelow compare p d c l r (avltreeRemoveAt compare registered l p)
        (avltreeRemoveAt compare registered r p) = some ⟨t, [], 0⟩ ∧
      traverseInorder t = traverseInorder (.node d c l r) := by
  rw [NoFurtherMatch] at h
  by_cases hle : toInt8 (compare p d) ≤ 0
  · rw [if_pos hle] at h
    obtain ⟨s, hs, hd, hf, hin⟩ := avltreeRemoveAt_of_none registered h
    obtain ⟨t, ht, hout⟩ := avlRemoveBelow_left c l r hle
        (avltreeRemoveAt compare registered r p) hs
    exact ⟨t, by rw [ht, hd, hf], by rw [hout, hin]; rfl⟩
  · rw [if_neg hle] at h
    obtain ⟨s, hs, hd, hf, hin⟩ := avltreeRemoveAt_of_none registered h
    obtain ⟨t, ht, hout⟩ := avlRemoveBelow_right c l r hle
        (avltreeRemoveAt compare registered l p) hs
    exact ⟨t, by rw [ht, hd, hf], by rw [hout, hin]; rfl⟩

theorem avltreeRemoveAt_free (registered : Bool) (c : κ) (h0 : toInt8 (compare p d) = 0)
    (hnull : isNull l ∨ isNull r)
    (h : NoFurtherMatch compare p (if isNull l then r else l)) :
    ∃ s, avltreeRemoveAt compare registered (.node d c l r) p = some s ∧
      s.disposed = disposal registered p d ∧ s.freed = 1 ∧
      traverseInorder s.node = traverseInorder l ++ traverseInorder r := by
  match l, r with
  | .null, .null =>
    refine ⟨⟨.null, disposal registered p d, 1⟩, ?_, rfl, rfl, rfl⟩
    rw [avltreeRemoveAt.eq_def]
    simp only [h0, if_true]
  | .null, .node td tc tl tr =>
    obtain ⟨t, ht, hin⟩ := avlRemoveBelow_of_noFurtherMatch registered h
    refine ⟨⟨t, disposal registered p d, 1⟩, ?_, rfl, rfl, by simpa using hin⟩
    rw [avltreeRemoveAt.eq_def]
    simp only [h0, if_true, ht, Option.map_some, List.append_nil]
  | .node td tc tl tr, .null =>
    obtain ⟨t, ht, hin⟩ := avlRemoveBelow_of_noFurtherMatch registered h
    refine ⟨⟨t, disposal registered p d, 1⟩, ?_, rfl, rfl, by simpa using hin⟩
    rw [avltreeRemoveAt.eq_def]
    simp only [h0, if_true, ht, Option.map_some, List.append_nil]
  | .node ld lc ll lr, .node rd rc rl rr => simp [isNull] at hnull

/-- A matched node with two children takes its predecessor's datum; the search for
the predecessor then frees the predecessor's node without a callback. -/
theorem avltreeRemoveAt_copy (registered : Bool) (c : κ) {ld : D} (rd : D) {lc : κ} (rc : κ)
    {pc : κ} {ll lr : Node κ D} (rl rr : Node κ D) {pl : Node κ D}
    (hself : ∀ a, compare a a = 0) (h0 : toInt8 (compare p d) = 0)
    (hm : firstMatch compare (lastData ld lr) (.node ld lc ll lr) =
      some (.node (lastData ld lr) pc pl .null))
    (h : NoFurtherMatch compare (lastData ld lr) pl) :
    ∃ s before after, avltreeRemoveAt compare registered
        (.node d c (.node ld lc ll lr) (.node rd rc rl rr)) p = some s ∧
      s.disposed = (if registered then [d] else []) ∧ s.freed = 1 ∧
      traverseInorder (.node ld lc ll lr) = before ++ lastData ld lr :: after ∧
      traverseInorder s.node =
        before ++ after ++ lastData ld lr :: traverseInorder (.node rd rc rl rr) := by
  generalize hp : lastData ld lr = p' at *
  have hp0 : toInt8 (compare p' p') = 0 := by rw [hself]; rfl
  obtain ⟨sm, hsm, hd, hf, hin⟩ := avltreeRemoveAt_free registered pc hp0
    (.inr rfl) (r := .null) (l := pl) (by
      cases pl with
      | null => trivial
      | node _ _ _ _ => exact h)
  obtain ⟨s, before, after, hs, hd', hf', hin', hout⟩ := avltreeRemoveAt_of_match hm hsm
  obtain ⟨t, ht, htin⟩ := avlRemoveBelow_left c (.node ld lc ll lr) (.node rd rc rl rr)
    hp0.le (avltreeRemoveAt compare registered (.node rd rc rl rr) p') hs
  have hnone : s.disposed = [] := by
    rw [hd', hd]
    simp [disposal]
  refine ⟨⟨t, if registered then [d] else [], 1⟩, before ++ traverseInorder pl, after,
    ?_, rfl, rfl, ?_, ?_⟩
  · rw [avltreeRemoveAt.eq_def]
    simp only [h0, if_true, hp, ht, Option.map_some, hnone, List.append_nil, hf', hf]
  · rw [hin']
    simp
  · change traverseInorder t = _
    rw [htin, hout, hin]
    simp

omit [DecidableEq D] in
/-- The datum copied up stands in for the one removed below. -/
theorem perm_copied_up {left right before after : List D} {p' : D}
    (h : left = before ++ p' :: after) (d : D) :
    (left ++ d :: right).Perm (d :: (before ++ after ++ p' :: right)) := by
  rw [h]
  refine List.perm_middle.trans (List.Perm.cons d ?_)
  simp only [List.append_assoc, List.cons_append]
  exact List.Perm.append_left before List.perm_middle.symm

/-- A removal that meets its condition disposes of one datum if the key is present
and of none otherwise. -/
theorem avltreeRemoveAt_removesOne (hself : ∀ a, compare a a = 0)
    (hkey : p ∉ traverseInorder t) (h : RemovesOne compare p t) :
    ∃ s, avltreeRemoveAt compare true t p = some s ∧
      ((∀ d ∈ traverseInorder t, compare p d ≠ 0) ∧ s.disposed = [] ∧ s.freed = 0 ∧
          traverseInorder s.node = traverseInorder t ∨
        ∃ d, s.disposed = [d] ∧ s.freed = 1 ∧
          (traverseInorder t).Perm (d :: traverseInorder s.node)) := by
  rw [RemovesOne] at h
  split at h
  · next hm =>
    obtain ⟨s, hs, hd, hf, hin⟩ := avltreeRemoveAt_of_none true hm
    exact ⟨s, hs, .inl ⟨h, hd, hf, hin⟩⟩
  · exact h.elim
  · next d c ld lc ll lr rd rc rl rr hm =>
    obtain ⟨pc, pl, hpm, hno⟩ := h
    obtain ⟨sm, bl, al, hsm, hd, hf, hleft, hin⟩ :=
      avltreeRemoveAt_copy true c rd rc rl rr hself (toInt8_of_firstMatch hm) hpm hno
    obtain ⟨s, before, after, hs, hd', hf', hin', hout⟩ := avltreeRemoveAt_of_match hm hsm
    refine ⟨s, hs, .inr ⟨d, by rw [hd', hd]; rfl, by rw [hf', hf], ?_⟩⟩
    rw [hin', hout, traverseInorder_node, hin]
    refine (((perm_copied_up hleft d).append_left before).append_right after).trans ?_
    simp
  · next d c l r hboth hm =>
    have hnull : isNull l ∨ isNull r := by
      match l, r with
      | .null, _ => exact .inl rfl
      | .node _ _ _ _, .null => exact .inr rfl
      | .node ld lc ll lr, .node rd rc rl rr =>
        exact (hboth ld lc ll lr rd rc rl rr rfl rfl).elim
    obtain ⟨sm, hsm, hd, hf, hin⟩ := avltreeRemoveAt_free true c
      (toInt8_of_firstMatch hm) hnull h
    obtain ⟨s, before, after, hs, hd', hf', hin', hout⟩ := avltreeRemoveAt_of_match hm hsm
    have hpd : p ≠ d := by
      rintro rfl
      exact hkey (by rw [hin']; simp)
    refine ⟨s, hs, .inr ⟨d, ?_, by rw [hf', hf], ?_⟩⟩
    · rw [hd', hd]
      simp [disposal, hpd]
    · rw [hin', hout, hin]
      simp only [traverseInorder_node, List.append_assoc, List.cons_append]
      rw [← List.append_assoc, ← List.append_assoc]
      refine List.perm_middle.trans ?_
      simp

end Removal

/-! ### Attaching and destroying -/

theorem nodeAttach_perm (x : D) (color : κ) (t : Node κ D) :
    (traverseInorder (nodeAttach compare x (.leaf color x) t)).Perm (x :: traverseInorder t) := by
  induction t with
  | null => exact List.Perm.refl _
  | node d c l r ihl ihr =>
    rw [nodeAttach]
    split_ifs
    · exact ihl.append_right _
    · exact ((ihr.cons d).append_left _).trans
        (((List.Perm.swap x d _).append_left _).trans List.perm_middle)

theorem avltreeAttach_perm {t t' : TreeTag Unit D} {x : D} {status : ExitStatus}
    (h : avltreeAttach compare t x (some ()) = some (status, t')) :
    status = .success ∧ (traverseInorder t'.root).Perm (x :: traverseInorder t.root) ∧
      t'.numNodes = t.numNodes + 1 := by
  obtain ⟨n, root⟩ := t
  cases root with
  | null =>
    cases h
    exact ⟨rfl, List.Perm.refl _, rfl⟩
  | node d c l r =>
    obtain ⟨root, hroot, heq⟩ := Option.map_eq_some_iff.mp h
    cases heq
    refine ⟨rfl, ?_, rfl⟩
    rw [traverseInorder_avlRebalance hroot]
    exact nodeAttach_perm x () _

theorem destroyAllNodes_perm (t : Node κ D) : (destroyAllNodes t).Perm (traverseInorder t) := by
  induction t with
  | null => exact List.Perm.refl _
  | node d c l r ihl ihr =>
    rw [destroyAllNodes, traverseInorder_node, List.append_assoc]
    exact ihl.append ((List.perm_append_singleton d _).trans (ihr.cons d))

/-! ### Nodes and data after an attach and a removal -/

theorem size_of_perm_cons {t t' : Node κ D} {x : D}
    (h : (traverseInorder t').Perm (x :: traverseInorder t)) : t'.size = t.size + 1 := by
  rw [← length_traverseInorder, h.length_eq, List.length_cons, length_traverseInorder]

theorem kept_attach {t t' : Node κ D} {attached gone : List D} {x : D}
    (h : attached.Perm (traverseInorder t ++ gone))
    (hperm : (traverseInorder t').Perm (x :: traverseInorder t)) :
    (attached ++ [x]).Perm (traverseInorder t' ++ gone) := by
  refine (List.perm_append_singleton x _).trans ((h.cons x).trans ?_)
  exact (hperm.append_right gone).symm

theorem kept_remove {t t' : Node κ D} {attached gone : List D} {x : D}
    (h : attached.Perm (traverseInorder t ++ gone))
    (hperm : (traverseInorder t).Perm (x :: traverseInorder t')) :
    attached.Perm (traverseInorder t' ++ (gone ++ [x])) := by
  rw [← List.append_assoc]
  refine h.trans ((hperm.append_right gone).trans ?_)
  exact (List.perm_append_singleton x _).symm

/-! ### Runs -/

/-- An AVL tree with a registered callback, the data attached so far, and the data
passed to the callback so far. -/
structure AvlState (D : Type*) where
  tree : TreeTag Unit D
  attached : List D
  disposed : List D

inductive AvlOp (D : Type*) where
  | attach (data : D) (malloc : Option Unit)
  | remove (key : D)

def AvlState.create : AvlState D := ⟨treeCreate, [], []⟩

section Run

variable [DecidableEq D]

def avlStep (compare : D → D → ℤ) (s : AvlState D) : AvlOp D → Option (AvlState D)
  | .attach data malloc =>
    (avltreeAttach compare s.tree data malloc).map fun (status, tree) =>
      ⟨tree, if status = .success then s.attached ++ [data] else s.attached, s.disposed⟩
  | .remove key =>
    (avltreeRemove compare true s.tree key).map fun (_, tree, disposed) =>
      ⟨tree, s.attached, s.disposed ++ disposed⟩

def AvlState.destroy (s : AvlState D) : AvlState D :=
  let (_, tree, disposed) := bstreeDestroy true s.tree
  ⟨tree, s.attached, s.disposed ++ disposed⟩

/-- Attached pointers are distinct, and keys come through pointers the tree does not hold. -/
def AvlState.Permits (s : AvlState D) : AvlOp D → Prop
  | .attach data _ => data ∉ s.attached
  | .remove key => key ∉ traverseInorder s.tree.root

instance (s : AvlState D) (op : AvlOp D) : Decidable (s.Permits op) :=
  match op with
  | .attach data _ => inferInstanceAs (Decidable (data ∉ s.attached))
  | .remove key => inferInstanceAs (Decidable (key ∉ traverseInorder s.tree.root))

def AvlState.Meets (compare : D → D → ℤ) (s : AvlState D) : AvlOp D → Prop
  | .attach _ _ => True
  | .remove key => RemovesOne compare key s.tree.root

structure AvlState.Owned (s : AvlState D) : Prop where
  once : ∀ d ∈ s.attached,
    (traverseInorder s.tree.root).count d = 1 ∧ d ∉ s.disposed ∨
      d ∉ traverseInorder s.tree.root ∧ s.disposed.count d = 1
  counted : s.tree.numNodes = UInt32.ofNat s.tree.root.size

def AvlState.DisposesOne (compare : D → D → ℤ) (s : AvlState D) : AvlOp D → Prop
  | .attach _ _ => True
  | .remove key => (∃ d ∈ traverseInorder s.tree.root, compare key d = 0) →
      ∃ s' d, avlStep compare s (.remove key) = some s' ∧ s'.disposed = s.disposed ++ [d]

/-- The inductive form: the attached data are those in the tree and those disposed of. -/
structure AvlState.Accounted (s : AvlState D) : Prop where
  nodup : s.attached.Nodup
  perm : s.attached.Perm (traverseInorder s.tree.root ++ s.disposed)
  counted : s.tree.numNodes = UInt32.ofNat s.tree.root.size

theorem AvlState.Accounted.owned {s : AvlState D} (h : s.Accounted) : s.Owned := by
  refine ⟨fun d hd => ?_, h.counted⟩
  have hone : (traverseInorder s.tree.root).count d + s.disposed.count d = 1 := by
    rw [← List.count_append, ← h.perm.count_eq]
    exact List.count_eq_one_of_mem h.nodup hd
  rcases Nat.eq_zero_or_pos (s.disposed.count d) with h0 | hpos
  · exact .inl ⟨by omega, List.count_eq_zero.mp h0⟩
  · exact .inr ⟨List.count_eq_zero.mp (by omega), by omega⟩

omit [DecidableEq D] in
theorem AvlState.accounted_create : (AvlState.create : AvlState D).Accounted :=
  ⟨List.nodup_nil, List.Perm.refl _, rfl⟩

omit [DecidableEq D] in
theorem counted_attach {t t' : TreeTag Unit D} {x : D}
    (ht : t.numNodes = UInt32.ofNat t.root.size)
    (hperm : (traverseInorder t'.root).Perm (x :: traverseInorder t.root))
    (hn : t'.numNodes = t.numNodes + 1) : t'.numNodes = UInt32.ofNat t'.root.size := by
  rw [hn, ht, size_of_perm_cons hperm, UInt32.ofNat_add]
  rfl

theorem AvlState.Accounted.attach {s s' : AvlState D} {data : D} {malloc : Option Unit}
    (h : s.Accounted) (hnew : data ∉ s.attached)
    (hs : avlStep compare s (.attach data malloc) = some s') : s'.Accounted := by
  cases malloc with
  | none =>
    cases hs
    exact h
  | some u =>
    obtain ⟨⟨status, t⟩, ht, rfl⟩ := Option.map_eq_some_iff.mp hs
    obtain ⟨rfl, hperm, hn⟩ := avltreeAttach_perm ht
    refine ⟨?_, ?_, counted_attach h.counted hperm hn⟩
    · simpa [List.nodup_append] using ⟨h.nodup, fun a ha hd => hnew (hd ▸ ha)⟩
    · exact kept_attach h.perm hperm

theorem AvlState.Accounted.remove (hself : ∀ a, compare a a = 0) {s s' : AvlState D} {key : D}
    (h : s.Accounted) (hkey : key ∉ traverseInorder s.tree.root)
    (hone : RemovesOne compare key s.tree.root)
    (hs : avlStep compare s (.remove key) = some s') : s'.Accounted := by
  obtain ⟨rm, hrm, hcase⟩ := avltreeRemoveAt_removesOne hself hkey hone
  have hs' : s' = ⟨⟨s.tree.numNodes - UInt32.ofNat rm.freed, rm.node⟩, s.attached,
      s.disposed ++ rm.disposed⟩ := by
    rw [avlStep, avltreeRemove, hrm] at hs
    exact (Option.some.inj hs).symm
  subst hs'
  rcases hcase with ⟨-, hd, hf, hin⟩ | ⟨d, hd, hf, hperm⟩
  · refine ⟨h.nodup, ?_, ?_⟩
    · simpa [hd, hin] using h.perm
    · have hsize : rm.node.size = s.tree.root.size := by
        rw [← length_traverseInorder, hin, length_traverseInorder]
      simp [hf, hsize, h.counted]
  · refine ⟨h.nodup, ?_, ?_⟩
    · change s.attached.Perm (traverseInorder rm.node ++ (s.disposed ++ rm.disposed))
      rw [hd]
      exact kept_remove h.perm hperm
    · simp [hf, size_of_perm_cons hperm, h.counted, UInt32.ofNat_add]

omit [DecidableEq D] in
theorem AvlState.Accounted.destroy {s : AvlState D} (h : s.Accounted) : s.destroy.Accounted := by
  obtain ⟨⟨n, root⟩, attached, disposed⟩ := s
  cases root with
  | null => simpa [AvlState.destroy, bstreeDestroy] using h
  | node d c l r =>
    refine ⟨h.nodup, ?_, rfl⟩
    refine h.perm.trans (List.perm_append_comm.trans ?_)
    exact (destroyAllNodes_perm _).symm.append_left disposed

/-- In every run whose removals meet `RemovesOne`, removing a present key disposes of
one datum, and every state reached owns each datum once, also after a final destroy. -/
theorem avl_run_owned (hself : ∀ a, compare a a = 0) (ops : List (AvlOp D))
    (hops : Along (avlStep compare) (fun s op => s.Permits op ∧ s.Meets compare op)
      AvlState.create ops) :
    Along (avlStep compare) (AvlState.DisposesOne compare) AvlState.create ops ∧
      ∀ s, runFrom (avlStep compare) AvlState.create ops = some s → s.Owned ∧ s.destroy.Owned := by
  have hstep : ∀ (s : AvlState D) op s', s.Accounted → s.Permits op ∧ s.Meets compare op →
      avlStep compare s op = some s' → s'.Accounted := by
    rintro s op s' h ⟨hpermit, hmeet⟩ hs
    cases op with
    | attach data malloc => exact h.attach hpermit hs
    | remove key => exact h.remove hself hpermit hmeet hs
  constructor
  · refine along_of_invariant hstep ?_ AvlState.accounted_create hops
    rintro s op h ⟨hpermit, hmeet⟩
    cases op with
    | attach data malloc => trivial
    | remove key =>
      rintro ⟨e, he, h0⟩
      obtain ⟨rm, hrm, ⟨habsent, -⟩ | ⟨d, hd, -⟩⟩ :=
        avltreeRemoveAt_removesOne hself hpermit hmeet
      · exact absurd h0 (habsent e he)
      · exact ⟨_, d, by rw [avlStep, avltreeRemove, hrm]; rfl, by rw [← hd]⟩
  · intro s hs
    have h := runFrom_invariant hstep AvlState.accounted_create hops hs
    exact ⟨h.owned, h.destroy.owned⟩

theorem avl_run_owned_example :
    ∃ s, runFrom (avlStep compareKeys) AvlState.create
        [.attach (2, 0) (some ()), .attach (1, 1) (some ()), .attach (3, 2) (some ()),
          .remove (2, 9)] = some s ∧ s.Owned ∧ s.destroy.Owned := by
  have hops : Along (avlStep compareKeys) (fun s op => s.Permits op ∧ s.Meets compareKeys op)
      AvlState.create [.attach (2, 0) (some ()), .attach (1, 1) (some ()),
        .attach (3, 2) (some ()), .remove (2, 9)] := by
    refine ⟨⟨by decide, trivial⟩, ?_⟩
    rintro _ ⟨⟩
    refine ⟨⟨by decide, trivial⟩, ?_⟩
    rintro _ ⟨⟩
    refine ⟨⟨by decide, trivial⟩, ?_⟩
    rintro _ ⟨⟩
    -- the matched root has two children, and its predecessor is the leaf on the left
    exact ⟨⟨by decide, (), .null, rfl, trivial⟩, fun _ _ => trivial⟩
  exact ⟨_, rfl, (avl_run_owned compareKeys_preorder.self _ hops).2 _ rfl⟩

/-- With an equal key below the predecessor's place, the second search meets that one:
its datum stays in two nodes and the predecessor's is disposed of as well. -/
theorem avl_run_not_owned :
    ∃ s, runFrom (avlStep compareKeys) AvlState.create
        [.attach (5, 0) (some ()), .attach (3, 1) (some ()), .attach (7, 2) (some ()),
          .attach (3, 3) (some ()), .remove (5, 9)] = some s ∧ ¬ s.Owned := by
  refine ⟨_, rfl, fun h => ?_⟩
  have hlast := h.once (3, 3) (by decide)
  revert hlast
  decide

end Run

end MorningProjects.Tree
