import MorningProjects.Tree.RbRemove
import MorningProjects.Library.Counter

/-!
# Counting the nodes of a red-black tree

`RBtree_attach` and `RBtree_remove` count every call, whatever the recursion
below them did. In every run that attaches only absent keys and removes only
present ones, along paths that `rebalance` can mend, the counter is the number
of nodes and every attached datum stays until its removal.
-/
namespace MorningProjects.Tree
open Library

variable {D : Type*} {compare : D → D → ℤ}

/-! ### Attaching -/

theorem setColor_exists (color : UInt32) {t : RbNode D} (h : t ≠ .null) :
    ∃ t', setColor color t = some t' ∧ traverseInorder t' = traverseInorder t := by
  cases t with
  | null => exact absurd rfl h
  | node d c l r => exact ⟨_, rfl, rfl⟩

/-- A datum that the descent does not meet is attached, whatever the order of the tree. -/
theorem rbNodeAttach_of_lookup (x : D) (color : UInt32) {t : RbNode D}
    (h : lookup compare x t = none) :
    ∃ t', rbNodeAttach compare x (.leaf color x) t = some t' ∧ t' ≠ .null ∧
      (traverseInorder t').Perm (x :: traverseInorder t) := by
  induction t with
  | null => exact ⟨_, rfl, by simp [Node.leaf], List.Perm.refl _⟩
  | node d c l r ihl ihr =>
    rw [lookup] at h
    rw [rbNodeAttach]
    split_ifs at h with hlt hgt
    · rw [if_pos hlt.ne, if_pos hlt]
      obtain ⟨l', hl', -, hperm⟩ := ihl h
      obtain ⟨t', ht', hne, hin⟩ := rbRebalance_exists (compare x d) d c l' r
      refine ⟨t', by rw [hl']; exact ht', hne, ?_⟩
      rw [hin]
      exact hperm.append_right (d :: traverseInorder r)
    · rw [if_pos hgt.ne', if_neg (by omega)]
      obtain ⟨r', hr', -, hperm⟩ := ihr h
      obtain ⟨t', ht', hne, hin⟩ := rbRebalance_exists (compare x d) d c l r'
      refine ⟨t', by rw [hr']; exact ht', hne, ?_⟩
      rw [hin]
      calc traverseInorder l ++ d :: traverseInorder r'
          |>.Perm (traverseInorder l ++ d :: x :: traverseInorder r) :=
            (hperm.cons d).append_left _
        _ |>.Perm (traverseInorder l ++ x :: d :: traverseInorder r) :=
            (List.Perm.swap x d _).append_left _
        _ |>.Perm (x :: (traverseInorder l ++ d :: traverseInorder r)) := List.perm_middle

theorem rbtreeAttach_of_lookup {t : TreeTag UInt32 D} {x : D}
    (h : lookup compare x t.root = none) (color : UInt32) :
    ∃ root, rbtreeAttach compare t x (some color) = some (.success, ⟨t.numNodes + 1, root⟩) ∧
      (traverseInorder root).Perm (x :: traverseInorder t.root) := by
  obtain ⟨t', ht', hne, hperm⟩ := rbNodeAttach_of_lookup x color h
  obtain ⟨root, hroot, hin⟩ := setColor_exists black hne
  refine ⟨root, ?_, by rwa [hin]⟩
  rw [rbtreeAttach, ht', Option.bind_some, hroot]
  rfl

/-! ### Mending the balance on the way up -/

/-- A sibling with which `rebalance` does its work: not red, and without a red child where
the removal was on the right. -/
def Mendable (compareResult : ℤ) : RbNode D → Prop
  | .null => True
  | .node _ c l r => c ≠ red ∧ (0 < compareResult → isRed l = false ∧ isRed r = false)

/-- Whether `rebalance` settles the balance at a node of color `c` with this sibling. -/
def settles (c : UInt32) : RbNode D → Bool
  | .null => false
  | .node _ _ l r => isRed l || isRed r || c == red

/-- Whether removing the match of `p` frees a black leaf and leaves the balance open. -/
def shortens (compare : D → D → ℤ) : RbNode D → D → Bool
  | .null, _ => false
  | .node d c l r, p =>
    if toInt8 (compare p d) = 0 then
      match l, r with
      | .null, .null => c != red
      | .node ld lc ll lr, .node rd rc rl rr =>
        shortens compare (.node ld lc ll lr) (lastData ld lr) && !settles c (.node rd rc rl rr)
      | _, _ => false
    else if toInt8 (compare p d) ≤ 0 then shortens compare l p && !settles c r
    else shortens compare r p && !settles c l

/-- Wherever the balance is open on the way up, the sibling is one `rebalance` can mend. -/
def Mends (compare : D → D → ℤ) : RbNode D → D → Prop
  | .null, _ => True
  | .node d _ l r, p =>
    if toInt8 (compare p d) = 0 then
      match l, r with
      | .node ld lc ll lr, .node rd rc rl rr =>
        Mends compare (.node ld lc ll lr) (lastData ld lr) ∧
          (shortens compare (.node ld lc ll lr) (lastData ld lr) →
            Mendable 0 (.node rd rc rl rr))
      | _, _ => True
    else if toInt8 (compare p d) ≤ 0 then
      Mends compare l p ∧ (shortens compare l p → Mendable (toInt8 (compare p d)) r)
    else Mends compare r p ∧ (shortens compare r p → Mendable (toInt8 (compare p d)) l)

@[simp] theorem isRed_null : isRed (.null : RbNode D) = false := rfl

@[simp] theorem isRed_node (d : D) (c : UInt32) (l r : RbNode D) :
    isRed (.node d c l r) = (c == red) := rfl

theorem exists_red_of_isRed {t : RbNode D} (h : isRed t = true) :
    ∃ d l r, t = .node d red l r := by
  obtain ⟨d, c, l, r, rfl⟩ := exists_node_of_isRed h
  obtain rfl : c = red := by simpa using h
  exact ⟨d, l, r, rfl⟩

/-- With a mendable sibling `rebalance` dereferences no NULL and keeps the order. -/
theorem rebalance_exists {n : ℤ} (d : D) (c : UInt32) (l r : RbNode D)
    (h : Mendable n (if n ≤ 0 then r else l)) :
    ∃ t, rebalance n (.node d c l r) = some (t, settles c (if n ≤ 0 then r else l)) ∧
      traverseInorder t = traverseInorder (.node d c l r) := by
  by_cases hn : n ≤ 0
  · simp only [hn, if_true] at h ⊢
    cases r with
    | null => exact ⟨.node d c l .null, by simp [rebalance, hn, settles], rfl⟩
    | node sd sc sl sr =>
      have hsc : sc ≠ red := h.1
      by_cases hsr : isRed sr = true
      · obtain ⟨rd, rl, rr, rfl⟩ := exists_red_of_isRed hsr
        refine ⟨.node sd c (.node d black l sl) (.node rd black rl rr), ?_, by simp⟩
        simp [rebalance, hn, hsc, rbRotationRR, setColor, settles]
      · by_cases hsl : isRed sl = true
        · obtain ⟨ld, ll, lr, rfl⟩ := exists_red_of_isRed hsl
          refine ⟨.node ld c (.node d black l ll) (.node sd black lr sr), ?_, by simp⟩
          simp [rebalance, hn, hsc, hsr, rbRotationRL, rbRotationLL, rbRotationRR, setColor,
            settles]
        · refine ⟨.node d black l (.node sd red sl sr), ?_, by simp⟩
          simp [rebalance, hn, hsc, hsl, hsr, settles]
  · simp only [hn, if_false] at h ⊢
    cases l with
    | null => exact ⟨.node d c .null r, by simp [rebalance, hn, settles], rfl⟩
    | node sd sc sl sr =>
      obtain ⟨hsl, hsr⟩ := h.2 (by omega)
      have hsc : sc ≠ red := h.1
      refine ⟨.node d black (.node sd red sl sr) r, ?_, by simp⟩
      simp [rebalance, hn, hsc, hsl, hsr, settles]

theorem treeRebalance_exists {n : ℤ} (d : D) (c : UInt32) (l r : RbNode D) {s : RbRemoval D}
    (h : s.balanced = false → Mendable n (if n ≤ 0 then r else l)) :
    ∃ t, treeRebalance n (.node d c l r) s =
        some ⟨t, s.disposed, s.balanced || settles c (if n ≤ 0 then r else l)⟩ ∧
      traverseInorder t = traverseInorder (.node d c l r) := by
  obtain ⟨node, disposed, balanced⟩ := s
  cases balanced with
  | true => exact ⟨.node d c l r, rfl, rfl⟩
  | false =>
    obtain ⟨t, ht, hin⟩ := rebalance_exists d c l r (h rfl)
    exact ⟨t, by simp [treeRebalance, ht], hin⟩

theorem treeRemoveBelow_left {p d : D} (c : UInt32) (l r : RbNode D) {s : RbRemoval D}
    (hp : toInt8 (compare p d) ≤ 0)
    (h : s.balanced = false → Mendable (toInt8 (compare p d)) r) {fromLeft : Option (RbRemoval D)}
    (fromRight : Option (RbRemoval D)) (hs : fromLeft = some s) :
    ∃ t, treeRemoveBelow compare p d c l r fromLeft fromRight =
        some ⟨t, s.disposed, s.balanced || settles c r⟩ ∧
      traverseInorder t = traverseInorder s.node ++ d :: traverseInorder r := by
  obtain ⟨t, ht, hin⟩ := treeRebalance_exists d c s.node r (n := toInt8 (compare p d))
    (by rwa [if_pos hp])
  rw [if_pos hp] at ht
  exact ⟨t, by rw [treeRemoveBelow, if_pos hp, hs, Option.bind_some, ht], hin⟩

theorem treeRemoveBelow_right {p d : D} (c : UInt32) (l r : RbNode D) {s : RbRemoval D}
    (hp : ¬ toInt8 (compare p d) ≤ 0)
    (h : s.balanced = false → Mendable (toInt8 (compare p d)) l) (fromLeft : Option (RbRemoval D))
    {fromRight : Option (RbRemoval D)} (hs : fromRight = some s) :
    ∃ t, treeRemoveBelow compare p d c l r fromLeft fromRight =
        some ⟨t, s.disposed, s.balanced || settles c l⟩ ∧
      traverseInorder t = traverseInorder l ++ d :: traverseInorder s.node := by
  obtain ⟨t, ht, hin⟩ := treeRebalance_exists d c l s.node (n := toInt8 (compare p d))
    (by rwa [if_neg hp])
  rw [if_neg hp] at ht
  exact ⟨t, by rw [treeRemoveBelow, if_neg hp, hs, Option.bind_some, ht], hin⟩

/-! ### What a removal does to the traversal -/

section Removal

variable [DecidableEq D] {registered : Bool} {p d : D} {c : UInt32} {l r t : RbNode D}

theorem treeRemove_descend (h : toInt8 (compare p d) ≠ 0) (balanced : Bool) :
    treeRemove compare registered (.node d c l r) p balanced =
      treeRemoveBelow compare p d c l r (treeRemove compare registered l p balanced)
        (treeRemove compare registered r p balanced) := by
  rw [treeRemove.eq_def]
  simp only [h, if_false]

theorem treeRemove_of_none (registered : Bool) (h : firstMatch compare p t = none)
    (balanced : Bool) :
    treeRemove compare registered t p balanced = some ⟨t, [], true⟩ := by
  induction t with
  | null => rfl
  | node d c l r ihl ihr =>
    rw [firstMatch] at h
    split_ifs at h with h0 hle
    · rw [treeRemove_descend h0, treeRemoveBelow, if_pos hle, ihl h]
      rfl
    · rw [treeRemove_descend h0, treeRemoveBelow, if_neg hle, ihr h]
      rfl

theorem treeRemoveBelow_of_noFurtherMatch (registered : Bool) (balanced : Bool) (c' : UInt32)
    (h : NoFurtherMatch compare p (.node d c l r)) :
    treeRemoveBelow compare p d c' l r (treeRemove compare registered l p balanced)
        (treeRemove compare registered r p balanced) = some ⟨.node d c' l r, [], true⟩ := by
  rw [NoFurtherMatch] at h
  by_cases hle : toInt8 (compare p d) ≤ 0
  · rw [if_pos hle] at h
    rw [treeRemoveBelow, if_pos hle, treeRemove_of_none registered h]
    rfl
  · rw [if_neg hle] at h
    rw [treeRemoveBelow, if_neg hle, treeRemove_of_none registered h]
    rfl

theorem treeRemove_free (registered : Bool) (c : UInt32) (h0 : toInt8 (compare p d) = 0)
    (hnull : isNull l ∨ isNull r) (h : NoFurtherMatch compare p (if isNull l then r else l)) :
    ∃ s, treeRemove compare registered (.node d c l r) p false = some s ∧
      s.disposed = disposal registered p d ∧
      s.balanced = !shortens compare (.node d c l r) p ∧
      traverseInorder s.node = traverseInorder l ++ traverseInorder r := by
  match l, r with
  | .null, .null =>
    refine ⟨⟨.null, disposal registered p d, c == red⟩, ?_, rfl, ?_, rfl⟩
    · rw [treeRemove.eq_def]
      simp only [h0, if_true, Bool.false_or]
    · simp [shortens, h0, bne]
  | .null, .node td tc tl tr =>
    have hbelow := treeRemoveBelow_of_noFurtherMatch registered (promote c tc false).2
      (promote c tc false).1 h
    refine ⟨⟨.node td (promote c tc false).1 tl tr, disposal registered p d ++ [], true⟩,
      ?_, List.append_nil _, ?_, rfl⟩
    · rw [treeRemove.eq_def]
      simp only [h0, if_true, hbelow, Option.map_some]
    · simp [shortens, h0]
  | .node td tc tl tr, .null =>
    have hbelow := treeRemoveBelow_of_noFurtherMatch registered (promote c tc false).2
      (promote c tc false).1 h
    refine ⟨⟨.node td (promote c tc false).1 tl tr, disposal registered p d ++ [], true⟩,
      ?_, List.append_nil _, ?_, by simp⟩
    · rw [treeRemove.eq_def]
      simp only [h0, if_true, hbelow, Option.map_some]
    · simp [shortens, h0]
  | .node ld lc ll lr, .node rd rc rl rr => simp [isNull] at hnull

/-- What a removal does at its first match it does in place inside the whole tree, if the
balance it leaves open can be mended on the way up. -/
theorem treeRemove_of_match {m : RbNode D} {sm : RbRemoval D}
    (h : firstMatch compare p t = some m)
    (hm : treeRemove compare registered m p false = some sm)
    (hsm : sm.balanced = !shortens compare m p) (hmends : Mends compare t p) :
    ∃ s before after, treeRemove compare registered t p false = some s ∧
      s.disposed = sm.disposed ∧ s.balanced = !shortens compare t p ∧
      traverseInorder t = before ++ traverseInorder m ++ after ∧
      traverseInorder s.node = before ++ traverseInorder sm.node ++ after := by
  induction t with
  | null => cases h
  | node d c l r ihl ihr =>
    rw [firstMatch] at h
    rw [Mends.eq_def] at hmends
    have hshort : toInt8 (compare p d) ≠ 0 → shortens compare (.node d c l r) p =
        if toInt8 (compare p d) ≤ 0 then shortens compare l p && !settles c r
        else shortens compare r p && !settles c l := by
      intro h0
      rw [shortens.eq_def]
      simp only [h0, if_false]
    split_ifs at h with h0 hle
    · obtain rfl := Option.some.inj h
      exact ⟨sm, [], [], hm, rfl, hsm, by simp, by simp⟩
    · simp only [h0, hle, if_true, if_false] at hmends
      obtain ⟨s, before, after, hs, hd, hb, hin, hin'⟩ := ihl h hmends.1
      have hopen : s.balanced = false → Mendable (toInt8 (compare p d)) r := by
        intro hfalse
        exact hmends.2 (by simpa [hfalse] using hb)
      obtain ⟨t, ht, hout⟩ := treeRemoveBelow_left c l r hle hopen
        (treeRemove compare registered r p false) hs
      refine ⟨⟨t, s.disposed, s.balanced || settles c r⟩, before, after ++ d :: traverseInorder r,
        by rw [treeRemove_descend h0, ht], hd, ?_, ?_, ?_⟩
      · simp [hshort h0, hle, hb]
      · simp [hin]
      · simp [hout, hin']
    · simp only [h0, hle, if_false] at hmends
      obtain ⟨s, before, after, hs, hd, hb, hin, hin'⟩ := ihr h hmends.1
      have hopen : s.balanced = false → Mendable (toInt8 (compare p d)) l := by
        intro hfalse
        exact hmends.2 (by simpa [hfalse] using hb)
      obtain ⟨t, ht, hout⟩ := treeRemoveBelow_right c l r hle hopen
        (treeRemove compare registered l p false) hs
      refine ⟨⟨t, s.disposed, s.balanced || settles c l⟩, traverseInorder l ++ d :: before, after,
        by rw [treeRemove_descend h0, ht], hd, ?_, ?_, ?_⟩
      · simp [hshort h0, hle, hb]
      · simp [hin]
      · simp [hout, hin']

/-- A matched node with two children takes its predecessor's datum, and the search for the
predecessor frees the predecessor's node. -/
theorem treeRemove_copy (registered : Bool) (c : UInt32) {ld : D} (rd : D) {lc : UInt32}
    (rc : UInt32) {pc : UInt32} {ll lr : RbNode D} (rl rr : RbNode D) {pl : RbNode D}
    (h0 : toInt8 (compare p d) = 0)
    (hm : firstMatch compare (lastData ld lr) (.node ld lc ll lr) =
      some (.node (lastData ld lr) pc pl .null))
    (h : NoFurtherMatch compare (lastData ld lr) pl)
    (hmends : Mends compare (.node d c (.node ld lc ll lr) (.node rd rc rl rr)) p) :
    ∃ s before after, treeRemove compare registered
        (.node d c (.node ld lc ll lr) (.node rd rc rl rr)) p false = some s ∧
      s.disposed = (if registered then [d] else []) ∧
      s.balanced = !shortens compare (.node d c (.node ld lc ll lr) (.node rd rc rl rr)) p ∧
      traverseInorder (.node ld lc ll lr) = before ++ lastData ld lr :: after ∧
      traverseInorder s.node =
        before ++ after ++ lastData ld lr :: traverseInorder (.node rd rc rl rr) := by
  have hp0 := toInt8_of_firstMatch hm
  rw [Mends.eq_def] at hmends
  simp only [h0, if_true] at hmends
  have hshort : shortens compare (.node d c (.node ld lc ll lr) (.node rd rc rl rr)) p =
      (shortens compare (.node ld lc ll lr) (lastData ld lr) &&
        !settles c (.node rd rc rl rr)) := by
    rw [shortens.eq_def]
    simp only [h0, if_true]
  have hfree : NoFurtherMatch compare (lastData ld lr)
      (if isNull pl then (.null : RbNode D) else pl) := by
    cases pl with
    | null => trivial
    | node _ _ _ _ => exact h
  generalize hp : lastData ld lr = p' at *
  obtain ⟨sm, hsm, hdm, hbm, hin⟩ := treeRemove_free registered pc hp0 (.inr rfl) hfree
  obtain ⟨s, before, after, hs, hd, hb, hin', hout⟩ := treeRemove_of_match hm hsm hbm hmends.1
  have hopen : s.balanced = false →
      Mendable (toInt8 (compare p' p')) (.node rd rc rl rr) := by
    intro hfalse
    rw [hp0]
    exact hmends.2 (by simpa [hfalse] using hb)
  obtain ⟨t, ht, htin⟩ := treeRemoveBelow_left c (.node ld lc ll lr) (.node rd rc rl rr)
    hp0.le hopen (treeRemove compare registered (.node rd rc rl rr) p' false) hs
  have hnone : s.disposed = [] := by
    rw [hd, hdm]
    simp [disposal]
  refine ⟨⟨t, (if registered then [d] else []) ++ s.disposed,
    s.balanced || settles c (.node rd rc rl rr)⟩, before ++ traverseInorder pl, after,
    ?_, ?_, ?_, ?_, ?_⟩
  · rw [treeRemove.eq_def]
    simp only [h0, if_true, hp, ht, Option.map_some]
  · rw [hnone, List.append_nil]
  · rw [hshort, hb, Bool.not_and, Bool.not_not]
  · rw [hin']
    simp
  · change traverseInorder t = _
    rw [htin, hout, hin]
    simp

omit [DecidableEq D] in
theorem mends_of_match {m : RbNode D} (h : firstMatch compare p t = some m)
    (hmends : Mends compare t p) : Mends compare m p := by
  induction t with
  | null => cases h
  | node d c l r ihl ihr =>
    rw [firstMatch] at h
    split_ifs at h with h0 hle
    · rwa [← Option.some.inj h]
    · rw [Mends.eq_def] at hmends
      simp only [h0, hle, if_true, if_false] at hmends
      exact ihl h hmends.1
    · rw [Mends.eq_def] at hmends
      simp only [h0, hle, if_false] at hmends
      exact ihr h hmends.1

/-- A removal that meets its conditions takes the datum of its first match out of the tree. -/
theorem treeRemove_removesOne (registered : Bool)
    (hm : firstMatch compare p t = some (.node d c l r)) (hone : RemovesOne compare p t)
    (hmends : Mends compare t p) :
    ∃ s, treeRemove compare registered t p false = some s ∧
      (traverseInorder t).Perm (d :: traverseInorder s.node) := by
  have h0 := toInt8_of_firstMatch hm
  have hmends' := mends_of_match hm hmends
  -- the match itself, with a NULL child or with two children
  have hmatch : ∃ sm, treeRemove compare registered (.node d c l r) p false = some sm ∧
      sm.balanced = !shortens compare (.node d c l r) p ∧
      (traverseInorder (.node d c l r)).Perm (d :: traverseInorder sm.node) := by
    rw [RemovesOne, hm] at hone
    cases l with
    | null =>
      obtain ⟨sm, hsm, -, hb, hin⟩ := treeRemove_free registered c h0 (.inl rfl) hone
      exact ⟨sm, hsm, hb, by rw [hin]; exact List.perm_middle⟩
    | node ld lc ll lr =>
      cases r with
      | null =>
        obtain ⟨sm, hsm, -, hb, hin⟩ := treeRemove_free registered c h0 (.inr rfl) hone
        exact ⟨sm, hsm, hb, by rw [hin]; exact List.perm_middle⟩
      | node rd rc rl rr =>
        obtain ⟨pc, pl, hpm, hno⟩ := hone
        obtain ⟨sm, bl, al, hsm, -, hb, hleft, hin⟩ :=
          treeRemove_copy registered c rd rc rl rr h0 hpm hno hmends'
        refine ⟨sm, hsm, hb, ?_⟩
        rw [traverseInorder_node, hin]
        exact perm_copied_up hleft d
  obtain ⟨sm, hsm, hb, hperm⟩ := hmatch
  obtain ⟨s, before, after, hs, -, -, hin, hout⟩ := treeRemove_of_match hm hsm hb hmends
  refine ⟨s, hs, ?_⟩
  rw [hin, hout]
  refine ((hperm.append_left before).append_right after).trans ?_
  simp

omit [DecidableEq D] in
theorem mem_of_firstMatch (h : firstMatch compare p t = some (.node d c l r)) :
    d ∈ traverseInorder t := by
  induction t with
  | null => cases h
  | node e ce le re ihl ihr =>
    rw [firstMatch] at h
    split_ifs at h with h0 hle
    · cases h
      simp
    · simp [ihl h]
    · simp [ihr h]

end Removal

/-! ### Runs -/

/-- A tree, the data whose attach returned `EXIT_SUCCESS`, and the data that removals
have matched since. -/
structure RbState (D : Type*) where
  tree : TreeTag UInt32 D
  attached : List D
  removed : List D

inductive RbOp (D : Type*) where
  | attach (data : D) (malloc : Option UInt32)
  | remove (key : D)

def RbState.create : RbState D := ⟨treeCreate, [], []⟩

def matchedData (compare : D → D → ℤ) (key : D) (t : RbNode D) : List D :=
  match firstMatch compare key t with
  | some (.node d _ _ _) => [d]
  | _ => []

section Run

variable [DecidableEq D] (registered : Bool)

def rbStep (compare : D → D → ℤ) (s : RbState D) : RbOp D → Option (RbState D)
  | .attach data malloc =>
    (rbtreeAttach compare s.tree data malloc).map fun (status, tree) =>
      ⟨tree, if status = .success then s.attached ++ [data] else s.attached, s.removed⟩
  | .remove key =>
    (rbtreeRemove compare registered s.tree key).map fun (_, tree, _) =>
      ⟨tree, s.attached, s.removed ++ matchedData compare key s.tree.root⟩

omit [DecidableEq D] in
/-- An attached key is absent, and the counter has room. The search for a removed key
meets an equal datum first and goes on as `RemovesOne` says, and the balance can be mended
above it. An attach without memory and a removal from an empty tree change nothing. -/
def RbState.Meets (compare : D → D → ℤ) (s : RbState D) : RbOp D → Prop
  | .attach data malloc =>
    malloc = none ∨ lookup compare data s.tree.root = none ∧ s.tree.root.size + 1 < 2 ^ 32
  | .remove key =>
    s.tree.root = .null ∨
      (∃ d c l r, firstMatch compare key s.tree.root = some (.node d c l r) ∧
        compare key d = 0) ∧
      RemovesOne compare key s.tree.root ∧ Mends compare s.tree.root key

/-- The counter is the number of nodes, and every attached datum is in the tree or was
matched by a removal. -/
structure RbState.Counted (s : RbState D) : Prop where
  size : s.tree.numNodes.toNat = s.tree.root.size
  kept : s.attached.Perm (traverseInorder s.tree.root ++ s.removed)

def RbState.CallMeets (compare : D → D → ℤ) (s : RbState D) (op : RbOp D) : Prop :=
  ∃ s', rbStep registered compare s op = some s' ∧ ∀ key, op = .remove key →
    (∀ d ∈ traverseInorder s.tree.root, compare key d ≠ 0) → s' = s

omit [DecidableEq D] in
theorem RbState.counted_create : (RbState.create : RbState D).Counted :=
  ⟨rfl, List.Perm.refl _⟩

theorem RbState.Counted.attach {s : RbState D} (h : s.Counted) {data : D}
    {malloc : Option UInt32} (hmeet : s.Meets compare (.attach data malloc)) :
    ∃ s', rbStep registered compare s (.attach data malloc) = some s' ∧ s'.Counted := by
  cases malloc with
  | none => exact ⟨s, rfl, h⟩
  | some color =>
    obtain ⟨⟨⟩⟩ | ⟨habsent, hroom⟩ := hmeet
    obtain ⟨root, hroot, hperm⟩ := rbtreeAttach_of_lookup habsent color
    refine ⟨⟨⟨s.tree.numNodes + 1, root⟩, s.attached ++ [data], s.removed⟩, ?_, ?_, ?_⟩
    · rw [rbStep, hroot]
      rfl
    · have hcount := h.size
      change (s.tree.numNodes + 1).toNat = root.size
      rw [toNat_succ (by rwa [hcount]), size_of_perm_cons hperm, hcount]
    · exact kept_attach h.kept hperm

omit [DecidableEq D] in
theorem traverseInorder_blacken (t : RbNode D) :
    traverseInorder (blacken t) = traverseInorder t := by
  cases t <;> rfl

theorem RbState.Counted.remove {s : RbState D} (h : s.Counted) {key : D}
    (hmeet : s.Meets compare (.remove key)) :
    ∃ s', rbStep registered compare s (.remove key) = some s' ∧ s'.Counted := by
  obtain ⟨⟨n, root⟩, attached, removed⟩ := s
  rcases hmeet with hnull | ⟨⟨d, c, l, r, hm, -⟩, hone, hmends⟩
  · obtain rfl : root = .null := hnull
    exact ⟨_, rfl, h.size, by simpa [matchedData, firstMatch] using h.kept⟩
  · dsimp only at hm hone hmends
    obtain ⟨s', hs', hperm⟩ := treeRemove_removesOne registered hm hone hmends
    have hdata : matchedData compare key root = [d] := by rw [matchedData, hm]
    rw [← traverseInorder_blacken s'.node] at hperm
    have hsize := size_of_perm_cons hperm
    cases root with
    | null => cases hm
    | node rd rc rl rr =>
      refine ⟨⟨⟨n - 1, blacken s'.node⟩, attached, removed ++ [d]⟩, ?_, ?_, ?_⟩
      · simp only [rbStep, rbtreeRemove, hs', hdata, Option.map_some]
      · have hcount : n.toNat = (Node.node rd rc rl rr).size := h.size
        change (n - 1).toNat = (blacken s'.node).size
        have hpred := toNat_pred (n := n) (by omega)
        omega
      · exact kept_remove h.kept hperm

variable (compare) in
/-- In every run whose calls meet their conditions every call comes back, a removal without
a match changes nothing, and every state reached counts the nodes of its tree, which hold
what was attached and not removed. -/
theorem rb_run_counted (ops : List (RbOp D))
    (hops : Along (rbStep registered compare) (RbState.Meets compare) RbState.create ops) :
    Along (rbStep registered compare) (RbState.CallMeets registered compare)
        RbState.create ops ∧
      ∀ s, runFrom (rbStep registered compare) RbState.create ops = some s → s.Counted := by
  have hstep : ∀ (s : RbState D) op, s.Counted → s.Meets compare op →
      ∃ s', rbStep registered compare s op = some s' ∧ s'.Counted := by
    intro s op h hmeet
    cases op with
    | attach data malloc => exact h.attach registered hmeet
    | remove key => exact h.remove registered hmeet
  have hkeep : ∀ (s : RbState D) op s', s.Counted → s.Meets compare op →
      rbStep registered compare s op = some s' → s'.Counted := by
    intro s op s' h hmeet hs
    obtain ⟨t, ht, hcounted⟩ := hstep s op h hmeet
    rw [hs] at ht
    rwa [Option.some.inj ht]
  constructor
  · refine along_of_invariant hkeep ?_ RbState.counted_create hops
    intro s op h hmeet
    obtain ⟨s', hs', -⟩ := hstep s op h hmeet
    refine ⟨s', hs', ?_⟩
    rintro key rfl habsent
    rcases hmeet with hnull | ⟨⟨d, c, l, r, hm, hd⟩, -⟩
    · obtain ⟨⟨n, root⟩, attached, removed⟩ := s
      obtain rfl : root = .null := hnull
      cases hs'
      simp [matchedData, firstMatch]
    · exact absurd hd (habsent d (mem_of_firstMatch hm))
  · intro s hs
    exact runFrom_invariant hkeep RbState.counted_create hops hs

theorem rb_run_counted_example :
    ∃ s, runFrom (rbStep true compareKeys) RbState.create
        [.attach (2, 0) (some 0), .attach (1, 1) (some 0), .attach (3, 2) (some 0),
          .remove (2, 9)] = some s ∧ s.Counted := by
  have hops : Along (rbStep true compareKeys) (RbState.Meets compareKeys)
      RbState.create [.attach (2, 0) (some 0), .attach (1, 1) (some 0),
        .attach (3, 2) (some 0), .remove (2, 9)] := by
    refine ⟨.inr ⟨rfl, by decide⟩, ?_⟩
    rintro _ ⟨⟩
    refine ⟨.inr ⟨rfl, by decide⟩, ?_⟩
    rintro _ ⟨⟩
    refine ⟨.inr ⟨rfl, by decide⟩, ?_⟩
    rintro _ ⟨⟩
    -- the predecessor of the root is a black leaf, and so is the sibling
    have hmends : Mends compareKeys (.node (2, 0) black (.node (1, 1) black .null .null)
        (.node (3, 2) black .null .null)) (2, 9) :=
      ⟨trivial, fun _ => ⟨by decide, fun h => absurd h (lt_irrefl 0)⟩⟩
    exact ⟨.inr ⟨⟨_, _, _, _, rfl, rfl⟩, ⟨_, .null, rfl, trivial⟩, hmends⟩, fun _ _ => trivial⟩
  exact ⟨_, rfl, (rb_run_counted compareKeys true _ hops).2 _ rfl⟩

/-- An equal key is not attached, but counted. -/
theorem rb_run_not_counted :
    ∃ s, runFrom (rbStep true compareKeys) RbState.create
        [.attach (1, 0) (some 0), .attach (1, 1) (some 0)] = some s ∧ ¬ s.Counted := by
  refine ⟨_, rfl, fun h => ?_⟩
  have hsize := h.size
  revert hsize
  decide

end Run

end MorningProjects.Tree
