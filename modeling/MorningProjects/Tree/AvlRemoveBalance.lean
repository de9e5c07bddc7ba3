import MorningProjects.Tree.Distinct

/-!
# Which removals keep an AVL tree balanced

`avl_rebalance_ex` does nothing when the taller child of a node is evenly
balanced. Such a node stays off balance, but it has the height it had before
the removal, so nothing above it changes. Whether a removal meets one can be
read off the tree before it, whatever the comparator answers.
-/
namespace MorningProjects.Tree
open Library

variable {κ D : Type*} {compare : D → D → ℤ}

/-- A side that gets lower beside a taller one whose root leans to a side. -/
def Steady (lower other : Node κ D) : Prop :=
  avlNodeHeight lower < avlNodeHeight other → balanceFactor other ≠ 0

def lowers (compare : D → D → ℤ) : Node κ D → D → Bool
  | .null, _ => false
  | .node d _ l r, p =>
    if toInt8 (compare p d) = 0 then
      match l, r with
      | .node ld lc ll lr, .node rd rc rl rr =>
        lowers compare (.node ld lc ll lr) (lastData ld lr) &&
          avlNodeHeight (.node ld lc ll lr) != avlNodeHeight (.node rd rc rl rr)
      | _, _ => true
    else if toInt8 (compare p d) ≤ 0 then
      lowers compare l p && avlNodeHeight l != avlNodeHeight r
    else lowers compare r p && avlNodeHeight l != avlNodeHeight r

/-- On the way of a removal, wherever one side gets lower, `avl_rebalance_ex` has a case for
the other one. -/
def Fits (compare : D → D → ℤ) : Node κ D → D → Prop
  | .null, _ => True
  | .node d _ l r, p =>
    if toInt8 (compare p d) = 0 then
      match l, r with
      | .node ld lc ll lr, .node rd rc rl rr =>
        Fits compare (.node ld lc ll lr) (lastData ld lr) ∧
          (lowers compare (.node ld lc ll lr) (lastData ld lr) →
            Steady (.node ld lc ll lr) (.node rd rc rl rr))
      | _, _ => True
    else if toInt8 (compare p d) ≤ 0 then Fits compare l p ∧ (lowers compare l p → Steady l r)
    else Fits compare r p ∧ (lowers compare r p → Steady r l)

/-- What `avltree_remove` hands back of a balanced subtree: it is balanced, and lower where
the tree before says so, or it is not and keeps its height. -/
structure Trimmed (t : Node κ D) (fits : Prop) (low : Bool) (t' : Node κ D) : Prop where
  balanced : fits → Balanced t'
  lower : fits → avlNodeHeight t = avlNodeHeight t' + if low then 1 else 0
  unbalanced : ¬ fits → ¬ Balanced t'
  height : ¬ fits → avlNodeHeight t' = avlNodeHeight t

section Rebalance

variable {d : D} {c : κ} {l r : Node κ D}

theorem avlRebalanceEx_level (h1 : avlNodeHeight l ≤ avlNodeHeight r + 1)
    (h2 : avlNodeHeight r ≤ avlNodeHeight l + 1) :
    avlRebalanceEx (.node d c l r) = some (.node d c l r) := by
  rw [avlRebalanceEx, if_neg, if_neg]
  · simp only [balanceFactor_node]
    omega
  · simp only [balanceFactor_node]
    omega

theorem avlRebalanceEx_even (hh : avlNodeHeight r = avlNodeHeight l + 2 ∧ balanceFactor r = 0 ∨
      avlNodeHeight l = avlNodeHeight r + 2 ∧ balanceFactor l = 0) :
    avlRebalanceEx (.node d c l r) = some (.node d c l r) := by
  rcases hh with ⟨hh, hr⟩ | ⟨hh, hl⟩
  · have hnull := isNull_eq_false (t := r) (by omega)
    rw [avlRebalanceEx, if_neg, if_pos]
    · simp [hnull, hr]
    · simp only [balanceFactor_node]
      omega
    · simp only [balanceFactor_node]
      omega
  · have hnull := isNull_eq_false (t := l) (by omega)
    rw [avlRebalanceEx, if_pos]
    · simp [hnull, hl]
    · simp only [balanceFactor_node]
      omega

/-- A right side two levels taller whose root leans to a side. -/
theorem avlRebalanceEx_right (hl : Balanced l) (hr : Balanced r)
    (hh : avlNodeHeight r = avlNodeHeight l + 2) (hlean : balanceFactor r ≠ 0) :
    ∃ t, avlRebalanceEx (.node d c l r) = some t ∧ Balanced t ∧
      avlNodeHeight t = avlNodeHeight r := by
  have hbf : balanceFactor (.node d c l r) < -1 := by
    simp only [balanceFactor_node]
    omega
  cases r with
  | null => simp at hh
  | node rd rc rl rr =>
    obtain ⟨hrl, hrr, hlr, hrl'⟩ := hr
    simp only [avlNodeHeight_node] at hh
    rw [avlRebalanceEx, if_neg (by omega), if_pos hbf, if_neg (by simp [isNull])]
    by_cases hneg : balanceFactor (.node rd rc rl rr) < 0
    · refine ⟨.node rd rc (.node d c l rl) rr, by rw [if_pos hneg]; rfl, ?_, ?_⟩
      · simp only [balanceFactor_node] at hneg
        simp only [balanced_node, avlNodeHeight_node]
        exact ⟨⟨hl, hrl, by omega, by omega⟩, hrr, by omega, by omega⟩
      · simp only [balanceFactor_node] at hneg
        simp only [avlNodeHeight_node]
        omega
    · have hpos : balanceFactor (.node rd rc rl rr) > 0 := by omega
      cases rl with
      | null =>
        simp at hpos
        omega
      | node md mc ml mr =>
        obtain ⟨hml, hmr, hmlr, hmrl⟩ := hrl
        refine ⟨.node md mc (.node d c l ml) (.node rd rc mr rr),
          by rw [if_neg hneg, if_pos hpos]; rfl, ?_, ?_⟩
        · simp only [balanceFactor_node, avlNodeHeight_node] at hpos hh hlr hrl'
          simp only [balanced_node, avlNodeHeight_node]
          exact ⟨⟨hl, hml, by omega, by omega⟩, ⟨hmr, hrr, by omega, by omega⟩, by omega, by omega⟩
        · simp only [balanceFactor_node, avlNodeHeight_node] at hpos hh hlr hrl'
          simp only [avlNodeHeight_node]
          omega

theorem avlRebalanceEx_left (hl : Balanced l) (hr : Balanced r)
    (hh : avlNodeHeight l = avlNodeHeight r + 2) (hlean : balanceFactor l ≠ 0) :
    ∃ t, avlRebalanceEx (.node d c l r) = some t ∧ Balanced t ∧
      avlNodeHeight t = avlNodeHeight l := by
  have hbf : balanceFactor (.node d c l r) > 1 := by
    simp only [balanceFactor_node]
    omega
  cases l with
  | null => simp at hh
  | node ld lc ll lr =>
    obtain ⟨hll, hlr, hlr', hrl'⟩ := hl
    simp only [avlNodeHeight_node] at hh
    rw [avlRebalanceEx, if_pos hbf, if_neg (by simp [isNull])]
    by_cases hpos : balanceFactor (.node ld lc ll lr) > 0
    · refine ⟨.node ld lc ll (.node d c lr r), by rw [if_pos hpos]; rfl, ?_, ?_⟩
      · simp only [balanceFactor_node] at hpos
        simp only [balanced_node, avlNodeHeight_node]
        exact ⟨hll, ⟨hlr, hr, by omega, by omega⟩, by omega, by omega⟩
      · simp only [balanceFactor_node] at hpos
        simp only [avlNodeHeight_node]
        omega
    · have hneg : balanceFactor (.node ld lc ll lr) < 0 := by omega
      cases lr with
      | null =>
        simp at hneg
        omega
      | node md mc ml mr =>
        obtain ⟨hml, hmr, hmlr, hmrl⟩ := hlr
        refine ⟨.node md mc (.node ld lc ll ml) (.node d c mr r),
          by rw [if_neg hpos, if_pos hneg]; rfl, ?_, ?_⟩
        · simp only [balanceFactor_node, avlNodeHeight_node] at hneg hh hlr' hrl'
          simp only [balanced_node, avlNodeHeight_node]
          exact ⟨⟨hll, hml, by omega, by omega⟩, ⟨hmr, hr, by omega, by omega⟩, by omega, by omega⟩
        · simp only [balanceFactor_node, avlNodeHeight_node] at hneg hh hlr' hrl'
          simp only [avlNodeHeight_node]
          omega

/-! ### One level of the recursion -/

variable {l' r' : Node κ D} {fits : Prop} {low : Bool}

/-- Rebalancing above a removal on the left; the datum of the node may have been replaced. -/
theorem Trimmed.left (hb : Balanced (.node d c l r)) (h : Trimmed l fits low l') (d' : D) :
    ∃ t, avlRebalanceEx (.node d' c l' r) = some t ∧
      Trimmed (.node d c l r) (fits ∧ (low → Steady l r))
        (low && avlNodeHeight l != avlNodeHeight r) t := by
  obtain ⟨hl, hr, hlr, hrl⟩ := hb
  by_cases hfits : fits
  · have hl' := h.balanced hfits
    have hlow := h.lower hfits
    cases low with
    | false =>
      rw [if_neg (by simp)] at hlow
      refine ⟨.node d' c l' r, avlRebalanceEx_level (by omega) (by omega), ?_, ?_, ?_, ?_⟩
      · exact fun _ => ⟨hl', hr, by omega, by omega⟩
      · intro _
        simp only [avlNodeHeight_node, hlow, Bool.false_and]
        simp
      · exact fun hn => absurd ⟨hfits, fun h => nomatch h⟩ hn
      · exact fun hn => absurd ⟨hfits, fun h => nomatch h⟩ hn
    | true =>
      rw [if_pos rfl] at hlow
      by_cases htall : avlNodeHeight l < avlNodeHeight r
      · by_cases hlean : balanceFactor r = 0
        · -- no case of `avl_rebalance_ex` applies
          refine ⟨.node d' c l' r, avlRebalanceEx_even (.inl ⟨by omega, hlean⟩), ?_, ?_, ?_, ?_⟩
          · exact fun hs => absurd hlean (hs.2 rfl htall)
          · exact fun hs => absurd hlean (hs.2 rfl htall)
          · rintro - ⟨-, -, -, hr'⟩
            omega
          · intro _
            simp only [avlNodeHeight_node]
            omega
        · obtain ⟨t, ht, hbt, hht⟩ :=
            avlRebalanceEx_right (d := d') (c := c) hl' hr (by omega) hlean
          refine ⟨t, ht, fun _ => hbt, ?_, ?_, ?_⟩
          · intro _
            have hne : avlNodeHeight l ≠ avlNodeHeight r := by omega
            simp only [avlNodeHeight_node, hht, Bool.true_and, bne_iff_ne, ne_eq, hne,
              not_false_eq_true, if_true]
            omega
          · exact fun hn => absurd ⟨hfits, fun _ _ => hlean⟩ hn
          · exact fun hn => absurd ⟨hfits, fun _ _ => hlean⟩ hn
      · refine ⟨.node d' c l' r, avlRebalanceEx_level (by omega) (by omega), ?_, ?_, ?_, ?_⟩
        · exact fun _ => ⟨hl', hr, by omega, by omega⟩
        · intro _
          simp only [avlNodeHeight_node, Bool.true_and, bne_iff_ne]
          split_ifs <;> omega
        · exact fun hn => absurd ⟨hfits, fun _ h => absurd h htall⟩ hn
        · exact fun hn => absurd ⟨hfits, fun _ h => absurd h htall⟩ hn
  · have hh := h.height hfits
    refine ⟨.node d' c l' r, avlRebalanceEx_level (by omega) (by omega), ?_, ?_, ?_, ?_⟩
    · exact fun hs => absurd hs.1 hfits
    · exact fun hs => absurd hs.1 hfits
    · exact fun _ hb' => h.unbalanced hfits hb'.1
    · intro _
      rw [avlNodeHeight_node, hh, avlNodeHeight_node]

theorem Trimmed.right (hb : Balanced (.node d c l r)) (h : Trimmed r fits low r') :
    ∃ t, avlRebalanceEx (.node d c l r') = some t ∧
      Trimmed (.node d c l r) (fits ∧ (low → Steady r l))
        (low && avlNodeHeight l != avlNodeHeight r) t := by
  obtain ⟨hl, hr, hlr, hrl⟩ := hb
  by_cases hfits : fits
  · have hr' := h.balanced hfits
    have hlow := h.lower hfits
    cases low with
    | false =>
      rw [if_neg (by simp)] at hlow
      refine ⟨.node d c l r', avlRebalanceEx_level (by omega) (by omega), ?_, ?_, ?_, ?_⟩
      · exact fun _ => ⟨hl, hr', by omega, by omega⟩
      · intro _
        simp only [avlNodeHeight_node, hlow, Bool.false_and]
        simp
      · exact fun hn => absurd ⟨hfits, fun h => nomatch h⟩ hn
      · exact fun hn => absurd ⟨hfits, fun h => nomatch h⟩ hn
    | true =>
      rw [if_pos rfl] at hlow
      by_cases htall : avlNodeHeight r < avlNodeHeight l
      · by_cases hlean : balanceFactor l = 0
        · refine ⟨.node d c l r', avlRebalanceEx_even (.inr ⟨by omega, hlean⟩), ?_, ?_, ?_, ?_⟩
          · exact fun hs => absurd hlean (hs.2 rfl htall)
          · exact fun hs => absurd hlean (hs.2 rfl htall)
          · rintro - ⟨-, -, hl', -⟩
            omega
          · intro _
            simp only [avlNodeHeight_node]
            omega
        · obtain ⟨t, ht, hbt, hht⟩ := avlRebalanceEx_left (d := d) (c := c) hl hr' (by omega) hlean
          refine ⟨t, ht, fun _ => hbt, ?_, ?_, ?_⟩
          · intro _
            have hne : avlNodeHeight l ≠ avlNodeHeight r := by omega
            simp only [avlNodeHeight_node, hht, Bool.true_and, bne_iff_ne, ne_eq, hne,
              not_false_eq_true, if_true]
            omega
          · exact fun hn => absurd ⟨hfits, fun _ _ => hlean⟩ hn
          · exact fun hn => absurd ⟨hfits, fun _ _ => hlean⟩ hn
      · refine ⟨.node d c l r', avlRebalanceEx_level (by omega) (by omega), ?_, ?_, ?_, ?_⟩
        · exact fun _ => ⟨hl, hr', by omega, by omega⟩
        · intro _
          simp only [avlNodeHeight_node, Bool.true_and, bne_iff_ne]
          split_ifs <;> omega
        · exact fun hn => absurd ⟨hfits, fun _ h => absurd h htall⟩ hn
        · exact fun hn => absurd ⟨hfits, fun _ h => absurd h htall⟩ hn
  · have hh := h.height hfits
    refine ⟨.node d c l r', avlRebalanceEx_level (by omega) (by omega), ?_, ?_, ?_, ?_⟩
    · exact fun hs => absurd hs.1 hfits
    · exact fun hs => absurd hs.1 hfits
    · exact fun _ hb' => h.unbalanced hfits hb'.2.1
    · intro _
      rw [avlNodeHeight_node, hh, avlNodeHeight_node]

end Rebalance

/-! ### The whole recursion -/

section Removal

variable [DecidableEq D]

omit [DecidableEq D] in
theorem leaf_of_only_child {d td : D} {c tc : κ} {tl tr t : Node κ D}
    (ht : t = .node d c .null (.node td tc tl tr) ∨ t = .node d c (.node td tc tl tr) .null)
    (hb : Balanced t) : tl = .null ∧ tr = .null := by
  have hlow : avlNodeHeight (.node td tc tl tr) ≤ 1 := by
    rcases ht with rfl | rfl
    · exact hb.2.2.2
    · exact hb.2.2.1
  rw [avlNodeHeight_node] at hlow
  have hnull : ∀ t : Node κ D, avlNodeHeight t = 0 → t = .null := by
    intro t ht
    cases t with
    | null => rfl
    | node _ _ _ _ => simp at ht
  exact ⟨hnull tl (by omega), hnull tr (by omega)⟩

theorem avlRemoveBelow_leaf (registered : Bool) (p td : D) (tc : κ) :
    avlRemoveBelow compare p td tc .null .null (avltreeRemoveAt compare registered .null p)
        (avltreeRemoveAt compare registered .null p) =
      some ⟨.node td tc .null .null, [], 0⟩ := by
  have hlevel : avlRebalanceEx (.node td tc .null .null) = some (.node td tc .null .null) :=
    avlRebalanceEx_level (by simp) (by simp)
  rw [avlRemoveBelow]
  split_ifs
  · simp [avltreeRemoveAt, hlevel]
  · simp [avltreeRemoveAt, hlevel]

/-- What `avltree_remove` does to a balanced subtree, ordered or not. -/
theorem avltreeRemoveAt_trimmed (hself : ∀ a, compare a a = 0) (registered : Bool) {t : Node κ D}
    (hb : Balanced t) (p : D) :
    ∃ s, avltreeRemoveAt compare registered t p = some s ∧
      Trimmed t (Fits compare t p) (lowers compare t p) s.node := by
  induction t generalizing p with
  | null =>
    exact ⟨_, rfl, fun _ => trivial, fun _ => rfl, fun h => absurd trivial h, fun _ => rfl⟩
  | node d c l r ihl ihr =>
    by_cases h0 : toInt8 (compare p d) = 0
    · rw [avltreeRemoveAt.eq_def, Fits.eq_def, lowers.eq_def]
      simp only [h0, if_true]
      match l, r with
      | .null, .null =>
        refine ⟨_, rfl, fun _ => trivial, fun _ => rfl, fun h => absurd trivial h,
          fun h => absurd trivial h⟩
      | .null, .node td tc tl tr =>
        obtain ⟨rfl, rfl⟩ := leaf_of_only_child (.inl rfl) hb
        simp only [avlRemoveBelow_leaf, Option.map_some]
        exact ⟨_, rfl, fun _ => hb.2.1, fun _ => rfl, fun h => absurd trivial h,
          fun h => absurd trivial h⟩
      | .node td tc tl tr, .null =>
        obtain ⟨rfl, rfl⟩ := leaf_of_only_child (.inr rfl) hb
        simp only [avlRemoveBelow_leaf, Option.map_some]
        exact ⟨_, rfl, fun _ => hb.1, fun _ => rfl, fun h => absurd trivial h,
          fun h => absurd trivial h⟩
      | .node ld lc ll lr, .node rd rc rl rr =>
        have hle : toInt8 (compare (lastData ld lr) (lastData ld lr)) ≤ 0 := by
          rw [hself]
          exact le_refl 0
        obtain ⟨s, hs, htrim⟩ := ihl hb.1 (lastData ld lr)
        obtain ⟨t, ht, htrim'⟩ := htrim.left hb (lastData ld lr)
        simp only [avlRemoveBelow, hle, if_true, hs, Option.bind_some, ht, Option.map_some]
        exact ⟨_, rfl, htrim'⟩
    · rw [avltreeRemoveAt_descend h0, Fits.eq_def, lowers.eq_def]
      simp only [h0, if_false]
      by_cases hle : toInt8 (compare p d) ≤ 0
      · obtain ⟨s, hs, htrim⟩ := ihl hb.1 p
        obtain ⟨t, ht, htrim'⟩ := htrim.left hb d
        simp only [avlRemoveBelow, hle, if_true, hs, Option.bind_some, ht, Option.map_some]
        exact ⟨_, rfl, htrim'⟩
      · obtain ⟨s, hs, htrim⟩ := ihr hb.2.1 p
        obtain ⟨t, ht, htrim'⟩ := htrim.right hb
        simp only [avlRemoveBelow, hle, if_false, hs, Option.bind_some, ht, Option.map_some]
        exact ⟨_, rfl, htrim'⟩

/-- `AVLtree_remove` leaves a balanced tree balanced exactly when every side that gets lower
stands beside one that `avl_rebalance_ex` has a case for. -/
theorem avltreeRemove_balanced_iff (hself : ∀ a, compare a a = 0) (registered : Bool)
    {t : TreeTag Unit D} (hb : Balanced t.root) (key : D) :
    ∃ t' disposed, avltreeRemove compare registered t key = some (.success, t', disposed) ∧
      (Balanced t'.root ↔ Fits compare t.root key) := by
  obtain ⟨s, hs, htrim⟩ := avltreeRemoveAt_trimmed hself registered hb key
  refine ⟨_, _, by rw [avltreeRemove, hs]; rfl, ?_, htrim.balanced⟩
  intro hbal
  by_contra hfits
  exact htrim.unbalanced hfits hbal

theorem avltreeRemove_balanced_iff_example :
    ∃ t' disposed, avltreeRemove compareKeySigns true
        ⟨3, .node (2, 0) () (.node (1, 1) () .null .null) (.node (4, 2) () .null .null)⟩ (1, 9) =
        some (.success, t', disposed) ∧ Balanced t'.root := by
  obtain ⟨t', disposed, ht', hiff⟩ := avltreeRemove_balanced_iff compareKeySigns_preorder.self true
    (t := ⟨3, .node (2, 0) () (.node (1, 1) () .null .null) (.node (4, 2) () .null .null)⟩)
    (by simp) (1, 9)
  exact ⟨t', disposed, ht', hiff.mpr ⟨trivial, fun _ h => absurd h (lt_irrefl 1)⟩⟩

/-- The taller child of the root is evenly balanced: no rotation is made. -/
theorem avltreeRemove_not_balanced :
    ∃ t t' : TreeTag Unit (ℤ × ℕ), ∃ disposed,
      avltreeAttachAll compareKeySigns [(2, 0), (1, 1), (4, 2), (3, 3), (5, 4)] = some t ∧
      Balanced t.root ∧ Ordered compareKeySigns (traverseInorder t.root) ∧
      avltreeRemove compareKeySigns true t (1, 9) = some (.success, t', disposed) ∧
      ¬ Balanced t'.root := by
  refine ⟨⟨5, .node (2, 0) () (.node (1, 1) () .null .null)
    (.node (4, 2) () (.node (3, 3) () .null .null) (.node (5, 4) () .null .null))⟩,
    ⟨4, .node (2, 0) () .null
      (.node (4, 2) () (.node (3, 3) () .null .null) (.node (5, 4) () .null .null))⟩,
    [(1, 1)], by decide, by simp, ?_, by decide, by simp⟩
  simp [Ordered, compareKeySigns]

end Removal

end MorningProjects.Tree
