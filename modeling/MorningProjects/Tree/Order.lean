import MorningProjects.Library.Comparator
import MorningProjects.Tree.Node

/-!
# Rotations keep the traversal, attaching inserts into it

Every operation is described by what it does to the list `traverse_inorder`
displays. Rotations and color changes leave that list alone, whatever the
shape, so the two descents alone decide where a datum ends up.
-/
namespace MorningProjects.Tree
open Library

variable {κ D : Type*} {compare : D → D → ℤ}

/-! ### Descents -/

theorem traverseInorder_nodeAttach (hc : TotalPreorder compare) (x : D) (color : κ)
    {t : Node κ D} (ht : Ordered compare (traverseInorder t)) :
    traverseInorder (nodeAttach compare x (.leaf color x) t) =
      insertAfter compare x (traverseInorder t) := by
  induction t with
  | null => rfl
  | node d c l r ihl ihr =>
    obtain ⟨hl, hr, hld, -, -⟩ := ordered_split.mp ht
    rw [nodeAttach]
    split_ifs with h
    · simp only [traverseInorder_node, ihl hl]
      rw [insertAfter_append_left h]
    · have hleft : ∀ a ∈ traverseInorder l, ¬ compare x a < 0 :=
        fun a ha hxa => h (hc.lt_of_lt_of_le hxa (hld a ha))
      simp only [traverseInorder_node, ihr hr]
      rw [insertAfter_append_right h hleft]

theorem lookup_isSome (hc : TotalPreorder compare) (key : D) {t : Node κ D}
    (ht : Ordered compare (traverseInorder t)) :
    (lookup compare key t).isSome ↔ ∃ e ∈ traverseInorder t, compare key e = 0 := by
  induction t with
  | null => simp [lookup]
  | node d c l r ihl ihr =>
    obtain ⟨hl, hr, hld, hdr, -⟩ := ordered_split.mp ht
    have hleft (h : compare key d > 0) : ∀ e ∈ traverseInorder l, compare key e ≠ 0 := by
      intro e he h0
      have hed := hc.lt_of_le_of_lt (hld e he) (hc.gt_iff.mp h)
      have := hc.eq_comm h0
      omega
    have hright (h : compare key d < 0) : ∀ e ∈ traverseInorder r, compare key e ≠ 0 := by
      intro e he h0
      have := hc.lt_of_lt_of_le h (hdr e he)
      omega
    have hmem : (∃ e ∈ traverseInorder (.node d c l r), compare key e = 0) ↔
        (∃ e ∈ traverseInorder l, compare key e = 0) ∨ compare key d = 0 ∨
          ∃ e ∈ traverseInorder r, compare key e = 0 := by
      simp only [traverseInorder_node, List.mem_append, List.mem_cons, or_and_right, exists_or,
        exists_eq_left]
    rw [lookup, hmem]
    split_ifs with h1 h2
    · rw [ihl hl]
      have hn : ¬ ∃ e ∈ traverseInorder r, compare key e = 0 :=
        fun ⟨e, he, h0⟩ => hright h1 e he h0
      simp [h1.ne, hn]
    · rw [ihr hr]
      have hn : ¬ ∃ e ∈ traverseInorder l, compare key e = 0 :=
        fun ⟨e, he, h0⟩ => hleft h2 e he h0
      simp [h2.ne', hn]
    · simp [show compare key d = 0 by omega]

/-! ### AVL rotations -/

theorem traverseInorder_avlRotationLL {t t' : Node κ D} (h : avlRotationLL t = some t') :
    traverseInorder t' = traverseInorder t := by
  match t with
  | .node d c (.node ld lc ll lr) r =>
    obtain rfl := Option.some.inj h
    simp
  | .node d c .null r => cases h
  | .null => cases h

theorem traverseInorder_avlRotationRR {t t' : Node κ D} (h : avlRotationRR t = some t') :
    traverseInorder t' = traverseInorder t := by
  match t with
  | .node d c l (.node rd rc rl rr) =>
    obtain rfl := Option.some.inj h
    simp
  | .node d c l .null => cases h
  | .null => cases h

theorem traverseInorder_avlRotationLR {t t' : Node κ D} (h : avlRotationLR t = some t') :
    traverseInorder t' = traverseInorder t := by
  cases t with
  | null => cases h
  | node d c l r =>
    obtain ⟨l', hl, h⟩ := Option.bind_eq_some_iff.mp h
    rw [traverseInorder_avlRotationLL h, traverseInorder_node, traverseInorder_node,
      traverseInorder_avlRotationRR hl]

theorem traverseInorder_avlRotationRL {t t' : Node κ D} (h : avlRotationRL t = some t') :
    traverseInorder t' = traverseInorder t := by
  cases t with
  | null => cases h
  | node d c l r =>
    obtain ⟨r', hr, h⟩ := Option.bind_eq_some_iff.mp h
    rw [traverseInorder_avlRotationRR h, traverseInorder_node, traverseInorder_node,
      traverseInorder_avlRotationLL hr]

theorem traverseInorder_avlRotate {x : D} {t t' : Node κ D}
    (h : avlRotate compare x t = some t') : traverseInorder t' = traverseInorder t := by
  cases t with
  | null => cases h
  | node d c l r =>
    by_cases hx : compare x d < 0
    · cases l with
      | null => simp [avlRotate, hx] at h
      | node ld lc ll lr =>
        simp only [avlRotate, hx, if_true] at h
        split_ifs at h
        · exact traverseInorder_avlRotationLL h
        · exact traverseInorder_avlRotationLR h
    · cases r with
      | null => simp [avlRotate, hx] at h
      | node rd rc rl rr =>
        simp only [avlRotate, hx, if_false] at h
        split_ifs at h
        · exact traverseInorder_avlRotationRL h
        · exact traverseInorder_avlRotationRR h

theorem traverseInorder_setLink {f : Node κ D → Option (Node κ D)}
    (hf : ∀ t t', f t = some t' → traverseInorder t' = traverseInorder t)
    (path : List Turn) {t t' : Node κ D} (h : setLink f path t = some t') :
    traverseInorder t' = traverseInorder t := by
  induction path generalizing t t' with
  | nil => exact hf t t' h
  | cons turn path ih =>
    cases t with
    | null => cases turn <;> cases h
    | node d c l r =>
      cases turn with
      | left =>
        obtain ⟨l', hl, rfl⟩ := Option.map_eq_some_iff.mp h
        rw [traverseInorder_node, ih hl, traverseInorder_node]
      | right =>
        obtain ⟨r', hr, rfl⟩ := Option.map_eq_some_iff.mp h
        rw [traverseInorder_node, ih hr, traverseInorder_node]

theorem traverseInorder_avlRebalance {x : D} {t t' : Node κ D}
    (h : avlRebalance compare x t = some t') : traverseInorder t' = traverseInorder t := by
  rw [avlRebalance] at h
  split at h
  · exact congrArg traverseInorder (Option.some.inj h).symm
  · exact traverseInorder_setLink (fun t t' => traverseInorder_avlRotate) _ h

/-! ### Red-black rotations -/

theorem traverseInorder_rbRotationLL {t t' : RbNode D} (h : rbRotationLL t = some t') :
    traverseInorder t' = traverseInorder t := by
  match t with
  | .node d c (.node ld lc ll lr) r =>
    obtain rfl := Option.some.inj h
    simp
  | .node d c .null r => cases h
  | .null => cases h

theorem traverseInorder_rbRotationRR {t t' : RbNode D} (h : rbRotationRR t = some t') :
    traverseInorder t' = traverseInorder t := by
  match t with
  | .node d c l (.node rd rc rl rr) =>
    obtain rfl := Option.some.inj h
    simp
  | .node d c l .null => cases h
  | .null => cases h

theorem traverseInorder_rbRotationLR {t t' : RbNode D} (h : rbRotationLR t = some t') :
    traverseInorder t' = traverseInorder t := by
  cases t with
  | null => cases h
  | node d c l r =>
    obtain ⟨l', hl, h⟩ := Option.bind_eq_some_iff.mp h
    rw [traverseInorder_rbRotationLL h, traverseInorder_node, traverseInorder_node,
      traverseInorder_rbRotationRR hl]

theorem traverseInorder_rbRotationRL {t t' : RbNode D} (h : rbRotationRL t = some t') :
    traverseInorder t' = traverseInorder t := by
  cases t with
  | null => cases h
  | node d c l r =>
    obtain ⟨r', hr, h⟩ := Option.bind_eq_some_iff.mp h
    rw [traverseInorder_rbRotationRR h, traverseInorder_node, traverseInorder_node,
      traverseInorder_rbRotationLL hr]

/-! ### Rebalancing after a red-black descent -/

theorem exists_node_of_isRed {t : RbNode D} (h : isRed t) :
    ∃ d c l r, t = .node d c l r := by
  cases t with
  | null => cases h
  | node d c l r => exact ⟨d, c, l, r, rfl⟩

/-- Whatever the colors, rebalancing a node meets no NULL child it dereferences. -/
theorem rbRebalance_exists (navDir : ℤ) (d : D) (c : UInt32) (l r : RbNode D) :
    ∃ t', rbRebalance navDir (.node d c l r) = some t' ∧ t' ≠ .null ∧
      traverseInorder t' = traverseInorder (.node d c l r) := by
  by_cases hn : navDir < 0
  · by_cases hl : isRed l
    · obtain ⟨ld, lc, ll, lr, rfl⟩ := exists_node_of_isRed hl
      by_cases hr : isRed r
      · obtain ⟨rd, rc, rl, rr, rfl⟩ := exists_node_of_isRed hr
        exact ⟨_, by simp [rbRebalance, hn, hl, hr, setColor]; rfl, by simp, by simp⟩
      · by_cases hll : isRed ll
        · exact ⟨_, by simp [rbRebalance, hn, hl, hr, hll, leftChild, rbRotationLL]; rfl,
            by simp, by simp⟩
        · by_cases hlr : isRed lr
          · obtain ⟨md, mc, ml, mr, rfl⟩ := exists_node_of_isRed hlr
            exact ⟨_, by simp [rbRebalance, hn, hl, hr, hll, hlr, leftChild, rightChild,
              rbRotationLR, rbRotationRR, rbRotationLL]; rfl, by simp, by simp⟩
          · exact ⟨_, by simp [rbRebalance, hn, hl, hr, hll, hlr, leftChild, rightChild]; rfl,
              by simp, by simp⟩
    · exact ⟨_, by simp [rbRebalance, hn, hl]; rfl, by simp, by simp⟩
  · by_cases hr : isRed r
    · obtain ⟨rd, rc, rl, rr, rfl⟩ := exists_node_of_isRed hr
      by_cases hl : isRed l
      · obtain ⟨ld, lc, ll, lr, rfl⟩ := exists_node_of_isRed hl
        exact ⟨_, by simp [rbRebalance, hn, hl, hr, setColor]; rfl, by simp, by simp⟩
      · by_cases hrr : isRed rr
        · exact ⟨_, by simp [rbRebalance, hn, hl, hr, hrr, rightChild, rbRotationRR]; rfl,
            by simp, by simp⟩
        · by_cases hrl : isRed rl
          · obtain ⟨md, mc, ml, mr, rfl⟩ := exists_node_of_isRed hrl
            exact ⟨_, by simp [rbRebalance, hn, hl, hr, hrr, hrl, leftChild, rightChild,
              rbRotationRL, rbRotationLL, rbRotationRR]; rfl, by simp, by simp⟩
          · exact ⟨_, by simp [rbRebalance, hn, hl, hr, hrr, hrl, leftChild, rightChild]; rfl,
              by simp, by simp⟩
    · exact ⟨_, by simp [rbRebalance, hn, hr]; rfl, by simp, by simp⟩

/-- The red-black descent inserts into the traversal unless an equal datum is met,
whatever colors the tree and the fresh node have. -/
theorem rbNodeAttach_exists (hc : TotalPreorder compare) (x : D) (color : UInt32)
    {t : RbNode D} (ht : StrictlyOrdered compare (traverseInorder t)) :
    ∃ t', rbNodeAttach compare x (.leaf color x) t = some t' ∧ t' ≠ .null ∧
      traverseInorder t' = insertAbsent compare x (traverseInorder t) := by
  induction t with
  | null => exact ⟨_, rfl, by simp [Node.leaf], by simp [Node.leaf, insertAbsent, insertAfter]⟩
  | node d c l r ihl ihr =>
    obtain ⟨hl, hr, hld, hdr, -⟩ := strictlyOrdered_split.mp ht
    rw [rbNodeAttach]
    split_ifs with h0 hlt
    · obtain ⟨l', hl', -, hin⟩ := ihl hl
      obtain ⟨t', ht', hne, hin'⟩ := rbRebalance_exists (compare x d) d c l' r
      refine ⟨t', by rw [hl']; exact ht', hne, ?_⟩
      rw [hin', traverseInorder_node, traverseInorder_node, hin,
        insertAbsent_append_left hc hlt hdr]
    · obtain ⟨r', hr', -, hin⟩ := ihr hr
      obtain ⟨t', ht', hne, hin'⟩ := rbRebalance_exists (compare x d) d c l r'
      refine ⟨t', by rw [hr']; exact ht', hne, ?_⟩
      have hdx : compare d x < 0 := hc.gt_iff.mp (by omega)
      rw [hin', traverseInorder_node, traverseInorder_node, hin,
        insertAbsent_append_right hc hdx hld]
    · exact ⟨_, rfl, by simp, by rw [insertAbsent, if_pos ⟨d, by simp, by omega⟩]⟩

end MorningProjects.Tree
