import MorningProjects.Tree.Order

/-!
# One rotation at the deepest unbalanced node restores balance

The loop of `avl_rebalance` walks the path the new node was attached on. The
pivot it finds is first restated as a recursion on the tree; the induction then
carries how much the attached subtree has grown and which of its sides did.
-/
namespace MorningProjects.Tree
open Library

variable {κ D : Type*} {compare : D → D → ℤ}

def Balanced : Node κ D → Prop
  | .null => True
  | .node _ _ l r => Balanced l ∧ Balanced r ∧
      avlNodeHeight l ≤ avlNodeHeight r + 1 ∧ avlNodeHeight r ≤ avlNodeHeight l + 1

@[simp] theorem balanced_null : Balanced (.null : Node κ D) := trivial

@[simp] theorem balanced_node (d : D) (c : κ) (l r : Node κ D) :
    Balanced (.node d c l r) ↔ Balanced l ∧ Balanced r ∧
      avlNodeHeight l ≤ avlNodeHeight r + 1 ∧ avlNodeHeight r ≤ avlNodeHeight l + 1 :=
  Iff.rfl

/-- The deepest unbalanced node on the path of a datum. -/
def deepestPivot (compare : D → D → ℤ) (x : D) : Node κ D → Option (List Turn)
  | .null => none
  | .node d c l r =>
    (if compare x d < 0 then (deepestPivot compare x l).map (.left :: ·)
      else (deepestPivot compare x r).map (.right :: ·)).or
      (if (balanceFactor (.node d c l r)).natAbs > 1 then some [] else none)

theorem avlPivot_eq (x : D) (t : Node κ D) (path : List Turn) (pivot : Option (List Turn)) :
    avlPivot compare x t path pivot = ((deepestPivot compare x t).map (path ++ ·)).or pivot := by
  induction t generalizing path pivot with
  | null => rfl
  | node d c l r ihl ihr =>
    rw [avlPivot, deepestPivot]
    by_cases hx : compare x d < 0
    · rw [if_pos hx, if_pos hx, ihl]
      cases deepestPivot compare x l <;> split_ifs <;> simp
    · rw [if_neg hx, if_neg hx, ihr]
      cases deepestPivot compare x r <;> split_ifs <;> simp

theorem avlRebalance_eq (x : D) (t : Node κ D) :
    avlRebalance compare x t =
      match deepestPivot compare x t with
      | none => some t
      | some pivot => setLink (avlRotate compare x) pivot t := by
  rw [avlRebalance, avlPivot_eq]
  cases deepestPivot compare x t <;> simp

section Steps

variable {x d : D} {c : κ} {l r : Node κ D}

theorem avlRebalance_of_left {p : List Turn} (hx : compare x d < 0)
    (hp : deepestPivot compare x l = some p) :
    avlRebalance compare x (.node d c l r) =
      (avlRebalance compare x l).map fun l' => .node d c l' r := by
  simp [avlRebalance_eq, deepestPivot, hx, hp, setLink]

theorem avlRebalance_of_right {p : List Turn} (hx : ¬ compare x d < 0)
    (hp : deepestPivot compare x r = some p) :
    avlRebalance compare x (.node d c l r) =
      (avlRebalance compare x r).map fun r' => .node d c l r' := by
  simp [avlRebalance_eq, deepestPivot, hx, hp, setLink]

def onPath (compare : D → D → ℤ) (x d : D) (l r : Node κ D) : Node κ D :=
  if compare x d < 0 then l else r

theorem deepestPivot_here (hp : deepestPivot compare x (onPath compare x d l r) = none) :
    deepestPivot compare x (.node d c l r) =
      if (balanceFactor (.node d c l r)).natAbs > 1 then some [] else none := by
  rw [deepestPivot]
  by_cases hx : compare x d < 0
  · rw [onPath, if_pos hx] at hp
    simp [hx, hp]
  · rw [onPath, if_neg hx] at hp
    simp [hx, hp]

theorem avlRebalance_here (hp : deepestPivot compare x (onPath compare x d l r) = none)
    (hb : (balanceFactor (.node d c l r)).natAbs > 1) :
    avlRebalance compare x (.node d c l r) = avlRotate compare x (.node d c l r) := by
  rw [avlRebalance_eq, deepestPivot_here hp, if_pos hb]
  rfl

end Steps

def LeansTo (compare : D → D → ℤ) (x : D) : Node κ D → Prop
  | .null => False
  | .node d _ l r =>
    if compare x d < 0 then avlNodeHeight l = avlNodeHeight r + 1
    else avlNodeHeight r = avlNodeHeight l + 1

/-- Attaching left no pivot: the subtree kept its height or grew by one level, and
a grown subtree that was not empty leans to the datum's side. -/
structure Attached (compare : D → D → ℤ) (x : D) (t t1 : Node κ D) : Prop where
  pivot : deepestPivot compare x t1 = none
  balanced : Balanced t1
  height : avlNodeHeight t1 = avlNodeHeight t ∨
    avlNodeHeight t1 = avlNodeHeight t + 1 ∧ (t = .null ∨ LeansTo compare x t1)

/-- Attaching left a pivot and the rotation there brought the height back. -/
structure Rotated (compare : D → D → ℤ) (x : D) (t t1 t2 : Node κ D) : Prop where
  pivot : deepestPivot compare x t1 ≠ none
  rebalance : avlRebalance compare x t1 = some t2
  balanced : Balanced t2
  height : avlNodeHeight t2 = avlNodeHeight t

theorem avlRotate_left {x d : D} {c : κ} {l1 r : Node κ D} (hx : compare x d < 0)
    (hb : Balanced l1) (hr : Balanced r) (hlean : LeansTo compare x l1)
    (hh : avlNodeHeight l1 = avlNodeHeight r + 2) :
    ∃ t2, avlRotate compare x (.node d c l1 r) = some t2 ∧ Balanced t2 ∧
      avlNodeHeight t2 = avlNodeHeight r + 2 := by
  cases l1 with
  | null => exact hlean.elim
  | node ld lc ll lr =>
    obtain ⟨hll, hlr, -, -⟩ := (balanced_node ld lc ll lr).mp hb
    simp only [LeansTo] at hlean
    simp only [avlNodeHeight_node] at hh
    by_cases hxl : compare x ld < 0
    · rw [if_pos hxl] at hlean
      refine ⟨.node ld lc ll (.node d c lr r), by simp [avlRotate, hx, hxl, avlRotationLL], ?_, ?_⟩
      · simp only [balanced_node, avlNodeHeight_node]
        exact ⟨hll, ⟨hlr, hr, by omega, by omega⟩, by omega, by omega⟩
      · simp only [avlNodeHeight_node]
        omega
    · rw [if_neg hxl] at hlean
      cases lr with
      | null => simp at hlean
      | node md mc ml mr =>
        obtain ⟨hml, hmr, hmlr, hmrl⟩ := (balanced_node md mc ml mr).mp hlr
        simp only [avlNodeHeight_node] at hlean hh
        refine ⟨.node md mc (.node ld lc ll ml) (.node d c mr r),
          by simp [avlRotate, hx, hxl, avlRotationLR, avlRotationRR, avlRotationLL], ?_, ?_⟩
        · simp only [balanced_node, avlNodeHeight_node]
          exact ⟨⟨hll, hml, by omega, by omega⟩, ⟨hmr, hr, by omega, by omega⟩, by omega, by omega⟩
        · simp only [avlNodeHeight_node]
          omega

theorem avlRotate_right {x d : D} {c : κ} {l r1 : Node κ D} (hx : ¬ compare x d < 0)
    (hb : Balanced r1) (hl : Balanced l) (hlean : LeansTo compare x r1)
    (hh : avlNodeHeight r1 = avlNodeHeight l + 2) :
    ∃ t2, avlRotate compare x (.node d c l r1) = some t2 ∧ Balanced t2 ∧
      avlNodeHeight t2 = avlNodeHeight l + 2 := by
  cases r1 with
  | null => exact hlean.elim
  | node rd rc rl rr =>
    obtain ⟨hrl, hrr, -, -⟩ := (balanced_node rd rc rl rr).mp hb
    simp only [LeansTo] at hlean
    simp only [avlNodeHeight_node] at hh
    by_cases hxr : compare x rd < 0
    · rw [if_pos hxr] at hlean
      cases rl with
      | null => simp at hlean
      | node md mc ml mr =>
        obtain ⟨hml, hmr, hmlr, hmrl⟩ := (balanced_node md mc ml mr).mp hrl
        simp only [avlNodeHeight_node] at hlean hh
        refine ⟨.node md mc (.node d c l ml) (.node rd rc mr rr),
          by simp [avlRotate, hx, hxr, avlRotationRL, avlRotationRR, avlRotationLL], ?_, ?_⟩
        · simp only [balanced_node, avlNodeHeight_node]
          exact ⟨⟨hl, hml, by omega, by omega⟩, ⟨hmr, hrr, by omega, by omega⟩, by omega, by omega⟩
        · simp only [avlNodeHeight_node]
          omega
    · rw [if_neg hxr] at hlean
      refine ⟨.node rd rc (.node d c l rl) rr, by simp [avlRotate, hx, hxr, avlRotationRR], ?_, ?_⟩
      · simp only [balanced_node, avlNodeHeight_node]
        exact ⟨⟨hl, hrl, by omega, by omega⟩, hrr, by omega, by omega⟩
      · simp only [avlNodeHeight_node]
        omega

section Level

variable {x d : D} {c : κ} {l l1 l2 r r1 r2 : Node κ D}

/-- A level above a left subtree without a pivot: the height of that subtree decides. -/
theorem Attached.left (hx : compare x d < 0) (hb : Balanced (.node d c l r))
    (h : Attached compare x l l1) :
    Attached compare x (.node d c l r) (.node d c l1 r) ∨
      ∃ t2, Rotated compare x (.node d c l r) (.node d c l1 r) t2 := by
  obtain ⟨hl, hr, hlr, hrl⟩ := hb
  have hpath : deepestPivot compare x (onPath compare x d l1 r) = none := by
    simpa [onPath, hx] using h.pivot
  have hpivot := deepestPivot_here (c := c) hpath
  by_cases hbal : avlNodeHeight l1 ≤ avlNodeHeight r + 1
  · have hrl1 : avlNodeHeight r ≤ avlNodeHeight l1 + 1 := by
      rcases h.height with h | ⟨h, -⟩ <;> omega
    refine .inl ⟨?_, ⟨h.balanced, hr, hbal, hrl1⟩, ?_⟩
    · rw [hpivot, if_neg (by simp only [balanceFactor_node]; omega)]
    · simp only [avlNodeHeight_node, LeansTo, if_pos hx]
      rcases h.height with h | ⟨h, -⟩
      · exact .inl (by omega)
      · by_cases heq : avlNodeHeight l = avlNodeHeight r
        · exact .inr ⟨by omega, .inr (by omega)⟩
        · exact .inl (by omega)
  · -- two levels taller: this node is the pivot
    rcases h.height with hsame | ⟨hgrown, hlean⟩
    · omega
    · have hlean : LeansTo compare x l1 := by
        rcases hlean with rfl | hlean
        · simp at hgrown hbal
          omega
        · exact hlean
      have hbf : (balanceFactor (.node d c l1 r)).natAbs > 1 := by
        simp only [balanceFactor_node]
        omega
      obtain ⟨t2, hrot, hb2, hh2⟩ := avlRotate_left (c := c) hx h.balanced hr hlean (by omega)
      refine .inr ⟨t2, ⟨?_, ?_, hb2, ?_⟩⟩
      · rw [hpivot, if_pos hbf]
        exact Option.some_ne_none _
      · rw [avlRebalance_here hpath hbf, hrot]
      · simp only [avlNodeHeight_node]
        omega

/-- A level above a left subtree that was rotated back to its old height. -/
theorem Rotated.left (hx : compare x d < 0) (hb : Balanced (.node d c l r))
    (h : Rotated compare x l l1 l2) :
    Rotated compare x (.node d c l r) (.node d c l1 r) (.node d c l2 r) := by
  obtain ⟨-, hr, hlr, hrl⟩ := hb
  obtain ⟨p, hp⟩ := Option.ne_none_iff_exists'.mp h.pivot
  constructor
  · simp [deepestPivot, hx, hp]
  · rw [avlRebalance_of_left hx hp, h.rebalance]
    rfl
  · exact ⟨h.balanced, hr, by rw [h.height]; exact hlr, by rw [h.height]; exact hrl⟩
  · simp only [avlNodeHeight_node, h.height]

theorem Attached.right (hx : ¬ compare x d < 0) (hb : Balanced (.node d c l r))
    (h : Attached compare x r r1) :
    Attached compare x (.node d c l r) (.node d c l r1) ∨
      ∃ t2, Rotated compare x (.node d c l r) (.node d c l r1) t2 := by
  obtain ⟨hl, hr, hlr, hrl⟩ := hb
  have hpath : deepestPivot compare x (onPath compare x d l r1) = none := by
    simpa [onPath, hx] using h.pivot
  have hpivot := deepestPivot_here (c := c) hpath
  by_cases hbal : avlNodeHeight r1 ≤ avlNodeHeight l + 1
  · have hlr1 : avlNodeHeight l ≤ avlNodeHeight r1 + 1 := by
      rcases h.height with h | ⟨h, -⟩ <;> omega
    refine .inl ⟨?_, ⟨hl, h.balanced, hlr1, hbal⟩, ?_⟩
    · rw [hpivot, if_neg (by simp only [balanceFactor_node]; omega)]
    · simp only [avlNodeHeight_node, LeansTo, if_neg hx]
      rcases h.height with h | ⟨h, -⟩
      · exact .inl (by omega)
      · by_cases heq : avlNodeHeight l = avlNodeHeight r
        · exact .inr ⟨by omega, .inr (by omega)⟩
        · exact .inl (by omega)
  · rcases h.height with hsame | ⟨hgrown, hlean⟩
    · omega
    · have hlean : LeansTo compare x r1 := by
        rcases hlean with rfl | hlean
        · simp at hgrown hbal
          omega
        · exact hlean
      have hbf : (balanceFactor (.node d c l r1)).natAbs > 1 := by
        simp only [balanceFactor_node]
        omega
      obtain ⟨t2, hrot, hb2, hh2⟩ := avlRotate_right (c := c) hx h.balanced hl hlean (by omega)
      refine .inr ⟨t2, ⟨?_, ?_, hb2, ?_⟩⟩
      · rw [hpivot, if_pos hbf]
        exact Option.some_ne_none _
      · rw [avlRebalance_here hpath hbf, hrot]
      · simp only [avlNodeHeight_node]
        omega

theorem Rotated.right (hx : ¬ compare x d < 0) (hb : Balanced (.node d c l r))
    (h : Rotated compare x r r1 r2) :
    Rotated compare x (.node d c l r) (.node d c l r1) (.node d c l r2) := by
  obtain ⟨hl, -, hlr, hrl⟩ := hb
  obtain ⟨p, hp⟩ := Option.ne_none_iff_exists'.mp h.pivot
  constructor
  · simp [deepestPivot, hx, hp]
  · rw [avlRebalance_of_right hx hp, h.rebalance]
    rfl
  · exact ⟨hl, h.balanced, by rw [h.height]; exact hlr, by rw [h.height]; exact hrl⟩
  · simp only [avlNodeHeight_node, h.height]

end Level

/-- What attaching and rebalancing do to a balanced tree. -/
theorem avlAttach_outcome (compare : D → D → ℤ) (x : D) (color : κ) {t : Node κ D}
    (ht : Balanced t) :
    Attached compare x t (avlNodeAttach compare x (.leaf color x) t) ∨
      ∃ t2, Rotated compare x t (avlNodeAttach compare x (.leaf color x) t) t2 := by
  unfold avlNodeAttach
  induction t with
  | null =>
    refine .inl ⟨?_, ?_, .inr ⟨?_, .inl rfl⟩⟩
    · simp [nodeAttach, Node.leaf, deepestPivot]
    · simp [nodeAttach, Node.leaf]
    · simp [nodeAttach, Node.leaf]
  | node d c l r ihl ihr =>
    rw [nodeAttach]
    by_cases hx : compare x d < 0
    · rw [if_pos hx]
      rcases ihl ht.1 with hatt | ⟨l2, hrot⟩
      · exact hatt.left hx ht
      · exact .inr ⟨_, hrot.left hx ht⟩
    · rw [if_neg hx]
      rcases ihr ht.2.1 with hatt | ⟨r2, hrot⟩
      · exact hatt.right hx ht
      · exact .inr ⟨_, hrot.right hx ht⟩

/-- Attaching to a balanced tree meets no NULL child and leaves a balanced tree. -/
theorem avlRebalance_attach_exists (compare : D → D → ℤ) (x : D) (color : κ) {t : Node κ D}
    (ht : Balanced t) :
    ∃ t2, avlRebalance compare x (avlNodeAttach compare x (.leaf color x) t) = some t2 ∧
      Balanced t2 := by
  rcases avlAttach_outcome compare x color ht with hatt | ⟨t2, hrot⟩
  · exact ⟨_, by rw [avlRebalance_eq, hatt.pivot], hatt.balanced⟩
  · exact ⟨t2, hrot.rebalance, hrot.balanced⟩

end MorningProjects.Tree
