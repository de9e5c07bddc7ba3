import MorningProjects.Tree.RbBalance

/-!
# What the sanity check of red-black trees finds

`rb_sanity_check` tests the right child of a red node twice and its left child
never. Its heights are cut to 32 bits, and a height of zero, which stands for a
violation further down, keeps the nodes above it from being compared.
-/
namespace MorningProjects.Tree

variable {D : Type*}

/-- A line that `rb_sanity_check` prints, with the datum it displays. -/
inductive SanityWarning (D : Type*) where
  | redViolation (data : D)
  | blackViolation (data : D)
  deriving DecidableEq, Repr

/-- `rb_sanity_check`: the height returned and the warnings in the order of printing. -/
def rbSanityCheck : RbNode D → UInt32 × List (SanityWarning D)
  | .null => (1, [])
  | .node d c l r =>
    let redWarning := if isRed (.node d c l r) ∧ (isRed r ∨ isRed r) then [.redViolation d] else []
    let (heightL, warningsL) := rbSanityCheck l
    let (heightR, warningsR) := rbSanityCheck r
    if heightL ≠ 0 ∧ heightR ≠ 0 then
      if heightL ≠ heightR then
        (0, redWarning ++ warningsL ++ warningsR ++ [.blackViolation d])
      else
        (if isRed (.node d c l r) then heightL else heightL + 1,
          redWarning ++ warningsL ++ warningsR)
    else (0, redWarning ++ warningsL ++ warningsR)

/-- `RBtree_sanity_check` keeps the height to itself. -/
def rbtreeSanityCheck (t : TreeTag UInt32 D) : ExitStatus × List (SanityWarning D) :=
  (.success, (rbSanityCheck t.root).2)

/-! ### What has to hold -/

structure SanityChecked (t : RbNode D) : Prop where
  warned : (rbSanityCheck t).2 ≠ [] ↔
    ¬ NoRedRed t ∨ ∃ m ∈ pathBlacks t, ∃ n ∈ pathBlacks t, m ≠ n
  height : (rbSanityCheck t).2 = [] → ∀ m ∈ pathBlacks t, (rbSanityCheck t).1.toNat = m + 1

def Somewhere (p : UInt32 → RbNode D → RbNode D → Prop) : RbNode D → Prop
  | .null => False
  | .node _ c l r => p c l r ∨ Somewhere p l ∨ Somewhere p r

def RedLeft (c : UInt32) (l _ : RbNode D) : Prop := c = red ∧ isRed l

def RedRight (c : UInt32) (_ r : RbNode D) : Prop := c = red ∧ isRed r

/-- The number of black nodes on a path from which its height no longer fits 32 bits. -/
def heightLimit : ℕ := 2 ^ 32 - 1

/-- Each side has the same number of black nodes on all of its paths, another number than the
other side, and neither is too high for 32 bits. -/
def Uneven (_ : UInt32) (l r : RbNode D) : Prop :=
  BlackBalanced l ∧ BlackBalanced r ∧ blackHeight l ≠ blackHeight r ∧
    blackHeight l < heightLimit ∧ blackHeight r < heightLimit

/-! ### One pass over the tree -/

theorem not_somewhere_node {p : UInt32 → RbNode D → RbNode D → Prop} {d : D} {c : UInt32}
    {l r : RbNode D} :
    ¬ Somewhere p (.node d c l r) ↔ ¬ p c l r ∧ ¬ Somewhere p l ∧ ¬ Somewhere p r := by
  rw [Somewhere, not_or, not_or]

theorem noRedRed_iff (t : RbNode D) :
    NoRedRed t ↔ ¬ Somewhere RedLeft t ∧ ¬ Somewhere RedRight t := by
  induction t with
  | null => simp [Somewhere]
  | node d c l r ihl ihr =>
    rw [noRedRed_node, ihl, ihr, not_somewhere_node, not_somewhere_node, RedLeft, RedRight]
    simp only [not_and, Bool.not_eq_true]
    constructor
    · rintro ⟨⟨hll, hlr⟩, ⟨hrl, hrr⟩, hc⟩
      exact ⟨⟨fun h => (hc h).1, hll, hrl⟩, fun h => (hc h).2, hlr, hrr⟩
    · rintro ⟨⟨hcl, hll, hrl⟩, hcr, hlr, hrr⟩
      exact ⟨⟨hll, hlr⟩, ⟨hrl, hrr⟩, fun h => ⟨hcl h, hcr h⟩⟩

/-- The height that stands for a subtree: there is one number of black nodes on its paths, and
it fits, or the height is zero. -/
def HeightOf (t : RbNode D) (height : UInt32) : Prop :=
  (BlackBalanced t ∧ blackHeight t < heightLimit) ∧ height.toNat = blackHeight t + 1 ∨
    ¬ (BlackBalanced t ∧ blackHeight t < heightLimit) ∧ height = 0

theorem HeightOf.ne_zero_iff {t : RbNode D} {height : UInt32} (h : HeightOf t height) :
    height ≠ 0 ↔ BlackBalanced t ∧ blackHeight t < heightLimit := by
  rcases h with ⟨ht, hheight⟩ | ⟨ht, hheight⟩
  · refine iff_of_true ?_ ht
    rintro rfl
    cases hheight
  · exact iff_of_false (not_not_intro hheight) ht

theorem HeightOf.toNat {t : RbNode D} {height : UInt32} (h : HeightOf t height)
    (hne : height ≠ 0) : height.toNat = blackHeight t + 1 := by
  rcases h with ⟨-, hheight⟩ | ⟨-, hheight⟩
  · exact hheight
  · exact (hne hheight).elim

theorem HeightOf.ne_iff {l r : RbNode D} {heightL heightR : UInt32} (hl : HeightOf l heightL)
    (hr : HeightOf r heightR) (hl0 : heightL ≠ 0) (hr0 : heightR ≠ 0) :
    heightL ≠ heightR ↔ blackHeight l ≠ blackHeight r := by
  have hlnat := hl.toNat hl0
  have hrnat := hr.toNat hr0
  rw [Ne, ← UInt32.toNat_inj]
  omega

theorem heightOf_zero {d : D} {c : UInt32} {l r : RbNode D}
    (h : ¬ (BlackBalanced l ∧ blackHeight l < heightLimit) ∨
      ¬ (BlackBalanced r ∧ blackHeight r < heightLimit)) :
    HeightOf (.node d c l r) 0 := by
  refine .inr ⟨?_, rfl⟩
  rintro ⟨⟨hbl, hbr, hlr⟩, hlt⟩
  rw [blackHeight_node] at hlt
  rcases h with h | h
  · exact h ⟨hbl, by omega⟩
  · exact h ⟨hbr, by omega⟩

theorem rbSanityCheck_height (t : RbNode D) : HeightOf t (rbSanityCheck t).1 := by
  induction t with
  | null => exact .inl ⟨⟨trivial, Nat.succ_pos _⟩, rfl⟩
  | node d c l r ihl ihr =>
    rw [rbSanityCheck]
    dsimp only
    by_cases hl0 : (rbSanityCheck l).1 = 0
    · rw [if_neg (by simp [hl0])]
      exact heightOf_zero (.inl fun h => ihl.ne_zero_iff.mpr h hl0)
    by_cases hr0 : (rbSanityCheck r).1 = 0
    · rw [if_neg (by simp [hr0])]
      exact heightOf_zero (.inr fun h => ihr.ne_zero_iff.mpr h hr0)
    rw [if_pos ⟨hl0, hr0⟩]
    obtain ⟨hbl, hlt⟩ := ihl.ne_zero_iff.mp hl0
    obtain ⟨hbr, -⟩ := ihr.ne_zero_iff.mp hr0
    have hlnat := ihl.toNat hl0
    by_cases hne : (rbSanityCheck l).1 ≠ (rbSanityCheck r).1
    · rw [if_pos hne]
      refine .inr ⟨?_, rfl⟩
      rintro ⟨⟨-, -, hlr⟩, -⟩
      exact (ihl.ne_iff ihr hl0 hr0).mp hne hlr
    · rw [if_neg hne]
      have hlr : blackHeight l = blackHeight r := by
        by_contra hlr
        exact hne ((ihl.ne_iff ihr hl0 hr0).mpr hlr)
      by_cases hc : c = red
      · refine .inl ⟨⟨⟨hbl, hbr, hlr⟩, ?_⟩, ?_⟩
        · rw [blackHeight_node, if_pos hc]
          exact hlt
        · simpa [isRed, hc] using hlnat
      · have hheight : (if isRed (.node d c l r) then (rbSanityCheck l).1
            else (rbSanityCheck l).1 + 1) = (rbSanityCheck l).1 + 1 := by simp [isRed, hc]
        have hnat : ((rbSanityCheck l).1 + 1).toNat = (blackHeight l + 2) % 2 ^ 32 := by
          rw [UInt32.toNat_add, hlnat]
          rfl
        rw [heightLimit] at hlt
        dsimp only
        rw [hheight]
        -- the last black node that does not fit wraps the height around to zero
        by_cases hfit : blackHeight l + 1 < heightLimit
        · refine .inl ⟨⟨⟨hbl, hbr, hlr⟩, ?_⟩, ?_⟩
          · rw [blackHeight_node, if_neg hc]
            exact hfit
          · rw [hnat, blackHeight_node, if_neg hc]
            rw [heightLimit] at hfit
            omega
        · refine .inr ⟨?_, ?_⟩
          · rintro ⟨-, hlt'⟩
            rw [blackHeight_node, if_neg hc] at hlt'
            exact hfit hlt'
          · apply UInt32.toNat_inj.mp
            rw [hnat]
            rw [heightLimit] at hfit
            simp only [UInt32.toNat_zero]
            omega

/-- The warnings at a node stand around those of its sides. -/
theorem rbSanityCheck_warnings (d : D) (c : UInt32) (l r : RbNode D) :
    (rbSanityCheck (.node d c l r)).2 =
      (if isRed (.node d c l r) ∧ (isRed r ∨ isRed r) then [.redViolation d] else []) ++
        (rbSanityCheck l).2 ++ (rbSanityCheck r).2 ++
        if ((rbSanityCheck l).1 ≠ 0 ∧ (rbSanityCheck r).1 ≠ 0) ∧
            (rbSanityCheck l).1 ≠ (rbSanityCheck r).1 then [.blackViolation d] else [] := by
  rw [rbSanityCheck]
  dsimp only
  by_cases h0 : (rbSanityCheck l).1 ≠ 0 ∧ (rbSanityCheck r).1 ≠ 0
  · by_cases hne : (rbSanityCheck l).1 ≠ (rbSanityCheck r).1
    · simp [h0, hne]
    · simp [h0, hne]
  · simp [h0]

theorem rbSanityCheck_silent (t : RbNode D) :
    (rbSanityCheck t).2 = [] ↔ ¬ Somewhere RedRight t ∧ ¬ Somewhere Uneven t := by
  induction t with
  | null => simp [rbSanityCheck, Somewhere]
  | node d c l r ihl ihr =>
    have hred : isRed (.node d c l r) ∧ (isRed r ∨ isRed r) ↔ RedRight c l r := by
      simp [RedRight, isRed]
    have huneven : ((rbSanityCheck l).1 ≠ 0 ∧ (rbSanityCheck r).1 ≠ 0) ∧
        (rbSanityCheck l).1 ≠ (rbSanityCheck r).1 ↔ Uneven c l r := by
      have hl := rbSanityCheck_height l
      have hr := rbSanityCheck_height r
      constructor
      · rintro ⟨⟨hl0, hr0⟩, hne⟩
        obtain ⟨hbl, hlt⟩ := hl.ne_zero_iff.mp hl0
        obtain ⟨hbr, hlt'⟩ := hr.ne_zero_iff.mp hr0
        exact ⟨hbl, hbr, (hl.ne_iff hr hl0 hr0).mp hne, hlt, hlt'⟩
      · rintro ⟨hbl, hbr, hne, hlt, hlt'⟩
        have hl0 := hl.ne_zero_iff.mpr ⟨hbl, hlt⟩
        have hr0 := hr.ne_zero_iff.mpr ⟨hbr, hlt'⟩
        exact ⟨⟨hl0, hr0⟩, (hl.ne_iff hr hl0 hr0).mpr hne⟩
    have hnil : ∀ (p : Prop) [Decidable p] (w : SanityWarning D),
        (if p then [w] else []) = [] ↔ ¬ p := by
      intro p _ w
      simp
    rw [rbSanityCheck_warnings, List.append_eq_nil_iff, List.append_eq_nil_iff,
      List.append_eq_nil_iff, hnil, hnil, hred, huneven, ihl, ihr, not_somewhere_node,
      not_somewhere_node]
    constructor
    · rintro ⟨⟨⟨hc, hlr, hlu⟩, hrr, hru⟩, hu⟩
      exact ⟨⟨hc, hlr, hrr⟩, hu, hlu, hru⟩
    · rintro ⟨⟨hc, hlr, hrr⟩, hu, hlu, hru⟩
      exact ⟨⟨⟨hc, hlr, hlu⟩, hrr, hru⟩, hu⟩

/-! ### The condition -/

/-- A tree with different numbers of black nodes has a lowest node that tells its sides apart. -/
theorem somewhere_uneven {t : RbNode D} (hfit : ∀ m ∈ pathBlacks t, m < heightLimit)
    (hb : ¬ BlackBalanced t) : Somewhere Uneven t := by
  induction t with
  | null => exact (hb trivial).elim
  | node d c l r ihl ihr =>
    have hside : ∀ m, m ∈ pathBlacks l ∨ m ∈ pathBlacks r → m < heightLimit := by
      intro m hm
      have hnode := hfit _ (List.mem_map_of_mem (List.mem_append.mpr hm))
      omega
    by_cases hbl : BlackBalanced l
    · by_cases hbr : BlackBalanced r
      · refine .inl ⟨hbl, hbr, fun hlr => hb ⟨hbl, hbr, hlr⟩, ?_, ?_⟩
        · exact hside _ (.inl (blackHeight_mem l))
        · exact hside _ (.inr (blackHeight_mem r))
      · exact .inr (.inr (ihr (fun m hm => hside m (.inr hm)) hbr))
    · exact .inr (.inl (ihl (fun m hm => hside m (.inl hm)) hbl))

theorem not_uneven_of_balanced {t : RbNode D} (hb : BlackBalanced t) : ¬ Somewhere Uneven t := by
  induction t with
  | null => exact id
  | node d c l r ihl ihr =>
    obtain ⟨hbl, hbr, hlr⟩ := hb
    rw [not_somewhere_node]
    refine ⟨?_, ihl hbl, ihr hbr⟩
    rintro ⟨-, -, hne, -⟩
    exact hne hlr

/-- The check does what it should exactly when the tree has a violation it looks at, or neither
a red node with a red left child nor a path with too many black nodes. -/
theorem rbSanityCheck_checked_iff (t : RbNode D) :
    SanityChecked t ↔ Somewhere RedRight t ∨ Somewhere Uneven t ∨
      ¬ Somewhere RedLeft t ∧ ∀ m ∈ pathBlacks t, m < heightLimit := by
  have hviolation : (¬ NoRedRed t ∨ ∃ m ∈ pathBlacks t, ∃ n ∈ pathBlacks t, m ≠ n) ↔
      ¬ (NoRedRed t ∧ BlackBalanced t) := by
    rw [blackBalanced_iff, not_and_or]
    push Not
    rfl
  by_cases hsilent : (rbSanityCheck t).2 = []
  · obtain ⟨hright, huneven⟩ := (rbSanityCheck_silent t).mp hsilent
    have hheight := rbSanityCheck_height t
    constructor
    · intro h
      have hno : NoRedRed t ∧ BlackBalanced t := by
        by_contra hno
        exact h.warned.mpr (hviolation.mpr hno) hsilent
      refine .inr (.inr ⟨((noRedRed_iff t).mp hno.1).1, ?_⟩)
      intro m hm
      have hm' := h.height hsilent m hm
      rcases hheight with ⟨⟨hb, hlt⟩, hnat⟩ | ⟨-, hzero⟩
      · omega
      · rw [hzero] at hm'
        cases hm'
    · rintro (h | h | ⟨hleft, hfit⟩)
      · exact (hright h).elim
      · exact (huneven h).elim
      · have hb : BlackBalanced t := by
          by_contra hb
          exact huneven (somewhere_uneven hfit hb)
        constructor
        · refine iff_of_false (not_not_intro hsilent) ?_
          rw [hviolation, not_not]
          exact ⟨(noRedRed_iff t).mpr ⟨hleft, hright⟩, hb⟩
        · intro _ m hm
          have hmem := blackHeight_mem t
          have hlt := hfit _ hmem
          rw [hheight.toNat (hheight.ne_zero_iff.mpr ⟨hb, hlt⟩),
            (blackBalanced_iff t).mp hb m hm _ hmem]
  · have hfound : Somewhere RedRight t ∨ Somewhere Uneven t := by
      by_contra hno
      rw [not_or] at hno
      exact hsilent ((rbSanityCheck_silent t).mpr hno)
    refine iff_of_true ⟨iff_of_true hsilent ?_, fun h => (hsilent h).elim⟩ ?_
    · rw [hviolation]
      rintro ⟨hred, hb⟩
      rcases hfound with h | h
      · exact ((noRedRed_iff t).mp hred).2 h
      · exact not_uneven_of_balanced hb h
    · rcases hfound with h | h
      · exact .inl h
      · exact .inr (.inl h)

def redOverLeft : RbNode ℕ := .node 2 black (.node 1 red (.leaf red 0) .null) .null

/-- The check prints nothing. -/
theorem rbSanityCheck_not_checked :
    rbtreeSanityCheck ⟨3, redOverLeft⟩ = (.success, []) ∧ ¬ SanityChecked redOverLeft := by
  refine ⟨rfl, ?_⟩
  intro h
  have hred : ¬ NoRedRed redOverLeft := by
    rintro ⟨⟨-, -, hred⟩, -⟩
    cases (hred rfl).1
  exact h.warned.mpr (.inl hred) rfl

end MorningProjects.Tree
