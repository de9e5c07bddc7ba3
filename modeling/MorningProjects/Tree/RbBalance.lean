import MorningProjects.Tree.RbRun

/-!
# Attaching to a red-black tree restores its colors

`rb_rebalance` at a node repairs what the recursion below it left. What it may
leave in turn is a red node with one red child, and that only where the node
was red before; the parent of such a node is black and repairs it.
-/
namespace MorningProjects.Tree
open Library

variable {D : Type*} {compare : D → D → ℤ}

def NoRedRed : RbNode D → Prop
  | .null => True
  | .node _ c l r => NoRedRed l ∧ NoRedRed r ∧ (c = red → isRed l = false ∧ isRed r = false)

def pathBlacks : RbNode D → List ℕ
  | .null => [0]
  | .node _ c l r => (pathBlacks l ++ pathBlacks r).map (· + if c = red then 0 else 1)

structure RedBlackSearch (compare : D → D → ℤ) (t : RbNode D) : Prop where
  noRedRed : NoRedRed t
  blackCount : ∀ m ∈ pathBlacks t, ∀ n ∈ pathBlacks t, m = n
  blackRoot : t = .null ∨ ∃ d l r, t = .node d black l r
  ordered : StrictlyOrdered compare (traverseInorder t)

/-! ### Black heights -/

/-- The number of black nodes on the leftmost path. -/
def blackHeight : RbNode D → ℕ
  | .null => 0
  | .node _ c l _ => blackHeight l + if c = red then 0 else 1

def BlackBalanced : RbNode D → Prop
  | .null => True
  | .node _ _ l r => BlackBalanced l ∧ BlackBalanced r ∧ blackHeight l = blackHeight r

@[simp] theorem noRedRed_null : NoRedRed (.null : RbNode D) := trivial

@[simp] theorem noRedRed_node (d : D) (c : UInt32) (l r : RbNode D) :
    NoRedRed (.node d c l r) ↔
      NoRedRed l ∧ NoRedRed r ∧ (c = red → isRed l = false ∧ isRed r = false) := Iff.rfl

@[simp] theorem blackHeight_null : blackHeight (.null : RbNode D) = 0 := rfl

@[simp] theorem blackHeight_node (d : D) (c : UInt32) (l r : RbNode D) :
    blackHeight (.node d c l r) = blackHeight l + if c = red then 0 else 1 := rfl

@[simp] theorem blackBalanced_null : BlackBalanced (.null : RbNode D) := trivial

@[simp] theorem blackBalanced_node (d : D) (c : UInt32) (l r : RbNode D) :
    BlackBalanced (.node d c l r) ↔
      BlackBalanced l ∧ BlackBalanced r ∧ blackHeight l = blackHeight r := Iff.rfl

@[simp] theorem black_ne_red : black ≠ red := by decide

theorem blackHeight_mem (t : RbNode D) : blackHeight t ∈ pathBlacks t := by
  induction t with
  | null => simp [pathBlacks]
  | node d c l r ihl ihr =>
    rw [pathBlacks, blackHeight_node]
    exact List.mem_map_of_mem (List.mem_append_left _ ihl)

/-- All paths have equally many black nodes exactly when no node tells its sides apart. -/
theorem blackBalanced_iff (t : RbNode D) :
    BlackBalanced t ↔ ∀ m ∈ pathBlacks t, ∀ n ∈ pathBlacks t, m = n := by
  induction t with
  | null => simp [pathBlacks]
  | node d c l r ihl ihr =>
    rw [blackBalanced_node, ihl, ihr]
    simp only [pathBlacks, List.mem_map, List.mem_append]
    constructor
    · rintro ⟨hl, hr, hh⟩ _ ⟨m, hm, rfl⟩ _ ⟨n, hn, rfl⟩
      have hall : ∀ k, k ∈ pathBlacks l ∨ k ∈ pathBlacks r → k = blackHeight l := by
        rintro k (hk | hk)
        · exact hl k hk _ (blackHeight_mem l)
        · rw [hh]
          exact hr k hk _ (blackHeight_mem r)
      rw [hall m hm, hall n hn]
    · intro h
      have hsame : ∀ m n, (m ∈ pathBlacks l ∨ m ∈ pathBlacks r) →
          (n ∈ pathBlacks l ∨ n ∈ pathBlacks r) → m = n := by
        intro m n hm hn
        have := h _ ⟨m, hm, rfl⟩ _ ⟨n, hn, rfl⟩
        omega
      refine ⟨fun m hm n hn => hsame m n (.inl hm) (.inl hn),
        fun m hm n hn => hsame m n (.inr hm) (.inr hn), ?_⟩
      exact hsame _ _ (.inl (blackHeight_mem l)) (.inr (blackHeight_mem r))

/-! ### Between two levels of the recursion -/

/-- A red node with at most one red child and nothing else amiss. -/
def RedPair (t : RbNode D) : Prop :=
  ∃ d l r, t = .node d red l r ∧ NoRedRed l ∧ NoRedRed r ∧ (isRed l = false ∨ isRed r = false)

/-- What the recursion on a subtree `t` hands back: black heights are as before, and two
red nodes meet at most at the root, and only if that was red. -/
structure Mended (t t' : RbNode D) : Prop where
  balanced : BlackBalanced t'
  height : blackHeight t' = blackHeight t
  colors : NoRedRed t' ∨ isRed t = true ∧ RedPair t'

theorem Mended.children {t l r : RbNode D} {d : D} (h : Mended t (.node d red l r)) :
    NoRedRed l ∧ NoRedRed r ∧ (isRed l = false ∨ isRed r = false) ∧
      (isRed t = false → isRed l = false ∧ isRed r = false) := by
  rcases h.colors with hcolors | ⟨ht, _, _, _, heq, hl, hr, hone⟩
  · obtain ⟨hl, hr, hred⟩ := hcolors
    exact ⟨hl, hr, .inl (hred rfl).1, fun _ => hred rfl⟩
  · cases heq
    refine ⟨hl, hr, hone, fun hf => ?_⟩
    rw [ht] at hf
    cases hf

/-- A node handed back that is not red has no colors amiss. -/
theorem Mended.noRedRed {t t' : RbNode D} (h : Mended t t') (ht : isRed t' = false) :
    NoRedRed t' := by
  rcases h.colors with hcolors | ⟨-, d, l, r, rfl, -⟩
  · exact hcolors
  · simp at ht

section Rebalance

variable {n : ℤ} {d : D} {c : UInt32} {l l' r r' : RbNode D}

theorem rbRebalance_mended_left (hn : n < 0) (ht : NoRedRed (.node d c l r))
    (hb : BlackBalanced (.node d c l r)) (h : Mended l l') :
    ∃ t', rbRebalance n (.node d c l' r) = some t' ∧ Mended (.node d c l r) t' := by
  obtain ⟨-, hnr, hred⟩ := ht
  obtain ⟨-, hbr, hlr⟩ := hb
  have hheight := h.height
  by_cases hl' : isRed l' = true
  · obtain ⟨ld, ll, lr, rfl⟩ := exists_red_of_isRed hl'
    obtain ⟨hnll, hnlr, hone, hnone⟩ := h.children
    obtain ⟨hbll, hblr, hllr⟩ := h.balanced
    have hlow : blackHeight ll = blackHeight l := by simpa using hheight
    -- below a red node no red pair comes back
    have hpair : c = red → isRed ll = false ∧ isRed lr = false := fun hc => hnone (hred hc).1
    by_cases hr : isRed r = true
    · -- both children red: the colors flip
      obtain ⟨rd, rl, rr, rfl⟩ := exists_red_of_isRed hr
      have hc : c ≠ red := by
        intro hc
        simpa using (hred hc).2
      refine ⟨.node d red (.node ld black ll lr) (.node rd black rl rr),
        by simp [rbRebalance, hn, setColor], ?_, ?_, .inl ?_⟩
      · exact ⟨⟨hbll, hblr, hllr⟩, hbr, by simpa [hlow] using hlr⟩
      · simp [hc, hlow]
      · exact ⟨⟨hnll, hnlr, by simp⟩, ⟨hnr.1, hnr.2.1, by simp⟩, by simp⟩
    · by_cases hll : isRed ll = true
      · -- a red pair to the left: the child takes the place of the node
        obtain ⟨ed, el, er, rfl⟩ := exists_red_of_isRed hll
        have hc : c ≠ red := by
          intro hc
          simpa using (hpair hc).1
        refine ⟨.node ld black (.node ed red el er) (.node d red lr r),
          by simp [rbRebalance, hn, hr, leftChild, rbRotationLL], ?_, ?_, .inl ?_⟩
        · exact ⟨hbll, ⟨hblr, hbr, by omega⟩, by simpa using hllr⟩
        · simpa [hc] using hlow
        · exact ⟨hnll, ⟨hnlr, hnr, fun _ => ⟨by simpa using hone, by simpa using hr⟩⟩, by simp⟩
      · by_cases hlr' : isRed lr = true
        · obtain ⟨md, ml, mr, rfl⟩ := exists_red_of_isRed hlr'
          have hc : c ≠ red := by
            intro hc
            simpa using (hpair hc).2
          refine ⟨.node md black (.node ld red ll ml) (.node d red mr r),
            by simp [rbRebalance, hn, hr, hll, leftChild, rightChild, rbRotationLR,
              rbRotationRR, rbRotationLL], ?_, ?_, .inl ?_⟩
          · obtain ⟨hbml, hbmr, hmlr⟩ := hblr
            have hllm : blackHeight ll = blackHeight ml := by simpa using hllr
            exact ⟨⟨hbll, hbml, hllm⟩, ⟨hbmr, hbr, by omega⟩, by simpa [← hmlr] using hllm⟩
          · simpa [hc] using hlow
          · obtain ⟨hnml, hnmr, hmred⟩ := hnlr
            obtain ⟨hml, hmr⟩ := hmred rfl
            exact ⟨⟨hnll, hnml, fun _ => ⟨by simpa using hll, hml⟩⟩,
              ⟨hnmr, hnr, fun _ => ⟨hmr, by simpa using hr⟩⟩, by simp⟩
        · -- no red pair below: the node keeps its place
          refine ⟨.node d c (.node ld red ll lr) r,
            by simp [rbRebalance, hn, hr, hll, hlr', leftChild, rightChild], ?_, ?_, ?_⟩
          · exact ⟨⟨hbll, hblr, hllr⟩, hbr, by rw [hheight, hlr]⟩
          · rw [blackHeight_node, hheight, blackHeight_node]
          · by_cases hc : c = red
            · refine .inr ⟨by simpa using hc, d, .node ld red ll lr, r, by rw [hc], ?_, hnr,
                .inr (by simpa using hr)⟩
              exact ⟨hnll, hnlr, fun _ => ⟨by simpa using hll, by simpa using hlr'⟩⟩
            · refine .inl ?_
              exact ⟨⟨hnll, hnlr, fun _ => ⟨by simpa using hll, by simpa using hlr'⟩⟩, hnr,
                fun h => absurd h hc⟩
  · have hl' : isRed l' = false := by simpa using hl'
    refine ⟨.node d c l' r, by simp [rbRebalance, hn, hl'], ?_, ?_, .inl ?_⟩
    · exact ⟨h.balanced, hbr, by rw [hheight, hlr]⟩
    · rw [blackHeight_node, hheight, blackHeight_node]
    · exact ⟨h.noRedRed hl', hnr, fun hc => ⟨hl', (hred hc).2⟩⟩

theorem rbRebalance_mended_right (hn : ¬ n < 0) (ht : NoRedRed (.node d c l r))
    (hb : BlackBalanced (.node d c l r)) (h : Mended r r') :
    ∃ t', rbRebalance n (.node d c l r') = some t' ∧ Mended (.node d c l r) t' := by
  obtain ⟨hnl, -, hred⟩ := ht
  obtain ⟨hbl, -, hlr⟩ := hb
  have hheight := h.height
  by_cases hr' : isRed r' = true
  · obtain ⟨rd, rl, rr, rfl⟩ := exists_red_of_isRed hr'
    obtain ⟨hnrl, hnrr, hone, hnone⟩ := h.children
    obtain ⟨hbrl, hbrr, hrlr⟩ := h.balanced
    have hlow : blackHeight rl = blackHeight r := by simpa using hheight
    have hpair : c = red → isRed rl = false ∧ isRed rr = false := fun hc => hnone (hred hc).2
    by_cases hl : isRed l = true
    · obtain ⟨ld, ll, lr, rfl⟩ := exists_red_of_isRed hl
      have hc : c ≠ red := by
        intro hc
        simpa using (hred hc).1
      refine ⟨.node d red (.node ld black ll lr) (.node rd black rl rr),
        by simp [rbRebalance, hn, setColor], ?_, ?_, .inl ?_⟩
      · exact ⟨hbl, ⟨hbrl, hbrr, hrlr⟩, by simpa [hlow] using hlr⟩
      · simp [hc]
      · exact ⟨⟨hnl.1, hnl.2.1, by simp⟩, ⟨hnrl, hnrr, by simp⟩, by simp⟩
    · by_cases hrr : isRed rr = true
      · obtain ⟨ed, el, er, rfl⟩ := exists_red_of_isRed hrr
        have hc : c ≠ red := by
          intro hc
          simpa using (hpair hc).2
        refine ⟨.node rd black (.node d red l rl) (.node ed red el er),
          by simp [rbRebalance, hn, hl, rightChild, rbRotationRR], ?_, ?_, .inl ?_⟩
        · exact ⟨⟨hbl, hbrl, by omega⟩, hbrr, by simpa [hlr, hlow] using hrlr⟩
        · simp [hc]
        · exact ⟨⟨hnl, hnrl, fun _ => ⟨by simpa using hl, by simpa using hone⟩⟩, hnrr, by simp⟩
      · by_cases hrl' : isRed rl = true
        · obtain ⟨md, ml, mr, rfl⟩ := exists_red_of_isRed hrl'
          have hc : c ≠ red := by
            intro hc
            simpa using (hpair hc).1
          refine ⟨.node md black (.node d red l ml) (.node rd red mr rr),
            by simp [rbRebalance, hn, hl, hrr, leftChild, rightChild, rbRotationRL,
              rbRotationLL, rbRotationRR], ?_, ?_, .inl ?_⟩
          · obtain ⟨hbml, hbmr, hmlr⟩ := hbrl
            have hlowm : blackHeight ml = blackHeight r := by simpa using hlow
            have hmrr : blackHeight ml = blackHeight rr := by simpa using hrlr
            exact ⟨⟨hbl, hbml, by omega⟩, ⟨hbmr, hbrr, by omega⟩, by simp; omega⟩
          · simp [hc]
          · obtain ⟨hnml, hnmr, hmred⟩ := hnrl
            obtain ⟨hml, hmr⟩ := hmred rfl
            exact ⟨⟨hnl, hnml, fun _ => ⟨by simpa using hl, hml⟩⟩,
              ⟨hnmr, hnrr, fun _ => ⟨hmr, by simpa using hrr⟩⟩, by simp⟩
        · refine ⟨.node d c l (.node rd red rl rr),
            by simp [rbRebalance, hn, hl, hrr, hrl', leftChild, rightChild], ?_, ?_, ?_⟩
          · exact ⟨hbl, ⟨hbrl, hbrr, hrlr⟩, by rw [hheight, hlr]⟩
          · rw [blackHeight_node, blackHeight_node]
          · by_cases hc : c = red
            · refine .inr ⟨by simpa using hc, d, l, .node rd red rl rr, by rw [hc], hnl, ?_,
                .inl (by simpa using hl)⟩
              exact ⟨hnrl, hnrr, fun _ => ⟨by simpa using hrl', by simpa using hrr⟩⟩
            · refine .inl ?_
              exact ⟨hnl, ⟨hnrl, hnrr, fun _ => ⟨by simpa using hrl', by simpa using hrr⟩⟩,
                fun h => absurd h hc⟩
  · have hr' : isRed r' = false := by simpa using hr'
    refine ⟨.node d c l r', by simp [rbRebalance, hn, hr'], ?_, ?_, .inl ?_⟩
    · exact ⟨hbl, h.balanced, by rw [hheight, hlr]⟩
    · rw [blackHeight_node, blackHeight_node]
    · exact ⟨hnl, h.noRedRed hr', fun hc => ⟨(hred hc).1, hr'⟩⟩

end Rebalance

/-! ### The whole descent -/

/-- A tree with nothing amiss is handed back as it is. -/
theorem Mended.refl {t : RbNode D} (ht : NoRedRed t) (hb : BlackBalanced t) : Mended t t :=
  ⟨hb, rfl, .inl ht⟩

/-- The descent of a fresh red node keeps the black heights, whether it attaches it or not. -/
theorem rbNodeAttach_mended (compare : D → D → ℤ) (x : D) {t : RbNode D} (ht : NoRedRed t)
    (hb : BlackBalanced t) :
    ∃ t', rbNodeAttach compare x (.leaf red x) t = some t' ∧ Mended t t' := by
  induction t with
  | null =>
    refine ⟨.leaf red x, rfl, ?_, ?_, .inl ?_⟩
    · simp [Node.leaf]
    · simp [Node.leaf]
    · simp [Node.leaf]
  | node d c l r ihl ihr =>
    rw [rbNodeAttach]
    split_ifs with h0 hlt
    · obtain ⟨l', hl', hmend⟩ := ihl ht.1 hb.1
      rw [hl', Option.bind_some]
      exact rbRebalance_mended_left hlt ht hb hmend
    · obtain ⟨r', hr', hmend⟩ := ihr ht.2.1 hb.2.1
      rw [hr', Option.bind_some]
      exact rbRebalance_mended_right hlt ht hb hmend
    · -- an equal datum: no rebalancing at this node
      exact ⟨_, rfl, Mended.refl ht hb⟩

theorem Mended.blacken {t d c l r} (h : Mended t (.node d c l r : RbNode D)) :
    NoRedRed (.node d black l r) ∧ BlackBalanced (.node d black l r) := by
  refine ⟨?_, h.balanced⟩
  rcases h.colors with ⟨hl, hr, -⟩ | ⟨-, _, _, _, heq, hl, hr, -⟩
  · exact ⟨hl, hr, fun hc => absurd hc black_ne_red⟩
  · cases heq
    exact ⟨hl, hr, fun hc => absurd hc black_ne_red⟩

/-- `RBtree_attach` with a fresh red node keeps a red-black search tree one, whether an
equal datum is stored or not, and dereferences no NULL child. -/
theorem rbtreeAttach_redBlackSearch (hc : TotalPreorder compare) {t : TreeTag UInt32 D}
    (h : RedBlackSearch compare t.root) (x : D) :
    ∃ t', rbtreeAttach compare t x (some red) = some (.success, t') ∧
      RedBlackSearch compare t'.root ∧
      traverseInorder t'.root = insertAbsent compare x (traverseInorder t.root) := by
  obtain ⟨root, hroot, hmend⟩ :=
    rbNodeAttach_mended compare x h.noRedRed ((blackBalanced_iff _).mpr h.blackCount)
  obtain ⟨root', hroot', hne, hin⟩ := rbNodeAttach_exists hc x red h.ordered
  obtain rfl : root = root' := Option.some.inj (hroot.symm.trans hroot')
  cases root with
  | null => exact absurd rfl hne
  | node d c l r =>
    obtain ⟨hn, hb⟩ := hmend.blacken
    refine ⟨⟨t.numNodes + 1, .node d black l r⟩, ?_, ?_, hin⟩
    · rw [rbtreeAttach, hroot]
      rfl
    · refine ⟨hn, (blackBalanced_iff _).mp hb, .inr ⟨d, l, r, rfl⟩, ?_⟩
      change StrictlyOrdered compare (traverseInorder (.node d c l r))
      rw [hin]
      exact h.ordered.insertAbsent hc x

theorem rbtreeAttach_redBlackSearch_example :
    ∃ t', rbtreeAttach compareKeys ⟨2, .node (2, 0) black (.node (1, 1) red .null .null)
        .null⟩ (0, 2) (some red) = some (.success, t') ∧ RedBlackSearch compareKeys t'.root := by
  obtain ⟨t', ht', hsearch, -⟩ := rbtreeAttach_redBlackSearch compareKeys_preorder
    (t := ⟨2, .node (2, 0) black (.node (1, 1) red .null .null) .null⟩)
    ⟨by simp, by decide, .inr ⟨_, _, _, rfl⟩, by simp [StrictlyOrdered, compareKeys]⟩ (0, 2)
  exact ⟨t', ht', hsearch⟩

end MorningProjects.Tree
