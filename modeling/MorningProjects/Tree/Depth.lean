import MorningProjects.Tree.RbBalance
import Mathlib.Data.Nat.Fib.Basic

/-!
# How deep the balanced trees are

A search goes no deeper than the tree is high. In an AVL tree a subtree of a
given height has at least a Fibonacci number of nodes, in a red-black tree at
least a power of two of them, and the height is at most twice the exponent.
-/
namespace MorningProjects.Tree
open Library

variable {κ D : Type*} {compare : D → D → ℤ}

/-- The number of comparisons that `lookup` makes. -/
def comparisons (compare : D → D → ℤ) (key : D) : Node κ D → ℕ
  | .null => 0
  | .node d _ l r =>
    if compare key d < 0 then comparisons compare key l + 1
    else if compare key d > 0 then comparisons compare key r + 1
    else 1

theorem comparisons_le_height (key : D) (t : Node κ D) :
    comparisons compare key t ≤ avlNodeHeight t := by
  induction t with
  | null => exact le_refl 0
  | node d c l r ihl ihr =>
    rw [comparisons, avlNodeHeight_node]
    split_ifs
    · exact Nat.succ_le_succ (ihl.trans (le_max_left _ _))
    · exact Nat.succ_le_succ (ihr.trans (le_max_right _ _))
    · exact Nat.succ_le_succ (Nat.zero_le _)

/-! ### AVL trees -/

theorem two_pow_le_fib (n : ℕ) : 2 ^ ((n + 1) / 2) ≤ Nat.fib (n + 2) := by
  induction n using Nat.twoStepInduction with
  | zero => decide
  | one => decide
  | more n ih _ =>
    have hmono : Nat.fib (n + 2) ≤ Nat.fib (n + 3) := Nat.fib_le_fib_succ
    have hhalf : (n + 2 + 1) / 2 = (n + 1) / 2 + 1 := by omega
    calc 2 ^ ((n + 2 + 1) / 2) = 2 ^ ((n + 1) / 2) + 2 ^ ((n + 1) / 2) := by
          rw [hhalf, pow_succ, mul_two]
      _ ≤ Nat.fib (n + 2) + Nat.fib (n + 3) := Nat.add_le_add ih (ih.trans hmono)
      _ = Nat.fib (n + 2 + 2) := Nat.fib_add_two.symm

/-- A balanced tree has the nodes of a Fibonacci tree of its height. -/
theorem fib_le_size {t : Node κ D} (ht : Balanced t) :
    Nat.fib (avlNodeHeight t + 2) ≤ t.size + 1 := by
  induction t with
  | null => exact le_refl 1
  | node d c l r ihl ihr =>
    obtain ⟨hl, hr, hlr, hrl⟩ := ht
    have hleft := ihl hl
    have hright := ihr hr
    have hstep : Nat.fib (max (avlNodeHeight l) (avlNodeHeight r) + 3) =
        Nat.fib (max (avlNodeHeight l) (avlNodeHeight r) + 1) +
          Nat.fib (max (avlNodeHeight l) (avlNodeHeight r) + 2) := Nat.fib_add_two
    rw [avlNodeHeight_node, Node.size_node]
    change Nat.fib (max (avlNodeHeight l) (avlNodeHeight r) + 3) ≤ _
    rcases le_total (avlNodeHeight l) (avlNodeHeight r) with h | h
    · rw [max_eq_right h] at hstep ⊢
      have hlow : Nat.fib (avlNodeHeight r + 1) ≤ Nat.fib (avlNodeHeight l + 2) :=
        Nat.fib_mono (by omega)
      omega
    · rw [max_eq_left h] at hstep ⊢
      have hlow : Nat.fib (avlNodeHeight l + 1) ≤ Nat.fib (avlNodeHeight r + 2) :=
        Nat.fib_mono (by omega)
      omega

theorem height_le_log_of_balanced {t : Node κ D} (ht : Balanced t) :
    avlNodeHeight t ≤ 2 * Nat.log 2 (t.size + 1) := by
  have hpow : 2 ^ ((avlNodeHeight t + 1) / 2) ≤ t.size + 1 :=
    (two_pow_le_fib (avlNodeHeight t)).trans (fib_le_size ht)
  have hlog : (avlNodeHeight t + 1) / 2 ≤ Nat.log 2 (t.size + 1) :=
    Nat.le_log_of_pow_le Nat.one_lt_two hpow
  omega

/-! ### Red-black trees -/

/-- A tree has at least the nodes of a full one of its black height. -/
theorem two_pow_blackHeight_le {t : RbNode D} (ht : BlackBalanced t) :
    2 ^ blackHeight t ≤ t.size + 1 := by
  induction t with
  | null => exact le_refl 1
  | node d c l r ihl ihr =>
    obtain ⟨hl, hr, hlr⟩ := ht
    have hleft := ihl hl
    have hright := ihr hr
    rw [← hlr] at hright
    have hpow : 2 ^ (blackHeight l + 1) = 2 ^ blackHeight l + 2 ^ blackHeight l := by
      rw [pow_succ, mul_two]
    rw [blackHeight_node, Node.size_node]
    split_ifs
    · rw [Nat.add_zero]
      omega
    · omega

/-- On no path there are more red nodes than black ones, but for a red root. -/
theorem height_le_blackHeight {t : RbNode D} (hn : NoRedRed t) (hb : BlackBalanced t) :
    avlNodeHeight t ≤ 2 * blackHeight t + if isRed t then 1 else 0 := by
  induction t with
  | null => exact Nat.zero_le _
  | node d c l r ihl ihr =>
    obtain ⟨hnl, hnr, hred⟩ := hn
    obtain ⟨hbl, hbr, hlr⟩ := hb
    have hleft := ihl hnl hbl
    have hright := ihr hnr hbr
    rw [avlNodeHeight_node, blackHeight_node]
    by_cases hc : c = red
    · obtain ⟨hl, hr⟩ := hred hc
      rw [hl] at hleft
      rw [hr] at hright
      simp only [hc, isRed, beq_self_eq_true, if_true, Bool.false_eq_true, if_false] at *
      omega
    · have hone : ∀ b : Bool, (if b then 1 else 0) ≤ 1 := by decide
      have hl := hone (isRed l)
      have hr := hone (isRed r)
      rw [if_neg hc]
      omega

theorem height_le_log_of_redBlackSearch {t : RbNode D} (ht : RedBlackSearch compare t) :
    avlNodeHeight t ≤ 2 * Nat.log 2 (t.size + 1) := by
  have hb := (blackBalanced_iff t).mpr ht.blackCount
  have hheight := height_le_blackHeight ht.noRedRed hb
  have hroot : isRed t = false := by
    rcases ht.blackRoot with rfl | ⟨d, l, r, rfl⟩
    · rfl
    · rfl
  have hlog : blackHeight t ≤ Nat.log 2 (t.size + 1) :=
    Nat.le_log_of_pow_le Nat.one_lt_two (two_pow_blackHeight_le hb)
  rw [hroot] at hheight
  simp only [Bool.false_eq_true, if_false] at hheight
  omega

end MorningProjects.Tree
