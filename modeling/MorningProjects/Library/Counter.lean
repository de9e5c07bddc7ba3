import Mathlib.Tactic

/-!
# Counters of 32 bits

A counter follows the size of what it counts up to `2^32 - 1` and down to 0.
-/
namespace MorningProjects.Library

variable {n : UInt32}

theorem toNat_succ_iff : (n + 1).toNat = n.toNat + 1 ↔ n.toNat + 1 < 2 ^ 32 := by
  have hlt := n.toNat_lt
  rw [UInt32.toNat_add]
  change (n.toNat + 1) % 2 ^ 32 = n.toNat + 1 ↔ _
  omega

theorem toNat_succ (h : n.toNat + 1 < 2 ^ 32) : (n + 1).toNat = n.toNat + 1 :=
  toNat_succ_iff.mpr h

theorem toNat_pos (h : n ≠ 0) : 0 < n.toNat := by
  rw [Nat.pos_iff_ne_zero]
  intro h0
  exact h (UInt32.toNat_inj.mp h0)

theorem toNat_pred (h : 0 < n.toNat) : (n - 1).toNat + 1 = n.toNat := by
  have hle : (1 : UInt32) ≤ n := UInt32.le_iff_toNat_le.mpr h
  rw [UInt32.toNat_sub_of_le _ _ hle]
  change n.toNat - 1 + 1 = n.toNat
  omega

/-- Adding fewer than `2^32` changes a counter, unless nothing is added. -/
theorem eq_zero_of_toNat_add {k : ℕ} (hk : k < UInt32.size)
    (h : (n + UInt32.ofNat k).toNat = n.toNat) : k = 0 := by
  have hlt := n.toNat_lt
  rw [UInt32.toNat_add, UInt32.toNat_ofNat_of_lt' hk] at h
  change k < 2 ^ 32 at hk
  omega

end MorningProjects.Library
