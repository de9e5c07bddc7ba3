import Mathlib.Data.List.Nodup
import Mathlib.Logic.Function.Basic
import Mathlib.Tactic

/-!
# What a table of slots holds

A slot holds an item or none, and the items are listed slot by slot. Writing a slot
replaces its item in the list, wherever it stands; the items that stay are told from
the one that goes by a test.
-/
namespace MorningProjects.Library

variable {ι α : Type*} {f : ι → Option α} {p : α → Bool} {i : ι}

theorem filterMap_filter_eq_self {l : List ι} (h : ∀ j ∈ l, ∀ a, f j = some a → p a = true) :
    (l.filterMap f).filter p = l.filterMap f := by
  apply List.filter_eq_self.mpr
  intro a ha
  obtain ⟨j, hj, hja⟩ := List.mem_filterMap.mp ha
  exact h j hj a hja

/-- A slot is written whose item, if any, is the only one that fails the test. -/
theorem filterMap_update_perm [DecidableEq ι] {l : List ι} (hl : l.Nodup) (hi : i ∈ l)
    (item : Option α)
    (hself : ∀ a, f i = some a → p a = false)
    (hothers : ∀ j ≠ i, ∀ a, f j = some a → p a = true) :
    (l.filterMap (Function.update f i item)).Perm
      (item.toList ++ (l.filterMap f).filter p) := by
  induction l with
  | nil => cases hi
  | cons j l ih =>
    obtain ⟨hjl, hl⟩ := List.nodup_cons.mp hl
    by_cases hji : j = i
    · subst hji
      have hrest : l.filterMap (Function.update f j item) = l.filterMap f := by
        apply List.filterMap_congr
        intro k hk
        exact Function.update_of_ne (ne_of_mem_of_not_mem hk hjl) ..
      have hkeep : (l.filterMap f).filter p = l.filterMap f :=
        filterMap_filter_eq_self fun k hk => hothers k (ne_of_mem_of_not_mem hk hjl)
      have hgone : ((j :: l).filterMap f).filter p = l.filterMap f := by
        rw [List.filterMap_cons]
        cases hfj : f j with
        | none => exact hkeep
        | some a =>
          dsimp only
          rw [List.filter_cons_of_neg (by rw [hself a hfj]; exact Bool.false_ne_true), hkeep]
      rw [hgone, List.filterMap_cons, Function.update_self, hrest]
      cases item with
      | none => exact List.Perm.refl _
      | some a => exact List.Perm.refl _
    · have hil : i ∈ l := (List.mem_cons.mp hi).resolve_left (Ne.symm hji)
      have hperm := ih hl hil
      rw [List.filterMap_cons, List.filterMap_cons, Function.update_of_ne hji]
      cases hfj : f j with
      | none => exact hperm
      | some a =>
        dsimp only
        rw [List.filter_cons_of_pos (hothers j hji a hfj)]
        exact (hperm.cons a).trans List.perm_middle.symm

end MorningProjects.Library
