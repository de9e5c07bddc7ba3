import MorningProjects.Library.Comparator

/-!
# A set of data with one datum for a key

The set is the list of its data in the order of a comparator, so that two equal
sets are equal lists. Attaching a datum whose key is there changes nothing, and
removing a key takes out its datum.
-/
namespace MorningProjects.Library

variable {α : Type*} {compare : α → α → ℤ}

inductive KeyedCall (α : Type*) where
  | attach (data : α)
  | remove (key : α)
  | lookup (key : α)

inductive KeyedAnswer (α : Type*) where
  | attached
  | removed (data : List α)
  | found (found : Bool)
  deriving DecidableEq

/-- What a call does to the set, and its answer. -/
def keyedSet (compare : α → α → ℤ) (l : List α) : KeyedCall α → List α × KeyedAnswer α
  | .attach data => (insertAbsent compare data l, .attached)
  | .remove key =>
    (l.filter fun d => compare key d ≠ 0, .removed (l.filter fun d => compare key d = 0))
  | .lookup key => (l, .found (l.any fun d => compare key d = 0))

theorem insertAbsent_eq_insertAfter {x : α} {l : List α} (h : ∀ d ∈ l, compare x d ≠ 0) :
    insertAbsent compare x l = insertAfter compare x l := by
  rw [insertAbsent, if_neg]
  rintro ⟨d, hd, h0⟩
  exact h d hd h0

theorem keyedSet_remove_absent {key : α} {l : List α} (h : ∀ d ∈ l, compare key d ≠ 0) :
    keyedSet compare l (.remove key) = (l, .removed []) := by
  have hall : ∀ d ∈ l, decide (compare key d ≠ 0) = true := by
    intro d hd
    exact decide_eq_true (h d hd)
  have hnone : ∀ d ∈ l, ¬ decide (compare key d = 0) = true := by
    intro d hd h0
    exact h d hd (of_decide_eq_true h0)
  rw [keyedSet, List.filter_eq_self.mpr hall, List.filter_eq_nil_iff.mpr hnone]

theorem keyedSet_remove_present (hc : TotalPreorder compare) {key d : α} {before after : List α}
    (hl : StrictlyOrdered compare (before ++ d :: after)) (h0 : compare key d = 0) :
    keyedSet compare (before ++ d :: after) (.remove key) =
      (before ++ after, .removed [d]) := by
  obtain ⟨-, -, hbefore, hafter, -⟩ := strictlyOrdered_split.mp hl
  have hb : ∀ e ∈ before, compare key e ≠ 0 := by
    intro e he
    have hlt := hc.gt_iff.mpr (hc.lt_of_lt_of_le (hbefore e he) (hc.eq_comm h0).le)
    omega
  have ha : ∀ e ∈ after, compare key e ≠ 0 := by
    intro e he
    have hlt := hc.lt_of_le_of_lt h0.le (hafter e he)
    omega
  obtain ⟨hkeep, hgone⟩ := Prod.mk.inj (keyedSet_remove_absent hb)
  obtain ⟨hkeep', hgone'⟩ := Prod.mk.inj (keyedSet_remove_absent ha)
  rw [keyedSet, List.filter_append, List.filter_append, List.filter_cons, List.filter_cons, hkeep,
    hkeep', KeyedAnswer.removed.inj hgone, KeyedAnswer.removed.inj hgone']
  simp [h0]

theorem keyedSet_strictlyOrdered (hc : TotalPreorder compare) {l : List α}
    (hl : StrictlyOrdered compare l) (call : KeyedCall α) :
    StrictlyOrdered compare (keyedSet compare l call).1 := by
  cases call with
  | attach data => exact hl.insertAbsent hc data
  | remove key => exact hl.filter _
  | lookup key => exact hl

theorem length_keyedSet_le (compare : α → α → ℤ) (l : List α) (call : KeyedCall α) :
    (keyedSet compare l call).1.length ≤ l.length + 1 := by
  cases call with
  | attach data =>
    rw [keyedSet, insertAbsent]
    split_ifs
    · exact Nat.le_succ _
    · exact (insertAfter_perm data l).length_eq.le
  | remove key => exact (List.length_filter_le _ l).trans (Nat.le_succ _)
  | lookup key => exact Nat.le_succ _

end MorningProjects.Library
