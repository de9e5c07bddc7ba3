import Mathlib.Tactic

/-!
# Loops that may not end

A loop runs its body as long as its condition holds, and the body may have no
result. An invariant says what holds where the loop ends, a variant bounds its
rounds, and an invariant under which the condition holds keeps it from ending.
-/
namespace MorningProjects.Library

variable {σ : Type*} (goesOn : σ → Bool) (body : σ → Option σ)

/-- The state in which the loop ends, if it does within the given number of rounds. -/
def whileWithin : ℕ → σ → Option σ
  | 0, s => if goesOn s then none else some s
  | rounds + 1, s => if goesOn s then (body s).bind (whileWithin rounds) else some s

variable {goesOn body} {Inv : σ → Prop} {s t : σ} {rounds : ℕ}

theorem whileWithin_of_not (h : goesOn s = false) :
    whileWithin goesOn body rounds s = some s := by
  cases rounds <;> simp [whileWithin, h]

/-- Where the loop ends its condition fails, and what its body preserves holds. -/
theorem whileWithin_invariant
    (hbody : ∀ s s', Inv s → goesOn s → body s = some s' → Inv s') (hs : Inv s)
    (h : whileWithin goesOn body rounds s = some t) : Inv t ∧ goesOn t = false := by
  induction rounds generalizing s with
  | zero =>
    rw [whileWithin] at h
    split_ifs at h with hgo
    cases h
    exact ⟨hs, Bool.eq_false_of_not_eq_true hgo⟩
  | succ rounds ih =>
    rw [whileWithin] at h
    split_ifs at h with hgo
    · obtain ⟨s', hs', h⟩ := Option.bind_eq_some_iff.mp h
      exact ih (hbody s s' hs hgo hs') h
    · cases h
      exact ⟨hs, Bool.eq_false_of_not_eq_true hgo⟩

theorem exists_whileWithin {variant : σ → ℕ}
    (hbody : ∀ s, Inv s → goesOn s → ∃ s', body s = some s' ∧ Inv s' ∧ variant s' < variant s)
    (hs : Inv s) (hrounds : variant s ≤ rounds) :
    ∃ t, whileWithin goesOn body rounds s = some t := by
  induction rounds generalizing s with
  | zero =>
    cases hgo : goesOn s with
    | false => exact ⟨s, whileWithin_of_not hgo⟩
    | true =>
      obtain ⟨s', -, -, hlt⟩ := hbody s hs hgo
      omega
  | succ rounds ih =>
    cases hgo : goesOn s with
    | false => exact ⟨s, whileWithin_of_not hgo⟩
    | true =>
      obtain ⟨s', hs', hinv, hlt⟩ := hbody s hs hgo
      obtain ⟨t, ht⟩ := ih hinv (by omega)
      exact ⟨t, by rw [whileWithin, if_pos hgo, hs', Option.bind_some, ht]⟩

variable (Inv) in
/-- A loop whose condition holds as long as its body has a result does not end. -/
theorem whileWithin_eq_none
    (hbody : ∀ s, Inv s → goesOn s ∧ ∀ s', body s = some s' → Inv s') (hs : Inv s) :
    whileWithin goesOn body rounds s = none := by
  induction rounds generalizing s with
  | zero => rw [whileWithin, if_pos (hbody s hs).1]
  | succ rounds ih =>
    obtain ⟨hgo, hnext⟩ := hbody s hs
    rw [whileWithin, if_pos hgo, Option.bind_eq_none_iff]
    exact fun s' hs' => ih (hnext s' hs')

end MorningProjects.Library
