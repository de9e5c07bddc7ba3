import Mathlib.Tactic

/-!
# Searching a list for the first hit

A search visits entries in order and answers with the first that its test hits.
A visit may end the search early, or have no result. Where the test hits more
than the wanted entries, the answer is right exactly when the search meets no
false hit and no early end on its way to a wanted entry.
-/
namespace MorningProjects.Library

variable {α : Type*}

/-- The search; `some none` is the answer that nothing was found. -/
def searchFrom (visit : α → Option Bool) (hit : α → Prop) [DecidablePred hit] :
    List α → Option (Option α)
  | [] => some none
  | a :: l => (visit a).bind fun goesOn =>
    if goesOn = false then some none
    else if hit a then some (some a)
    else searchFrom visit hit l

/-- The answer is a wanted entry, or that there is none. -/
def AnswersExactly (wanted : α → Prop) (l : List α) : Option (Option α) → Prop
  | none => False
  | some none => ∀ a ∈ l, ¬ wanted a
  | some (some a) => a ∈ l ∧ wanted a

/-- Every entry that a search for the wanted ones reaches is visited and hit only if it is
wanted, or ends the search with no wanted entry from there on. -/
def ReachesWanted (visit : α → Option Bool) (hit wanted : α → Prop) (l : List α) : Prop :=
  ∀ before a after, l = before ++ a :: after →
    (∀ b ∈ before, visit b = some true ∧ ¬ wanted b) →
      visit a = some true ∧ (hit a → wanted a) ∨
        visit a = some false ∧ ∀ b ∈ a :: after, ¬ wanted b

def NoFalseHitFirst (hit wanted : α → Prop) (l : List α) : Prop :=
  ∀ before a after, l = before ++ a :: after → (∀ b ∈ before, ¬ wanted b) → hit a → wanted a

variable {visit : α → Option Bool} {hit wanted : α → Prop} {a : α} {l : List α}

theorem reachesWanted_cons :
    ReachesWanted visit hit wanted (a :: l) ↔
      visit a = some true ∧ (hit a → wanted a) ∧
          (¬ wanted a → ReachesWanted visit hit wanted l) ∨
        visit a = some false ∧ ∀ b ∈ a :: l, ¬ wanted b := by
  constructor
  · intro h
    rcases h [] a l rfl (fun b hb => by cases hb) with ⟨hgo, hhit⟩ | hend
    · refine .inl ⟨hgo, hhit, fun hno before b after hl hbefore => ?_⟩
      apply h (a :: before) b after (by rw [hl, List.cons_append])
      exact List.forall_mem_cons.mpr ⟨⟨hgo, hno⟩, hbefore⟩
    · exact .inr hend
  · intro h before b after hl hbefore
    cases before with
    | nil =>
      obtain ⟨rfl, rfl⟩ := List.cons_eq_cons.mp hl
      rcases h with ⟨hgo, hhit, -⟩ | hend
      · exact .inl ⟨hgo, hhit⟩
      · exact .inr hend
    | cons c before =>
      obtain ⟨rfl, htail⟩ := List.cons_eq_cons.mp hl
      obtain ⟨⟨hgo, hno⟩, hbefore⟩ := List.forall_mem_cons.mp hbefore
      rcases h with ⟨-, -, hrest⟩ | ⟨hend, -⟩
      · exact hrest hno before b after htail hbefore
      · rw [hgo] at hend
        cases hend

theorem reachesWanted_const :
    ReachesWanted (fun _ => some true) hit wanted l ↔ NoFalseHitFirst hit wanted l := by
  simp [ReachesWanted, NoFalseHitFirst]

theorem noFalseHitFirst_cons :
    NoFalseHitFirst hit wanted (a :: l) ↔
      (hit a → wanted a) ∧ (¬ wanted a → NoFalseHitFirst hit wanted l) := by
  simp only [← reachesWanted_const, reachesWanted_cons, true_and, Option.some.injEq,
    Bool.true_eq_false, false_and, or_false]

theorem answersExactly_cons_of_not (hno : ¬ wanted a) (result : Option (Option α)) :
    AnswersExactly wanted (a :: l) result ↔ AnswersExactly wanted l result := by
  cases result with
  | none => exact Iff.rfl
  | some found =>
    cases found with
    | none => exact ⟨fun h b hb => h b (List.mem_cons_of_mem a hb),
        fun h => List.forall_mem_cons.mpr ⟨hno, h⟩⟩
    | some b =>
      refine and_congr_left fun hb => ?_
      rw [List.mem_cons, or_iff_right]
      rintro rfl
      exact hno hb

variable [DecidablePred hit]

/-- A search answers exactly when it meets no false hit and no early end on its way. -/
theorem answersExactly_searchFrom_iff (hwanted : ∀ a, wanted a → hit a) (l : List α) :
    AnswersExactly wanted l (searchFrom visit hit l) ↔ ReachesWanted visit hit wanted l := by
  induction l with
  | nil =>
    refine iff_of_true (fun a ha => by cases ha) fun before a after hl => ?_
    cases before <;> cases hl
  | cons a l ih =>
    rw [reachesWanted_cons, searchFrom]
    cases hvisit : visit a with
    | none => simp [AnswersExactly]
    | some goesOn =>
      cases goesOn with
      | false => simp [AnswersExactly]
      | true =>
        by_cases hhit : hit a
        · by_cases hw : wanted a
          · simp [hhit, hw, AnswersExactly]
          · simp [hhit, hw, AnswersExactly]
        · have hno : ¬ wanted a := fun hw => hhit (hwanted a hw)
          simp [hhit, hno, answersExactly_cons_of_not hno, ih]

theorem searchFrom_append (h : searchFrom visit hit l = some (some a)) (l' : List α) :
    searchFrom visit hit (l ++ l') = some (some a) := by
  induction l with
  | nil => cases h
  | cons b l ih =>
    rw [searchFrom] at h
    rw [List.cons_append, searchFrom]
    obtain ⟨goesOn, hvisit, h⟩ := Option.bind_eq_some_iff.mp h
    rw [hvisit, Option.bind_some]
    split_ifs at h ⊢ with hend hhit
    · cases h
    · exact h
    · exact ih h

/-- A search that found nothing, and was not ended, had no hit to make. -/
theorem not_hit_of_searchFrom (hgo : ∀ b ∈ l, visit b ≠ some false)
    (h : searchFrom visit hit l = some none) : ∀ b ∈ l, visit b = some true ∧ ¬ hit b := by
  induction l with
  | nil => exact fun b hb => by cases hb
  | cons b l ih =>
    obtain ⟨hb, hgo⟩ := List.forall_mem_cons.mp hgo
    rw [searchFrom] at h
    obtain ⟨goesOn, hvisit, h⟩ := Option.bind_eq_some_iff.mp h
    rw [hvisit] at hb
    split_ifs at h with hend hhit
    · exact absurd (congrArg some hend) hb
    · cases h
    · refine List.forall_mem_cons.mpr ⟨⟨?_, hhit⟩, ih hgo h⟩
      rw [hvisit, Bool.eq_true_of_not_eq_false hend]

theorem searchFrom_append_of_not_hit (h : ∀ b ∈ l, visit b = some true ∧ ¬ hit b)
    (l' : List α) : searchFrom visit hit (l ++ l') = searchFrom visit hit l' := by
  induction l with
  | nil => rfl
  | cons b l ih =>
    obtain ⟨⟨hvisit, hno⟩, hrest⟩ := List.forall_mem_cons.mp h
    rw [List.cons_append, searchFrom, hvisit, Option.bind_some, if_neg Bool.noConfusion,
      if_neg hno, ih hrest]

theorem searchFrom_const (l : List α) :
    searchFrom (fun _ => some true) hit l = some (l.find? (decide <| hit ·)) := by
  induction l with
  | nil => rfl
  | cons a l ih =>
    rw [searchFrom, Option.bind_some, ih, List.find?_cons]
    by_cases hhit : hit a <;> simp [hhit]

theorem answersExactly_find?_iff (hwanted : ∀ a, wanted a → hit a) (l : List α) :
    AnswersExactly wanted l (some (l.find? (decide <| hit ·))) ↔ NoFalseHitFirst hit wanted l := by
  rw [← searchFrom_const, answersExactly_searchFrom_iff hwanted, reachesWanted_const]

end MorningProjects.Library
