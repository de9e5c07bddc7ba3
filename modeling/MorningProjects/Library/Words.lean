import Mathlib.Data.List.TakeWhile
import Mathlib.Tactic

/-!
# Words of a line

The words between separators, and `strtok`, which finds them one after the other in
what is left of the line.
-/
namespace MorningProjects.Library

variable {α : Type*} [DecidableEq α]

def words (sep : α) (line : List α) : List (List α) := (line.splitOn sep).filter (· ≠ [])

/-- The next word and what is left behind the separator after it. -/
def strtok (sep : α) (line : List α) : Option (List α × List α) :=
  let rest := line.dropWhile (· = sep)
  if rest = [] then none
  else some (rest.takeWhile (· ≠ sep), (rest.dropWhile (· ≠ sep)).drop 1)

variable {sep : α} {line rest w : List α}

theorem words_sep_cons (line : List α) : words sep (sep :: line) = words sep line := by
  rw [words, words, List.splitOn_cons_eq_if_modifyHead, if_pos (beq_self_eq_true sep)]
  exact List.filter_cons_of_neg (by simp)

theorem words_dropWhile (line : List α) :
    words sep (line.dropWhile (· = sep)) = words sep line := by
  induction line with
  | nil => rfl
  | cons x line ih =>
    by_cases hx : x = sep
    · rw [List.dropWhile_cons_of_pos (by simpa using hx), ih, hx, words_sep_cons]
    · rw [List.dropWhile_cons_of_neg (by simpa using hx)]

theorem words_singleton (hw : sep ∉ w) (hne : w ≠ []) : words sep w = [w] := by
  rw [words, List.splitOn_eq_singleton hw]
  exact List.filter_cons_of_pos (by simpa using hne)

theorem words_append_cons (hw : sep ∉ w) (hne : w ≠ []) (rest : List α) :
    words sep (w ++ sep :: rest) = w :: words sep rest := by
  rw [words, List.splitOn_append_cons_self_of_not_mem hw]
  exact List.filter_cons_of_pos (by simpa using hne)

theorem not_mem_takeWhile_ne (line : List α) : sep ∉ line.takeWhile (· ≠ sep) := by
  intro h
  simpa using List.mem_takeWhile_imp h

theorem strtok_eq_none (h : strtok sep line = none) : words sep line = [] := by
  rw [strtok] at h
  split_ifs at h with hnil
  rw [← words_dropWhile, hnil]
  rfl

theorem strtok_eq_some (h : strtok sep line = some (w, rest)) :
    words sep line = w :: words sep rest := by
  rw [strtok] at h
  split_ifs at h with hnil
  obtain ⟨rfl, rfl⟩ := Prod.mk.inj (Option.some.inj h)
  rw [← words_dropWhile]
  have hsplit := List.takeWhile_append_dropWhile (p := (· ≠ sep)) (l := line.dropWhile (· = sep))
  have hhead := List.head_dropWhile_not (· = sep) hnil
  generalize line.dropWhile (· = sep) = rest at hnil hsplit hhead
  have hne : rest.takeWhile (· ≠ sep) ≠ [] := by
    cases rest with
    | nil => exact (hnil rfl).elim
    | cons x rest =>
      rw [List.head_cons] at hhead
      rw [List.takeWhile_cons_of_pos (by simpa using hhead)]
      exact List.cons_ne_nil _ _
  have hout : sep ∉ rest.takeWhile (· ≠ sep) := not_mem_takeWhile_ne rest
  cases hback : rest.dropWhile (· ≠ sep) with
  | nil =>
    rw [hback, List.append_nil] at hsplit
    nth_rewrite 1 [← hsplit]
    exact words_singleton hout hne
  | cons x back =>
    have hx : x = sep := by
      have hne' : rest.dropWhile (· ≠ sep) ≠ [] := by
        rw [hback]
        exact List.cons_ne_nil _ _
      have hfirst := List.head_dropWhile_not (· ≠ sep) hne'
      simp only [hback, List.head_cons] at hfirst
      simpa using hfirst
    rw [hback, hx] at hsplit
    nth_rewrite 1 [← hsplit]
    exact words_append_cons hout hne back

end MorningProjects.Library
