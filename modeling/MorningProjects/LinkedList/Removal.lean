import MorningProjects.LinkedList.WellFormed

/-!
# The two removals

`data_remove` looks for a value and `remove_elem` is handed a node. They unlink
the node by different tests, one by the tail and the other by the next link, and
arrive at the same state.
-/
namespace MorningProjects.LinkedList
open Library

variable {s : Linkit} {as xs ys : List ℕ} {a : ℕ} {data : ℤ} {fuel : ℕ}

theorem any_data_iff : ((s.heap a).any fun n => data = n.data) ↔
    readData s.heap (some a) = some data := by
  rw [readData, Option.bind_some]
  cases s.heap a with
  | none => simp
  | some n => simp [Eq.comm]

theorem Linkit.Links.firstFrom_data (h : s.Links (xs ++ a :: ys))
    (hfuel : (xs ++ a :: ys).length ≤ fuel) (ha : readData s.heap (some a) = some data)
    (hxs : ∀ b ∈ xs, readData s.heap (some b) ≠ some data) :
    firstFrom s.heap (fun d => data = d) fuel s.head = some (some a) := by
  rw [h.head, firstFrom_eq h.segment.nextChain _ hfuel, List.find?_append]
  have hnone : xs.find? (fun b => (s.heap b).any fun n => data = n.data) = none := by
    rw [List.find?_eq_none]
    intro b hb
    rw [any_data_iff]
    exact hxs b hb
  have hfound : (a :: ys).find? (fun b => (s.heap b).any fun n => data = n.data) = some a :=
    List.find?_cons_of_pos (any_data_iff.mpr ha)
  rw [hnone, hfound]
  rfl

theorem Linkit.Links.dataRemove_absent (h : s.Links as) (hfuel : as.length ≤ fuel)
    (hno : ∀ b ∈ as, readData s.heap (some b) ≠ some data) :
    ∃ r, dataRemove fuel s data = some (r, s) := by
  by_cases hhead : s.head = none
  · exact ⟨.failure, by rw [dataRemove, if_pos hhead]⟩
  · have hnone : as.find? (fun b => (s.heap b).any fun n => data = n.data) = none := by
      rw [List.find?_eq_none]
      intro b hb
      rw [any_data_iff]
      exact hno b hb
    have hfind := firstFrom_eq h.segment.nextChain (fun d => data = d) hfuel
    rw [hnone, ← h.head] at hfind
    refine ⟨.success, ?_⟩
    rw [dataRemove, if_neg hhead, hfind]
    rfl

/-- Unlinking keeps the data of the other nodes, and leaves alone what is not in the list. -/
theorem unlinked_heap_of_ne (xs ys : List ℕ) {b : ℕ} (hb : b ≠ a) :
    ((s.unlinked a xs.getLast? ys.head?).heap b).map LinkNode.data =
        (s.heap b).map LinkNode.data ∧
      (b ∉ xs ++ ys → (s.unlinked a xs.getLast? ys.head?).heap b = s.heap b) := by
  rw [unlinked_heap hb]
  constructor
  · simp
  · intro hout
    rw [List.mem_append, not_or] at hout
    rw [setPrev_of_ne fun heq => hout.2 (List.mem_of_head? heq),
      setNext_of_ne fun heq => hout.1 (List.mem_of_getLast? heq)]

/-- On a well-formed list with the cursor anywhere, removing a value and removing the first node
that holds it lead to one state: that node is gone and freed, and only a cursor on it has moved,
to the next node. Removing a value that does not occur changes nothing. -/
theorem dataRemove_eq_removeElem (h : s.Links as) (hfuel : as.length ≤ fuel) (data : ℤ) :
    (∀ xs a ys, as = xs ++ a :: ys → readData s.heap (some a) = some data →
      (∀ b ∈ xs, readData s.heap (some b) ≠ some data) →
      ∃ s', dataRemove fuel s data = some (.success, s') ∧
        removeElem s (some a) = some (.success, s') ∧ s'.Links (xs ++ ys) ∧ s'.heap a = none ∧
        (∀ b, b ≠ a → (s'.heap b).map LinkNode.data = (s.heap b).map LinkNode.data ∧
          (b ∉ as → s'.heap b = s.heap b)) ∧
        s'.currentElem = if s.currentElem = some a then ys.head? else s.currentElem) ∧
    ((∀ b ∈ as, readData s.heap (some b) ≠ some data) →
      ∃ r, dataRemove fuel s data = some (r, s)) := by
  constructor
  · rintro xs a ys rfl ha hxs
    obtain ⟨d, hplace⟩ := h.place
    refine ⟨s.unlinked a xs.getLast? ys.head?, ?_, hplace.removeElem_eq, h.unlinked, ?_, ?_, rfl⟩
    · exact hplace.dataRemove_eq (h.firstFrom_data hfuel ha hxs)
    · exact Function.update_self ..
    · intro b hb
      obtain ⟨hdata, hout⟩ := unlinked_heap_of_ne (s := s) xs ys hb
      refine ⟨hdata, fun hnot => hout ?_⟩
      intro hmem
      exact hnot (by
        rw [List.mem_append] at hmem ⊢
        exact hmem.imp_right (List.mem_cons_of_mem a))
  · intro hno
    exact h.dataRemove_absent hfuel hno

theorem dataRemove_eq_removeElem_example :
    ∃ s', dataRemove 3 threeNodes 1 = some (.success, s') ∧
      removeElem threeNodes (some 11) = some (.success, s') ∧ s'.Links [10, 12] ∧
      s'.currentElem = some 12 := by
  obtain ⟨s', hdata, helem, hlinks, -, -, hcursor⟩ :=
    (dataRemove_eq_removeElem threeNodes_links (le_refl 3) 1).1 [10] 11 [12] rfl rfl (by decide)
  exact ⟨s', hdata, helem, hlinks, hcursor⟩

end MorningProjects.LinkedList
